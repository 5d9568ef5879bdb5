import Silk.ResumptionTriple

/-!
# Executions with planned choices

A plan lists the choices of an execution in advance, one for each call. The
execution returns what it has not used of the plan, so that the parts of a
program use it up one after the other.
-/

namespace Silk.Resumption

variable {Call : Type} {Reply : Call → Type} {α β : Type} {σ Choice : Type}

section Programs

variable (exec : Choice → σ → (c : Call) → Reply c × σ)

def Program.follow : (plan : ℕ → Choice) → Program Call Reply α → σ → α × σ × (ℕ → Choice)
  | plan, .done a, s => (a, s, plan)
  | plan, .call c next, s =>
    (next (exec (plan 0) s c).1).follow (fun n => plan (n + 1)) (exec (plan 0) s c).2

variable {exec}

theorem Program.follow_bind (plan : ℕ → Choice) (p : Program Call Reply α)
    (f : α → Program Call Reply β) (s : σ) :
    (p >>= f).follow exec plan s =
      (f (p.follow exec plan s).1).follow exec (p.follow exec plan s).2.2
        (p.follow exec plan s).2.1 := by
  induction p generalizing plan s with
  | done a => rfl
  | call c next ih => exact ih _ _ _

theorem Program.runWith_eq_follow (choice : Choice) (p : Program Call Reply α) (s : σ) :
    p.runWith exec choice s =
      ((p.follow exec (fun _ => choice) s).1, (p.follow exec (fun _ => choice) s).2.1) := by
  induction p generalizing s with
  | done a => rfl
  | call c next ih => exact ih _ _

end Programs

namespace Fallible

variable {Answer : Call → Type} {E ε ε' : Type}
  {exec : Choice → σ → (c : Call) → Except E (Answer c) × σ}

theorem follow_bind_ok {plan rest : ℕ → Choice} {p : Fallible Call Answer E ε α}
    {f : α → Fallible Call Answer E ε β} {s t : σ} {a : α}
    (h : p.run.follow exec plan s = (.ok a, t, rest)) :
    (p >>= f).run.follow exec plan s = (f a).run.follow exec rest t := by
  rw [run_bind, Program.follow_bind, h]

theorem follow_bind_error {plan rest : ℕ → Choice} {p : Fallible Call Answer E ε α}
    {f : α → Fallible Call Answer E ε β} {s t : σ} {e : ε}
    (h : p.run.follow exec plan s = (.error e, t, rest)) :
    (p >>= f).run.follow exec plan s = (.error e, t, rest) := by
  rw [run_bind, Program.follow_bind, h]
  rfl

theorem follow_wrap (plan : ℕ → Choice) (f : ε → ε') (p : Fallible Call Answer E ε α) (s : σ) :
    (wrap f p).run.follow exec plan s =
      ((p.run.follow exec plan s).1.mapError f, (p.run.follow exec plan s).2) :=
  Program.follow_bind _ _ _ _

theorem follow_attempt (plan : ℕ → Choice) (p : Fallible Call Answer E ε α) (s : σ) :
    (attempt p : Fallible Call Answer E ε' (Except ε α)).run.follow exec plan s =
      (.ok (p.run.follow exec plan s).1, (p.run.follow exec plan s).2) :=
  Program.follow_bind _ _ _ _

theorem follow_map (plan : ℕ → Choice) (p : Fallible Call Answer E ε α) (g : α → β) (s : σ) :
    (p >>= fun a => pure (g a)).run.follow exec plan s =
      ((p.run.follow exec plan s).1.map g, (p.run.follow exec plan s).2) := by
  rw [run_bind, Program.follow_bind]
  cases h : (p.run.follow exec plan s).1 with
  | error e => rfl
  | ok a => rfl

end Fallible
end Silk.Resumption
