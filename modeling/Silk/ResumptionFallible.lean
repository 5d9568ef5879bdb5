import Silk.ResumptionProgram

/-!
# Programs whose calls may fail

Every reply is either an answer or an error, and a program that meets an error
may stop with an error of its own. `ExceptT` over programs writes such programs;
a strict program stops at the first failed call, so that an execution with a
result has met no failed call at all.
-/

namespace Silk.Resumption

/-- Programs over calls that answer `Answer c` or fail with an `E`. -/
abbrev Fallible (Call : Type) (Answer : Call → Type) (E ε : Type) : Type → Type :=
  ExceptT ε (Program Call fun c => Except E (Answer c))

namespace Fallible

variable {Call : Type} {Answer : Call → Type} {E ε : Type} {α β : Type} {σ Choice : Type}

def request (c : Call) (wrap : E → ε) : Fallible Call Answer E ε (Answer c) :=
  ExceptT.mk (.call c fun reply => .done (reply.mapError wrap))

theorem run_bind (p : Fallible Call Answer E ε α) (f : α → Fallible Call Answer E ε β) :
    (p >>= f).run = p.run >>= fun res => match res with
      | .ok a => (f a).run
      | .error e => .done (.error e) := rfl

/-- A failed call ends the program with an error. -/
def Strict : Program Call (fun c => Except E (Answer c)) (Except ε α) → Prop
  | .done _ => True
  | .call _ next => (∀ e, ∃ e', next (.error e) = .done (.error e')) ∧ ∀ r, Strict (next r)

theorem Strict.request (c : Call) (wrap : E → ε) :
    Strict (request c wrap : Fallible Call Answer E ε (Answer c)).run :=
  ⟨fun e => ⟨wrap e, rfl⟩, fun _ => trivial⟩

theorem Strict.bind {p : Fallible Call Answer E ε α} {f : α → Fallible Call Answer E ε β}
    (hp : Strict p.run) (hf : ∀ a, Strict (f a).run) : Strict (p >>= f).run := by
  rw [run_bind]
  generalize p.run = p at hp
  induction p with
  | done res =>
    rcases res with e | a
    · trivial
    · exact hf a
  | call c next ih =>
    refine ⟨fun e => ?_, fun r => ih r (hp.2 r)⟩
    obtain ⟨e', he'⟩ := hp.1 e
    refine ⟨e', ?_⟩
    dsimp only
    rw [he']
    rfl

section Execution

variable {exec : Choice → σ → (c : Call) → Except E (Answer c) × σ} {allowed : Choice → Prop}
  {quiet : Choice}

theorem Strict.runWith_eq {p : Program Call (fun c => Except E (Answer c)) (Except ε α)}
    (hp : Strict p)
    (hexec : ∀ ch s c, exec ch s c = exec quiet s c ∨ ∃ e, (exec ch s c).1 = .error e)
    {s t : σ} {a : α} (hr : p.Runs exec allowed s (.ok a) t) :
    p.runWith exec quiet s = (.ok a, t) := by
  induction p generalizing s with
  | done res =>
    obtain ⟨rfl, rfl⟩ := hr
    rfl
  | call c next ih =>
    obtain ⟨ch, -, hr⟩ := hr
    rcases hexec ch s c with heq | ⟨e, he⟩
    · rw [heq] at hr
      exact ih _ (hp.2 _) hr
    · rw [he] at hr
      obtain ⟨e', he'⟩ := hp.1 e
      rw [he'] at hr
      cases hr.1

theorem runWith_bind (ch : Choice) (p : Fallible Call Answer E ε α)
    (f : α → Fallible Call Answer E ε β) (s : σ) :
    (p >>= f).run.runWith exec ch s = match p.run.runWith exec ch s with
      | (.ok a, t) => (f a).run.runWith exec ch t
      | (.error e, t) => (.error e, t) := by
  rw [run_bind]
  generalize p.run = p
  induction p generalizing s with
  | done res =>
    rcases res with e | a
    · rfl
    · rfl
  | call c next ih => exact ih _ _

theorem runWith_request (ch : Choice) (c : Call) (wrap : E → ε) (s : σ) :
    (request c wrap : Fallible Call Answer E ε (Answer c)).run.runWith exec ch s =
      ((exec ch s c).1.mapError wrap, (exec ch s c).2) := rfl

theorem safe_bind_results {I : σ → Prop} {P : Except ε α → Prop} {Q : Except ε β → Prop}
    {p : Fallible Call Answer E ε α} {f : α → Fallible Call Answer E ε β}
    (hp : p.run.Safe exec allowed I P) (hf : ∀ a, P (.ok a) → (f a).run.Safe exec allowed I Q)
    (he : ∀ e, P (.error e) → Q (.error e)) : (p >>= f).run.Safe exec allowed I Q := by
  rw [run_bind]
  refine Program.Safe.bind hp fun res hres => ?_
  rcases res with e | a
  · exact he e hres
  · exact hf a hres

theorem safe_bind {I : σ → Prop} {P : α → Prop} {Q : Except ε β → Prop}
    {p : Fallible Call Answer E ε α} {f : α → Fallible Call Answer E ε β}
    (hp : p.run.Safe exec allowed I fun res => ∀ a, res = .ok a → P a)
    (hf : ∀ a, P a → (f a).run.Safe exec allowed I Q) (he : ∀ e, Q (.error e)) :
    (p >>= f).run.Safe exec allowed I Q :=
  safe_bind_results hp (fun a ha => hf a (ha a rfl)) fun e _ => he e

theorem safe_request {I : σ → Prop} {c : Call} {wrap : E → ε} {P : Answer c → Prop}
    (h : ∀ s ch, allowed ch → I s →
      I (exec ch s c).2 ∧ ∀ a, (exec ch s c).1 = .ok a → P a) :
    (request c wrap : Fallible Call Answer E ε (Answer c)).run.Safe exec allowed I
      fun res => ∀ a, res = .ok a → P a := by
  intro s ch hch hs
  obtain ⟨hI, hP⟩ := h s ch hch hs
  refine ⟨hI, ?_⟩
  rcases hreply : (exec ch s c).1 with e | b
  · intro a ha
    cases ha
  · intro a ha
    cases ha
    exact hP b hreply

end Execution
end Fallible

theorem Program.Runs.runWith_eq {Call : Type} {Reply : Call → Type} {α σ Choice : Type}
    {exec : Choice → σ → (c : Call) → Reply c × σ} {allowed : Choice → Prop} {quiet : Choice}
    (hexec : ∀ ch s c, allowed ch → exec ch s c = exec quiet s c) {p : Program Call Reply α}
    {s t : σ} {a : α} (hr : p.Runs exec allowed s a t) : p.runWith exec quiet s = (a, t) := by
  induction p generalizing s with
  | done b =>
    obtain ⟨rfl, rfl⟩ := hr
    rfl
  | call c next ih =>
    obtain ⟨ch, hallowed, hr⟩ := hr
    rw [hexec ch s c hallowed] at hr
    exact ih _ hr

end Silk.Resumption
