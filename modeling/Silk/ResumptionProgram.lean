import Mathlib.Data.Nat.Notation

/-!
# Programs as trees of calls

A program either is done or issues one call to a shared service and continues
with the reply. The service executes a call in one indivisible step on its
state; a choice value resolves everything the caller does not control. `Runs`
executes a program without interruption, `Safe` propagates an invariant of the
service state through every reply, `Follows` relates each call to the one
issued just before it, and `Earns` relates each result to all calls before it.
`Path` says which calls and replies lead to a result.
-/

namespace Silk.Resumption

inductive Program (Call : Type) (Reply : Call → Type) (α : Type) where
  | done (result : α) : Program Call Reply α
  | call (c : Call) (next : Reply c → Program Call Reply α) : Program Call Reply α

namespace Program

variable {Call : Type} {Reply : Call → Type} {α β : Type} {σ Choice : Type}

def bind : Program Call Reply α → (α → Program Call Reply β) → Program Call Reply β
  | .done a, f => f a
  | .call c next, f => .call c fun r => (next r).bind f

instance : Monad (Program Call Reply) where
  pure := .done
  bind := bind

@[simp] theorem pure_eq (a : α) : (pure a : Program Call Reply α) = .done a := rfl

@[simp] theorem bind_done (a : α) (f : α → Program Call Reply β) : (.done a >>= f) = f a := rfl

@[simp] theorem bind_call (c : Call) (next : Reply c → Program Call Reply α)
    (f : α → Program Call Reply β) : (.call c next >>= f) = .call c fun r => next r >>= f := rfl

section Execution

variable (exec : Choice → σ → (c : Call) → Reply c × σ) (allowed : Choice → Prop)

/-- Uninterrupted execution, over every allowed resolution of each call. -/
def Runs : Program Call Reply α → σ → α → σ → Prop
  | .done a, s, b, t => b = a ∧ t = s
  | .call c next, s, b, t =>
    ∃ choice, allowed choice ∧ (next (exec choice s c).1).Runs (exec choice s c).2 b t

def runWith (choice : Choice) : Program Call Reply α → σ → α × σ
  | .done a, s => (a, s)
  | .call c next, s => (next (exec choice s c).1).runWith choice (exec choice s c).2

variable {exec allowed}

theorem runs_bind {p : Program Call Reply α} {f : α → Program Call Reply β} {s t : σ} {b : β} :
    (p >>= f).Runs exec allowed s b t ↔
      ∃ a u, p.Runs exec allowed s a u ∧ (f a).Runs exec allowed u b t := by
  induction p generalizing s with
  | done a =>
    simp only [bind_done, Runs]
    constructor
    · exact fun h => ⟨a, s, ⟨rfl, rfl⟩, h⟩
    · rintro ⟨_, _, ⟨rfl, rfl⟩, h⟩
      exact h
  | call c next ih =>
    simp only [bind_call, Runs, ih]
    constructor
    · rintro ⟨choice, hc, a, u, hp, hf⟩
      exact ⟨a, u, ⟨choice, hc, hp⟩, hf⟩
    · rintro ⟨a, u, ⟨choice, hc, hp⟩, hf⟩
      exact ⟨choice, hc, a, u, hp, hf⟩

theorem runs_map {f : α → β} (hf : ∀ a b, f a = f b → a = b) {p : Program Call Reply α} {s t : σ}
    {a : α} : (p >>= fun a => .done (f a)).Runs exec allowed s (f a) t ↔
      p.Runs exec allowed s a t := by
  rw [runs_bind]
  constructor
  · intro h
    obtain ⟨b, u, hp, hres, rfl⟩ := h
    rw [hf a b hres]
    exact hp
  · exact fun h => ⟨a, t, h, rfl, rfl⟩

theorem runs_runWith {choice : Choice} (hc : allowed choice) (p : Program Call Reply α) (s : σ) :
    p.Runs exec allowed s (p.runWith exec choice s).1 (p.runWith exec choice s).2 := by
  induction p generalizing s with
  | done a => exact ⟨rfl, rfl⟩
  | call c next ih => exact ⟨choice, hc, ih _ _⟩

theorem exists_runs {choice : Choice} (hc : allowed choice) (p : Program Call Reply α) (s : σ) :
    ∃ a t, p.Runs exec allowed s a t := ⟨_, _, runs_runWith hc p s⟩

theorem Runs.mono {allowed' : Choice → Prop} (h : ∀ choice, allowed choice → allowed' choice)
    {p : Program Call Reply α} {s t : σ} {a : α} (hr : p.Runs exec allowed s a t) :
    p.Runs exec allowed' s a t := by
  induction p generalizing s with
  | done b => exact hr
  | call c next ih =>
    obtain ⟨choice, hc, hr⟩ := hr
    exact ⟨choice, h choice hc, ih _ hr⟩

/-- Every call keeps `I`, whatever state satisfying `I` it meets, and results satisfy `Q`. -/
def Safe (exec : Choice → σ → (c : Call) → Reply c × σ) (allowed : Choice → Prop)
    (I : σ → Prop) (Q : α → Prop) : Program Call Reply α → Prop
  | .done a => Q a
  | .call c next => ∀ s choice, allowed choice → I s →
      I (exec choice s c).2 ∧ (next (exec choice s c).1).Safe exec allowed I Q

theorem Safe.bind {I : σ → Prop} {P : α → Prop} {Q : β → Prop} {p : Program Call Reply α}
    {f : α → Program Call Reply β} (hp : p.Safe exec allowed I P)
    (hf : ∀ a, P a → (f a).Safe exec allowed I Q) : (p >>= f).Safe exec allowed I Q := by
  induction p with
  | done a => exact hf a hp
  | call c next ih =>
    intro s choice hc hs
    obtain ⟨hi, hn⟩ := hp s choice hc hs
    exact ⟨hi, ih _ hn⟩

theorem Safe.mono {I : σ → Prop} {P Q : α → Prop} {p : Program Call Reply α}
    (hp : p.Safe exec allowed I P) (h : ∀ a, P a → Q a) : p.Safe exec allowed I Q := by
  induction p with
  | done a => exact h a hp
  | call c next ih =>
    intro s choice hc hs
    obtain ⟨hi, hn⟩ := hp s choice hc hs
    exact ⟨hi, ih _ hn⟩

theorem Safe.runs {I : σ → Prop} {Q : α → Prop} {p : Program Call Reply α} {s t : σ} {a : α}
    (hp : p.Safe exec allowed I Q) (hs : I s) (hr : p.Runs exec allowed s a t) : I t ∧ Q a := by
  induction p generalizing s with
  | done b =>
    obtain ⟨rfl, rfl⟩ := hr
    exact ⟨hs, hp⟩
  | call c next ih =>
    obtain ⟨choice, hc, hr⟩ := hr
    obtain ⟨hi, hn⟩ := hp s choice hc hs
    exact ih _ hn hi hr

end Execution

/-- Each call stands in the relation `Φ` to the call and reply before it. -/
def Follows (Φ : Option (Sigma Reply) → Call → Prop) :
    Option (Sigma Reply) → Program Call Reply α → Prop
  | _, .done _ => True
  | last, .call c next => Φ last c ∧ ∀ r, (next r).Follows Φ (some ⟨c, r⟩)

theorem Follows.bind {Φ : Option (Sigma Reply) → Call → Prop} {p : Program Call Reply α}
    {f : α → Program Call Reply β} {last : Option (Sigma Reply)} (hp : p.Follows Φ last)
    (hf : ∀ a last, (f a).Follows Φ last) : (p >>= f).Follows Φ last := by
  induction p generalizing last with
  | done a => exact hf a last
  | call c next ih => exact ⟨hp.1, fun r => ih r (hp.2 r)⟩

theorem Follows.mono {Φ Ψ : Option (Sigma Reply) → Call → Prop} (h : ∀ last c, Φ last c → Ψ last c)
    {p : Program Call Reply α} {last : Option (Sigma Reply)} (hp : p.Follows Φ last) :
    p.Follows Ψ last := by
  induction p generalizing last with
  | done a => trivial
  | call c next ih => exact ⟨h last c hp.1, fun r => ih r (hp.2 r)⟩

theorem Follows.of_forall {Φ : Option (Sigma Reply) → Call → Prop} (h : ∀ last c, Φ last c)
    (p : Program Call Reply α) (last : Option (Sigma Reply)) : p.Follows Φ last := by
  induction p generalizing last with
  | done a => trivial
  | call c next ih => exact ⟨h last c, fun r => ih r _⟩

def Yields : Program Call Reply α → α → Prop
  | .done b, a => a = b
  | .call _ next, a => ∃ r, (next r).Yields a

theorem yields_bind {p : Program Call Reply α} {f : α → Program Call Reply β} {b : β} :
    (p >>= f).Yields b ↔ ∃ a, p.Yields a ∧ (f a).Yields b := by
  induction p with
  | done a =>
    constructor
    · exact fun h => ⟨a, rfl, h⟩
    · rintro ⟨_, rfl, h⟩
      exact h
  | call c next ih =>
    simp only [bind_call, Yields, ih]
    constructor
    · rintro ⟨r, a, hp, hf⟩
      exact ⟨a, ⟨r, hp⟩, hf⟩
    · rintro ⟨a, ⟨r, hp⟩, hf⟩
      exact ⟨r, a, hp, hf⟩

theorem follows_bind_iff {Q : Call → Prop} {p : Program Call Reply α}
    {f : α → Program Call Reply β} {last : Option (Sigma Reply)} :
    (p >>= f).Follows (fun _ c => Q c) last ↔ p.Follows (fun _ c => Q c) last ∧
      ∀ a, p.Yields a → ∀ last, (f a).Follows (fun _ c => Q c) last := by
  have hlast : ∀ (q : Program Call Reply β) l l', q.Follows (fun _ c => Q c) l →
      q.Follows (fun _ c => Q c) l' := fun q l l' h => by cases q <;> exact h
  induction p generalizing last with
  | done a =>
    constructor
    · rintro h
      exact ⟨trivial, fun _ ha last' => ha ▸ hlast _ _ _ h⟩
    · exact fun h => h.2 a rfl last
  | call c next ih =>
    constructor
    · intro h
      exact ⟨⟨h.1, fun r => (ih r |>.mp (h.2 r)).1⟩, fun a ⟨r, hr⟩ => (ih r |>.mp (h.2 r)).2 a hr⟩
    · intro h
      exact ⟨h.1.1, fun r => (ih r).mpr ⟨h.1.2 r, fun a ha => h.2 a ⟨r, ha⟩⟩⟩

/-- Every result stands in the relation `P` to the calls and replies that led to it. -/
def Earns (P : List (Sigma Reply) → α → Prop) : List (Sigma Reply) → Program Call Reply α → Prop
  | history, .done a => P history a
  | history, .call c next => ∀ r, (next r).Earns P (history ++ [⟨c, r⟩])

theorem Earns.bind {P : List (Sigma Reply) → α → Prop} {Q : List (Sigma Reply) → β → Prop}
    {p : Program Call Reply α} {f : α → Program Call Reply β} {history : List (Sigma Reply)}
    (hp : p.Earns P history) (hf : ∀ a history', P history' a → (f a).Earns Q history') :
    (p >>= f).Earns Q history := by
  induction p generalizing history with
  | done a => exact hf a history hp
  | call c next ih => exact fun r => ih r (hp r)

theorem Earns.of_forall {P : List (Sigma Reply) → α → Prop} (h : ∀ history a, P history a)
    (p : Program Call Reply α) (history : List (Sigma Reply)) : p.Earns P history := by
  induction p generalizing history with
  | done a => exact h history a
  | call c next ih => exact fun r => ih r _

theorem Earns.keeps {entry : Sigma Reply} (p : Program Call Reply α) {history : List (Sigma Reply)}
    (h : entry ∈ history) : p.Earns (fun later _ => entry ∈ later) history := by
  induction p generalizing history with
  | done a => exact h
  | call c next ih => exact fun r => ih r (List.mem_append_left _ h)

def Path : Program Call Reply α → List (Sigma Reply) → α → Prop
  | .done b, history, a => history = [] ∧ a = b
  | .call c next, history, a => ∃ r later, history = ⟨c, r⟩ :: later ∧ (next r).Path later a

theorem path_bind {p : Program Call Reply α} {f : α → Program Call Reply β}
    {history : List (Sigma Reply)} {b : β} : (p >>= f).Path history b ↔
      ∃ a first second, p.Path first a ∧ (f a).Path second b ∧ history = first ++ second := by
  induction p generalizing history with
  | done a =>
    constructor
    · exact fun h => ⟨a, [], history, ⟨rfl, rfl⟩, h, rfl⟩
    · rintro ⟨_, _, second, ⟨rfl, rfl⟩, h, rfl⟩
      exact h
  | call c next ih =>
    constructor
    · rintro ⟨r, later, rfl, h⟩
      obtain ⟨a, first, second, hp, hf, rfl⟩ := (ih r).mp h
      exact ⟨a, ⟨c, r⟩ :: first, second, ⟨r, first, rfl, hp⟩, hf, rfl⟩
    · rintro ⟨a, _, second, ⟨r, first, rfl, hp⟩, hf, rfl⟩
      exact ⟨r, first ++ second, rfl, (ih r).mpr ⟨a, first, second, hp, hf, rfl⟩⟩

theorem path_map {p : Program Call Reply α} {f : α → β} {history : List (Sigma Reply)} {b : β} :
    (p >>= fun a => .done (f a)).Path history b ↔ ∃ a, p.Path history a ∧ b = f a := by
  rw [path_bind]
  constructor
  · rintro ⟨a, first, _, hp, ⟨rfl, rfl⟩, rfl⟩
    exact ⟨a, by rwa [List.append_nil], rfl⟩
  · rintro ⟨a, hp, rfl⟩
    exact ⟨a, history, [], hp, ⟨rfl, rfl⟩, by rw [List.append_nil]⟩

def CallsWithin : ℕ → Program Call Reply α → Prop
  | _, .done _ => True
  | 0, .call _ _ => False
  | n + 1, .call _ next => ∀ r, (next r).CallsWithin n

theorem CallsWithin.mono {p : Program Call Reply α} {m n : ℕ} (h : p.CallsWithin m)
    (hmn : m ≤ n) : p.CallsWithin n := by
  induction p generalizing m n with
  | done a => cases n <;> exact trivial
  | call c next ih =>
    cases m with
    | zero => exact h.elim
    | succ m =>
      cases n with
      | zero => omega
      | succ n => exact fun r => ih r (h r) (by omega)

theorem CallsWithin.bind {p : Program Call Reply α} {f : α → Program Call Reply β} {m n : ℕ}
    (hp : p.CallsWithin m) (hf : ∀ a, (f a).CallsWithin n) : (p >>= f).CallsWithin (m + n) := by
  induction p generalizing m with
  | done a => exact (hf a).mono (by omega)
  | call c next ih =>
    cases m with
    | zero => exact hp.elim
    | succ m =>
      rw [Nat.add_right_comm]
      exact fun r => ih r (hp r)

end Program
end Silk.Resumption
