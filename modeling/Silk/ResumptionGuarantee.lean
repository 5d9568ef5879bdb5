import Silk.ResumptionInterleaving

/-!
# Rely and guarantee

A program is guarded when, against an environment that moves the shared state
only along its rely, each of its calls moves it along its guarantee and its
result meets a condition that the environment keeps. Threads whose guarantees
lie within the relies of the others stay guarded in every interleaving. The
number of calls of a thread is bounded by a bound on its program.
-/

namespace Silk.Resumption

variable {Call : Type} {Reply : Call → Type} {α β Req σ Choice : Type}

namespace Program

variable {exec : Choice → σ → (c : Call) → Reply c × σ} {allowed : Choice → Prop}
  {R G : σ → σ → Prop} {P : α → σ → Prop} {Q : β → σ → Prop}

def Guarded (exec : Choice → σ → (c : Call) → Reply c × σ) (allowed : Choice → Prop)
    (R G : σ → σ → Prop) (P : α → σ → Prop) : Program Call Reply α → σ → Prop
  | .done a, s => ∀ t, R s t → P a t
  | .call c next, s => ∀ t choice, R s t → allowed choice →
      G t (exec choice t c).2 ∧
        (next (exec choice t c).1).Guarded exec allowed R G P (exec choice t c).2

theorem Guarded.stable (htrans : ∀ s t u, R s t → R t u → R s u) {p : Program Call Reply α}
    {s t : σ} (h : p.Guarded exec allowed R G P s) (hst : R s t) :
    p.Guarded exec allowed R G P t := by
  cases p with
  | done a => exact fun u hu => h u (htrans s t u hst hu)
  | call c next => exact fun u choice hu => h u choice (htrans s t u hst hu)

theorem Guarded.bind (hrefl : ∀ s, R s s) {p : Program Call Reply α}
    {f : α → Program Call Reply β} {s : σ} (hp : p.Guarded exec allowed R G P s)
    (hf : ∀ a s, P a s → (f a).Guarded exec allowed R G Q s) :
    (p >>= f).Guarded exec allowed R G Q s := by
  induction p generalizing s with
  | done a => exact hf a s (hp s (hrefl s))
  | call c next ih =>
    intro t choice hst hc
    obtain ⟨hG, hn⟩ := hp t choice hst hc
    exact ⟨hG, ih _ hn⟩

theorem Guarded.mono {P' : α → σ → Prop} {p : Program Call Reply α} {s : σ}
    (hp : p.Guarded exec allowed R G P s) (h : ∀ a s, P a s → P' a s) :
    p.Guarded exec allowed R G P' s := by
  induction p generalizing s with
  | done a => exact fun t hst => h a t (hp t hst)
  | call c next ih =>
    intro t choice hst hc
    obtain ⟨hG, hn⟩ := hp t choice hst hc
    exact ⟨hG, ih _ hn⟩

end Program

/-- What one thread guarantees, every other thread relies on. -/
def Compatible (R G : Req → σ → σ → Prop) (ths : List (Thread Call Reply α Req)) : Prop :=
  ∀ (i j : ℕ) (th th' : Thread Call Reply α Req), i ≠ j → ths[i]? = some th →
    ths[j]? = some th' → ∀ s t, G th.request s t → R th'.request s t

def AllGuarded (M : Machine Call Reply α Req σ Choice) (R G : Req → σ → σ → Prop)
    (P : Req → α → σ → Prop) (sys : System Call Reply α Req σ) : Prop :=
  ∀ (i : ℕ) (th : Thread Call Reply α Req), sys.threads[i]? = some th →
    th.program.Guarded M.exec M.allowed (R th.request) (G th.request) (P th.request) sys.shared

variable {M : Machine Call Reply α Req σ Choice} {R G : Req → σ → σ → Prop}
  {P : Req → α → σ → Prop} {cond : System Call Reply α Req σ → Label Req σ Choice → Prop}

theorem getElem?_set_cases {τ : Type} {ts : List τ} {i j : ℕ} {x y : τ}
    (h : (ts.set i x)[j]? = some y) : i = j ∧ y = x ∨ i ≠ j ∧ ts[j]? = some y := by
  rw [List.getElem?_set] at h
  by_cases hij : i = j
  · rw [if_pos hij] at h
    split_ifs at h
    exact Or.inl ⟨hij, (Option.some.inj h).symm⟩
  · rw [if_neg hij] at h
    exact Or.inr ⟨hij, h⟩

theorem Compatible.set {ths : List (Thread Call Reply α Req)} (h : Compatible R G ths) {i : ℕ}
    {th th' : Thread Call Reply α Req} (hi : ths[i]? = some th) (hreq : th'.request = th.request) :
    Compatible R G (ths.set i th') := by
  have hsame : ∀ (j : ℕ) (x : Thread Call Reply α Req), (ths.set i th')[j]? = some x →
      ∃ y, ths[j]? = some y ∧ y.request = x.request := by
    intro j x hx
    rcases getElem?_set_cases hx with ⟨rfl, rfl⟩ | ⟨-, hj⟩
    · exact ⟨th, hi, hreq.symm⟩
    · exact ⟨x, hj, rfl⟩
  intro j k x y hjk hx hy
  obtain ⟨x', hx', hxr⟩ := hsame j x hx
  obtain ⟨y', hy', hyr⟩ := hsame k y hy
  rw [← hxr, ← hyr]
  exact h j k x' y' hjk hx' hy'

section Rules

variable (hrefl : ∀ req s, R req s s) (htrans : ∀ req s t u, R req s t → R req t u → R req s u)
  (haccepts : ∀ sys req, ¬ M.accepts sys req) (hdrift : ∀ req s t, M.drift s t → R req s t)

include hrefl htrans haccepts hdrift

theorem Step.guarded {a b : System Call Reply α Req σ} {l : Label Req σ Choice}
    (hs : Step M a l b) (hc : Compatible R G a.threads) (ha : AllGuarded M R G P a) :
    Compatible R G b.threads ∧ AllGuarded M R G P b ∧
      (M.drift a.shared b.shared ∨ ∃ req, G req a.shared b.shared) := by
  cases hs with
  | start hacc => exact absurd hacc (haccepts _ _)
  | drift hd =>
    refine ⟨hc, fun i th hi => ?_, Or.inl hd⟩
    exact (ha i th hi).stable (htrans _) (hdrift _ _ _ hd)
  | @statement i choice th c next hi hp hch =>
    have hth := ha i th hi
    rw [hp] at hth
    obtain ⟨hG, hnext⟩ := hth a.shared choice (hrefl _ _) hch
    refine ⟨hc.set hi rfl, fun j th' hj => ?_, Or.inr ⟨_, hG⟩⟩
    rcases getElem?_set_cases hj with ⟨-, rfl⟩ | ⟨hij, hj⟩
    · exact hnext
    · exact (ha j th' hj).stable (htrans _) (hc i j th th' hij hi hj _ _ hG)

/-- All threads stay guarded, and what the drift and every guarantee keep is kept. -/
theorem Run.guarded {K : σ → Prop} (hKdrift : ∀ s t, K s → M.drift s t → K t)
    (hK : ∀ req s t, K s → G req s t → K t)
    {a b : System Call Reply α Req σ} {ls : List (Label Req σ Choice)}
    (hr : Run M cond a ls b) (hc : Compatible R G a.threads) (ha : AllGuarded M R G P a)
    (hKa : K a.shared) : AllGuarded M R G P b ∧ K b.shared := by
  refine (hr.invariant (P := fun sys => Compatible R G sys.threads ∧ AllGuarded M R G P sys ∧
    K sys.shared) ?_ ⟨hc, ha, hKa⟩).2
  intro a l b hP hs _
  obtain ⟨hc, hall, hmove⟩ := hs.guarded hrefl htrans haccepts hdrift hP.1 hP.2.1
  refine ⟨hc, hall, ?_⟩
  rcases hmove with hd | ⟨req, hG⟩
  · exact hKdrift _ _ hP.2.2 hd
  · exact hK req _ _ hP.2.2 hG

end Rules

theorem Run.requests_eq (haccepts : ∀ sys req, ¬ M.accepts sys req)
    {a b : System Call Reply α Req σ} {ls : List (Label Req σ Choice)} (hr : Run M cond a ls b) :
    b.threads.map (·.request) = a.threads.map (·.request) := by
  refine hr.invariant
    (P := fun sys => sys.threads.map (·.request) = a.threads.map (·.request)) ?_ rfl
  intro a' l b hP hs _
  cases hs with
  | start hacc => exact absurd hacc (haccepts _ _)
  | drift hd => exact hP
  | @statement i choice th c next hi hp _ =>
    rw [← hP, List.map_set, Thread.advance_request]
    apply List.ext_getElem?
    intro j
    rw [List.getElem?_set, List.getElem?_map]
    split_ifs with hij hlt
    · rw [← hij, hi]
      rfl
    · rw [← hij, hi]
      have hlen := (List.getElem?_eq_some_iff.mp hi).1
      exact absurd (by simpa using hlen) hlt
    · rfl

theorem Run.history_le {n : ℕ}
    (hbody : ∀ sys req, M.accepts sys req → (M.body req).CallsWithin n)
    {a b : System Call Reply α Req σ} {ls : List (Label Req σ Choice)} (hr : Run M cond a ls b)
    (ha : ∀ th ∈ a.threads, ∃ k, th.program.CallsWithin k ∧ th.history.length + k ≤ n) :
    ∀ th ∈ b.threads, th.history.length ≤ n := by
  have hinv : ∀ th ∈ b.threads, ∃ k, th.program.CallsWithin k ∧ th.history.length + k ≤ n := by
    refine hr.threads (fun sys req hacc => ⟨n, hbody sys req hacc, by simp⟩) ?_ ha
    intro th c next r hth hp
    obtain ⟨k, hk, hle⟩ := hth
    rw [hp] at hk
    cases k with
    | zero => exact hk.elim
    | succ k =>
      refine ⟨k, hk r, ?_⟩
      simp only [Thread.advance, List.length_append, List.length_singleton]
      omega
  intro th hth
  obtain ⟨k, -, hle⟩ := hinv th hth
  omega

end Silk.Resumption
