import Silk.ResumptionInterleaving

/-!
# Sequential traces

In a trace every request is served without interruption, and the environment
moves the shared state only between requests. A condition on the events so far
restricts which event may come next.
-/

namespace Silk.Resumption

inductive Event (α Req σ : Type) where
  | served (request : Req) (result : α)
  | drift (next : σ)

variable {Call : Type} {Reply : Call → Type} {α Req σ Choice : Type}

inductive Trace (M : Machine Call Reply α Req σ Choice)
    (cond : List (Event α Req σ) → Event α Req σ → Prop) :
    σ → List (Event α Req σ) → σ → Prop where
  | nil (s : σ) : Trace M cond s [] s
  | served {a b c : σ} {es : List (Event α Req σ)} {req : Req} {result : α} :
      Trace M cond a es b → (M.body req).Runs M.exec M.allowed b result c →
      cond es (.served req result) → Trace M cond a (es ++ [.served req result]) c
  | drift {a b c : σ} {es : List (Event α Req σ)} :
      Trace M cond a es b → M.drift b c → cond es (.drift c) →
      Trace M cond a (es ++ [.drift c]) c

variable {M : Machine Call Reply α Req σ Choice}
  {cond : List (Event α Req σ) → Event α Req σ → Prop}

theorem Trace.invariant {P : σ → Prop}
    (hdrift : ∀ es s t, cond es (.drift t) → P s → M.drift s t → P t)
    (hserved : ∀ es req result s t, cond es (.served req result) → P s →
      (M.body req).Runs M.exec M.allowed s result t → P t)
    {a b : σ} {es : List (Event α Req σ)} (ht : Trace M cond a es b) (ha : P a) : P b := by
  induction ht with
  | nil => exact ha
  | served _ hrun hcond ih => exact hserved _ _ _ _ _ hcond ih hrun
  | drift _ hd hcond ih => exact hdrift _ _ _ hcond ih hd

theorem Trace.outcomes {I : σ → Prop} {Q : Req → α → Prop}
    (hdrift : ∀ es s t, cond es (.drift t) → I s → M.drift s t → I t)
    (hserved : ∀ es req result s t, cond es (.served req result) → I s →
      (M.body req).Runs M.exec M.allowed s result t → I t ∧ Q req result)
    {a b : σ} {es : List (Event α Req σ)} (ht : Trace M cond a es b) (ha : I a) :
    I b ∧ ∀ req result, .served req result ∈ es → Q req result := by
  induction ht with
  | nil => exact ⟨ha, fun _ _ h => absurd h List.not_mem_nil⟩
  | served _ hrun hcond ih =>
    obtain ⟨hI, hQ⟩ := ih
    obtain ⟨hI', hq⟩ := hserved _ _ _ _ _ hcond hI hrun
    refine ⟨hI', fun req' result' h => ?_⟩
    rcases List.mem_append.mp h with h | h
    · exact hQ req' result' h
    · cases List.mem_singleton.mp h
      exact hq
  | drift _ hd hcond ih =>
    obtain ⟨hI, hQ⟩ := ih
    refine ⟨hdrift _ _ _ hcond hI hd, fun req' result' h => ?_⟩
    rcases List.mem_append.mp h with h | h
    · exact hQ req' result' h
    · cases List.mem_singleton.mp h

/-- An invariant kept by every program that may be served holds at the end of
every trace, together with the promised results. -/
theorem Trace.safe {I : σ → Prop} {Q : Req → α → Prop}
    (hdrift : ∀ es s t, cond es (.drift t) → I s → M.drift s t → I t)
    (hbody : ∀ es req result, cond es (.served req result) →
      (∀ req' result', .served req' result' ∈ es → Q req' result') →
      (M.body req).Safe M.exec M.allowed I (Q req))
    {a b : σ} {es : List (Event α Req σ)} (ht : Trace M cond a es b) (ha : I a) :
    I b ∧ ∀ req result, .served req result ∈ es → Q req result := by
  induction ht with
  | nil => exact ⟨ha, fun _ _ h => absurd h List.not_mem_nil⟩
  | @served b c es req result _ hrun hcond ih =>
    obtain ⟨hI, hQ⟩ := ih
    obtain ⟨hI', hq⟩ := (hbody es req result hcond hQ).runs hI hrun
    refine ⟨hI', fun req' result' h => ?_⟩
    rcases List.mem_append.mp h with h | h
    · exact hQ req' result' h
    · cases List.mem_singleton.mp h
      exact hq
  | drift _ hd hcond ih =>
    obtain ⟨hI, hQ⟩ := ih
    refine ⟨hdrift _ _ _ hcond hI hd, fun req' result' h => ?_⟩
    rcases List.mem_append.mp h with h | h
    · exact hQ req' result' h
    · cases List.mem_singleton.mp h

theorem Trace.allowing {allowed : Choice → Prop} (h : ∀ choice, M.allowed choice → allowed choice)
    {a b : σ} {es : List (Event α Req σ)} (ht : Trace M cond a es b) :
    Trace ⟨M.exec, allowed, M.drift, M.body, M.accepts⟩ cond a es b := by
  induction ht with
  | nil => exact .nil _
  | served _ hrun hcond ih => exact .served ih (hrun.mono h) hcond
  | drift _ hd hcond ih => exact .drift ih hd hcond

end Silk.Resumption
