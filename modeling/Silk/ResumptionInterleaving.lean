import Silk.ResumptionProgram
import Mathlib.Data.List.Basic

/-!
# Interleaved execution of programs on one shared state

A system holds the shared state and a list of threads. A thread keeps the
request it serves, the calls it has issued with their replies, and the program
that is left. A step starts a thread, lets the environment move the shared
state, or executes one call of one thread. A run records its labels, and may be
restricted to steps that meet a condition on the system before them.

`Run.safe` carries an invariant of the shared state through all interleavings of
programs that keep it, and `Run.follows` carries what a thread's next call owes
to its last reply. `Machine.play` executes a schedule, so that a concrete run can
be computed.
-/

namespace Silk.Resumption

structure Thread (Call : Type) (Reply : Call → Type) (α Req : Type) where
  request : Req
  history : List (Sigma Reply)
  program : Program Call Reply α

structure System (Call : Type) (Reply : Call → Type) (α Req σ : Type) where
  shared : σ
  threads : List (Thread Call Reply α Req)

structure Machine (Call : Type) (Reply : Call → Type) (α Req σ Choice : Type) where
  exec : Choice → σ → (c : Call) → Reply c × σ
  allowed : Choice → Prop
  drift : σ → σ → Prop
  body : Req → Program Call Reply α
  accepts : System Call Reply α Req σ → Req → Prop

inductive Label (Req σ Choice : Type) where
  | start (request : Req)
  | drift (next : σ)
  | statement (thread : ℕ) (choice : Choice)

variable {Call : Type} {Reply : Call → Type} {α Req σ Choice : Type}

def Thread.last (th : Thread Call Reply α Req) : Option (Sigma Reply) := th.history.getLast?

def Thread.advance (th : Thread Call Reply α Req) (c : Call) (r : Reply c)
    (p : Program Call Reply α) : Thread Call Reply α Req :=
  ⟨th.request, th.history ++ [⟨c, r⟩], p⟩

@[simp] theorem Thread.advance_request (th : Thread Call Reply α Req) (c : Call) (r : Reply c)
    (p : Program Call Reply α) : (th.advance c r p).request = th.request := rfl

@[simp] theorem Thread.advance_program (th : Thread Call Reply α Req) (c : Call) (r : Reply c)
    (p : Program Call Reply α) : (th.advance c r p).program = p := rfl

@[simp] theorem Thread.advance_last (th : Thread Call Reply α Req) (c : Call) (r : Reply c)
    (p : Program Call Reply α) : (th.advance c r p).last = some ⟨c, r⟩ := by
  simp [Thread.last, Thread.advance]

inductive Step (M : Machine Call Reply α Req σ Choice) :
    System Call Reply α Req σ → Label Req σ Choice → System Call Reply α Req σ → Prop where
  | start {sys : System Call Reply α Req σ} {req : Req} : M.accepts sys req →
      Step M sys (.start req) ⟨sys.shared, sys.threads ++ [⟨req, [], M.body req⟩]⟩
  | drift {sys : System Call Reply α Req σ} {s : σ} : M.drift sys.shared s →
      Step M sys (.drift s) ⟨s, sys.threads⟩
  | statement {sys : System Call Reply α Req σ} {i : ℕ} {choice : Choice}
      {th : Thread Call Reply α Req} {c : Call} {next : Reply c → Program Call Reply α} :
      sys.threads[i]? = some th → th.program = .call c next → M.allowed choice →
      Step M sys (.statement i choice)
        ⟨(M.exec choice sys.shared c).2, sys.threads.set i
          (th.advance c (M.exec choice sys.shared c).1 (next (M.exec choice sys.shared c).1))⟩

/-- Runs whose every step meets `cond` in the system it leaves. -/
inductive Run (M : Machine Call Reply α Req σ Choice)
    (cond : System Call Reply α Req σ → Label Req σ Choice → Prop) :
    System Call Reply α Req σ → List (Label Req σ Choice) → System Call Reply α Req σ → Prop where
  | nil (sys : System Call Reply α Req σ) : Run M cond sys [] sys
  | snoc {a b c : System Call Reply α Req σ} {ls : List (Label Req σ Choice)}
      {l : Label Req σ Choice} :
      Run M cond a ls b → Step M b l c → cond b l → Run M cond a (ls ++ [l]) c

namespace Machine

variable (M : Machine Call Reply α Req σ Choice)

def launch (reqs : List Req) (s : σ) : System Call Reply α Req σ :=
  ⟨s, reqs.map fun req => ⟨req, [], M.body req⟩⟩

abbrev RunOf (reqs : List Req) (s : σ) (ls : List (Label Req σ Choice))
    (sys : System Call Reply α Req σ) : Prop := Run M (fun _ _ => True) (M.launch reqs s) ls sys

def apply (sys : System Call Reply α Req σ) : Label Req σ Choice → System Call Reply α Req σ
  | .start req => ⟨sys.shared, sys.threads ++ [⟨req, [], M.body req⟩]⟩
  | .drift s => ⟨s, sys.threads⟩
  | .statement i choice =>
    match sys.threads[i]? with
    | none => sys
    | some th =>
      match th.program with
      | .done _ => sys
      | .call c next =>
        ⟨(M.exec choice sys.shared c).2, sys.threads.set i
          (th.advance c (M.exec choice sys.shared c).1 (next (M.exec choice sys.shared c).1))⟩

def pending (sys : System Call Reply α Req σ) (i : ℕ) : Bool :=
  match sys.threads[i]? with
  | some ⟨_, _, .call _ _⟩ => true
  | _ => false

def Enabled (sys : System Call Reply α Req σ) : Label Req σ Choice → Prop
  | .start req => M.accepts sys req
  | .drift s => M.drift sys.shared s
  | .statement i choice => pending sys i = true ∧ M.allowed choice

def play (sys : System Call Reply α Req σ) (ls : List (Label Req σ Choice)) :
    System Call Reply α Req σ := ls.foldl M.apply sys

def Playable (cond : System Call Reply α Req σ → Label Req σ Choice → Prop) :
    System Call Reply α Req σ → List (Label Req σ Choice) → Prop
  | _, [] => True
  | sys, l :: ls => (M.Enabled sys l ∧ cond sys l) ∧ Playable cond (M.apply sys l) ls

end Machine

variable {M : Machine Call Reply α Req σ Choice}
  {cond : System Call Reply α Req σ → Label Req σ Choice → Prop}

theorem Run.invariant {P : System Call Reply α Req σ → Prop}
    (hstep : ∀ a l b, P a → Step M a l b → cond a l → P b)
    {a b : System Call Reply α Req σ} {ls : List (Label Req σ Choice)}
    (hr : Run M cond a ls b) (ha : P a) : P b := by
  induction hr with
  | nil => exact ha
  | snoc _ hs hc ih => exact hstep _ _ _ ih hs hc

theorem Run.mono {cond' : System Call Reply α Req σ → Label Req σ Choice → Prop}
    (h : ∀ sys l, cond sys l → cond' sys l) {a b : System Call Reply α Req σ}
    {ls : List (Label Req σ Choice)} (hr : Run M cond a ls b) : Run M cond' a ls b := by
  induction hr with
  | nil => exact .nil _
  | snoc _ hs hc ih => exact .snoc ih hs (h _ _ hc)

theorem Run.trans {a b c : System Call Reply α Req σ} {ls ks : List (Label Req σ Choice)}
    (h : Run M cond a ls b) (h' : Run M cond b ks c) : Run M cond a (ls ++ ks) c := by
  induction h' with
  | nil =>
    rw [List.append_nil]
    exact h
  | snoc _ hs hc ih =>
    rw [← List.append_assoc]
    exact .snoc ih hs hc

theorem Step.statement_eq {a b : System Call Reply α Req σ} {i : ℕ} {choice : Choice}
    (hs : Step M a (.statement i choice) b) {th : Thread Call Reply α Req} {c : Call}
    {next : Reply c → Program Call Reply α} (hi : a.threads[i]? = some th)
    (hp : th.program = .call c next) :
    b = ⟨(M.exec choice a.shared c).2, a.threads.set i
      (th.advance c (M.exec choice a.shared c).1 (next (M.exec choice a.shared c).1))⟩ := by
  cases hs with
  | statement hi' hp' _ =>
    rw [hi] at hi'
    cases hi'
    rw [hp] at hp'
    cases hp'
    rfl

theorem Step.of_enabled {sys : System Call Reply α Req σ} {l : Label Req σ Choice}
    (h : M.Enabled sys l) : Step M sys l (M.apply sys l) := by
  cases l with
  | start req => exact .start h
  | drift s => exact .drift h
  | statement i choice =>
    obtain ⟨hp, hc⟩ := h
    rw [Machine.pending] at hp
    cases hi : sys.threads[i]? with
    | none => simp [hi] at hp
    | some th =>
      cases hth : th.program with
      | done a =>
        obtain ⟨req, history, program⟩ := th
        cases hth
        simp [hi] at hp
      | call c next =>
        simp only [Machine.apply, hi, hth]
        exact .statement hi hth hc

theorem Run.play {a b : System Call Reply α Req σ} {ls ks : List (Label Req σ Choice)}
    (hr : Run M cond a ls b) (hp : M.Playable cond b ks) :
    Run M cond a (ls ++ ks) (M.play b ks) := by
  induction ks generalizing ls b with
  | nil =>
    rw [List.append_nil]
    exact hr
  | cons k ks ih =>
    have hnext := ih (.snoc hr (.of_enabled hp.1.1) hp.1.2) hp.2
    rwa [List.append_assoc] at hnext

theorem Run.of_playable {a : System Call Reply α Req σ} {ks : List (Label Req σ Choice)}
    (hp : M.Playable cond a ks) : Run M cond a ks (M.play a ks) :=
  (Run.nil a).play hp

theorem mem_set_cases {τ : Type} {ts : List τ} {i : ℕ} {x y : τ} (h : x ∈ ts.set i y) :
    x = y ∨ x ∈ ts := by
  rcases List.mem_or_eq_of_mem_set h with h | h
  · exact Or.inr h
  · exact Or.inl h

def SystemSafe (M : Machine Call Reply α Req σ Choice) (I : σ → Prop) (Q : Req → α → Prop)
    (sys : System Call Reply α Req σ) : Prop :=
  I sys.shared ∧ ∀ th ∈ sys.threads, th.program.Safe M.exec M.allowed I (Q th.request)

theorem Step.safe {I : σ → Prop} {Q : Req → α → Prop}
    (hdrift : ∀ s t, I s → M.drift s t → I t)
    (hstart : ∀ sys req, SystemSafe M I Q sys → M.accepts sys req →
      (M.body req).Safe M.exec M.allowed I (Q req))
    {a b : System Call Reply α Req σ} {l : Label Req σ Choice}
    (ha : SystemSafe M I Q a) (hs : Step M a l b) : SystemSafe M I Q b := by
  cases hs with
  | start hadm =>
    refine ⟨ha.1, fun th hth => ?_⟩
    rcases List.mem_append.mp hth with h | h
    · exact ha.2 th h
    · rw [List.mem_singleton.mp h]
      exact hstart a _ ha hadm
  | drift hd => exact ⟨hdrift _ _ ha.1 hd, ha.2⟩
  | @statement i choice th c next hi hp hc =>
    have hth := ha.2 th (List.mem_of_getElem? hi)
    rw [hp] at hth
    obtain ⟨hI, hn⟩ := hth a.shared choice hc ha.1
    refine ⟨hI, fun th' hth' => ?_⟩
    rcases mem_set_cases hth' with h | h
    · rw [h]
      exact hn
    · exact ha.2 th' h

theorem Run.safe {I : σ → Prop} {Q : Req → α → Prop}
    (hdrift : ∀ s t, I s → M.drift s t → I t)
    (hstart : ∀ sys req, SystemSafe M I Q sys → M.accepts sys req →
      (M.body req).Safe M.exec M.allowed I (Q req))
    {a b : System Call Reply α Req σ} {ls : List (Label Req σ Choice)}
    (hr : Run M cond a ls b) (ha : SystemSafe M I Q a) : SystemSafe M I Q b :=
  hr.invariant (fun _ _ _ hP hs _ => hs.safe hdrift hstart hP) ha

theorem Run.threads {T : Thread Call Reply α Req → Prop}
    (hstart : ∀ sys req, M.accepts sys req → T ⟨req, [], M.body req⟩)
    (hcall : ∀ th c next r, T th → th.program = .call c next → T (th.advance c r (next r)))
    {a b : System Call Reply α Req σ} {ls : List (Label Req σ Choice)} (hr : Run M cond a ls b)
    (ha : ∀ th ∈ a.threads, T th) : ∀ th ∈ b.threads, T th := by
  refine hr.invariant (P := fun sys => ∀ th ∈ sys.threads, T th) (fun a l b hP hs _ => ?_) ha
  cases hs with
  | start hacc =>
    intro th hth
    rcases List.mem_append.mp hth with h | h
    · exact hP th h
    · rw [List.mem_singleton.mp h]
      exact hstart _ _ hacc
  | drift hd => exact hP
  | @statement i choice th c next hi hp hc =>
    intro th' hth'
    rcases mem_set_cases hth' with h | h
    · rw [h]
      exact hcall th c next _ (hP th (List.mem_of_getElem? hi)) hp
    · exact hP th' h

/-- `Φ` relates every call a thread may still issue to the one before it. -/
theorem Run.follows {Φ : Req → Option (Sigma Reply) → Call → Prop}
    (hbody : ∀ req, (M.body req).Follows (Φ req) none)
    {a b : System Call Reply α Req σ} {ls : List (Label Req σ Choice)} (hr : Run M cond a ls b)
    (ha : ∀ th ∈ a.threads, th.program.Follows (Φ th.request) th.last) :
    ∀ th ∈ b.threads, th.program.Follows (Φ th.request) th.last := by
  refine hr.threads (fun _ req _ => hbody req) (fun th c next r hth hp => ?_) ha
  rw [hp] at hth
  rw [Thread.advance_last]
  exact hth.2 r

theorem Run.earns {P : Req → List (Sigma Reply) → α → Prop}
    (hbody : ∀ req, (M.body req).Earns (P req) [])
    {a b : System Call Reply α Req σ} {ls : List (Label Req σ Choice)} (hr : Run M cond a ls b)
    (ha : ∀ th ∈ a.threads, th.program.Earns (P th.request) th.history) :
    ∀ th ∈ b.threads, th.program.Earns (P th.request) th.history := by
  refine hr.threads (fun _ req _ => hbody req) (fun th c next r hth hp => ?_) ha
  rw [hp] at hth
  exact hth r

theorem Run.earns_launch {P : Req → List (Sigma Reply) → α → Prop}
    (hbody : ∀ req, (M.body req).Earns (P req) []) {reqs : List Req} {s : σ}
    {b : System Call Reply α Req σ} {ls : List (Label Req σ Choice)}
    (hr : Run M cond (M.launch reqs s) ls b) :
    ∀ th ∈ b.threads, th.program.Earns (P th.request) th.history := by
  refine hr.earns hbody fun th hth => ?_
  obtain ⟨req, -, rfl⟩ := List.mem_map.mp hth
  exact hbody req

theorem Machine.launch_fresh (M : Machine Call Reply α Req σ Choice) (reqs : List Req) (s : σ) :
    ∀ th ∈ (M.launch reqs s).threads, th.history = [] := by
  intro th hth
  obtain ⟨req, -, rfl⟩ := List.mem_map.mp hth
  rfl

/-- The run has reached a thread's call that is answered by this entry. -/
def Executed (M : Machine Call Reply α Req σ Choice)
    (cond : System Call Reply α Req σ → Label Req σ Choice → Prop)
    (start : System Call Reply α Req σ) (ls : List (Label Req σ Choice)) (i : ℕ) (req : Req)
    (entry : Sigma Reply) : Prop :=
  ∃ ls₁ choice ls₂ sys th next, ls = ls₁ ++ .statement i choice :: ls₂ ∧
    Run M cond start ls₁ sys ∧ sys.threads[i]? = some th ∧ th.request = req ∧
    th.program = .call entry.1 next ∧ (M.exec choice sys.shared entry.1).1 = entry.2

theorem Executed.snoc {start : System Call Reply α Req σ} {ls : List (Label Req σ Choice)} {i : ℕ}
    {req : Req} {entry : Sigma Reply} (h : Executed M cond start ls i req entry)
    (l : Label Req σ Choice) : Executed M cond start (ls ++ [l]) i req entry := by
  obtain ⟨ls₁, choice, ls₂, sys, th, next, rfl, hrest⟩ := h
  exact ⟨ls₁, choice, ls₂ ++ [l], sys, th, next, by simp, hrest⟩

theorem Run.executed_of_fresh {a b : System Call Reply α Req σ} {ls : List (Label Req σ Choice)}
    (hfresh : ∀ th ∈ a.threads, th.history = []) (hr : Run M cond a ls b) {i : ℕ}
    {th : Thread Call Reply α Req} (hi : b.threads[i]? = some th) {entry : Sigma Reply}
    (he : entry ∈ th.history) : Executed M cond a ls i th.request entry := by
  induction hr generalizing i th entry with
  | nil =>
    rw [hfresh th (List.mem_of_getElem? hi)] at he
    cases he
  | @snoc b c ls l hr hs hc ih =>
    cases hs with
    | @start req hacc =>
      rw [List.getElem?_append] at hi
      split_ifs at hi with hlt
      · exact (ih hi he).snoc _
      · rw [List.getElem?_singleton] at hi
        split_ifs at hi
        cases hi
        cases he
    | drift hd => exact (ih hi he).snoc _
    | @statement j choice th₁ q next hj hp hallowed =>
      by_cases hij : j = i
      · subst hij
        rw [List.getElem?_set_self (List.getElem?_eq_some_iff.mp hj).1] at hi
        cases hi
        rcases List.mem_append.mp he with hold | hnew
        · exact (ih hj hold).snoc _
        · rw [List.mem_singleton.mp hnew]
          exact ⟨ls, choice, [], b, th₁, next, rfl, hr, hj, rfl, hp, rfl⟩
      · rw [List.getElem?_set_ne hij] at hi
        exact (ih hi he).snoc _

theorem Run.executed {shared : σ} {b : System Call Reply α Req σ} {ls : List (Label Req σ Choice)}
    (hr : Run M cond ⟨shared, []⟩ ls b) {i : ℕ} {th : Thread Call Reply α Req}
    (hi : b.threads[i]? = some th) {entry : Sigma Reply} (he : entry ∈ th.history) :
    Executed M cond ⟨shared, []⟩ ls i th.request entry :=
  hr.executed_of_fresh (fun _ hth => absurd hth List.not_mem_nil) hi he

theorem Step.pending {a b : System Call Reply α Req σ} {i : ℕ} {choice : Choice}
    (hs : Step M a (.statement i choice) b) {th : Thread Call Reply α Req}
    (hi : a.threads[i]? = some th) : ∃ c next, th.program = .call c next := by
  cases hs with
  | statement hi' hp _ =>
    rw [hi] at hi'
    cases hi'
    exact ⟨_, _, hp⟩

theorem Step.runs_of_done {a b : System Call Reply α Req σ} {i : ℕ} {choice : Choice}
    (hs : Step M a (.statement i choice) b) {th th' : Thread Call Reply α Req} {result : α}
    (hi : a.threads[i]? = some th) (hi' : b.threads[i]? = some th')
    (hdone : th'.program = .done result) :
    th.program.Runs M.exec M.allowed a.shared result b.shared := by
  cases hs with
  | @statement _ _ th₁ c next hi₁ hp hc =>
    rw [hi] at hi₁
    cases hi₁
    rw [List.getElem?_set_self (List.getElem?_eq_some_iff.mp hi).1] at hi'
    cases hi'
    rw [hp]
    refine ⟨choice, hc, ?_⟩
    rw [Thread.advance_program] at hdone
    rw [hdone]
    exact ⟨rfl, rfl⟩

theorem Run.accepting {accepts : System Call Reply α Req σ → Req → Prop}
    {a b : System Call Reply α Req σ} {ls : List (Label Req σ Choice)} (hr : Run M cond a ls b)
    (h : ∀ sys req, .start req ∈ ls → accepts sys req) :
    Run ⟨M.exec, M.allowed, M.drift, M.body, accepts⟩ cond a ls b := by
  induction hr with
  | nil => exact .nil _
  | @snoc b c ls l _ hs hc ih =>
    refine .snoc (ih fun sys req hreq => h sys req (List.mem_append_left _ hreq)) ?_ hc
    cases hs with
    | start _ => exact .start (h _ _ (by simp))
    | drift hd => exact .drift hd
    | statement hi hp hallowed => exact .statement hi hp hallowed

end Silk.Resumption
