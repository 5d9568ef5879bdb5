import Silk.ResumptionSequential
import Mathlib.Data.List.Induction

/-!
# Programs that run under one lock

Every program takes a lock with its first call and gives it back with its last
one; a call that takes the lock waits until it is free. Interleaved runs of such
programs are sequential: what a finished program did, and the shared state, are
those of a trace that serves the requests one after the other in the order in
which they took the lock.
-/

namespace Silk.Resumption

variable {Call : Type} {Reply : Call → Type} {α Req σ Choice : Type}

/-- Which calls take and give back the lock, and where the shared state shows it. -/
structure Lock (M : Machine Call Reply α Req σ Choice) where
  held : σ → Bool
  acquires : Call → Bool
  releases : Call → Bool
  acquired : ∀ ch s c, M.allowed ch → acquires c = true → held (M.exec ch s c).2 = true
  released : ∀ ch s c, M.allowed ch → releases c = true → held (M.exec ch s c).2 = false
  kept : ∀ ch s c, M.allowed ch → acquires c = false → releases c = false →
    held (M.exec ch s c).2 = held s

namespace Lock

variable {M : Machine Call Reply α Req σ Choice} (L : Lock M) {β γ : Type}

def Within : Program Call Reply β → Prop
  | .done _ => False
  | .call c next => L.acquires c = false ∧
      ∀ r, if L.releases c then ∃ a, next r = .done a else Within (next r)

/-- A program that does nothing, or takes the lock first. -/
def Guarded : Program Call Reply β → Prop
  | .done _ => True
  | .call c next => L.acquires c = true ∧
      ∀ ch s, M.allowed ch → Within L (next (M.exec ch s c).1)

theorem Within.bind {p : Program Call Reply β} {f : β → Program Call Reply γ}
    {last : Option (Sigma Reply)}
    (hp : p.Follows (fun _ c => L.acquires c = false ∧ L.releases c = false) last)
    (hf : ∀ b, L.Within (f b)) : L.Within (p >>= f) := by
  induction p generalizing last with
  | done b => exact hf b
  | call c next ih =>
    refine ⟨hp.1.1, fun r => ?_⟩
    rw [if_neg (by simp [hp.1.2])]
    exact ih r (hp.2 r)

variable {L}

theorem Within.map {p : Program Call Reply β} (h : L.Within p) (f : β → γ) :
    L.Within (p >>= fun b => .done (f b)) := by
  induction p with
  | done b => exact False.elim h
  | call c next ih =>
    refine ⟨h.1, fun r => ?_⟩
    have hr := h.2 r
    split_ifs at hr ⊢ with hreleases
    · obtain ⟨b, hb⟩ := hr
      refine ⟨f b, ?_⟩
      change (next r >>= fun b => .done (f b)) = _
      rw [hb]
      rfl
    · exact ih r hr

theorem Guarded.map {p : Program Call Reply β} (h : L.Guarded p) (f : β → γ) :
    L.Guarded (p >>= fun b => .done (f b)) := by
  cases p with
  | done b => trivial
  | call c next => exact ⟨h.1, fun ch s hch => (h.2 ch s hch).map f⟩

variable (L)

def Wants (sys : System Call Reply α Req σ) (i : ℕ) : Prop :=
  ∃ th c next, sys.threads[i]? = some th ∧ th.program = .call c next ∧ L.acquires c = true

/-- Taking the lock waits until it is free. -/
def Respected (sys : System Call Reply α Req σ) : Label Req σ Choice → Prop
  | .statement i _ => L.Wants sys i → L.held sys.shared = false
  | _ => True

def taker (sys : System Call Reply α Req σ) : Label Req σ Choice → List ℕ
  | .statement i _ =>
    match sys.threads[i]? with
    | some ⟨_, _, .call c _⟩ => if L.acquires c then [i] else []
    | _ => []
  | _ => []

def order (sys : System Call Reply α Req σ) : List (Label Req σ Choice) → List ℕ
  | [] => []
  | l :: ls => L.taker sys l ++ order (M.apply sys l) ls

end Lock

theorem Step.apply_eq {M : Machine Call Reply α Req σ Choice} {a b : System Call Reply α Req σ}
    {l : Label Req σ Choice} (h : Step M a l b) : M.apply a l = b := by
  cases h with
  | start _ => rfl
  | drift _ => rfl
  | statement hi hp _ => simp only [Machine.apply, hi, hp]

theorem Run.play_eq {M : Machine Call Reply α Req σ Choice}
    {cond : System Call Reply α Req σ → Label Req σ Choice → Prop}
    {a b : System Call Reply α Req σ} {ls : List (Label Req σ Choice)} (h : Run M cond a ls b) :
    M.play a ls = b := by
  induction h with
  | nil => rfl
  | snoc _ hs _ ih =>
    rw [Machine.play, List.foldl_append]
    change M.apply (M.play _ _) _ = _
    rw [ih, hs.apply_eq]

namespace Lock

variable {M : Machine Call Reply α Req σ Choice} (L : Lock M)

theorem order_snoc (sys : System Call Reply α Req σ) (ls : List (Label Req σ Choice))
    (l : Label Req σ Choice) :
    L.order sys (ls ++ [l]) = L.order sys ls ++ L.taker (M.play sys ls) l := by
  induction ls generalizing sys with
  | nil => exact List.append_nil _
  | cons k ls ih =>
    rw [List.cons_append, order, ih, order, List.append_assoc]
    rfl

theorem respected_of_taker {sys : System Call Reply α Req σ} {i : ℕ} {ch : Choice}
    (h : L.taker sys (.statement i ch) = [] ∨ L.held sys.shared = false) :
    L.Respected sys (.statement i ch) := by
  rintro ⟨⟨req, history, program⟩, c, next, hi, rfl, hacquires⟩
  rcases h with h | h
  · simp [taker, hi, hacquires] at h
  · exact h

theorem taker_statement {sys : System Call Reply α Req σ} {i : ℕ} {th : Thread Call Reply α Req}
    {c : Call} {next : Reply c → Program Call Reply α} (hi : sys.threads[i]? = some th)
    (hp : th.program = .call c next) (ch : Choice) :
    L.taker sys (.statement i ch) = if L.acquires c then [i] else [] := by
  obtain ⟨req, history, program⟩ := th
  cases hp
  simp only [taker, hi]

end Lock

structure Served (α Req : Type) where
  thread : ℕ
  request : Req
  result : α

def Served.event (e : Served α Req) : Event α Req σ := .served e.request e.result

def Admitted (M : Machine Call Reply α Req σ Choice) :
    List (Event α Req σ) → Event α Req σ → Prop :=
  fun _ e => ∀ req result, e = .served req result → ∃ sys, M.accepts sys req

structure Idle (M : Machine Call Reply α Req σ Choice) (order : List ℕ) (i : ℕ)
    (th : Thread Call Reply α Req) : Prop where
  program : th.program = M.body th.request
  history : th.history = []
  absent : i ∉ order
  accepted : ∃ sys, M.accepts sys th.request

def Issues (M : Machine Call Reply α Req σ Choice) (req : Req) : Prop :=
  ∃ c next, M.body req = .call c next

/-- The log is what finished threads did, one after the other, from `start` to `s`. -/
structure Settled (M : Machine Call Reply α Req σ Choice) (start : σ) (log : List (Served α Req))
    (threads : List (Thread Call Reply α Req)) (s : σ) : Prop where
  trace : Trace M (Admitted M) start (log.map Served.event) s
  logged : ∀ e ∈ log, ∃ th, threads[e.thread]? = some th ∧ th.request = e.request ∧
    th.program = .done e.result
  issues : ∀ e ∈ log, Issues M e.request

/-- The lock is free and all that happened is in the log, or one thread holds it and what it has
done so far began where the log ends. -/
inductive Serial {M : Machine Call Reply α Req σ Choice} (L : Lock M) (start : σ)
    (log : List (Served α Req)) : System Call Reply α Req σ → List ℕ → Prop where
  | free {sys : System Call Reply α Req σ} : Settled M start log sys.threads sys.shared →
      L.held sys.shared = false →
      (∀ i th, sys.threads[i]? = some th →
        Idle M (log.map Served.thread) i th ∨ i ∈ log.map Served.thread) →
      Serial L start log sys (log.map Served.thread)
  | busy {sys : System Call Reply α Req σ} {i : ℕ} {th : Thread Call Reply α Req} {s : σ} :
      Settled M start log sys.threads s → L.held sys.shared = true →
      sys.threads[i]? = some th → L.Within th.program →
      (∀ result t, th.program.Runs M.exec M.allowed sys.shared result t →
        (M.body th.request).Runs M.exec M.allowed s result t) →
      (∃ sys, M.accepts sys th.request) → Issues M th.request → i ∉ log.map Served.thread →
      (∀ j th', j ≠ i → sys.threads[j]? = some th' →
        Idle M (log.map Served.thread ++ [i]) j th' ∨ j ∈ log.map Served.thread) →
      Serial L start log sys (log.map Served.thread ++ [i])

section Serial

variable {M : Machine Call Reply α Req σ Choice} {L : Lock M} {start : σ}
  {log : List (Served α Req)}

theorem Settled.lt_length {threads : List (Thread Call Reply α Req)} {s : σ}
    (h : Settled M start log threads s) {i : ℕ} (hi : i ∈ log.map Served.thread) :
    i < threads.length := by
  obtain ⟨e, he, rfl⟩ := List.mem_map.mp hi
  obtain ⟨th, hth, -⟩ := h.logged e he
  exact (List.getElem?_eq_some_iff.mp hth).1

theorem Settled.append {threads : List (Thread Call Reply α Req)} {s : σ}
    (h : Settled M start log threads s) (th : Thread Call Reply α Req) :
    Settled M start log (threads ++ [th]) s := by
  refine ⟨h.trace, fun e he => ?_, h.issues⟩
  obtain ⟨th', hth', hrest⟩ := h.logged e he
  refine ⟨th', ?_, hrest⟩
  rw [List.getElem?_append_left (List.getElem?_eq_some_iff.mp hth').1]
  exact hth'

theorem Settled.not_pending {threads : List (Thread Call Reply α Req)} {s : σ}
    (h : Settled M start log threads s) {i : ℕ} {th : Thread Call Reply α Req}
    (hi : threads[i]? = some th) {c : Call} {next : Reply c → Program Call Reply α}
    (hp : th.program = .call c next) : i ∉ log.map Served.thread := by
  intro hmem
  obtain ⟨e, he, rfl⟩ := List.mem_map.mp hmem
  obtain ⟨th', hth', -, hdone⟩ := h.logged e he
  rw [hi] at hth'
  cases hth'
  rw [hp] at hdone
  cases hdone

theorem Settled.set {threads : List (Thread Call Reply α Req)} {s : σ}
    (h : Settled M start log threads s) {i : ℕ} (hi : i ∉ log.map Served.thread)
    (th : Thread Call Reply α Req) : Settled M start log (threads.set i th) s := by
  refine ⟨h.trace, fun e he => ?_, h.issues⟩
  obtain ⟨th', hth', hrest⟩ := h.logged e he
  have hne : i ≠ e.thread := by
    rintro rfl
    exact hi (List.mem_map_of_mem he)
  refine ⟨th', ?_, hrest⟩
  rw [List.getElem?_set_ne hne]
  exact hth'

theorem Idle.mono {order : List ℕ} {i j : ℕ} {th : Thread Call Reply α Req}
    (h : Idle M order j th) (hne : j ≠ i) : Idle M (order ++ [i]) j th := by
  refine ⟨h.program, h.history, ?_, h.accepted⟩
  simp [h.absent, hne]

theorem getElem?_snoc {τ : Type} {xs : List τ} {x y : τ} {i : ℕ} (h : (xs ++ [x])[i]? = some y) :
    xs[i]? = some y ∨ i = xs.length ∧ y = x := by
  rw [List.getElem?_append] at h
  split_ifs at h with hlt
  · exact Or.inl h
  · rw [List.getElem?_singleton] at h
    split_ifs at h with hzero
    cases h
    exact Or.inr ⟨by omega, rfl⟩

theorem Serial.started {sys : System Call Reply α Req σ} {order : List ℕ}
    (h : Serial L start log sys order) {req : Req} (hacc : M.accepts sys req) :
    Serial L start log ⟨sys.shared, sys.threads ++ [⟨req, [], M.body req⟩]⟩ order := by
  cases h with
  | free hsettled hheld hothers =>
    refine .free (hsettled.append _) hheld fun i th hi => ?_
    rcases getElem?_snoc hi with hi | ⟨rfl, rfl⟩
    · exact hothers i th hi
    · refine Or.inl ⟨rfl, rfl, fun hmem => ?_, sys, hacc⟩
      exact absurd (hsettled.lt_length hmem) (Nat.lt_irrefl _)
  | @busy i th s hsettled hheld hi hwithin hruns haccepted hissues habsent hothers =>
    have hlt : i < sys.threads.length := (List.getElem?_eq_some_iff.mp hi).1
    refine .busy (hsettled.append _) hheld ?_ hwithin hruns haccepted hissues habsent
      fun j th' hne hj => ?_
    · rw [List.getElem?_append_left hlt]
      exact hi
    · rcases getElem?_snoc hj with hj | ⟨rfl, rfl⟩
      · exact hothers j th' hne hj
      · refine Or.inl ⟨rfl, rfl, fun hmem => ?_, sys, hacc⟩
        rcases List.mem_append.mp hmem with hmem | hmem
        · exact absurd (hsettled.lt_length hmem) (Nat.lt_irrefl _)
        · exact hne (List.mem_singleton.mp hmem)

section Statement

variable {sys : System Call Reply α Req σ} {i : ℕ} {th : Thread Call Reply α Req} {c : Call}
  {next : Reply c → Program Call Reply α} {ch : Choice}
  (hi : sys.threads[i]? = some th) (hp : th.program = .call c next) (hch : M.allowed ch)
include hi hp hch

abbrev advanced (M : Machine Call Reply α Req σ Choice) (sys : System Call Reply α Req σ) (i : ℕ)
    (th : Thread Call Reply α Req) (c : Call) (next : Reply c → Program Call Reply α)
    (ch : Choice) :
    System Call Reply α Req σ :=
  ⟨(M.exec ch sys.shared c).2, sys.threads.set i
    (th.advance c (M.exec ch sys.shared c).1 (next (M.exec ch sys.shared c).1))⟩

theorem Serial.take (hsettled : Settled M start log sys.threads sys.shared)
    (hothers : ∀ j th', sys.threads[j]? = some th' →
      Idle M (log.map Served.thread) j th' ∨ j ∈ log.map Served.thread)
    (hbody : ∀ sys req, M.accepts sys req → L.Guarded (M.body req)) :
    L.acquires c = true ∧
      Serial L start log (advanced M sys i th c next ch) (log.map Served.thread ++ [i]) := by
  have habsent := hsettled.not_pending hi hp
  have hidle : Idle M (log.map Served.thread) i th := (hothers i th hi).resolve_right habsent
  obtain ⟨sys₀, hacc⟩ := hidle.accepted
  have hguarded := hbody sys₀ _ hacc
  rw [← hidle.program, hp] at hguarded
  obtain ⟨hacquires, hwithin⟩ := hguarded
  refine ⟨hacquires, ?_⟩
  have hlt : i < sys.threads.length := (List.getElem?_eq_some_iff.mp hi).1
  refine .busy (hsettled.set habsent _) (L.acquired ch _ c hch hacquires)
    (List.getElem?_set_self hlt) (hwithin ch _ hch) ?_ ⟨sys₀, hacc⟩
    ⟨c, next, hidle.program.symm.trans hp⟩ habsent fun j th' hne hj => ?_
  · intro result t hruns
    rw [Thread.advance_request, ← hidle.program, hp]
    exact ⟨ch, hch, hruns⟩
  · rw [List.getElem?_set_ne hne.symm] at hj
    exact (hothers j th' hj).imp (fun h => h.mono hne) id

theorem Serial.proceed {s : σ} (hsettled : Settled M start log sys.threads s)
    (hheld : L.held sys.shared = true) (hwithin : L.Within th.program)
    (hruns : ∀ result t, th.program.Runs M.exec M.allowed sys.shared result t →
      (M.body th.request).Runs M.exec M.allowed s result t)
    (haccepted : ∃ sys, M.accepts sys th.request) (hissues : Issues M th.request)
    (habsent : i ∉ log.map Served.thread)
    (hothers : ∀ j th', j ≠ i → sys.threads[j]? = some th' →
      Idle M (log.map Served.thread ++ [i]) j th' ∨ j ∈ log.map Served.thread) :
    L.acquires c = false ∧ ∃ log', Serial L start log' (advanced M sys i th c next ch)
      (log.map Served.thread ++ [i]) := by
  rw [hp] at hwithin hruns
  obtain ⟨hacquires, hwithin⟩ := hwithin
  refine ⟨hacquires, ?_⟩
  have hlt : i < sys.threads.length := (List.getElem?_eq_some_iff.mp hi).1
  have hnext := hwithin (M.exec ch sys.shared c).1
  cases hreleases : L.releases c with
  | false =>
    rw [hreleases, if_neg Bool.false_ne_true] at hnext
    refine ⟨log, .busy (hsettled.set habsent _) ?_ (List.getElem?_set_self hlt) hnext ?_ haccepted
      hissues habsent fun j th' hne hj => ?_⟩
    · rw [L.kept ch _ c hch hacquires hreleases]
      exact hheld
    · intro result t hrest
      exact hruns result t ⟨ch, hch, hrest⟩
    · rw [List.getElem?_set_ne hne.symm] at hj
      exact hothers j th' hne hj
  | true =>
    rw [hreleases, if_pos rfl] at hnext
    obtain ⟨a, ha⟩ := hnext
    have hserved : (M.body th.request).Runs M.exec M.allowed s a (M.exec ch sys.shared c).2 := by
      refine hruns a _ ⟨ch, hch, ?_⟩
      rw [ha]
      exact ⟨rfl, rfl⟩
    let served : Served α Req := ⟨i, th.request, a⟩
    have horder : (log ++ [served]).map Served.thread = log.map Served.thread ++ [i] :=
      List.map_append
    refine ⟨log ++ [served], ?_⟩
    rw [← horder] at hothers ⊢
    refine .free ⟨?_, fun e he => ?_, fun e he => ?_⟩ (L.released ch _ c hch hreleases)
      fun j th' hj => ?_
    · rw [List.map_append]
      refine .served hsettled.trace hserved fun req result he => ?_
      cases he
      exact haccepted
    · rcases List.mem_append.mp he with he | he
      · exact (hsettled.set habsent _).logged e he
      · rw [List.mem_singleton.mp he]
        exact ⟨_, List.getElem?_set_self hlt, rfl, ha⟩
    · rcases List.mem_append.mp he with he | he
      · exact hsettled.issues e he
      · rw [List.mem_singleton.mp he]
        exact hissues
    · by_cases hne : j = i
      · rw [horder, hne]
        exact Or.inr (List.mem_append_right _ List.mem_cons_self)
      · rw [List.getElem?_set_ne (Ne.symm hne)] at hj
        refine (hothers j th' hne hj).imp id fun hmem => ?_
        rw [horder]
        exact List.mem_append_left _ hmem

end Statement

variable (hdrift : ∀ s t, ¬ M.drift s t)
  (hbody : ∀ sys req, M.accepts sys req → L.Guarded (M.body req))
include hdrift hbody

theorem Serial.step {a b : System Call Reply α Req σ} {l : Label Req σ Choice} {order : List ℕ}
    (h : Serial L start log a order) (hs : Step M a l b) (hc : L.Respected a l) :
    ∃ log', Serial L start log' b (order ++ L.taker a l) := by
  cases hs with
  | @start req hacc =>
    have hnone : order ++ L.taker a (.start req) = order := List.append_nil order
    rw [hnone]
    exact ⟨log, h.started hacc⟩
  | drift hd => exact absurd hd (hdrift _ _)
  | @statement i ch th c next hi hp hch =>
    rw [L.taker_statement hi hp]
    cases h with
    | free hsettled hheld hothers =>
      obtain ⟨hacquires, hserial⟩ := Serial.take hi hp hch hsettled hothers hbody
      rw [if_pos hacquires]
      exact ⟨log, hserial⟩
    | @busy k th' s hsettled hheld hk hwithin hruns haccepted hissues habsent hothers =>
      by_cases hik : i = k
      · subst hik
        rw [hi] at hk
        cases hk
        obtain ⟨hacquires, hserial⟩ := Serial.proceed hi hp hch hsettled hheld hwithin hruns
          haccepted hissues habsent hothers
        rw [hacquires, if_neg Bool.false_ne_true, List.append_nil]
        exact hserial
      · -- any other thread would have to take the lock, which is not free
        have hidle := (hothers i th hik hi).resolve_right (hsettled.not_pending hi hp)
        obtain ⟨sys₀, hacc⟩ := hidle.accepted
        have hguarded := hbody sys₀ _ hacc
        rw [← hidle.program, hp] at hguarded
        have hfree := hc ⟨th, c, next, hi, hp, hguarded.1⟩
        rw [hheld] at hfree
        cases hfree

theorem Run.serial {start : σ} (hfree : L.held start = false) {ls : List (Label Req σ Choice)}
    {sys : System Call Reply α Req σ} (hr : Run M L.Respected ⟨start, []⟩ ls sys) :
    ∃ log, Serial L start log sys (L.order ⟨start, []⟩ ls) := by
  generalize hinit : (⟨start, []⟩ : System Call Reply α Req σ) = init at hr ⊢
  induction hr with
  | nil =>
    subst hinit
    refine ⟨[], .free ⟨.nil start, fun e he => absurd he List.not_mem_nil,
      fun e he => absurd he List.not_mem_nil⟩ hfree fun i th hi => ?_⟩
    cases hi
  | snoc hr hs hc ih =>
    obtain ⟨log, hserial⟩ := ih
    rw [L.order_snoc, hr.play_eq]
    exact hserial.step hdrift hbody hs hc

omit hdrift hbody in
/-- While a thread has something to do, some thread can go on: the one that holds the lock, or any
if it is free. -/
theorem Serial.progress {sys : System Call Reply α Req σ} {order : List ℕ}
    (h : Serial L start log sys order) {i : ℕ} (hi : Machine.pending sys i = true) {ch : Choice}
    (hch : M.allowed ch) :
    ∃ j, M.Enabled sys (.statement j ch) ∧ L.Respected sys (.statement j ch) := by
  cases h with
  | free hsettled hheld hothers =>
    exact ⟨i, ⟨hi, hch⟩, L.respected_of_taker (Or.inr hheld)⟩
  | @busy k th s hsettled hheld hk hwithin =>
    obtain ⟨req, history, program⟩ := th
    cases program with
    | done a => exact hwithin.elim
    | call c next =>
      refine ⟨k, ⟨?_, hch⟩, L.respected_of_taker (Or.inl ?_)⟩
      · simp only [Machine.pending, hk]
      · rw [L.taker_statement hk rfl, hwithin.1, if_neg Bool.false_ne_true]

end Serial

theorem Trace.nil_inv {M : Machine Call Reply α Req σ Choice}
    {cond : List (Event α Req σ) → Event α Req σ → Prop} {a b : σ} (h : Trace M cond a [] b) :
    b = a := by
  generalize hes : ([] : List (Event α Req σ)) = es at h
  cases h with
  | nil => rfl
  | served => simp at hes
  | drift => simp at hes

theorem Trace.snoc_inv {M : Machine Call Reply α Req σ Choice}
    {cond : List (Event α Req σ) → Event α Req σ → Prop} {a c : σ} {es : List (Event α Req σ)}
    {req : Req} {result : α} (h : Trace M cond a (es ++ [.served req result]) c) :
    ∃ b, Trace M cond a es b ∧ (M.body req).Runs M.exec M.allowed b result c ∧
      cond es (.served req result) := by
  generalize hes : es ++ [Event.served req result] = es' at h
  cases h with
  | nil => simp at hes
  | served htrace hruns hcond =>
    obtain ⟨rfl, hlast⟩ := List.append_inj' hes rfl
    cases hlast
    exact ⟨_, htrace, hruns, hcond⟩
  | drift htrace hd hcond =>
    obtain ⟨rfl, hlast⟩ := List.append_inj' hes rfl
    cases hlast

def Finished (threads : List (Thread Call Reply α Req)) (i : ℕ) : Prop :=
  ∃ th result, threads[i]? = some th ∧ th.program = .done result

def requests (threads : List (Thread Call Reply α Req)) (is : List ℕ) : List Req :=
  is.filterMap fun i => threads[i]?.map Thread.request

section Refinement

variable {M : Machine Call Reply α Req σ Choice} {L : Lock M} {start : σ} {A : Type}
  {R : σ → A → Prop} {apply : A → Req → A} {answers : A → Req → α → Prop} {a₀ : A}
  (hstart : R start a₀)
  (hstep : ∀ sys req s t a result, M.accepts sys req → R s a →
    (M.body req).Runs M.exec M.allowed s result t → R t (apply a req) ∧ answers a req result)
include hstart hstep

theorem Trace.refines {log : List (Served α Req)} {s : σ}
    (h : Trace M (Admitted M) start (log.map Served.event) s) :
    R s ((log.map Served.request).foldl apply a₀) ∧
      ∀ before e after, log = before ++ e :: after →
        answers ((before.map Served.request).foldl apply a₀) e.request e.result := by
  induction log using List.reverseRecOn generalizing s with
  | nil =>
    rw [h.nil_inv]
    exact ⟨hstart, fun before e after hlog => by simp at hlog⟩
  | append_singleton log last ih =>
    rw [List.map_append] at h
    obtain ⟨b, htrace, hruns, hadmitted⟩ := h.snoc_inv
    obtain ⟨hR, hanswers⟩ := ih htrace
    obtain ⟨sys, hacc⟩ := hadmitted _ _ rfl
    obtain ⟨hR', hanswer⟩ := hstep sys _ b s _ _ hacc hR hruns
    refine ⟨?_, fun before e after hlog => ?_⟩
    · rw [List.map_append, List.foldl_append]
      exact hR'
    · rcases List.eq_nil_or_concat after with rfl | ⟨after', x, rfl⟩
      · obtain ⟨rfl, hlast⟩ := List.append_inj' hlog rfl
        cases hlast
        exact hanswer
      · rw [List.concat_eq_append, ← List.cons_append, ← List.append_assoc] at hlog
        exact hanswers before e after' (List.append_inj' hlog rfl).1

omit hstart hstep in
theorem Settled.requests_eq {log : List (Served α Req)} {threads : List (Thread Call Reply α Req)}
    {s : σ} (h : Settled M start log threads s) {part : List (Served α Req)}
    (hpart : ∀ e ∈ part, e ∈ log) :
    requests threads (part.map Served.thread) = part.map Served.request := by
  induction part with
  | nil => rfl
  | cons e part ih =>
    obtain ⟨he, hrest⟩ := List.forall_mem_cons.mp hpart
    obtain ⟨th, hth, hreq, -⟩ := h.logged e he
    have htail := ih hrest
    rw [requests] at htail ⊢
    simp only [List.map_cons, List.filterMap_cons, hth, Option.map_some, hreq, htail]

theorem Serial.finished {log : List (Served α Req)} {sys : System Call Reply α Req σ}
    {order : List ℕ} (h : Serial L start log sys order) {i : ℕ} {th : Thread Call Reply α Req}
    (hi : sys.threads[i]? = some th) {result : α} (hdone : th.program = .done result) :
    (M.body th.request = .done result ∧ th.history = [] ∧ i ∉ order) ∨
      Issues M th.request ∧ ∃ before after, order = before ++ i :: after ∧
        (∀ j ∈ before, Finished sys.threads j) ∧
        answers ((requests sys.threads before).foldl apply a₀) th.request result := by
  have hlogged : ∀ s, Settled M start log sys.threads s → i ∈ log.map Served.thread →
      Issues M th.request ∧ ∃ before after, log.map Served.thread = before ++ i :: after ∧
        (∀ j ∈ before, Finished sys.threads j) ∧
        answers ((requests sys.threads before).foldl apply a₀) th.request result := by
    intro s hsettled hmem
    obtain ⟨e, he, rfl⟩ := List.mem_map.mp hmem
    obtain ⟨th', hth', hreq, hres⟩ := hsettled.logged e he
    rw [hi] at hth'
    cases hth'
    rw [hdone] at hres
    cases hres
    obtain ⟨before, after, hlog⟩ := List.append_of_mem he
    have hpart : ∀ e ∈ before, e ∈ log := fun e he => hlog ▸ List.mem_append_left _ he
    refine ⟨hreq ▸ hsettled.issues e he, before.map Served.thread, after.map Served.thread, ?_,
      fun j hj => ?_, ?_⟩
    · rw [hlog, List.map_append, List.map_cons]
    · obtain ⟨e', he', rfl⟩ := List.mem_map.mp hj
      obtain ⟨th', hth', -, hdone'⟩ := hsettled.logged e' (hpart e' he')
      exact ⟨th', e'.result, hth', hdone'⟩
    · rw [hsettled.requests_eq hpart, hreq]
      exact (hsettled.trace.refines hstart hstep).2 before e after hlog
  cases h with
  | free hsettled hheld hothers =>
    rcases hothers i th hi with hidle | hmem
    · exact Or.inl ⟨hidle.program ▸ hdone, hidle.history, hidle.absent⟩
    · exact Or.inr (hlogged _ hsettled hmem)
  | @busy k th' s hsettled hheld hk hwithin hruns haccepted hissues habsent hothers =>
    have hne : i ≠ k := by
      rintro rfl
      rw [hi] at hk
      cases hk
      rw [hdone] at hwithin
      exact hwithin
    rcases hothers i th hne hi with hidle | hmem
    · exact Or.inl ⟨hidle.program ▸ hdone, hidle.history, hidle.absent⟩
    · obtain ⟨hissues, before, after, horder, hanswer⟩ := hlogged _ hsettled hmem
      refine Or.inr ⟨hissues, before, after ++ [k], ?_, hanswer⟩
      rw [horder, List.append_assoc, List.cons_append]

theorem Serial.shared {log : List (Served α Req)} {sys : System Call Reply α Req σ}
    {order : List ℕ} (h : Serial L start log sys order) (hfree : L.held sys.shared = false) :
    R sys.shared ((requests sys.threads order).foldl apply a₀) := by
  cases h with
  | free hsettled _ _ =>
    rw [hsettled.requests_eq fun _ he => he]
    exact (hsettled.trace.refines hstart hstep).1
  | busy _ hheld =>
    rw [hheld] at hfree
    cases hfree

end Refinement

end Silk.Resumption
