import Silk.ResumptionFallible

/-!
# Pre- and postconditions of programs that may fail

`Triple P p Q E` says that every uninterrupted execution of `p` from a state with
`P` ends with a result and a state with `Q`, or with an error and a state with
`E`. An empty `E` makes it a total statement; every execution ends, since a
program is a finite tree and every call has an outcome.
-/

namespace Silk.Resumption.Fallible

variable {Call : Type} {Answer : Call → Type} {E ε ε' : Type} {α β : Type} {σ Choice : Type}

def lift (res : Except ε α) : Fallible Call Answer E ε α := ExceptT.mk (.done res)

def wrap (f : ε → ε') (p : Fallible Call Answer E ε α) : Fallible Call Answer E ε' α :=
  ExceptT.mk (p.run >>= fun res => .done (res.mapError f))

/-- Run a program that may fail and continue with its outcome. -/
def attempt (p : Fallible Call Answer E ε α) : Fallible Call Answer E ε' (Except ε α) :=
  ExceptT.mk (p.run >>= fun res => .done (.ok res))

theorem run_attempt_bind (p : Fallible Call Answer E ε α)
    (f : Except ε α → Fallible Call Answer E ε' β) :
    (attempt p >>= f).run = p.run >>= fun res => (f res).run := by
  have hrun : (attempt p : Fallible Call Answer E ε' (Except ε α)).run =
      p.run >>= fun res => .done (.ok res) := rfl
  rw [run_bind, hrun]
  generalize p.run = p
  induction p with
  | done res => rfl
  | call c next ih => exact congrArg (Program.call c) (funext ih)

theorem run_map (p : Fallible Call Answer E ε α) (g : α → β) :
    (p >>= fun a => pure (g a)).run = p.run >>= fun res => .done (res.map g) := by
  rw [run_bind]
  congr 1
  funext res
  cases res with
  | error e => rfl
  | ok a => rfl

def Only (Q : Call → Prop) (p : Fallible Call Answer E ε α) : Prop :=
  ∀ last, p.run.Follows (fun _ c => Q c) last

theorem Only.lift (Q : Call → Prop) (res : Except ε α) :
    Only Q (lift res : Fallible Call Answer E ε α) := fun _ => trivial

theorem Only.request {Q : Call → Prop} {c : Call} (h : Q c) (f : E → ε) :
    Only Q (request c f : Fallible Call Answer E ε (Answer c)) := fun _ => ⟨h, fun _ => trivial⟩

theorem Only.bind {Q : Call → Prop} {p : Fallible Call Answer E ε α}
    {f : α → Fallible Call Answer E ε β} (hp : Only Q p) (hf : ∀ a, Only Q (f a)) :
    Only Q (p >>= f) := by
  intro last
  rw [run_bind]
  refine (hp last).bind fun res last' => ?_
  cases res with
  | error e => trivial
  | ok a => exact hf a last'

theorem only_bind_iff {Q : Call → Prop} {p : Fallible Call Answer E ε α}
    {f : α → Fallible Call Answer E ε β} :
    Only Q (p >>= f) ↔ Only Q p ∧ ∀ a, p.run.Yields (.ok a) → Only Q (f a) := by
  constructor
  · intro h
    refine ⟨fun last => (Program.follows_bind_iff.mp (h last)).1, fun a ha last => ?_⟩
    exact (Program.follows_bind_iff.mp (h last)).2 (.ok a) ha last
  · intro h last
    refine Program.follows_bind_iff.mpr ⟨h.1 last, fun res hres last' => ?_⟩
    cases res with
    | error e => trivial
    | ok a => exact h.2 a hres last'

theorem yields_bind {p : Fallible Call Answer E ε α} {f : α → Fallible Call Answer E ε β} {b : β} :
    (p >>= f).run.Yields (.ok b) ↔ ∃ a, p.run.Yields (.ok a) ∧ (f a).run.Yields (.ok b) := by
  rw [run_bind, Program.yields_bind]
  constructor
  · rintro ⟨res, hp, hf⟩
    cases res with
    | error e => cases hf
    | ok a => exact ⟨a, hp, hf⟩
  · rintro ⟨a, hp, hf⟩
    exact ⟨.ok a, hp, hf⟩

theorem yields_request {c : Call} {f : E → ε} (a : Answer c) :
    (request c f : Fallible Call Answer E ε (Answer c)).run.Yields (.ok a) := ⟨.ok a, rfl⟩

theorem Only.wrap {Q : Call → Prop} {p : Fallible Call Answer E ε α} (hp : Only Q p) (f : ε → ε') :
    Only Q (wrap f p) := fun last => (hp last).bind fun _ _ => trivial

theorem Only.attempt {Q : Call → Prop} {p : Fallible Call Answer E ε α} (hp : Only Q p) :
    Only Q (attempt p : Fallible Call Answer E ε' (Except ε α)) :=
  fun last => (hp last).bind fun _ _ => trivial

theorem Only.of_forall {Q : Call → Prop} (h : ∀ c, Q c) (p : Fallible Call Answer E ε α) :
    Only Q p := Program.Follows.of_forall (fun _ => h) p.run

theorem Only.mono {Q Q' : Call → Prop} (h : ∀ c, Q c → Q' c) {p : Fallible Call Answer E ε α}
    (hp : Only Q p) : Only Q' p := fun last => (hp last).mono fun _ => h

theorem callsWithin_bind {p : Fallible Call Answer E ε α} {f : α → Fallible Call Answer E ε β}
    {m n : ℕ} (hp : p.run.CallsWithin m) (hf : ∀ a, (f a).run.CallsWithin n) :
    (p >>= f).run.CallsWithin (m + n) := by
  refine Program.CallsWithin.bind hp fun res => ?_
  cases res with
  | error e => cases n <;> trivial
  | ok a => exact hf a

theorem callsWithin_request (c : Call) (f : E → ε) :
    (request c f : Fallible Call Answer E ε (Answer c)).run.CallsWithin 1 := fun _ => trivial

theorem callsWithin_wrap {p : Fallible Call Answer E ε α} {n : ℕ} (hp : p.run.CallsWithin n)
    (f : ε → ε') : (wrap f p).run.CallsWithin n :=
  Program.CallsWithin.bind (n := 0) hp fun _ => trivial

theorem callsWithin_attempt {p : Fallible Call Answer E ε α} {n : ℕ} (hp : p.run.CallsWithin n) :
    (attempt p : Fallible Call Answer E ε' (Except ε α)).run.CallsWithin n :=
  Program.CallsWithin.bind (n := 0) hp fun _ => trivial

section Paths

variable {history : List ((c : Call) × Except E (Answer c))}

theorem path_bind {p : Fallible Call Answer E ε α} {f : α → Fallible Call Answer E ε β}
    {res : Except ε β} : (p >>= f).run.Path history res ↔
      (∃ e, p.run.Path history (.error e) ∧ res = .error e) ∨
        ∃ a first second, p.run.Path first (.ok a) ∧ (f a).run.Path second res ∧
          history = first ++ second := by
  rw [run_bind, Program.path_bind]
  constructor
  · rintro ⟨mid, first, second, hp, hf, rfl⟩
    cases mid with
    | error e =>
      obtain ⟨rfl, rfl⟩ := hf
      exact Or.inl ⟨e, by rwa [List.append_nil], rfl⟩
    | ok a => exact Or.inr ⟨a, first, second, hp, hf, rfl⟩
  · rintro (⟨e, hp, rfl⟩ | ⟨a, first, second, hp, hf, rfl⟩)
    · exact ⟨.error e, history, [], hp, ⟨rfl, rfl⟩, by rw [List.append_nil]⟩
    · exact ⟨.ok a, first, second, hp, hf, rfl⟩

theorem path_bind_ok {p : Fallible Call Answer E ε α} {f : α → Fallible Call Answer E ε β} {b : β} :
    (p >>= f).run.Path history (.ok b) ↔ ∃ a first second, p.run.Path first (.ok a) ∧
      (f a).run.Path second (.ok b) ∧ history = first ++ second := by
  rw [path_bind]
  constructor
  · rintro (⟨e, -, he⟩ | h)
    · cases he
    · exact h
  · exact Or.inr

theorem path_request {c : Call} {f : E → ε} {res : Except ε (Answer c)} :
    (request c f : Fallible Call Answer E ε (Answer c)).run.Path history res ↔
      ∃ r, history = [⟨c, r⟩] ∧ res = r.mapError f := by
  constructor
  · rintro ⟨r, _, rfl, rfl, rfl⟩
    exact ⟨r, rfl, rfl⟩
  · rintro ⟨r, rfl, rfl⟩
    exact ⟨r, [], rfl, rfl, rfl⟩

theorem path_request_ok {c : Call} {f : E → ε} {a : Answer c} :
    (request c f : Fallible Call Answer E ε (Answer c)).run.Path history (.ok a) ↔
      history = [⟨c, .ok a⟩] := by
  rw [path_request]
  constructor
  · rintro ⟨r, rfl, h⟩
    cases r with
    | error e => cases h
    | ok b =>
      cases h
      rfl
  · rintro rfl
    exact ⟨.ok a, rfl, rfl⟩

theorem path_wrap {p : Fallible Call Answer E ε α} {f : ε → ε'} {res : Except ε' α} :
    (wrap f p).run.Path history res ↔ ∃ mid, p.run.Path history mid ∧ res = mid.mapError f :=
  Program.path_map

theorem path_wrap_ok {p : Fallible Call Answer E ε α} {f : ε → ε'} {a : α} :
    (wrap f p).run.Path history (.ok a) ↔ p.run.Path history (.ok a) := by
  rw [path_wrap]
  constructor
  · rintro ⟨mid, hp, hres⟩
    cases mid with
    | error e => cases hres
    | ok b =>
      cases hres
      exact hp
  · exact fun hp => ⟨.ok a, hp, rfl⟩

theorem path_attempt {p : Fallible Call Answer E ε α} {res : Except ε' (Except ε α)} :
    (attempt p : Fallible Call Answer E ε' (Except ε α)).run.Path history res ↔
      ∃ mid, p.run.Path history mid ∧ res = .ok mid :=
  Program.path_map

end Paths

def Ends (Q : α → σ → Prop) (X : ε → σ → Prop) : Except ε α → σ → Prop
  | .ok a, s => Q a s
  | .error e, s => X e s

/-- A condition on the state alone, however the program ends. -/
theorem ends_const {R : σ → Prop} {res : Except ε α} {s : σ} :
    Ends (fun _ => R) (fun _ => R) res s ↔ R s := by
  cases res with
  | error e => exact Iff.rfl
  | ok a => exact Iff.rfl

def Triple (exec : Choice → σ → (c : Call) → Except E (Answer c) × σ) (allowed : Choice → Prop)
    (P : σ → Prop) (p : Fallible Call Answer E ε α) (Q : α → σ → Prop) (X : ε → σ → Prop) : Prop :=
  ∀ s res t, P s → p.run.Runs exec allowed s res t → Ends Q X res t

variable {exec : Choice → σ → (c : Call) → Except E (Answer c) × σ} {allowed : Choice → Prop}
  {P : σ → Prop} {Q : α → σ → Prop} {X : ε → σ → Prop}

theorem Triple.ok {p : Fallible Call Answer E ε α} (hp : Triple exec allowed P p Q fun _ _ => False)
    {s t : σ} {res : Except ε α} (hs : P s) (hr : p.run.Runs exec allowed s res t) :
    ∃ a, res = .ok a ∧ Q a t := by
  have hend := hp s res t hs hr
  rcases res with e | a
  · exact False.elim hend
  · exact ⟨a, rfl, hend⟩

theorem Triple.lift (res : Except ε α) (h : ∀ s, P s → Ends Q X res s) :
    Triple exec allowed P (lift res) Q X := by
  rintro s _ _ hs ⟨rfl, rfl⟩
  exact h _ hs

theorem Triple.pure {a : α} (h : ∀ s, P s → Q a s) : Triple exec allowed P (pure a) Q X :=
  Triple.lift (.ok a) h

theorem Triple.throw {e : ε} (h : ∀ s, P s → X e s) : Triple exec allowed P (throw e) Q X :=
  Triple.lift (.error e) h

theorem Triple.bind {p : Fallible Call Answer E ε α} {f : α → Fallible Call Answer E ε β}
    {R : β → σ → Prop} (hp : Triple exec allowed P p Q X)
    (hf : ∀ a, Triple exec allowed (Q a) (f a) R X) : Triple exec allowed P (p >>= f) R X := by
  intro s res t hs hr
  rw [run_bind] at hr
  obtain ⟨mid, u, hpr, hfr⟩ := Program.runs_bind.mp hr
  have hend := hp s mid u hs hpr
  rcases mid with e | a
  · obtain ⟨rfl, rfl⟩ := hfr
    exact hend
  · exact hf a u res t hend hfr

theorem Triple.mono {p : Fallible Call Answer E ε α} {P' : σ → Prop} {Q' : α → σ → Prop}
    {X' : ε → σ → Prop} (h : Triple exec allowed P p Q X) (hP : ∀ s, P' s → P s)
    (hQ : ∀ a s, Q a s → Q' a s) (hX : ∀ e s, X e s → X' e s) :
    Triple exec allowed P' p Q' X' := by
  intro s res t hs hr
  have hend := h s res t (hP s hs) hr
  rcases res with e | a
  · exact hX e t hend
  · exact hQ a t hend

theorem Triple.post {p : Fallible Call Answer E ε α} {Q' : α → σ → Prop} {X' : ε → σ → Prop}
    (h : Triple exec allowed P p Q X) (hQ : ∀ a s, Q a s → Q' a s) (hX : ∀ e s, X e s → X' e s) :
    Triple exec allowed P p Q' X' :=
  h.mono (fun _ hs => hs) hQ hX

theorem Triple.onError {p : Fallible Call Answer E ε α} {X' : ε → σ → Prop}
    (h : Triple exec allowed P p Q X) (hX : ∀ e s, X e s → X' e s) :
    Triple exec allowed P p Q X' :=
  h.post (fun _ _ hq => hq) hX

theorem Triple.request {c : Call} {f : E → ε} {Q : Answer c → σ → Prop}
    (hok : ∀ s ch a t, allowed ch → P s → exec ch s c = (.ok a, t) → Q a t)
    (herr : ∀ s ch e t, allowed ch → P s → exec ch s c = (.error e, t) → X (f e) t) :
    Triple exec allowed P (request c f) Q X := by
  rintro s res t hs ⟨ch, hch, rfl, rfl⟩
  rcases hexec : exec ch s c with ⟨e | a, u⟩
  · exact herr s ch e u hch hs hexec
  · exact hok s ch a u hch hs hexec

theorem Triple.wrap {p : Fallible Call Answer E ε α} {f : ε → ε'} {X : ε' → σ → Prop}
    (h : Triple exec allowed P p Q fun e => X (f e)) : Triple exec allowed P (wrap f p) Q X := by
  intro s res t hs hr
  obtain ⟨mid, u, hpr, rfl, rfl⟩ := Program.runs_bind.mp hr
  have hend := h s mid _ hs hpr
  rcases mid with e | a
  · exact hend
  · exact hend

theorem Triple.attempt {p : Fallible Call Answer E ε α} {Q : Except ε α → σ → Prop}
    {X : ε' → σ → Prop} (h : Triple exec allowed P p (fun a => Q (.ok a)) fun e => Q (.error e)) :
    Triple exec allowed P (attempt p) Q X := by
  intro s res t hs hr
  obtain ⟨mid, u, hpr, rfl, rfl⟩ := Program.runs_bind.mp hr
  have hend := h s mid _ hs hpr
  rcases mid with e | a
  · exact hend
  · exact hend

theorem Triple.and {p : Fallible Call Answer E ε α} {Q' : α → σ → Prop} {X' : ε → σ → Prop}
    (h : Triple exec allowed P p Q X) (h' : Triple exec allowed P p Q' X') :
    Triple exec allowed P p (fun a s => Q a s ∧ Q' a s) fun e s => X e s ∧ X' e s := by
  intro s res t hs hr
  have hend := h s res t hs hr
  have hend' := h' s res t hs hr
  rcases res with e | a
  · exact ⟨hend, hend'⟩
  · exact ⟨hend, hend'⟩

theorem Triple.restrict {allowed' : Choice → Prop} {p : Fallible Call Answer E ε α}
    (h : Triple exec allowed P p Q X) (hallowed : ∀ ch, allowed' ch → allowed ch) :
    Triple exec allowed' P p Q X :=
  fun s res t hs hr => h s res t hs (hr.mono hallowed)

theorem Triple.any (p : Fallible Call Answer E ε α) :
    Triple exec allowed P p (fun _ _ => True) fun _ _ => True := by
  rintro s (e | a) t - -
  · trivial
  · trivial

theorem Triple.weaken {p : Fallible Call Answer E ε α} (h : Triple exec allowed P p Q X) :
    Triple exec allowed P p Q fun _ _ => True :=
  h.onError fun _ _ _ => trivial

theorem Triple.of_false {p : Fallible Call Answer E ε α} :
    Triple exec allowed (fun _ => False) p Q X := fun _ _ _ hs => False.elim hs

theorem Triple.of_states {p : Fallible Call Answer E ε α}
    (h : ∀ s, P s → Triple exec allowed (· = s) p Q X) : Triple exec allowed P p Q X :=
  fun s res t hs => h s hs s res t rfl

theorem Triple.of_state {p : Fallible Call Answer E ε α} (h : Triple exec allowed P p Q X) {s : σ}
    (hs : P s) : Triple exec allowed (· = s) p Q X := by
  rintro _ res t rfl hr
  exact h _ res t hs hr

theorem Triple.assuming {A : Prop} {p : Fallible Call Answer E ε α}
    (h : A → Triple exec allowed P p Q X) : Triple exec allowed (fun s => P s ∧ A) p Q X :=
  fun s res t hs => h hs.2 s res t hs.1

/-- The program leaves the state alone: it keeps every predicate. -/
def Reads (exec : Choice → σ → (c : Call) → Except E (Answer c) × σ)
    (p : Fallible Call Answer E ε α) : Prop :=
  ∀ (allowed : Choice → Prop) (P : σ → Prop), Triple exec allowed P p (fun _ => P) fun _ => P

theorem Reads.lift (res : Except ε α) : Reads exec (lift res : Fallible Call Answer E ε α) := by
  intro allowed P
  refine Triple.lift res fun s hs => ?_
  rcases res with e | a
  · exact hs
  · exact hs

theorem Reads.request {c : Call} {f : E → ε} (h : ∀ ch s, (exec ch s c).2 = s) :
    Reads exec (request c f : Fallible Call Answer E ε (Answer c)) := by
  intro allowed P
  refine Triple.request (fun s ch a t _ hs hexec => ?_) fun s ch e t _ hs hexec => ?_
  · have hstate := h ch s
    rw [hexec] at hstate
    change t = s at hstate
    rw [hstate]
    exact hs
  · have hstate := h ch s
    rw [hexec] at hstate
    change t = s at hstate
    rw [hstate]
    exact hs

theorem Reads.bind {p : Fallible Call Answer E ε α} {f : α → Fallible Call Answer E ε β}
    (hp : Reads exec p) (hf : ∀ a, Reads exec (f a)) : Reads exec (p >>= f) :=
  fun allowed P => (hp allowed P).bind fun a => hf a allowed P

theorem Reads.wrap {p : Fallible Call Answer E ε α} (f : ε → ε') (hp : Reads exec p) :
    Reads exec (wrap f p) :=
  fun allowed P => Triple.wrap (hp allowed P)

theorem Reads.attempt {p : Fallible Call Answer E ε α} (hp : Reads exec p) :
    Reads exec (attempt p : Fallible Call Answer E ε' (Except ε α)) :=
  fun allowed P => Triple.attempt (hp allowed P)

theorem Triple.reading {p : Fallible Call Answer E ε α}
    (h : Triple exec allowed P p Q fun _ _ => False) (hp : Reads exec p) :
    Triple exec allowed P p (fun a s => Q a s ∧ P s) fun _ _ => False :=
  (h.and (hp allowed P)).onError fun _ _ hx => hx.1

end Silk.Resumption.Fallible
