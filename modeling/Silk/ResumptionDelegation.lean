import Silk.ResumptionGuarantee
import Silk.ResumptionService
import Silk.ResumptionTriple

/-!
# Programs whose calls are carried out among other threads

`Asks` bounds the calls of a program by what is known of the state at each call,
in every uninterrupted execution. If other threads leave alone what a program's
calls act on, and each such call is carried out as the program's own service might
do it, then the program runs as without the other threads. What its calls and
replies say about its result, the calls that carry them out say as well.
-/

namespace Silk.Resumption.Program

variable {Call Call' : Type} {Reply : Call → Type} {Reply' : Call' → Type}
  {α β σ τ Choice Choice' : Type}

def Asks (exec : Choice → σ → (c : Call) → Reply c × σ) (allowed : Choice → Prop)
    (Φ : Call → Prop) : Program Call Reply α → σ → Prop
  | .done _, _ => True
  | .call c next, s => Φ c ∧
      ∀ ch, allowed ch → (next (exec ch s c).1).Asks exec allowed Φ (exec ch s c).2

section Asks

variable {exec : Choice → σ → (c : Call) → Reply c × σ} {allowed : Choice → Prop} {Φ : Call → Prop}
  {p : Program Call Reply α} {s : σ}

theorem Asks.bind {f : α → Program Call Reply β} (hp : p.Asks exec allowed Φ s)
    (hf : ∀ a t, p.Runs exec allowed s a t → (f a).Asks exec allowed Φ t) :
    (p >>= f).Asks exec allowed Φ s := by
  induction p generalizing s with
  | done a => exact hf a s ⟨rfl, rfl⟩
  | call c next ih =>
    exact ⟨hp.1, fun ch hch => ih _ (hp.2 ch hch) fun a t hr => hf a t ⟨ch, hch, hr⟩⟩

theorem Asks.of_follows {last : Option (Sigma Reply)} (h : p.Follows (fun _ c => Φ c) last) :
    p.Asks exec allowed Φ s := by
  induction p generalizing s last with
  | done a => trivial
  | call c next ih => exact ⟨h.1, fun ch _ => ih _ (h.2 _)⟩

end Asks

theorem Earns.mono {P Q : List (Sigma Reply) → α → Prop} (h : ∀ later a, P later a → Q later a)
    {p : Program Call Reply α} {history : List (Sigma Reply)} (hp : p.Earns P history) :
    p.Earns Q history := by
  induction p generalizing history with
  | done a => exact h history a hp
  | call c next ih => exact fun r => ih r (hp r)

theorem Earns.and {P Q : List (Sigma Reply) → α → Prop} {p : Program Call Reply α}
    {history : List (Sigma Reply)} (hp : p.Earns P history) (hq : p.Earns Q history) :
    p.Earns (fun later a => P later a ∧ Q later a) history := by
  induction p generalizing history with
  | done a => exact ⟨hp, hq⟩
  | call c next ih => exact fun r => ih r (hp r) (hq r)

theorem Earns.extends (p : Program Call Reply α) (history : List (Sigma Reply)) :
    p.Earns (fun later _ => history ⊆ later) history := by
  have hkeep : ∀ base ⊆ history, p.Earns (fun later _ => base ⊆ later) history := by
    induction p generalizing history with
    | done a => exact fun base hbase => hbase
    | call c next ih =>
      exact fun base hbase r => ih r _ base (List.Subset.trans hbase (List.subset_append_left _ _))
  exact hkeep history (List.Subset.refl _)

section Through

variable {service : (c : Call) → Program Call' Reply' (Reply c)}

/-- Each call is carried out among other threads as the program's own service might do it. -/
theorem Asks.guarded {exec : Choice → σ → (c : Call) → Reply c × σ} {allowed : Choice → Prop}
    {exec' : Choice' → τ → (c : Call') → Reply' c × τ} {allowed' : Choice' → Prop} {Φ : Call → Prop}
    {v : τ → σ} {J : τ → Prop} {R G : τ → τ → Prop} (hrefl : ∀ s, R s s)
    (hrely : ∀ s t, R s t → J s → J t ∧ v t = v s)
    (hserve : ∀ c s, Φ c → J s → (service c).Guarded exec' allowed' R G
      (fun r t => J t ∧ ∃ ch, allowed ch ∧ exec ch (v s) c = (r, v t)) s)
    {p : Program Call Reply α} {s : τ} (h : p.Asks exec allowed Φ (v s)) (hs : J s) :
    (p.through service).Guarded exec' allowed' R G
      (fun a t => J t ∧ p.Runs exec allowed (v s) a (v t)) s := by
  induction p generalizing s with
  | done a => exact fun t hst => ⟨(hrely s t hst hs).1, rfl, (hrely s t hst hs).2⟩
  | call c next ih =>
    refine (hserve c s h.1 hs).bind hrefl fun r t ⟨ht, ch, hch, heq⟩ => ?_
    have hnext := h.2 ch hch
    rw [heq] at hnext
    refine (ih r hnext ht).mono fun a u ⟨hu, hrun⟩ => ⟨hu, ch, hch, ?_⟩
    rw [heq]
    exact hrun

/-- What is evidence in the history of a program is evidence in the history of what carries out its
calls, if this is so of each call. -/
theorem Earns.through {ρ : Type} {A : Sigma Reply → ρ → Prop} {B : Sigma Reply' → ρ → Prop}
    {Q : α → ρ → Prop}
    (hserve : ∀ c later, (service c).Earns
      (fun later r => ∀ x, A ⟨c, r⟩ x → ∃ e ∈ later, B e x) later)
    {p : Program Call Reply α} {history : List (Sigma Reply)} {later : List (Sigma Reply')}
    (hp : p.Earns (fun history a => ∀ x, Q a x → ∃ e ∈ history, A e x) history)
    (hsofar : ∀ e ∈ history, ∀ x, A e x → ∃ e' ∈ later, B e' x) :
    (p.through service).Earns (fun later a => ∀ x, Q a x → ∃ e ∈ later, B e x) later := by
  induction p generalizing history later with
  | done a =>
    intro x hx
    obtain ⟨e, he, hA⟩ := hp x hx
    exact hsofar e he x hA
  | call c next ih =>
    refine ((hserve c later).and (Earns.extends _ later)).bind fun r later' hlater => ih r (hp r) ?_
    intro e he x hA
    rcases List.mem_append.mp he with hold | hnew
    · obtain ⟨e', he', hB⟩ := hsofar e hold x hA
      exact ⟨e', hlater.2 he', hB⟩
    · rw [List.mem_singleton.mp hnew] at hA
      exact hlater.1 x hA

end Through

theorem embed_eq_through (f : Embedding Call Reply Call' Reply') (p : Program Call Reply α) :
    p.embed f = p.through fun c => .call (f.call c) fun r => .done (f.reply c r) := by
  induction p with
  | done a => rfl
  | call c next ih => exact congrArg (Program.call _) (funext fun r => ih _)

theorem Earns.embed {ρ : Type} {f : Embedding Call Reply Call' Reply'} {A : Sigma Reply → ρ → Prop}
    {B : Sigma Reply' → ρ → Prop} {Q : α → ρ → Prop}
    (hcall : ∀ c r x, A ⟨c, f.reply c r⟩ x → B ⟨f.call c, r⟩ x) {p : Program Call Reply α}
    (hp : p.Earns (fun history a => ∀ x, Q a x → ∃ e ∈ history, A e x) [])
    (later : List (Sigma Reply')) :
    (p.embed f).Earns (fun later a => ∀ x, Q a x → ∃ e ∈ later, B e x) later := by
  rw [embed_eq_through]
  refine hp.through ?_ fun e he => absurd he List.not_mem_nil
  exact fun c later r x hA => ⟨_, List.mem_append_right _ (List.mem_singleton_self _),
    hcall c r x hA⟩

end Silk.Resumption.Program

namespace Silk.Resumption

variable {Call : Type} {Reply : Call → Type} {α Req σ Choice : Type}
  {M : Machine Call Reply α Req σ Choice}
  {cond : System Call Reply α Req σ → Label Req σ Choice → Prop}

/-- What a reply says about the state in which a call leaves it was so at some moment of the run. -/
theorem Run.witnessed {W : σ → Prop} {a b : System Call Reply α Req σ}
    {ls : List (Label Req σ Choice)}
    (hfresh : ∀ th ∈ a.threads, th.history = []) (hr : Run M cond a ls b) {i : ℕ}
    {th : Thread Call Reply α Req} (hi : b.threads[i]? = some th) {entry : Sigma Reply}
    (he : entry ∈ th.history)
    (hW : ∀ choice s, (M.exec choice s entry.1).1 = entry.2 → W (M.exec choice s entry.1).2) :
    ∃ ls₁ ls₂ sys, ls = ls₁ ++ ls₂ ∧ Run M cond a ls₁ sys ∧ W sys.shared := by
  have hlater : ∀ (ls : List (Label Req σ Choice)) (l : Label Req σ Choice),
      (∃ ls₁ ls₂ sys, ls = ls₁ ++ ls₂ ∧ Run M cond a ls₁ sys ∧ W sys.shared) →
      ∃ ls₁ ls₂ sys, ls ++ [l] = ls₁ ++ ls₂ ∧ Run M cond a ls₁ sys ∧ W sys.shared := by
    rintro ls l ⟨ls₁, ls₂, sys, rfl, hrun⟩
    exact ⟨ls₁, ls₂ ++ [l], sys, List.append_assoc _ _ _, hrun⟩
  induction hr generalizing i th with
  | nil =>
    rw [hfresh th (List.mem_of_getElem? hi)] at he
    cases he
  | @snoc b c ls l hr hs hc ih =>
    have hrun := Run.snoc hr hs hc
    cases hs with
    | start hacc =>
      rw [List.getElem?_append] at hi
      split_ifs at hi with hlt
      · exact hlater ls _ (ih hi he)
      · rw [List.getElem?_singleton] at hi
        split_ifs at hi
        cases hi
        cases he
    | drift hd => exact hlater ls _ (ih hi he)
    | @statement j choice th₁ q next hj hp hallowed =>
      by_cases hij : j = i
      · subst hij
        rw [List.getElem?_set_self (List.getElem?_eq_some_iff.mp hj).1] at hi
        cases hi
        rcases List.mem_append.mp he with hold | hnew
        · exact hlater ls _ (ih hj hold)
        · rw [List.mem_singleton.mp hnew] at hW
          exact ⟨_, [], _, (List.append_nil _).symm, hrun, hW choice b.shared rfl⟩
      · rw [List.getElem?_set_ne hij] at hi
        exact hlater ls _ (ih hi he)

end Silk.Resumption

namespace Silk.Resumption.Fallible

variable {Call : Type} {Answer : Call → Type} {E ε ε' : Type} {α β : Type} {σ Choice : Type}
  {exec : Choice → σ → (c : Call) → Except E (Answer c) × σ} {allowed : Choice → Prop}
  {Φ : Call → Prop} {P : σ → Prop} {Q : α → σ → Prop} {X : ε → σ → Prop}
  {p : Fallible Call Answer E ε α} {s : σ}

theorem Only.asks (h : Only Φ p) (s : σ) : p.run.Asks exec allowed Φ s := .of_follows (h none)

theorem asks_bind {f : α → Fallible Call Answer E ε β} (hp : p.run.Asks exec allowed Φ s)
    (htriple : Triple exec allowed P p Q X) (hs : P s)
    (hf : ∀ a t, Q a t → (f a).run.Asks exec allowed Φ t) :
    (p >>= f).run.Asks exec allowed Φ s := by
  rw [run_bind]
  refine hp.bind fun res t hr => ?_
  have hend := htriple s res t hs hr
  cases res with
  | error e => trivial
  | ok a => exact hf a t hend

theorem asks_attempt {f : Except ε α → Fallible Call Answer E ε' β}
    (hp : p.run.Asks exec allowed Φ s) (htriple : Triple exec allowed P p Q X) (hs : P s)
    (hf : ∀ res t, Ends Q X res t → (f res).run.Asks exec allowed Φ t) :
    (attempt p >>= f).run.Asks exec allowed Φ s := by
  rw [run_attempt_bind]
  exact hp.bind fun res t hr => hf res t (htriple s res t hs hr)

def Attains (Q : List (Sigma fun c => Except E (Answer c)) → α → Prop)
    (history : List (Sigma fun c => Except E (Answer c))) (p : Fallible Call Answer E ε α) : Prop :=
  p.run.Earns (fun later res => ∀ a, res = .ok a → Q later a) history

section Attains

variable {history : List (Sigma fun c => Except E (Answer c))}
  {Q : List (Sigma fun c => Except E (Answer c)) → α → Prop}
  {R : List (Sigma fun c => Except E (Answer c)) → β → Prop}

theorem Attains.bind {f : α → Fallible Call Answer E ε β} (hp : Attains Q history p)
    (hf : ∀ a later, Q later a → Attains R later (f a)) : Attains R history (p >>= f) := by
  rw [Attains, run_bind]
  refine Program.Earns.bind hp fun res later hres => ?_
  cases res with
  | error e => exact fun b hb => by cases hb
  | ok a => exact hf a later (hres a rfl)

theorem Attains.attempt {f : Except ε α → Fallible Call Answer E ε' β}
    (hf : ∀ res later, Attains R later (f res)) : Attains R history (attempt p >>= f) := by
  rw [Attains, run_attempt_bind]
  exact (Program.Earns.of_forall (P := fun _ _ => True) (fun _ _ => trivial) p.run history).bind
    fun res later _ => hf res later

theorem Attains.request {c : Call} {f : E → ε}
    {Q : List (Sigma fun c => Except E (Answer c)) → Answer c → Prop}
    (h : ∀ a, Q (history ++ [⟨c, .ok a⟩]) a) :
    Attains Q history (request c f : Fallible Call Answer E ε (Answer c)) := by
  intro reply a ha
  cases reply with
  | error e => cases ha
  | ok b =>
    cases ha
    exact h a

theorem Attains.pure {a : α} (h : Q history a) :
    Attains Q history (pure a : Fallible Call Answer E ε α) := by
  intro b hb
  cases hb
  exact h

theorem Attains.throw {e : ε} : Attains Q history (throw e : Fallible Call Answer E ε α) :=
  fun _ hb => by cases hb

theorem Attains.any (p : Fallible Call Answer E ε α) : Attains (fun _ _ => True) history p :=
  Program.Earns.of_forall (fun _ _ _ _ => trivial) p.run history

theorem Attains.keeps {entry : Sigma fun c => Except E (Answer c)} (p : Fallible Call Answer E ε α)
    (h : entry ∈ history) : Attains (fun later _ => entry ∈ later) history p :=
  Program.Earns.mono (fun _ _ hmem _ _ => hmem) (Program.Earns.keeps p.run h)

end Attains

end Silk.Resumption.Fallible
