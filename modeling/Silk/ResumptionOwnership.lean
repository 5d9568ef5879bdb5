import Silk.ResumptionEmbedding
import Silk.ResumptionGuarantee

/-!
# Programs that call a part of a shared state

A program whose calls act on a part of the state is guarded on the whole if each
of its calls moves the whole along the guarantee. If nobody else moves the part,
its results are those of an uninterrupted execution on the part alone. Threads
that own different parts and keep a common invariant go together.
-/

namespace Silk.Resumption

def Keeps {σ : Type} (K : σ → Prop) (s t : σ) : Prop := K s → K t

theorem Keeps.refl {σ : Type} {K : σ → Prop} (s : σ) : Keeps K s s := id

theorem Keeps.trans {σ : Type} {K : σ → Prop} (s t u : σ) (h : Keeps K s t) (h' : Keeps K t u) :
    Keeps K s u := h' ∘ h

namespace Program

variable {Call Call' : Type} {Reply : Call → Type} {Reply' : Call' → Type}
  {α σ τ Choice Choice' : Type} {f : Embedding Call Reply Call' Reply'}
  {exec : Choice → σ → (c : Call) → Reply c × σ} {allowed : Choice → Prop}
  {exec' : Choice' → τ → (c : Call') → Reply' c × τ} {allowed' : Choice' → Prop}
  {v : τ → σ} {I : σ → Prop} {J : τ → Prop} {P : α → σ → Prop} {Q : α → Prop}
  {p : Program Call Reply α}

/-- What holds of a program on a part of the state holds of it on the whole, if its calls act on the
part as they do alone. -/
theorem Guarded.embed {R G : σ → σ → Prop} {R' G' : τ → τ → Prop}
    (hrely : ∀ s t, R' s t → J s → J t ∧ R (v s) (v t))
    (hexec : ∀ ch' t c, allowed' ch' → J t → ∃ ch, allowed ch ∧
      (f.reply c (exec' ch' t (f.call c)).1, v (exec' ch' t (f.call c)).2) = exec ch (v t) c ∧
        (G (v t) (exec ch (v t) c).2 → J (exec' ch' t (f.call c)).2 ∧
          G' t (exec' ch' t (f.call c)).2))
    {s : τ} (h : p.Guarded exec allowed R G P (v s)) (hs : J s) :
    (p.embed f).Guarded exec' allowed' R' G' (fun a t => P a (v t) ∧ J t) s := by
  induction p generalizing s with
  | done a => exact fun t hst => ⟨h (v t) (hrely s t hst hs).2, (hrely s t hst hs).1⟩
  | call c next ih =>
    intro t ch' hst hch'
    obtain ⟨ht, hR⟩ := hrely s t hst hs
    obtain ⟨ch, hch, heq, hmove⟩ := hexec ch' t c hch' ht
    obtain ⟨hG, hnext⟩ := h (v t) ch hR hch
    rw [← heq] at hnext
    exact ⟨(hmove hG).2, ih _ hnext (hmove hG).1⟩

theorem Safe.guarded (h : p.Safe exec allowed I Q) {s : σ} (hs : I s) :
    p.Guarded exec allowed (Keeps I) (Keeps I) (fun a t => Q a ∧ I t) s := by
  induction p generalizing s with
  | done a => exact fun t hst => ⟨h, hst hs⟩
  | call c next ih =>
    intro t ch hst hch
    obtain ⟨hI, hnext⟩ := h t ch hch (hst hs)
    exact ⟨fun _ => hI, ih _ hnext hI⟩

theorem Safe.guarded_alone (h : p.Safe exec allowed I Q) {s : σ} (hs : I s)
    (hpost : ∀ a t, p.Runs exec allowed s a t → P a t) :
    p.Guarded exec allowed (fun s t => t = s) (Keeps I) P s := by
  induction p generalizing s with
  | done a =>
    rintro t rfl
    exact hpost a _ ⟨rfl, rfl⟩
  | call c next ih =>
    rintro t ch rfl hch
    obtain ⟨hI, hnext⟩ := h t ch hch hs
    exact ⟨fun _ => hI, ih _ hnext hI fun a u hrun => hpost a u ⟨ch, hch, hrun⟩⟩

theorem Guarded.weaken {R G R' G' : σ → σ → Prop} (hR : ∀ s t, R' s t → R s t)
    (hG : ∀ s t, G s t → G' s t) {s : σ} (h : p.Guarded exec allowed R G P s) :
    p.Guarded exec allowed R' G' P s := by
  induction p generalizing s with
  | done a => exact fun t hst => h t (hR s t hst)
  | call c next ih =>
    intro t ch hst hch
    obtain ⟨hmove, hnext⟩ := h t ch (hR s t hst) hch
    exact ⟨hG _ _ hmove, ih _ hnext⟩

theorem Guarded.reaches {R G : σ → σ → Prop} (htrans : ∀ s t u, R s t → R t u → R s u)
    (hGR : ∀ s t, G s t → R s t) {s₀ s : σ} (h₀ : R s₀ s) (h : p.Guarded exec allowed R G P s) :
    p.Guarded exec allowed R G (fun a t => P a t ∧ R s₀ t) s := by
  induction p generalizing s with
  | done a => exact fun t hst => ⟨h t hst, htrans _ _ _ h₀ hst⟩
  | call c next ih =>
    intro t ch hst hch
    obtain ⟨hmove, hnext⟩ := h t ch hst hch
    exact ⟨hmove, ih _ (htrans _ _ _ (htrans _ _ _ h₀ hst) (hGR _ _ hmove)) hnext⟩

/-- What the calls of a program have achieved, and everybody keeps, is still there at its end. -/
theorem Guarded.recall {R G : σ → σ → Prop} {W : Sigma Reply → σ → Prop}
    {E : List (Sigma Reply) → α → Prop}
    (hcall : ∀ c ch t, allowed ch → I t → W ⟨c, (exec ch t c).1⟩ (exec ch t c).2)
    (hR : ∀ s t, R s t → I s → I t ∧ ∀ e, W e s → W e t)
    (hG : ∀ s t, G s t → I s → I t ∧ ∀ e, W e s → W e t)
    {s : σ} (h : p.Guarded exec allowed R G P s) {history : List (Sigma Reply)}
    (he : p.Earns E history) (hs : I s) (hsofar : ∀ e ∈ history, W e s) :
    p.Guarded exec allowed R G
      (fun a t => P a t ∧ I t ∧ ∃ later, E later a ∧ ∀ e ∈ later, W e t) s := by
  induction p generalizing s history with
  | done a =>
    intro t hst
    obtain ⟨ht, hW⟩ := hR s t hst hs
    exact ⟨h t hst, ht, history, he, fun e hmem => hW e (hsofar e hmem)⟩
  | call c next ih =>
    intro t ch hst hch
    obtain ⟨ht, hW⟩ := hR s t hst hs
    obtain ⟨hmove, hnext⟩ := h t ch hst hch
    obtain ⟨hnextI, hW'⟩ := hG _ _ hmove ht
    refine ⟨hmove, ih _ hnext (he _) hnextI fun e hmem => ?_⟩
    rcases List.mem_append.mp hmem with hold | hnew
    · exact hW' e (hW e (hsofar e hold))
    · rw [List.mem_singleton.mp hnew]
      exact hcall c ch t hch ht

theorem Runs.part {s t : τ} {a : α} (hr : (p.embed f).Runs exec' allowed' s a t)
    (hexec : ∀ ch' t c, allowed' ch' → J t → ∃ ch, allowed ch ∧
      (f.reply c (exec' ch' t (f.call c)).1, v (exec' ch' t (f.call c)).2) = exec ch (v t) c ∧
        J (exec' ch' t (f.call c)).2)
    (hs : J s) : p.Runs exec allowed (v s) a (v t) ∧ J t := by
  induction p generalizing s with
  | done b =>
    obtain ⟨rfl, rfl⟩ := hr
    exact ⟨⟨rfl, rfl⟩, hs⟩
  | call c next ih =>
    obtain ⟨ch', hch', hnext⟩ := hr
    obtain ⟨ch, hch, heq, hJ⟩ := hexec ch' s c hch' hs
    obtain ⟨hpart, ht⟩ := ih _ hnext hJ
    refine ⟨⟨ch, hch, ?_⟩, ht⟩
    rw [← heq]
    exact hpart

end Program

variable {Call : Type} {Reply : Call → Type} {α Req σ Choice ι κ : Type}

/-- Everybody moves along `N`, and others leave alone what the owner owns. -/
def Relies (N : σ → σ → Prop) (part : ι → σ → κ) (owner : Option ι) (s t : σ) : Prop :=
  N s t ∧ ∀ i, owner = some i → part i t = part i s

def Guarantees (N : σ → σ → Prop) (part : ι → σ → κ) (owner : Option ι) (s t : σ) : Prop :=
  N s t ∧ ∀ i, owner ≠ some i → part i t = part i s

def Apart (a b : Option ι) : Prop := ∀ i, a = some i → b ≠ some i

section Owners

variable {N : σ → σ → Prop} {part : ι → σ → κ} {owner a b : Option ι} {s t u : σ}

theorem Relies.refl (hrefl : ∀ s, N s s) (s : σ) : Relies N part owner s s :=
  ⟨hrefl s, fun _ _ => rfl⟩

theorem Relies.trans (htrans : ∀ s t u, N s t → N t u → N s u) (s t u : σ)
    (h : Relies N part owner s t) (h' : Relies N part owner t u) : Relies N part owner s u :=
  ⟨htrans s t u h.1 h'.1, fun i hi => (h'.2 i hi).trans (h.2 i hi)⟩

theorem Apart.symm (h : Apart a b) : Apart b a := fun i hb ha => h i ha hb

theorem Apart.none_left (b : Option ι) : Apart none b := fun _ h => by cases h

theorem Guarantees.relies (hab : Apart a b) (h : Guarantees N part a s t) : Relies N part b s t :=
  ⟨h.1, fun i hb => h.2 i fun ha => hab i ha hb⟩

theorem Guarantees.of_none (h : Guarantees N part none s t) : Guarantees N part owner s t :=
  ⟨h.1, fun i _ => h.2 i fun h => by cases h⟩

/-- Threads that own different parts move along `N` in every interleaving, and the results of the
finished ones hold. -/
theorem Run.owned {M : Machine Call Reply α Req σ Choice}
    {cond : System Call Reply α Req σ → Label Req σ Choice → Prop} (owner : Req → Option ι)
    {P : Req → α → σ → Prop} (hrefl : ∀ s, N s s) (htrans : ∀ s t u, N s t → N t u → N s u)
    (haccepts : ∀ sys req, ¬ M.accepts sys req)
    (hdrift : ∀ s t, M.drift s t → N s t ∧ ∀ i, part i t = part i s)
    {reqs : List Req} {s : σ} {b : System Call Reply α Req σ} {ls : List (Label Req σ Choice)}
    (hr : Run M cond (M.launch reqs s) ls b)
    (hapart : reqs.Pairwise fun req req' => Apart (owner req) (owner req'))
    (hguarded : ∀ req ∈ reqs, (M.body req).Guarded M.exec M.allowed (Relies N part (owner req))
      (Guarantees N part (owner req)) (P req) s) :
    N s b.shared ∧
      ∀ th ∈ b.threads, ∀ res, th.program = .done res → P th.request res b.shared := by
  have hcompatible : Compatible (fun req => Relies N part (owner req))
      (fun req => Guarantees N part (owner req)) (M.launch reqs s).threads := by
    have hthreads := List.pairwise_map (f := fun req : Req =>
      (⟨req, [], M.body req⟩ : Thread Call Reply α Req)) (R := fun th th' =>
        Apart (owner th.request) (owner th'.request)) |>.mpr hapart
    intro i j th th' hij hi hj s t hst
    obtain ⟨hilt, rfl⟩ := List.getElem?_eq_some_iff.mp hi
    obtain ⟨hjlt, rfl⟩ := List.getElem?_eq_some_iff.mp hj
    rcases Nat.lt_or_gt_of_ne hij with hlt | hlt
    · exact hst.relies (List.pairwise_iff_getElem.mp hthreads i j hilt hjlt hlt)
    · exact hst.relies (List.pairwise_iff_getElem.mp hthreads j i hjlt hilt hlt).symm
  obtain ⟨hall, hend⟩ := hr.guarded (fun _ => Relies.refl hrefl) (fun _ => Relies.trans htrans)
    haccepts (fun _ s t hst => ⟨(hdrift s t hst).1, fun i _ => (hdrift s t hst).2 i⟩) (K := N s)
    (fun s t hs hst => htrans _ s t hs (hdrift s t hst).1) (fun _ s t hs hG => htrans _ s t hs hG.1)
    hcompatible (fun _ th hi => by
      obtain ⟨req, hreq, rfl⟩ := List.mem_map.mp (List.mem_of_getElem? hi)
      exact hguarded req hreq) (hrefl _)
  refine ⟨hend, fun th hth res hdone => ?_⟩
  obtain ⟨i, hi⟩ := List.mem_iff_getElem?.mp hth
  have hth := hall i th hi
  rw [hdone] at hth
  exact hth _ (Relies.refl hrefl _)

end Owners

end Silk.Resumption
