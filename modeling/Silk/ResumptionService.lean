import Silk.ResumptionEmbedding
import Silk.ResumptionInterleaving

/-!
# Services on top of other services

Each call of a program is carried out by a program over the calls of another
service. If every outcome of the second program is one the first service could
have given, then the whole program runs as it would on the first service.
-/

namespace Silk.Resumption.Program

variable {Call Call' : Type} {Reply : Call → Type} {Reply' : Call' → Type} {α β γ : Type}
  {σ τ Choice Choice' : Type}

theorem bind_assoc (p : Program Call Reply α) (f : α → Program Call Reply β)
    (g : β → Program Call Reply γ) : (p >>= f) >>= g = p >>= fun a => f a >>= g := by
  induction p with
  | done a => rfl
  | call c next ih => simp only [bind_call, ih]

theorem embed_bind (f : Embedding Call Reply Call' Reply') (p : Program Call Reply α)
    (g : α → Program Call Reply β) : (p >>= g).embed f = p.embed f >>= fun a => (g a).embed f := by
  induction p with
  | done a => rfl
  | call c next ih => simp only [bind_call, embed, ih]

/-- Carry out each call by a program over other calls. -/
def through (service : (c : Call) → Program Call' Reply' (Reply c)) :
    Program Call Reply α → Program Call' Reply' α
  | .done a => .done a
  | .call c next => service c >>= fun r => (next r).through service

theorem through_bind (service : (c : Call) → Program Call' Reply' (Reply c))
    (p : Program Call Reply α) (f : α → Program Call Reply β) :
    (p >>= f).through service = p.through service >>= fun a => (f a).through service := by
  induction p with
  | done a => rfl
  | call c next ih => simp only [bind_call, through, ih, bind_assoc]

variable {service : (c : Call) → Program Call' Reply' (Reply c)}
  {exec : Choice → σ → (c : Call') → Reply' c × σ} {allowed : Choice → Prop}

theorem runs_through_call {c : Call} {next : Reply c → Program Call Reply α} {s t : σ} {a : α} :
    ((Program.call c next).through service).Runs exec allowed s a t ↔
      ∃ r u, (service c).Runs exec allowed s r u ∧
        ((next r).through service).Runs exec allowed u a t := runs_bind

/-- The calls are carried out as another service, on its own view of the state, might do it. -/
theorem Runs.abstract {exec' : Choice' → τ → (c : Call) → Reply c × τ} {allowed' : Choice' → Prop}
    {view : σ → τ} {I : σ → Prop}
    (h : ∀ c s r t, I s → (service c).Runs exec allowed s r t →
      I t ∧ ∃ ch, allowed' ch ∧ exec' ch (view s) c = (r, view t))
    {p : Program Call Reply α} {s t : σ} {a : α} (hs : I s)
    (hr : (p.through service).Runs exec allowed s a t) :
    I t ∧ p.Runs exec' allowed' (view s) a (view t) := by
  induction p generalizing s with
  | done b =>
    obtain ⟨rfl, rfl⟩ := hr
    exact ⟨hs, rfl, rfl⟩
  | call c next ih =>
    obtain ⟨r, u, hserved, hnext⟩ := runs_through_call.mp hr
    obtain ⟨hu, ch, hch, heq⟩ := h c s r u hs hserved
    obtain ⟨ht, hrun⟩ := ih r hu hnext
    refine ⟨ht, ch, hch, ?_⟩
    rw [heq]
    exact hrun

theorem Safe.lift {f : Embedding Call Reply Call' Reply'}
    {exec : Choice → σ → (c : Call) → Reply c × σ}
    {allowed : Choice → Prop} {exec' : Choice' → τ → (c : Call') → Reply' c × τ}
    {allowed' : Choice' → Prop} {v : τ → σ} {I : σ → Prop} {J : τ → Prop} {Q : α → Prop}
    (hview : ∀ t, J t → I (v t))
    (hexec : ∀ ch' t c, allowed' ch' → J t → ∃ ch, allowed ch ∧
      (f.reply c (exec' ch' t (f.call c)).1, v (exec' ch' t (f.call c)).2) = exec ch (v t) c ∧
        (I (exec ch (v t) c).2 → J (exec' ch' t (f.call c)).2))
    {p : Program Call Reply α} (h : p.Safe exec allowed I Q) :
    (p.embed f).Safe exec' allowed' J Q := by
  induction p with
  | done a => exact h
  | call c next ih =>
    intro t ch' hch' ht
    obtain ⟨ch, hch, heq, hJ⟩ := hexec ch' t c hch' ht
    obtain ⟨hI, hnext⟩ := h (v t) ch hch (hview t ht)
    refine ⟨hJ hI, ?_⟩
    rw [← heq] at hnext
    exact ih _ hnext

end Silk.Resumption.Program

namespace Silk.Resumption

variable {Call : Type} {Reply : Call → Type} {α Req σ Choice : Type}
  {M : Machine Call Reply α Req σ Choice}

theorem Run.finish {a : System Call Reply α Req σ} {ls : List (Label Req σ Choice)} {s t : σ}
    {ths : List (Thread Call Reply α Req)} {th : Thread Call Reply α Req} {res : α}
    (hr : Run M (fun _ _ => True) a ls ⟨s, ths ++ [th]⟩)
    (hrun : th.program.Runs M.exec M.allowed s res t) :
    ∃ ls' th', Run M (fun _ _ => True) a ls' ⟨t, ths ++ [th']⟩ ∧ th'.program = .done res := by
  obtain ⟨req, history, program⟩ := th
  induction program generalizing s ls history with
  | done b =>
    obtain ⟨rfl, rfl⟩ := hrun
    exact ⟨ls, _, hr, rfl⟩
  | call c next ih =>
    obtain ⟨ch, hch, hnext⟩ := hrun
    have hstep := hr.snoc (.statement (List.getElem?_concat_length) rfl hch) trivial
    rw [List.set_append_right _ _ (Nat.le_refl _), Nat.sub_self, List.set_cons_zero] at hstep
    exact ih _ _ hstep hnext

theorem Run.serve {a : System Call Reply α Req σ} {ls : List (Label Req σ Choice)} {s t : σ}
    {ths : List (Thread Call Reply α Req)} {req : Req} {res : α}
    (hr : Run M (fun _ _ => True) a ls ⟨s, ths⟩) (hacc : M.accepts ⟨s, ths⟩ req)
    (hrun : (M.body req).Runs M.exec M.allowed s res t) :
    ∃ ls' th', Run M (fun _ _ => True) a ls' ⟨t, ths ++ [th']⟩ ∧ th'.program = .done res :=
  (hr.snoc (.start hacc) trivial).finish hrun

end Silk.Resumption
