import Silk.ResumptionTriple

/-!
# Programs inside larger programs

A program over few calls is part of a program over more of them. It runs on the
larger service as it would run alone on the part of that service which it calls.
-/

namespace Silk.Resumption

/-- Calls among more calls, and what their replies stand for. -/
structure Embedding (Call : Type) (Reply : Call → Type) (Call' : Type) (Reply' : Call' → Type) where
  call : Call → Call'
  reply : (c : Call) → Reply' (call c) → Reply c

section Programs

variable {Call Call' : Type} {Reply : Call → Type} {Reply' : Call' → Type} {α : Type}
  {σ Choice Choice' : Type} (f : Embedding Call Reply Call' Reply')

def Program.embed : Program Call Reply α → Program Call' Reply' α
  | .done a => .done a
  | .call c next => .call (f.call c) fun r => (next (f.reply c r)).embed

def Embedding.restrict (exec : Choice → σ → (c : Call') → Reply' c × σ) (choice : Choice) (s : σ)
    (c : Call) : Reply c × σ :=
  (f.reply c (exec choice s (f.call c)).1, (exec choice s (f.call c)).2)

variable {f} {exec : Choice → σ → (c : Call') → Reply' c × σ} {allowed : Choice → Prop}

theorem Program.runs_embed {p : Program Call Reply α} {s t : σ} {a : α} :
    (p.embed f).Runs exec allowed s a t ↔ p.Runs (f.restrict exec) allowed s a t := by
  induction p generalizing s with
  | done b => exact Iff.rfl
  | call c next ih =>
    simp only [embed, Runs, ih]
    exact Iff.rfl

theorem Program.Runs.transfer {exec : Choice → σ → (c : Call) → Reply c × σ}
    {exec' : Choice' → σ → (c : Call) → Reply c × σ} {allowed' : Choice' → Prop}
    (h : ∀ ch s c, allowed ch → ∃ ch', allowed' ch' ∧ exec' ch' s c = exec ch s c)
    {p : Program Call Reply α} {s t : σ} {a : α} (hr : p.Runs exec allowed s a t) :
    p.Runs exec' allowed' s a t := by
  induction p generalizing s with
  | done b => exact hr
  | call c next ih =>
    obtain ⟨ch, hch, hnext⟩ := hr
    obtain ⟨ch', hch', heq⟩ := h ch s c hch
    refine ⟨ch', hch', ?_⟩
    rw [heq]
    exact ih _ hnext

end Programs

namespace Fallible

variable {Call Call' : Type} {Answer : Call → Type} {Answer' : Call' → Type} {E E' ε : Type}
  {α : Type} {σ Choice : Type}
  (f : Embedding Call (fun c => Except E (Answer c)) Call' (fun c => Except E' (Answer' c)))

def embed (p : Fallible Call Answer E ε α) : Fallible Call' Answer' E' ε α :=
  ExceptT.mk (p.run.embed f)

variable {f} {exec : Choice → σ → (c : Call') → Except E' (Answer' c) × σ} {allowed : Choice → Prop}

theorem Triple.embed {P : σ → Prop} {p : Fallible Call Answer E ε α} {Q : α → σ → Prop}
    {X : ε → σ → Prop} (h : Triple (f.restrict exec) allowed P p Q X) :
    Triple exec allowed P (embed f p) Q X :=
  fun s res t hs hr => h s res t hs (Program.runs_embed.mp hr)

theorem Only.embed {Q : Call' → Prop} {p : Fallible Call Answer E ε α}
    (h : Only (fun c => Q (f.call c)) p) : Only Q (embed f p) := by
  have hfollows : ∀ (p : Program Call (fun c => Except E (Answer c)) (Except ε α)) last last',
      p.Follows (fun _ c => Q (f.call c)) last → (p.embed f).Follows (fun _ c => Q c) last' := by
    intro p
    induction p with
    | done a => exact fun _ _ _ => trivial
    | call c next ih => exact fun last last' h => ⟨h.1, fun r => ih _ _ _ (h.2 _)⟩
  exact fun last => hfollows p.run none last (h none)

theorem Only.keeps {Q : Call' → Prop} {P : σ → Prop} {p : Fallible Call' Answer' E' ε α}
    (h : Only Q p) (hkeep : ∀ ch s c, allowed ch → Q c → P s → P (exec ch s c).2) :
    Triple exec allowed P p (fun _ => P) fun _ => P := by
  have hruns : ∀ (p : Program Call' (fun c => Except E' (Answer' c)) (Except ε α)) last s res t,
      p.Follows (fun _ c => Q c) last → P s → p.Runs exec allowed s res t → P t := by
    intro p
    induction p with
    | done a =>
      rintro last s res t - hs ⟨-, rfl⟩
      exact hs
    | call c next ih =>
      rintro last s res t ⟨hc, hnext⟩ hs ⟨ch, hch, hr⟩
      exact ih _ _ _ _ _ (hnext _) (hkeep ch s c hch hc hs) hr
  intro s res t hs hr
  exact ends_const.mpr (hruns p.run none s res t (h none) hs hr)

end Fallible
end Silk.Resumption
