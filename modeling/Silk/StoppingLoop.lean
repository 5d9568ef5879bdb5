import Mathlib.Data.Seq.Basic

/-!
# Loops that stop at the first error

A loop takes one item of a finite or infinite sequence after the other and
returns at the first step that ends with an error. If the steps without error
follow a total function `next`, the state before every item is known without
running the loop, and the loop stops at the first item whose step fails there.
-/

namespace Silk.Loop

variable {σ α ε : Type}

/-- The state after the first items, or the error the loop has returned. -/
def after (step : σ → α → Except ε σ) (s : σ) (items : Stream'.Seq α) : ℕ → Except ε σ
  | 0 => .ok s
  | k + 1 =>
    match after step s items k with
    | .error e => .error e
    | .ok t =>
      match items.get? k with
      | none => .ok t
      | some a => step t a

def StopsAt (step : σ → α → Except ε σ) (s : σ) (items : Stream'.Seq α) (k : ℕ) (e : ε) : Prop :=
  (∃ t, after step s items k = .ok t) ∧ after step s items (k + 1) = .error e

def undisturbed (next : σ → α → σ) (s : σ) (items : Stream'.Seq α) : ℕ → σ
  | 0 => s
  | k + 1 =>
    match items.get? k with
    | none => undisturbed next s items k
    | some a => next (undisturbed next s items k) a

variable {step : σ → α → Except ε σ} {next : σ → α → σ} {s : σ} {items : Stream'.Seq α}

theorem after_succ {k : ℕ} {t : σ} (h : after step s items k = .ok t) :
    after step s items (k + 1) = match items.get? k with
      | none => .ok t
      | some a => step t a := by
  rw [after, h]

theorem ok_of_after_succ {k : ℕ} {t : σ} (h : after step s items (k + 1) = .ok t) :
    ∃ u, after step s items k = .ok u := by
  cases hk : after step s items k with
  | error e =>
    rw [after, hk] at h
    cases h
  | ok u => exact ⟨u, rfl⟩

theorem undisturbed_of_after (hnext : ∀ t a u, step t a = .ok u → u = next t a) {k : ℕ} {t : σ}
    (h : after step s items k = .ok t) : t = undisturbed next s items k := by
  induction k generalizing t with
  | zero =>
    cases h
    rfl
  | succ k ih =>
    obtain ⟨u, hu⟩ := ok_of_after_succ h
    have hstate := ih hu
    rw [after_succ hu] at h
    rw [undisturbed]
    cases hitem : items.get? k with
    | none =>
      rw [hitem] at h
      cases h
      exact hstate
    | some a =>
      rw [hitem] at h
      simpa only [← hstate] using hnext u a t h

theorem after_ok_iff (hnext : ∀ t a u, step t a = .ok u → u = next t a) (k : ℕ) :
    (∃ t, after step s items k = .ok t) ↔
      ∀ j < k, ∀ a, items.get? j = some a → ∃ u, step (undisturbed next s items j) a = .ok u := by
  induction k with
  | zero => simp [after]
  | succ k ih =>
    constructor
    · rintro ⟨t, ht⟩ j hj a ha
      obtain ⟨u, hu⟩ := ok_of_after_succ ht
      rcases Nat.lt_succ_iff_lt_or_eq.mp hj with hlt | rfl
      · exact ih.mp ⟨u, hu⟩ j hlt a ha
      · rw [after_succ hu, ha] at ht
        rw [← undisturbed_of_after hnext hu]
        exact ⟨t, ht⟩
    · intro h
      obtain ⟨u, hu⟩ := ih.mpr fun j hj => h j (Nat.lt_succ_of_lt hj)
      rw [after_succ hu]
      cases hitem : items.get? k with
      | none => exact ⟨u, rfl⟩
      | some a =>
        rw [undisturbed_of_after hnext hu]
        exact h k (Nat.lt_succ_self k) a hitem

theorem stopsAt_iff (hnext : ∀ t a u, step t a = .ok u → u = next t a) {k : ℕ} {e : ε} :
    StopsAt step s items k e ↔
      (∃ a, items.get? k = some a ∧ step (undisturbed next s items k) a = .error e) ∧
        ∀ j < k, ∀ a, items.get? j = some a → ∃ u, step (undisturbed next s items j) a = .ok u := by
  rw [StopsAt, after_ok_iff hnext, and_comm]
  refine and_congr_left fun hrun => ?_
  obtain ⟨u, hu⟩ := (after_ok_iff hnext k).mpr hrun
  rw [after_succ hu, ← undisturbed_of_after hnext hu]
  cases items.get? k with
  | none => simp
  | some a => simp

/-- A loop that sees its items only through `key` runs over the sequence of keys. -/
theorem after_map {κ : Type} {judge : σ → κ → Except ε σ} {key : α → κ}
    (h : ∀ t a, step t a = judge t (key a)) (k : ℕ) :
    after step s items k = after judge s (items.map key) k := by
  induction k with
  | zero => rfl
  | succ k ih =>
    rw [after, after, ih, Stream'.Seq.map_get?]
    cases after judge s (items.map key) k with
    | error e => rfl
    | ok t =>
      cases items.get? k with
      | none => rfl
      | some a => exact h t a

theorem stopsAt_map {κ : Type} {judge : σ → κ → Except ε σ} {key : α → κ}
    (h : ∀ t a, step t a = judge t (key a)) {k : ℕ} {e : ε} :
    StopsAt step s items k e ↔ StopsAt judge s (items.map key) k e := by
  rw [StopsAt, StopsAt, after_map h, after_map h]

end Silk.Loop
