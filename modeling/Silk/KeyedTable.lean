import Mathlib.Data.List.Nodup

/-!
# Tables with one entry for each key

`set` replaces the entry with the key of the new one, `remove` deletes the entry
with a given key if it agrees with the entry named for deletion. Reconciling a
table sets every wanted entry and then removes the stale ones, which were chosen
before; it succeeds and keeps what it has set exactly when no stale entry shares
a key with a wanted one.
-/

namespace Silk.Keyed

variable {α κ : Type} {key : α → κ}

structure Table (key : α → κ) where
  entries : List α
  distinct : (entries.map key).Nodup

namespace Table

def empty : Table key := ⟨[], List.nodup_nil⟩

theorem nodup (t : Table key) : t.entries.Nodup := t.distinct.of_map key

theorem eq_of_key {t : Table key} {a b : α} (ha : a ∈ t.entries) (hb : b ∈ t.entries)
    (h : key a = key b) : a = b := List.inj_on_of_nodup_map t.distinct ha hb h

variable [DecidableEq κ]

def erase (t : Table key) (k : κ) : Table key :=
  ⟨t.entries.filter (key · ≠ k), (List.filter_sublist.map key).nodup t.distinct⟩

@[simp] theorem mem_erase {t : Table key} {k : κ} {e : α} :
    e ∈ (t.erase k).entries ↔ e ∈ t.entries ∧ key e ≠ k := by
  simp [erase]

def set (t : Table key) (a : α) : Table key where
  entries := (t.erase (key a)).entries ++ [a]
  distinct := by
    rw [List.map_append, List.map_singleton]
    refine (t.erase (key a)).distinct.append (List.nodup_singleton _) ?_
    simp [List.disjoint_singleton]

@[simp] theorem mem_set {t : Table key} {a e : α} :
    e ∈ (t.set a).entries ↔ e ∈ t.entries ∧ key e ≠ key a ∨ e = a := by
  simp [set]

def get (t : Table key) (k : κ) : Option α := t.entries.find? fun e => key e = k

theorem get_eq_some {t : Table key} {k : κ} {a : α} :
    t.get k = some a ↔ a ∈ t.entries ∧ key a = k := by
  constructor
  · intro h
    have hkey := List.find?_some h
    exact ⟨List.mem_of_find?_eq_some h, of_decide_eq_true hkey⟩
  · rintro ⟨ha, rfl⟩
    cases h : t.get (key a) with
    | none =>
      have hkey := List.find?_eq_none.mp h a ha
      simp at hkey
    | some b =>
      have hkey := List.find?_some h
      rw [eq_of_key (List.mem_of_find?_eq_some h) ha (of_decide_eq_true hkey)]

theorem get_eq_none {t : Table key} {k : κ} : t.get k = none ↔ ∀ a ∈ t.entries, key a ≠ k := by
  simp [get]

theorem get_set (t : Table key) (a : α) (k : κ) :
    (t.set a).get k = if key a = k then some a else t.get k := by
  split_ifs with hkey
  · exact get_eq_some.mpr ⟨mem_set.mpr (Or.inr rfl), hkey⟩
  · cases h : t.get k with
    | none =>
      refine get_eq_none.mpr fun b hb => ?_
      rcases mem_set.mp hb with ⟨hold, -⟩ | rfl
      · exact get_eq_none.mp h b hold
      · exact hkey
    | some b =>
      obtain ⟨hb, rfl⟩ := get_eq_some.mp h
      exact get_eq_some.mpr ⟨mem_set.mpr (Or.inl ⟨hb, Ne.symm hkey⟩), rfl⟩

theorem get_erase (t : Table key) (k' k : κ) :
    (t.erase k').get k = if k = k' then none else t.get k := by
  split_ifs with hkey
  · refine get_eq_none.mpr fun b hb hbk => ?_
    exact (mem_erase.mp hb).2 (hbk.trans hkey)
  · cases h : t.get k with
    | none => exact get_eq_none.mpr fun b hb => get_eq_none.mp h b (mem_erase.mp hb).1
    | some b =>
      obtain ⟨hb, rfl⟩ := get_eq_some.mp h
      exact get_eq_some.mpr ⟨mem_erase.mpr ⟨hb, hkey⟩, rfl⟩

theorem erase_of_get_eq_none {t : Table key} {k : κ} (h : t.get k = none) : t.erase k = t := by
  obtain ⟨entries, hd⟩ := t
  have hfilter : entries.filter (key · ≠ k) = entries :=
    List.filter_eq_self.mpr fun a ha => decide_eq_true (get_eq_none.mp h a ha)
  simp only [erase, hfilter]

def setAll (t : Table key) (as : List α) : Table key := as.foldl set t

theorem setAll_append (t : Table key) (as bs : List α) :
    t.setAll (as ++ bs) = (t.setAll as).setAll bs := List.foldl_append

theorem mem_setAll {t : Table key} {as : List α} (hd : (as.map key).Nodup) {e : α} :
    e ∈ (t.setAll as).entries ↔ e ∈ t.entries ∧ key e ∉ as.map key ∨ e ∈ as := by
  induction as generalizing t with
  | nil => simp [setAll]
  | cons a as ih =>
    rw [List.map_cons, List.nodup_cons] at hd
    change e ∈ ((t.set a).setAll as).entries ↔ _
    rw [ih hd.2, mem_set, List.map_cons, List.mem_cons, List.mem_cons, not_or]
    constructor
    · rintro (⟨⟨he, hne⟩ | rfl, hnot⟩ | hmem)
      · exact Or.inl ⟨he, hne, hnot⟩
      · exact Or.inr (Or.inl rfl)
      · exact Or.inr (Or.inr hmem)
    · rintro (⟨he, hne, hnot⟩ | rfl | hmem)
      · exact Or.inl ⟨Or.inl ⟨he, hne⟩, hnot⟩
      · exact Or.inl ⟨Or.inr rfl, hd.1⟩
      · exact Or.inr hmem

section Removal

variable (agrees : α → α → Bool)

/-- Delete the entry with the key of `a`; it has to agree with `a`. -/
def remove (t : Table key) (a : α) : Option (Table key) :=
  if t.entries.any fun e => decide (key e = key a) && agrees e a then some (t.erase (key a))
  else none

def removeAll : List α → Table key → Option (Table key)
  | [], t => some t
  | a :: as, t => (t.remove agrees a).bind (removeAll as)

variable {agrees}

theorem remove_eq_some {t t' : Table key} {a : α} :
    t.remove agrees a = some t' ↔
      (∃ e ∈ t.entries, key e = key a ∧ agrees e a = true) ∧ t' = t.erase (key a) := by
  rw [remove]
  split_ifs with h
  · simp only [List.any_eq_true, Bool.and_eq_true, decide_eq_true_eq] at h
    rw [Option.some.injEq, and_iff_right h]
    exact eq_comm
  · simp only [List.any_eq_true, Bool.and_eq_true, decide_eq_true_eq] at h
    constructor
    · intro hnone
      cases hnone
    · exact fun hsome => absurd hsome.1 h

theorem mem_of_remove {t t' : Table key} {a w : α} (h : t.remove agrees a = some t')
    (hw : w ∈ t.entries) (hne : key w = key a → agrees w a = false) : w ∈ t'.entries := by
  obtain ⟨⟨e, he, hkey, hagrees⟩, rfl⟩ := remove_eq_some.mp h
  refine mem_erase.mpr ⟨hw, fun hwa => ?_⟩
  rw [eq_of_key he hw (hkey.trans hwa.symm), hne hwa] at hagrees
  cases hagrees

theorem removeAll_cons_eq_some {t t' : Table key} {a : α} {as : List α} :
    removeAll agrees (a :: as) t = some t' ↔
      (∃ e ∈ t.entries, key e = key a ∧ agrees e a = true) ∧
        removeAll agrees as (t.erase (key a)) = some t' := by
  rw [removeAll, Option.bind_eq_some_iff]
  constructor
  · rintro ⟨u, hu, hrest⟩
    obtain ⟨hmem, rfl⟩ := remove_eq_some.mp hu
    exact ⟨hmem, hrest⟩
  · rintro ⟨hmem, hrest⟩
    exact ⟨_, remove_eq_some.mpr ⟨hmem, rfl⟩, hrest⟩

theorem mem_removeAll {t t' : Table key} {as : List α} (h : removeAll agrees as t = some t')
    {e : α} : e ∈ t'.entries ↔ e ∈ t.entries ∧ key e ∉ as.map key := by
  induction as generalizing t with
  | nil =>
    cases h
    simp
  | cons a as ih =>
    obtain ⟨-, hrest⟩ := removeAll_cons_eq_some.mp h
    rw [ih hrest, mem_erase, List.map_cons, List.mem_cons, not_or, and_assoc]

theorem removeAll_isSome {t : Table key} {as : List α} (hd : (as.map key).Nodup)
    (h : ∀ a ∈ as, ∃ e ∈ t.entries, key e = key a ∧ agrees e a = true) :
    ∃ t', removeAll agrees as t = some t' := by
  induction as generalizing t with
  | nil => exact ⟨t, rfl⟩
  | cons a as ih =>
    rw [List.map_cons, List.nodup_cons] at hd
    obtain ⟨t', ht'⟩ := ih (t := t.erase (key a)) hd.2 fun b hb => by
      obtain ⟨e, he, hkey, hagree⟩ := h b (List.mem_cons_of_mem a hb)
      refine ⟨e, mem_erase.mpr ⟨he, fun hne => hd.1 ?_⟩, hkey, hagree⟩
      rw [← hne, hkey]
      exact List.mem_map_of_mem hb
    exact ⟨t', removeAll_cons_eq_some.mpr ⟨h a List.mem_cons_self, ht'⟩⟩

theorem agrees_of_removeAll {t t' : Table key} {as : List α} (h : removeAll agrees as t = some t') :
    ∀ a ∈ as, ∃ e ∈ t.entries, key e = key a ∧ agrees e a = true := by
  induction as generalizing t with
  | nil => exact fun a ha => absurd ha List.not_mem_nil
  | cons b as ih =>
    obtain ⟨hmem, hrest⟩ := removeAll_cons_eq_some.mp h
    intro a ha
    rcases List.mem_cons.mp ha with rfl | ha
    · exact hmem
    · obtain ⟨e, he, hkey⟩ := ih hrest a ha
      exact ⟨e, (mem_erase.mp he).1, hkey⟩

/-- The stale entries are from the table before the wanted ones were set. -/
theorem removeAll_setAll_keeps_iff (hrefl : ∀ a, agrees a a = true) {t : Table key}
    {wanted stale : List α} (hwanted : (wanted.map key).Nodup) (hstale : (stale.map key).Nodup)
    (hsub : ∀ p ∈ stale, p ∈ t.entries) :
    (∃ t', removeAll agrees stale (t.setAll wanted) = some t' ∧ ∀ a ∈ wanted, a ∈ t'.entries) ↔
      ∀ p ∈ stale, key p ∉ wanted.map key := by
  constructor
  · rintro ⟨t', ht', hkept⟩ p hp hkey
    obtain ⟨a, ha, hka⟩ := List.mem_map.mp hkey
    have hnot := ((mem_removeAll ht').mp (hkept a ha)).2
    rw [hka] at hnot
    exact hnot (List.mem_map_of_mem hp)
  · intro h
    have hthere : ∀ p ∈ stale, ∃ e ∈ (t.setAll wanted).entries, key e = key p ∧ agrees e p = true :=
      fun p hp => ⟨p, (mem_setAll hwanted).mpr (Or.inl ⟨hsub p hp, h p hp⟩), rfl, hrefl p⟩
    obtain ⟨t', ht'⟩ := removeAll_isSome hstale hthere
    refine ⟨t', ht', fun a ha => (mem_removeAll ht').mpr ⟨?_, fun hkey => ?_⟩⟩
    · exact (mem_setAll hwanted).mpr (Or.inr ha)
    · obtain ⟨p, hp, hkp⟩ := List.mem_map.mp hkey
      refine h p hp ?_
      rw [hkp]
      exact List.mem_map_of_mem ha

end Removal
end Table
end Silk.Keyed
