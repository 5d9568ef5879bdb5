import Mathlib.Data.List.Sort
import Mathlib.Order.Defs.LinearOrder

/-!
# Finite maps as sorted lists

A map lists its entries by increasing key, so equal maps are equal lists. Building
a map from a sorted list gives that list back.
-/

namespace Silk.Sorted

variable {K V : Type} [LinearOrder K]

def Increasing (entries : List (K × V)) : Prop := entries.Pairwise fun a b => a.1 < b.1

def insertEntry (k : K) (v : V) : List (K × V) → List (K × V)
  | [] => [(k, v)]
  | (k', v') :: rest =>
    if k < k' then (k, v) :: (k', v') :: rest
    else if k = k' then (k, v) :: rest
    else (k', v') :: insertEntry k v rest

theorem mem_insertEntry {k : K} {v : V} {entries : List (K × V)} {e : K × V}
    (h : e ∈ insertEntry k v entries) : e = (k, v) ∨ e ∈ entries := by
  induction entries with
  | nil => simpa [insertEntry] using h
  | cons a rest ih =>
    rw [insertEntry] at h
    split_ifs at h
    · simpa using h
    · rcases List.mem_cons.mp h with h | h
      · exact Or.inl h
      · exact Or.inr (List.mem_cons_of_mem a h)
    · rcases List.mem_cons.mp h with h | h
      · exact Or.inr (List.mem_cons.mpr (Or.inl h))
      · rcases ih h with h | h
        · exact Or.inl h
        · exact Or.inr (List.mem_cons_of_mem a h)

theorem Increasing.insertEntry {entries : List (K × V)} (h : Increasing entries) (k : K) (v : V) :
    Increasing (insertEntry k v entries) := by
  induction entries with
  | nil => exact List.pairwise_singleton _ _
  | cons a rest ih =>
    obtain ⟨ha, hrest⟩ := List.pairwise_cons.mp h
    rw [Sorted.insertEntry]
    split_ifs with hlt heq
    · refine List.pairwise_cons.mpr ⟨fun b hb => ?_, h⟩
      rcases List.mem_cons.mp hb with rfl | hb
      · exact hlt
      · exact hlt.trans (ha b hb)
    · refine List.pairwise_cons.mpr ⟨fun b hb => ?_, hrest⟩
      rw [heq]
      exact ha b hb
    · refine List.pairwise_cons.mpr ⟨fun b hb => ?_, ih hrest⟩
      rcases mem_insertEntry hb with rfl | hb
      · exact lt_of_le_of_ne (not_lt.mp hlt) (Ne.symm heq)
      · exact ha b hb

theorem insertEntry_last {entries : List (K × V)} {k : K} (h : ∀ e ∈ entries, e.1 < k) (v : V) :
    insertEntry k v entries = entries ++ [(k, v)] := by
  induction entries with
  | nil => rfl
  | cons a rest ih =>
    have ha := h a List.mem_cons_self
    rw [insertEntry, if_neg ha.not_gt, if_neg ha.ne',
      ih fun e he => h e (List.mem_cons_of_mem a he)]
    rfl

theorem foldl_insertEntry (done entries : List (K × V)) (h : Increasing (done ++ entries)) :
    entries.foldl (fun m e => insertEntry e.1 e.2 m) done = done ++ entries := by
  induction entries generalizing done with
  | nil => rw [List.append_nil, List.foldl_nil]
  | cons e rest ih =>
    have hlast : ∀ d ∈ done, d.1 < e.1 := fun d hd =>
      (List.pairwise_append.mp h).2.2 d hd e List.mem_cons_self
    rw [List.foldl_cons, insertEntry_last hlast, ih _ (by simpa using h), List.append_assoc]
    rfl

def lookup (k : K) : List (K × V) → Option V
  | [] => none
  | e :: rest => if e.1 = k then some e.2 else lookup k rest

theorem lookup_insertEntry (k : K) (v : V) (k' : K) (entries : List (K × V)) :
    lookup k' (insertEntry k v entries) = if k' = k then some v else lookup k' entries := by
  induction entries with
  | nil => simp only [insertEntry, lookup, eq_comm]
  | cons a rest ih =>
    rw [insertEntry]
    split_ifs with hlt heq hk hk hk
    all_goals simp_all [lookup, eq_comm]

theorem lookup_filter (k k' : K) (entries : List (K × V)) :
    lookup k' (entries.filter (·.1 ≠ k)) = if k' = k then none else lookup k' entries := by
  induction entries with
  | nil => simp [lookup]
  | cons a rest ih =>
    rw [List.filter_cons]
    by_cases ha : a.1 = k
    · simp only [ha, ne_eq, not_true_eq_false, decide_false, Bool.false_eq_true, if_false,
        ih, lookup]
      split_ifs with hk hk'
      · rfl
      · exact absurd hk'.symm hk
      · rfl
    · simp only [ha, ne_eq, not_false_eq_true, decide_true, if_true, lookup, ih]
      split_ifs with hak hk
      · exact absurd (hak.trans hk) ha
      · rfl
      · rfl
      · rfl

end Silk.Sorted

namespace Silk

structure SortedMap (K V : Type) [LinearOrder K] where
  entries : List (K × V)
  sorted : Sorted.Increasing entries

namespace SortedMap

variable {K V : Type} [LinearOrder K]

def empty : SortedMap K V := ⟨[], List.Pairwise.nil⟩

def insert (m : SortedMap K V) (k : K) (v : V) : SortedMap K V :=
  ⟨Sorted.insertEntry k v m.entries, m.sorted.insertEntry k v⟩

def erase (m : SortedMap K V) (k : K) : SortedMap K V :=
  ⟨m.entries.filter (·.1 ≠ k), m.sorted.filter _⟩

def get (m : SortedMap K V) (k : K) : Option V := Sorted.lookup k m.entries

theorem ext_entries {m m' : SortedMap K V} (h : m.entries = m'.entries) : m = m' := by
  obtain ⟨entries, hs⟩ := m
  cases h
  rfl

theorem foldl_insert (m : SortedMap K V) :
    m.entries.foldl (fun m e => m.insert e.1 e.2) empty = m := by
  have hentries : ∀ (l : List (K × V)) (s : SortedMap K V),
      (l.foldl (fun m e => m.insert e.1 e.2) s).entries =
        l.foldl (fun m e => Sorted.insertEntry e.1 e.2 m) s.entries := by
    intro l
    induction l with
    | nil => exact fun s => rfl
    | cons e rest ih => exact fun s => ih _
  apply ext_entries
  rw [hentries]
  exact Sorted.foldl_insertEntry [] m.entries m.sorted

theorem get_insert (m : SortedMap K V) (k : K) (v : V) (k' : K) :
    (m.insert k v).get k' = if k' = k then some v else m.get k' :=
  Sorted.lookup_insertEntry k v k' m.entries

theorem get_erase (m : SortedMap K V) (k k' : K) :
    (m.erase k).get k' = if k' = k then none else m.get k' :=
  Sorted.lookup_filter k k' m.entries

end SortedMap
end Silk
