import Silk.LeaserCIDRPool

/-!
# Allocating until the pool is exhausted

`getAvailable` is called again and again, and each result is appended to the
taken list. The results are the subnets of the pool that were not taken at the
start, each once and in an order that only the draws decide, and then the empty
string for ever.
-/

namespace Silk.Leaser

def StringSet.without (pool : StringSet) (taken : List String) : List String :=
  pool.keys.filter (· ∉ taken)

def allocations (pool : StringSet) : ℕ → (ℕ → Draw) → List String → List String
  | 0, _, _ => []
  | n + 1, draws, taken =>
    let subnet := getAvailable (draws 0) taken pool
    subnet :: allocations pool n (fun i => draws (i + 1)) (taken ++ [subnet])

variable {pool : StringSet} {taken : List String}

theorem mem_without {x : String} : x ∈ pool.without taken ↔ x ∈ pool.keys ∧ x ∉ taken := by
  simp [StringSet.without]

theorem without_eq_nil : pool.without taken = [] ↔ ∀ x ∈ pool.keys, x ∈ taken := by
  simp [StringSet.without, List.filter_eq_nil_iff]

theorem without_append (x : String) :
    pool.without (taken ++ [x]) = (pool.without taken).filter (· ≠ x) := by
  rw [StringSet.without, StringSet.without, List.filter_filter]
  apply List.filter_congr
  intro y _
  by_cases hx : y = x <;> simp [hx]

theorem perm_without {x : String} (hx : x ∈ pool.without taken) :
    (x :: pool.without (taken ++ [x])).Perm (pool.without taken) := by
  have hnodup : (pool.without taken).Nodup := pool.nodup.filter _
  have herase : pool.without (taken ++ [x]) = (pool.without taken).erase x := by
    rw [without_append, hnodup.erase_eq_filter]
    apply List.filter_congr
    intro y _
    simp [bne, beq_eq_decide]
  rw [herase]
  exact (List.perm_cons_erase hx).symm

theorem getAvailable_of_nil (draw : Draw) (h : pool.without taken = []) :
    getAvailable draw taken pool = "" := by
  rcases getAvailable_spec draw taken pool with ⟨-, hempty⟩ | ⟨hmem, hfree⟩
  · exact hempty
  · exact absurd (without_eq_nil.mp h _ hmem) hfree

theorem getAvailable_mem (draw : Draw) (h : pool.without taken ≠ []) :
    getAvailable draw taken pool ∈ pool.without taken := by
  rcases getAvailable_spec draw taken pool with ⟨hall, -⟩ | hmem
  · exact absurd (without_eq_nil.mpr hall) h
  · exact mem_without.mpr hmem

theorem allocations_exhausted (h : pool.without taken = []) (n : ℕ) (draws : ℕ → Draw) :
    allocations pool n draws taken = List.replicate n "" := by
  induction n generalizing draws taken with
  | zero => rfl
  | succ n ih =>
    have hnext : pool.without (taken ++ [""]) = [] := by
      rw [without_append, h, List.filter_nil]
    rw [allocations, getAvailable_of_nil _ h, ih hnext, List.replicate_succ]

theorem allocations_perm (draws : ℕ → Draw) (n : ℕ) :
    ∃ drawn, drawn.Perm (pool.without taken) ∧
      allocations pool (drawn.length + n) draws taken = drawn ++ List.replicate n "" := by
  -- one call moves one subnet from the difference to `taken`
  induction hlen : (pool.without taken).length generalizing draws taken with
  | zero =>
    have hnil := List.length_eq_zero_iff.mp hlen
    refine ⟨[], by rw [hnil], ?_⟩
    rw [List.length_nil, Nat.zero_add, allocations_exhausted hnil, List.nil_append]
  | succ k ih =>
    have hne : pool.without taken ≠ [] := by
      intro hnil
      simp [hnil] at hlen
    have hperm := perm_without (getAvailable_mem (draws 0) hne)
    have hshorter : (pool.without (taken ++ [getAvailable (draws 0) taken pool])).length = k := by
      have hboth := hperm.length_eq
      simp only [List.length_cons] at hboth
      omega
    obtain ⟨drawn, hdrawn, hrest⟩ := ih (fun i => draws (i + 1)) hshorter
    refine ⟨getAvailable (draws 0) taken pool :: drawn, (hdrawn.cons _).trans hperm, ?_⟩
    rw [List.length_cons, Nat.add_right_comm, allocations, hrest, List.cons_append]

theorem keys_deleteAll (pool : StringSet) (taken : List String) :
    (taken.foldl StringSet.delete pool).keys = pool.without taken := by
  induction taken generalizing pool with
  | nil => simp [StringSet.without]
  | cons k ks ih =>
    rw [List.foldl_cons, ih, StringSet.without, StringSet.without, StringSet.delete,
      List.filter_filter]
    apply List.filter_congr
    intro x _
    by_cases hx : x = k <;> simp [hx]

theorem getAvailable_drawn (draw : Draw) (h : pool.without taken ≠ []) :
    let available := taken.foldl StringSet.delete pool
    (draw.order available)[draw.intn available.size]? = some (getAvailable draw taken pool) := by
  intro available
  have hsize : available.size ≠ 0 := by
    rw [StringSet.size, keys_deleteAll]
    exact fun hzero => h (List.length_eq_zero_iff.mp hzero)
  have hlt : draw.intn available.size < (draw.order available).length := by
    rw [(draw.order_perm available).length_eq]
    exact draw.intn_lt _ (Nat.pos_of_ne_zero hsize)
  rw [getAvailable, if_neg hsize, selectNth_eq (Nat.zero_le _), Nat.sub_zero,
    List.getElem?_eq_getElem hlt, Option.getD_some]

/-- A call draws one of the available subnets, and returns the empty string only when there is none
or the empty string is one of them. Repeated calls draw each of them once, and then nothing. -/
theorem allocation_enumerates (pool : StringSet) (taken : List String) :
    (∀ draw : Draw,
      (pool.without taken = [] → getAvailable draw taken pool = "") ∧
      (pool.without taken ≠ [] → getAvailable draw taken pool ∈ pool.without taken ∧
        (draw.order (taken.foldl StringSet.delete pool))[
          draw.intn (taken.foldl StringSet.delete pool).size]? =
            some (getAvailable draw taken pool)) ∧
      (getAvailable draw taken pool = "" → pool.without taken = [] ∨ "" ∈ pool.without taken)) ∧
    ∀ (draws : ℕ → Draw) (n : ℕ), ∃ drawn, drawn.Perm (pool.without taken) ∧
      allocations pool (drawn.length + n) draws taken = drawn ++ List.replicate n "" := by
  refine ⟨fun draw => ⟨getAvailable_of_nil draw, fun h => ?_, fun hempty => ?_⟩, allocations_perm⟩
  · exact ⟨getAvailable_mem draw h, getAvailable_drawn draw h⟩
  · by_cases h : pool.without taken = []
    · exact Or.inl h
    · right
      rw [← hempty]
      exact getAvailable_mem draw h

/-- A pool that holds the empty string: the call returns it although it was available. -/
theorem empty_string_available :
    getAvailable .first [] (StringSet.empty.insert "") = "" ∧
      (StringSet.empty.insert "").without [] = [""] := by
  decide

end Silk.Leaser
