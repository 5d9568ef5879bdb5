import Mathlib.Data.List.Infix
import Silk.RegExp

/-!
# The lines of a text

A text of a form that does not contain the separator of lines is found, at the
first place of the input where there is one, in the first line that bears such a
text. It is the whole line exactly when its place starts a line and it ends one.
-/

namespace Silk.RegExp

variable {α : Type}

def StartsLine (sep : α) (before : List α) : Prop := before = [] ∨ ∃ b, before = b ++ [sep]

def EndsLine (sep : α) (after : List α) : Prop := after = [] ∨ ∃ a, after = sep :: a

def Bears (form : List α → Prop) (line : List α) : Prop := ∃ a t b, line = a ++ (t ++ b) ∧ form t

theorem Bears.of_isInfix {form : List α → Prop} {line s : List α} (h : Bears form line)
    (hin : line <:+: s) : ∃ a t b, s = a ++ (t ++ b) ∧ a.length + t.length ≤ s.length ∧ form t := by
  obtain ⟨a, t, b, rfl, hform⟩ := h
  obtain ⟨x, y, rfl⟩ := hin
  refine ⟨x ++ a, t, b ++ y, by simp, ?_, hform⟩
  simp only [List.length_append]
  omega

theorem exists_startsLine (sep : α) (before : List α) :
    ∃ start head, before = start ++ head ∧ StartsLine sep start ∧ sep ∉ head := by
  induction before using List.reverseRecOn with
  | nil => exact ⟨[], [], rfl, Or.inl rfl, List.not_mem_nil⟩
  | append_singleton before c ih =>
    by_cases hc : c = sep
    · exact ⟨before ++ [c], [], by simp, Or.inr ⟨before, by rw [hc]⟩, List.not_mem_nil⟩
    · obtain ⟨start, head, rfl, hstart, hhead⟩ := ih
      refine ⟨start, head ++ [c], by simp, hstart, ?_⟩
      rw [List.mem_append, List.mem_singleton]
      rintro (h | h)
      · exact hhead h
      · exact hc h.symm

theorem exists_endsLine (sep : α) (after : List α) :
    ∃ tail rest, after = tail ++ rest ∧ EndsLine sep rest ∧ sep ∉ tail := by
  by_cases h : sep ∈ after
  · obtain ⟨tail, rest, rfl, htail⟩ := List.eq_append_cons_of_mem h
    exact ⟨tail, sep :: rest, rfl, Or.inr ⟨rest, rfl⟩, htail⟩
  · exact ⟨after, [], by simp, Or.inl rfl, h⟩

theorem startsLine_append {sep : α} {start head : List α} (hstart : StartsLine sep start)
    (hhead : sep ∉ head) : StartsLine sep (start ++ head) ↔ head = [] := by
  constructor
  · intro h
    rcases h with h | ⟨b, h⟩
    · exact (List.append_eq_nil_iff.mp h).2
    · induction head using List.reverseRecOn with
      | nil => rfl
      | append_singleton head c _ =>
        rw [← List.append_assoc] at h
        have hc := (List.append_inj' h rfl).2
        simp only [List.cons.injEq, and_true] at hc
        exact absurd (by simp [hc]) hhead
  · rintro rfl
    rwa [List.append_nil]

theorem endsLine_append {sep : α} {tail rest : List α} (hrest : EndsLine sep rest)
    (htail : sep ∉ tail) : EndsLine sep (tail ++ rest) ↔ tail = [] := by
  constructor
  · intro h
    rcases h with h | ⟨a, h⟩
    · exact (List.append_eq_nil_iff.mp h).1
    · cases tail with
      | nil => rfl
      | cons c tail =>
        simp only [List.cons_append, List.cons.injEq] at h
        exact absurd (by simp [h.1]) htail
  · rintro rfl
    exact hrest

section Split

variable [DecidableEq α] {sep : α}

def lines (sep : α) (s : List α) : List (List α) := s.splitOn sep

def FirstLine (sep : α) (P : List α → Prop) (s line : List α) : Prop :=
  ∃ earlier later, lines sep s = earlier ++ line :: later ∧ P line ∧ ∀ m ∈ earlier, ¬ P m

theorem FirstLine.mem {P : List α → Prop} {s line : List α} (h : FirstLine sep P s line) :
    line ∈ lines sep s := by
  obtain ⟨earlier, later, hlines, -⟩ := h
  rw [hlines]
  exact List.mem_append_right _ List.mem_cons_self

theorem FirstLine.unique {P : List α → Prop} {s line line' : List α} (h : FirstLine sep P s line)
    (h' : FirstLine sep P s line') : line = line' := by
  obtain ⟨earlier, later, hlines, hP, hnot⟩ := h
  obtain ⟨earlier', later', hlines', hP', hnot'⟩ := h'
  rw [hlines] at hlines'
  rcases List.append_eq_append_iff.mp hlines' with ⟨between, rfl, heq⟩ | ⟨between, rfl, heq⟩
  · cases between with
    | nil => exact (List.cons.inj heq).1
    | cons m between =>
      rw [(List.cons.inj heq).1] at hP
      exact absurd hP (hnot' m (by simp))
  · cases between with
    | nil => exact (List.cons.inj heq).1.symm
    | cons m between =>
      rw [(List.cons.inj heq).1] at hP'
      exact absurd hP' (hnot m (by simp))

theorem lines_of_not_mem {s : List α} (h : sep ∉ s) : lines sep s = [s] := by
  refine List.splitOnP_eq_singleton fun c hc => ?_
  exact beq_eq_false_iff_ne.mpr fun heq => h (heq ▸ hc)

theorem lines_append_sep (s t : List α) : lines sep (s ++ sep :: t) = lines sep s ++ lines sep t :=
  List.splitOnP_append_cons _ _ (beq_self_eq_true sep)

theorem infix_of_mem_lines {s m : List α} (h : m ∈ lines sep s) : m <:+: s := by
  induction hn : s.length using Nat.strong_induction_on generalizing s with
  | _ n ih =>
    by_cases hs : sep ∈ s
    · obtain ⟨line, rest, rfl, hline⟩ := List.eq_append_cons_of_mem hs
      rw [lines_append_sep, lines_of_not_mem hline] at h
      rcases List.mem_append.mp h with h | h
      · rw [List.mem_singleton.mp h]
        exact (List.prefix_append line _).isInfix
      · have hrest := ih rest.length (by simp [← hn]; omega) h rfl
        exact hrest.trans ((List.suffix_cons sep rest).isInfix.trans
          (List.suffix_append line _).isInfix)
    · rw [lines_of_not_mem hs] at h
      rw [List.mem_singleton.mp h]

theorem lines_of_place {start line rest : List α} (hstart : StartsLine sep start)
    (hrest : EndsLine sep rest) (hline : sep ∉ line) :
    ∃ earlier later, lines sep (start ++ (line ++ rest)) = earlier ++ line :: later ∧
      ∀ m ∈ earlier, m <:+: start := by
  have hbehind : ∃ later, lines sep (line ++ rest) = line :: later := by
    rcases hrest with rfl | ⟨a, rfl⟩
    · rw [List.append_nil, lines_of_not_mem hline]
      exact ⟨_, rfl⟩
    · rw [lines_append_sep, lines_of_not_mem hline]
      exact ⟨_, rfl⟩
  obtain ⟨later, hlater⟩ := hbehind
  rcases hstart with rfl | ⟨b, rfl⟩
  · exact ⟨[], later, hlater, fun m hm => absurd hm List.not_mem_nil⟩
  · refine ⟨lines sep b, later, ?_, fun m hm => ?_⟩
    · rw [List.append_assoc, List.singleton_append, lines_append_sep, hlater]
    · exact (infix_of_mem_lines hm).trans (List.prefix_append b _).isInfix

variable {form : List α → Prop} {s before t after : List α}

theorem FoundAt.exists_firstLine (h : FoundAt form s before t after)
    (hform : ∀ t, form t → sep ∉ t) (hne : ∀ t, form t → t ≠ []) :
    ∃ start head tail rest, before = start ++ head ∧ after = tail ++ rest ∧
      FirstLine sep (Bears form) s (head ++ (t ++ tail)) ∧
      (StartsLine sep before ↔ head = []) ∧ (EndsLine sep after ↔ tail = []) := by
  obtain ⟨start, head, hbefore, hstart, hhead⟩ := exists_startsLine sep before
  obtain ⟨tail, rest, hafter, hrest, htail⟩ := exists_endsLine sep after
  have hline : sep ∉ head ++ (t ++ tail) := by
    simp only [List.mem_append, not_or]
    exact ⟨hhead, hform t h.taken, htail⟩
  obtain ⟨earlier, later, hlines, hwithin⟩ := lines_of_place hstart hrest hline
  refine ⟨start, head, tail, rest, hbefore, hafter, ⟨earlier, later, ?_,
    ⟨head, t, tail, rfl, h.taken⟩, fun m hm hbears => ?_⟩, ?_, ?_⟩
  · rw [h.place, hbefore, hafter, ← hlines]
    simp only [List.append_assoc]
  · -- a text of the form in an earlier line would be found before
    obtain ⟨a, u, b, hstart', hle, hu⟩ := hbears.of_isInfix (hwithin m hm)
    have hplace : s = a ++ (u ++ (b ++ (head ++ (t ++ after)))) := by
      rw [h.place, hbefore, hstart']
      simp only [List.append_assoc]
    have hfirst := h.first _ _ _ hplace hu
    have hpos := List.length_pos_of_ne_nil (hne u hu)
    rw [hbefore, List.length_append] at hfirst
    omega
  · rw [hbefore]
    exact startsLine_append hstart hhead
  · rw [hafter]
    exact endsLine_append hrest htail

/-- What is found is the whole first line that bears a text of the form exactly when it starts and
ends a line. -/
theorem FoundAt.firstLine_iff (h : FoundAt form s before t after)
    (hform : ∀ t, form t → sep ∉ t) (hne : ∀ t, form t → t ≠ []) :
    FirstLine sep (Bears form) s t ↔ StartsLine sep before ∧ EndsLine sep after := by
  obtain ⟨-, head, tail, -, -, -, hfirst, hstarts, hends⟩ := h.exists_firstLine hform hne
  rw [hstarts, hends]
  constructor
  · intro hwhole
    have hlength := congrArg List.length (hfirst.unique hwhole)
    simp only [List.length_append] at hlength
    exact ⟨List.eq_nil_of_length_eq_zero (by omega), List.eq_nil_of_length_eq_zero (by omega)⟩
  · rintro ⟨rfl, rfl⟩
    rwa [List.nil_append, List.append_nil] at hfirst

theorem FoundAt.eq_of_firstLine (h : FoundAt form s before t after)
    (hform : ∀ t, form t → sep ∉ t) (hne : ∀ t, form t → t ≠ []) {line : List α}
    (hline : FirstLine sep (Bears form) s line) (hwhole : form line) : line = t := by
  obtain ⟨start, head, tail, rest, hbefore, hafter, hfirst, -, -⟩ := h.exists_firstLine hform hne
  have heq := hline.unique hfirst
  have hplace : s = start ++ (line ++ rest) := by
    rw [h.place, hbefore, hafter, heq]
    simp only [List.append_assoc]
  have hle := h.first _ _ _ hplace hwhole
  rw [hbefore, List.length_append] at hle
  obtain rfl : head = [] := List.eq_nil_of_length_eq_zero (by omega)
  rw [List.nil_append] at heq
  have hlong := h.longest line hwhole (by rw [heq, hafter, ← List.append_assoc]; simp)
  rw [heq, List.length_append] at hlong
  obtain rfl : tail = [] := List.eq_nil_of_length_eq_zero (by omega)
  rw [heq, List.append_nil]

end Split

end Silk.RegExp
