import Mathlib.Data.List.Basic
import Mathlib.Data.List.TakeWhile
import Mathlib.Data.Nat.Notation

/-!
# Leftmost-first matching of regular expressions

`ways` lists the ways in which an expression matches at the start of a text, in
the order in which a backtracking matcher tries them; `find` takes the first way
at the first place that has one. An expression has at most one capturing group.

Where the first way is also the longest one, the matcher finds the longest text
of the expression's form at the first place where there is one at all.
-/

namespace Silk

inductive RegExp (α : Type) where
  | empty
  | one (accepts : α → Bool)
  | seq (first second : RegExp α)
  | times (least more : ℕ) (body : RegExp α)
  | group (body : RegExp α)

namespace RegExp

variable {α : Type}

/-- A way to match: the text taken, the text behind it, and what the group captured. -/
structure Way (α : Type) where
  taken : List α
  rest : List α
  captured : Option (List α)

namespace Way

def nothing (s : List α) : Way α := ⟨[], s, none⟩

def append (v w : Way α) : Way α := ⟨v.taken ++ w.taken, w.rest, w.captured.or v.captured⟩

def enclose (v : Way α) : Way α := ⟨v.taken, v.rest, some v.taken⟩

end Way

def chain (ways : List (Way α)) (next : List α → List (Way α)) : List (Way α) :=
  ways.flatMap fun v => (next v.rest).map v.append

def upTo (step : List α → List (Way α)) : ℕ → List α → List (Way α)
  | 0, s => [.nothing s]
  | n + 1, s => chain (step s) (upTo step n) ++ [.nothing s]

def atLeast (step : List α → List (Way α)) (more : ℕ) : ℕ → List α → List (Way α)
  | 0, s => upTo step more s
  | n + 1, s => chain (step s) (atLeast step more n)

def takeOne (accepts : α → Bool) : List α → List (Way α)
  | [] => []
  | c :: s => if accepts c then [⟨[c], s, none⟩] else []

def ways : RegExp α → List α → List (Way α)
  | .empty, s => [.nothing s]
  | .one accepts, s => takeOne accepts s
  | .seq first second, s => chain (first.ways s) second.ways
  | .times least more body, s => atLeast body.ways more least s
  | .group body, s => (body.ways s).map Way.enclose

def find (r : RegExp α) : List α → Option (Way α)
  | [] => (r.ways []).head?
  | c :: s => (r.ways (c :: s)).head?.or (r.find s)

/-- The text captured by the first match; a group that took no part captured the empty text. -/
def findSubmatch (r : RegExp α) (s : List α) : Option (List α) :=
  (r.find s).map fun w => w.captured.getD []

def lit [DecidableEq α] : List α → RegExp α
  | [] => .empty
  | c :: s => .seq (.one fun d => d = c) (lit s)

def Power (P : List α → Option (List α) → Prop) : ℕ → List α → Option (List α) → Prop
  | 0, t, g => t = [] ∧ g = none
  | n + 1, t, g => ∃ t₁ g₁ t₂ g₂, P t₁ g₁ ∧ Power P n t₂ g₂ ∧ t = t₁ ++ t₂ ∧ g = g₂.or g₁

def Accepts : RegExp α → List α → Option (List α) → Prop
  | .empty, t, g => t = [] ∧ g = none
  | .one accepts, t, g => ∃ c, accepts c = true ∧ t = [c] ∧ g = none
  | .seq first second, t, g => ∃ t₁ g₁ t₂ g₂,
      first.Accepts t₁ g₁ ∧ second.Accepts t₂ g₂ ∧ t = t₁ ++ t₂ ∧ g = g₂.or g₁
  | .times least more body, t, g => ∃ n, least ≤ n ∧ n ≤ least + more ∧ Power body.Accepts n t g
  | .group body, t, g => (∃ g', body.Accepts t g') ∧ g = some t

def Lists (ways : List α → List (Way α)) (P : List α → Option (List α) → Prop) : Prop :=
  ∀ s w, w ∈ ways s ↔ s = w.taken ++ w.rest ∧ P w.taken w.captured

theorem mem_chain {vs : List (Way α)} {next : List α → List (Way α)} {w : Way α} :
    w ∈ chain vs next ↔ ∃ v ∈ vs, ∃ u ∈ next v.rest, v.append u = w := by
  simp [chain]

theorem mem_nothing {s : List α} {w : Way α} :
    w = .nothing s ↔ s = w.taken ++ w.rest ∧ w.taken = [] ∧ w.captured = none := by
  constructor
  · rintro rfl
    exact ⟨rfl, rfl, rfl⟩
  · rintro ⟨hs, ht, hg⟩
    cases w
    simp_all [Way.nothing]

theorem Lists.chain {first second : List α → List (Way α)}
    {P Q : List α → Option (List α) → Prop} (hp : Lists first P) (hq : Lists second Q) :
    Lists (fun s => chain (first s) second) fun t g => ∃ t₁ g₁ t₂ g₂,
      P t₁ g₁ ∧ Q t₂ g₂ ∧ t = t₁ ++ t₂ ∧ g = g₂.or g₁ := by
  intro s w
  rw [mem_chain]
  constructor
  · rintro ⟨v, hv, u, hu, rfl⟩
    obtain ⟨hs, hP⟩ := (hp s v).mp hv
    obtain ⟨hrest, hQ⟩ := (hq v.rest u).mp hu
    refine ⟨?_, v.taken, v.captured, u.taken, u.captured, hP, hQ, rfl, rfl⟩
    rw [hs, hrest]
    simp [Way.append]
  · rintro ⟨hs, t₁, g₁, t₂, g₂, hP, hQ, ht, hg⟩
    rw [ht, List.append_assoc] at hs
    refine ⟨⟨t₁, t₂ ++ w.rest, g₁⟩, (hp s _).mpr ⟨hs, hP⟩, ⟨t₂, w.rest, g₂⟩,
      (hq _ _).mpr ⟨rfl, hQ⟩, ?_⟩
    cases w
    simp only [Way.append, Way.mk.injEq, true_and]
    exact ⟨ht.symm, hg.symm⟩

theorem Lists.upTo {step : List α → List (Way α)} {P : List α → Option (List α) → Prop}
    (h : Lists step P) (more : ℕ) :
    Lists (upTo step more) fun t g => ∃ n ≤ more, Power P n t g := by
  induction more with
  | zero =>
    intro s w
    simp only [RegExp.upTo, List.mem_singleton, mem_nothing, Nat.le_zero_eq, exists_eq_left, Power]
  | succ more ih =>
    intro s w
    rw [RegExp.upTo, List.mem_append, (h.chain ih) s w, List.mem_singleton, mem_nothing]
    constructor
    · rintro (⟨hs, t₁, g₁, t₂, g₂, hP, ⟨n, hn, hpow⟩, ht, hg⟩ | ⟨hs, ht, hg⟩)
      · exact ⟨hs, n + 1, by omega, t₁, g₁, t₂, g₂, hP, hpow, ht, hg⟩
      · exact ⟨hs, 0, by omega, ht, hg⟩
    · rintro ⟨hs, n, hn, hpow⟩
      cases n with
      | zero => exact Or.inr ⟨hs, hpow⟩
      | succ n =>
        obtain ⟨t₁, g₁, t₂, g₂, hP, hpow, ht, hg⟩ := hpow
        exact Or.inl ⟨hs, t₁, g₁, t₂, g₂, hP, ⟨n, by omega, hpow⟩, ht, hg⟩

theorem Lists.atLeast {step : List α → List (Way α)} {P : List α → Option (List α) → Prop}
    (h : Lists step P) (more least : ℕ) :
    Lists (atLeast step more least) fun t g => ∃ n, least ≤ n ∧ n ≤ least + more ∧
      Power P n t g := by
  induction least with
  | zero => simpa [RegExp.atLeast] using h.upTo more
  | succ least ih =>
    intro s w
    rw [RegExp.atLeast, (h.chain ih) s w]
    constructor
    · rintro ⟨hs, t₁, g₁, t₂, g₂, hP, ⟨n, hle, hge, hpow⟩, ht, hg⟩
      exact ⟨hs, n + 1, by omega, by omega, t₁, g₁, t₂, g₂, hP, hpow, ht, hg⟩
    · rintro ⟨hs, n, hle, hge, hpow⟩
      cases n with
      | zero => omega
      | succ n =>
        obtain ⟨t₁, g₁, t₂, g₂, hP, hpow, ht, hg⟩ := hpow
        exact ⟨hs, t₁, g₁, t₂, g₂, hP, ⟨n, by omega, by omega, hpow⟩, ht, hg⟩

theorem mem_takeOne (accepts : α → Bool) :
    Lists (takeOne accepts) fun t g => ∃ c, accepts c = true ∧ t = [c] ∧ g = none := by
  intro s w
  cases s with
  | nil =>
    simp only [takeOne, List.not_mem_nil, false_iff]
    rintro ⟨hs, c, -, ht, -⟩
    rw [ht] at hs
    cases hs
  | cons c s =>
    rw [takeOne]
    split_ifs with hc
    · rw [List.mem_singleton]
      constructor
      · rintro rfl
        exact ⟨rfl, c, hc, rfl, rfl⟩
      · rintro ⟨hs, d, hd, ht, hg⟩
        cases w
        simp_all
    · simp only [List.not_mem_nil, false_iff]
      rintro ⟨hs, d, hd, ht, -⟩
      rw [ht] at hs
      cases hs
      exact hc hd

theorem mem_ways (r : RegExp α) : Lists r.ways r.Accepts := by
  induction r with
  | empty =>
    intro s w
    rw [ways, List.mem_singleton, mem_nothing]
    rfl
  | one accepts => exact mem_takeOne accepts
  | seq first second hfirst hsecond => exact hfirst.chain hsecond
  | times least more body hbody => exact hbody.atLeast more least
  | group body hbody =>
    intro s w
    simp only [ways, List.mem_map]
    constructor
    · rintro ⟨v, hv, rfl⟩
      obtain ⟨hs, hacc⟩ := (hbody s v).mp hv
      exact ⟨hs, ⟨_, hacc⟩, rfl⟩
    · rintro ⟨hs, ⟨g, hacc⟩, hg⟩
      refine ⟨⟨w.taken, w.rest, g⟩, (hbody s _).mpr ⟨hs, hacc⟩, ?_⟩
      cases w
      simp only [Way.enclose, Way.mk.injEq, true_and]
      exact hg.symm

theorem head?_chain (vs : List (Way α)) (next : List α → List (Way α)) :
    (chain vs next).head? = vs.findSome? fun v => (next v.rest).head?.map v.append := by
  simp [chain, List.head?_flatMap]

def Longest (r : RegExp α) : Prop :=
  ∀ s w, (r.ways s).head? = some w → ∀ w' ∈ r.ways s, w'.taken.length ≤ w.taken.length

/-- All ways that can be continued by `second` take the same. -/
def ForcedBy (r second : RegExp α) : Prop :=
  ∀ s, ∀ v ∈ r.ways s, ∀ w ∈ r.ways s, second.ways v.rest ≠ [] → second.ways w.rest ≠ [] →
    v.taken = w.taken

theorem rest_eq_of_taken {r : RegExp α} {s : List α} {v w : Way α} (hv : v ∈ r.ways s)
    (hw : w ∈ r.ways s) (h : v.taken = w.taken) : v.rest = w.rest := by
  have hsv := ((mem_ways r s v).mp hv).1
  have hsw := ((mem_ways r s w).mp hw).1
  rw [hsv, h] at hsw
  exact List.append_cancel_left hsw

theorem Longest.seq {r q : RegExp α} (hr : r.ForcedBy q) (hq : q.Longest) : (seq r q).Longest := by
  intro s w hw w' hw'
  simp only [ways, head?_chain] at hw
  obtain ⟨v, hv, hhead⟩ := List.exists_of_findSome?_eq_some hw
  obtain ⟨u, hu, rfl⟩ := Option.map_eq_some_iff.mp hhead
  obtain ⟨v', hv', u', hu', rfl⟩ := mem_chain.mp hw'
  have htaken : v'.taken = v.taken := hr s v' hv' v hv (List.ne_nil_of_mem hu')
    (List.ne_nil_of_mem (List.mem_of_head? hu))
  rw [rest_eq_of_taken hv' hv htaken] at hu'
  have hle := hq _ u hu u' hu'
  simp only [Way.append, List.length_append, htaken]
  omega

theorem Longest.group {r : RegExp α} (hr : r.Longest) : (group r).Longest := by
  intro s w hw w' hw'
  simp only [ways, List.head?_map] at hw
  obtain ⟨v, hv, rfl⟩ := Option.map_eq_some_iff.mp hw
  obtain ⟨v', hv', rfl⟩ := List.mem_map.mp hw'
  exact hr s v hv v' hv'

def Deterministic (r : RegExp α) : Prop :=
  ∀ s, ∀ v ∈ r.ways s, ∀ w ∈ r.ways s, v.taken = w.taken

theorem Deterministic.forcedBy {r : RegExp α} (h : r.Deterministic) (q : RegExp α) : r.ForcedBy q :=
  fun s v hv w hw _ _ => h s v hv w hw

theorem Deterministic.seq {r q : RegExp α} (hr : r.ForcedBy q) (hq : q.Deterministic) :
    (seq r q).Deterministic := by
  intro s w hw w' hw'
  obtain ⟨v, hv, u, hu, rfl⟩ := mem_chain.mp hw
  obtain ⟨v', hv', u', hu', rfl⟩ := mem_chain.mp hw'
  have htaken := hr s v hv v' hv' (List.ne_nil_of_mem hu) (List.ne_nil_of_mem hu')
  rw [← rest_eq_of_taken hv hv' htaken] at hu'
  simp only [Way.append]
  rw [htaken, hq _ u hu u' hu']

theorem Deterministic.one (accepts : α → Bool) : (one accepts).Deterministic := by
  intro s v hv w hw
  obtain ⟨hs, c, -, ht, -⟩ := (mem_takeOne accepts s v).mp hv
  obtain ⟨hs', c', -, ht', -⟩ := (mem_takeOne accepts s w).mp hw
  rw [ht] at hs ⊢
  rw [ht'] at hs' ⊢
  rw [hs] at hs'
  simp only [List.cons_append, List.nil_append, List.cons.injEq] at hs'
  rw [hs'.1]

theorem Deterministic.lit [DecidableEq α] (text : List α) : (lit text).Deterministic := by
  induction text with
  | nil =>
    intro s v hv w hw
    rw [((mem_ways .empty s v).mp hv).2.1, ((mem_ways .empty s w).mp hw).2.1]
  | cons c text ih => exact .seq ((Deterministic.one _).forcedBy _) ih

theorem Deterministic.power {r : RegExp α} (h : r.Deterministic) {n : ℕ} {t u rest rest' : List α}
    {g k : Option (List α)} (hs : t ++ rest = u ++ rest') (ht : Power r.Accepts n t g)
    (hu : Power r.Accepts n u k) : t = u := by
  induction n generalizing t u g k with
  | zero => rw [ht.1, hu.1]
  | succ n ih =>
    obtain ⟨t₁, g₁, t₂, g₂, hP, hpow, rfl, -⟩ := ht
    obtain ⟨u₁, k₁, u₂, k₂, hP', hpow', rfl, -⟩ := hu
    rw [List.append_assoc, List.append_assoc] at hs
    obtain rfl : t₁ = u₁ := h _ ⟨t₁, t₂ ++ rest, g₁⟩ ((mem_ways r _ _).mpr ⟨rfl, hP⟩)
      ⟨u₁, u₂ ++ rest', k₁⟩ ((mem_ways r _ _).mpr ⟨hs, hP'⟩)
    rw [ih (List.append_cancel_left hs) hpow hpow']

theorem Deterministic.exactly {r : RegExp α} (h : r.Deterministic) (n : ℕ) :
    (times n 0 r).Deterministic := by
  intro s v hv w hw
  obtain ⟨hs, m, hle, hge, hpow⟩ := (mem_ways _ s v).mp hv
  obtain ⟨hs', m', hle', hge', hpow'⟩ := (mem_ways _ s w).mp hw
  obtain rfl : m = n := by omega
  obtain rfl : m' = m := by omega
  exact h.power (hs.symm.trans hs') hpow hpow'

def StartsWith (r : RegExp α) (c : α) : Prop := ∀ s, r.ways s ≠ [] → ∃ rest, s = c :: rest

theorem StartsWith.seq {r : RegExp α} {c : α} (h : r.StartsWith c) (q : RegExp α) :
    (seq r q).StartsWith c := by
  intro s hne
  obtain ⟨w, hw⟩ := List.exists_mem_of_ne_nil _ hne
  obtain ⟨v, hv, -⟩ := mem_chain.mp hw
  exact h s (List.ne_nil_of_mem hv)

theorem StartsWith.lit [DecidableEq α] (c : α) (text : List α) :
    (lit (c :: text)).StartsWith c := by
  apply StartsWith.seq
  intro s hne
  obtain ⟨w, hw⟩ := List.exists_mem_of_ne_nil _ hne
  obtain ⟨hs, d, hd, ht, -⟩ := (mem_takeOne _ s w).mp hw
  obtain rfl := of_decide_eq_true hd
  rw [ht] at hs
  exact ⟨w.rest, hs⟩

section Runs

variable {p : α → Bool}

theorem power_one {n : ℕ} {t : List α} {g : Option (List α)} :
    Power (one p).Accepts n t g ↔ (t.length = n ∧ ∀ c ∈ t, p c = true) ∧ g = none := by
  induction n generalizing t g with
  | zero =>
    simp only [Power, List.length_eq_zero_iff]
    constructor
    · rintro ⟨rfl, rfl⟩
      simp
    · exact fun h => ⟨h.1.1, h.2⟩
  | succ n ih =>
    simp only [Power, ih]
    constructor
    · rintro ⟨_, _, t₂, _, ⟨c, hc, rfl, rfl⟩, ⟨⟨hlen, hall⟩, rfl⟩, rfl, rfl⟩
      simpa [hlen, hc] using hall
    · rintro ⟨⟨hlen, hall⟩, rfl⟩
      cases t with
      | nil => simp at hlen
      | cons c t =>
        have hall' := List.forall_mem_cons.mp hall
        exact ⟨[c], none, t, none, ⟨c, hall'.1, rfl, rfl⟩,
          ⟨⟨by simpa using hlen, hall'.2⟩, rfl⟩, rfl, rfl⟩

theorem accepts_run {least more : ℕ} {t : List α} {g : Option (List α)} :
    (times least more (one p)).Accepts t g ↔
      (least ≤ t.length ∧ t.length ≤ least + more ∧ ∀ c ∈ t, p c = true) ∧ g = none := by
  rw [Accepts]
  constructor
  · rintro ⟨n, hle, hge, hpow⟩
    obtain ⟨⟨rfl, hall⟩, hg⟩ := power_one.mp hpow
    exact ⟨⟨hle, hge, hall⟩, hg⟩
  · rintro ⟨⟨hle, hge, hall⟩, hg⟩
    exact ⟨t.length, hle, hge, power_one.mpr ⟨⟨rfl, hall⟩, hg⟩⟩

theorem head?_upTo_one (n : ℕ) (s : List α) :
    ∃ w, (upTo (takeOne p) n s).head? = some w ∧ w.taken = (s.takeWhile p).take n := by
  induction n generalizing s with
  | zero => exact ⟨.nothing s, rfl, by simp [Way.nothing]⟩
  | succ n ih =>
    cases s with
    | nil => exact ⟨.nothing [], rfl, rfl⟩
    | cons c s =>
      by_cases hc : p c = true
      · obtain ⟨w, hw, htaken⟩ := ih s
        refine ⟨Way.append ⟨[c], s, none⟩ w, ?_, by simp [Way.append, hc, htaken]⟩
        simp [upTo, takeOne, hc, head?_chain, hw]
      · exact ⟨.nothing (c :: s), by simp [upTo, takeOne, hc, chain],
          by simp [Way.nothing, hc]⟩

theorem head?_atLeast_one {more least : ℕ} {s : List α} {w : Way α}
    (h : (atLeast (takeOne p) more least s).head? = some w) :
    w.taken = (s.takeWhile p).take (least + more) := by
  induction least generalizing s w with
  | zero =>
    obtain ⟨v, hv, htaken⟩ := head?_upTo_one (p := p) more s
    rw [atLeast, hv] at h
    cases h
    rw [htaken, Nat.zero_add]
  | succ least ih =>
    rw [atLeast, head?_chain] at h
    obtain ⟨v, hv, hhead⟩ := List.exists_of_findSome?_eq_some h
    obtain ⟨u, hu, rfl⟩ := Option.map_eq_some_iff.mp hhead
    obtain ⟨hs, c, hc, ht, -⟩ := (mem_takeOne p s v).mp hv
    rw [hs, Way.append, ih hu, ht, Nat.succ_add]
    simp [hc]

theorem prefix_takeWhile {t s : List α} (hs : t <+: s) (ht : ∀ c ∈ t, p c = true) :
    t <+: s.takeWhile p := by
  obtain ⟨u, rfl⟩ := hs
  rw [List.takeWhile_append_of_pos ht]
  exact List.prefix_append _ _

theorem Longest.run (least more : ℕ) : (times least more (one p)).Longest := by
  intro s w hw w' hw'
  have htaken := head?_atLeast_one hw
  obtain ⟨hs, hacc⟩ := (mem_ways _ s w').mp hw'
  obtain ⟨⟨-, hle, hall⟩, -⟩ := accepts_run.mp hacc
  have hprefix := prefix_takeWhile ⟨w'.rest, hs.symm⟩ hall
  rw [htaken, List.length_take]
  have hlen := hprefix.length_le
  omega

theorem takeWhile_of_run {t rest : List α} {c : α} (ht : ∀ d ∈ t, p d = true) (hc : p c = false) :
    (t ++ c :: rest).takeWhile p = t := by
  rw [List.takeWhile_append_of_pos ht, List.takeWhile_cons, hc]
  simp

theorem forcedBy_delimiter {q : RegExp α} {c : α} (hq : q.StartsWith c) (hc : p c = false)
    (least more : ℕ) : (times least more (one p)).ForcedBy q := by
  intro s v hv w hw hvq hwq
  obtain ⟨hsv, haccv⟩ := (mem_ways _ s v).mp hv
  obtain ⟨hsw, haccw⟩ := (mem_ways _ s w).mp hw
  obtain ⟨⟨-, -, hallv⟩, -⟩ := accepts_run.mp haccv
  obtain ⟨⟨-, -, hallw⟩, -⟩ := accepts_run.mp haccw
  obtain ⟨restv, hrv⟩ := hq _ hvq
  obtain ⟨restw, hrw⟩ := hq _ hwq
  have htakev : (v.taken ++ c :: restv).takeWhile p = v.taken := takeWhile_of_run hallv hc
  have htakew : (w.taken ++ c :: restw).takeWhile p = w.taken := takeWhile_of_run hallw hc
  rw [← htakev, ← htakew, ← hrv, ← hrw, ← hsv, ← hsw]

end Runs

theorem accepts_lit [DecidableEq α] {text t : List α} {g : Option (List α)} :
    (lit text).Accepts t g ↔ t = text ∧ g = none := by
  induction text generalizing t g with
  | nil => rfl
  | cons c text ih =>
    simp only [lit, Accepts, ih, decide_eq_true_eq]
    constructor
    · rintro ⟨_, _, _, _, ⟨d, rfl, rfl, rfl⟩, ⟨rfl, rfl⟩, rfl, rfl⟩
      exact ⟨rfl, rfl⟩
    · rintro ⟨rfl, rfl⟩
      exact ⟨[c], none, text, none, ⟨c, rfl, rfl, rfl⟩, ⟨rfl, rfl⟩, rfl, rfl⟩

/-- The first place of the input with a text of a form, and the longest such text there. -/
structure FoundAt (form : List α → Prop) (s before t after : List α) : Prop where
  place : s = before ++ (t ++ after)
  taken : form t
  longest : ∀ t', form t' → t' <+: t ++ after → t'.length ≤ t.length
  first : ∀ before' t' after', s = before' ++ (t' ++ after') → form t' →
    before.length ≤ before'.length

def FirstLongest (form : List α → Prop) (s t : List α) : Prop :=
  ∃ before after, FoundAt form s before t after

theorem FirstLongest.unique {form : List α → Prop} {s t t' : List α} (h : FirstLongest form s t)
    (h' : FirstLongest form s t') : t = t' := by
  obtain ⟨before, after, hs, hform, hlong, hfirst⟩ := h
  obtain ⟨before', after', hs', hform', hlong', hfirst'⟩ := h'
  have hle := hfirst _ _ _ hs' hform'
  have hge := hfirst' _ _ _ hs hform
  obtain ⟨-, heq⟩ := List.append_inj (hs.symm.trans hs') (by omega)
  have htle := hlong' t hform ⟨after, heq⟩
  have htge := hlong t' hform' ⟨after', heq.symm⟩
  exact (List.append_inj heq (by omega)).1

theorem find_eq_some {r : RegExp α} {s : List α} {w : Way α} (h : r.find s = some w) :
    ∃ before after, s = before ++ after ∧ (r.ways after).head? = some w ∧
      ∀ before' after', s = before' ++ after' → r.ways after' ≠ [] →
        before.length ≤ before'.length := by
  induction s with
  | nil => exact ⟨[], [], rfl, h, fun _ _ _ _ => Nat.zero_le _⟩
  | cons c s ih =>
    rw [find] at h
    by_cases hhere : r.ways (c :: s) = []
    · rw [hhere, List.head?_nil, Option.none_or] at h
      obtain ⟨before, after, rfl, hhead, hfirst⟩ := ih h
      refine ⟨c :: before, after, rfl, hhead, fun before' after' hs hne => ?_⟩
      cases before' with
      | nil =>
        obtain rfl : after' = c :: (before ++ after) := hs.symm
        exact absurd hhere hne
      | cons d before' =>
        simp only [List.cons_append, List.cons.injEq] at hs
        have hle := hfirst _ _ hs.2 hne
        simp only [List.length_cons]
        omega
    · obtain ⟨v, hv⟩ := Option.ne_none_iff_exists'.mp (List.head?_eq_none_iff.not.mpr hhere)
      rw [hv, Option.some_or] at h
      exact ⟨[], c :: s, rfl, hv.trans h, fun _ _ _ _ => Nat.zero_le _⟩

theorem find_ne_none {r : RegExp α} {s before after : List α} (hs : s = before ++ after)
    (h : r.ways after ≠ []) : r.find s ≠ none := by
  induction before generalizing s with
  | nil =>
    obtain rfl : s = after := hs
    have hhead := List.head?_eq_none_iff.not.mpr h
    cases s with
    | nil => exact hhead
    | cons c s =>
      rw [find, Ne, Option.or_eq_none_iff]
      exact fun hnone => hhead hnone.1
  | cons c before ih =>
    rw [hs, List.cons_append, find, Ne, Option.or_eq_none_iff]
    exact fun hnone => ih rfl hnone.2

section Keyed

variable [DecidableEq α] {key : List α} {r : RegExp α}

def Keyed (key : List α) (r : RegExp α) (t : List α) : Prop := ∃ u g, t = key ++ u ∧ r.Accepts u g

theorem accepts_keyed {t : List α} {g : Option (List α)} :
    (seq (lit key) (group r)).Accepts t g ↔
      ∃ u, t = key ++ u ∧ (∃ g, r.Accepts u g) ∧ g = some u := by
  simp only [Accepts, accepts_lit]
  constructor
  · rintro ⟨_, _, u, _, ⟨rfl, rfl⟩, ⟨hu, rfl⟩, rfl, rfl⟩
    exact ⟨u, rfl, hu, rfl⟩
  · rintro ⟨u, rfl, hu, rfl⟩
    exact ⟨key, none, u, some u, ⟨rfl, rfl⟩, ⟨hu, rfl⟩, rfl, rfl⟩

theorem Keyed.exists_way {s t : List α} (h : Keyed key r t) (hstart : t <+: s) :
    ∃ w ∈ (seq (lit key) (group r)).ways s, w.taken = t := by
  obtain ⟨u, g, ht, hu⟩ := h
  obtain ⟨after, hs⟩ := hstart
  refine ⟨⟨t, after, some u⟩, (mem_ways _ s _).mpr ⟨hs.symm, ?_⟩, rfl⟩
  exact accepts_keyed.mpr ⟨u, ht, ⟨g, hu⟩, rfl⟩

theorem firstLongest_of_find (hr : r.Longest) {s : List α} {w : Way α}
    (hw : (seq (lit key) (group r)).find s = some w) :
    ∃ u, w.captured = some u ∧ FirstLongest (Keyed key r) s (key ++ u) := by
  have hlongest : (seq (lit key) (group r)).Longest :=
    .seq ((Deterministic.lit key).forcedBy _) hr.group
  obtain ⟨before, after, hs, hhead, hfirst⟩ := find_eq_some hw
  obtain ⟨hafter, hacc⟩ := (mem_ways _ _ w).mp (List.mem_of_head? hhead)
  obtain ⟨u, htaken, ⟨g, hu⟩, hg⟩ := accepts_keyed.mp hacc
  rw [htaken] at hafter
  refine ⟨u, hg, before, w.rest, by rw [hs, hafter], ⟨u, g, rfl, hu⟩, ?_, ?_⟩
  · intro t' hform hprefix
    rw [← hafter] at hprefix
    obtain ⟨w', hw', rfl⟩ := hform.exists_way hprefix
    rw [← htaken]
    exact hlongest _ w hhead w' hw'
  · intro before' t' after' hs' hform
    obtain ⟨w', hw', -⟩ := hform.exists_way (List.prefix_append t' after')
    exact hfirst _ _ hs' (List.ne_nil_of_mem hw')

/-- The matcher finds the longest value at the first key that has one. -/
theorem findSubmatch_eq_some (hr : r.Longest) {s v : List α} :
    (seq (lit key) (group r)).findSubmatch s = some v ↔
      FirstLongest (Keyed key r) s (key ++ v) := by
  rw [findSubmatch, Option.map_eq_some_iff]
  constructor
  · rintro ⟨w, hw, rfl⟩
    obtain ⟨u, hcaptured, hfirst⟩ := firstLongest_of_find hr hw
    rw [hcaptured]
    exact hfirst
  · intro h
    obtain ⟨before, after, hs, hform, -⟩ := id h
    obtain ⟨w', hw', -⟩ := hform.exists_way (List.prefix_append _ after)
    obtain ⟨w, hw⟩ := Option.ne_none_iff_exists'.mp (find_ne_none hs (List.ne_nil_of_mem hw'))
    obtain ⟨u, hcaptured, hfirst⟩ := firstLongest_of_find hr hw
    refine ⟨w, hw, ?_⟩
    rw [hcaptured]
    exact List.append_cancel_left (hfirst.unique h)

end Keyed

end RegExp
end Silk
