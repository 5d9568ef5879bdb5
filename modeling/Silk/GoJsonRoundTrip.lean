import Silk.GoJsonDecoder

/-!
# Printed values are read back

A printed value inside an array or object is handed to it, whatever text stands
behind the value; so a printed object is read to its end. Each step of the
decoder depends on the bytes so far only, so a part of a printed object is never
read as a value.
-/

namespace Silk.GoJson

section

variable {limit : ℕ}

theorem run_append_value {s : State} {bs r : List UInt8} {v : Value}
    (h : run limit s bs = .value v r) (t : List UInt8) :
    run limit s (bs ++ t) = .value v (r ++ t) := by
  induction bs generalizing s with
  | nil => cases h
  | cons b bs ih =>
    rw [List.cons_append]
    simp only [run] at h ⊢
    cases hstep : step limit s b with
    | more s' =>
      rw [hstep] at h
      exact ih h
    | closed v' =>
      rw [hstep] at h
      cases h
      rfl
    | ended v' =>
      rw [hstep] at h
      cases h
      rfl
    | bad =>
      rw [hstep] at h
      cases h

theorem run_more {s s' : State} {b : UInt8} (h : step limit s b = .more s') (t : List UInt8) :
    run limit s (b :: t) = run limit s' t := by
  rw [run, h]

theorem run_congr {s s' : State} {b : UInt8} (h : step limit s b = step limit s' b)
    (t : List UInt8) : run limit s (b :: t) = run limit s' (b :: t) := by
  rw [run, run, h]

theorem step_mono {limit' : ℕ} (hl : limit ≤ limit') (s : State) (b : UInt8) :
    step limit s b = .bad ∨ step limit' s b = step limit s b := by
  have hopen : ∀ frames f mode, openFrame limit frames f mode = .bad ∨
      openFrame limit' frames f mode = openFrame limit frames f mode := by
    intro frames f mode
    rw [openFrame, openFrame]
    by_cases hlt : frames.length < limit
    · rw [if_pos hlt, if_pos (Nat.lt_of_lt_of_le hlt hl)]
      exact Or.inr rfl
    · exact Or.inl (if_neg hlt)
  have hbegin : ∀ frames, beginValue limit frames b = .bad ∨
      beginValue limit' frames b = beginValue limit frames b := by
    intro frames
    rw [beginValue, beginValue]
    split_ifs
    · exact Or.inr rfl
    · exact hopen _ _ _
    · exact hopen _ _ _
    all_goals exact Or.inr rfl
  obtain ⟨frames, mode⟩ := s
  cases mode with
  | value =>
    simp only [step]
    split_ifs
    · exact Or.inr rfl
    · exact hbegin frames
  | firstItem =>
    simp only [step]
    split_ifs
    · exact Or.inr rfl
    · exact Or.inr rfl
    · exact hbegin frames
  | _ => exact Or.inr rfl

theorem run_mono {limit' : ℕ} (hl : limit ≤ limit') {s : State} {bs r : List UInt8} {v : Value}
    (h : run limit s bs = .value v r) : run limit' s bs = .value v r := by
  induction bs generalizing s with
  | nil => cases h
  | cons b bs ih =>
    simp only [run] at h ⊢
    rcases step_mono hl s b with hbad | hstep
    · rw [hbad] at h
      cases h
    · rw [hstep]
      cases hs : step limit s b with
      | more s' =>
        rw [hs] at h
        exact ih h
      | closed v' =>
        rw [hs] at h
        exact h
      | ended v' =>
        rw [hs] at h
        exact h
      | bad =>
        rw [hs] at h
        cases h

theorem run_string {q q' : Quoted} {l out : List UInt8} (h : q.feed l = some (out, q'))
    (frames : List Frame) (isKey : Bool) (raw t : List UInt8) :
    run limit ⟨frames, .string isKey raw q⟩ (l ++ t) =
      run limit ⟨frames, .string isKey (raw ++ l) q'⟩ t := by
  induction l generalizing q raw out with
  | nil =>
    cases h
    rw [List.append_nil]
    rfl
  | cons b l ih =>
    obtain ⟨⟨o, q₁⟩, hstep, h⟩ := Option.bind_eq_some_iff.mp h
    obtain ⟨⟨s₁, q₂⟩, hfeed, h⟩ := Option.map_eq_some_iff.mp h
    cases h
    have hmore : step limit ⟨frames, .string isKey raw q⟩ b =
        .more ⟨frames, .string isKey (raw ++ [b]) q₁⟩ := by
      cases q with
      | plain high =>
        have hb : b ≠ quote := by
          rintro rfl
          simp [Quoted.step, quote, backslash] at hstep
        simp only [step, inString, if_neg hb, hstep, goOnString]
      | escaped high => simp only [step, inString, hstep, goOnString]
      | hex left value high => simp only [step, inString, hstep, goOnString]
    rw [List.cons_append, run_more hmore, ih hfeed, List.append_assoc]
    rfl

theorem run_escape (frames : List Frame) (isKey : Bool) (s : GoString) (t : List UInt8) :
    run limit ⟨frames, .string isKey [] (.plain none)⟩ (escape s ++ quote :: t) =
      run limit (endString isKey (sanitize s) frames) t := by
  rw [run_string (feed_escape s), List.nil_append]
  refine run_more ?_ t
  simp only [step, inString, if_pos, unquote_escape]

theorem run_key (f : Frame) (fs : List Frame) (k : GoString) (t : List UInt8) :
    run limit ⟨f :: fs, .key⟩ (printString k ++ 0x3a :: t) =
      run limit ⟨f.setKey (sanitize k) :: fs, .value⟩ t := by
  have hquote : step limit ⟨f :: fs, .key⟩ quote =
      .more ⟨f :: fs, .string true [] (.plain none)⟩ := rfl
  have hcolon : step limit ⟨f.setKey (sanitize k) :: fs, .colon⟩ 0x3a =
      .more ⟨f.setKey (sanitize k) :: fs, .value⟩ := rfl
  rw [printString, List.cons_append, List.append_assoc, run_more hquote]
  exact (run_escape _ _ _ _).trans (run_more hcolon t)

def Delimited : List UInt8 → Prop
  | [] => False
  | d :: _ => d = 0x2c ∨ d = 0x5d ∨ d = 0x7d

theorem NumberState.step_delimiter {d : UInt8} {t : List UInt8} (hd : Delimited (d :: t))
    (st : NumberState) : st.step d = none := by
  rcases hd with rfl | rfl | rfl <;> cases st <;> rfl

theorem run_number {frames : List Frame} {rest : List UInt8} (hrest : Delimited rest)
    {st st' : NumberState} {l : List UInt8} (hl : l.foldlM NumberState.step st = some st')
    (raw : List UInt8) (hraw : isNumber (raw ++ l) = true) :
    run limit ⟨frames, .number raw st⟩ (l ++ rest) =
      run limit (deliver (.number ⟨raw ++ l, hraw⟩) frames) rest := by
  induction l generalizing raw st with
  | nil =>
    simp only [List.append_nil] at hraw ⊢
    cases rest with
    | nil => exact False.elim hrest
    | cons d t =>
      refine run_congr ?_ t
      simp only [step, inNumber, st.step_delimiter hrest, dif_pos hraw]
      cases frames with
      | nil => rfl
      | cons f fs => rfl
  | cons b l ih =>
    rw [List.foldlM_cons] at hl
    obtain ⟨st₁, hst₁, hl⟩ := Option.bind_eq_some_iff.mp hl
    have hmore :
        step limit ⟨frames, .number raw st⟩ b = .more ⟨frames, .number (raw ++ [b]) st₁⟩ := by
      simp only [step, inNumber, hst₁]
    have hassoc : raw ++ b :: l = raw ++ [b] ++ l := by simp
    have hnumber : (⟨raw ++ b :: l, hraw⟩ : Number) = ⟨raw ++ [b] ++ l, hassoc ▸ hraw⟩ :=
      Subtype.ext hassoc
    rw [List.cons_append, run_more hmore, ih hl, hnumber]

def Delivers (limit : ℕ) (v : Value) (text : List UInt8) : Prop :=
  ∀ (f : Frame) (fs : List Frame) (rest : List UInt8), Delimited rest →
    (f :: fs).length + v.depth ≤ limit →
    run limit ⟨f :: fs, .value⟩ (text ++ rest) = run limit (deliver v.reread (f :: fs)) rest

theorem delivers_null : Delivers limit .null (ascii "null") := fun _ _ _ _ _ => rfl

theorem delivers_true : Delivers limit (.bool true) (ascii "true") := fun _ _ _ _ _ => rfl

theorem delivers_false : Delivers limit (.bool false) (ascii "false") := fun _ _ _ _ _ => rfl

theorem NumberState.ne_of_start {b c : UInt8} {st : NumberState} (h : start.step b = some st)
    (hc : start.step c = none) : b ≠ c := by
  rintro rfl
  rw [hc] at h
  cases h

theorem NumberState.not_space {b : UInt8} {st : NumberState} (h : start.step b = some st) :
    isSpace b = false := by
  have hne : ∀ c, start.step c = none → b ≠ c := fun c => ne_of_start h
  simp [isSpace, hne 0x20 rfl, hne 0x09 rfl, hne 0x0d rfl, hne 0x0a rfl]

theorem beginValue_number {b : UInt8} {st : NumberState} (h : NumberState.start.step b = some st)
    (frames : List Frame) :
    step limit ⟨frames, .value⟩ b = .more ⟨frames, .number [b] st⟩ := by
  have hne : ∀ c, NumberState.start.step c = none → b ≠ c := fun c => NumberState.ne_of_start h
  simp only [step, NumberState.not_space h, beginValue, h, if_neg (hne quote rfl),
    if_neg (hne 0x7b rfl), if_neg (hne 0x5b rfl), if_neg (hne 0x74 rfl), if_neg (hne 0x66 rfl),
    if_neg (hne 0x6e rfl), Bool.false_eq_true, if_false]

theorem Number.head (n : Number) : ∃ b l st st', n.1 = b :: l ∧
    NumberState.start.step b = some st ∧ l.foldlM NumberState.step st = some st' := by
  obtain ⟨lit, hlit⟩ := n
  obtain ⟨st', hfold, -⟩ := (Option.any_eq_true _ _).mp hlit
  cases lit with
  | nil => cases hlit
  | cons b l =>
    rw [List.foldlM_cons] at hfold
    obtain ⟨st, hst, hfold⟩ := Option.bind_eq_some_iff.mp hfold
    exact ⟨b, l, st, st', rfl, hst, hfold⟩

theorem delivers_number (n : Number) : Delivers limit (.number n) n.1 := by
  intro f fs rest hrest _
  obtain ⟨b, l, st, st', hlit, hst, hfold⟩ := n.head
  obtain ⟨lit, hnumber⟩ := n
  cases hlit
  rw [List.cons_append, run_more (beginValue_number hst _)]
  exact run_number hrest hfold [b] hnumber

theorem delivers_string (s : GoString) : Delivers limit (.string s) (printString s) := by
  intro f fs rest _ _
  have hquote : step limit ⟨f :: fs, .value⟩ quote =
      .more ⟨f :: fs, .string false [] (.plain none)⟩ := rfl
  rw [printString, List.cons_append, List.append_assoc, run_more hquote]
  exact run_escape _ _ _ _

theorem ok_of_bind {ε α β : Type} {x : Except ε α} {f : α → Except ε β} {b : β}
    (h : x >>= f = .ok b) : ∃ a, x = .ok a ∧ f a = .ok b := by
  cases x with
  | error e => cases h
  | ok a => exact ⟨a, rfl, h⟩

theorem print_head {v : Value} {text : List UInt8} (h : v.print = .ok text) :
    ∃ b l, text = b :: l ∧ isSpace b = false ∧ b ≠ 0x5d := by
  unfold Value.print at h
  split at h
  · cases h
    exact ⟨_, _, rfl, by decide⟩
  · cases h
    exact ⟨_, _, rfl, by decide⟩
  · cases h
    exact ⟨_, _, rfl, by decide⟩
  · rename_i n
    cases h
    obtain ⟨b, l, st, -, hlit, hst, -⟩ := n.head
    exact ⟨b, l, hlit, NumberState.not_space hst, NumberState.ne_of_start hst rfl⟩
  · cases h
    exact ⟨_, _, rfl, by decide⟩
  · cases h
    exact ⟨_, _, rfl, by decide⟩
  · obtain ⟨head, -, h⟩ := ok_of_bind h
    obtain ⟨tail, -, h⟩ := ok_of_bind h
    cases h
    exact ⟨_, _, rfl, by decide⟩
  · cases h
    exact ⟨_, _, rfl, by decide⟩
  · obtain ⟨head, -, h⟩ := ok_of_bind h
    obtain ⟨tail, -, h⟩ := ok_of_bind h
    cases h
    exact ⟨_, _, rfl, by decide⟩
  · cases h

theorem run_firstItem {v : Value} {text : List UInt8} (h : v.print = .ok text) (frames : List Frame)
    (t : List UInt8) :
    run limit ⟨frames, .firstItem⟩ (text ++ t) = run limit ⟨frames, .value⟩ (text ++ t) := by
  obtain ⟨b, l, rfl, hspace, hb⟩ := print_head h
  refine run_congr ?_ _
  simp only [step, hspace, if_neg hb, Bool.false_eq_true, if_false]

theorem delimited_printItems {items : List Value} {text rest : List UInt8}
    (h : printItems items = .ok text) (hrest : Delimited rest) : Delimited (text ++ rest) := by
  cases items with
  | nil =>
    cases h
    exact hrest
  | cons v items =>
    obtain ⟨head, -, h⟩ := ok_of_bind h
    obtain ⟨tail, -, h⟩ := ok_of_bind h
    cases h
    exact Or.inl rfl

theorem delimited_printMembers {members : List (GoString × Value)} {text rest : List UInt8}
    (h : printMembers members = .ok text) (hrest : Delimited rest) : Delimited (text ++ rest) := by
  cases members with
  | nil =>
    cases h
    exact hrest
  | cons m members =>
    obtain ⟨head, -, h⟩ := ok_of_bind h
    obtain ⟨tail, -, h⟩ := ok_of_bind h
    cases h
    exact Or.inl rfl

theorem run_printItems {items : List Value}
    (hitems : ∀ v ∈ items, ∀ text, v.print = .ok text → Delivers limit v text) {text : List UInt8}
    (h : printItems items = .ok text) (done : List Value) (fs : List Frame) {rest : List UInt8}
    (hrest : Delimited rest) (hdepth : fs.length + 1 + depthItems items ≤ limit) :
    run limit ⟨.array done :: fs, .next⟩ (text ++ rest) =
      run limit ⟨.array (done ++ rereadItems items) :: fs, .next⟩ rest := by
  induction items generalizing text done with
  | nil =>
    cases h
    rw [rereadItems, List.append_nil]
    rfl
  | cons v items ih =>
    obtain ⟨head, hhead, h⟩ := ok_of_bind h
    obtain ⟨tail, htail, h⟩ := ok_of_bind h
    cases h
    obtain ⟨hv, hitems⟩ := List.forall_mem_cons.mp hitems
    rw [depthItems] at hdepth
    have hcomma : step limit ⟨.array done :: fs, .next⟩ 0x2c = .more ⟨.array done :: fs, .value⟩ :=
      rfl
    have hhead := hv head hhead (.array done) fs (tail ++ rest) (delimited_printItems htail hrest)
      (show fs.length + 1 + v.depth ≤ limit by omega)
    have htail := ih hitems htail (done ++ [v.reread]) (by omega)
    rw [List.append_assoc] at htail
    rw [List.cons_append, run_more hcomma, List.append_assoc, hhead]
    exact htail

theorem run_printMembers {members : List (GoString × Value)}
    (hmembers : ∀ m ∈ members, ∀ text, m.2.print = .ok text → Delivers limit m.2 text)
    {text : List UInt8} (h : printMembers members = .ok text) (done : List (GoString × Value))
    (fs : List Frame) {rest : List UInt8} (hrest : Delimited rest)
    (hdepth : fs.length + 1 + depthMembers members ≤ limit) :
    run limit ⟨.object done none :: fs, .next⟩ (text ++ rest) =
      run limit ⟨.object (done ++ rereadMembers members) none :: fs, .next⟩ rest := by
  induction members generalizing text done with
  | nil =>
    cases h
    rw [rereadMembers, List.append_nil]
    rfl
  | cons m members ih =>
    obtain ⟨k, v⟩ := m
    obtain ⟨head, hhead, h⟩ := ok_of_bind h
    obtain ⟨tail, htail, h⟩ := ok_of_bind h
    cases h
    obtain ⟨hv, hmembers⟩ := List.forall_mem_cons.mp hmembers
    rw [depthMembers] at hdepth
    have hcomma : step limit ⟨.object done none :: fs, .next⟩ 0x2c =
        .more ⟨.object done none :: fs, .key⟩ := rfl
    have hhead := hv head hhead (.object done (some (sanitize k))) fs (tail ++ rest)
      (delimited_printMembers htail hrest) (show fs.length + 1 + v.depth ≤ limit by omega)
    have htail := ih hmembers htail (done ++ [(sanitize k, v.reread)]) (by omega)
    rw [List.append_assoc] at htail
    rw [List.cons_append, run_more hcomma, List.append_assoc, List.append_assoc, List.cons_append,
      run_key]
    exact hhead.trans htail

theorem run_array {items : List Value}
    (hitems : ∀ v ∈ items, ∀ text, v.print = .ok text → Delivers limit v text) {text : List UInt8}
    (h : (Value.array items).print = .ok text) (frames : List Frame) (rest : List UInt8)
    (hdepth : frames.length + (Value.array items).depth ≤ limit) :
    run limit ⟨frames, .value⟩ (text ++ rest) =
      run limit ⟨.array (rereadItems items) :: frames, .next⟩ (0x5d :: rest) := by
  rw [Value.depth] at hdepth
  have hopen : step limit ⟨frames, .value⟩ 0x5b = .more ⟨.array [] :: frames, .firstItem⟩ :=
    if_pos (show frames.length < limit by omega)
  cases items with
  | nil =>
    cases h
    rw [List.cons_append, run_more hopen]
    exact run_congr rfl rest
  | cons v items =>
    obtain ⟨head, hhead, h⟩ := ok_of_bind h
    obtain ⟨tail, htail, h⟩ := ok_of_bind h
    cases h
    obtain ⟨hv, hitems⟩ := List.forall_mem_cons.mp hitems
    rw [depthItems] at hdepth
    have hclose : Delimited (0x5d :: rest) := Or.inr (Or.inl rfl)
    have hfirst := hv head hhead (.array []) frames (tail ++ 0x5d :: rest)
      (delimited_printItems htail hclose) (show frames.length + 1 + v.depth ≤ limit by omega)
    have hothers := run_printItems hitems htail [v.reread] frames hclose (by omega)
    rw [List.cons_append, run_more hopen, List.append_assoc, List.append_assoc,
      run_firstItem hhead]
    exact hfirst.trans hothers

theorem run_object {members : List (GoString × Value)}
    (hmembers : ∀ m ∈ members, ∀ text, m.2.print = .ok text → Delivers limit m.2 text)
    {text : List UInt8} (h : (Value.object members).print = .ok text) (frames : List Frame)
    (rest : List UInt8) (hdepth : frames.length + (Value.object members).depth ≤ limit) :
    run limit ⟨frames, .value⟩ (text ++ rest) =
      run limit ⟨.object (rereadMembers members) none :: frames, .next⟩ (0x7d :: rest) := by
  rw [Value.depth] at hdepth
  have hopen : step limit ⟨frames, .value⟩ 0x7b = .more ⟨.object [] none :: frames, .firstKey⟩ :=
    if_pos (show frames.length < limit by omega)
  cases members with
  | nil =>
    cases h
    rw [List.cons_append, run_more hopen]
    exact run_congr rfl rest
  | cons m members =>
    obtain ⟨k, v⟩ := m
    obtain ⟨head, hhead, h⟩ := ok_of_bind h
    obtain ⟨tail, htail, h⟩ := ok_of_bind h
    cases h
    obtain ⟨hv, hmembers⟩ := List.forall_mem_cons.mp hmembers
    rw [depthMembers] at hdepth
    have hclose : Delimited (0x7d :: rest) := Or.inr (Or.inr rfl)
    have hkey : step limit ⟨.object [] none :: frames, .firstKey⟩ quote =
        step limit ⟨.object [] none :: frames, .key⟩ quote := rfl
    have hfirst := hv head hhead (.object [] (some (sanitize k))) frames (tail ++ 0x7d :: rest)
      (delimited_printMembers htail hclose) (show frames.length + 1 + v.depth ≤ limit by omega)
    have hothers := run_printMembers hmembers htail [(sanitize k, v.reread)] frames hclose
      (by omega)
    rw [List.cons_append, run_more hopen, List.append_assoc, List.append_assoc, List.append_assoc,
      printString, List.cons_append, run_congr hkey, ← List.cons_append]
    exact ((run_key _ _ _ _).trans hfirst).trans hothers

theorem delivers_print (v : Value) {text : List UInt8} (h : v.print = .ok text) :
    Delivers limit v text := by
  induction v using Value.induction generalizing text with
  | null =>
    cases h
    exact delivers_null
  | bool b =>
    cases b with
    | false =>
      cases h
      exact delivers_false
    | true =>
      cases h
      exact delivers_true
  | number n =>
    cases h
    exact delivers_number n
  | string s =>
    cases h
    exact delivers_string s
  | array items ih =>
    intro f fs rest _ hdepth
    rw [run_array (fun v hv text => ih v hv) h (f :: fs) rest hdepth]
    exact run_more rfl rest
  | object members ih =>
    intro f fs rest _ hdepth
    rw [run_object (fun m hm text => ih m hm) h (f :: fs) rest hdepth]
    exact run_more rfl rest
  | unsupported reason => cases h

theorem run_print_object {members : List (GoString × Value)} {text : List UInt8}
    (h : (Value.object members).print = .ok text) (hdepth : (Value.object members).depth ≤ limit)
    (rest : List UInt8) :
    run limit .start (text ++ rest) = .value (.object (rereadMembers members)) rest := by
  rw [State.start, run_object (fun m _ text => delivers_print m.2) h [] rest
    (by simpa using hdepth)]
  rfl

def State.Inside (s : State) : Prop := s.frames ≠ [] ∧ ∀ v, s.mode ≠ .ended v

def Progress.Stays : Progress → Prop
  | .more s => s.Inside
  | .ended _ => False
  | .closed _ | .bad => True

theorem stays_deliver (v : Value) (f : Frame) (fs : List Frame) :
    (Progress.more (deliver v (f :: fs))).Stays := ⟨List.cons_ne_nil _ _, nofun⟩

theorem stays_openFrame (frames : List Frame) (f : Frame) {mode : Mode} (h : ∀ v, mode ≠ .ended v) :
    (openFrame limit frames f mode).Stays := by
  rw [openFrame]
  split_ifs
  · exact ⟨List.cons_ne_nil _ _, h⟩
  · trivial

theorem stays_closeFrame (f : Frame) (fs : List Frame) : (closeFrame f fs).Stays := by
  cases fs with
  | nil => trivial
  | cons g fs => exact stays_deliver _ _ _

theorem stays_beginValue (f : Frame) (fs : List Frame) (b : UInt8) :
    (beginValue limit (f :: fs) b).Stays := by
  have hmore : ∀ mode, (∀ v, mode ≠ Mode.ended v) → (Progress.more ⟨f :: fs, mode⟩).Stays :=
    fun mode h => ⟨List.cons_ne_nil _ _, h⟩
  rw [beginValue]
  split_ifs
  · exact hmore _ nofun
  · exact stays_openFrame _ _ nofun
  · exact stays_openFrame _ _ nofun
  · exact hmore _ nofun
  · exact hmore _ nofun
  · exact hmore _ nofun
  · split
    · exact hmore _ nofun
    · trivial

theorem stays_beginKey (f : Frame) (fs : List Frame) (b : UInt8) :
    (beginKey (f :: fs) b).Stays := by
  rw [beginKey]
  split_ifs
  · exact ⟨List.cons_ne_nil _ _, nofun⟩
  · trivial

theorem stays_after (f : Frame) (fs : List Frame) (b : UInt8) :
    (after ⟨f :: fs, .next⟩ b).Stays := by
  cases f with
  | array items =>
    rw [after]
    split_ifs
    · exact ⟨List.cons_ne_nil _ _, nofun⟩
    · exact stays_closeFrame _ _
    · exact ⟨List.cons_ne_nil _ _, nofun⟩
    · trivial
  | object members key =>
    rw [after]
    split_ifs
    · exact ⟨List.cons_ne_nil _ _, nofun⟩
    · exact stays_closeFrame _ _
    · exact ⟨List.cons_ne_nil _ _, nofun⟩
    · trivial

theorem stays_inString (f : Frame) (fs : List Frame) (isKey : Bool) (raw : List UInt8) (q : Quoted)
    (b : UInt8) : (inString (f :: fs) isKey raw q b).Stays := by
  have hend : ∀ s, (Progress.more (endString isKey s (f :: fs))).Stays := by
    intro s
    rw [endString]
    split_ifs
    · exact ⟨List.cons_ne_nil _ _, nofun⟩
    · exact stays_deliver _ _ _
  have hstep : ∀ r, (goOnString (f :: fs) isKey (raw ++ [b]) r).Stays := by
    intro r
    cases r with
    | none => trivial
    | some r => exact ⟨List.cons_ne_nil _ _, nofun⟩
  cases q with
  | plain high =>
    rw [inString]
    split_ifs
    · split
      · exact hend _
      · trivial
    · exact hstep _
  | escaped high => exact hstep _
  | hex left value high => exact hstep _

theorem stays_inLiteral (f : Frame) (fs : List Frame) (v : Value) (b : UInt8) (left : List UInt8) :
    (inLiteral (f :: fs) v b left).Stays := by
  unfold inLiteral
  split
  · trivial
  · split_ifs
    · exact stays_deliver _ _ _
    · trivial
  · split_ifs
    · exact ⟨List.cons_ne_nil _ _, nofun⟩
    · trivial

theorem stays_inNumber (f : Frame) (fs : List Frame) (raw : List UInt8) (st : NumberState)
    (b : UInt8) : (inNumber (f :: fs) raw st b).Stays := by
  rw [inNumber]
  split
  · exact ⟨List.cons_ne_nil _ _, nofun⟩
  · split_ifs
    · exact stays_after _ _ _
    · trivial

theorem stays_step {s : State} (hs : s.Inside) (b : UInt8) : (step limit s b).Stays := by
  obtain ⟨frames, mode⟩ := s
  obtain ⟨hframes, hmode⟩ := hs
  cases frames with
  | nil => exact absurd rfl hframes
  | cons f fs =>
    cases mode with
    | value =>
      rw [step]
      split_ifs
      · exact ⟨hframes, hmode⟩
      · exact stays_beginValue f fs b
    | firstItem =>
      rw [step]
      split_ifs
      · exact ⟨hframes, hmode⟩
      · exact stays_after f fs b
      · exact stays_beginValue f fs b
    | firstKey =>
      rw [step]
      split_ifs
      · exact ⟨hframes, hmode⟩
      · exact stays_after f fs b
      · exact stays_beginKey f fs b
    | key =>
      rw [step]
      split_ifs
      · exact ⟨hframes, hmode⟩
      · exact stays_beginKey f fs b
    | colon =>
      rw [step]
      split_ifs
      · exact ⟨hframes, hmode⟩
      · exact ⟨hframes, nofun⟩
      · trivial
    | next => exact stays_after f fs b
    | string isKey raw q => exact stays_inString f fs isKey raw q b
    | literal left v => exact stays_inLiteral f fs v b left
    | number raw st => exact stays_inNumber f fs raw st b
    | ended v => exact absurd rfl (hmode v)

theorem inside_run {s s' : State} (hs : s.Inside) {bs : List UInt8}
    (h : run limit s bs = .more s') : s'.Inside := by
  induction bs generalizing s with
  | nil =>
    cases h
    exact hs
  | cons b bs ih =>
    have hstays : (step limit s b).Stays := stays_step hs b
    rw [run] at h
    cases hstep : step limit s b with
    | more s₁ =>
      rw [hstep] at h hstays
      exact ih hstays h
    | closed v =>
      rw [hstep] at h
      cases h
    | ended v =>
      rw [hstep] at h
      cases h
    | bad =>
      rw [hstep] at h
      cases h

end

theorem readValue_print {members : List (GoString × Value)} {text : List UInt8}
    (h : (Value.object members).print = .ok text)
    (hdepth : (Value.object members).depth ≤ maxNestingDepth) (rest : List UInt8)
    (failure : Option GoString) :
    readValue ⟨text ++ rest, failure⟩ = .ok (.object (rereadMembers members)) := by
  rw [readValue, run_print_object h hdepth]

/-- A value that was complete before the reader failed is there without the failure. -/
theorem readValue_of_failure {bytes : List UInt8} {err : GoString} {v : Value}
    (h : readValue ⟨bytes, some err⟩ = .ok v) (rest : List UInt8) :
    readValue ⟨bytes ++ rest, none⟩ = .ok v := by
  rw [readValue] at h
  cases hrun : run maxNestingDepth .start bytes with
  | value v' r =>
    rw [hrun] at h
    cases h
    rw [readValue, run_append_value hrun]
  | more s =>
    rw [hrun] at h
    cases h
  | bad =>
    rw [hrun] at h
    cases h

theorem readValue_failure_ne_eof (bytes : List UInt8) (err : GoString) :
    readValue ⟨bytes, some err⟩ ≠ .error .eof := by
  rw [readValue]
  cases run maxNestingDepth .start bytes with
  | value v r => exact nofun
  | more s => exact nofun
  | bad => exact nofun

theorem printMembers_ok {members : List (GoString × Value)}
    (h : ∀ m ∈ members, ∃ text, m.2.print = .ok text) :
    ∃ text, printMembers members = .ok text := by
  induction members with
  | nil => exact ⟨[], rfl⟩
  | cons m members ih =>
    obtain ⟨⟨head, hhead⟩, hmembers⟩ := List.forall_mem_cons.mp h
    obtain ⟨tail, htail⟩ := ih hmembers
    refine ⟨0x2c :: (printString m.1 ++ 0x3a :: head ++ tail), ?_⟩
    rw [printMembers, hhead, htail]
    rfl

theorem print_object_ok {members : List (GoString × Value)}
    (h : ∀ m ∈ members, ∃ text, m.2.print = .ok text) :
    ∃ text, (Value.object members).print = .ok text := by
  cases members with
  | nil => exact ⟨_, rfl⟩
  | cons m members =>
    obtain ⟨⟨head, hhead⟩, hmembers⟩ := List.forall_mem_cons.mp h
    obtain ⟨tail, htail⟩ := printMembers_ok hmembers
    refine ⟨0x7b :: (printString m.1 ++ 0x3a :: head ++ tail ++ [0x7d]), ?_⟩
    rw [Value.print, hhead, htail]
    rfl

theorem depthMembers_le {members : List (GoString × Value)} {n : ℕ}
    (h : ∀ m ∈ members, m.2.depth ≤ n) : depthMembers members ≤ n := by
  induction members with
  | nil => exact Nat.zero_le n
  | cons m members ih =>
    obtain ⟨hm, hmembers⟩ := List.forall_mem_cons.mp h
    exact Nat.max_le.mpr ⟨hm, ih hmembers⟩

theorem rereadMembers_eq {members : List (GoString × Value)}
    (h : ∀ m ∈ members, ValidUTF8 m.1 ∧ m.2.reread = m.2) : rereadMembers members = members := by
  induction members with
  | nil => rfl
  | cons m members ih =>
    obtain ⟨⟨hk, hv⟩, hmembers⟩ := List.forall_mem_cons.mp h
    rw [rereadMembers, sanitize_eq hk, hv, ih hmembers]

theorem print_object_head {members : List (GoString × Value)} {text : List UInt8}
    (h : (Value.object members).print = .ok text) : ∃ l, text = 0x7b :: l := by
  cases members with
  | nil =>
    cases h
    exact ⟨_, rfl⟩
  | cons m members =>
    obtain ⟨head, -, h⟩ := ok_of_bind h
    obtain ⟨tail, -, h⟩ := ok_of_bind h
    cases h
    exact ⟨_, rfl⟩

theorem atEnd_inside {s : State} (hs : s.Inside) (bytes : List UInt8) :
    atEnd bytes s = .error (if bytes.all isSpace then .eof else .unexpectedEOF) := by
  have hstays : (step maxNestingDepth s 0x20).Stays := stays_step hs 0x20
  rw [atEnd]
  split
  · rename_i v hended
    rw [hended] at hstays
    exact False.elim hstays
  · rfl

/-- No part of a printed object is a value. -/
theorem readValue_part {members : List (GoString × Value)} {part missing : List UInt8}
    (h : (Value.object members).print = .ok (part ++ missing)) (hpart : part ≠ [])
    (hmissing : missing ≠ []) : ∃ e, readValue ⟨part, none⟩ = .error e ∧ e ≠ .eof := by
  obtain ⟨l, hl⟩ := print_object_head h
  cases part with
  | nil => exact absurd rfl hpart
  | cons b part =>
    cases hl
    cases hrun : run maxNestingDepth .start (0x7b :: part) with
    | value v r =>
      -- with room for the whole object, the run on the whole text would stop here as well
      have hroom := run_mono (Nat.le_max_left maxNestingDepth (Value.object members).depth) hrun
      have hwhole := run_print_object h (Nat.le_max_right maxNestingDepth _) []
      rw [List.append_nil, run_append_value hroom] at hwhole
      injection hwhole with _ hrest
      exact absurd (List.append_eq_nil_iff.mp hrest).2 hmissing
    | more s =>
      have hopen : step maxNestingDepth .start 0x7b = .more ⟨[.object [] none], .firstKey⟩ := rfl
      have hfirst : State.Inside ⟨[.object [] none], .firstKey⟩ := ⟨List.cons_ne_nil _ _, nofun⟩
      have hinside : s.Inside := by
        rw [run_more hopen] at hrun
        exact inside_run hfirst hrun
      refine ⟨.unexpectedEOF, ?_, by decide⟩
      simp only [readValue, hrun, atEnd_inside hinside]
      rfl
    | bad =>
      refine ⟨.invalid, ?_, by decide⟩
      simp only [readValue, hrun]

end Silk.GoJson
