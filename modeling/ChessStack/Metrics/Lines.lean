import ChessStack.Metrics.Registry

/-!
# Lines and their samples

Library `Metrics`. A line the registry prints reads as the sample it was printed for: names up to
their end, label values through their escapes, and the value behind a blank. No line holds a line
feed.
-/

namespace ChessStack.Metrics

open ChessStack.Js

/-! ### Label values -/

private theorem escapeLabelValue_eq (t : Text) : escapeLabelValue t = t.flatMap fun c ↦
    if c = 0x5c ∨ c = 0x22 then [0x5c, c] else [c] := by
  rw [escapeLabelValue, List.flatMap_assoc]
  congr 1
  funext c
  by_cases hbackslash : c = 0x5c
  · subst hbackslash
    decide
  · by_cases hquote : c = 0x22
    · subst hquote
      decide
    · simp [hbackslash, hquote]

/-- A label value is read back, whatever follows it. -/
theorem readValue_escape (t rest : Text) :
    readValue (escapeLabelValue t ++ 0x22 :: rest) = some (t, rest) := by
  rw [escapeLabelValue_eq]
  induction t with
  | nil =>
    rw [List.flatMap_nil, List.nil_append, readValue.eq_def]
    simp
  | cons c t ih =>
    rw [List.flatMap_cons, List.append_assoc]
    by_cases h : c = 0x5c ∨ c = 0x22
    · have hquote : (0x5c : UInt16) ≠ 0x22 := by decide
      rw [if_pos h, List.cons_append, List.singleton_append, readValue.eq_def]
      simp only [if_neg hquote, if_pos h, if_true, ih]
      rfl
    · rw [if_neg h, List.singleton_append, readValue.eq_def]
      simp only [if_neg fun hc ↦ h (.inr hc), if_neg fun hc ↦ h (.inl hc), ih]
      rfl

private theorem not_break_of_mem_foldBreaks {inRun : Bool} {t : Text} {c : UInt16}
    (hc : c ∈ foldBreaks inRun t) : isBreak c = false := by
  induction t generalizing inRun with
  | nil => cases hc
  | cons d t ih =>
    rw [foldBreaks] at hc
    split at hc
    · obtain hc | hc := List.mem_append.mp hc
      · split at hc
        · cases hc
        · obtain rfl := List.mem_singleton.mp hc
          decide
      · exact ih hc
    · next hd =>
      obtain rfl | hc := List.mem_cons.mp hc
      · exact Bool.not_eq_true _ ▸ hd
      · exact ih hc

/-- A sanitised value is on one line. -/
theorem not_mem_sanitizeLabelValue (value : Text) : (0x0a : UInt16) ∉ sanitizeLabelValue value := by
  intro hmem
  have hfold : (0x0a : UInt16) ∈ foldBreaks false value := by
    unfold sanitizeLabelValue at hmem
    dsimp only at hmem
    split at hmem
    · exact List.mem_of_mem_take hmem
    · exact hmem
  have := not_break_of_mem_foldBreaks hfold
  revert this
  decide

private theorem not_mem_escapeLabelValue {t : Text} (h : (0x0a : UInt16) ∉ t) :
    (0x0a : UInt16) ∉ escapeLabelValue t := by
  rw [escapeLabelValue_eq, List.mem_flatMap]
  rintro ⟨c, hc, hmem⟩
  split at hmem
  · next hspecial =>
    obtain rfl | rfl := hspecial
    · revert hmem
      decide
    · revert hmem
      decide
  · obtain rfl := List.mem_singleton.mp hmem
    exact h hc

/-- A text without marks is its own escape. -/
theorem escapeLabelValue_self {t : Text} (h : ∀ c ∈ t, c ≠ 0x5c ∧ c ≠ 0x22) :
    escapeLabelValue t = t := by
  rw [escapeLabelValue_eq]
  induction t with
  | nil => rfl
  | cons c t ih =>
    obtain ⟨hbackslash, hquote⟩ := h c List.mem_cons_self
    have hplain : ¬ (c = 0x5c ∨ c = 0x22) := by
      rintro (hc | hc)
      · exact hbackslash hc
      · exact hquote hc
    rw [List.flatMap_cons, if_neg hplain, ih fun d hd ↦ h d (List.mem_cons_of_mem c hd)]
    rfl

/-! ### Names -/

/-- `[a-zA-Z_][a-zA-Z0-9_]*`, the names of labels in the text format. -/
def validLabel : Text → Bool
  | [] => false
  | c :: rest => labelStart c && rest.all labelPart

variable {name rest : Text}

/-- A valid name without a colon is a valid label name. -/
theorem validLabel_of_validName (h : validName name = true) (hcolon : (0x3a : UInt16) ∉ name) :
    validLabel name = true := by
  cases name with
  | nil => cases h
  | cons c name =>
    simp only [validName, validLabel, Bool.and_eq_true, List.all_eq_true] at h ⊢
    obtain ⟨hstart, hpart⟩ := h
    simp only [List.mem_cons, not_or] at hcolon
    constructor
    · simp only [nameStart, Bool.or_eq_true, beq_iff_eq] at hstart
      exact hstart.resolve_right fun hc ↦ hcolon.1 hc.symm
    · intro d hd
      have hd' := hpart d hd
      have hne : d ≠ 0x3a := by
        rintro rfl
        exact hcolon.2 hd
      simp only [namePart, nameStart, labelPart, Bool.or_eq_true, beq_iff_eq] at hd' ⊢
      obtain (h | h) | h := hd'
      · exact .inl h
      · exact absurd h hne
      · exact .inr h

private theorem takeWhile_part {part : UInt16 → Bool} {run : Text} (hrun : run.all part = true)
    (hstop : rest.head?.any part = false) :
    (run ++ rest).takeWhile part = run ∧ (run ++ rest).dropWhile part = rest := by
  induction run with
  | nil => cases rest <;> simp_all
  | cons c run ih => simp_all

/-- A name is taken up to its end. -/
theorem takeName_valid {start part : UInt16 → Bool} {c : UInt16} {run : Text}
    (hstart : start c = true) (hrun : run.all part = true)
    (hstop : rest.head?.any part = false) :
    takeName start part (c :: (run ++ rest)) = some (c :: run, rest) := by
  obtain ⟨htake, hdrop⟩ := takeWhile_part hrun hstop
  rw [takeName, if_pos hstart, htake, hdrop]

private theorem skipBlanks_cons {c : UInt16} (h : isBlank c = false) (rest : Text) :
    skipBlanks (c :: rest) = c :: rest := by
  rw [skipBlanks, List.dropWhile_cons, if_neg (by simp [h])]

/-- The first letter of a label name is no blank, brace or comma. -/
theorem labelStart_plain {c : UInt16} (h : labelStart c = true) : isBlank c = false ∧ c ≠ 0x7d := by
  constructor
  · rw [Bool.eq_false_iff]
    intro hblank
    simp only [isBlank, Bool.or_eq_true, beq_iff_eq] at hblank
    obtain rfl | rfl := hblank
    · revert h
      decide
    · revert h
      decide
  · rintro rfl
    revert h
    decide

private theorem nameStart_plain {c : UInt16} (h : nameStart c = true) :
    isBlank c = false ∧ c ≠ 0x23 := by
  constructor
  · rw [Bool.eq_false_iff]
    intro hblank
    simp only [isBlank, Bool.or_eq_true, beq_iff_eq] at hblank
    obtain rfl | rfl := hblank
    · revert h
      decide
    · revert h
      decide
  · rintro rfl
    revert h
    decide

/-! ### Labels -/

/-- A label as it is printed. -/
def renderLabel (label : Text × Text) : Text :=
  label.1 ++ 0x3d :: 0x22 :: (escapeLabelValue label.2 ++ [0x22])

/-- The labels of a sample as they are printed. -/
def renderPairs (pairs : List (Text × Text)) : Text :=
  if pairs = [] then [] else 0x7b :: ([0x2c].intercalate (pairs.map renderLabel) ++ [0x7d])

private theorem readLabel_render {label : Text × Text} (h : validLabel label.1 = true)
    (rest : Text) :
    readLabel (renderLabel label ++ rest) = some (label, rest) := by
  obtain ⟨name, value⟩ := label
  cases name with
  | nil => cases h
  | cons c name =>
    simp only [validLabel, Bool.and_eq_true] at h
    have hname : takeName labelStart labelPart
        (c :: (name ++ 0x3d :: 0x22 :: (escapeLabelValue value ++ 0x22 :: rest))) =
        some (c :: name, 0x3d :: 0x22 :: (escapeLabelValue value ++ 0x22 :: rest)) :=
      takeName_valid h.1 h.2 rfl
    have hequals : ∀ t, expect 0x3d (skipBlanks (0x3d :: t)) = some t := fun t ↦ by
      rw [skipBlanks_cons (by decide), expect, if_pos rfl]
    have hquote : ∀ t, expect 0x22 (skipBlanks (0x22 :: t)) = some t := fun t ↦ by
      rw [skipBlanks_cons (by decide), expect, if_pos rfl]
    simp only [readLabel, renderLabel, List.cons_append, List.append_assoc, List.nil_append, hname,
      Option.bind_eq_bind, Option.bind_some, hequals, hquote, readValue_escape]

private theorem renderLabel_cons {label : Text × Text} (h : validLabel label.1 = true) :
    ∃ c t, renderLabel label = c :: t ∧ labelStart c = true := by
  obtain ⟨name, value⟩ := label
  cases name with
  | nil => cases h
  | cons c name =>
    simp only [validLabel, Bool.and_eq_true] at h
    exact ⟨c, _, rfl, h.1⟩

/-- The labels of a sample are read back. -/
theorem readLabels_render {pairs : List (Text × Text)} (hne : pairs ≠ [])
    (hvalid : ∀ p ∈ pairs, validLabel p.1 = true) {n : Nat} (hn : pairs.length ≤ n) (rest : Text) :
    readLabels n ([0x2c].intercalate (pairs.map renderLabel) ++ 0x7d :: rest) =
      some (pairs, rest) := by
  induction pairs generalizing n with
  | nil => exact absurd rfl hne
  | cons p pairs ih =>
    cases n with
    | zero => exact absurd hn (Nat.not_succ_le_zero _)
    | succ n =>
      obtain ⟨c, t, hp, hc⟩ := renderLabel_cons (hvalid p List.mem_cons_self)
      obtain ⟨hblank, hbrace⟩ := labelStart_plain hc
      -- a label comes first, not the closing brace
      have hfirst : ∀ more, skipBlanks (renderLabel p ++ more) = renderLabel p ++ more ∧
          expect 0x7d (renderLabel p ++ more) = none := by
        intro more
        rw [hp, List.cons_append]
        exact ⟨skipBlanks_cons hblank _, by rw [expect, if_neg hbrace]⟩
      have hlabel := fun more ↦ readLabel_render (hvalid p List.mem_cons_self) more
      have hcomma : ∀ t, skipBlanks (0x2c :: t) = 0x2c :: t := fun t ↦ skipBlanks_cons (by decide) t
      have hclose : ∀ t, skipBlanks (0x7d :: t) = 0x7d :: t := fun t ↦ skipBlanks_cons (by decide) t
      cases pairs with
      | nil =>
        have hnot : (0x7d : UInt16) ≠ 0x2c := by decide
        rw [List.map_singleton, List.intercalate_singleton, readLabels, (hfirst _).1, (hfirst _).2]
        simp only [hlabel, Option.bind_eq_bind, Option.bind_some, hclose, expect, if_neg hnot,
          if_true, Option.map_some]
      | cons q pairs =>
        have hrest := ih (List.cons_ne_nil q pairs)
          (fun r hr ↦ hvalid r (List.mem_cons_of_mem p hr)) (Nat.le_of_succ_le_succ hn)
        rw [List.map_cons, List.map_cons, List.intercalate_cons_cons, List.append_assoc,
          List.append_assoc, readLabels, (hfirst _).1, (hfirst _).2]
        rw [List.map_cons] at hrest
        simp only [hlabel, Option.bind_eq_bind, Option.bind_some, List.singleton_append, hcomma,
          expect, if_true, hrest, Option.map_some]

/-! ### Samples -/

/-- A text that can stand for a value. -/
structure Plain (t : Text) : Prop where
  pos : t ≠ []
  blank : ∀ c ∈ t, isBlank c = false
  marks : ∀ c ∈ t, c ≠ 0x5c ∧ c ≠ 0x22
  feed : (0x0a : UInt16) ∉ t
  brace : (0x7b : UInt16) ∉ t

/-- A sample as it is printed. -/
def renderSample (s : Sample) : Text := s.name ++ renderPairs s.labels ++ 0x20 :: s.value

/-- What is printed is read back. -/
structure Wellformed (s : Sample) : Prop where
  name : validName s.name = true
  labels : ∀ p ∈ s.labels, validLabel p.1 = true
  value : Plain s.value

private theorem readEnd_plain {value : Text} (h : Plain value) : readEnd value = some value := by
  have hall : value.all (!isBlank ·) = true := by
    rw [List.all_eq_true]
    intro c hc
    simp [h.blank c hc]
  obtain ⟨htake, hdrop⟩ := @takeWhile_part [] _ _ hall rfl
  rw [List.append_nil] at htake hdrop
  simp only [readEnd, htake, hdrop]
  rw [if_pos ⟨h.pos, by rfl⟩]

private theorem skipBlanks_value {value : Text} (h : Plain value) :
    skipBlanks (0x20 :: value) = value := by
  cases value with
  | nil => exact absurd rfl h.pos
  | cons c value =>
    rw [skipBlanks, List.dropWhile_cons_of_pos (by decide)]
    exact skipBlanks_cons (h.blank c List.mem_cons_self) value

private theorem length_le_intercalate (c : UInt16) (parts : List Text) :
    parts.length ≤ ([c].intercalate parts).length + 1 := by
  induction parts with
  | nil => exact Nat.zero_le _
  | cons a parts ih =>
    cases parts with
    | nil => exact Nat.succ_le_succ (Nat.zero_le _)
    | cons b parts =>
      rw [List.intercalate_cons_cons]
      simp only [List.length_cons, List.length_append, List.length_nil] at ih ⊢
      omega

private theorem readSample_render {s : Sample} (h : Wellformed s) : readSample
    (renderSample s) = some s := by
  obtain ⟨name, labels, value⟩ := s
  obtain ⟨hname, hlabels, hvalue⟩ := h
  dsimp only at hname hlabels hvalue
  cases name with
  | nil => cases hname
  | cons c name =>
    simp only [validName, Bool.and_eq_true] at hname
    have htake : ∀ more, more.head?.any namePart = false →
        takeName nameStart namePart (c :: (name ++ more)) = some (c :: name, more) :=
      fun more hmore ↦ takeName_valid hname.1 hname.2 hmore
    by_cases hne : labels = []
    · subst hne
      have hclosed : expect 0x7b value = none := by
        cases value with
        | nil => rfl
        | cons d value =>
          rw [expect, if_neg]
          rintro rfl
          exact hvalue.brace List.mem_cons_self
      simp only [renderSample, renderPairs, if_true, List.cons_append, List.append_nil]
      simp only [readSample, htake (0x20 :: value) rfl, Option.bind_eq_bind, Option.bind_some,
        skipBlanks_value hvalue, hclosed, readEnd_plain hvalue]
    · have hlen : labels.length ≤ ([0x2c].intercalate (labels.map renderLabel) ++
          0x7d :: 0x20 :: value).length + 1 := by
        have hle := length_le_intercalate 0x2c (labels.map renderLabel)
        simp only [List.length_map, List.length_append] at hle ⊢
        omega
      have hread := readLabels_render hne hlabels hlen (0x20 :: value)
      have hopen : ∀ t, expect 0x7b (skipBlanks (0x7b :: t)) = some t := fun t ↦ by
        rw [skipBlanks_cons (by decide), expect, if_pos rfl]
      simp only [renderSample, renderPairs, if_neg hne, List.cons_append, List.append_assoc]
      simp only [readSample, htake _ (show ((0x7b : UInt16) :: _).head?.any namePart = false from rfl),
        Option.bind_eq_bind, Option.bind_some, hopen, List.nil_append, hread,
        skipBlanks_value hvalue, readEnd_plain hvalue]

/-! ### Lines -/

private theorem readLine_render {s : Sample} (h : Wellformed s) : readLine
    (renderSample s) = some [s] := by
  have hread := readSample_render h
  obtain ⟨name, labels, value⟩ := s
  obtain ⟨hname, -, -⟩ := h
  cases name with
  | nil => cases hname
  | cons c name =>
    simp only [validName, Bool.and_eq_true] at hname
    obtain ⟨hblank, hcomment⟩ := nameStart_plain hname.1
    rw [renderSample, List.cons_append, List.cons_append] at hread ⊢
    simp only [readLine, skipBlanks_cons hblank, if_neg hcomment, hread, Option.map_some]

/-- A comment has no sample. -/
theorem readLine_comment (t : Text) : readLine (0x23 :: t) = some [] := by
  rw [readLine, skipBlanks_cons (by decide)]
  exact if_pos rfl

/-- The samples of two texts. -/
theorem readLines_append {a b : List Text} {samples more : List Sample}
    (ha : readLines a = some samples) (hb : readLines b = some more) :
    readLines (a ++ b) = some (samples ++ more) := by
  induction a generalizing samples with
  | nil =>
    obtain rfl := Option.some.inj ha
    exact hb
  | cons line a ih =>
    simp only [readLines, Option.bind_eq_bind, Option.bind_eq_some_iff] at ha
    obtain ⟨first, hfirst, others, hothers, heq⟩ := ha
    obtain rfl := Option.some.inj heq
    simp only [List.cons_append, readLines, hfirst, ih hothers, Option.bind_eq_bind, Option.bind_some,
      List.append_assoc]

/-- Samples are read back from their lines. -/
theorem readLines_render {samples : List Sample} (h : ∀ s ∈ samples, Wellformed s) :
    readLines (samples.map renderSample) = some samples := by
  induction samples with
  | nil => rfl
  | cons s samples ih =>
    simp only [List.map_cons, readLines, readLine_render (h s List.mem_cons_self),
      ih fun t ht ↦ h t (List.mem_cons_of_mem s ht), Option.bind_eq_bind, Option.bind_some,
      List.singleton_append]

/-- One more part. -/
theorem intercalate_concat {c : UInt16} {parts : List Text} (hne : parts ≠ []) (last : Text) :
    [c].intercalate (parts ++ [last]) = ([c].intercalate parts ++ c :: last : Text) := by
  induction parts with
  | nil => exact absurd rfl hne
  | cons a parts ih =>
    cases parts with
    | nil => simp [List.intercalate_cons_cons]
    | cons b parts =>
      have hlast := ih (List.cons_ne_nil b parts)
      rw [List.cons_append] at hlast
      rw [List.cons_append, List.cons_append, List.intercalate_cons_cons, hlast,
        List.intercalate_cons_cons]
      simp only [List.append_assoc]

/-- The lines of an exposition are its samples' lines and comments. -/
theorem readExposition_lines {lines : List Text} (h : ∀ line ∈ lines, (0x0a : UInt16) ∉ line)
    {samples : List Sample} (hread : readLines lines = some samples) :
    readExposition ([0x0a].intercalate lines ++ [0x0a]) = some samples := by
  have hempty : readLines [[]] = some [] := by decide
  cases lines with
  | nil =>
    obtain rfl := Option.some.inj hread
    decide
  | cons line lines =>
    have hlast : [0x0a].intercalate (line :: lines) ++ [0x0a] =
        ([0x0a].intercalate ((line :: lines) ++ [[]]) : Text) :=
      (intercalate_concat (List.cons_ne_nil line lines) []).symm
    rw [readExposition, hlast, List.splitOn_intercalate]
    · rw [readLines_append hread hempty, List.append_nil]
    · intro t ht
      obtain ht | ht := List.mem_append.mp ht
      · exact h t ht
      · obtain rfl := List.mem_singleton.mp ht
        exact List.not_mem_nil
    · simp

/-- A valid name does not break its line. -/
theorem not_mem_validName (h : validName name = true) : (0x0a : UInt16) ∉ name := by
  cases name with
  | nil => exact List.not_mem_nil
  | cons c name =>
    simp only [validName, Bool.and_eq_true, List.all_eq_true] at h
    intro hmem
    obtain rfl | hmem := List.mem_cons.mp hmem
    · have := h.1
      revert this
      decide
    · have := h.2 _ hmem
      revert this
      decide

private theorem not_mem_intercalate {c d : UInt16} {parts : List Text} (hc : c ≠ d)
    (h : ∀ part ∈ parts, c ∉ part) : c ∉ ([d].intercalate parts : Text) := by
  induction parts with
  | nil => exact List.not_mem_nil
  | cons a parts ih =>
    cases parts with
    | nil => simpa using h a List.mem_cons_self
    | cons b parts =>
      have hrest := ih fun part hpart ↦ h part (List.mem_cons_of_mem a hpart)
      rw [List.intercalate_cons_cons]
      simp [hc, hrest, h a List.mem_cons_self]

private theorem not_mem_renderPairs {pairs : List (Text × Text)}
    (h : ∀ p ∈ pairs, (0x0a : UInt16) ∉ p.1 ∧ (0x0a : UInt16) ∉ p.2) :
    (0x0a : UInt16) ∉ renderPairs pairs := by
  have hlabel : ∀ part ∈ pairs.map renderLabel, (0x0a : UInt16) ∉ part := by
    intro part hpart
    obtain ⟨p, hp, rfl⟩ := List.mem_map.mp hpart
    obtain ⟨hname, hvalue⟩ := h p hp
    simp [renderLabel, hname, not_mem_escapeLabelValue hvalue]
  rw [renderPairs]
  split
  · exact List.not_mem_nil
  · simp [not_mem_intercalate (c := 0x0a) (d := 0x2c) (by decide) hlabel]

/-- A well-formed sample does not break its line. -/
theorem not_mem_renderSample {s : Sample} (h : Wellformed s)
    (hlabels : ∀ p ∈ s.labels, (0x0a : UInt16) ∉ p.1 ∧ (0x0a : UInt16) ∉ p.2) :
    (0x0a : UInt16) ∉ renderSample s := by
  simp [renderSample, not_mem_validName h.name, not_mem_renderPairs hlabels, h.value.feed]

end ChessStack.Metrics
