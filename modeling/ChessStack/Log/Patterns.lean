import ChessStack.Js.Text
import ChessStack.Log.Scrub
import Mathlib.Data.List.TakeWhile

/-!
# What the patterns match

Library `Log`. The matches of the four patterns of `Chess-Backend/src/config/logSanitize.js:14–24`
as parts of a text: the rest of a database URL, an AWS key id, a token of two or three segments and
a Slack token.
-/

namespace ChessStack.Log

open ChessStack.Library

variable {prev : Option Char} {text before hidden after mark : List Char} {hit : Hit Char}

/-! ### Shapes -/

/-- A scheme, in any letter case. -/
def IsName (name : List Char) : Prop := name.map Char.toLower ∈ schemes

/-- An AWS access key id. -/
def IsKeyId (id : List Char) : Prop :=
  ∃ k, id = "AKIA".toList ++ k ∧ k.length = 16 ∧ k.all inKeyId = true

/-- A dot and a segment, or nothing. -/
def IsThird (c : List Char) : Prop :=
  c = [] ∨ ∃ c', c = '.' :: c' ∧ 8 ≤ c'.length ∧ c'.all inToken = true

/-- A JWT, whose third segment may be missing. -/
def IsToken (token : List Char) : Prop :=
  ∃ a b c, token = "eyJ".toList ++ (a ++ ('.' :: (b ++ c))) ∧ 8 ≤ a.length ∧
    a.all inToken = true ∧ 8 ≤ b.length ∧ b.all inToken = true ∧ IsThird c

/-- A Slack token. -/
def IsSlack (token : List Char) : Prop :=
  ∃ c rest, token = ['x', 'o', 'x', c, '-'] ++ rest ∧ c ∈ ['b', 'a', 'p', 'r', 's'] ∧ rest ≠ [] ∧
    rest.all inSlack = true

/-- A URL in a text: its scheme is one of these and starts a word, and `rest` goes as far as it
can. -/
structure UrlAt (Scheme : List Char → Prop) (text before name rest after : List Char) : Prop where
  eq : text = before ++ (name ++ ("://".toList ++ (rest ++ after)))
  start : wordAt before.getLast? = false
  name : Scheme name
  pos : rest ≠ []
  run : rest.all inUrl = true
  stop : after.head?.any inUrl = false

/-- A part that starts a word and, where it ends in one, ends it. -/
structure Delimited (before hidden after : List Char) : Prop where
  start : wordAt before.getLast? = false
  stop : wordAt hidden.getLast? = true → wordAt after.head? = false

/-! ### Runs of letters -/

/-- A run that stops is taken whole. -/
theorem takeWhile_run {p : Char → Bool} {run after : List Char} (hrun : run.all p = true)
    (hstop : after.head?.any p = false) : (run ++ after).takeWhile p = run := by
  rw [List.takeWhile_append_of_pos fun c hc ↦ List.all_eq_true.mp hrun c hc]
  cases after with
  | nil => simp
  | cons c after => simp_all

/-- What follows a run stops it. -/
theorem head?_dropWhile_any (p : Char → Bool) (text : List Char) :
    (text.dropWhile p).head?.any p = false := by
  induction text with
  | nil => rfl
  | cons c text ih =>
    rw [List.dropWhile_cons]
    split
    · exact ih
    · simp_all

private theorem le_takeWhile {p : Char → Bool} {run after : List Char} (hrun : run.all p = true) :
    run.length ≤ ((run ++ after).takeWhile p).length := by
  rw [List.takeWhile_append_of_pos fun c hc ↦ List.all_eq_true.mp hrun c hc, List.length_append]
  exact Nat.le_add_right _ _

/-! ### URLs -/

private theorem startsScheme_iff {scheme : List Char} : startsScheme scheme text = true ↔
    ∃ name rest, text = name ++ ("://".toList ++ rest) ∧ name.map Char.toLower = scheme := by
  constructor
  · intro h
    simp only [startsScheme, Bool.and_eq_true, beq_iff_eq] at h
    refine ⟨text.take scheme.length, (text.drop scheme.length).drop 3, ?_, h.1⟩
    rw [← h.2, List.take_append_drop, List.take_append_drop]
  · rintro ⟨name, rest, rfl, rfl⟩
    simp [startsScheme]

/-- The letters of a name are those of a scheme. -/
theorem IsName.lower {name : List Char} (h : IsName name) {P : Char → Prop}
    (hall : ∀ scheme ∈ schemes, ∀ c ∈ scheme, P c) : ∀ c ∈ name, P c.toLower :=
  fun _ hc ↦ hall _ h _ (List.mem_map_of_mem hc)

/-- A text starts with one scheme at most. -/
theorem name_unique {name name' rest rest' : List Char} (h : IsName name) (h' : IsName name')
    (heq : name ++ ("://".toList ++ rest) = name' ++ ("://".toList ++ rest')) :
    name = name' ∧ rest = rest' := by
  have hrun : ∀ {n r : List Char}, IsName n →
      (n ++ ("://".toList ++ r)).takeWhile (fun c ↦ c.toLower != ':') = n := by
    intro n r hn
    apply takeWhile_run
    · simpa using hn.lower (P := (· ≠ ':')) (by decide)
    · rfl
  have hname : name = name' := by rw [← hrun h (r := rest), heq, hrun h']
  subst hname
  exact ⟨rfl, by simpa using heq⟩

private theorem drop_name (name rest : List Char) :
    (name ++ ("://".toList ++ rest)).drop ((name.map Char.toLower).length + 3) = rest := by
  rw [← List.append_assoc]
  exact List.drop_left' (by simp)

/-- A run begins with one of its characters. -/
theorem head?_any_append {p : Char → Bool} {run after : List Char} (hpos : run ≠ [])
    (hrun : run.all p = true) : (run ++ after).head?.any p = true := by
  cases run with
  | nil => exact absurd rfl hpos
  | cons c run => simp_all

/-- What the pattern of URLs matches. -/
theorem urlPattern_iff : urlPattern prev text = some hit ↔ wordAt prev = false ∧
    ∃ name rest after, text = name ++ ("://".toList ++ (rest ++ after)) ∧ IsName name ∧
      rest ≠ [] ∧ rest.all inUrl = true ∧ after.head?.any inUrl = false ∧
      hit = ⟨name.length + 3, rest.length, REDACTED.toList⟩ := by
  cases hprev : wordAt prev with
  | true => simp [urlPattern, hprev]
  | false =>
    simp only [urlPattern, hprev, Bool.false_eq_true, if_false, Option.map_eq_some_iff, true_and]
    constructor
    · rintro ⟨scheme, hfind, rfl⟩
      have hmem := List.mem_of_find?_eq_some hfind
      have htext := List.find?_some hfind
      simp only [Bool.and_eq_true] at htext
      obtain ⟨hstart, hhead⟩ := htext
      obtain ⟨name, rest, rfl, rfl⟩ := startsScheme_iff.mp hstart
      rw [drop_name] at hhead ⊢
      refine ⟨name, rest.takeWhile inUrl, rest.dropWhile inUrl, ?_, hmem, ?_, List.all_takeWhile,
        head?_dropWhile_any inUrl rest, by simp⟩
      · rw [List.takeWhile_append_dropWhile]
      · cases rest with
        | nil => cases hhead
        | cons c rest => simp_all
    · rintro ⟨name, rest, after, rfl, hname, hpos, hrun, hstop, rfl⟩
      have hhere : (startsScheme (name.map Char.toLower) (name ++ ("://".toList ++ (rest ++ after))) &&
          ((name ++ ("://".toList ++ (rest ++ after))).drop
            ((name.map Char.toLower).length + 3)).head?.any inUrl) = true := by
        rw [startsScheme_iff.mpr ⟨name, _, rfl, rfl⟩, drop_name, head?_any_append hpos hrun]
        rfl
      cases hfind : schemes.find? fun scheme ↦
          startsScheme scheme (name ++ ("://".toList ++ (rest ++ after))) &&
            ((name ++ ("://".toList ++ (rest ++ after))).drop (scheme.length + 3)).head?.any inUrl with
      | none => exact absurd hhere (List.find?_eq_none.mp hfind _ hname)
      | some scheme =>
        have hmem := List.mem_of_find?_eq_some hfind
        have hstart := List.find?_some hfind
        simp only [Bool.and_eq_true] at hstart
        obtain ⟨name', rest', heq, rfl⟩ := startsScheme_iff.mp hstart.1
        obtain ⟨rfl, -⟩ := name_unique hname hmem heq
        refine ⟨name.map Char.toLower, rfl, ?_⟩
        rw [drop_name, takeWhile_run hrun hstop, List.length_map]

/-! ### Tokens -/

/-- A key id has twenty characters. -/
theorem IsKeyId.length {id : List Char} (h : IsKeyId id) : id.length = 20 := by
  obtain ⟨k, rfl, hk, -⟩ := h
  simp [hk]

/-- What the pattern of key ids matches. -/
theorem keyIdPattern_iff : keyIdPattern prev text = some hit ↔ wordAt prev = false ∧
    ∃ id after, text = id ++ after ∧ IsKeyId id ∧ wordAt after.head? = false ∧
      hit = ⟨0, id.length, "[REDACTED_AWS_KEY]".toList⟩ := by
  constructor
  · intro h
    simp only [keyIdPattern, Option.ite_none_right_eq_some, Bool.and_eq_true, Bool.not_eq_true',
      beq_iff_eq, decide_eq_true_eq, Option.some.injEq] at h
    obtain ⟨⟨⟨⟨⟨hprev, htake⟩, hlen⟩, hall⟩, hnext⟩, rfl⟩ := h
    have hid : text.take 20 = "AKIA".toList ++ (text.drop 4).take 16 := by
      rw [← htake, ← List.take_add]
    refine ⟨hprev, text.take 20, text.drop 20, (List.take_append_drop ..).symm,
      ⟨_, hid, ?_, hall⟩, hnext, ?_⟩
    · rw [List.length_take, List.length_drop]
      omega
    · rw [List.length_take, Nat.min_eq_left hlen]
  · rintro ⟨hprev, id, after, rfl, hid, hnext, rfl⟩
    have hlen := hid.length
    have hdrop : (id ++ after).drop 20 = after := List.drop_left' hlen
    obtain ⟨k, rfl, hk, hall⟩ := hid
    have hkey : (("AKIA".toList ++ k ++ after).drop 4).take 16 = k := by
      have hdrop4 : ("AKIA".toList ++ (k ++ after)).drop 4 = k ++ after := List.drop_left' rfl
      rw [List.append_assoc, hdrop4, List.take_left' hk]
    rw [keyIdPattern, hdrop, hkey, hlen]
    simp [hprev, hnext, hk, hall]

/-- What a segment is. -/
theorem segment_some {n : Nat} (h : segment text = some n) : ∃ b rest, text = '.' :: (b ++ rest) ∧
    8 ≤ b.length ∧ b.all inToken = true ∧ rest.head?.any inToken = false ∧ n = b.length + 1 := by
  unfold segment at h
  split at h
  · next rest =>
    split at h
    · next hlen =>
      refine ⟨rest.takeWhile inToken, rest.dropWhile inToken, ?_, hlen, List.all_takeWhile,
        head?_dropWhile_any inToken rest, ?_⟩
      · rw [List.takeWhile_append_dropWhile]
      · exact (Option.some.inj h).symm
    · cases h
  · cases h

private theorem segment_isSome {b rest : List Char} (hlen : 8 ≤ b.length)
    (hall : b.all inToken = true) :
    (segment ('.' :: (b ++ rest))).isSome = true := by
  have hle : b.length ≤ ((b ++ rest).takeWhile inToken).length := le_takeWhile hall
  rw [segment, if_pos (by omega)]
  rfl

private theorem drop_eyJ (a rest : List Char) :
    ("eyJ".toList ++ (a ++ rest)).drop (3 + a.length) = rest := by
  rw [← List.append_assoc]
  exact List.drop_left' (by simp; omega)

/-- What is behind two segments: a third one, or nothing of the token. -/
theorem third_segment (rest : List Char) (hstop : rest.head?.any inToken = false) :
    ∃ c after, rest = c ++ after ∧ IsThird c ∧ after.head?.any inToken = false ∧
      (segment rest).getD 0 = c.length := by
  cases hseg : segment rest with
  | none => exact ⟨[], rest, rfl, .inl rfl, hstop, rfl⟩
  | some third =>
    obtain ⟨c, after, rfl, hc, hall, hstop', rfl⟩ := segment_some hseg
    exact ⟨'.' :: c, after, rfl, .inr ⟨c, rfl, hc, hall⟩, hstop', rfl⟩

/-- What the pattern of JWTs matches. -/
theorem jwtPattern_some (h : jwtPattern prev text = some hit) : wordAt prev = false ∧
    ∃ token after, text = token ++ after ∧ IsToken token ∧ after.head?.any inToken = false ∧
      hit = ⟨0, token.length, "[REDACTED_JWT]".toList⟩ := by
  unfold jwtPattern at h
  split at h
  · next hstart =>
    simp only [Bool.and_eq_true, Bool.not_eq_true', beq_iff_eq] at hstart
    obtain ⟨hprev, htake⟩ := hstart
    obtain ⟨a, rest, htext, ha⟩ : ∃ a rest, text = "eyJ".toList ++ (a ++ rest) ∧
        (text.drop 3).takeWhile inToken = a := by
      refine ⟨_, (text.drop 3).dropWhile inToken, ?_, rfl⟩
      rw [← htake, List.takeWhile_append_dropWhile, List.take_append_drop]
    have halla : a.all inToken = true := by
      rw [← ha]
      exact List.all_takeWhile
    rw [ha] at h
    subst htext
    dsimp only at h
    split at h
    · next hfirst =>
      obtain ⟨second, hsecond, rfl⟩ := Option.map_eq_some_iff.mp h
      rw [drop_eyJ] at hsecond
      obtain ⟨b, rest, rfl, hb, hallb, hstop, rfl⟩ := segment_some hsecond
      have hdrop : ("eyJ".toList ++ (a ++ ('.' :: (b ++ rest)))).drop (3 + a.length + (b.length + 1)) =
          rest := by
        rw [← List.drop_drop, drop_eyJ, List.drop_succ_cons, List.drop_left' rfl]
      obtain ⟨c, after, rfl, hc, hstop', hthird⟩ := third_segment rest hstop
      refine ⟨hprev, "eyJ".toList ++ (a ++ ('.' :: (b ++ c))), after, by simp,
        ⟨a, b, c, rfl, hfirst, halla, hb, hallb, hc⟩, hstop', ?_⟩
      rw [hdrop, hthird]
      simp
      omega
    · cases h
  · cases h

/-- Two segments are enough for a match. -/
theorem jwtPattern_isSome {a b rest : List Char} (hprev : wordAt prev = false)
    (ha : 8 ≤ a.length) (halla : a.all inToken = true) (hb : 8 ≤ b.length)
    (hallb : b.all inToken = true) :
    (jwtPattern prev ("eyJ".toList ++ (a ++ ('.' :: (b ++ rest))))).isSome = true := by
  have hrun : (a ++ ('.' :: (b ++ rest))).takeWhile inToken = a := takeWhile_run halla rfl
  have hseg : (segment ('.' :: (b ++ rest))).isSome = true := segment_isSome hb hallb
  have hdrop : ("eyJ".toList ++ (a ++ ('.' :: (b ++ rest)))).drop (3 + a.length) =
      '.' :: (b ++ rest) := by
    rw [← List.append_assoc]
    exact List.drop_left' (by simp; omega)
  have htake : ("eyJ".toList ++ (a ++ ('.' :: (b ++ rest)))).take 3 = "eyJ".toList :=
    List.take_left' rfl
  have hdrop3 : ("eyJ".toList ++ (a ++ ('.' :: (b ++ rest)))).drop 3 = a ++ ('.' :: (b ++ rest)) :=
    List.drop_left' rfl
  unfold jwtPattern
  rw [htake, hdrop3, hrun]
  simp only [hprev, hdrop, ha, Bool.not_false, BEq.rfl, Bool.and_self, if_true, Option.isSome_map,
    hseg]

/-! ### Slack tokens -/

private theorem longestSlack_some {n k : Nat} (h : longestSlack text n = some k) :
    0 < k ∧ k ≤ n ∧ boundary text[k - 1]? text[k]? = true := by
  induction n with
  | zero => cases h
  | succ n ih =>
    unfold longestSlack at h
    split at h
    · next hbound =>
      obtain rfl := Option.some.inj h
      exact ⟨Nat.succ_pos n, Nat.le_refl _, hbound⟩
    · obtain ⟨hpos, hle, hbound⟩ := ih h
      exact ⟨hpos, Nat.le_succ_of_le hle, hbound⟩

private theorem longestSlack_isSome {n k : Nat} (hpos : 0 < k) (hle : k ≤ n)
    (hbound : boundary text[k - 1]? text[k]? = true) : (longestSlack text n).isSome = true := by
  induction n with
  | zero => omega
  | succ n ih =>
    unfold longestSlack
    split
    · rfl
    · next hnot =>
      apply ih
      have hne : k ≠ n + 1 := by
        rintro rfl
        exact hnot hbound
      omega

/-- The letters of a text around a cut. -/
theorem getElem?_cut {run after : List Char} (hpos : run ≠ []) :
    (run ++ after)[run.length - 1]? = run.getLast? ∧ (run ++ after)[run.length]? = after.head? := by
  have hlen := List.length_pos_of_ne_nil hpos
  constructor
  · rw [List.getElem?_append_left (by omega), List.getLast?_eq_getElem?]
  · rw [List.getElem?_append_right (Nat.le_refl _), Nat.sub_self, List.head?_eq_getElem?]

/-- What the pattern of Slack tokens matches. -/
theorem slackPattern_some (h : slackPattern prev text = some hit) : wordAt prev = false ∧
    ∃ token after, text = token ++ after ∧ IsSlack token ∧
      boundary token.getLast? after.head? = true ∧
      hit = ⟨0, token.length, REDACTED.toList⟩ := by
  unfold slackPattern at h
  split at h
  · next c rest hprev =>
    split at h
    · next hc =>
      obtain ⟨n, hn, rfl⟩ := Option.map_eq_some_iff.mp h
      obtain ⟨hpos, hle, hbound⟩ := longestSlack_some hn
      have hlen : (rest.take n).length = n := by
        rw [List.length_take, Nat.min_eq_left]
        exact Nat.le_trans hle (List.takeWhile_prefix _).length_le
      have hne : rest.take n ≠ [] := List.ne_nil_of_length_pos (by omega)
      have hcut := @getElem?_cut (rest.take n) (rest.drop n) hne
      rw [List.take_append_drop, hlen] at hcut
      refine ⟨hprev, ['x', 'o', 'x', c, '-'] ++ rest.take n, rest.drop n, ?_,
        ⟨c, _, rfl, hc, hne, ?_⟩, ?_, ?_⟩
      · simp
      · have htake : rest.take n = (rest.takeWhile inSlack).take n := by
          conv_lhs => rw [← List.takeWhile_append_dropWhile (p := inSlack) (l := rest)]
          exact List.take_append_of_le_length hle
        rw [htake, List.all_eq_true]
        intro d hd
        exact List.mem_takeWhile_imp (List.mem_of_mem_take hd)
      · rw [List.getLast?_append_of_ne_nil _ hne, ← hcut.1, ← hcut.2]
        exact hbound
      · simp [hlen]
    · cases h
  · cases h

/-- A Slack token is matched. -/
theorem slackPattern_isSome {token after : List Char} (hprev : wordAt prev = false)
    (htoken : IsSlack token) (hbound : boundary token.getLast? after.head? = true) :
    (slackPattern prev (token ++ after)).isSome = true := by
  obtain ⟨c, rest, rfl, hc, hpos, hall⟩ := htoken
  rw [List.getLast?_append_of_ne_nil _ hpos] at hbound
  obtain ⟨hlast, hhead⟩ := @getElem?_cut rest after hpos
  rw [← hlast, ← hhead] at hbound
  have hsome := longestSlack_isSome (List.length_pos_of_ne_nil hpos)
    (@le_takeWhile inSlack rest after hall) hbound
  simp [slackPattern, hprev, hc, hsome]

end ChessStack.Log
