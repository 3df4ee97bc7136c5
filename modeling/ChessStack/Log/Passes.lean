import ChessStack.Log.Patterns

/-!
# The passes over a text

Library `Log`. What a pass hides, what the next passes make of its marks, and why no pass brings
forth what an earlier one has removed: a mark is no part of a match, and a letter that stays has
the same kind of letter before it as in the text.
-/

namespace ChessStack.Log

open ChessStack.Library

variable {before before' text hidden after out mark : List Char} {hit : Hit Char}
  {Keep : List Char → List Char → List Char → Prop}
  {Cut : List Char → List Char → List Char → List Char → Prop}

/-! ### What is hidden -/

/-- A key id or a token in a text, and its mark. -/
inductive Token (before hidden after : List Char) : List Char → Prop
  | key (hkey : IsKeyId hidden) (hd : Delimited before hidden after) :
    Token before hidden after "[REDACTED_AWS_KEY]".toList
  | jwt (htoken : IsToken hidden) (hd : Delimited before hidden after) :
    Token before hidden after "[REDACTED_JWT]".toList
  | slack (htoken : IsSlack hidden) (hd : Delimited before hidden after) :
    Token before hidden after REDACTED.toList

/-- What is hidden: the rest of a URL, a key id or a token. -/
inductive Secret (before hidden after : List Char) : List Char → Prop
  | url {text b name : List Char} (hbefore : before = b ++ (name ++ "://".toList))
      (hurl : UrlAt IsName text b name hidden after) : Secret before hidden after REDACTED.toList
  | token {mark : List Char} (htoken : Token before hidden after mark) :
    Secret before hidden after mark

/-- A mark: what stands for a hidden part. -/
def Mark (mark : List Char) : Prop :=
  ∃ w, mark = '[' :: 'R' :: 'E' :: 'D' :: 'A' :: (w ++ [']']) ∧ w.all isWord = true

private theorem mark_redacted : Mark REDACTED.toList := ⟨"CTED".toList, by decide, by decide⟩

private theorem Token.isMark (h : Token before hidden after mark) : Mark mark := by
  cases h with
  | key => exact ⟨"CTED_AWS_KEY".toList, by decide, by decide⟩
  | jwt => exact ⟨"CTED_JWT".toList, by decide, by decide⟩
  | slack => exact mark_redacted

/-- A token is delimited. -/
theorem Token.delimited (h : Token before hidden after mark) : Delimited before hidden after := by
  cases h <;> assumption

/-- The first letter of a key id or a token. -/
def isStart (c : Char) : Bool := c ∈ ['A', 'e', 'x']

/-- A token starts with a letter that tokens start with. -/
theorem Token.start (h : Token before hidden after mark) :
    ∃ c rest, hidden = c :: rest ∧ isStart c = true := by
  cases h with
  | key hkey _ =>
    obtain ⟨k, rfl, -⟩ := hkey
    exact ⟨'A', _, rfl, rfl⟩
  | jwt htoken _ =>
    obtain ⟨a, b, c, rfl, -⟩ := htoken
    exact ⟨'e', _, rfl, rfl⟩
  | slack htoken _ =>
    obtain ⟨c, rest, rfl, -⟩ := htoken
    exact ⟨'x', _, rfl, rfl⟩

/-- Tokens start with word characters, which a URL may hold. -/
theorem isStart_word {c : Char} (h : isStart c = true) : isWord c = true ∧ inUrl c = true := by
  simp only [isStart, List.mem_cons, List.not_mem_nil, or_false, decide_eq_true_eq] at h
  obtain rfl | rfl | rfl := h <;> decide

/-- A secret leaves a mark. -/
theorem Secret.isMark (h : Secret before hidden after mark) : Mark mark := by
  cases h with
  | url _ _ => exact mark_redacted
  | token htoken => exact htoken.isMark

private theorem inUrl_of_isWord {c : Char} (h : isWord c = true) : inUrl c = true := by
  have hnat : (48 ≤ c.toNat ∧ c.toNat ≤ 57) ∨ (65 ≤ c.toNat ∧ c.toNat ≤ 90) ∨
      (97 ≤ c.toNat ∧ c.toNat ≤ 122) ∨ c.toNat = 95 := by
    unfold isWord Char.isAlphanum Char.isAlpha Char.isUpper Char.isLower Char.isDigit at h
    simp only [Bool.or_eq_true, Bool.and_eq_true, decide_eq_true_eq, beq_iff_eq,
      UInt32.le_iff_toNat_le] at h
    obtain ((h | h) | h) | rfl := h
    · exact .inr (.inl h)
    · exact .inr (.inr (.inl h))
    · exact .inl h
    · decide
  simp [inUrl, isSpace]
  omega

private theorem Secret.delimited (h : Secret before hidden after mark) :
    Delimited before hidden after := by
  cases h with
  | token htoken => exact htoken.delimited
  | @url _ b name hbefore hurl =>
    subst hbefore
    refine ⟨?_, fun _ ↦ ?_⟩
    · rw [← List.append_assoc, List.getLast?_append_of_ne_nil _ (by decide)]
      decide
    · have hstop := hurl.stop
      cases after with
      | nil => rfl
      | cons c after =>
        by_contra hword
        have hc : isWord c = true := by simpa [wordAt] using hword
        simp [inUrl_of_isWord hc] at hstop

/-- A secret starts with a character that a URL may hold. -/
theorem Secret.head (h : Secret before hidden after mark) :
    ∃ c rest, hidden = c :: rest ∧ inUrl c = true := by
  cases h with
  | token htoken =>
    obtain ⟨c, rest, rfl, hc⟩ := htoken.start
    exact ⟨c, rest, rfl, (isStart_word hc).2⟩
  | url _ hurl =>
    obtain ⟨c, rest, rfl⟩ := List.exists_cons_of_ne_nil hurl.pos
    exact ⟨c, rest, rfl, List.all_eq_true.mp hurl.run c List.mem_cons_self⟩

/-! ### Positions of the result -/

/-- Letters of the same kind stand before a letter of a word. -/
def Sync (before before' text : List Char) : Prop :=
  wordAt text.head? = true → wordAt before.getLast? = wordAt before'.getLast?

private theorem Mark.last (h : Mark mark) : wordAt mark.getLast? = false := by
  obtain ⟨w, rfl, -⟩ := h
  simp [List.getLast?_cons, wordAt]
  decide

/-- Where a secret gives way to its mark, the texts go on alike. -/
theorem sync_hide (h : Secret before hidden after mark) :
    Sync (before ++ hidden) (before' ++ mark) after := by
  intro hword
  obtain ⟨c, rest, hhidden, -⟩ := h.head
  obtain ⟨w, hmark, -⟩ := h.isMark
  rw [List.getLast?_append_of_ne_nil _ (by simp [hhidden]),
    List.getLast?_append_of_ne_nil _ (by simp [hmark]), h.isMark.last]
  by_contra hlast
  rw [h.delimited.stop (Bool.not_eq_false _ ▸ hlast)] at hword
  cases hword

/-- Where a character stays, the texts go on alike. -/
theorem sync_keep (before before' text : List Char) (c : Char) :
    Sync (before ++ [c]) (before' ++ [c]) text := by
  simp [Sync]

/-- What a pass hides is secret. -/
def Hides (Cut : List Char → List Char → List Char → List Char → Prop) : Prop :=
  ∀ ⦃before hidden after mark⦄, Cut before hidden after mark → Secret before hidden after mark

/-- Secrets can be hidden. -/
theorem hides_secret : Hides Secret := fun _ _ _ _ h ↦ h

private theorem hides_token : Hides Token := fun _ _ _ _ h ↦ .token h

/-- A position of the result of a pass: one of the text, or one inside a mark. -/
theorem position (hsecret : Hides Cut) (h : Cuts Keep Cut [] text [] out) {o₁ o₂ : List Char}
    (hout : out = o₁ ++ o₂) :
    (∃ t₁ t₂, text = t₁ ++ t₂ ∧ Cuts Keep Cut t₁ t₂ o₁ o₂ ∧ Sync t₁ o₁ t₂) ∨
    ∃ m₁ m₂ x o₃, Mark (m₁ ++ m₂) ∧ m₁ ≠ [] ∧ m₂ ≠ [] ∧ o₁ = x ++ m₁ ∧ o₂ = m₂ ++ o₃ := by
  obtain ⟨t₁, t₂, htext, hcuts, hsync⟩ | ⟨b, hidden, a, m₁, m₂, x, o₃, hcut, hm₁, hm₂, ho₁, ho₂⟩ :=
    Cuts.descend (fun b b' c t ↦ sync_keep b b' t c)
      (fun _ _ _ _ _ hcut ↦ sync_hide (hsecret hcut)) h (fun _ ↦ rfl) hout
  · exact .inl ⟨t₁, t₂, htext, by simpa using hcuts, by simpa using hsync⟩
  · exact .inr ⟨m₁, m₂, x, o₃, (hsecret hcut).isMark, hm₁, hm₂, by simpa using ho₁, ho₂⟩

/-- Letters of the result that belong to no mark are letters of the text. -/
theorem kept_prefix (hsecret : Hides Cut) {w : List Char} (hw : '[' ∉ w)
    (h : Cuts Keep Cut before text before' (w ++ out)) :
    ∃ text', text = w ++ text' ∧ Cuts Keep Cut (before ++ w) text' (before' ++ w) out := by
  induction w generalizing before text before' with
  | nil => exact ⟨text, rfl, by simpa using h⟩
  | cons c w ih =>
    obtain ⟨hc, hw⟩ := not_or.mp (mt List.mem_cons.mpr hw)
    generalize hx : c :: w ++ out = x at h
    cases h with
    | nil => cases hx
    | keep hkeep rest =>
      obtain ⟨rfl, rfl⟩ := List.cons.inj hx
      obtain ⟨text', rfl, hcuts⟩ := ih hw rest
      exact ⟨text', rfl, by simpa using hcuts⟩
    | hide hcut _ =>
      obtain ⟨m, rfl, -⟩ := (hsecret hcut).isMark
      exact absurd (List.cons.inj hx).1.symm hc

/-- What comes first in the result and in the text: the same letter, or a mark and a letter of a
URL. -/
theorem head_cases (hsecret : Hides Cut) (h : Cuts Keep Cut before text before' out) :
    out.head? = text.head? ∨ wordAt before.getLast? = false ∧ out.head? = some '[' ∧
      text.head?.any inUrl = true := by
  cases h with
  | nil => exact .inl rfl
  | keep _ _ => exact .inl rfl
  | hide hcut _ =>
    obtain ⟨m, rfl, -⟩ := (hsecret hcut).isMark
    obtain ⟨c, rest, rfl, hc⟩ := (hsecret hcut).head
    exact .inr ⟨(hsecret hcut).delimited.start, rfl, by simpa using hc⟩

/-- No match starts inside a mark. -/
theorem mark_inside {m₁ m₂ : List Char} (hmark : Mark (m₁ ++ m₂)) (hm₁ : m₁ ≠ []) (hm₂ : m₂ ≠ []) :
    wordAt m₁.getLast? = true ∨ ∃ r, m₂ = 'R' :: 'E' :: 'D' :: 'A' :: r := by
  obtain ⟨w, heq, hw⟩ := hmark
  obtain ⟨c, m₁, rfl⟩ := List.exists_cons_of_ne_nil hm₁
  obtain rfl : c = '[' := (List.cons.inj heq).1
  have hbody : m₁ ++ m₂ = 'R' :: 'E' :: 'D' :: 'A' :: (w ++ [']']) := (List.cons.inj heq).2
  by_cases hne : m₁ = []
  · subst hne
    exact .inr ⟨_, hbody⟩
  · left
    -- the letter before the cut is one between the brackets
    have hdrop := congrArg List.dropLast hbody
    rw [List.dropLast_append_of_ne_nil hm₂] at hdrop
    have hinside : m₁ ++ m₂.dropLast = 'R' :: 'E' :: 'D' :: 'A' :: w := by
      rw [hdrop]
      exact @List.dropLast_concat _ ('R' :: 'E' :: 'D' :: 'A' :: w) _
    have hall : ∀ d ∈ m₁, isWord d = true := by
      intro d hd
      have hmem : d ∈ 'R' :: 'E' :: 'D' :: 'A' :: w := by
        rw [← hinside]
        exact List.mem_append_left _ hd
      simp only [List.mem_cons] at hmem
      obtain rfl | rfl | rfl | rfl | hmem := hmem
      · decide
      · decide
      · decide
      · decide
      · exact List.all_eq_true.mp hw d hmem
    rw [← List.singleton_append, List.getLast?_append_of_ne_nil _ hne,
      List.getLast?_eq_some_getLast hne]
    simpa [wordAt] using hall _ (List.getLast_mem hne)

/-! ### Matches of the result are matches of the text -/

/-- A pattern that matches in the result of a pass matches there in the text. -/
def Backward (m : Pattern Char) : Prop :=
  ∀ ⦃Keep Cut before text before' out hit⦄, Hides Cut → Cuts Keep Cut before text before' out →
    Sync before before' text → m before'.getLast? out = some hit →
    out.head? ≠ some '[' ∧ ∃ hit', m before.getLast? text = some hit'

/-- The pattern finds nothing where a word goes on, and nothing that starts like a mark. -/
structure Guarded (m : Pattern Char) : Prop where
  start : ∀ prev text, wordAt prev = true → m prev text = none
  mark : ∀ prev rest, m prev ('R' :: 'E' :: 'D' :: 'A' :: rest) = none
  empty : ∀ prev, m prev [] = none

private theorem Guarded.inside {m : Pattern Char} (hm : Guarded m) {m₁ m₂ x o : List Char}
    (hmark : Mark (m₁ ++ m₂)) (hm₁ : m₁ ≠ []) (hm₂ : m₂ ≠ []) :
    m (x ++ m₁).getLast? (m₂ ++ o) = none := by
  rw [List.getLast?_append_of_ne_nil _ hm₁]
  obtain hword | ⟨r, rfl⟩ := mark_inside hmark hm₁ hm₂
  · exact hm.start _ _ hword
  · exact hm.mark _ _

/-- What was not in the text is not in the result. -/
theorem noMatch_of_backward {m : Pattern Char} (hm : Guarded m) (hback : Backward m)
    (hnone : NoMatch m none text) (hsecret : Hides Cut) (h : Cuts Keep Cut [] text [] out) :
    NoMatch m none out := by
  intro o₁ o₂ hout
  obtain ⟨t₁, t₂, htext, hcuts, hsync⟩ | ⟨m₁, m₂, x, o₃, hmark, hm₁, hm₂, rfl, rfl⟩ :=
    position hsecret h hout
  · by_contra hsome
    obtain ⟨hit, hhit⟩ := Option.ne_none_iff_exists'.mp hsome
    obtain ⟨-, hit', hhit'⟩ := hback hsecret hcuts hsync (by simpa [lastOr] using hhit)
    have := hnone t₁ t₂ htext
    simp [lastOr, hhit'] at this
  · simpa [lastOr] using hm.inside hmark hm₁ hm₂

private theorem shown_here {m : Pattern Char} (hm : Guarded m) (hsecret : Hides Cut)
    (h : Cuts (Shown m) Cut before text before' out) (hhead : out.head? ≠ some '[') :
    Shown m before text out := by
  cases h with
  | nil =>
    intro hit hhit
    rw [hm.empty] at hhit
    cases hhit
  | keep hshown _ => exact hshown
  | hide hcut _ =>
    obtain ⟨w, rfl, -⟩ := (hsecret hcut).isMark
    exact absurd rfl hhead

/-- A pass leaves no match of its own pattern, if that keeps nothing of a match. -/
theorem noMatch_of_shown {m : Pattern Char} (hm : Guarded m) (hback : Backward m)
    (hkept : ∀ {before text : List Char} {hit}, m before.getLast? text = some hit →
      hit.kept = 0 ∧ Mark hit.mark)
    (hsecret : Hides Cut) (h : Cuts (Shown m) Cut [] text [] out) : NoMatch m none out := by
  intro o₁ o₂ hout
  obtain ⟨t₁, t₂, htext, hcuts, hsync⟩ | ⟨m₁, m₂, x, o₃, hmark, hm₁, hm₂, rfl, rfl⟩ :=
    position hsecret h hout
  · by_contra hsome
    obtain ⟨hit, hhit⟩ := Option.ne_none_iff_exists'.mp hsome
    obtain ⟨hhead, hit', hhit'⟩ := hback hsecret hcuts hsync (by simpa [lastOr] using hhit)
    obtain ⟨hzero, w, hmark, -⟩ := hkept hhit'
    obtain ⟨tail, hout', -⟩ := shown_here hm hsecret hcuts hhead hit' hhit'
    apply hhead
    rw [hout', hzero, hmark]
    rfl
  · simpa [lastOr] using hm.inside hmark hm₁ hm₂

/-! ### The token patterns -/

/-- No bracket is in a key id. -/
theorem keyId_not_mem {id : List Char} (h : IsKeyId id) : '[' ∉ id := by
  obtain ⟨k, rfl, -, hall⟩ := h
  intro hmem
  obtain hmem | hmem := List.mem_append.mp hmem
  · revert hmem
    decide
  · exact absurd (List.all_eq_true.mp hall _ hmem) (by decide)

/-- No bracket is in a Slack token. -/
theorem slack_not_mem {token : List Char} (h : IsSlack token) : '[' ∉ token := by
  obtain ⟨c, rest, rfl, hc, -, hall⟩ := h
  intro hmem
  obtain hmem | hmem := List.mem_append.mp hmem
  · simp only [List.mem_cons, List.not_mem_nil, or_false] at hc hmem
    obtain rfl | rfl | rfl | rfl | rfl := hc <;> revert hmem <;> decide
  · exact absurd (List.all_eq_true.mp hall _ hmem) (by decide)

/-- No bracket is in the first two segments of a JWT. -/
theorem segments_not_mem {a b : List Char} (ha : a.all inToken = true) (hb : b.all inToken = true) :
    '[' ∉ "eyJ".toList ++ (a ++ ('.' :: b)) := by
  have hnot : ∀ {s : List Char}, s.all inToken = true → '[' ∉ s := fun hs hmem ↦
    absurd (List.all_eq_true.mp hs _ hmem) (by decide)
  simp [hnot ha, hnot hb]

private theorem guarded_keyId : Guarded keyIdPattern where
  start prev text h := by simp [keyIdPattern, h]
  mark prev rest := by simp [keyIdPattern]
  empty prev := by simp [keyIdPattern]

private theorem guarded_jwt : Guarded jwtPattern where
  start prev text h := by simp [jwtPattern, h]
  mark prev rest := by simp [jwtPattern]
  empty prev := by simp [jwtPattern]

private theorem guarded_slack : Guarded slackPattern where
  start prev text h := by simp [slackPattern, h]
  mark prev rest := by simp [slackPattern]
  empty prev := by simp [slackPattern]

private theorem guarded_url : Guarded urlPattern where
  start prev text h := by simp [urlPattern, h]
  mark prev rest := by simp [urlPattern, schemes, startsScheme]
  empty prev := by simp [urlPattern, schemes, startsScheme]

/-- The letter before a match in the result is of the same kind in the text. -/
theorem Sync.start (h : Sync before before' text) {c : Char} (hhead : text.head? = some c)
    (hc : isWord c = true) (hstart : wordAt before'.getLast? = false) :
    wordAt before.getLast? = false := by
  rw [h (by simpa [hhead, wordAt] using hc)]
  exact hstart

private theorem isWord_of_inKeyId {c : Char} (h : inKeyId c = true) : isWord c = true := by
  simp only [inKeyId, Bool.or_eq_true] at h
  unfold isWord Char.isAlphanum Char.isAlpha
  simp only [Bool.or_eq_true]
  obtain h | h := h
  · exact .inl (.inr h)
  · exact .inl (.inl (.inl h))

/-- A key id ends in a word character. -/
theorem keyId_last {id : List Char} (h : IsKeyId id) : wordAt id.getLast? = true := by
  obtain ⟨k, rfl, hlen, hall⟩ := h
  have hne : k ≠ [] := List.ne_nil_of_length_pos (by omega)
  rw [List.getLast?_append_of_ne_nil _ hne, List.getLast?_eq_some_getLast hne]
  simpa [wordAt] using isWord_of_inKeyId (List.all_eq_true.mp hall _ (List.getLast_mem hne))

private theorem backward_keyId : Backward keyIdPattern := by
  intro Keep Cut before text before' out hit hsecret hcuts hsync hhit
  obtain ⟨hstart, id, after, rfl, hid, hstop, -⟩ := keyIdPattern_iff.mp hhit
  obtain ⟨text', rfl, hrest⟩ := kept_prefix hsecret (keyId_not_mem hid) hcuts
  have hhead : ∀ rest, (id ++ rest).head? = some 'A' := by
    obtain ⟨k, rfl, -⟩ := hid
    exact fun _ ↦ rfl
  refine ⟨by rw [hhead]; decide, _, keyIdPattern_iff.mpr
    ⟨hsync.start (hhead text') (by decide) hstart, id, text', rfl, hid, ?_, rfl⟩⟩
  obtain heq | ⟨hlast, -⟩ := head_cases hsecret hrest
  · rwa [← heq]
  · rw [List.getLast?_append_of_ne_nil _ (List.ne_nil_of_length_pos (by simp [hid.length])),
      keyId_last hid] at hlast
    cases hlast

private theorem backward_jwt : Backward jwtPattern := by
  intro Keep Cut before text before' out hit hsecret hcuts hsync hhit
  obtain ⟨hstart, token, after, rfl, ⟨a, b, c, rfl, ha, halla, hb, hallb, -⟩, -, -⟩ :=
    jwtPattern_some hhit
  -- the two segments are enough
  have hout : "eyJ".toList ++ (a ++ ('.' :: (b ++ c))) ++ after =
      "eyJ".toList ++ (a ++ ('.' :: b)) ++ (c ++ after) := by simp
  rw [hout] at hcuts ⊢
  obtain ⟨text', rfl, -⟩ := kept_prefix hsecret (segments_not_mem halla hallb) hcuts
  have htext : "eyJ".toList ++ (a ++ ('.' :: b)) ++ text' =
      "eyJ".toList ++ (a ++ ('.' :: (b ++ text'))) := by simp
  refine ⟨fun h ↦ absurd (Option.some.inj h) (by decide), Option.isSome_iff_exists.mp ?_⟩
  rw [htext]
  exact jwtPattern_isSome (hsync.start rfl (by decide) hstart) ha halla hb hallb

private theorem backward_slack : Backward slackPattern := by
  intro Keep Cut before text before' out hit hsecret hcuts hsync hhit
  obtain ⟨hstart, token, after, rfl, htoken, hbound, -⟩ := slackPattern_some hhit
  obtain ⟨text', rfl, hrest⟩ := kept_prefix hsecret (slack_not_mem htoken) hcuts
  have hne : token ≠ [] := by
    obtain ⟨c, rest, rfl, -⟩ := htoken
    exact List.cons_ne_nil _ _
  have hhead : ∀ rest, (token ++ rest).head? = some 'x' := by
    obtain ⟨c, rest, rfl, -⟩ := htoken
    exact fun _ ↦ rfl
  refine ⟨by rw [hhead]; decide, Option.isSome_iff_exists.mp ?_⟩
  refine slackPattern_isSome (hsync.start (hhead text') (by decide) hstart) htoken ?_
  obtain heq | ⟨hlast, hmark, -⟩ := head_cases hsecret hrest
  · rwa [← heq]
  · rw [List.getLast?_append_of_ne_nil _ hne] at hlast
    rw [hmark, boundary, hlast] at hbound
    exact absurd hbound (by decide)

/-! ### What each pass hides -/

private theorem tidy_of_token {m : Pattern Char}
    (hm : ∀ {before text hit}, m before.getLast? text = some hit → ∃ token after,
      text = token ++ after ∧ hit = ⟨0, token.length, hit.mark⟩ ∧
      Token before token after hit.mark) : Tidy m Token where
  cut hhit := by
    obtain ⟨token, after, rfl, heq, htoken⟩ := hm hhit
    obtain ⟨c, rest, hc, -⟩ := htoken.start
    refine ⟨[], token, after, rfl, by simp [hc], heq, by simpa using htoken, ?_⟩
    intro a₁ a₂ ha hne
    exact absurd (List.append_eq_nil_iff.mp ha.symm).1 hne

private theorem keyIdPattern_token (h : keyIdPattern before.getLast? text = some hit) :
    ∃ token after, text = token ++ after ∧ hit = ⟨0, token.length, hit.mark⟩ ∧
      Token before token after hit.mark := by
  obtain ⟨hstart, id, after, rfl, hid, hstop, rfl⟩ := keyIdPattern_iff.mp h
  exact ⟨id, after, rfl, rfl, .key hid ⟨hstart, fun _ ↦ hstop⟩⟩

private theorem jwtPattern_token (h : jwtPattern before.getLast? text = some hit) :
    ∃ token after, text = token ++ after ∧ hit = ⟨0, token.length, hit.mark⟩ ∧
      Token before token after hit.mark := by
  obtain ⟨hstart, token, after, rfl, htoken, hstop, rfl⟩ := jwtPattern_some h
  refine ⟨token, after, rfl, rfl, .jwt htoken ⟨hstart, fun _ ↦ ?_⟩⟩
  cases after with
  | nil => rfl
  | cons c after =>
    simp only [List.head?_cons, Option.any_some, inToken, Bool.or_eq_false_iff] at hstop
    exact hstop.1

private theorem slackPattern_token (h : slackPattern before.getLast? text = some hit) :
    ∃ token after, text = token ++ after ∧ hit = ⟨0, token.length, hit.mark⟩ ∧
      Token before token after hit.mark := by
  obtain ⟨hstart, token, after, rfl, htoken, hbound, rfl⟩ := slackPattern_some h
  refine ⟨token, after, rfl, rfl, .slack htoken ⟨hstart, fun hlast ↦ ?_⟩⟩
  rw [boundary, hlast] at hbound
  cases hnext : wordAt after.head? with
  | false => rfl
  | true =>
    rw [hnext] at hbound
    cases hbound

/-- A token pattern, one of the three. -/
structure TokenPattern (m : Pattern Char) : Prop where
  guarded : Guarded m
  backward : Backward m
  token : ∀ {before text hit}, m before.getLast? text = some hit → ∃ token after,
    text = token ++ after ∧ hit = ⟨0, token.length, hit.mark⟩ ∧ Token before token after hit.mark

/-- The pattern of key ids cuts tokens. -/
theorem tokenPattern_keyId : TokenPattern keyIdPattern :=
  ⟨guarded_keyId, backward_keyId, keyIdPattern_token⟩

/-- The pattern of JWTs cuts tokens. -/
theorem tokenPattern_jwt : TokenPattern jwtPattern :=
  ⟨guarded_jwt, backward_jwt, jwtPattern_token⟩

/-- The pattern of Slack tokens cuts tokens. -/
theorem tokenPattern_slack : TokenPattern slackPattern :=
  ⟨guarded_slack, backward_slack, slackPattern_token⟩

namespace TokenPattern

variable {m p : Pattern Char}

/-- A pass of a token pattern cuts tokens and keeps the rest. -/
theorem cuts (hm : TokenPattern m) (text : List Char) :
    Cuts (Shown m) Token [] text [] (replaceAll m none 0 text) :=
  cuts_replaceAll (tidy_of_token hm.token) text [] []

/-- After its pass a pattern matches nothing. -/
theorem noMatch_self (hm : TokenPattern m) (text : List Char) :
    NoMatch m none (replaceAll m none 0 text) := by
  refine noMatch_of_shown hm.guarded hm.backward ?_ hides_token (hm.cuts text)
  intro before text hit hhit
  obtain ⟨token, after, -, heq, htoken⟩ := hm.token hhit
  exact ⟨by rw [heq], htoken.isMark⟩

/-- The pass of another pattern makes no new match. -/
theorem noMatch_of (hm : TokenPattern m) (hp : TokenPattern p) (h : NoMatch p none text) :
    NoMatch p none (replaceAll m none 0 text) :=
  noMatch_of_backward hp.guarded hp.backward h hides_token (hm.cuts text)

end TokenPattern

/-! ### The rest of a URL -/

private theorem toLower_cases (c : Char) : isWord c = true ∨ c.toLower = c := by
  unfold Char.toLower
  split
  · next hupper =>
    have hc : c.isUpper = true := by
      unfold Char.isUpper
      simp only [decide_eq_true_eq]
      exact hupper
    left
    unfold isWord Char.isAlphanum Char.isAlpha
    simp [hc]
  · exact .inr rfl

private theorem isWord_of_toLower {c : Char} (h : isWord c.toLower = true) : isWord c = true := by
  obtain hword | heq := toLower_cases c
  · exact hword
  · rwa [heq] at h

private theorem inUrl_of_toLower {c : Char} (h : inUrl c.toLower = true) : inUrl c = true := by
  obtain hword | heq := toLower_cases c
  · exact inUrl_of_isWord hword
  · rwa [heq] at h

private theorem wordAt_of_toLower {c : Option Char} (h : wordAt (c.map Char.toLower) = true) :
    wordAt c = true := by
  cases c with
  | none => exact h
  | some c => exact isWord_of_toLower h

/-- The first letter of a scheme. -/
def startsName (c : Char) : Bool := c.toLower ∈ ['p', 'm', 'r']

/-- A scheme name starts with a letter. -/
theorem IsName.head {name : List Char} (h : IsName name) :
    ∃ c rest, name = c :: rest ∧ startsName c = true ∧ isWord c = true := by
  have hfirst : ∀ scheme ∈ schemes, ∃ c rest, scheme = c :: rest ∧ c ∈ ['p', 'm', 'r'] ∧
      isWord c = true := by
    intro scheme hscheme
    simp only [schemes, List.map_cons, List.map_nil, List.mem_cons, List.not_mem_nil, or_false]
      at hscheme
    obtain rfl | rfl | rfl | rfl | rfl | rfl | rfl := hscheme
    all_goals exact ⟨_, _, rfl, by decide, by decide⟩
  obtain ⟨c', rest', heq, hc, hword⟩ := hfirst _ h
  cases name with
  | nil => cases heq
  | cons c rest =>
    obtain ⟨hlower, -⟩ := List.cons.inj heq
    refine ⟨c, rest, rfl, ?_, isWord_of_toLower (by rwa [hlower])⟩
    simpa [startsName, hlower] using hc

/-- No scheme starts inside another one or in the mark behind it. -/
theorem name_inside {name a₁ a₂ : List Char} {c : Char} (h : IsName name)
    (heq : name ++ "://".toList = a₁ ++ c :: a₂) (hne : a₁ ≠ []) :
    wordAt a₁.getLast? = true ∨ startsName c = false := by
  have hall : ∀ scheme ∈ schemes, ∀ n < (scheme ++ "://".toList).length, 0 < n →
      wordAt ((scheme ++ "://".toList).take n).getLast? = true ∨
        ((scheme ++ "://".toList)[n]?).any (· ∈ ['p', 'm', 'r']) = false := by
    decide +kernel
  have hlower : name.map Char.toLower ++ "://".toList =
      a₁.map Char.toLower ++ c.toLower :: a₂.map Char.toLower := by
    have hmap := congrArg (List.map Char.toLower) heq
    simpa using hmap
  have hcut := hall _ h a₁.length (by rw [hlower]; simp) (List.length_pos_of_ne_nil hne)
  rw [hlower, List.take_left' (by simp), List.getElem?_append_right (by simp)] at hcut
  obtain hword | hnot := hcut
  · left
    apply wordAt_of_toLower
    rwa [← List.getLast?_map]
  · right
    simpa [startsName] using hnot

private theorem urlPattern_none {prev : Option Char}
    (h : wordAt prev = true ∨ text.head?.any startsName = false) : urlPattern prev text = none := by
  by_contra hsome
  obtain ⟨hit, hhit⟩ := Option.ne_none_iff_exists'.mp hsome
  obtain ⟨hstart, name, rest, after, rfl, hname, -⟩ := urlPattern_iff.mp hhit
  obtain ⟨c, name, rfl, hc, -⟩ := hname.head
  simp [hstart, hc] at h

/-- The pattern of URLs is tidy. -/
theorem tidy_url : Tidy urlPattern Secret where
  cut hhit := by
    obtain ⟨hstart, name, rest, after, rfl, hname, hpos, hrun, hstop, rfl⟩ := urlPattern_iff.mp hhit
    refine ⟨name ++ "://".toList, rest, after, by simp, hpos, by simp,
      .url rfl ⟨rfl, hstart, hname, hpos, hrun, hstop⟩, ?_⟩
    intro a₁ a₂ heq hne₁ hne₂
    obtain ⟨c, a₂, rfl⟩ := List.exists_cons_of_ne_nil hne₂
    apply urlPattern_none
    rw [List.getLast?_append_of_ne_nil _ hne₁]
    exact (name_inside hname heq hne₁).imp_right fun hc ↦ by simpa using hc

private theorem startsName_word {c : Char} (h : startsName c = true) : inUrl c = true := by
  apply inUrl_of_isWord
  apply isWord_of_toLower
  simp only [startsName, List.mem_cons, List.not_mem_nil, or_false, decide_eq_true_eq] at h
  obtain h | h | h := h <;> rw [h] <;> decide

/-- No URL starts where no character of a URL is. -/
theorem urlPattern_stop {after : List Char} (h : after.head?.any inUrl = false)
    (prev : Option Char) : urlPattern prev after = none := by
  apply urlPattern_none
  right
  cases after with
  | nil => rfl
  | cons c after =>
    by_contra hc
    have hstart : startsName c = true := by simpa using hc
    simp [startsName_word hstart] at h

/-- A scheme and its separator are characters of a URL. -/
theorem IsName.run {name : List Char} (h : IsName name) :
    (name ++ "://".toList).all inUrl = true := by
  rw [List.all_append, List.all_eq_true.mpr fun c hc ↦
    inUrl_of_toLower (h.lower (P := fun c ↦ inUrl c = true) (by decide) c hc)]
  decide

private theorem name_not_mem {name : List Char} (h : IsName name) : '[' ∉ name ++ "://".toList := by
  intro hmem
  obtain hmem | hmem := List.mem_append.mp hmem
  · have hne := h.lower (P := (· ≠ '[')) (by decide) '[' hmem
    exact hne rfl
  · revert hmem
    decide

/-- A URL in the result of a pass is one of the text, up to its rest. -/
theorem backward_url (hsecret : Hides Cut) (hcuts : Cuts Keep Cut before text before' out)
    (hsync : Sync before before' text) (hhit : urlPattern before'.getLast? out = some hit) :
    ∃ name rest after rest₀ after₀, out = name ++ ("://".toList ++ (rest ++ after)) ∧
      IsName name ∧ hit = ⟨name.length + 3, rest.length, REDACTED.toList⟩ ∧
      rest.all inUrl = true ∧ after.head?.any inUrl = false ∧
      text = name ++ ("://".toList ++ (rest₀ ++ after₀)) ∧ after₀.head?.any inUrl = false ∧
      urlPattern before.getLast? text =
        some ⟨name.length + 3, rest₀.length, REDACTED.toList⟩ ∧
      Cuts Keep Cut (before ++ (name ++ "://".toList)) (rest₀ ++ after₀)
        (before' ++ (name ++ "://".toList)) (rest ++ after) := by
  obtain ⟨hstart, name, rest, after, rfl, hname, hpos, hrun, hstop, rfl⟩ := urlPattern_iff.mp hhit
  rw [← List.append_assoc] at hcuts
  obtain ⟨text', rfl, hrest⟩ := kept_prefix hsecret (name_not_mem hname) hcuts
  have hhead : text'.head?.any inUrl = true := by
    obtain heq | ⟨-, -, hany⟩ := head_cases hsecret hrest
    · rw [← heq]
      exact head?_any_append hpos hrun
    · exact hany
  have hpos₀ : text'.takeWhile inUrl ≠ [] := by
    cases text' with
    | nil => cases hhead
    | cons c text' => simp_all
  have hstop₀ := head?_dropWhile_any inUrl text'
  have hrun₀ : (text'.takeWhile inUrl).all inUrl = true := List.all_takeWhile
  have hsplit : text' = text'.takeWhile inUrl ++ text'.dropWhile inUrl :=
    List.takeWhile_append_dropWhile.symm
  generalize text'.takeWhile inUrl = rest₀ at *
  generalize text'.dropWhile inUrl = after₀ at *
  subst hsplit
  refine ⟨name, rest, after, rest₀, after₀, rfl, hname, rfl, hrun, hstop, by simp, hstop₀, ?_,
    hrest⟩
  obtain ⟨c, name', hc, -, hword⟩ := hname.head
  refine urlPattern_iff.mpr ⟨hsync.start (c := c) (by simp [hc]) hword hstart, name, rest₀, after₀,
    by simp, hname, hpos₀, hrun₀, hstop₀, rfl⟩

private theorem rest_redacted {rest after tail : List Char} (hrun : rest.all inUrl = true)
    (hstop : after.head?.any inUrl = false) (heq : rest ++ after = REDACTED.toList ++ tail)
    (htail : tail.head?.any inUrl = false) : rest = REDACTED.toList := by
  rw [← takeWhile_run hrun hstop, heq]
  exact takeWhile_run (by decide) htail

/-- The scheme of a URL. -/
theorem take_name (name rest : List Char) :
    (name ++ ("://".toList ++ rest)).take (name.length + 3) = name ++ "://".toList := by
  rw [← List.append_assoc, List.take_left' (by simp)]

/-- The scheme of a URL, and what follows it. -/
theorem split_url (name rest after : List Char) :
    (name ++ ("://".toList ++ (rest ++ after))).take (name.length + 3 + rest.length) =
      name ++ "://".toList ++ rest ∧
    (name ++ ("://".toList ++ (rest ++ after))).drop (name.length + 3 + rest.length) = after := by
  have hlen : (name ++ "://".toList ++ rest).length = name.length + 3 + rest.length := by
    simp
    omega
  rw [← List.append_assoc, ← List.append_assoc]
  exact ⟨List.take_left' hlen, List.drop_left' hlen⟩

private theorem settled_url {text : List Char}
    (h : ∀ before after hit, text = before ++ after → urlPattern before.getLast? after = some hit →
      ∃ name rest, after = name ++ ("://".toList ++ (REDACTED.toList ++ rest)) ∧
        hit = ⟨name.length + 3, REDACTED.toList.length, REDACTED.toList⟩) :
    Settled urlPattern none text := by
  intro before after hit htext hhit
  obtain ⟨name, rest, rfl, rfl⟩ := h before after hit htext (by simpa [lastOr] using hhit)
  refine ⟨Nat.succ_pos _, ?_⟩
  rw [(split_url name REDACTED.toList rest).1, take_name]

/-- The URL pass leaves `[REDACTED]` for the rest of every URL. -/
theorem settled_url_self (text : List Char) :
    Settled urlPattern none (replaceAll urlPattern none 0 text) := by
  apply settled_url
  intro o₁ o₂ hit hout hhit
  obtain ⟨t₁, t₂, -, hcuts, hsync⟩ | ⟨m₁, m₂, x, o₃, hmark, hm₁, hm₂, rfl, rfl⟩ :=
    position hides_secret (cuts_replaceAll tidy_url text [] []) hout
  · obtain ⟨name, rest, after, rest₀, after₀, rfl, hname, rfl, hrun, hstop, rfl, hstop₀, hhit₀, -⟩ :=
      backward_url hides_secret hcuts hsync hhit
    have hhead : (name ++ ("://".toList ++ (rest ++ after))).head? ≠ some '[' := by
      obtain ⟨c, name', rfl, -, hword⟩ := hname.head
      rintro h
      obtain rfl := Option.some.inj h
      exact absurd hword (by decide)
    obtain ⟨tail, hout', htail⟩ := shown_here guarded_url hides_secret hcuts hhead _ hhit₀
    rw [take_name, List.append_assoc, List.append_cancel_left_eq, List.append_cancel_left_eq] at hout'
    have htail' := htail fun prev ↦ by
      rw [(split_url name rest₀ after₀).2]
      exact urlPattern_stop hstop₀ prev
    rw [(split_url name rest₀ after₀).2] at htail'
    obtain rfl := rest_redacted hrun hstop hout' (by rw [htail']; exact hstop₀)
    exact ⟨name, after, rfl, rfl⟩
  · rw [guarded_url.inside hmark hm₁ hm₂] at hhit
    cases hhit

/-- Letters among which no key id and no token starts stay as they are. -/
theorem kept_run {w : List Char}
    (hw : ∀ w₁ c w₂, w = w₁ ++ c :: w₂ → isStart c = true → wordAt (before ++ w₁).getLast? = true)
    (h : Cuts Keep Token before (w ++ text) before' out) :
    ∃ out', out = w ++ out' ∧ Cuts Keep Token (before ++ w) text (before' ++ w) out' := by
  induction w generalizing before before' out with
  | nil => exact ⟨out, rfl, by simpa using h⟩
  | cons c w ih =>
    generalize hx : c :: w ++ text = x at h
    cases h with
    | nil => cases hx
    | keep _ rest =>
      obtain ⟨rfl, rfl⟩ := List.cons.inj hx
      obtain ⟨out', rfl, hcuts⟩ := ih (fun w₁ d w₂ heq hd ↦ by
        simpa using hw (c :: w₁) d w₂ (by rw [heq, List.cons_append]) hd) rest
      exact ⟨out', rfl, by simpa using hcuts⟩
    | hide hcut _ =>
      obtain ⟨d, hidden, rfl, hd⟩ := hcut.start
      obtain ⟨rfl, -⟩ := List.cons.inj hx
      have hword := hw [] c w rfl hd
      rw [List.append_nil, hcut.delimited.start] at hword
      cases hword

/-- A mark is kept by the passes that follow. -/
theorem kept_mark (hmark : Mark mark) (h : Cuts Keep Token before (mark ++ text) before' out) :
    ∃ out', out = mark ++ out' ∧ Cuts Keep Token (before ++ mark) text (before' ++ mark) out' := by
  refine kept_run (fun w₁ c w₂ heq hc ↦ ?_) h
  by_cases hne : w₁ = []
  · subst hne
    obtain ⟨w, hw, -⟩ := hmark
    rw [hw] at heq
    obtain rfl := (List.cons.inj heq).1
    exact absurd hc (by decide)
  · rw [List.getLast?_append_of_ne_nil _ hne]
    rw [heq] at hmark
    obtain hword | ⟨r, hr⟩ := mark_inside hmark hne (List.cons_ne_nil c w₂)
    · exact hword
    · obtain rfl := (List.cons.inj hr).1
      exact absurd hc (by decide)

/-- The other passes leave it. -/
theorem TokenPattern.settled_url {m : Pattern Char} (hm : TokenPattern m)
    (h : Settled urlPattern none text) :
    Settled urlPattern none (replaceAll m none 0 text) := by
  apply ChessStack.Log.settled_url
  intro o₁ o₂ hit hout hhit
  obtain ⟨t₁, t₂, htext, hcuts, hsync⟩ | ⟨m₁, m₂, x, o₃, hmark, hm₁, hm₂, rfl, rfl⟩ :=
    position hides_token (hm.cuts text) hout
  · obtain ⟨name, rest, after, rest₀, after₀, rfl, hname, rfl, hrun, hstop, rfl, hstop₀, hhit₀,
      hrest⟩ := backward_url hides_token hcuts hsync hhit
    obtain ⟨-, hsettled⟩ := h t₁ _ _ htext (by simpa [lastOr] using hhit₀)
    rw [(split_url name rest₀ after₀).1, take_name, List.append_cancel_left_eq] at hsettled
    have hrest₀ : rest₀ = REDACTED.toList := hsettled
    rw [hrest₀] at hrest
    obtain ⟨tail, heq, htail⟩ := kept_mark mark_redacted hrest
    have hnone : tail.head?.any inUrl = false := by
      obtain hhead | ⟨-, -, hany⟩ := head_cases hides_token htail
      · rwa [hhead]
      · rw [hstop₀] at hany
        cases hany
    obtain rfl := rest_redacted hrun hstop heq hnone
    exact ⟨name, after, rfl, rfl⟩
  · rw [guarded_url.inside hmark hm₁ hm₂] at hhit
    cases hhit

end ChessStack.Log
