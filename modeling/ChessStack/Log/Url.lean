import ChessStack.Log.Patterns
import ChessStack.Log.Redact
import Mathlib.Data.List.Infix

/-!
# URLs in the access log

Library `Log`. `sanitizeUrl` of `Chess-Backend/src/config/logSanitize.js`: tokens are replaced
everywhere, and the values of the query parameters with a sensitive name. The names are compared as
they stand in the URL, up to the first `=`; the query parser of the server, which is not code of
this repository, has its own rule where a name ends, and reads it percent-decoded.
-/

namespace ChessStack.Log

open ChessStack.Library

/-! ### The code -/

/-- `/eyJ[A-Za-z0-9_-]{8,}\.[A-Za-z0-9_-]{8,}(\.[A-Za-z0-9_-]{8,})?/g`, anywhere in a word. -/
def urlToken : Pattern Char := fun _ text ↦ jwtPattern none text

/-- `withJwtScrubbed`, `logSanitize.js:61–64`. -/
def scrubTokens (text : List Char) : List Char := replaceAll urlToken none 0 text

/-- `SENSITIVE_QUERY_KEY_RE.test(key)`, `logSanitize.js:26`. -/
def sensitiveQueryKey (key : List Char) : Bool :=
  ["token", "code", "secret", "password", "passwd", "key", "auth", "session", "jwt", "email"].any
    fun word ↦ occursIn word.toList (key.map Char.toLower)

/-- The name of a query parameter, as the code takes it from the URL. -/
def keyOf (pair : List Char) : List Char := pair.takeWhile (· != '=')

/-- The pair that takes the place of a sensitive one. -/
def redactedPair (key : List Char) : List Char := key ++ '=' :: REDACTED.toList

/-- What becomes of a parameter, `logSanitize.js:68–73`. -/
def scrubPair (pair : List Char) : List Char :=
  if sensitiveQueryKey (keyOf pair) then redactedPair (keyOf pair) else pair

/-- `sanitizeUrl` of the letters of a URL. -/
def sanitizeText (rawUrl : List Char) : List Char :=
  let withJwtScrubbed := scrubTokens rawUrl
  match withJwtScrubbed.dropWhile (· != '?') with
  | [] => withJwtScrubbed
  | _ :: query => withJwtScrubbed.takeWhile (· != '?') ++
      '?' :: ['&'].intercalate ((query.splitOn '&').map scrubPair)

/-- `sanitizeUrl`, `logSanitize.js:58–78`. -/
def sanitizeUrl (rawUrl : String) : String := String.ofList (sanitizeText rawUrl.toList)

example : sanitizeUrl "/api/x?token=abc123&page=2" = "/api/x?token=[REDACTED]&page=2" := by
  decide +kernel

/-! ### What the query parser reads -/

/-- The path of a URL. -/
def pathOf (url : List Char) : List Char := url.takeWhile (· != '?')

/-- The query parameters of a URL that has a query, each as it is written. -/
def pairsOf (url : List Char) : Option (List (List Char)) :=
  match url.dropWhile (· != '?') with
  | [] => none
  | _ :: query => some (query.splitOn '&')

/-- The query parser of the server, as far as the names of the parameters go. -/
structure QueryParser where
  /-- The name of a parameter as it is written: the part of the parameter that is not its value. -/
  nameOf : List Char → List Char
  /-- What the parser reads for a name that is written so. -/
  decode : List Char → List Char

/-- A parameter is a name alone, or a name and a value behind an `=`. -/
def CutAt (name pair : List Char) : Prop := pair = name ∨ ∃ value, pair = name ++ '=' :: value

/-- What a query parser documents of the names: a parameter without `=` is a name, any other is cut
at one `=` of it. Which one that is, and how a name is decoded, is left to the parser. -/
structure QueryParser.Documented (parser : QueryParser) : Prop where
  bare : ∀ pair, '=' ∉ pair → parser.nameOf pair = pair
  cut : ∀ pair, '=' ∈ pair → ∃ value, pair = parser.nameOf pair ++ '=' :: value

variable {parser : QueryParser}

/-- What is to become of a parameter: one whose name is sensitive as the parser reads it loses its
value, from any other only tokens go. -/
def cleanPair (parser : QueryParser) (pair : List Char) : List Char :=
  if sensitiveQueryKey (parser.decode (parser.nameOf pair)) then
    redactedPair (scrubTokens (parser.nameOf pair))
  else scrubTokens pair

/-- What is to become of a URL: tokens go from the path, and each parameter is cleaned in its
place. -/
structure Sanitized (parser : QueryParser) (url out : List Char) : Prop where
  path : pathOf out = scrubTokens (pathOf url)
  pairs : pairsOf out = (pairsOf url).map (·.map (cleanPair parser))

/-! ### Tokens of a URL -/

variable {s : Char} {a b text key pair : List Char}

/-- A letter that ends a token. -/
def Separator (s : Char) : Prop := inToken s = false ∧ s ≠ '.'

private theorem takeWhile_stop {p : Char → Bool} (hs : p s = false) (a b : List Char) :
    (a ++ s :: b).takeWhile p = a.takeWhile p := by
  induction a with
  | nil => simp [hs]
  | cons c a ih =>
    rw [List.cons_append, List.takeWhile_cons, List.takeWhile_cons, ih]

private theorem segment_stop (hs : Separator s) (a b : List Char) : segment
    (a ++ s :: b) = segment a := by
  cases a with
  | nil =>
    rw [List.nil_append, segment, segment]
    · intro rest heq
      cases heq
    · rintro rest heq
      exact hs.2 (List.cons.inj heq).1
  | cons c a =>
    by_cases hc : c = '.'
    · subst hc
      simp only [List.cons_append, segment, takeWhile_stop hs.1]
    · rw [List.cons_append, segment, segment]
      · rintro rest heq
        exact hc (List.cons.inj heq).1
      · rintro rest heq
        exact hc (List.cons.inj heq).1

private theorem segment_le {n : Nat} (h : segment text = some n) : n ≤ text.length := by
  obtain ⟨b, rest, rfl, -, -, -, rfl⟩ := segment_some h
  simp only [List.length_cons, List.length_append]
  omega

private theorem take_eyJ_stop (hs : Separator s) (a b : List Char) :
    ((a ++ s :: b).take 3 == "eyJ".toList) = (a.take 3 == "eyJ".toList) := by
  by_cases hlen : 3 ≤ a.length
  · rw [List.take_append_of_le_length hlen]
  · have hleft : (a.take 3 == "eyJ".toList) = false := by
      rw [beq_eq_false_iff_ne]
      intro heq
      have := congrArg List.length heq
      simp at this
      omega
    rw [hleft, beq_eq_false_iff_ne]
    intro heq
    -- the separator would be a letter of "eyJ"
    have hmem : s ∈ (a ++ s :: b).take 3 :=
      List.mem_take_iff_getElem.mpr ⟨a.length, by simp; omega, by simp⟩
    rw [heq] at hmem
    have htoken : inToken s = true := by
      have hall : ∀ c ∈ "eyJ".toList, inToken c = true := by decide
      exact hall s hmem
    rw [hs.1] at htoken
    cases htoken

private theorem stopsAt_urlToken (hs : Separator s) : StopsAt urlToken s where
  blind _ _ _ := rfl
  stops _ a b := by
    simp only [urlToken, jwtPattern, take_eyJ_stop hs]
    split
    · next hstart =>
      have hlen : 3 ≤ a.length := by
        simp only [Bool.and_eq_true, beq_iff_eq] at hstart
        have := congrArg List.length hstart.2
        simp at this
        omega
      have hdrop : ∀ n, n ≤ a.length → (a ++ s :: b).drop n = a.drop n ++ s :: b :=
        fun n hn ↦ List.drop_append_of_le_length hn
      have hfirst : ((a.drop 3).takeWhile inToken).length ≤ a.length - 3 := by
        simpa using (List.takeWhile_prefix inToken (l := a.drop 3)).length_le
      rw [hdrop 3 hlen, takeWhile_stop hs.1, hdrop _ (by omega), segment_stop hs]
      split
      · cases hseg : segment (a.drop (3 + ((a.drop 3).takeWhile inToken).length)) with
        | none => rfl
        | some second =>
          have hsecond := segment_le hseg
          rw [List.length_drop] at hsecond
          simp only [Option.map_some]
          rw [hdrop _ (by omega), segment_stop hs]
      · rfl
    · rfl
  within h := by
    obtain ⟨-, token, after, rfl, ⟨a, b, c, rfl, -⟩, -, rfl⟩ := jwtPattern_some h
    simp

private theorem separators : Separator '?' ∧ Separator '&' ∧ Separator '=' := by
  simp only [Separator]
  decide

/-- Tokens do not reach over a separator. -/
theorem scrubTokens_cons (hs : Separator s) (a b : List Char) :
    scrubTokens (a ++ s :: b) = scrubTokens a ++ s :: scrubTokens b :=
  (stopsAt_urlToken hs).replaceAll b (Nat.zero_le _) none

private theorem urlToken_mark {prev : Option Char} {hit : Hit Char}
    (h : urlToken prev text = some hit) :
    hit.kept = 0 ∧ hit.mark = "[REDACTED_JWT]".toList := by
  obtain ⟨-, token, after, -, -, -, rfl⟩ := jwtPattern_some h
  exact ⟨rfl, rfl⟩

private theorem not_mem_scrubTokens (hmark : s ∉ "[REDACTED_JWT]".toList) (hs : s ∉ text) :
    s ∉ scrubTokens text := fun hmem ↦
  (mem_replaceAll (fun h ↦ (urlToken_mark h).2) hmem).elim hs hmark

/-- Letters before the first mark were there before. -/
theorem prefix_scrubTokens {w rest : List Char} (hw : '[' ∉ w) (h : scrubTokens text = w ++ rest) :
    ∃ rest', text = w ++ rest' := by
  induction w generalizing text with
  | nil => exact ⟨text, rfl⟩
  | cons c w ih =>
    cases text with
    | nil => cases h
    | cons d text =>
      unfold scrubTokens at h
      cases hm : urlToken none (d :: text) with
      | some hit =>
        obtain ⟨hkept, hmark⟩ := urlToken_mark hm
        simp only [replaceAll, hm, hkept, hmark] at h
        exact absurd (List.cons.inj h).1 fun heq ↦ hw (heq ▸ List.mem_cons_self)
      | none =>
        simp only [replaceAll, hm] at h
        obtain ⟨rfl, htail⟩ := List.cons.inj h
        rw [replaceAll_of_blind (fun _ _ _ ↦ rfl) (some d) none] at htail
        obtain ⟨rest', rfl⟩ := ih (fun hmem ↦ hw (List.mem_cons_of_mem _ hmem)) htail
        exact ⟨rest', rfl⟩

/-- The first letter stays, or a token gives way to its mark. -/
theorem scrubTokens_step (c : Char) (text : List Char) :
    (urlToken none (c :: text) = none ∧ scrubTokens (c :: text) = c :: scrubTokens text) ∨
    ∃ token rest, c :: text = token ++ rest ∧ token ≠ [] ∧ (urlToken none (c :: text)).isSome ∧
      scrubTokens (c :: text) = "[REDACTED_JWT]".toList ++ scrubTokens rest := by
  cases hm : urlToken none (c :: text) with
  | none =>
    refine .inl ⟨rfl, ?_⟩
    simp only [scrubTokens, replaceAll, hm]
    rw [replaceAll_of_blind (fun _ _ _ ↦ rfl) (some c) none]
  | some hit =>
    obtain ⟨-, token, rest, htext, htoken, -, rfl⟩ := jwtPattern_some hm
    have hpos : token ≠ [] := by
      obtain ⟨a, b, c, rfl, -⟩ := htoken
      simp
    refine .inr ⟨token, rest, htext, hpos, rfl, ?_⟩
    have hhit : urlToken none ([] ++ (token ++ rest)) =
        some ⟨([] : List Char).length, token.length, "[REDACTED_JWT]".toList⟩ := by
      rw [List.nil_append, ← htext]
      exact hm
    have hreplace := replaceAll_hit hpos hhit
    rw [List.nil_append, List.nil_append] at hreplace
    rw [htext, scrubTokens, hreplace, replaceAll_of_blind (fun _ _ _ ↦ rfl) _ none]
    rfl

private theorem token_isSome {token : List Char} (h : IsToken token) (rest : List Char) :
    (urlToken none (token ++ rest)).isSome = true := by
  obtain ⟨a, b, c, rfl, ha, halla, hb, hallb, -⟩ := h
  have hsome : (jwtPattern none ("eyJ".toList ++ (a ++ ('.' :: (b ++ (c ++ rest)))))).isSome = true :=
    jwtPattern_isSome rfl ha halla hb hallb
  simpa [urlToken] using hsome

private theorem token_not_mem {token : List Char} (h : IsToken token) : '[' ∉ token := by
  obtain ⟨a, b, c, rfl, -, halla, -, hallb, hc⟩ := h
  have hrun : ∀ {run : List Char}, run.all inToken = true → '[' ∉ run := fun hall hmem ↦
    absurd (List.all_eq_true.mp hall _ hmem) (by decide)
  have hthird : '[' ∉ c := by
    obtain rfl | ⟨c', rfl, -, hallc⟩ := hc
    · exact List.not_mem_nil
    · simp [hrun hallc]
  simp [hrun halla, hrun hallb, hthird]

/-- No token is left. -/
theorem noMatch_scrubTokens (text : List Char) : NoMatch urlToken none (scrubTokens text) := by
  induction hn : text.length using Nat.strongRecOn generalizing text with
  | ind n ih =>
    intro before after hout
    rw [show urlToken (lastOr none before) after = urlToken none after from rfl]
    cases text with
    | nil =>
      obtain ⟨-, rfl⟩ := List.append_eq_nil_iff.mp hout.symm
      rfl
    | cons c text =>
      obtain ⟨hnone, hstep⟩ | ⟨token, rest, htext, hpos, -, hstep⟩ := scrubTokens_step c text
      · rw [hstep] at hout
        cases before with
        | nil =>
          cases hm : urlToken none after with
          | none => rfl
          | some hit =>
            -- a token here was one before, since its letters stay
            obtain ⟨-, token, rest, htoken, hshape, -⟩ := jwtPattern_some hm
            rw [List.nil_append, htoken, ← hstep] at hout
            obtain ⟨rest', hback⟩ := prefix_scrubTokens (token_not_mem hshape) hout
            have hsome := token_isSome hshape rest'
            rw [← hback, hnone] at hsome
            cases hsome
        | cons d before =>
          obtain ⟨-, htail⟩ := List.cons.inj hout
          exact ih text.length (by simp [← hn]) text rfl before after htail
      · have hlen : rest.length < n := by
          have hpos' := List.length_pos_of_ne_nil hpos
          have htotal := congrArg List.length htext
          simp only [List.length_append] at htotal
          omega
        rw [hstep] at hout
        obtain ⟨before', rfl, htail⟩ | ⟨mark', hmark, rfl⟩ := List.append_eq_append_iff.mp hout
        · exact ih rest.length hlen rest rfl before' after htail
        · cases mark' with
          | nil => exact ih rest.length hlen rest rfl [] _ rfl
          | cons d mark' =>
            have hd : d ∈ "[REDACTED_JWT]".toList := by
              rw [hmark]
              exact List.mem_append_right _ List.mem_cons_self
            have hne : ∀ x ∈ "[REDACTED_JWT]".toList, x ≠ 'e' := by decide
            have htake : ((d :: mark' ++ scrubTokens rest).take 3 == "eyJ".toList) = false := by
              rw [beq_eq_false_iff_ne]
              intro heq
              exact hne d hd (List.cons.inj heq).1
            simp only [urlToken, jwtPattern, htake, Bool.and_false, Bool.false_eq_true, if_false]

private theorem scrubTokens_of_noMatch (h : NoMatch urlToken none text) : scrubTokens text = text :=
  replaceAll_of_settled h.settled 0

@[simp] private theorem scrubTokens_idem (text : List Char) :
    scrubTokens (scrubTokens text) = scrubTokens text :=
  scrubTokens_of_noMatch (noMatch_scrubTokens text)

/-- A text that had a token shows its mark. -/
theorem mark_scrubTokens (h : ¬ NoMatch urlToken none text) :
    ∃ x y, scrubTokens text = x ++ ("[REDACTED_JWT]".toList ++ y) := by
  induction text with
  | nil =>
    refine absurd (fun before after heq ↦ ?_) h
    obtain ⟨-, rfl⟩ := List.append_eq_nil_iff.mp heq.symm
    rfl
  | cons c text ih =>
    obtain ⟨hnone, hstep⟩ | ⟨token, rest, -, -, -, hstep⟩ := scrubTokens_step c text
    · have hrest : ¬ NoMatch urlToken none text := by
        refine fun hrest ↦ h fun before after heq ↦ ?_
        cases before with
        | nil =>
          obtain rfl : c :: text = after := heq
          exact hnone
        | cons d before => exact hrest before after (List.cons.inj heq).2
      obtain ⟨x, y, hxy⟩ := ih hrest
      exact ⟨c :: x, y, by rw [hstep, hxy, List.cons_append]⟩
    · exact ⟨[], _, hstep⟩

/-! ### Names -/

private theorem occursIn_iff {needle : List Char} :
    occursIn needle text = true ↔ needle <:+: text := by
  simp only [occursIn, List.any_eq_true, List.mem_tails, List.isPrefixOf_iff_prefix]
  constructor
  · rintro ⟨t, ht, hprefix⟩
    exact hprefix.isInfix.trans ht.isInfix
  · rintro ⟨x, y, rfl⟩
    exact ⟨needle ++ y, ⟨x, (List.append_assoc ..).symm⟩, List.prefix_append _ _⟩

/-- A name with a sensitive part is sensitive. -/
theorem sensitiveQueryKey_of_infix (h : a <:+: b) (ha : sensitiveQueryKey a = true) :
    sensitiveQueryKey b = true := by
  obtain ⟨word, hword, hoccurs⟩ := List.any_eq_true.mp ha
  refine List.any_eq_true.mpr ⟨word, hword, ?_⟩
  rw [occursIn_iff] at hoccurs ⊢
  exact hoccurs.trans (h.map _)

/-- The name the code compares is sensitive if the name is, or holds a token. -/
theorem sensitiveQueryKey_scrubTokens (key : List Char) :
    sensitiveQueryKey (scrubTokens key) = true ↔
      ¬ NoMatch urlToken none key ∨ sensitiveQueryKey key = true := by
  by_cases h : NoMatch urlToken none key
  · rw [scrubTokens_of_noMatch h]
    simp [h]
  · obtain ⟨x, y, hxy⟩ := mark_scrubTokens h
    have hinfix : "[REDACTED_JWT]".toList <:+: scrubTokens key := ⟨x, y, by rw [hxy]; simp⟩
    simp [h, sensitiveQueryKey_of_infix hinfix (by decide)]

/-! ### Parts of a URL -/

private theorem all_ne (hs : s ∉ a) : a.all (· != s) = true := by
  rw [List.all_eq_true]
  intro c hc
  rw [bne_iff_ne]
  rintro rfl
  exact hs hc

private theorem takeWhile_ne (hs : s ∉ a) (b : List Char) :
    (a ++ s :: b).takeWhile (· != s) = a := by
  refine takeWhile_run (all_ne hs) ?_
  simp

private theorem takeWhile_ne_self (hs : s ∉ a) : a.takeWhile (· != s) = a := by
  have htake : (a ++ []).takeWhile (· != s) = a := takeWhile_run (all_ne hs) rfl
  rwa [List.append_nil] at htake

private theorem dropWhile_ne (hs : s ∉ a) (b : List Char) :
    (a ++ s :: b).dropWhile (· != s) = s :: b := by
  have htake := takeWhile_ne hs b
  have hsplit := List.takeWhile_append_dropWhile (p := (· != s)) (l := a ++ s :: b)
  rw [htake] at hsplit
  exact List.append_cancel_left hsplit

private theorem dropWhile_ne_self (hs : s ∉ a) : a.dropWhile (· != s) = [] := by
  have hsplit := List.takeWhile_append_dropWhile (p := (· != s)) (l := a)
  rw [takeWhile_ne_self hs] at hsplit
  exact List.append_cancel_left (hsplit.trans (List.append_nil a).symm)

/-- Tokens go from a name as they go from the parameter. -/
theorem keyOf_scrubTokens (pair : List Char) : keyOf (scrubTokens pair) = scrubTokens (keyOf pair) := by
  obtain ⟨-, -, hequals⟩ := separators
  by_cases h : '=' ∈ pair
  · obtain ⟨key, value, rfl, hkey⟩ := List.eq_append_cons_of_mem h
    rw [scrubTokens_cons hequals, keyOf, keyOf, takeWhile_ne hkey,
      takeWhile_ne (not_mem_scrubTokens (by decide) hkey)]
  · rw [keyOf, keyOf, takeWhile_ne_self h, takeWhile_ne_self (not_mem_scrubTokens (by decide) h)]

private theorem keyOf_redactedPair (h : '=' ∉ key) : keyOf (redactedPair key) = key :=
  takeWhile_ne h _

private theorem not_mem_keyOf (pair : List Char) : '=' ∉ keyOf pair := by
  intro hmem
  have := List.mem_takeWhile_imp hmem
  simp at this

private theorem scrubTokens_redacted : scrubTokens REDACTED.toList = REDACTED.toList :=
  by decide +kernel

/-- Only `[REDACTED]` reads so without its tokens. -/
theorem scrubTokens_eq_redacted {value : List Char} :
    scrubTokens value = REDACTED.toList ↔ value = REDACTED.toList := by
  constructor
  · intro h
    by_cases hclean : NoMatch urlToken none value
    · rwa [scrubTokens_of_noMatch hclean] at h
    · -- the mark is longer than the value
      obtain ⟨x, y, hxy⟩ := mark_scrubTokens hclean
      rw [h] at hxy
      have := congrArg List.length hxy
      simp [REDACTED] at this
      omega
  · rintro rfl
    exact scrubTokens_redacted

private theorem ne_redactedPair (name : List Char) : name ≠ redactedPair name := by
  intro h
  have := congrArg List.length h
  simp [redactedPair] at this

/-- A parameter passes for a redacted one only if it is one. -/
theorem scrubTokens_eq_redactedPair {name : List Char} (hcut : CutAt name pair) :
    scrubTokens pair = redactedPair (scrubTokens name) ↔ pair = redactedPair name := by
  obtain ⟨-, -, hequals⟩ := separators
  rcases hcut with rfl | ⟨value, rfl⟩
  · exact iff_of_false (ne_redactedPair _) (ne_redactedPair _)
  · rw [scrubTokens_cons hequals, redactedPair, redactedPair, List.append_cancel_left_eq,
      List.append_cancel_left_eq, List.cons.injEq, List.cons.injEq, scrubTokens_eq_redacted]

private theorem cutAt_keyOf (pair : List Char) : CutAt (keyOf pair) pair := by
  by_cases h : '=' ∈ pair
  · obtain ⟨key, value, rfl, hkey⟩ := List.eq_append_cons_of_mem h
    exact .inr ⟨value, by rw [keyOf, takeWhile_ne hkey]⟩
  · exact .inl (takeWhile_ne_self h).symm

namespace QueryParser.Documented

private theorem cutAt (h : parser.Documented) (pair : List Char) : CutAt
    (parser.nameOf pair) pair := by
  by_cases hmem : '=' ∈ pair
  · exact .inr (h.cut pair hmem)
  · exact .inl (h.bare pair hmem).symm

/-- The parser ends a name where the code does, or at a later `=`. -/
theorem nameOf_eq_or (h : parser.Documented) (pair : List Char) :
    parser.nameOf pair = keyOf pair ∨ ∃ rest value, parser.nameOf pair = keyOf pair ++ '=' :: rest ∧
      pair = keyOf pair ++ '=' :: (rest ++ '=' :: value) := by
  by_cases hmem : '=' ∈ pair
  · obtain ⟨value, hcut⟩ := h.cut pair hmem
    by_cases hname : '=' ∈ parser.nameOf pair
    · obtain ⟨key, rest, heq, hkey⟩ := List.eq_append_cons_of_mem hname
      have hpair : pair = key ++ '=' :: (rest ++ '=' :: value) := by
        rw [hcut, heq, List.append_assoc, List.cons_append]
      have hkeyOf : keyOf pair = key := by rw [hpair, keyOf, takeWhile_ne hkey]
      rw [hkeyOf]
      exact .inr ⟨rest, value, heq, hpair⟩
    · left
      conv_rhs => rw [hcut]
      exact (takeWhile_ne hname value).symm
  · left
    rw [h.bare pair hmem]
    exact (takeWhile_ne_self hmem).symm

end QueryParser.Documented

/-- The code takes the name for a sensitive one: it is, or it holds a token. -/
def Suspect (pair : List Char) : Prop :=
  ¬ NoMatch urlToken none (keyOf pair) ∨ sensitiveQueryKey (keyOf pair) = true

/-- The code takes the name for a sensitive one exactly when the parser reads a sensitive name, or
the value is `[REDACTED]` already; and a name that it takes for one ends there for the parser too. -/
structure ReadAlike (parser : QueryParser) (pair : List Char) : Prop where
  name : (Suspect pair ↔ sensitiveQueryKey (parser.decode (parser.nameOf pair)) = true) ∨
    pair = redactedPair (parser.nameOf pair)
  cut : Suspect pair → parser.nameOf pair = keyOf pair

private theorem suspect_iff : Suspect pair ↔ sensitiveQueryKey (scrubTokens (keyOf pair)) = true :=
  (sensitiveQueryKey_scrubTokens (keyOf pair)).symm

/-- What the code makes of a parameter. -/
theorem scrubPair_scrubTokens (pair : List Char) : scrubPair (scrubTokens pair) =
    if sensitiveQueryKey (scrubTokens (keyOf pair)) then redactedPair (scrubTokens (keyOf pair))
    else scrubTokens pair := by
  rw [scrubPair, keyOf_scrubTokens]

/-- The code cleans a parameter exactly when it reads its name as the query parser does. -/
theorem scrubPair_eq_iff (h : parser.Documented) (pair : List Char) :
    scrubPair (scrubTokens pair) = cleanPair parser pair ↔ ReadAlike parser pair := by
  obtain ⟨-, -, hequals⟩ := separators
  rw [scrubPair_scrubTokens, cleanPair]
  by_cases hraw : sensitiveQueryKey (scrubTokens (keyOf pair)) = true
  · have hsuspect : Suspect pair := suspect_iff.mpr hraw
    rw [if_pos hraw]
    obtain hname | ⟨rest, value, hname, hpair⟩ := h.nameOf_eq_or pair
    · by_cases hread : sensitiveQueryKey (parser.decode (parser.nameOf pair)) = true
      · rw [if_pos hread, hname]
        exact iff_of_true rfl ⟨.inl (iff_of_true hsuspect hread), fun _ ↦ hname⟩
      · rw [if_neg hread, eq_comm, scrubTokens_eq_redactedPair (cutAt_keyOf pair), ← hname]
        exact ⟨fun heq ↦ ⟨.inr heq, fun _ ↦ hname⟩, fun hread' ↦ hread'.name.resolve_left
          fun hiff ↦ hread (hiff.mp hsuspect)⟩
    · -- the parser's name goes on behind the first `=`
      have hne : parser.nameOf pair ≠ keyOf pair := by
        intro heq
        have := congrArg List.length (hname.symm.trans heq)
        simp at this
      refine iff_of_false (fun heq ↦ ?_) fun hread ↦ hne (hread.cut hsuspect)
      have hlost : ∀ rest', redactedPair (scrubTokens (keyOf pair)) =
          scrubTokens (keyOf pair) ++ '=' :: rest' → '=' ∉ rest' := by
        intro rest' heq
        obtain ⟨-, rfl⟩ := List.cons.inj (List.append_cancel_left heq)
        decide
      split at heq
      · rw [hname, scrubTokens_cons hequals] at heq
        refine hlost (scrubTokens rest ++ '=' :: REDACTED.toList) ?_
          (List.mem_append_right _ List.mem_cons_self)
        rw [heq, redactedPair, List.append_assoc, List.cons_append]
      · conv_rhs at heq => rw [hpair]
        rw [scrubTokens_cons hequals, scrubTokens_cons hequals] at heq
        exact hlost _ heq (List.mem_append_right _ List.mem_cons_self)
  · have hsuspect : ¬ Suspect pair := fun hs ↦ hraw (suspect_iff.mp hs)
    rw [if_neg hraw]
    by_cases hread : sensitiveQueryKey (parser.decode (parser.nameOf pair)) = true
    · rw [if_pos hread, scrubTokens_eq_redactedPair (h.cutAt pair)]
      exact ⟨fun heq ↦ ⟨.inr heq, fun hs ↦ absurd hs hsuspect⟩, fun hread' ↦ hread'.name.resolve_left
        fun hiff ↦ hsuspect (hiff.mpr hread)⟩
    · rw [if_neg hread]
      exact iff_of_true rfl ⟨.inl (iff_of_false hsuspect hread), fun hs ↦ absurd hs hsuspect⟩

/-- A parameter the code has been over stays as it is. -/
theorem scrubPair_idem (pair : List Char) :
    scrubPair (scrubTokens (scrubPair (scrubTokens pair))) = scrubPair (scrubTokens pair) := by
  obtain ⟨-, -, hequals⟩ := separators
  rw [scrubPair_scrubTokens pair]
  by_cases hraw : sensitiveQueryKey (scrubTokens (keyOf pair)) = true
  · have hkey : keyOf (redactedPair (scrubTokens (keyOf pair))) = scrubTokens (keyOf pair) :=
      keyOf_redactedPair (not_mem_scrubTokens (by decide) (not_mem_keyOf pair))
    have hstays : scrubTokens (redactedPair (scrubTokens (keyOf pair))) =
        redactedPair (scrubTokens (keyOf pair)) := by
      rw [redactedPair, scrubTokens_cons hequals, scrubTokens_redacted, scrubTokens_idem]
    rw [if_pos hraw, hstays, scrubPair, hkey, if_pos hraw]
  · rw [if_neg hraw, scrubTokens_idem, scrubPair_scrubTokens, if_neg hraw]

private theorem not_mem_scrubPair (h : '&' ∉ pair) : '&' ∉ scrubPair (scrubTokens pair) := by
  have hkey : '&' ∉ keyOf pair := fun hmem ↦ h ((List.takeWhile_prefix _).subset hmem)
  have hscrubbed := not_mem_scrubTokens (s := '&') (by decide) hkey
  rw [scrubPair, keyOf_scrubTokens]
  split
  · rw [redactedPair, List.mem_append, not_or]
    exact ⟨hscrubbed, by decide⟩
  · exact not_mem_scrubTokens (by decide) h

/-! ### The query -/

private theorem not_mem_of_mem_splitOn (h : pair ∈ text.splitOn s) : s ∉ pair := by
  induction text generalizing pair with
  | nil =>
    obtain rfl := List.mem_singleton.mp h
    exact List.not_mem_nil
  | cons c text ih =>
    rw [List.splitOn_cons_eq_if_modifyHead] at h
    split at h
    · obtain rfl | h := List.mem_cons.mp h
      · exact List.not_mem_nil
      · exact ih h
    · next hne =>
      cases hparts : text.splitOn s with
      | nil => exact absurd hparts (List.splitOn_ne_nil s text)
      | cons first parts =>
        rw [hparts] at h ih
        obtain rfl | h := List.mem_cons.mp h
        · simp only [List.mem_cons, not_or]
          exact ⟨fun heq ↦ hne (by simp [heq]), ih List.mem_cons_self⟩
        · exact ih (List.mem_cons_of_mem first h)

private theorem scrubTokens_intercalate (hs : Separator s) (parts : List (List Char)) :
    scrubTokens ([s].intercalate parts) = [s].intercalate (parts.map scrubTokens) := by
  induction parts with
  | nil => rfl
  | cons a parts ih =>
    cases parts with
    | nil => simp
    | cons b parts =>
      rw [List.intercalate_cons_cons, List.append_assoc, List.singleton_append,
        scrubTokens_cons hs, ih]
      simp

private theorem splitOn_scrubTokens (query : List Char) :
    (scrubTokens query).splitOn '&' = (query.splitOn '&').map scrubTokens := by
  obtain ⟨-, hand, -⟩ := separators
  conv_lhs => rw [← @List.intercalate_splitOn _ query _ _ '&', scrubTokens_intercalate hand]
  refine List.splitOn_intercalate '&' ?_ (by simp [List.splitOn_ne_nil])
  rintro _ hmem
  obtain ⟨pair, hpair, rfl⟩ := List.mem_map.mp hmem
  exact not_mem_scrubTokens (by decide) (not_mem_of_mem_splitOn hpair)

/-- The parameters of a query, each replaced where it stands. -/
def scrubQuery (query : List Char) : List (List Char) :=
  (query.splitOn '&').map fun pair ↦ scrubPair (scrubTokens pair)

private theorem splitOn_scrubQuery (query : List Char) :
    (['&'].intercalate (scrubQuery query)).splitOn '&' = scrubQuery query := by
  refine List.splitOn_intercalate '&' ?_ (by simp [scrubQuery, List.splitOn_ne_nil])
  rintro _ hmem
  obtain ⟨pair, hpair, rfl⟩ := List.mem_map.mp hmem
  exact not_mem_scrubPair (not_mem_of_mem_splitOn hpair)

private theorem scrubQuery_idem (query : List Char) :
    scrubQuery (['&'].intercalate (scrubQuery query)) = scrubQuery query := by
  conv_lhs => rw [scrubQuery, splitOn_scrubQuery]
  rw [scrubQuery, List.map_map]
  exact List.map_congr_left fun pair _ ↦ scrubPair_idem pair

/-! ### URLs -/

private theorem sanitizeText_bare (h : '?' ∉ text) : sanitizeText text = scrubTokens text := by
  rw [sanitizeText, dropWhile_ne_self (not_mem_scrubTokens (by decide) h)]

private theorem sanitizeText_query (h : '?' ∉ a) (query : List Char) : sanitizeText
    (a ++ '?' :: query) =
    scrubTokens a ++ '?' :: ['&'].intercalate (scrubQuery query) := by
  obtain ⟨hquestion, -, -⟩ := separators
  have hpath : '?' ∉ scrubTokens a := not_mem_scrubTokens (by decide) h
  rw [sanitizeText, scrubTokens_cons hquestion, dropWhile_ne hpath, takeWhile_ne hpath]
  simp only [splitOn_scrubTokens, List.map_map, scrubQuery]
  rfl

private theorem sanitizeText_idem (url : List Char) : sanitizeText
    (sanitizeText url) = sanitizeText url := by
  by_cases h : '?' ∈ url
  · obtain ⟨path, query, rfl, hpath⟩ := List.eq_append_cons_of_mem h
    rw [sanitizeText_query hpath,
      sanitizeText_query (not_mem_scrubTokens (by decide) hpath), scrubTokens_idem, scrubQuery_idem]
  · rw [sanitizeText_bare h, sanitizeText_bare (not_mem_scrubTokens (by decide) h), scrubTokens_idem]

private theorem pairsOf_query (h : '?' ∉ a) (query : List Char) :
    pairsOf (a ++ '?' :: query) = some (query.splitOn '&') := by
  rw [pairsOf, dropWhile_ne h]

private theorem pairsOf_bare (h : '?' ∉ a) : pairsOf a = none := by
  rw [pairsOf, dropWhile_ne_self h]

private theorem sanitized_iff (hparser : parser.Documented) (url : List Char) :
    Sanitized parser url (sanitizeText url) ↔
      ∀ pair ∈ (pairsOf url).getD [], ReadAlike parser pair := by
  by_cases h : '?' ∈ url
  · obtain ⟨path, query, rfl, hpath⟩ := List.eq_append_cons_of_mem h
    have hpath' : '?' ∉ scrubTokens path := not_mem_scrubTokens (by decide) hpath
    rw [sanitizeText_query hpath, pairsOf_query hpath]
    constructor
    · rintro ⟨-, hpairs⟩ pair hpair
      rw [pairsOf_query hpath', pairsOf_query hpath, splitOn_scrubQuery, Option.map_some] at hpairs
      rw [← scrubPair_eq_iff hparser]
      exact List.map_inj_left.mp (Option.some.inj hpairs) pair hpair
    · intro hall
      refine ⟨?_, ?_⟩
      · rw [pathOf, pathOf, takeWhile_ne hpath', takeWhile_ne hpath]
      · rw [pairsOf_query hpath', pairsOf_query hpath, splitOn_scrubQuery, Option.map_some]
        exact congrArg some (List.map_congr_left fun pair hpair ↦
          (scrubPair_eq_iff hparser pair).mpr (hall pair hpair))
  · have hbare : '?' ∉ scrubTokens url := not_mem_scrubTokens (by decide) h
    rw [sanitizeText_bare h, pairsOf_bare h]
    refine iff_of_true ⟨?_, ?_⟩ (by simp)
    · rw [pathOf, pathOf, takeWhile_ne_self hbare, takeWhile_ne_self h]
    · rw [pairsOf_bare hbare, pairsOf_bare h]
      rfl

/-- `sanitizeUrl` cleans a URL, and leaves a cleaned one alone, exactly when it reads the name of
each query parameter as the query parser of the server does. -/
theorem sanitizeUrl_exact (hparser : parser.Documented) (url : String) :
    (Sanitized parser url.toList (sanitizeUrl url).toList ∧
      sanitizeUrl (sanitizeUrl url) = sanitizeUrl url) ↔
    ∀ pair ∈ (pairsOf url.toList).getD [], ReadAlike parser pair := by
  have hletters : (sanitizeUrl url).toList = sanitizeText url.toList := String.toList_ofList
  have hidem : sanitizeUrl (sanitizeUrl url) = sanitizeUrl url := by
    rw [sanitizeUrl, hletters, sanitizeText_idem]
    rfl
  rw [hletters, sanitized_iff hparser]
  exact and_iff_left hidem

/-! ### A query parser -/

/-- The value of a digit of base 16. -/
def hexDigit (c : Char) : Option Nat :=
  if c.isDigit then some (c.toNat - '0'.toNat)
  else if 'a' ≤ c ∧ c ≤ 'f' then some (c.toNat - 'a'.toNat + 10)
  else if 'A' ≤ c ∧ c ≤ 'F' then some (c.toNat - 'A'.toNat + 10)
  else none

/-- An octet written `%` and two digits, and the text behind it. -/
def octet : List Char → Option (Nat × List Char)
  | '%' :: a :: b :: rest => do
    let high ← hexDigit a
    let low ← hexDigit b
    some (16 * high + low, rest)
  | _ => none

/-- `k` more octets of a UTF-8 sequence that has given `v` so far. -/
def continued : Nat → Nat → List Char → Option (Nat × List Char)
  | 0, v, text => some (v, text)
  | k + 1, v, text => do
    let (x, rest) ← octet text
    if 0x80 ≤ x ∧ x < 0xc0 then continued k (64 * v + (x - 0x80)) rest else none

/-- The number of octets behind a first one, its share of the code point, and the least code point
written with as many. -/
def leading (x : Nat) : Option (Nat × Nat × Nat) :=
  if x < 0x80 then some (0, x, 0)
  else if 0xc0 ≤ x ∧ x < 0xe0 then some (1, x - 0xc0, 0x80)
  else if 0xe0 ≤ x ∧ x < 0xf0 then some (2, x - 0xe0, 0x800)
  else if 0xf0 ≤ x ∧ x < 0xf8 then some (3, x - 0xf0, 0x10000)
  else none

/-- A percent-encoded letter and the text behind it. -/
def escaped (text : List Char) : Option (Char × List Char) := do
  let (x, rest) ← octet text
  let (k, share, least) ← leading x
  let (v, rest) ← continued k share rest
  if least ≤ v ∧ v.isValidChar then some (Char.ofNat v, rest) else none

/-- `decodeURIComponent`, of at most `n` letters; `none` where it throws. -/
def decodeURIComponent : Nat → List Char → Option (List Char)
  | _, [] => some []
  | 0, _ => none
  | n + 1, '%' :: text => do
    let (c, rest) ← escaped ('%' :: text)
    (c :: ·) <$> decodeURIComponent n rest
  | n + 1, c :: text => (c :: ·) <$> decodeURIComponent n text

/-- A name percent-decoded; one that is not well encoded is read as it is. -/
def percentDecode (name : List Char) : List Char :=
  (decodeURIComponent name.length name).getD name

example : percentDecode "tok%65n%C3%A9".toList = "tokené".toList := by decide

/-- The name ends in a bracket, as it is or encoded. -/
def closed (name : List Char) : Bool :=
  name.getLast? == some ']' || (name.drop (name.length - 3)).map Char.toLower == "%5d".toList

/-- The parser `qs`: a name ends at the first `]=`, and where there is none at the first `=`; in a
name `+` stands for a blank. -/
def qs : QueryParser where
  nameOf pair := (pair.inits.find? fun name ↦
    closed name && (pair.drop name.length).head? == some '=').getD (keyOf pair)
  decode name := percentDecode (name.map fun c ↦ if c == '+' then ' ' else c)

example : qs.nameOf "a[x=token]=s3cret".toList = "a[x=token]".toList := by decide

private theorem qs_documented : qs.Documented := by
  have hfound : ∀ pair name, (pair.inits.find? fun name ↦
      closed name && (pair.drop name.length).head? == some '=') = some name →
      ∃ value, pair = name ++ '=' :: value := by
    intro pair name hfind
    obtain ⟨rest, rfl⟩ := (List.mem_inits _ _).mp (List.mem_of_find?_eq_some hfind)
    have hhead := List.find?_some hfind
    rw [Bool.and_eq_true, beq_iff_eq, List.drop_left, List.head?_eq_some_iff] at hhead
    obtain ⟨-, value, rfl⟩ := hhead
    exact ⟨value, rfl⟩
  constructor
  · intro pair hmem
    unfold qs
    dsimp only
    cases hfind : pair.inits.find? fun name ↦
        closed name && (pair.drop name.length).head? == some '=' with
    | none => exact takeWhile_ne_self hmem
    | some name =>
      obtain ⟨value, rfl⟩ := hfound pair name hfind
      exact absurd (List.mem_append_right _ List.mem_cons_self) hmem
  · intro pair hmem
    unfold qs
    dsimp only
    cases hfind : pair.inits.find? fun name ↦
        closed name && (pair.drop name.length).head? == some '=' with
    | none =>
      rcases cutAt_keyOf pair with heq | hcut
      · exact absurd (heq ▸ hmem) (not_mem_keyOf pair)
      · exact hcut
    | some name => exact hfound pair name hfind

/-- A URL with a token, as `qs` reads it. -/
theorem sanitizeUrl_exact_qs :
    Sanitized qs "/api/x?token=abc123&page=2".toList (sanitizeUrl "/api/x?token=abc123&page=2").toList := by
  refine ((sanitizeUrl_exact qs_documented "/api/x?token=abc123&page=2").mpr fun pair hpair ↦ ?_).1
  have hpairs : (pairsOf "/api/x?token=abc123&page=2".toList).getD [] =
      ["token=abc123".toList, "page=2".toList] := by decide
  rw [hpairs, List.mem_cons, List.mem_singleton] at hpair
  rcases hpair with rfl | rfl
  · exact ⟨.inl (iff_of_true (suspect_iff.mpr (by decide +kernel)) (by decide +kernel)),
      fun _ ↦ by decide +kernel⟩
  · exact ⟨.inl (iff_of_false (fun h ↦ absurd (suspect_iff.mp h) (by decide +kernel))
      (by decide +kernel)), fun _ ↦ by decide +kernel⟩

/-- A token under an encoded name comes through. -/
theorem encodedName_leaks : ¬ (Sanitized qs "/api/x?tok%65n=abc".toList
      (sanitizeUrl "/api/x?tok%65n=abc").toList ∧
    sanitizeUrl (sanitizeUrl "/api/x?tok%65n=abc") = sanitizeUrl "/api/x?tok%65n=abc") := by
  rintro ⟨⟨-, hpairs⟩, -⟩
  revert hpairs
  decide +kernel

end ChessStack.Log
