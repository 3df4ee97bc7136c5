import ChessStack.Log.Passes

/-!
# What scrubbing does to a text

Library `Log`. The four passes of `scrubString`, `Chess-Backend/src/config/logSanitize.js:28–35`,
taken together: what is left in the result, what of the text it does not depend on, and that a
second scrubbing changes nothing.
-/

namespace ChessStack.Log

open ChessStack.Library

variable {before before' text hidden after out mark : List Char}
  {Keep Keep' : List Char → List Char → List Char → Prop}

/-! ### Nothing is left -/

/-- No key id, no token, and `[REDACTED]` for the rest of every URL. -/
structure Safe (text : List Char) : Prop where
  url : Settled urlPattern none text
  keyId : NoMatch keyIdPattern none text
  jwt : NoMatch jwtPattern none text
  slack : NoMatch slackPattern none text

private theorem scrubText_eq (text : List Char) : scrubText text =
    replaceAll slackPattern none 0 (replaceAll jwtPattern none 0
      (replaceAll keyIdPattern none 0 (replaceAll urlPattern none 0 text))) := rfl

private theorem safe_scrubText (text : List Char) : Safe (scrubText text) := by
  rw [scrubText_eq]
  have hurl := settled_url_self text
  generalize replaceAll urlPattern none 0 text = t₁ at hurl ⊢
  have hurl := tokenPattern_keyId.settled_url hurl
  have hkeyId := tokenPattern_keyId.noMatch_self t₁
  generalize replaceAll keyIdPattern none 0 t₁ = t₂ at hurl hkeyId ⊢
  have hurl := tokenPattern_jwt.settled_url hurl
  have hkeyId := tokenPattern_jwt.noMatch_of tokenPattern_keyId hkeyId
  have hjwt := tokenPattern_jwt.noMatch_self t₂
  generalize replaceAll jwtPattern none 0 t₂ = t₃ at hurl hkeyId hjwt ⊢
  exact ⟨tokenPattern_slack.settled_url hurl, tokenPattern_slack.noMatch_of tokenPattern_keyId hkeyId,
    tokenPattern_slack.noMatch_of tokenPattern_jwt hjwt, tokenPattern_slack.noMatch_self t₃⟩

namespace Safe

private theorem scrubText_eq_self (h : Safe text) : scrubText text = text := by
  apply scrubText_of_settled
  intro re hre
  simp only [PATTERNS, List.mem_cons, List.not_mem_nil, or_false] at hre
  obtain rfl | rfl | rfl | rfl := hre
  · exact h.url
  · exact h.keyId.settled
  · exact h.jwt.settled
  · exact h.slack.settled

private theorem rest_eq (h : Safe text) {name rest : List Char}
    (hurl : UrlAt IsName text before name rest after) :
    rest = REDACTED.toList := by
  obtain ⟨-, hsettled⟩ := h.url before _ _ hurl.eq (urlPattern_iff.mpr
    ⟨by simpa [lastOr] using hurl.start, name, rest, after, rfl, hurl.name, hurl.pos, hurl.run,
      hurl.stop, rfl⟩)
  rwa [(split_url name rest after).1, take_name, List.append_cancel_left_eq] at hsettled

private theorem no_keyId (h : Safe text) {id : List Char} (htext : text = before ++ (id ++ after))
    (hid : IsKeyId id) : ¬ Delimited before id after := by
  intro hd
  have hnone := h.keyId before (id ++ after) htext
  rw [keyIdPattern_iff.mpr ⟨by simpa [lastOr] using hd.start, id, after, rfl, hid,
    hd.stop (keyId_last hid), rfl⟩] at hnone
  cases hnone

private theorem no_token (h : Safe text) {token : List Char}
    (htext : text = before ++ (token ++ after))
    (htoken : IsToken token) : wordAt before.getLast? = true := by
  by_contra hstart
  obtain ⟨a, b, c, rfl, ha, halla, hb, hallb, -⟩ := htoken
  have hnone := h.jwt before _ htext
  have hprev : wordAt (lastOr none before) = false := by simpa [lastOr] using hstart
  have hsome : (jwtPattern (lastOr none before)
      ("eyJ".toList ++ (a ++ ('.' :: (b ++ (c ++ after)))))).isSome = true :=
    jwtPattern_isSome hprev ha halla hb hallb
  have heq : "eyJ".toList ++ (a ++ ('.' :: (b ++ c))) ++ after =
      "eyJ".toList ++ (a ++ ('.' :: (b ++ (c ++ after)))) := by simp
  rw [heq] at hnone
  rw [hnone] at hsome
  cases hsome

private theorem no_slack (h : Safe text) {token : List Char}
    (htext : text = before ++ (token ++ after))
    (htoken : IsSlack token) (hstart : wordAt before.getLast? = false) :
    boundary token.getLast? after.head? = false := by
  by_contra hbound
  have hprev : wordAt (lastOr none before) = false := by simpa [lastOr] using hstart
  have hsome := slackPattern_isSome hprev htoken (by simpa using hbound)
  rw [h.slack before _ htext] at hsome
  cases hsome

end Safe

/-! ### Only secrets are hidden -/

private theorem Token.not_mem (h : Token before hidden after mark) : '[' ∉ hidden := by
  cases h with
  | key hkey _ => exact keyId_not_mem hkey
  | slack htoken _ => exact slack_not_mem htoken
  | jwt htoken _ =>
    obtain ⟨a, b, c, rfl, -, halla, -, hallb, hc⟩ := htoken
    have hthird : '[' ∉ c := by
      obtain rfl | ⟨c', rfl, -, hall⟩ := hc
      · exact List.not_mem_nil
      · intro hmem
        obtain heq | hmem := List.mem_cons.mp hmem
        · exact absurd heq (by decide)
        · exact absurd (List.all_eq_true.mp hall _ hmem) (by decide)
    have heq : "eyJ".toList ++ (a ++ ('.' :: (b ++ c))) = "eyJ".toList ++ (a ++ ('.' :: b)) ++ c := by
      simp
    rw [heq, List.mem_append, not_or]
    exact ⟨segments_not_mem halla hallb, hthird⟩

/-- What is a token in the result of earlier passes is one in the text. -/
theorem Token.back {text' out' : List Char} (h : Token before' hidden out' mark)
    (hsync : Sync before before' (hidden ++ text'))
    (hcuts : Cuts Keep Secret (before ++ hidden) text' (before' ++ hidden) out') :
    Token before hidden text' mark := by
  have hd : Delimited before hidden text' := by
    obtain ⟨c, rest, rfl, hc⟩ := h.start
    refine ⟨hsync.start (c := c) rfl (isStart_word hc).1 h.delimited.start, fun hlast ↦ ?_⟩
    obtain heq | ⟨hnot, -⟩ := head_cases hides_secret hcuts
    · rw [← heq]
      exact h.delimited.stop hlast
    · rw [List.getLast?_append_of_ne_nil _ (List.cons_ne_nil c rest), hlast] at hnot
      cases hnot
  cases h with
  | key hkey _ => exact .key hkey hd
  | jwt htoken _ => exact .jwt htoken hd
  | slack htoken _ => exact .slack htoken hd

/-- Passes one after the other: the next one hides parts of the text too. -/
theorem compose {out' before'' : List Char} (h : Cuts Keep Secret before text before' out)
    (hsync : Sync before before' text) (h' : Cuts Keep' Token before' out before'' out') :
    Cuts (fun _ _ _ ↦ True) Secret before text before'' out' := by
  induction hn : text.length using Nat.strongRecOn
    generalizing before text before' out before'' out' with
  | ind n ih =>
    have hall := h
    cases h with
    | nil =>
      generalize hx : ([] : List Char) = x at h'
      cases h' with
      | nil => exact .nil
      | keep _ _ => cases hx
      | hide hcut _ =>
        obtain ⟨c, rest, rfl, -⟩ := hcut.start
        cases hx
    | @keep _ _ text out c _ rest =>
      generalize hx : c :: out = x at h'
      cases h' with
      | nil => cases hx
      | keep _ rest' =>
        obtain ⟨rfl, rfl⟩ := List.cons.inj hx
        exact .keep trivial (ih _ (by simp [← hn]) rest (sync_keep _ _ _ _) rest' rfl)
      | hide hcut rest' =>
        obtain ⟨d, w, hd, -⟩ := hcut.start
        rw [hx] at hall
        obtain ⟨text', htext, hrest⟩ := kept_prefix hides_secret hcut.not_mem hall
        rw [htext] at hsync hn ⊢
        have hsame : ∀ b b' t, Sync (b ++ d :: w) (b' ++ d :: w) t := by
          intro b b' t _
          rw [List.getLast?_append_of_ne_nil _ (List.cons_ne_nil d w),
            List.getLast?_append_of_ne_nil _ (List.cons_ne_nil d w)]
        refine .hide (.token (hcut.back hsync hrest)) (ih _ ?_ hrest ?_ rest' rfl)
        · rw [hd, List.length_append, List.length_cons] at hn
          omega
        · rw [hd]
          exact hsame _ _ _
    | @hide _ _ hidden text mark out hcut rest =>
      obtain ⟨out'', rfl, rest'⟩ := kept_mark hcut.isMark h'
      refine .hide hcut (ih _ ?_ rest (sync_hide hcut) rest' rfl)
      obtain ⟨c, w, rfl, -⟩ := hcut.head
      rw [List.length_append, List.length_cons] at hn
      omega

private theorem scrubText_cuts (text : List Char) :
    Cuts (fun _ _ _ ↦ True) Secret [] text [] (scrubText text) := by
  have hsync : ∀ t, Sync [] [] t := fun _ _ ↦ rfl
  have h₁ := cuts_replaceAll tidy_url text [] []
  have h₂ := compose h₁ (hsync _) (tokenPattern_keyId.cuts _)
  have h₃ := compose h₂ (hsync _) (tokenPattern_jwt.cuts _)
  exact compose h₃ (hsync _) (tokenPattern_slack.cuts _)

/-! ### The rest of a URL does not matter -/

section Rest

variable {prev : Option Char} {name rest rest' : List Char}

private theorem lastOr_of_ne_nil {a : List Char} (h : a ≠ []) : lastOr prev a = a.getLast? := by
  rw [lastOr, List.getLast?_eq_some_getLast h]
  rfl

/-- A match that starts before a URL has its scheme before it. -/
theorem scheme_before {before₀ : List Char} {hit : Hit Char} (hne : before₀ ≠ [])
    (hlast : wordAt before₀.getLast? = false) (hname : IsName name)
    (hhit : urlPattern prev (before₀ ++ (name ++ text)) = some hit) :
    wordAt prev = false ∧ ∃ first more, before₀ = first ++ ("://".toList ++ more) ∧ IsName first ∧
      more.head?.all inUrl = true := by
  obtain ⟨hstart, first, run, after, heq, hfirst, hpos, hrun, -, -⟩ := urlPattern_iff.mp hhit
  refine ⟨hstart, ?_⟩
  rw [← List.append_assoc first] at heq
  obtain ⟨tail, hover, htail⟩ | ⟨more, rfl, hmore⟩ := List.append_eq_append_iff.mp heq
  · cases tail with
    | nil =>
      exact ⟨first, [], by rw [List.append_nil, hover, List.append_nil], hfirst, rfl⟩
    | cons c tail =>
      -- the scheme of the match would go on with the first letter of `name`
      obtain ⟨d, name', rfl, hd, -⟩ := hname.head
      obtain ⟨rfl, -⟩ := List.cons.inj htail
      obtain hword | hnot := name_inside hfirst hover hne
      · rw [hlast] at hword
        cases hword
      · rw [hd] at hnot
        cases hnot
  · refine ⟨first, more, List.append_assoc .., hfirst, ?_⟩
    cases more with
    | nil => rfl
    | cons c more =>
      have hhead : (run ++ after).head?.any inUrl = true := head?_any_append hpos hrun
      rw [hmore] at hhead
      simpa using hhead

private theorem replaceAll_url (hstart : wordAt prev = false) (hname : IsName name)
    (hpos : rest ≠ [])
    (hrun : rest.all inUrl = true) (hstop : after.head?.any inUrl = false) :
    replaceAll urlPattern prev 0 (name ++ ("://".toList ++ (rest ++ after))) =
      name ++ ("://".toList ++ (REDACTED.toList ++
        replaceAll urlPattern (lastOr prev (name ++ "://".toList ++ rest)) 0 after)) := by
  have hhit := urlPattern_iff.mpr ⟨hstart, name, rest, after, rfl, hname, hpos, hrun, hstop, rfl⟩
  rw [← List.append_assoc] at hhit ⊢
  rw [replaceAll_hit hpos (by simpa using hhit), List.append_assoc]

/-- Behind a URL the letter before does not matter. -/
theorem replaceAll_stop (hstop : after.head?.any inUrl = false) (p p' : Option Char) :
    replaceAll urlPattern p 0 after = replaceAll urlPattern p' 0 after := by
  cases after with
  | nil => rfl
  | cons c after => simp only [replaceAll, urlPattern_stop hstop]

/-- The URL pass makes the same of a text whatever the rest of a URL in it. -/
theorem replaceAll_rest (hname : IsName name) (hpos : rest ≠ []) (hrun : rest.all inUrl = true)
    (hpos' : rest' ≠ []) (hrun' : rest'.all inUrl = true) (hstop : after.head?.any inUrl = false)
    (before : List Char) (prev : Option Char) (hlast : wordAt (lastOr prev before) = false) :
    replaceAll urlPattern prev 0 (before ++ (name ++ ("://".toList ++ (rest ++ after)))) =
      replaceAll urlPattern prev 0 (before ++ (name ++ ("://".toList ++ (rest' ++ after)))) := by
  induction hn : before.length using Nat.strongRecOn generalizing before prev with
  | ind n ih =>
    cases before with
    | nil =>
      have hstart : wordAt prev = false := hlast
      rw [List.nil_append, List.nil_append, replaceAll_url hstart hname hpos hrun hstop,
        replaceAll_url hstart hname hpos' hrun' hstop, replaceAll_stop hstop]
    | cons c before =>
      have hne : c :: before ≠ [] := List.cons_ne_nil c before
      by_cases hmatch : wordAt prev = false ∧ ∃ first more,
          c :: before = first ++ ("://".toList ++ more) ∧ IsName first ∧ more.head?.all inUrl = true
      · obtain ⟨hstart, first, more, hbefore, hfirst, hhead⟩ := hmatch
        rw [hbefore] at hlast hn ⊢
        by_cases hmore : more.all inUrl = true
        · -- the URL is in the rest of the one that starts here
          have hinside : ∀ r, r ≠ [] → r.all inUrl = true →
              replaceAll urlPattern prev 0 (first ++ ("://".toList ++ more) ++
                (name ++ ("://".toList ++ (r ++ after)))) =
              first ++ ("://".toList ++ (REDACTED.toList ++
                replaceAll urlPattern none 0 after)) := by
            intro r hr hall
            have heq : first ++ ("://".toList ++ more) ++ (name ++ ("://".toList ++ (r ++ after))) =
                first ++ ("://".toList ++ ((more ++ (name ++ "://".toList ++ r)) ++ after)) := by
              simp
            have hrunAll : (more ++ (name ++ "://".toList ++ r)).all inUrl = true := by
              rw [List.all_append, List.all_append, hmore, hname.run, hall]
              rfl
            rw [heq, replaceAll_url hstart hfirst (by simp) hrunAll hstop,
              replaceAll_stop hstop _ none]
          rw [hinside rest hpos hrun, hinside rest' hpos' hrun']
        · -- it is behind that rest
          obtain ⟨run, back, rfl, hrunMore, hback, hneRun, hneBack⟩ : ∃ run back, more = run ++ back ∧
              run.all inUrl = true ∧ back.head?.any inUrl = false ∧ run ≠ [] ∧ back ≠ [] := by
            refine ⟨more.takeWhile inUrl, more.dropWhile inUrl,
              List.takeWhile_append_dropWhile.symm, List.all_takeWhile,
              head?_dropWhile_any inUrl more, ?_, ?_⟩
            · cases more with
              | nil => exact absurd rfl hmore
              | cons d more =>
                have hd : inUrl d = true := by simpa using hhead
                simp [hd]
            · intro hnil
              exact hmore (List.all_eq_true.mpr (List.dropWhile_eq_nil_iff.mp hnil))
          have hbehind : ∀ r, replaceAll urlPattern prev 0
              (first ++ ("://".toList ++ (run ++ back)) ++ (name ++ ("://".toList ++ (r ++ after)))) =
              first ++ ("://".toList ++ (REDACTED.toList ++
                replaceAll urlPattern (lastOr prev (first ++ "://".toList ++ run)) 0
                  (back ++ (name ++ ("://".toList ++ (r ++ after)))))) := by
            intro r
            have heq : first ++ ("://".toList ++ (run ++ back)) ++
                (name ++ ("://".toList ++ (r ++ after))) =
                first ++ ("://".toList ++ (run ++ (back ++ (name ++ ("://".toList ++ (r ++ after)))))) := by
              simp
            have hstopBack : (back ++ (name ++ ("://".toList ++ (r ++ after)))).head?.any inUrl =
                false := by
              obtain ⟨d, back, rfl⟩ := List.exists_cons_of_ne_nil hneBack
              exact hback
            rw [heq, replaceAll_url hstart hfirst hneRun hrunMore hstopBack]
          have hshort : back.length < n := by
            simp only [List.length_append] at hn
            have hcolon : 0 < "://".toList.length := by decide
            omega
          rw [hbehind, hbehind, ih back.length hshort back _ (by simpa using hlast) rfl]
      · have hnone : ∀ r, urlPattern prev (c :: before ++ (name ++ ("://".toList ++ (r ++ after)))) =
            none := by
          intro r
          by_contra hsome
          obtain ⟨hit, hhit⟩ := Option.ne_none_iff_exists'.mp hsome
          rw [lastOr_of_ne_nil hne] at hlast
          exact hmatch (scheme_before hne hlast hname hhit)
        have hskip : ∀ r, replaceAll urlPattern prev 0
            (c :: before ++ (name ++ ("://".toList ++ (r ++ after)))) =
            c :: replaceAll urlPattern (some c) 0
              (before ++ (name ++ ("://".toList ++ (r ++ after)))) := by
          intro r
          have hr := hnone r
          rw [List.cons_append] at hr ⊢
          simp only [replaceAll, hr]
        rw [hskip, hskip, ih before.length (by simp [← hn]) before (some c) (by simpa using hlast) rfl]

end Rest

private theorem scrubText_rest {name rest rest' : List Char}
    (hurl : UrlAt IsName text before name rest after)
    (hpos : rest' ≠ []) (hrun : rest'.all inUrl = true) :
    scrubText (before ++ (name ++ ("://".toList ++ (rest' ++ after)))) = scrubText text := by
  have hsame := replaceAll_rest hurl.name hurl.pos hurl.run hpos hrun hurl.stop before none
    (by simpa [lastOr] using hurl.start)
  rw [hurl.eq, scrubText_eq, scrubText_eq, hsame]

/-! ### Scrubbing -/

private theorem toList_scrubString (t : String) : (scrubString t).toList = scrubText t.toList := by
  rw [scrubString, String.toList_ofList]

/-- The schemes whose URLs are hidden, in any letter case. -/
def IsScheme (name : List Char) : Prop :=
  name.map Char.toLower ∈
    ["postgres", "postgresql", "mysql", "mongodb", "mongodb+srv", "redis"].map String.toList

/-- The schemes that `redis(rediss)?` confuses; nothing is said of their URLs. -/
def IsConfused (name : List Char) : Prop :=
  name.map Char.toLower ∈ ["rediss", "redisrediss"].map String.toList

/-- A part of a text that a mark may stand for: the rest of a URL, a key id or a token. What the
rest of a URL of a confused scheme becomes is left open. -/
inductive Hidden (before hidden after : List Char) : List Char → Prop
  | url {text b name : List Char} (hbefore : before = b ++ (name ++ "://".toList))
      (hurl : UrlAt IsScheme text b name hidden after) : Hidden before hidden after REDACTED.toList
  | token {mark : List Char} (htoken : Token before hidden after mark) :
    Hidden before hidden after mark
  | confused {text b name mark : List Char} (hbefore : before = b ++ (name ++ "://".toList))
      (hurl : UrlAt IsConfused text b name hidden after) : Hidden before hidden after mark

private theorem IsScheme.isName {name : List Char} (h : IsScheme name) : IsName name := by
  have hall : ∀ scheme ∈ ["postgres", "postgresql", "mysql", "mongodb", "mongodb+srv", "redis"].map
      String.toList, scheme ∈ schemes := by decide
  exact hall _ h

private theorem IsName.isScheme_or {name : List Char} (h : IsName name) :
    IsScheme name ∨ IsConfused name := by
  have hall : ∀ scheme ∈ schemes, scheme ∈ ["postgres", "postgresql", "mysql", "mongodb",
      "mongodb+srv", "redis"].map String.toList ∨ scheme ∈ ["rediss", "redisrediss"].map
      String.toList := by decide
  exact hall _ h

private theorem UrlAt.of_isScheme {name rest : List Char}
    (h : UrlAt IsScheme text before name rest after) :
    UrlAt IsName text before name rest after :=
  ⟨h.eq, h.start, h.name.isName, h.pos, h.run, h.stop⟩

private theorem Secret.isHidden (h : Secret before hidden after mark) :
    Hidden before hidden after mark := by
  cases h with
  | token htoken => exact .token htoken
  | url hbefore hurl =>
    rcases hurl.name.isScheme_or with hname | hname
    · exact .url hbefore ⟨hurl.eq, hurl.start, hname, hurl.pos, hurl.run, hurl.stop⟩
    · exact .confused hbefore ⟨hurl.eq, hurl.start, hname, hurl.pos, hurl.run, hurl.stop⟩

/-- Whatever the rest of a URL of the text, the result is the same; in the result every URL has
`[REDACTED]` for its rest, no key id is delimited, and no token starts a word; the result is the
text with nothing but secrets hidden and every other letter kept; and it is its own result. -/
theorem scrubString_hides (t : String) :
    (∀ before name rest rest' after, UrlAt IsScheme t.toList before name rest after → rest' ≠ [] →
      rest'.all inUrl = true →
      scrubString (String.ofList (before ++ (name ++ ("://".toList ++ (rest' ++ after))))) =
        scrubString t) ∧
    (∀ before name rest after, UrlAt IsScheme (scrubString t).toList before name rest after →
      rest = REDACTED.toList) ∧
    (∀ before hidden after, (scrubString t).toList = before ++ (hidden ++ after) →
      (IsKeyId hidden → ¬ Delimited before hidden after) ∧
      (IsToken hidden → wordAt before.getLast? = true) ∧
      (IsSlack hidden → wordAt before.getLast? = false →
        boundary hidden.getLast? after.head? = false)) ∧
    Cuts (fun _ _ _ ↦ True) Hidden [] t.toList [] (scrubString t).toList ∧
    scrubString (scrubString t) = scrubString t := by
  have hsafe := safe_scrubText t.toList
  rw [toList_scrubString]
  refine ⟨?_, fun _ _ _ _ hurl ↦ hsafe.rest_eq hurl.of_isScheme, ?_,
    (scrubText_cuts t.toList).mono (fun _ _ _ h ↦ h) fun _ _ _ _ h ↦ h.isHidden, ?_⟩
  · intro before name rest rest' after hurl hpos hrun
    rw [scrubString, String.toList_ofList, scrubText_rest hurl.of_isScheme hpos hrun]
    rfl
  · intro before hidden after hout
    exact ⟨hsafe.no_keyId hout, hsafe.no_token hout, hsafe.no_slack hout⟩
  · rw [scrubString, toList_scrubString, hsafe.scrubText_eq_self]
    rfl

/-- Two records that differ in the rest of a database URL. -/
theorem scrubString_hides_mysql :
    scrubString "db mysql://u retry" = scrubString "db mysql://root:pw@db/chess, retry" :=
  (scrubString_hides "db mysql://root:pw@db/chess, retry").1 "db ".toList "mysql".toList
    "root:pw@db/chess,".toList "u".toList " retry".toList
    ⟨by decide, by decide, by unfold IsScheme; decide, by decide, by decide, by decide⟩
    (by decide) (by decide)

/-- A Slack token is in no URL and is no key id and no token of segments, and yet it is hidden; and
a token may take the scheme of a URL with it. -/
theorem slack_hidden :
    (NoMatch urlPattern none "xoxb-1".toList ∧ NoMatch keyIdPattern none "xoxb-1".toList ∧
      NoMatch jwtPattern none "xoxb-1".toList ∧ scrubString "xoxb-1" = "[REDACTED]") ∧
    UrlAt IsScheme "eyJaaaaaaaa.bbbbbbbb-mysql://u".toList "eyJaaaaaaaa.bbbbbbbb-".toList "mysql".toList
      "u".toList [] ∧
    scrubString "eyJaaaaaaaa.bbbbbbbb-mysql://u" = "[REDACTED_JWT]://[REDACTED]" := by
  refine ⟨by decide +kernel, ⟨by decide, by decide, ?_, by decide, by decide, rfl⟩,
    by decide +kernel⟩
  unfold IsScheme
  decide

end ChessStack.Log
