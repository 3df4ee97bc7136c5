import ChessStack.Auth.Family

/-!
# Revocation

Library `Auth`. Once a reuse detection, a logout or a reset has committed its revocation, no refresh
token of the family or user is live again, provided no transaction committed a new one between the
snapshot of the revoking `UPDATE` and its commit.
-/

namespace ChessStack.Auth

open ChessStack.Library ChessStack.Library.ReadCommitted

/-- The committed call revoked the family of this token, or all tokens of its user. -/
def RevokedBy (hashToken : String → String) (before : Tables) (t : RefreshToken) :
    (c : Call) → c.Result → Prop
  | .rotateRefreshToken _ _ raw _, value => value = none ∧
    ∃ old, refresh? before (hashToken raw) = some old ∧ t.familyId = old.familyId
  | .logout _ userId, _ => t.userId = userId
  | .resetPassword _ raw _, _ =>
    ∃ token, account? before (hashToken raw) = some token ∧ t.userId = token.userId
  | .revokeAllForUser _ userId, _ => t.userId = userId
  | _, _ => False

/-- The outcome revoked a family that had a token then. -/
def Ended (hashToken : String → String) (e : Outcome Key Row Call Call.Result) (family : String) :
    Prop :=
  ∃ c value before after hash t, e = .committed c value before after ∧
    refresh? after hash = some t ∧ RevokedBy hashToken before t c value ∧ t.familyId = family

/-- The outcome exchanged a token of the family for a session. -/
def Exchanged (hashToken : String → String) (e : Outcome Key Row Call Call.Result)
    (family : String) : Prop :=
  ∃ now date raw nextRaw session before after t,
    e = .committed (.rotateRefreshToken now date raw nextRaw) (some session) before after ∧
      refresh? before (hashToken raw) = some t ∧ t.familyId = family

/-- The outcome is a logout or reset of a user who had this session version. -/
def SignedOut (hashToken : String → String) (userId version : Nat) :
    Outcome Key Row Call Call.Result → Prop
  | .committed (.logout _ id) _ before _ =>
    id = userId ∧ ∃ user, user? before userId = some user ∧ user.sessionVersion = version
  | .committed (.resetPassword _ raw _) _ before _ =>
    ∃ token user, account? before (hashToken raw) = some token ∧ token.userId = userId ∧
      user? before userId = some user ∧ user.sessionVersion = version
  | _ => False

/-- A token of the family exists, and all of them are revoked. -/
def Dead (d : Tables) (family : String) : Prop :=
  (∃ hash t, refresh? d hash = some t ∧ t.familyId = family) ∧
    ∀ hash t, refresh? d hash = some t → t.familyId = family → t.revokedAt.isSome

/-- After a revocation all tokens of its families are revoked and none is exchanged for a session;
requests without an access token, or with one from before a logout or reset, are refused. -/
structure RevocationComplete (hashToken : String → String) (s : State Key Row Call Call.Result) :
    Prop where
  dead : ∀ e ∈ s.log, ∀ family, Ended hashToken e family → Dead s.db family
  refused : s.log.Pairwise fun e e' ↦ ∀ family, Ended hashToken e family →
    ¬ Exchanged hashToken e' family
  refreshOnly : ∀ refresh, authMiddleware s.db ⟨none, refresh⟩ = false
  oldSessions : ∀ e ∈ s.log, ∀ payload refresh version, SignedOut hashToken payload.id version e →
    payload.sessionVersion ≤ version → authMiddleware s.db ⟨some payload, refresh⟩ = false

section Steps

variable {hashToken uuid : String → String} {log : Log} {d d' : Tables} {family : String}

/-- A dead family stays dead. -/
theorem Dead.later (huuid : Function.Injective uuid) (hfamilies : Families hashToken uuid log d)
    (h : Dead d family) (hlater : Later uuid d d') : Dead d' family := by
  obtain ⟨⟨hash, t, ht, rfl⟩, hall⟩ := h
  obtain ⟨t', ht', hl⟩ := hlater.refreshes hash t ht
  refine ⟨⟨hash, t', ht', hl.familyId⟩, fun h₀ t₀ ht₀ hfamily ↦ ?_⟩
  cases hold : refresh? d h₀ with
  | some t₁ =>
    obtain ⟨t₂, ht₂, hl₁⟩ := hlater.refreshes h₀ t₁ hold
    obtain rfl := Option.some.inj (ht₀.symm.trans ht₂)
    exact hl₁.isSome (hall h₀ t₁ hold (hl₁.familyId.symm.trans hfamily))
  | none =>
    rcases hlater.minted h₀ t₀ ht₀ hold with ⟨root, hroot, hnew⟩ | ⟨h₁, t₁, ht₁, hfamily₁, hlive⟩
    · exact absurd (hfamily.symm.trans hroot) (hfamilies.fresh huuid hnew hash t ht)
    · have hrevoked := hall h₁ t₁ ht₁ (hfamily₁.trans hfamily)
      rw [hlive] at hrevoked
      cases hrevoked

/-- The tokens of a family have one user. -/
def OneOwner (d : Tables) : Prop :=
  ∀ hash t hash' t', refresh? d hash = some t → refresh? d hash' = some t' →
    t.familyId = t'.familyId → t.userId = t'.userId

private theorem OneOwner.of_old (h : OneOwner d)
    (hold : ∀ hash t', refresh? d' hash = some t' → ∃ t, refresh? d hash = some t ∧
      t'.familyId = t.familyId ∧ t'.userId = t.userId) : OneOwner d' := by
  intro hash t hash' t' ht ht' hfamily
  obtain ⟨t₀, ht₀, hfam₀, huser₀⟩ := hold hash t ht
  obtain ⟨t₁, ht₁, hfam₁, huser₁⟩ := hold hash' t' ht'
  rw [huser₀, huser₁]
  exact h hash t₀ hash' t₁ ht₀ ht₁ (hfam₀.symm.trans (hfamily.trans hfam₁))

private theorem RevokedWhere.old {now : Nat} {sel : String → RefreshToken → Prop}
    (h : RevokedWhere now sel d d') : ∀ hash t', refresh? d' hash = some t' →
      ∃ t, refresh? d hash = some t ∧ t'.familyId = t.familyId ∧ t'.userId = t.userId := by
  intro hash t' ht'
  rcases h hash with hsame | ⟨t, ht, -, -, hset⟩
  · exact ⟨t', hsame.symm.trans ht', rfl, rfl⟩
  · obtain rfl := Option.some.inj (ht'.symm.trans hset)
    exact ⟨t, ht, rfl, rfl⟩

/-- A new token of a new family, or of the family and user of another. -/
theorem OneOwner.mint (h : OneOwner d) (hash₀ : String) (new : RefreshToken)
    (hnew : (∀ hash t, refresh? d hash = some t → t.familyId ≠ new.familyId) ∨
      ∃ hash t, refresh? d hash = some t ∧ t.familyId = new.familyId ∧ t.userId = new.userId)
    (hrows : ∀ hash t', refresh? d' hash = some t' → hash = hash₀ ∧ t' = new ∨
      ∃ t, refresh? d hash = some t ∧ t'.familyId = t.familyId ∧ t'.userId = t.userId) :
    OneOwner d' := by
  have howner : ∀ hash t, refresh? d hash = some t → t.familyId = new.familyId →
      t.userId = new.userId := by
    intro hash t ht hfamily
    rcases hnew with hnew | ⟨hash₁, t₁, ht₁, hfam₁, huser₁⟩
    · exact absurd hfamily (hnew hash t ht)
    · rw [← huser₁]
      exact h hash t hash₁ t₁ ht ht₁ (hfamily.trans hfam₁.symm)
  intro hash t hash' t' ht ht' hfamily
  rcases hrows hash t ht with ⟨-, rfl⟩ | ⟨t₀, ht₀, hfam₀, huser₀⟩
  · rcases hrows hash' t' ht' with ⟨-, rfl⟩ | ⟨t₁, ht₁, hfam₁, huser₁⟩
    · rfl
    · rw [huser₁]
      exact (howner hash' t₁ ht₁ (hfam₁.symm.trans hfamily.symm)).symm
  · rcases hrows hash' t' ht' with ⟨-, rfl⟩ | ⟨t₁, ht₁, hfam₁, huser₁⟩
    · rw [huser₀]
      exact howner hash t₀ ht₀ (hfam₀.symm.trans hfamily)
    · rw [huser₀, huser₁]
      exact h hash t₀ hash' t₁ ht₀ ht₁ (hfam₀.symm.trans (hfamily.trans hfam₁))

end Steps

/-! ### Runs -/

section Runs

variable {p : Params} {log : Log} {d d' : Tables}

private theorem oneOwner_of_trace (huuid : Function.Injective p.uuid)
    (h : p.rule.Trace (p.system NoTokens) log d) : OneOwner d := by
  induction h with
  | start hstart =>
    intro hash t _ _ ht
    rw [hstart hash] at ht
    cases ht
  | @committed log d d' c value htrace _ hpost ih =>
    obtain ⟨-, heffect⟩ := hpost
    cases heffect with
    | issueAccountToken _ =>
      exact ih.of_old fun hash t' ht' ↦
        ⟨t', (congrFun (tables_putAccount _ _).2.1 hash).symm.trans ht', rfl, rfl⟩
    | verifyEmail _ _ _ hrefresh =>
      exact ih.of_old fun hash t' ht' ↦ ⟨t', (congrFun hrefresh hash).symm.trans ht', rfl, rfl⟩
    | resetPassword _ _ _ hrows _ => exact ih.of_old hrows.old
    | @issueRefreshToken _ now userId raw hnew =>
      have hnone : refresh? d (p.hashToken raw) = none := by rw [refresh?, hnew, Option.bind_none]
      refine ih.mint (p.hashToken raw) ⟨userId, p.uuid (p.hashToken raw),
        now + p.refreshMaxAgeMs, none, none, none⟩
        (.inl ((families_of_trace huuid htrace).fresh huuid hnone)) fun hash t' ht' ↦ ?_
      rw [(tables_putRefresh _ _).2.2] at ht'
      split at ht'
      · next heq => exact .inl ⟨heq, (Option.some.inj ht').symm⟩
      · exact .inr ⟨t', ht', rfl, rfl⟩
    | reuse _ _ _ _ _ _ hrows _ => exact ih.of_old hrows.old
    | @rotate _ _ now date raw nextRaw old _ _ hold _ _ _ hnew _ _ _ _ hrows =>
      refine ih.mint (p.hashToken nextRaw) ⟨old.userId, old.familyId,
        now + p.refreshMaxAgeMs, none, none, none⟩ (.inr ⟨_, old, hold, rfl, rfl⟩)
        fun hash t' ht' ↦ ?_
      rw [hrows] at ht'
      split at ht'
      · next heq => exact .inl ⟨heq, (Option.some.inj ht').symm⟩
      split at ht'
      · obtain rfl := Option.some.inj ht'
        exact .inr ⟨old, by simp_all, rfl, rfl⟩
      · exact .inr ⟨t', ht', rfl, rfl⟩
    | revokeRefreshToken _ _ hrows => exact ih.of_old hrows.old
    | revokeAllForUser _ _ hrows _ => exact ih.of_old hrows.old
    | logout _ _ _ hrows _ => exact ih.of_old hrows.old
  | returned _ _ _ ih => exact ih
  | failed _ ih => exact ih

/-- What a revocation leaves, in the order of the outcomes. -/
structure Closing (hashToken : String → String) (log : Log) (d : Tables) : Prop where
  dead : ∀ e ∈ log, ∀ family, Ended hashToken e family → Dead d family
  refused : log.Pairwise fun e e' ↦ ∀ family, Ended hashToken e family →
    ¬ Exchanged hashToken e' family
  signedOut : ∀ e ∈ log, ∀ userId version, SignedOut hashToken userId version e →
    ∃ user, user? d userId = some user ∧ version < user.sessionVersion

private theorem Closing.append {e : Outcome Key Row Call Call.Result}
    (huuid : Function.Injective p.uuid)
    (hfamilies : Families p.hashToken p.uuid log d) (h : Closing p.hashToken log d)
    (hlater : Later p.uuid d d')
    (hended : ∀ family, Ended p.hashToken e family → Dead d' family)
    (hexchanged : ∀ family, Exchanged p.hashToken e family →
      ∃ hash t, refresh? d hash = some t ∧ t.familyId = family ∧ t.revokedAt = none)
    (hsigned : ∀ userId version, SignedOut p.hashToken userId version e →
      ∃ user, user? d' userId = some user ∧ version < user.sessionVersion) :
    Closing p.hashToken (log ++ [e]) d' where
  dead e' he' family hend := by
    rcases List.mem_append.mp he' with he' | he'
    · exact (h.dead e' he' family hend).later huuid hfamilies hlater
    · exact hended family (List.mem_singleton.mp he' ▸ hend)
  refused := by
    refine List.pairwise_append.mpr ⟨h.refused, by simp, ?_⟩
    intro e₁ he₁ e₂ he₂ family hend hex
    obtain rfl := List.mem_singleton.mp he₂
    obtain ⟨hash, t, ht, hfamily, hlive⟩ := hexchanged family hex
    have hrevoked := (h.dead e₁ he₁ family hend).2 hash t ht hfamily
    rw [hlive] at hrevoked
    cases hrevoked
  signedOut e' he' userId version hs := by
    rcases List.mem_append.mp he' with he' | he'
    · obtain ⟨user, huser, hlt⟩ := h.signedOut e' he' userId version hs
      obtain ⟨user', huser', hle⟩ := hlater.users userId user huser
      exact ⟨user', huser', hlt.trans_le hle⟩
    · exact hsigned userId version (List.mem_singleton.mp he' ▸ hs)

/-- A commit that revokes leaves its families dead. -/
theorem dead_of_effect {c : Call} {value : c.Result} (howner : OneOwner d') (hg : p.guarded)
    (h : Effect p.hashToken p.uuid p.refreshMaxAgeMs p.guarded p.Alone c value d d')
    {family : String} (hend : Ended p.hashToken (.committed c value d d') family) :
    Dead d' family := by
  obtain ⟨_, _, _, _, hash, t, heq, ht, hrevoked, rfl⟩ := hend
  cases heq
  have huser : ∀ userId, AllRevoked (·.userId = userId) d' → t.userId = userId →
      Dead d' t.familyId := by
    rintro userId hall rfl
    refine ⟨⟨hash, t, ht, rfl⟩, fun hash' t' ht' hfamily ↦ hall hash' t' ht' ?_⟩
    exact howner hash' t' hash t ht' ht hfamily
  cases h with
  | reuse hold _ _ _ _ _ _ hall =>
    obtain ⟨-, old', hold', hfamily⟩ := hrevoked
    obtain rfl := Option.some.inj (hold.symm.trans hold')
    exact ⟨⟨hash, t, ht, rfl⟩, fun hash' t' ht' hf ↦ hall hg hash' t' ht' (hf.trans hfamily)⟩
  | rotate => cases hrevoked.1
  | logout _ _ _ _ hall => exact huser _ (hall hg) hrevoked
  | resetPassword hconsumed _ _ _ hall =>
    obtain ⟨token, htoken, hid⟩ := hrevoked
    obtain rfl := Option.some.inj (htoken.symm.trans hconsumed.found)
    exact huser _ (hall (.inl hg)) hid
  | revokeAllForUser _ _ _ hall => exact huser _ (hall hg) hrevoked
  | issueAccountToken => exact hrevoked.elim
  | verifyEmail => exact hrevoked.elim
  | issueRefreshToken => exact hrevoked.elim
  | revokeRefreshToken => exact hrevoked.elim

private theorem signedOut_of_effect {c : Call} {value : c.Result}
    (h : Effect p.hashToken p.uuid p.refreshMaxAgeMs p.guarded p.Alone c value d d')
    {userId version : Nat} (hs : SignedOut p.hashToken userId version (.committed c value d d')) :
    ∃ user, user? d' userId = some user ∧ version < user.sessionVersion := by
  cases h with
  | logout huser hset =>
    obtain ⟨rfl, user', huser', rfl⟩ := hs
    obtain rfl := Option.some.inj (huser.symm.trans huser')
    exact ⟨_, (hset _).trans (if_pos rfl), Nat.lt_succ_self _⟩
  | resetPassword hconsumed huser hset =>
    obtain ⟨token, user', htoken, rfl, huser', rfl⟩ := hs
    obtain rfl := Option.some.inj (htoken.symm.trans hconsumed.found)
    obtain rfl := Option.some.inj (huser.symm.trans huser')
    exact ⟨_, (hset _).trans (if_pos rfl), Nat.lt_succ_self _⟩
  | reuse => exact hs.elim
  | rotate => exact hs.elim
  | revokeAllForUser => exact hs.elim
  | issueAccountToken => exact hs.elim
  | verifyEmail => exact hs.elim
  | issueRefreshToken => exact hs.elim
  | revokeRefreshToken => exact hs.elim

private theorem closing_of_trace (huuid : Function.Injective p.uuid) (hg : p.guarded)
    (h : p.rule.Trace (p.system NoTokens) log d) : Closing p.hashToken log d := by
  induction h with
  | start => exact ⟨nofun, .nil, nofun⟩
  | @committed log d d' c value htrace hinv hpost ih =>
    have howner := oneOwner_of_trace huuid (htrace.committed hinv hpost)
    refine ih.append huuid (families_of_trace huuid htrace) (later_of_effect hpost.2)
      (fun family ↦ dead_of_effect howner hg hpost.2) ?_ fun _ _ ↦ signedOut_of_effect hpost.2
    rintro family ⟨now, date, raw, nextRaw, session, before, after, t, heq, ht, hfamily⟩
    cases heq
    obtain ⟨-, heffect⟩ := hpost
    cases heffect with
    | rotate hold _ hlive =>
      obtain rfl := Option.some.inj (ht.symm.trans hold)
      exact ⟨_, t, ht, hfamily, hlive⟩
  | returned htrace _ _ ih =>
    refine ih.append huuid (families_of_trace huuid htrace) (Later.refl _) ?_ ?_ fun _ _ ↦ False.elim
    · rintro family ⟨_, _, _, _, _, _, heq, -⟩
      cases heq
    · rintro family ⟨_, _, _, _, _, _, _, _, heq, -⟩
      cases heq
  | failed htrace ih =>
    refine ih.append huuid (families_of_trace huuid htrace) (Later.refl _) ?_ ?_ fun _ _ ↦ False.elim
    · rintro family ⟨_, _, _, _, _, _, heq, -⟩
      cases heq
    · rintro family ⟨_, _, _, _, _, _, _, _, heq, -⟩
      cases heq

/-- In every run in which no transaction commits a new token while a transaction that revokes its
family or user is between the snapshot of its `UPDATE` and its end, revocation is complete. -/
theorem revocation_complete (hashToken uuid : String → String) (refreshMaxAgeMs : Nat)
    (spawn : Call → Prop) (huuid : Function.Injective uuid) {s : State Key Row Call Call.Result}
    (hs : ((tokens hashToken uuid refreshMaxAgeMs NoTokens spawn).machine.restrict
      (MintsInTime hashToken)).Reachable s) : RevocationComplete hashToken s := by
  have hkept := Rule.kept (tokens_sound ⟨hashToken, uuid, refreshMaxAgeMs, True, spawn⟩ NoTokens)
    (fun s i hmint j hji c locks own point hj _ hpast hash t ht hnone ↦
      hmint hash t ht hnone j hji c locks own point hj hpast) hs
  have hclosing := closing_of_trace huuid trivial hkept.trace
  refine ⟨hclosing.dead, hclosing.refused, fun _ ↦ rfl, ?_⟩
  intro e he payload refresh version hsigned hle
  obtain ⟨user, huser, hlt⟩ := hclosing.signedOut e he payload.id version hsigned
  have hne : (user.sessionVersion == payload.sessionVersion) = false :=
    beq_false_of_ne (by omega)
  simp [authMiddleware, activeSession, huser, hne]

end Runs

private theorem mintsInTime_quiet {hashToken : String → String} {s : State Key Row Call Call.Result}
    (h : s.Quiet 1) (l : Label Key Call) : MintsInTime hashToken s l := by
  cases l with
  | commit i =>
    intro hash t ht hnone j hji c locks own point hj
    have hj0 : j < 1 := h.lt hj
    rw [h i (by omega)] at ht
    exact absurd (ht.symm.trans hnone) (Option.some_ne_none t)
  | begin | snapshot | lock | go | stop => trivial

/-- Reuse detection without interference: the family was issued as `a` and rotated to `b`. -/
def reusing (i : Nat) : List (Label Key Call) :=
  [.begin i (.rotateRefreshToken 1 1 "a" "z"), .snapshot i, .lock i (.refresh "a"), .go i,
    .snapshot i, .lock i (.refresh "a"), .lock i (.refresh "b"), .go i, .commit i]

/-- A token is presented twice, and its family is revoked. -/
theorem revocation_complete_reuse : ∃ s, (refresh? s.db "b").any (·.revokedAt.isSome) = true ∧
    RevocationComplete id s := by
  have hrun : ∃ s, (tokens id id 1000 NoTokens fun _ ↦ True).play 1 oneUser
      (issuing 0 (.issueRefreshToken 0 1 "a") ++ rotating 0 "a" "b" ++ reusing 0) = some s ∧
        (refresh? s.db "b").any (·.revokedAt.isSome) = true :=
    Option.map_eq_some_iff.mp (by decide +kernel)
  obtain ⟨s, hs, hb⟩ := hrun
  exact ⟨s, hb, revocation_complete id id 1000 (fun _ ↦ True) Function.injective_id
    (play_restrict (fun _ l hq ↦ mintsInTime_quiet hq l) oneUser_noTokens (fun _ _ _ ↦ trivial) hs)⟩

/-- A rotation of `b` to `c` that has not committed yet. -/
def rotatingOn (i : Nat) : List (Label Key Call) :=
  [.begin i (.rotateRefreshToken 1 1 "b" "c"), .snapshot i, .lock i (.refresh "b"), .go i,
    .snapshot i, .lock i (.refresh "b"), .go i, .go i, .go i]

/-- A reuse detection whose `UPDATE` waits for that rotation. -/
def overtaken : List (Label Key Call) :=
  issuing 0 (.issueRefreshToken 0 1 "a") ++ rotating 0 "a" "b" ++ rotatingOn 0 ++
    [Label.begin 1 (.rotateRefreshToken 1 1 "a" "z"), .snapshot 1, .lock 1 (.refresh "a"), .go 1,
      .snapshot 1, .lock 1 (.refresh "a"), .commit 0, .lock 1 (.refresh "b"), .go 1, .commit 1] ++
    rotating 0 "c" "d"

/-- The last two outcomes are a reuse detection in family `a` and an exchange in it. -/
def escaped (s : State Key Row Call Call.Result) : Bool :=
  match s.log with
  | [_, _, _, .committed (.rotateRefreshToken _ _ raw _) none before after,
      .committed (.rotateRefreshToken _ _ raw' _) (some _) before' _] =>
    (refresh? before raw).map (·.familyId) = some "a" &&
      (refresh? after raw).map (·.familyId) = some "a" &&
      (refresh? before' raw').map (·.familyId) = some "a"
  | _ => false

/-- The UPDATE of a reuse detection does not see the token that a rotation it waits for inserts:
the token is exchanged for a session afterwards. -/
theorem not_revocation_complete_overtaken : ¬ ∀ s,
    (tokens id id 1000 NoTokens fun _ ↦ True).machine.Reachable s → RevocationComplete id s := by
  intro h
  have hrun : ∃ s, (tokens id id 1000 NoTokens fun _ ↦ True).play 2 oneUser overtaken = some s ∧
      escaped s = true := Option.map_eq_some_iff.mp (by decide +kernel)
  obtain ⟨s, hs, hescaped⟩ := hrun
  have hrefused := (h s (play_reachable oneUser_noTokens (fun _ _ _ ↦ trivial) hs)).refused
  unfold escaped at hescaped
  split at hescaped
  · next now date raw nextRaw before after now' date' raw' nextRaw' session before' after' hlog =>
    simp only [Bool.and_eq_true, decide_eq_true_eq] at hescaped
    obtain ⟨⟨hbefore, hafter⟩, hbefore'⟩ := hescaped
    obtain ⟨old, hold, hfamily⟩ := Option.map_eq_some_iff.mp hbefore
    obtain ⟨t, ht, hfamily'⟩ := Option.map_eq_some_iff.mp hafter
    obtain ⟨t', ht', hfamily''⟩ := Option.map_eq_some_iff.mp hbefore'
    rw [hlog] at hrefused
    simp only [List.pairwise_cons] at hrefused
    refine hrefused.2.2.2.1 _ (List.mem_singleton_self _) "a" ?_ ?_
    · exact ⟨_, _, before, after, raw, t, rfl, ht, ⟨rfl, old, hold, hfamily'.trans hfamily.symm⟩,
        hfamily'⟩
    · exact ⟨_, _, raw', _, session, before', _, t', rfl, ht', hfamily''⟩
  · cases hescaped

end ChessStack.Auth
