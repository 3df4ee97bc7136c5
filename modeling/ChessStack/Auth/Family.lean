import ChessStack.Auth.Sound
import Mathlib.Data.List.Chain

/-!
# Refresh families

Library `Auth`. A family is the token that `issueRefreshToken` inserted and those that rotations
minted from it: each was replaced by the next one, and only the newest is unconsumed. This holds in
every committed state, whatever calls are interleaved or aborted.
-/

namespace ChessStack.Auth

open ChessStack.Library ChessStack.Library.ReadCommitted

/-- The outcomes of the calls, in order. -/
abbrev Log := List (Outcome Key Row Call Call.Result)

/-- A rotation of the older token minted the newer one. -/
def ReplacedBy (d : Tables) (newer older : String) : Prop :=
  ∃ t, refresh? d older = some t ∧ t.consumedAt.isSome ∧ t.replacedByHash = some newer

/-- A committed `issueRefreshToken` inserted the token. -/
def Issued (hashToken : String → String) (log : Log) (hash : String) : Prop :=
  ∃ now userId raw before after,
    Outcome.committed (.issueRefreshToken now userId raw) () before after ∈ log ∧
      hashToken raw = hash

/-- The tokens of a family from the newest to the issued one. -/
structure Family (hashToken uuid : String → String) (log : Log) (d : Tables) (familyId : String)
    (newest : String) (older : List String) : Prop where
  newest_unconsumed : ∀ t, refresh? d newest = some t →
    t.consumedAt = none ∧ t.replacedByHash = none
  chain : List.IsChain (ReplacedBy d) (newest :: older)
  rows : ∀ hash, hash ∈ newest :: older ↔ ∃ t, refresh? d hash = some t ∧ t.familyId = familyId
  nodup : (newest :: older).Nodup
  issued : ∃ root, (newest :: older).getLast? = some root ∧ familyId = uuid root ∧
    Issued hashToken log root

/-- The outcome is a successful rotation of the token. -/
def Rotated (hashToken : String → String) (e : Outcome Key Row Call Call.Result) (hash : String) :
    Prop :=
  ∃ now date raw nextRaw session before after, e =
    .committed (.rotateRefreshToken now date raw nextRaw) (some session) before after ∧
      hashToken raw = hash

section Family

variable {hashToken uuid : String → String} {log log' : Log} {d d' : Tables}
  {familyId newest : String} {older : List String}

/-- What a family is about: which rows it has and how they were consumed. -/
def SameLinks (familyId : String) (d d' : Tables) : Prop :=
  (∀ hash t, refresh? d hash = some t → t.familyId = familyId → ∃ t', refresh? d' hash = some t' ∧
    t'.familyId = t.familyId ∧ t'.consumedAt = t.consumedAt ∧
    t'.replacedByHash = t.replacedByHash) ∧
  ∀ hash t', refresh? d' hash = some t' → t'.familyId = familyId →
    ∃ t, refresh? d hash = some t ∧ t.familyId = familyId

private theorem Family.congr (h : Family hashToken uuid log d familyId newest older)
    (hlog : ∀ e ∈ log, e ∈ log') (hd : SameLinks familyId d d') :
    Family hashToken uuid log' d' familyId newest older where
  newest_unconsumed t' ht' := by
    obtain ⟨t, ht, hfamily⟩ := (h.rows newest).mp List.mem_cons_self
    obtain ⟨t₁, ht₁, -, hconsumed, hreplaced⟩ := hd.1 newest t ht hfamily
    obtain rfl := Option.some.inj (ht'.symm.trans ht₁)
    rw [hconsumed, hreplaced]
    exact h.newest_unconsumed t ht
  chain := by
    refine h.chain.imp_of_mem_imp fun newer old _ hold ⟨t, ht, hconsumed, hreplaced⟩ ↦ ?_
    obtain ⟨t₁, ht₁, hfamily⟩ := (h.rows old).mp hold
    obtain rfl := Option.some.inj (ht.symm.trans ht₁)
    obtain ⟨t', ht', -, hconsumed', hreplaced'⟩ := hd.1 old t ht hfamily
    exact ⟨t', ht', hconsumed' ▸ hconsumed, hreplaced'.trans hreplaced⟩
  rows hash := by
    rw [h.rows]
    constructor
    · rintro ⟨t, ht, hfamily⟩
      obtain ⟨t', ht', hfamily', -⟩ := hd.1 hash t ht hfamily
      exact ⟨t', ht', hfamily'.trans hfamily⟩
    · rintro ⟨t', ht', hfamily⟩
      exact hd.2 hash t' ht' hfamily
  nodup := h.nodup
  issued := by
    obtain ⟨root, hroot, huuid, now, userId, raw, before, after, hmem, hraw⟩ := h.issued
    exact ⟨root, hroot, huuid, now, userId, raw, before, after, hlog _ hmem, hraw⟩

/-- Every token but the newest is consumed. -/
theorem Family.newest_of_unconsumed (h : Family hashToken uuid log d familyId newest older)
    {hash : String} {t : RefreshToken} (ht : refresh? d hash = some t)
    (hfamily : t.familyId = familyId) (hlive : t.consumedAt = none) : hash = newest := by
  have hmem := (h.rows hash).mpr ⟨t, ht, hfamily⟩
  have hchain := h.chain
  clear h
  induction older generalizing newest with
  | nil => exact List.mem_singleton.mp hmem
  | cons next older ih =>
    rcases List.mem_cons.mp hmem with rfl | hmem
    · rfl
    · rw [List.isChain_cons_cons] at hchain
      obtain rfl := ih hmem hchain.2
      obtain ⟨⟨t', ht', hconsumed, -⟩, -⟩ := hchain
      obtain rfl := Option.some.inj (ht.symm.trans ht')
      rw [hlive] at hconsumed
      cases hconsumed

private theorem Family.root (h : Family hashToken uuid log d familyId newest older) :
    ∃ root t, familyId = uuid root ∧ refresh? d root = some t := by
  obtain ⟨root, hroot, huuid, -⟩ := h.issued
  obtain ⟨t, ht, -⟩ := (h.rows root).mp (List.mem_of_getLast? hroot)
  exact ⟨root, t, huuid, ht⟩

/-- Every refresh token is in its family. -/
def Families (hashToken uuid : String → String) (log : Log) (d : Tables) : Prop :=
  ∀ hash t, refresh? d hash = some t →
    ∃ newest older, Family hashToken uuid log d t.familyId newest older

private theorem Families.congr (h : Families hashToken uuid log d) (hlog : ∀ e ∈ log, e ∈ log')
    (hd : ∀ familyId, SameLinks familyId d d') : Families hashToken uuid log' d' := by
  intro hash t' ht'
  obtain ⟨t, ht, hfamily⟩ := (hd t'.familyId).2 hash t' ht' rfl
  obtain ⟨newest, older, hold⟩ := h hash t ht
  exact ⟨newest, older, hfamily ▸ hold.congr hlog (hfamily ▸ hd t.familyId)⟩

private theorem sameLinks_of_eq (h : refresh? d' = refresh? d) : SameLinks familyId d d' := by
  refine ⟨fun hash t ht _ ↦ ⟨t, h ▸ ht, rfl, rfl, rfl⟩, fun hash t ht hfamily ↦ ?_⟩
  exact ⟨t, h ▸ ht, hfamily⟩

private theorem RevokedWhere.sameLinks {now : Nat} {sel : String → RefreshToken → Prop}
    (h : RevokedWhere now sel d d') : SameLinks familyId d d' := by
  constructor
  · intro hash t ht _
    rcases h hash with hsame | ⟨t₀, ht₀, -, -, hset⟩
    · exact ⟨t, hsame.trans ht, rfl, rfl, rfl⟩
    · obtain rfl := Option.some.inj (ht.symm.trans ht₀)
      exact ⟨_, hset, rfl, rfl, rfl⟩
  · intro hash t' ht' hfamily
    rcases h hash with hsame | ⟨t₀, ht₀, -, -, hset⟩
    · exact ⟨t', hsame.symm.trans ht', hfamily⟩
    · obtain rfl := Option.some.inj (ht'.symm.trans hset)
      exact ⟨t₀, ht₀, hfamily⟩

/-- No token is in the family that a new token begins. -/
theorem Families.fresh (huuid : Function.Injective uuid) (h : Families hashToken uuid log d)
    {hash₀ : String} (hnew : refresh? d hash₀ = none) :
    ∀ hash t, refresh? d hash = some t → t.familyId ≠ uuid hash₀ := by
  intro hash t ht heq
  obtain ⟨newest, older, hfamily⟩ := h hash t ht
  obtain ⟨root, t₀, hroot, ht₀⟩ := hfamily.root
  rw [huuid (hroot.symm.trans heq), hnew] at ht₀
  cases ht₀

/-- `issueRefreshToken` begins a family. -/
theorem Families.issue (huuid : Function.Injective uuid) (h : Families hashToken uuid log d)
    {now userId refreshMaxAgeMs : Nat} {raw : String}
    (hnew : refresh? d (hashToken raw) = none)
    (hlog : ∀ e ∈ log, e ∈ log') (hissued : Issued hashToken log' (hashToken raw)) :
    Families hashToken uuid log' (d.put (.refresh (hashToken raw))
      (.refresh ⟨userId, uuid (hashToken raw), now + refreshMaxAgeMs, none, none, none⟩)) := by
  have hrefreshes := (tables_putRefresh (d := d) (hashToken raw)
    ⟨userId, uuid (hashToken raw), now + refreshMaxAgeMs, none, none, none⟩).2.2
  have hother := h.fresh huuid hnew
  intro hash t' ht'
  rw [hrefreshes] at ht'
  split at ht'
  · cases ht'
    refine ⟨hashToken raw, [], fun t ht ↦ ?_, .singleton _, fun h₀ ↦ ?_, by simp,
      hashToken raw, rfl, rfl, hissued⟩
    · rw [hrefreshes, if_pos rfl] at ht
      cases ht
      exact ⟨rfl, rfl⟩
    · rw [List.mem_singleton, hrefreshes]
      constructor
      · rintro rfl
        exact ⟨_, if_pos rfl, rfl⟩
      · rintro ⟨t, ht, hfamily⟩
        split at ht
        · assumption
        · exact absurd hfamily (hother h₀ t ht)
  · next hne =>
    obtain ⟨newest, older, hfamily⟩ := h hash t' ht'
    refine ⟨newest, older, hfamily.congr hlog ⟨fun h₀ t ht _ ↦ ⟨t, ?_, rfl, rfl, rfl⟩, ?_⟩⟩
    · rw [hrefreshes, if_neg, ht]
      rintro rfl
      rw [hnew] at ht
      cases ht
    · intro h₀ t ht hfam
      rw [hrefreshes] at ht
      split at ht
      · cases ht
        exact absurd hfam.symm (hother hash t' ht')
      · exact ⟨t, ht, hfam⟩

/-- A rotation makes the family longer. -/
theorem Families.rotate (h : Families hashToken uuid log d) {now refreshMaxAgeMs : Nat}
    {raw nextRaw : String} {old : RefreshToken} (hold : refresh? d (hashToken raw) = some old)
    (hlive : old.consumedAt = none) (hnew : refresh? d (hashToken nextRaw) = none)
    (hrows : ∀ h, refresh? d' h = if h = hashToken nextRaw then
        some ⟨old.userId, old.familyId, now + refreshMaxAgeMs, none, none, none⟩
      else if h = hashToken raw then some (old.replace now (hashToken nextRaw)) else refresh? d h)
    (hlog : ∀ e ∈ log, e ∈ log') : Families hashToken uuid log' d' := by
  obtain ⟨newest, older, hfamily⟩ := h _ old hold
  obtain rfl := hfamily.newest_of_unconsumed hold rfl hlive
  have hne : ∀ h₀ t, refresh? d h₀ = some t → h₀ ≠ hashToken nextRaw := by
    rintro _ t ht rfl
    rw [hnew] at ht
    cases ht
  have hkeep : ∀ h₀ t, refresh? d h₀ = some t → h₀ ≠ hashToken raw → refresh? d' h₀ = some t := by
    intro h₀ t ht hraw
    rw [hrows, if_neg (hne h₀ t ht), if_neg hraw, ht]
  have hnext : refresh? d' (hashToken nextRaw) =
      some ⟨old.userId, old.familyId, now + refreshMaxAgeMs, none, none, none⟩ := by
    rw [hrows, if_pos rfl]
  have hraw : refresh? d' (hashToken raw) = some (old.replace now (hashToken nextRaw)) := by
    rw [hrows, if_neg (hne _ old hold), if_pos rfl]
  -- a row is the new one, the replaced one or as before
  have hrow : ∀ h₀ t, refresh? d' h₀ = some t → h₀ = hashToken nextRaw ∧ t.familyId = old.familyId ∨
      h₀ = hashToken raw ∧ t.familyId = old.familyId ∨
        h₀ ≠ hashToken raw ∧ refresh? d h₀ = some t := by
    intro h₀ t ht
    by_cases h₁ : h₀ = hashToken nextRaw
    · obtain rfl := Option.some.inj ((h₁ ▸ ht).symm.trans hnext)
      exact .inl ⟨h₁, rfl⟩
    · by_cases h₂ : h₀ = hashToken raw
      · obtain rfl := Option.some.inj ((h₂ ▸ ht).symm.trans hraw)
        exact .inr (.inl ⟨h₂, rfl⟩)
      · rw [hrows, if_neg h₁, if_neg h₂] at ht
        exact .inr (.inr ⟨h₂, ht⟩)
  have hmine : Family hashToken uuid log' d' old.familyId (hashToken nextRaw)
      (hashToken raw :: older) := by
    refine ⟨fun t ht ↦ ?_, ?_, fun h₀ ↦ ?_, ?_, ?_⟩
    · obtain rfl := Option.some.inj (ht.symm.trans hnext)
      exact ⟨rfl, rfl⟩
    · refine List.isChain_cons_cons.mpr ⟨⟨_, hraw, rfl, rfl⟩, ?_⟩
      refine hfamily.chain.imp fun newer h₀ ⟨t, ht, hconsumed, hreplaced⟩ ↦ ?_
      refine ⟨t, hkeep h₀ t ht ?_, hconsumed, hreplaced⟩
      rintro rfl
      obtain rfl := Option.some.inj (ht.symm.trans hold)
      rw [hlive] at hconsumed
      cases hconsumed
    · rw [List.mem_cons]
      constructor
      · rintro (rfl | hmem)
        · exact ⟨_, hnext, rfl⟩
        · obtain ⟨t, ht, hfam⟩ := (hfamily.rows h₀).mp hmem
          by_cases h₁ : h₀ = hashToken raw
          · exact ⟨old.replace now (hashToken nextRaw), h₁ ▸ hraw, rfl⟩
          · exact ⟨t, hkeep h₀ t ht h₁, hfam⟩
      · rintro ⟨t, ht, hfam⟩
        rcases hrow h₀ t ht with ⟨rfl, -⟩ | ⟨rfl, -⟩ | ⟨-, ht⟩
        · exact .inl rfl
        · exact .inr List.mem_cons_self
        · exact .inr ((hfamily.rows h₀).mpr ⟨t, ht, hfam⟩)
    · refine List.nodup_cons.mpr ⟨fun hmem ↦ ?_, hfamily.nodup⟩
      obtain ⟨t, ht, -⟩ := (hfamily.rows _).mp hmem
      exact hne _ t ht rfl
    · obtain ⟨root, hroot, hid, now, userId, raw₀, before, after, hmem, hraw₀⟩ := hfamily.issued
      exact ⟨root, by rw [List.getLast?_cons_cons, hroot], hid, now, userId, raw₀, before, after,
        hlog _ hmem, hraw₀⟩
  intro hash t' ht'
  by_cases hfam : t'.familyId = old.familyId
  · exact ⟨_, _, hfam ▸ hmine⟩
  rcases hrow hash t' ht' with ⟨-, hfam'⟩ | ⟨-, hfam'⟩ | ⟨-, ht⟩
  · exact absurd hfam' hfam
  · exact absurd hfam' hfam
  · obtain ⟨newest', older', hother⟩ := h hash t' ht
    refine ⟨newest', older', hother.congr hlog ⟨fun h₀ t ht hf ↦ ?_, fun h₀ t ht hf ↦ ?_⟩⟩
    · refine ⟨t, hkeep h₀ t ht ?_, rfl, rfl, rfl⟩
      rintro rfl
      obtain rfl := Option.some.inj (ht.symm.trans hold)
      exact hfam hf.symm
    · rcases hrow h₀ t ht with ⟨-, hf'⟩ | ⟨-, hf'⟩ | ⟨-, ht⟩
      · exact absurd (hf.symm.trans hf') hfam
      · exact absurd (hf.symm.trans hf') hfam
      · exact ⟨t, ht, hf⟩

end Family

/-! ### Runs -/

section Runs

variable {p : Params} {log : Log} {d : Tables}

/-- The calls a run starts with do not matter: every outcome keeps the families. -/
theorem families_of_trace (huuid : Function.Injective p.uuid)
    (h : p.rule.Trace (p.system NoTokens) log d) : Families p.hashToken p.uuid log d := by
  induction h with
  | start hstart =>
    intro hash t ht
    rw [hstart hash] at ht
    cases ht
  | @committed log d d' c value _ _ hpost ih =>
    have hlog : ∀ e ∈ log, e ∈ log ++ [.committed c value d d'] :=
      fun _ he ↦ List.mem_append_left _ he
    obtain ⟨-, heffect⟩ := hpost
    cases heffect with
    | issueAccountToken _ =>
      exact ih.congr hlog fun _ ↦ sameLinks_of_eq (tables_putAccount _ _).2.1
    | verifyEmail _ _ _ hrefresh => exact ih.congr hlog fun _ ↦ sameLinks_of_eq hrefresh
    | resetPassword _ _ _ hrows _ => exact ih.congr hlog fun _ ↦ hrows.sameLinks
    | @issueRefreshToken _ now userId raw hnew =>
      refine ih.issue huuid (by rw [refresh?, hnew, Option.bind_none]) hlog ?_
      exact ⟨now, userId, raw, d, _, List.mem_append_right _ (List.mem_singleton_self _), rfl⟩
    | reuse _ _ _ _ _ _ hrows _ => exact ih.congr hlog fun _ ↦ hrows.sameLinks
    | rotate hold _ _ hlive hnew _ _ _ _ hrows =>
      exact ih.rotate hold hlive (by rw [refresh?, hnew, Option.bind_none]) hrows hlog
    | revokeRefreshToken _ _ hrows => exact ih.congr hlog fun _ ↦ hrows.sameLinks
    | revokeAllForUser _ _ hrows _ => exact ih.congr hlog fun _ ↦ hrows.sameLinks
    | logout _ _ _ hrows _ => exact ih.congr hlog fun _ ↦ hrows.sameLinks
  | returned _ _ _ ih =>
    exact ih.congr (fun _ he ↦ List.mem_append_left _ he) fun _ ↦ sameLinks_of_eq rfl
  | failed _ ih =>
    exact ih.congr (fun _ he ↦ List.mem_append_left _ he) fun _ ↦ sameLinks_of_eq rfl

/-- Every rotated token is consumed, and was rotated once. -/
def RotatedOnce (hashToken : String → String) (log : Log) (d : Tables) : Prop :=
  (∀ e ∈ log, ∀ hash, Rotated hashToken e hash →
    ∃ t, refresh? d hash = some t ∧ t.consumedAt.isSome) ∧
  log.Pairwise fun e e' ↦ ∀ hash, Rotated hashToken e hash → ¬ Rotated hashToken e' hash

/-- A rotation consumes a token that was not consumed. -/
theorem RotatedOnce.append {hashToken uuid : String → String} {d' : Tables}
    {e : Outcome Key Row Call Call.Result} (h : RotatedOnce hashToken log d)
    (hlater : Later uuid d d') (hlast : ∀ hash, Rotated hashToken e hash →
      (∃ t, refresh? d hash = some t ∧ t.consumedAt = none) ∧
        ∃ t, refresh? d' hash = some t ∧ t.consumedAt.isSome) :
    RotatedOnce hashToken (log ++ [e]) d' := by
  refine ⟨fun e₁ he₁ hash hrotated ↦ ?_, List.pairwise_append.mpr ⟨h.2, by simp, ?_⟩⟩
  · rcases List.mem_append.mp he₁ with he₁ | he₁
    · obtain ⟨t, ht, hsome⟩ := h.1 e₁ he₁ hash hrotated
      obtain ⟨t', ht', hl⟩ := hlater.refreshes hash t ht
      exact ⟨t', ht', (hl.consumed hsome).1 ▸ hsome⟩
    · obtain rfl := List.mem_singleton.mp he₁
      exact (hlast hash hrotated).2
  · intro e₁ he₁ e₂ he₂ hash hrotated hrotated₂
    obtain rfl := List.mem_singleton.mp he₂
    obtain ⟨t, ht, hsome⟩ := h.1 e₁ he₁ hash hrotated
    obtain ⟨t', ht', hnone⟩ := (hlast hash hrotated₂).1
    obtain rfl := Option.some.inj (ht.symm.trans ht')
    rw [hnone] at hsome
    cases hsome

private theorem rotatedOnce_of_trace {start : Tables → Prop}
    (h : p.rule.Trace (p.system start) log d) :
    RotatedOnce p.hashToken log d := by
  induction h with
  | start => exact ⟨nofun, .nil⟩
  | committed _ _ hpost ih =>
    refine ih.append (later_of_effect hpost.2) ?_
    rintro hash ⟨now, date, raw, nextRaw, session, before, after, heq, rfl⟩
    cases heq
    obtain ⟨-, heffect⟩ := hpost
    cases heffect with
    | @rotate _ _ _ _ _ _ old _ _ hold _ _ hlive hnew _ _ _ _ hrows =>
      refine ⟨⟨old, hold, hlive⟩, old.replace now (p.hashToken nextRaw), ?_, rfl⟩
      rw [hrows, if_neg, if_pos rfl]
      intro heq
      rw [refresh?, heq, hnew] at hold
      cases hold
  | returned _ _ _ ih =>
    refine ih.append (Later.refl _ : Later p.uuid _ _) ?_
    rintro hash ⟨now, date, raw, nextRaw, session, before, after, heq, -⟩
    cases heq
  | failed _ ih =>
    refine ih.append (Later.refl _ : Later p.uuid _ _) ?_
    rintro hash ⟨now, date, raw, nextRaw, session, before, after, heq, -⟩
    cases heq

/-- What a rotation presents is neither expired nor revoked, or nothing is committed. -/
def PresentsLive (hashToken : String → String) (e : Outcome Key Row Call Call.Result) : Prop :=
  ∀ now date raw nextRaw value before after,
    e = .committed (.rotateRefreshToken now date raw nextRaw) value before after →
      ∃ t, refresh? before (hashToken raw) = some t ∧ date < t.expiresAt ∧ t.revokedAt = none

private theorem presentsLive_of_trace {start : Tables → Prop}
    (h : p.rule.Trace (p.system start) log d) :
    ∀ e ∈ log, PresentsLive p.hashToken e := by
  have hnil : ∀ log e, (∀ e ∈ log, PresentsLive p.hashToken e) → PresentsLive p.hashToken e →
      ∀ e' ∈ log ++ [e], PresentsLive p.hashToken e' := by
    intro log e hlog he e' he'
    rcases List.mem_append.mp he' with he' | he'
    · exact hlog e' he'
    · exact List.mem_singleton.mp he' ▸ he
  induction h with
  | start => exact nofun
  | committed _ _ hpost ih =>
    refine hnil _ _ ih ?_
    rintro now date raw nextRaw value before after heq
    cases heq
    obtain ⟨-, heffect⟩ := hpost
    cases heffect with
    | reuse hold hdate hrevoked => exact ⟨_, hold, hdate, hrevoked⟩
    | rotate hold hdate hrevoked => exact ⟨_, hold, hdate, hrevoked⟩
  | returned _ _ _ ih => exact hnil _ _ ih nofun
  | failed _ ih => exact hnil _ _ ih nofun

/-- In every state of every interleaving of the calls, aborted or not: each family is one chain of
replaced tokens from the issued one to the newest, the only one that may be unconsumed; a token is
rotated once; and a rotation commits nothing when its token is expired or revoked. -/
theorem one_live_token (hashToken uuid : String → String) (refreshMaxAgeMs : Nat)
    (spawn : Call → Prop) (huuid : Function.Injective uuid)
    {s : State Key Row Call Call.Result}
    (hs : (tokens hashToken uuid refreshMaxAgeMs NoTokens spawn).machine.Reachable s) :
    (∀ hash t, refresh? s.db hash = some t →
      ∃ newest older, Family hashToken uuid s.log s.db t.familyId newest older) ∧
    (∀ hash hash' t t', refresh? s.db hash = some t → refresh? s.db hash' = some t' →
      t.familyId = t'.familyId → t.consumedAt = none → t.revokedAt = none →
      t'.consumedAt = none → t'.revokedAt = none → hash = hash') ∧
    s.log.Pairwise (fun e e' ↦ ∀ hash, Rotated hashToken e hash → ¬ Rotated hashToken e' hash) ∧
    ∀ e ∈ s.log, PresentsLive hashToken e := by
  have hkept := Rule.kept (tokens_sound ⟨hashToken, uuid, refreshMaxAgeMs, False, spawn⟩ NoTokens)
    (fun _ _ _ _ _ _ _ _ _ _ h ↦ h.elim) (hs.restrict fun _ _ ↦ trivial)
  have hfamilies := families_of_trace huuid hkept.trace
  refine ⟨hfamilies, fun hash hash' t t' ht ht' hfam hlive _ hlive' _ ↦ ?_,
    (rotatedOnce_of_trace hkept.trace).2, presentsLive_of_trace hkept.trace⟩
  obtain ⟨newest, older, hfamily⟩ := hfamilies hash t ht
  exact (hfamily.newest_of_unconsumed ht rfl hlive).trans
    (hfamily.newest_of_unconsumed ht' hfam.symm hlive').symm

end Runs

/-- Tables with one user. -/
def oneUser : Tables where
  keys := [.user 1]
  row? k := if k = .user 1 then some (.user ⟨"ann", "ann@chess.test", "h", 0, some 0⟩) else none
  listed k h := by
    split at h
    · next hk => exact hk ▸ List.mem_singleton_self _
    · cases h
  nodup := List.nodup_cons.mpr ⟨List.not_mem_nil, .nil⟩

/-- There are no refresh tokens yet. -/
theorem oneUser_noTokens : NoTokens oneUser := by
  intro hash
  simp [refresh?, oneUser]

/-- A call whose transaction has one statement that reads and one that inserts. -/
def issuing (i : Nat) (c : Call) : List (Label Key Call) := [.begin i c, .go i, .go i, .commit i]

/-- A rotation without interference. -/
def rotating (i : Nat) (raw nextRaw : String) : List (Label Key Call) :=
  [.begin i (.rotateRefreshToken 1 1 raw nextRaw), .snapshot i, .lock i (.refresh raw), .go i,
    .snapshot i, .lock i (.refresh raw), .go i, .go i, .go i, .commit i]

/-- A token issued and rotated once. -/
theorem one_live_token_rotated : ∃ s, (refresh? s.db "b").isSome ∧
    (tokens id id 1000 NoTokens fun _ ↦ True).machine.Reachable s ∧
    ∃ newest older, Family id id s.log s.db "a" newest older := by
  have hrun : ∃ s, (tokens id id 1000 NoTokens fun _ ↦ True).play 1 oneUser
      (issuing 0 (.issueRefreshToken 0 1 "a") ++ rotating 0 "a" "b") = some s ∧
        (refresh? s.db "b").map (·.familyId) = some "a" :=
    Option.map_eq_some_iff.mp (by decide +kernel)
  obtain ⟨s, hs, hb⟩ := hrun
  have hreachable := play_reachable oneUser_noTokens (fun _ _ _ ↦ trivial) hs
  obtain ⟨t, ht, hfamily⟩ := Option.map_eq_some_iff.mp hb
  refine ⟨s, by rw [ht]; rfl, hreachable, ?_⟩
  exact hfamily ▸ (one_live_token id id 1000 (fun _ ↦ True) Function.injective_id hreachable).1
    "b" t ht

end ChessStack.Auth
