import ChessStack.Server.Cleared
import ChessStack.Server.Seated

/-!
# Rematch votes

Library `Server`. In every run of the processes of `Chess-Backend/src/socket/gameSocket.js`, with
the single commands of `services/rematchVotes.js` served in any order, a rematch is made only of
the votes of both players for that game, two votes that stand are counted by whoever votes last,
and a vote counts for no other game.
-/

namespace ChessStack.Server

open ChessStack.Chess ChessStack.Js ChessStack.Library ChessStack.Store

section

variable {js : ChessJs}

/-- The command takes the user's vote for the game away. -/
def VoteCommand.Removes (command : VoteCommand) (gameId userId : Nat) : Prop :=
  command = .srem gameId userId ∨ command = .del gameId

/-- The event adds the user's vote to the set of the game in the store. -/
def Event.AddsVote (D : Deployment) (store gameId userId : Nat) : Event js → Prop
  | .served c (.vote command) _ _ _ _ =>
    Outside.storeOf D c.process = store ∧ command.Adds gameId userId
  | _ => False

/-- The event takes the user's vote out of the set of the game in the store. -/
def Event.RemovesVote (D : Deployment) (store gameId userId : Nat) : Event js → Prop
  | .served c (.vote command) _ _ _ _ =>
    Outside.storeOf D c.process = store ∧ command.Removes gameId userId
  | .evaporated store' gameId' => store' = store ∧ gameId' = gameId
  | .lost store' => store' = store
  | _ => False

/-- A vote that has been added, and was not taken away since. -/
def Stands (D : Deployment) (log : List (Event js)) (store gameId userId : Nat) : Prop :=
  ∃ past add later, log = past ++ add :: later ∧ add.AddsVote D store gameId userId ∧
    ∀ e ∈ later, ¬ e.RemovesVote D store gameId userId

variable {at_ : js.Game → Position → Prop} {D : Deployment} {w : World js} {store gameId userId : Nat}

/-! ### Votes that stand -/

private theorem VoteCommand.Adds.mem_apply {command : VoteCommand} (h : command.Adds gameId userId)
    (voters : List Nat) : command.gameId = gameId ∧ userId ∈ command.apply voters := by
  rcases h with rfl | rfl
  · exact ⟨rfl, List.mem_insert_self⟩
  · exact ⟨rfl, List.mem_insert_self⟩

private theorem VoteCommand.mem_apply_of_mem {command : VoteCommand} {voters : List Nat}
    (hmem : userId ∈ voters) (h : ¬ command.Removes command.gameId userId) :
    userId ∈ command.apply voters := by
  cases command with
  | sadd gameId user => exact List.mem_insert_of_mem hmem
  | addLocal gameId user => exact List.mem_insert_of_mem hmem
  | expire gameId => exact hmem
  | scard gameId => exact hmem
  | del gameId => exact absurd (Or.inr rfl) h
  | srem gameId user =>
    have hne : userId ≠ user := fun heq ↦ h (Or.inl (heq ▸ rfl))
    exact (List.mem_erase_of_ne hne).mpr hmem

private theorem Event.mem_voters_of_adds {e : Event js} {voters : List Nat}
    (h : e.AddsVote D store gameId userId) : userId ∈ e.voters D store gameId voters := by
  cases e with
  | served c r a arrived before after =>
    cases r with
    | vote command =>
      obtain ⟨hgame, hmem⟩ := h.2.mem_apply voters
      change userId ∈ ite _ _ _
      rw [if_pos ⟨h.1, hgame⟩]
      exact hmem
    | _ => exact h.elim
  | _ => exact h.elim

private theorem Event.mem_voters_of_mem {e : Event js} {voters : List Nat} (hmem : userId ∈ voters)
    (h : ¬ e.RemovesVote D store gameId userId) : userId ∈ e.voters D store gameId voters := by
  cases e with
  | served c r a arrived before after =>
    cases r with
    | vote command =>
      change userId ∈ ite _ _ _
      split
      · next hkey =>
        obtain ⟨hstore, rfl⟩ := hkey
        exact VoteCommand.mem_apply_of_mem hmem fun hremoves ↦ h ⟨hstore, hremoves⟩
      · exact hmem
    | _ => exact hmem
  | evaporated store' gameId' =>
    change userId ∈ ite _ _ _
    split
    · next hkey => exact absurd hkey h
    · exact hmem
  | lost store' =>
    change userId ∈ if store' = store then [] else voters
    rw [if_neg (show ¬ store' = store from h)]
    exact hmem
  | told c m => exact hmem

/-- A vote that stands is in the set. -/
theorem Stands.mem_votersOf {log : List (Event js)} (h : Stands D log store gameId userId) :
    userId ∈ votersOf D log store gameId := by
  obtain ⟨past, add, later, rfl, hadds, hkept⟩ := h
  induction later using List.reverseRecOn with
  | nil =>
    rw [votersOf_append]
    exact Event.mem_voters_of_adds hadds
  | append_singleton later e ih =>
    rw [show past ++ add :: (later ++ [e]) = (past ++ add :: later) ++ [e] by simp, votersOf_append]
    exact Event.mem_voters_of_mem (ih fun e he ↦ hkept e (List.mem_append_left _ he))
      (hkept e (List.mem_append_right _ (List.mem_singleton_self e)))

/-! ### Counting -/

/-- The reply of a command that counts is the size of the set it leaves. -/
theorem VoteCommand.reply_of_counts {command : VoteCommand} (h : command.Counts gameId)
    (voters : List Nat) :
    command.gameId = gameId ∧ command.reply voters = (command.apply voters).length := by
  rcases h with rfl | ⟨user, rfl⟩
  · exact ⟨rfl, rfl⟩
  · exact ⟨rfl, rfl⟩

/-- Two different votes that stand are counted. -/
theorem ServedOk.counts {past : List (Event js)} {c : Caller} {command : VoteCommand} {count : Nat}
    {before after : Outside} (h : ServedOk D at_ past c (.vote command) (some count) before after)
    (hcounts : command.Counts gameId) {userId' : Nat} (hne : userId ≠ userId') {arrived : Bool}
    (hstands : Stands D (past ++ [Event.served c (.vote command) (some count) arrived before after])
      (Outside.storeOf D c.process) gameId userId)
    (hstands' : Stands D (past ++ [Event.served c (.vote command) (some count) arrived before after])
      (Outside.storeOf D c.process) gameId userId') : 2 ≤ count := by
  obtain ⟨fetched, hserve⟩ := h.served
  obtain ⟨hreply, -⟩ := Prod.mk.inj (Option.some.inj hserve)
  obtain ⟨hgame, hsize⟩ := command.reply_of_counts hcounts
    (before.votes (Outside.storeOf D c.process) command.gameId)
  have hset : votersOf D (past ++ [Event.served c (.vote command) (some count) arrived before after])
      (Outside.storeOf D c.process) gameId =
        command.apply (before.votes (Outside.storeOf D c.process) command.gameId) := by
    rw [votersOf_append, h.votes, hgame]
    exact if_pos ⟨rfl, hgame⟩
  have hmem := hstands.mem_votersOf
  have hmem' := hstands'.mem_votersOf
  rw [hset] at hmem hmem'
  rw [← Option.some.inj hreply, hsize]
  have hsub : [userId, userId'] ⊆
      command.apply (before.votes (Outside.storeOf D c.process) command.gameId) := by
    intro user huser
    rcases List.mem_cons.mp huser with rfl | huser
    · exact hmem
    · rw [List.mem_singleton.mp huser]
      exact hmem'
  have hnodup : [userId, userId'].Nodup := List.nodup_cons.mpr
    ⟨fun h ↦ hne (List.mem_singleton.mp h), List.nodup_singleton _⟩
  exact (hnodup.subperm hsub).length_le

private theorem WorldOk.served (hw : WorldOk D at_ w) {past future : List (Event js)} {c : Caller}
    {r : Await js} {a : Answer js r} {arrived : Bool} {before after : Outside}
    (hlog : w.log = past ++ Event.served c r a arrived before after :: future) :
    ServedOk D at_ past c r a before after := hw.log.entry hlog

/-- A function counts after it has voted. -/
theorem WorldOk.count_after_vote (hw : WorldOk D at_ w) {past later : List (Event js)} {c : Caller}
    {command command' : VoteCommand} {a : Answer js (.vote command)}
    {a' : Answer js (.vote command')} {arrived arrived' : Bool} {before after before' after' : Outside}
    (hlog : w.log = past ++ Event.served c (.vote command) a arrived before after :: later)
    (hadds : command.Adds gameId userId)
    (hmem : Event.served c (.vote command') a' arrived' before' after' ∈ w.log) :
    Event.served c (.vote command') a' arrived' before' after' ∈
      .served c (.vote command) a arrived before after :: later := by
  rw [hlog] at hmem
  rcases List.mem_append.mp hmem with hpast | hrest
  · obtain ⟨-, -, hfirst⟩ := (hw.served hlog).pre.1 gameId userId hadds
    exact absurd ⟨a', arrived', before', after', hpast⟩ (hfirst command')
  · exact hrest

/-! ### Both players -/

/-- Who is in the set that a function has counted sits in the game and has voted for it. -/
theorem Counted.voted (hw : WorldOk D at_ w) {past future : List (Event js)} {c : Caller}
    {r : Await js} {a : Answer js r} {arrived : Bool} {before after : Outside}
    (hlog : w.log = past ++ Event.served c r a arrived before after :: future) {users : List Nat}
    (h : Counted D past c gameId users) :
    ∀ userId ∈ users, SeatedIn before.db gameId userId ∧ Voted past gameId userId := by
  obtain ⟨command, count, arrived', before', after', -, hmem, husers⟩ := h
  obtain ⟨earlier, later, rfl⟩ := List.append_of_mem hmem
  intro userId huser
  have hcount : w.log = earlier ++ Event.served c (.vote command) count arrived' before' after' ::
      (later ++ Event.served c r a arrived before after :: future) := by
    rw [hlog, List.append_assoc, List.cons_append]
  have hserved := hw.served hcount
  obtain ⟨fetched, hserve⟩ := hserved.served
  obtain ⟨hseated, hvoted⟩ :=
    voters_served hserved.pre hserved.voters hserve arrived' _ (husers userId huser)
  refine ⟨hseated.onward ((hw.served hlog).past _ _ _ _ _ _ hmem), hvoted.mono fun e he ↦ ?_⟩
  rcases List.mem_append.mp he with hold | hnew
  · exact List.mem_append_left _ hold
  · rw [List.mem_singleton.mp hnew]
    exact List.mem_append_right _ List.mem_cons_self

/-- A rematch was made with the votes of both players in the set. -/
theorem rematch_both (hw : WorldOk D at_ w) {past future : List (Event js)} {c : Caller}
    {roomId : Option String} {white black : Player} {newId now : Nat} {value : GameRow}
    {arrived : Bool} {before after : Outside}
    (hlog : w.log = past ++ Event.served c (.call (.rematch gameId roomId white black newId now))
      (some value) arrived before after :: future) :
    ∃ row whiteId blackId, before.db.game? gameId = some row ∧ row.status = .finished ∧
      row.whiteUserId = some whiteId ∧ row.blackUserId = some blackId ∧ whiteId ≠ blackId ∧
      Voted past gameId whiteId ∧ Voted past gameId blackId ∧
      Counted D past c gameId [whiteId, blackId] := by
  have hserved := hw.served hlog
  obtain ⟨fetched, hserve⟩ := hserved.served
  obtain ⟨⟨value', d⟩, hrun, -⟩ := Option.map_eq_some_iff.mp hserve
  obtain ⟨row, new, hnew, -⟩ := rematch_run hrun
  have hseated : row.blackUsername.isSome := by
    cases hname : row.blackUsername with
    | some name => rfl
    | none =>
      have hactive := hserved.tables.vacant _ _ hnew.found hname
      rw [hnew.finished] at hactive
      cases hactive
  obtain ⟨whiteUser, -, blackUser, -, hseats⟩ := (hserved.tables.rows.rows _ _ hnew.found).seats hseated
  obtain ⟨user, user', hne, -, -, hcounted⟩ := hserved.pre.counted _ _ _ _ _ _ rfl
  have hvoted := hcounted.voted hw hlog
  obtain ⟨hin, hvote⟩ := hvoted user List.mem_cons_self
  obtain ⟨hin', hvote'⟩ := hvoted user' (List.mem_cons_of_mem _ (List.mem_singleton_self _))
  obtain ⟨command, count, arrived', before', after', hcounts, hmem, husers⟩ := hcounted
  refine ⟨row, whiteUser.id, blackUser.id, hnew.found, hnew.finished, hseats.whiteId, hseats.blackId,
    hseats.distinct, ?_⟩
  rcases seatedIn_seats hin hnew.found hseats with rfl | rfl
  · rcases seatedIn_seats hin' hnew.found hseats with rfl | rfl
    · exact absurd rfl hne
    · exact ⟨hvote, hvote', command, count, arrived', before', after', hcounts, hmem, husers⟩
  · rcases seatedIn_seats hin' hnew.found hseats with rfl | rfl
    · refine ⟨hvote', hvote, command, count, arrived', before', after', hcounts, hmem, ?_⟩
      intro user huser
      refine husers user ?_
      rcases List.mem_cons.mp huser with rfl | huser
      · exact List.mem_cons_of_mem _ (List.mem_singleton_self _)
      · rw [List.mem_singleton.mp huser]
        exact List.mem_cons_self
    · exact absurd rfl hne

/-- Nobody has voted for a game that a rematch makes. -/
theorem rematch_unvoted (hw : WorldOk D at_ w) {past future : List (Event js)} {c : Caller}
    {roomId : Option String} {white black : Player} {newId now : Nat} {value : GameRow}
    {arrived : Bool} {before after : Outside}
    (hlog : w.log = past ++ Event.served c (.call (.rematch gameId roomId white black newId now))
      (some value) arrived before after :: future) (store : Nat) :
    before.votes store newId = [] ∧ after.votes store newId = [] := by
  have hserved := hw.served hlog
  obtain ⟨fetched, hserve⟩ := hserved.served
  obtain ⟨⟨value', d⟩, hrun, heq⟩ := Option.map_eq_some_iff.mp hserve
  obtain ⟨row, new, hnew, -⟩ := rematch_run hrun
  have hnone : before.votes store newId = [] := by
    rw [List.eq_nil_iff_forall_not_mem]
    intro userId hmem
    obtain ⟨⟨row', hrow', -⟩, -⟩ := hserved.voters store newId userId hmem
    rw [hnew.fresh] at hrow'
    cases hrow'
  obtain ⟨-, rfl⟩ := Prod.mk.inj heq
  exact ⟨hnone, hnone⟩

/-- A vote command changes the set of no other game. -/
theorem vote_other (hw : WorldOk D at_ w) {c : Caller} {command : VoteCommand}
    {a : Answer js (.vote command)} {arrived : Bool} {before after : Outside}
    (hmem : Event.served c (.vote command) a arrived before after ∈ w.log) (store : Nat)
    (hne : gameId ≠ command.gameId) : after.votes store gameId = before.votes store gameId := by
  obtain ⟨past, future, hlog⟩ := List.append_of_mem hmem
  obtain ⟨fetched, hserve⟩ := (hw.served hlog).served
  rw [serve_votes hserve arrived]
  exact if_neg fun hkey ↦ hne hkey.2.symm

/-- Whoever votes last counts both votes, as long as neither is taken away. -/
theorem last_counts_both (hw : WorldOk D at_ w) {past between later : List (Event js)}
    {first : Event js} {c : Caller} {command : VoteCommand} {a : Answer js (.vote command)}
    {arrived : Bool} {before after : Outside} {userId' : Nat} (hlog : w.log = past ++ first ::
      (between ++ Event.served c (.vote command) a arrived before after :: later))
    (hfirst : first.AddsVote D (Outside.storeOf D c.process) gameId userId)
    (hadds : command.Adds gameId userId') (hne : userId ≠ userId')
    (hkept : ∀ e ∈ between ++ Event.served c (.vote command) a arrived before after :: later,
      ¬ e.RemovesVote D (Outside.storeOf D c.process) gameId userId)
    (hkept' : ∀ e ∈ later, ¬ e.RemovesVote D (Outside.storeOf D c.process) gameId userId')
    {command' : VoteCommand} {count : Nat} {arrived' : Bool} {before' after' : Outside}
    (hcounts : command'.Counts gameId)
    (hmem : Event.served c (.vote command') (some count) arrived' before' after' ∈ w.log) :
    2 ≤ count := by
  have hsplit : w.log = (past ++ first :: between) ++
      Event.served c (.vote command) a arrived before after :: later := by
    rw [hlog, List.append_assoc, List.cons_append]
  obtain ⟨mid, rest, hmid⟩ := List.append_of_mem (hw.count_after_vote hsplit hadds hmem)
  have hentry : w.log = (past ++ first :: (between ++ mid)) ++
      Event.served c (.vote command') (some count) arrived' before' after' :: rest := by
    rw [hlog, hmid, List.append_assoc, List.cons_append, List.append_assoc]
  have hstands : Stands D (past ++ first :: (between ++ mid) ++
      [Event.served c (.vote command') (some count) arrived' before' after'])
      (Outside.storeOf D c.process) gameId userId := by
    refine ⟨past, first, _, by rw [List.append_assoc, List.cons_append], hfirst, fun e he ↦ hkept e ?_⟩
    rw [hmid]
    rcases List.mem_append.mp he with hold | hnew
    · rcases List.mem_append.mp hold with hbetween | hmid'
      · exact List.mem_append_left _ hbetween
      · exact List.mem_append_right _ (List.mem_append_left _ hmid')
    · rw [List.mem_singleton.mp hnew]
      exact List.mem_append_right _ (List.mem_append_right _ List.mem_cons_self)
  have hvotes : (Event.served c (.vote command) a arrived before after).AddsVote D
      (Outside.storeOf D c.process) gameId userId' := ⟨rfl, hadds⟩
  -- the command that counts is the one that adds, or comes after it
  have hstands' : Stands D (past ++ first :: (between ++ mid) ++
      [Event.served c (.vote command') (some count) arrived' before' after'])
      (Outside.storeOf D c.process) gameId userId' := by
    cases mid with
    | nil =>
      obtain ⟨hsame, -⟩ := List.cons.inj hmid
      rw [hsame] at hvotes
      exact ⟨past ++ first :: between, _, [], by simp, hvotes, fun _ h ↦ by (cases h)⟩
    | cons add mid =>
      obtain ⟨rfl, hlater⟩ := List.cons.inj hmid
      refine ⟨past ++ first :: between, _,
        mid ++ [Event.served c (.vote command') (some count) arrived' before' after'], by simp, hvotes,
        fun e he ↦ hkept' e ?_⟩
      rw [hlater]
      rcases List.mem_append.mp he with hold | hnew
      · exact List.mem_append_left _ hold
      · rw [List.mem_singleton.mp hnew]
        exact List.mem_append_right _ List.mem_cons_self
  exact (hw.served hentry).counts hcounts hne hstands hstands'

/-- A rematch needs the votes of both players for that very game. Two votes that nobody takes away
are counted by whoever votes last. A vote counts for no other game, and none for a game that a
rematch makes. -/
theorem rematch_votes (hjs : js.Follows at_) (hw : (processes js D).Reachable w) :
    (∀ past future c gameId roomId white black newId now value arrived before after,
      w.log = past ++ .served c (.call (.rematch gameId roomId white black newId now)) (some value)
        arrived before after :: future →
      ∃ row whiteId blackId, before.db.game? gameId = some row ∧ row.status = .finished ∧
        row.whiteUserId = some whiteId ∧ row.blackUserId = some blackId ∧ whiteId ≠ blackId ∧
        Voted past gameId whiteId ∧ Voted past gameId blackId ∧
        Counted D past c gameId [whiteId, blackId]) ∧
    (∀ past first between c command a arrived before after later gameId userId userId',
      w.log = past ++ first ::
        (between ++ .served c (.vote command) a arrived before after :: later) →
      first.AddsVote D (Outside.storeOf D c.process) gameId userId → command.Adds gameId userId' →
      userId ≠ userId' →
      (∀ e ∈ between ++ .served c (.vote command) a arrived before after :: later,
        ¬ e.RemovesVote D (Outside.storeOf D c.process) gameId userId) →
      (∀ e ∈ later, ¬ e.RemovesVote D (Outside.storeOf D c.process) gameId userId') →
      ∀ command' count arrived' before' after', command'.Counts gameId →
        Event.served c (.vote command') (some count) arrived' before' after' ∈ w.log → 2 ≤ count) ∧
    (∀ store gameId, ∀ userId ∈ w.outside.votes store gameId,
      SeatedIn w.outside.db gameId userId ∧ Voted w.log gameId userId) ∧
    (∀ c command a arrived before after,
      Event.served c (.vote command) a arrived before after ∈ w.log → ∀ store gameId,
        gameId ≠ command.gameId → after.votes store gameId = before.votes store gameId) ∧
    ∀ past future c gameId roomId white black newId now value arrived before after,
      w.log = past ++ .served c (.call (.rematch gameId roomId white black newId now)) (some value)
        arrived before after :: future →
      ∀ store, before.votes store newId = [] ∧ after.votes store newId = [] := by
  have hok := worldOk_of_reachable hjs hw
  refine ⟨?_, ?_, hok.voters, ?_, ?_⟩
  · exact fun _ _ _ _ _ _ _ _ _ _ _ _ _ hlog ↦ rematch_both hok hlog
  · exact fun _ _ _ _ _ _ _ _ _ _ _ _ _ hlog hfirst hadds hne hkept hkept' _ _ _ _ _ hcounts hmem ↦
      last_counts_both hok hlog hfirst hadds hne hkept hkept' hcounts hmem
  · exact fun _ _ _ _ _ _ hmem store _ hne ↦ vote_other hok hmem store hne
  · exact fun _ _ _ _ _ _ _ _ _ _ _ _ _ hlog store ↦ rematch_unvoted hok hlog store

end

/-! ### A rematch across two processes -/

/-- The players sit on two processes, which keep the votes in one store. -/
def twoReplicas : Deployment := ⟨equalRatings, [ada, ben], .redisBackend⟩

/-- White plays a move and resigns. -/
def resigned : List World.Label :=
  [World.Label.connect 1 0 ada, .connect 2 1 ben, .packet 1 (.createRoom "ABCDEFG") 1 0] ++
    turns 0 1 ++ [World.Label.packet 2 (.joinRoom "ABCDEFG") 0 0] ++ turns 1 2 ++
    [World.Label.proceed 2, .proceed 2] ++ turns 2 4 ++
    [World.Label.packet 1 (.makeMove "ABCDEFG" (moveRequest "f2" "f3")) 0 60000, .proceed 3] ++
    turns 3 3 ++ [World.Label.packet 1 (.resign "ABCDEFG") 0 60000, .proceed 4] ++ turns 4 3

/-- White's vote is in the set when Black's is counted. -/
def bothVote : List World.Label :=
  [World.Label.packet 1 (.acceptRematch "ABCDEFG") 2 60000, .proceed 5] ++ turns 5 3 ++
    [World.Label.packet 2 (.acceptRematch "ABCDEFG") 3 60000, .proceed 6] ++ turns 6 5 ++
    [World.Label.perform 6 (.arrives [1, 2]), .proceed 6, .perform 6 (.arrives [])]

/-- The event makes a rematch of the game. -/
def Event.remakes {js : ChessJs} (gameId : Nat) : Event js → Bool
  | .served _ (.call (.rematch gameId' _ _ _ _ _)) (some _) _ _ _ => gameId' == gameId
  | _ => false

private theorem Event.remakes_iff {js : ChessJs} {gameId : Nat} {e : Event js}
    (h : e.remakes gameId = true) : ∃ c roomId white black newId now value arrived before after,
      e = .served c (.call (.rematch gameId roomId white black newId now))
        (some value) arrived before after := by
  unfold Event.remakes at h
  split at h
  · next c gameId' roomId white black newId now value arrived before after =>
    obtain rfl := beq_iff_eq.mp h
    exact ⟨c, roomId, white, black, newId, now, value, arrived, before, after, rfl⟩
  · cases h

private theorem votes_run : (((resigned ++ bothVote).foldlM (World.next twoReplicas)
    (World.start twoUsers : World reference)).any fun w ↦ w.log.any (Event.remakes 1)) = true := by
  decide +kernel

/-- Both players vote on two processes, and the second count makes the rematch. -/
theorem rematch_votes_counted : ∃ w : World reference,
    (processes reference twoReplicas).Reachable w ∧ ∃ past e future, w.log = past ++ e :: future ∧
      e.remakes 1 = true ∧ ∃ whiteId blackId, whiteId ≠ blackId ∧
        Voted past 1 whiteId ∧ Voted past 1 blackId := by
  obtain ⟨w, hw, hremade⟩ := (Option.any_eq_true _ _).mp votes_run
  have hinit : (processes reference twoReplicas).Reachable (World.start twoUsers) :=
    .init ⟨twoUsers, fresh_twoUsers, rfl⟩
  have hreach := hinit.foldlM (fun _ _ _ h ↦ h) hw
  obtain ⟨e, he, hremakes⟩ := List.any_eq_true.mp hremade
  obtain ⟨past, future, hlog⟩ := List.append_of_mem he
  obtain ⟨c, roomId, white, black, newId, now, value, arrived, before, after, rfl⟩ :=
    Event.remakes_iff hremakes
  obtain ⟨row, whiteId, blackId, -, -, -, -, hne, hwhite, hblack, -⟩ :=
    (rematch_votes reference_follows hreach).1 past future c 1 roomId white black newId now value
      arrived before after hlog
  exact ⟨w, hreach, past, _, future, hlog, hremakes, whiteId, blackId, hne, hwhite, hblack⟩

end ChessStack.Server
