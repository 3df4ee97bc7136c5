import ChessStack.Friends.Friendship
import ChessStack.Library.History

/-!
# Friends by consent

Library `Friends`. `listFriends` and `listIncomingRequests` of
`Chess-Backend/src/models/Friendship.js`, and who may bring a row of `friendships` about. In every
run each row was asked for by its requester, an accepted row was accepted by its addressee, and
only its two users take it away.
-/

namespace ChessStack.Friends

open ChessStack.Library

/-! ### Lists -/

/-- The columns of `users` that the lists show. -/
structure Profile where
  id : Nat
  username : String
  avatarUrl : Option String
  eloRating : Int
  deriving DecidableEq, Repr

/-- A line of a list. -/
structure Listed where
  friendshipId : Nat
  profile : Profile
  deriving DecidableEq, Repr

/-- `CASE WHEN f.requester_id = $1 THEN f.addressee_id ELSE f.requester_id END`. -/
def Friendship.other (row : Friendship) (userId : Nat) : Nat :=
  if row.requesterId = userId then row.addresseeId else row.requesterId

/-- The two users of a row, whoever of them asked. -/
def Friendship.Between (row : Friendship) (a b : Nat) : Prop :=
  row.requesterId = a ∧ row.addresseeId = b ∨ row.requesterId = b ∧ row.addresseeId = a

private theorem Friendship.between_comm {row : Friendship} (a b : Nat) :
    row.Between a b ↔ row.Between b a := or_comm

/-- The lines of a row: it is joined with the users of that id. -/
def joined (profiles : List Profile) (row : Friendship) (userId : Nat) : List Listed :=
  (profiles.filter fun profile ↦ profile.id == userId).map fun profile ↦ ⟨row.id, profile⟩

/-- `listFriends`, `Friendship.js:32–42`. `before` is the collation that `ORDER BY` sorts by. -/
def State.listFriends (before : String → String → Bool) (profiles : List Profile) (s : State)
    (userId : Nat) : List Listed :=
  ((s.rows.filter fun row ↦
      row.status == .accepted && (row.requesterId == userId || row.addresseeId == userId)).flatMap
    fun row ↦ joined profiles row (row.other userId)).mergeSort
      fun line line' ↦ before line.profile.username line'.profile.username

/-- `listIncomingRequests`, `Friendship.js:45–55`, the newest request first. -/
def State.listIncomingRequests (profiles : List Profile) (s : State) (userId : Nat) : List Listed :=
  (s.rows.filter fun row ↦ row.status == .pending && row.addresseeId == userId).reverse.flatMap
    fun row ↦ joined profiles row row.requesterId

section Lists

variable {before : String → String → Bool} {profiles : List Profile} {s : State} {userId : Nat}
  {line : Listed}

private theorem mem_joined {row : Friendship} : line ∈ joined profiles row userId ↔
    line.profile ∈ profiles ∧ line.profile.id = userId ∧ line.friendshipId = row.id := by
  unfold joined
  rw [List.mem_map]
  constructor
  · rintro ⟨profile, hprofile, rfl⟩
    obtain ⟨hmem, hid⟩ := List.mem_filter.mp hprofile
    exact ⟨hmem, beq_iff_eq.mp hid, rfl⟩
  · rintro ⟨hmem, hid, hrow⟩
    exact ⟨line.profile, List.mem_filter.mpr ⟨hmem, beq_iff_eq.mpr hid⟩, by rw [← hrow]⟩

private theorem mem_listFriends : line ∈ s.listFriends before profiles userId ↔
    ∃ row ∈ s.rows, row.status = .accepted ∧ (row.requesterId = userId ∨ row.addresseeId = userId) ∧
      line.profile ∈ profiles ∧ line.profile.id = row.other userId ∧ line.friendshipId = row.id := by
  unfold State.listFriends
  rw [List.mem_mergeSort, List.mem_flatMap]
  constructor
  · rintro ⟨row, hrow, hline⟩
    obtain ⟨hmem, hshown⟩ := List.mem_filter.mp hrow
    rw [Bool.and_eq_true, Bool.or_eq_true, beq_iff_eq, beq_iff_eq, beq_iff_eq] at hshown
    exact ⟨row, hmem, hshown.1, hshown.2, mem_joined.mp hline⟩
  · rintro ⟨row, hmem, haccepted, hparty, hline⟩
    refine ⟨row, List.mem_filter.mpr ⟨hmem, ?_⟩, mem_joined.mpr hline⟩
    rw [Bool.and_eq_true, Bool.or_eq_true, beq_iff_eq, beq_iff_eq, beq_iff_eq]
    exact ⟨haccepted, hparty⟩

private theorem mem_listIncomingRequests : line ∈ s.listIncomingRequests profiles userId ↔
    ∃ row ∈ s.rows, row.status = .pending ∧ row.addresseeId = userId ∧
      line.profile ∈ profiles ∧ line.profile.id = row.requesterId ∧ line.friendshipId = row.id := by
  unfold State.listIncomingRequests
  rw [List.mem_flatMap]
  constructor
  · rintro ⟨row, hrow, hline⟩
    obtain ⟨hmem, hshown⟩ := List.mem_filter.mp (List.mem_reverse.mp hrow)
    rw [Bool.and_eq_true, beq_iff_eq, beq_iff_eq] at hshown
    exact ⟨row, hmem, hshown.1, hshown.2, mem_joined.mp hline⟩
  · rintro ⟨row, hmem, hpending, haddressee, hline⟩
    refine ⟨row, List.mem_reverse.mpr (List.mem_filter.mpr ⟨hmem, ?_⟩), mem_joined.mpr hline⟩
    rw [Bool.and_eq_true, beq_iff_eq, beq_iff_eq]
    exact ⟨hpending, haddressee⟩

/-- The line of a user in the list of another: an accepted row has them as its two users. -/
theorem mem_listFriends_iff {friend : Profile} {friendshipId userId : Nat}
    (hfriend : friend ∈ profiles) :
    ⟨friendshipId, friend⟩ ∈ s.listFriends before profiles userId ↔
      ∃ row ∈ s.rows, row.id = friendshipId ∧ row.status = .accepted ∧
        row.Between userId friend.id := by
  rw [mem_listFriends]
  constructor
  · rintro ⟨row, hrow, haccepted, hparty, -, hid, hline⟩
    refine ⟨row, hrow, hline.symm, haccepted, ?_⟩
    change friend.id = row.other userId at hid
    unfold Friendship.other at hid
    split at hid
    · next hrequester => exact Or.inl ⟨hrequester, hid.symm⟩
    · next hrequester => exact Or.inr ⟨hid.symm, hparty.resolve_left hrequester⟩
  · rintro ⟨row, hrow, hline, haccepted, hbetween⟩
    refine ⟨row, hrow, haccepted, hbetween.imp And.left And.right, hfriend, ?_, hline.symm⟩
    change friend.id = row.other userId
    unfold Friendship.other
    rcases hbetween with ⟨hrequester, haddressee⟩ | ⟨hrequester, haddressee⟩
    · rw [if_pos hrequester, haddressee]
    · split
      · next hsame => rw [haddressee, ← hsame, hrequester]
      · exact hrequester.symm

end Lists

/-! ### Who has asked and who has answered -/

/-- `a` has asked for the friendship of `b`. -/
def Asked (users : String → Option Nat) (past : List State.Label) (a b : Nat) : Prop :=
  a ≠ b ∧ ∃ i username, .call i (.findUser a username) ∈ past ∧ users username = some b

/-- The user has responded to the request. -/
def Responded (past : List State.Label) (i friendshipId userId : Nat) (accept : Bool) : Prop :=
  .call i (.checkAddressee friendshipId userId accept) ∈ past

/-- What a call that goes on has been started for. -/
def Started (users : String → Option Nat) (past : List State.Label) (s : State) (i : Nat) :
    Call → Prop
  | .findUser requesterId username => .call i (.findUser requesterId username) ∈ past
  | .check requesterId addresseeId | .insert requesterId addresseeId =>
    Asked users past requesterId addresseeId
  | .checkAddressee friendshipId userId accept => Responded past i friendshipId userId accept
  | .accept friendshipId => friendshipId < s.nextId ∧ ∃ userId,
    Responded past i friendshipId userId true ∧
      ∀ row ∈ s.rows, row.id = friendshipId → row.addresseeId = userId
  | .decline friendshipId => friendshipId < s.nextId ∧ ∃ userId,
    Responded past i friendshipId userId false ∧
      ∀ row ∈ s.rows, row.id = friendshipId → row.addresseeId = userId
  | .remove friendshipId userId => .call i (.remove friendshipId userId) ∈ past
  | .ended _ => True

/-- The rows and the calls of a run. -/
structure Consented (users : String → Option Nat) (s : State) (past : List State.Label) : Prop where
  ids : ∀ row ∈ s.rows, row.id < s.nextId
  single : ∀ row ∈ s.rows, ∀ row' ∈ s.rows, row.id = row'.id → row = row'
  asked : ∀ row ∈ s.rows, Asked users past row.requesterId row.addresseeId
  answered : ∀ row ∈ s.rows, row.status = .accepted →
    ∃ i, Responded past i row.id row.addresseeId true
  calls : ∀ i, Started users past s i (s.calls i)

/-- What a step may do to a row: keep it, accept it for its addressee, or take it away for one of
its two users. -/
def Treated (past : List State.Label) (l : State.Label) (s' : State) (row : Friendship) : Prop :=
  row ∈ s'.rows ∨
  (∃ i, l = .query i ∧ { row with status := .accepted } ∈ s'.rows ∧
    Responded past i row.id row.addresseeId true) ∨
  ∃ i, l = .query i ∧ (∀ row' ∈ s'.rows, row'.id ≠ row.id) ∧
    (Responded past i row.id row.addresseeId false ∨
      ∃ userId, (row.requesterId = userId ∨ row.addresseeId = userId) ∧
        .call i (.remove row.id userId) ∈ past)

section Consent

variable {users : String → Option Nat} {s s' : State} {past : List State.Label} {l : State.Label}
  {i : Nat}

private theorem Asked.snoc {a b : Nat} (h : Asked users past a b) :
    Asked users (past ++ [l]) a b := by
  obtain ⟨hne, i, username, hcall, huser⟩ := h
  exact ⟨hne, i, username, List.mem_append_left _ hcall, huser⟩

/-- What a call was started for stays so while no row comes under an id that was given before. -/
theorem Started.mono {call : Call} (h : Started users past s i call) (hid : s.nextId ≤ s'.nextId)
    (hrows : ∀ row ∈ s'.rows, row.id < s.nextId →
      ∃ old ∈ s.rows, old.id = row.id ∧ old.addresseeId = row.addresseeId) :
    Started users (past ++ [l]) s' i call := by
  have hold : ∀ friendshipId userId, friendshipId < s.nextId →
      (∀ row ∈ s.rows, row.id = friendshipId → row.addresseeId = userId) →
      ∀ row ∈ s'.rows, row.id = friendshipId → row.addresseeId = userId := by
    intro friendshipId userId hlt hall row hrow heq
    obtain ⟨old, hmem, hsame, haddressee⟩ := hrows row hrow (heq ▸ hlt)
    exact haddressee ▸ hall old hmem (hsame.trans heq)
  cases call with
  | findUser requesterId username => exact List.mem_append_left _ h
  | check requesterId addresseeId => exact h.snoc
  | insert requesterId addresseeId => exact h.snoc
  | checkAddressee friendshipId userId accept => exact List.mem_append_left _ h
  | accept friendshipId =>
    obtain ⟨hlt, userId, hresponded, hall⟩ := h
    exact ⟨Nat.lt_of_lt_of_le hlt hid, userId, List.mem_append_left _ hresponded,
      hold _ _ hlt hall⟩
  | decline friendshipId =>
    obtain ⟨hlt, userId, hresponded, hall⟩ := h
    exact ⟨Nat.lt_of_lt_of_le hlt hid, userId, List.mem_append_left _ hresponded,
      hold _ _ hlt hall⟩
  | remove friendshipId userId => exact List.mem_append_left _ h
  | ended reply => trivial

/-- A step that leaves the rows. -/
theorem Consented.of_rows (h : Consented users s past) (hrows : s'.rows = s.rows)
    (hid : s.nextId ≤ s'.nextId) (hcall : Started users (past ++ [l]) s' i (s'.calls i))
    (hothers : ∀ j, j ≠ i → s'.calls j = s.calls j) : Consented users s' (past ++ [l]) where
  ids row hrow := Nat.lt_of_lt_of_le (h.ids row (hrows ▸ hrow)) hid
  single row hrow row' hrow' := h.single row (hrows ▸ hrow) row' (hrows ▸ hrow')
  asked row hrow := (h.asked row (hrows ▸ hrow)).snoc
  answered row hrow haccepted := by
    obtain ⟨j, hj⟩ := h.answered row (hrows ▸ hrow) haccepted
    exact ⟨j, List.mem_append_left _ hj⟩
  calls j := by
    by_cases hj : j = i
    · exact hj ▸ hcall
    · rw [hothers j hj]
      exact (h.calls j).mono hid fun row hrow _ ↦ ⟨row, hrows ▸ hrow, rfl, rfl⟩

/-- A row is stored for a request. -/
theorem Consented.insert (h : Consented users s past) {a b : Nat} {row : Friendship}
    (hcall : s.calls i = .insert a b) (hrow : s.inserted a b = some row) :
    Consented users ({ s with rows := s.rows ++ [row], nextId := s.nextId + 1 }.setCall i
      (.ended (.friendship (some row)))) (past ++ [l]) := by
  have hasked : Asked users past a b := by
    have hstarted := h.calls i
    rwa [hcall] at hstarted
  unfold State.inserted at hrow
  split at hrow
  · cases hrow
  obtain rfl := Option.some.inj hrow
  have hmem : ∀ row ∈ s.rows ++ [⟨s.nextId, a, b, .pending⟩],
      row ∈ s.rows ∨ row = ⟨s.nextId, a, b, .pending⟩ := fun row hrow ↦ by
    rcases List.mem_append.mp hrow with hold | hnew
    · exact Or.inl hold
    · exact Or.inr (List.mem_singleton.mp hnew)
  constructor
  · intro row hrow
    rcases hmem row hrow with hold | rfl
    · exact Nat.lt_succ_of_lt (h.ids row hold)
    · exact Nat.lt_succ_self _
  · intro row hrow row' hrow' heq
    rcases hmem row hrow with hold | rfl
    · rcases hmem row' hrow' with hold' | rfl
      · exact h.single row hold row' hold' heq
      · exact absurd heq (Nat.ne_of_lt (h.ids row hold))
    · rcases hmem row' hrow' with hold' | rfl
      · exact absurd heq.symm (Nat.ne_of_lt (h.ids row' hold'))
      · rfl
  · intro row hrow
    rcases hmem row hrow with hold | rfl
    · exact (h.asked row hold).snoc
    · exact hasked.snoc
  · intro row hrow haccepted
    rcases hmem row hrow with hold | rfl
    · obtain ⟨j, hj⟩ := h.answered row hold haccepted
      exact ⟨j, List.mem_append_left _ hj⟩
    · cases haccepted
  · intro j
    rw [calls_setCall]
    split
    · trivial
    · refine (h.calls j).mono (Nat.le_succ _) fun row hrow hlt ↦ ?_
      rcases hmem row hrow with hold | rfl
      · exact ⟨row, hold, rfl, rfl⟩
      · exact absurd hlt (Nat.lt_irrefl _)

/-- Rows are taken away. -/
theorem Consented.filter (h : Consented users s past) (keep : Friendship → Bool) (reply : Reply) :
    Consented users ({ s with rows := s.rows.filter keep }.setCall i (.ended reply))
      (past ++ [l]) where
  ids row hrow := h.ids row (List.mem_of_mem_filter hrow)
  single row hrow row' hrow' :=
    h.single row (List.mem_of_mem_filter hrow) row' (List.mem_of_mem_filter hrow')
  asked row hrow := (h.asked row (List.mem_of_mem_filter hrow)).snoc
  answered row hrow haccepted := by
    obtain ⟨j, hj⟩ := h.answered row (List.mem_of_mem_filter hrow) haccepted
    exact ⟨j, List.mem_append_left _ hj⟩
  calls j := by
    rw [calls_setCall]
    split
    · trivial
    · exact (h.calls j).mono (Nat.le_refl _) fun row hrow _ ↦
        ⟨row, List.mem_of_mem_filter hrow, rfl, rfl⟩

/-- `UPDATE friendships SET status = 'accepted' WHERE id = $1`. -/
def Friendship.acceptedAt (friendshipId : Nat) (row : Friendship) : Friendship :=
  if row.id = friendshipId then { row with status := .accepted } else row

@[simp] private theorem Friendship.acceptedAt_id (friendshipId : Nat) (row : Friendship) :
    (row.acceptedAt friendshipId).id = row.id := by
  unfold Friendship.acceptedAt
  split <;> rfl

@[simp] private theorem Friendship.acceptedAt_requesterId (friendshipId : Nat) (row : Friendship) :
    (row.acceptedAt friendshipId).requesterId = row.requesterId := by
  unfold Friendship.acceptedAt
  split <;> rfl

@[simp] private theorem Friendship.acceptedAt_addresseeId (friendshipId : Nat) (row : Friendship) :
    (row.acceptedAt friendshipId).addresseeId = row.addresseeId := by
  unfold Friendship.acceptedAt
  split <;> rfl

/-- The row of a request is accepted for its addressee. -/
theorem Consented.accept (h : Consented users s past) {friendshipId : Nat} {reply : Reply}
    (hcall : s.calls i = .accept friendshipId) :
    Consented users ({ s with rows := s.rows.map (Friendship.acceptedAt friendshipId) }.setCall i
      (.ended reply)) (past ++ [l]) := by
  have hstarted := h.calls i
  rw [hcall] at hstarted
  obtain ⟨-, userId, hresponded, haddressee⟩ := hstarted
  constructor
  · intro row hrow
    obtain ⟨old, hold, rfl⟩ := List.mem_map.mp hrow
    rw [Friendship.acceptedAt_id]
    exact h.ids old hold
  · intro row hrow row' hrow' heq
    obtain ⟨old, hold, rfl⟩ := List.mem_map.mp hrow
    obtain ⟨old', hold', rfl⟩ := List.mem_map.mp hrow'
    rw [Friendship.acceptedAt_id, Friendship.acceptedAt_id] at heq
    rw [h.single old hold old' hold' heq]
  · intro row hrow
    obtain ⟨old, hold, rfl⟩ := List.mem_map.mp hrow
    rw [Friendship.acceptedAt_requesterId, Friendship.acceptedAt_addresseeId]
    exact (h.asked old hold).snoc
  · intro row hrow haccepted
    obtain ⟨old, hold, rfl⟩ := List.mem_map.mp hrow
    rw [Friendship.acceptedAt_id, Friendship.acceptedAt_addresseeId]
    by_cases hid : old.id = friendshipId
    · rw [haddressee old hold hid, hid]
      exact ⟨i, List.mem_append_left _ hresponded⟩
    · rw [Friendship.acceptedAt, if_neg hid] at haccepted
      obtain ⟨j, hj⟩ := h.answered old hold haccepted
      exact ⟨j, List.mem_append_left _ hj⟩
  · intro j
    rw [calls_setCall]
    split
    · trivial
    · refine (h.calls j).mono (Nat.le_refl _) fun row hrow _ ↦ ?_
      obtain ⟨old, hold, rfl⟩ := List.mem_map.mp hrow
      exact ⟨old, hold, (Friendship.acceptedAt_id ..).symm, (Friendship.acceptedAt_addresseeId ..).symm⟩

/-- The next query of a call keeps the invariant. -/
theorem Consented.query (h : Consented users s past) (hstep : s.query users i (s.calls i) = some s') :
    Consented users s' (past ++ [l]) := by
  have hstarted := h.calls i
  have hothers : ∀ call : Call, ∀ j, j ≠ i → (s.setCall i call).calls j = s.calls j :=
    fun call j hj ↦ (calls_setCall ..).trans (if_neg hj)
  -- a call that goes on without changing the rows
  have hgoes : ∀ call : Call, Started users (past ++ [l]) (s.setCall i call) i call →
      Consented users (s.setCall i call) (past ++ [l]) := fun call hcall ↦
    h.of_rows rfl (Nat.le_refl _) (by rw [calls_setCall, if_pos rfl]; exact hcall) (hothers call)
  cases hcall : s.calls i with
  | findUser requesterId username =>
    rw [hcall] at hstep hstarted
    simp only [State.query] at hstep
    split at hstep
    · obtain rfl := Option.some.inj hstep
      exact hgoes _ trivial
    · next addresseeId huser =>
      split at hstep
      · obtain rfl := Option.some.inj hstep
        exact hgoes _ trivial
      · next hne =>
        obtain rfl := Option.some.inj hstep
        exact hgoes _ ⟨fun heq ↦ hne heq.symm, i, username, List.mem_append_left _ hstarted, huser⟩
  | check a b =>
    rw [hcall] at hstep hstarted
    simp only [State.query] at hstep
    split at hstep
    · obtain rfl := Option.some.inj hstep
      exact hgoes _ trivial
    · obtain rfl := Option.some.inj hstep
      exact hgoes (.insert a b) hstarted.snoc
  | insert a b =>
    rw [hcall] at hstep
    simp only [State.query] at hstep
    split at hstep
    · obtain rfl := Option.some.inj hstep
      exact h.of_rows rfl (Nat.le_succ _) (by rw [calls_setCall, if_pos rfl]; trivial) fun j hj ↦
        (calls_setCall ..).trans (if_neg hj)
    · next row hrow =>
      obtain rfl := Option.some.inj hstep
      exact h.insert hcall hrow
  | checkAddressee friendshipId userId accept =>
    rw [hcall] at hstep hstarted
    simp only [State.query] at hstep
    split at hstep
    · next hfound =>
      obtain ⟨row, hrow, hrow'⟩ := List.any_eq_true.mp hfound
      rw [Bool.and_eq_true, beq_iff_eq, beq_iff_eq] at hrow'
      obtain ⟨hid, haddressee⟩ := hrow'
      have hlt : friendshipId < s.nextId := hid ▸ h.ids row hrow
      have hall : ∀ row' ∈ s.rows, row'.id = friendshipId → row'.addresseeId = userId :=
        fun row' hmem heq ↦ h.single row hrow row' hmem (hid.trans heq.symm) ▸ haddressee
      obtain rfl := Option.some.inj hstep
      cases accept with
      | false => exact hgoes (.decline _) ⟨hlt, userId, List.mem_append_left _ hstarted, hall⟩
      | true => exact hgoes (.accept _) ⟨hlt, userId, List.mem_append_left _ hstarted, hall⟩
    · obtain rfl := Option.some.inj hstep
      exact hgoes _ trivial
  | accept friendshipId =>
    rw [hcall] at hstep
    obtain rfl := Option.some.inj hstep
    exact h.accept hcall
  | decline friendshipId =>
    rw [hcall] at hstep
    obtain rfl := Option.some.inj hstep
    exact h.filter _ _
  | remove friendshipId userId =>
    rw [hcall] at hstep
    obtain rfl := Option.some.inj hstep
    exact h.filter _ _
  | ended reply =>
    rw [hcall] at hstep
    cases hstep

/-- Every step keeps the invariant. -/
theorem Consented.step (h : Consented users s past) (hstep : State.next users s l = some s') :
    Consented users s' (past ++ [l]) := by
  cases l with
  | call i call =>
    simp only [State.next] at hstep
    split at hstep
    · split at hstep
      · next hstarts =>
        obtain rfl := Option.some.inj hstep
        refine h.of_rows rfl (Nat.le_refl _) ?_ fun j hj ↦ (calls_setCall ..).trans (if_neg hj)
        rw [calls_setCall, if_pos rfl]
        have hlast : .call i call ∈ past ++ [State.Label.call i call] :=
          List.mem_append_right _ (List.mem_singleton_self _)
        cases call with
        | findUser requesterId username => exact hlast
        | checkAddressee friendshipId userId accept => exact hlast
        | remove friendshipId userId => exact hlast
        | _ => cases hstarts
      · cases hstep
    · cases hstep
  | query i => exact h.query hstep
  | fail i =>
    simp only [State.next] at hstep
    split at hstep
    · cases hstep
    · obtain rfl := Option.some.inj hstep
      exact h.of_rows rfl (Nat.le_refl _) (by rw [calls_setCall, if_pos rfl]; trivial) fun j hj ↦
        (calls_setCall ..).trans (if_neg hj)

private theorem Consented.reachable (h : (machine users).recorded.Reachable (s, past)) :
    Consented users s past := by
  refine Machine.recorded_invariant ?_ (fun _ _ _ _ hok hstep ↦ hok.step hstep) h
  rintro s rfl
  exact ⟨by simp [State.empty], by simp [State.empty], by simp [State.empty], by simp [State.empty],
    fun _ ↦ trivial⟩

/-! ### What a step does to a row -/

/-- A step leaves a row, accepts it for its addressee or takes it away for one of its users. -/
theorem Consented.treated (h : Consented users s past) (hstep : State.next users s l = some s')
    {row : Friendship} (hrow : row ∈ s.rows) : Treated past l s' row := by
  cases l with
  | call i call =>
    simp only [State.next] at hstep
    split at hstep
    · split at hstep
      · obtain rfl := Option.some.inj hstep
        exact Or.inl hrow
      · cases hstep
    · cases hstep
  | fail i =>
    simp only [State.next] at hstep
    split at hstep
    · cases hstep
    · obtain rfl := Option.some.inj hstep
      exact Or.inl hrow
  | query i =>
    have hstarted := h.calls i
    change s.query users i (s.calls i) = some s' at hstep
    cases hcall : s.calls i with
    | findUser requesterId username =>
      rw [hcall] at hstep
      simp only [State.query] at hstep
      split at hstep
      · obtain rfl := Option.some.inj hstep
        exact Or.inl hrow
      · split at hstep <;> obtain rfl := Option.some.inj hstep <;> exact Or.inl hrow
    | check a b =>
      rw [hcall] at hstep
      simp only [State.query] at hstep
      split at hstep <;> obtain rfl := Option.some.inj hstep <;> exact Or.inl hrow
    | insert a b =>
      rw [hcall] at hstep
      simp only [State.query] at hstep
      split at hstep
      · obtain rfl := Option.some.inj hstep
        exact Or.inl hrow
      · obtain rfl := Option.some.inj hstep
        exact Or.inl (List.mem_append_left _ hrow)
    | checkAddressee friendshipId userId accept =>
      rw [hcall] at hstep
      simp only [State.query] at hstep
      split at hstep <;> obtain rfl := Option.some.inj hstep <;> exact Or.inl hrow
    | accept friendshipId =>
      rw [hcall] at hstep hstarted
      obtain rfl := Option.some.inj hstep
      obtain ⟨-, userId, hresponded, haddressee⟩ := hstarted
      by_cases hid : row.id = friendshipId
      · refine Or.inr (Or.inl ⟨i, rfl, List.mem_map.mpr ⟨row, hrow, if_pos hid⟩, ?_⟩)
        rw [haddressee row hrow hid, hid]
        exact hresponded
      · exact Or.inl (List.mem_map.mpr ⟨row, hrow, if_neg hid⟩)
    | decline friendshipId =>
      rw [hcall] at hstep hstarted
      obtain rfl := Option.some.inj hstep
      obtain ⟨-, userId, hresponded, haddressee⟩ := hstarted
      by_cases hid : row.id = friendshipId
      · refine Or.inr (Or.inr ⟨i, rfl, fun row' hrow' heq ↦ ?_, Or.inl ?_⟩)
        · have hne := (List.mem_filter.mp hrow').2
          rw [heq, hid, bne_self_eq_false] at hne
          cases hne
        · rw [haddressee row hrow hid, hid]
          exact hresponded
      · exact Or.inl (List.mem_filter.mpr ⟨hrow, bne_iff_ne.mpr hid⟩)
    | remove friendshipId userId =>
      rw [hcall] at hstep hstarted
      obtain rfl := Option.some.inj hstep
      cases hbelongs : State.belongs friendshipId userId row with
      | false => exact Or.inl (List.mem_filter.mpr ⟨hrow, by rw [hbelongs]; rfl⟩)
      | true =>
        refine Or.inr (Or.inr ⟨i, rfl, fun row' hrow' heq ↦ ?_, Or.inr ⟨userId, ?_, ?_⟩⟩)
        · obtain ⟨hmem, hkept⟩ := List.mem_filter.mp hrow'
          rw [h.single row' hmem row hrow heq, hbelongs] at hkept
          cases hkept
        · unfold State.belongs at hbelongs
          rw [Bool.and_eq_true, Bool.or_eq_true, beq_iff_eq, beq_iff_eq, beq_iff_eq] at hbelongs
          exact hbelongs.2
        · have hid : row.id = friendshipId := by
            unfold State.belongs at hbelongs
            rw [Bool.and_eq_true, beq_iff_eq] at hbelongs
            exact hbelongs.1
          rw [hid]
          exact hstarted
    | ended reply =>
      rw [hcall] at hstep
      cases hstep

/-- Nobody becomes a friend without asking or being asked, and answering: every row was asked for
by its requester, an accepted row was accepted by its addressee, and only its two users change it
or take it away. The lists show exactly that: two users are listed to each other if and only if an
accepted row is between them, and the incoming requests of a user are the pending rows of which he
is the addressee. -/
theorem friends_consented (h : (machine users).recorded.Reachable (s, past)) :
    (∀ row ∈ s.rows, Asked users past row.requesterId row.addresseeId) ∧
    (∀ row ∈ s.rows, row.status = .accepted → ∃ i, Responded past i row.id row.addresseeId true) ∧
    (∀ l s', State.next users s l = some s' → ∀ row ∈ s.rows, Treated past l s' row) ∧
    (∀ before profiles user friend friendshipId, user ∈ profiles → friend ∈ profiles →
      ((⟨friendshipId, friend⟩ : Listed) ∈ s.listFriends before profiles user.id ↔
        ∃ row ∈ s.rows, row.id = friendshipId ∧ row.status = .accepted ∧
          row.Between user.id friend.id) ∧
      ((⟨friendshipId, friend⟩ : Listed) ∈ s.listFriends before profiles user.id ↔
        ⟨friendshipId, user⟩ ∈ s.listFriends before profiles friend.id)) ∧
    (∀ before profiles user friend friendshipId, user ∈ profiles →
      (⟨friendshipId, friend⟩ : Listed) ∈ s.listFriends before profiles user.id →
      friend ∈ profiles ∧ ∃ a b i, (a = user.id ∧ b = friend.id ∨ a = friend.id ∧ b = user.id) ∧
        Asked users past a b ∧ Responded past i friendshipId b true) ∧
    (∀ profiles user requester friendshipId, requester ∈ profiles →
      ((⟨friendshipId, requester⟩ : Listed) ∈ s.listIncomingRequests profiles user ↔
        ∃ row ∈ s.rows, row.id = friendshipId ∧ row.status = .pending ∧
          row.requesterId = requester.id ∧ row.addresseeId = user)) ∧
    ∀ profiles userId line, line ∈ s.listIncomingRequests profiles userId →
      line.profile ∈ profiles ∧ Asked users past line.profile.id userId := by
  have hok := Consented.reachable h
  refine ⟨hok.asked, hok.answered, fun l s' hstep row hrow ↦ hok.treated hstep hrow, ?_, ?_, ?_, ?_⟩
  · intro before profiles user friend friendshipId huser hfriend
    refine ⟨mem_listFriends_iff hfriend, ?_⟩
    rw [mem_listFriends_iff hfriend, mem_listFriends_iff huser]
    simp only [Friendship.between_comm friend.id user.id]
  · intro before profiles user friend friendshipId huser hlisted
    have hfriend : friend ∈ profiles := by
      obtain ⟨-, -, -, -, hmem, -⟩ := mem_listFriends.mp hlisted
      exact hmem
    obtain ⟨row, hrow, rfl, haccepted, hbetween⟩ := (mem_listFriends_iff hfriend).mp hlisted
    obtain ⟨i, hresponded⟩ := hok.answered row hrow haccepted
    exact ⟨hfriend, row.requesterId, row.addresseeId, i, hbetween, hok.asked row hrow, hresponded⟩
  · intro profiles user requester friendshipId hrequester
    rw [mem_listIncomingRequests]
    constructor
    · rintro ⟨row, hrow, hpending, haddressee, -, hid, hline⟩
      exact ⟨row, hrow, hline.symm, hpending, hid.symm, haddressee⟩
    · rintro ⟨row, hrow, hline, hpending, hid, haddressee⟩
      exact ⟨row, hrow, hpending, haddressee, hrequester, hid.symm, hline.symm⟩
  · intro profiles userId line hline
    obtain ⟨row, hrow, -, rfl, hprofile, hid, -⟩ := mem_listIncomingRequests.mp hline
    rw [hid]
    exact ⟨hprofile, hok.asked row hrow⟩

end Consent

/-- Alice asks Bob, and Bob accepts. -/
def befriended : List State.Label :=
  [.call 0 (.findUser 1 "bob"), .query 0, .query 0, .query 0, .call 1 (.checkAddressee 1 2 true),
    .query 1, .query 1]

/-- The users of that run. -/
def twoProfiles : List Profile := [⟨1, "alice", none, 1200⟩, ⟨2, "bob", none, 1200⟩]

private theorem befriended_run : (befriended.foldlM (State.next twoUsers) .empty).any (fun s ↦
    decide ((⟨1, 1, 2, .accepted⟩ : Friendship) ∈ s.rows)) = true := by decide +kernel

private theorem asked_run : ((befriended.take 4).foldlM (State.next twoUsers) .empty).any (fun s ↦
    decide ((⟨1, 1, 2, .pending⟩ : Friendship) ∈ s.rows)) = true := by decide +kernel

/-- Before Bob answers, his incoming requests show Alice; afterwards each of the two is in the
list of the other. -/
theorem friends_consented_befriended :
    (∃ s : State, (⟨1, ⟨1, "alice", none, 1200⟩⟩ : Listed) ∈ s.listIncomingRequests twoProfiles 2 ∧
      Asked twoUsers (befriended.take 4) 1 2) ∧
    ∃ s : State, (⟨1, ⟨2, "bob", none, 1200⟩⟩ : Listed) ∈ s.listFriends (· ≤ ·) twoProfiles 1 ∧
      (⟨1, ⟨1, "alice", none, 1200⟩⟩ : Listed) ∈ s.listFriends (· ≤ ·) twoProfiles 2 ∧
      Asked twoUsers befriended 1 2 ∧ ∃ i, Responded befriended i 1 2 true := by
  have hinit : (machine twoUsers).recorded.Reachable (.empty, []) := .init ⟨rfl, rfl⟩
  constructor
  · obtain ⟨s, hs, hrow⟩ := (Option.any_eq_true _ _).mp asked_run
    obtain ⟨hasked, -, -, -, -, hincoming, -⟩ :=
      friends_consented (hinit.foldlM_recorded (fun _ _ _ h ↦ h) hs)
    have hmem := of_decide_eq_true hrow
    exact ⟨s, (hincoming twoProfiles 2 _ 1 (by decide)).mpr ⟨_, hmem, rfl, rfl, rfl, rfl⟩,
      hasked _ hmem⟩
  · obtain ⟨s, hs, hrow⟩ := (Option.any_eq_true _ _).mp befriended_run
    obtain ⟨hasked, hanswered, -, hlists, -⟩ :=
      friends_consented (hinit.foldlM_recorded (fun _ _ _ h ↦ h) hs)
    have hmem := of_decide_eq_true hrow
    obtain ⟨hlisted, hmutual⟩ := hlists (· ≤ ·) twoProfiles ⟨1, "alice", none, 1200⟩
      ⟨2, "bob", none, 1200⟩ 1 (by decide) (by decide)
    have hbob := hlisted.mpr ⟨_, hmem, rfl, rfl, Or.inl ⟨rfl, rfl⟩⟩
    exact ⟨s, hbob, hmutual.mp hbob, hasked _ hmem, hanswered _ hmem rfl⟩

end ChessStack.Friends
