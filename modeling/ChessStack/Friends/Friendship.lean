import ChessStack.Library.Machine
import Mathlib.Data.List.Basic
import Mathlib.Logic.Function.Basic

/-!
# Friend requests

Library `Friends`. `Chess-Backend/src/models/Friendship.js` over the table `friendships` of
`Database/migrations/004_friends.sql`. A call is the queries it still has to make; each query is
one step, and those of different calls come in any order. The table's UNIQUE is on the ordered
pair of users.
-/

namespace ChessStack.Friends

open ChessStack.Library

/-- The status of a friendship. -/
inductive Status where
  | pending
  | accepted
  deriving DecidableEq, Repr

/-- A row of `friendships`. -/
structure Friendship where
  id : Nat
  requesterId : Nat
  addresseeId : Nat
  status : Status
  deriving DecidableEq, Repr

/-- What a call has come to. -/
inductive Reply where
  | error (text : String)
  | friendship (row : Option Friendship)
  | declined
  | removed (ok : Bool)
  | rejected
  deriving DecidableEq, Repr

/-- A call of `sendRequest`, `respond` or `remove`, by the query it makes next. -/
inductive Call where
  | findUser (requesterId : Nat) (username : String)
  | check (requesterId addresseeId : Nat)
  | insert (requesterId addresseeId : Nat)
  | checkAddressee (friendshipId userId : Nat) (accept : Bool)
  | accept (friendshipId : Nat)
  | decline (friendshipId : Nat)
  | remove (friendshipId userId : Nat)
  | ended (reply : Reply)
  deriving DecidableEq, Repr

/-- The calls as they are made. -/
def Call.starts : Call → Bool
  | .findUser _ _ | .checkAddressee _ _ _ | .remove _ _ => true
  | _ => false

/-- The table, its sequence, and the calls. -/
structure State where
  rows : List Friendship
  nextId : Nat
  calls : Nat → Call

namespace State

/-- No rows, and no call. -/
def empty : State := ⟨[], 1, fun _ ↦ .ended .rejected⟩

/-- Where a call is now. -/
def setCall (s : State) (i : Nat) (call : Call) : State :=
  { s with calls := Function.update s.calls i call }

/-- The row is one of the two users', in either direction. -/
def between (a b : Nat) (row : Friendship) : Bool :=
  (row.requesterId == a && row.addresseeId == b) || (row.requesterId == b && row.addresseeId == a)

/-- The rows of two users. -/
def pair (s : State) (a b : Nat) : List Friendship := s.rows.filter (between a b)

/-- `INSERT INTO friendships … RETURNING *`: `none` where a constraint is violated. -/
def inserted (s : State) (requesterId addresseeId : Nat) : Option Friendship :=
  if requesterId = addresseeId ∨ s.rows.any fun row ↦
      row.requesterId == requesterId && row.addresseeId == addresseeId then none
  else some ⟨s.nextId, requesterId, addresseeId, .pending⟩

/-- The row belongs to the user. -/
def belongs (friendshipId userId : Nat) (row : Friendship) : Bool :=
  row.id == friendshipId && (row.requesterId == userId || row.addresseeId == userId)

/-- The next query of a call, `Friendship.js:9–29, 58–78`. -/
def query (users : String → Option Nat) (s : State) (i : Nat) : Call → Option State
  | .findUser requesterId username =>
    match users username with
    | none => some (s.setCall i (.ended (.error "User not found")))
    | some addresseeId =>
      if addresseeId = requesterId then
        some (s.setCall i (.ended (.error "Can't add yourself")))
      else some (s.setCall i (.check requesterId addresseeId))
  | .check requesterId addresseeId =>
    match s.rows.find? (between requesterId addresseeId) with
    | some row => some (s.setCall i (.ended (.error
        (if row.status = .accepted then "Already friends" else "Request already pending"))))
    | none => some (s.setCall i (.insert requesterId addresseeId))
  | .insert requesterId addresseeId =>
    match s.inserted requesterId addresseeId with
    | none => some ({ s with nextId := s.nextId + 1 }.setCall i (.ended .rejected))
    | some row => some ({ s with rows := s.rows ++ [row], nextId := s.nextId + 1 }.setCall i
        (.ended (.friendship (some row))))
  | .checkAddressee friendshipId userId accept =>
    if s.rows.any fun row ↦ row.id == friendshipId && row.addresseeId == userId then
      some (s.setCall i (if accept then .accept friendshipId else .decline friendshipId))
    else some (s.setCall i (.ended (.error "Request not found")))
  | .accept friendshipId =>
    let rows := s.rows.map fun row ↦
      if row.id = friendshipId then { row with status := .accepted } else row
    some ({ s with rows := rows }.setCall i
      (.ended (.friendship (rows.find? fun row ↦ row.id == friendshipId))))
  | .decline friendshipId =>
    some ({ s with rows := s.rows.filter fun row ↦ row.id != friendshipId }.setCall i
      (.ended .declined))
  | .remove friendshipId userId =>
    some ({ s with rows := s.rows.filter fun row ↦ !belongs friendshipId userId row }.setCall i
      (.ended (.removed (s.rows.any (belongs friendshipId userId)))))
  | .ended _ => none

/-- A new call, the next query of a call, or a query that fails. -/
inductive Label where
  | call (i : Nat) (call : Call)
  | query (i : Nat)
  | fail (i : Nat)

/-- The state after a step. -/
def next (users : String → Option Nat) (s : State) : Label → Option State
  | .call i call =>
    match s.calls i with
    | .ended _ => if call.starts then some (s.setCall i call) else none
    | _ => none
  | .query i => s.query users i (s.calls i)
  | .fail i =>
    match s.calls i with
    | .ended _ => none
    | _ => some (s.setCall i (.ended .rejected))

end State

/-- The calls of any number of users on any number of replicas. -/
def machine (users : String → Option Nat) : Machine State State.Label :=
  Machine.ofStep .empty (State.next users)

/-- A request may look for a row of its pair only where no request in the other direction is
between its own look, which found none, and its insert. -/
def Apart (s : State) : State.Label → Prop
  | .query i => ∀ a b, s.calls i = .check a b → s.pair a b = [] → ∀ j, s.calls j ≠ .insert b a
  | _ => True

/-! ### One step -/

section Step

variable {users : String → Option Nat} {s s' : State} {i : Nat}

/-- What a step does to the rows and to the calls. -/
inductive Effect (s s' : State) (i : Nat) : Prop
  | quiet : s'.rows = s.rows → (∀ a b, s'.calls i ≠ .insert a b) →
      (∀ a b, s'.calls i = .check a b → a ≠ b) → Effect s s' i
  | passes {a b : Nat} : s.calls i = .check a b → s.pair a b = [] → s'.rows = s.rows →
      s'.calls i = .insert a b → Effect s s' i
  | inserts {a b : Nat} {row : Friendship} : s.calls i = .insert a b →
      s.inserted a b = some row → s'.rows = s.rows ++ [row] →
      s'.calls i = .ended (.friendship (some row)) → Effect s s' i
  | accepts {friendshipId : Nat} : s'.rows = s.rows.map (fun row ↦
      if row.id = friendshipId then { row with status := .accepted } else row) →
      (∃ reply, s'.calls i = .ended reply) → Effect s s' i
  | deletes {keep : Friendship → Bool} : s'.rows = s.rows.filter keep →
      (∃ reply, s'.calls i = .ended reply) → Effect s s' i

/-- The call a step is about. -/
def State.Label.index : State.Label → Nat
  | .call i _ | .query i | .fail i => i

/-- The calls after one of them went on. -/
theorem calls_setCall (s : State) (i j : Nat) (call : Call) :
    (s.setCall i call).calls j = if j = i then call else s.calls j := by
  unfold State.setCall
  exact Function.update_apply ..

private theorem find?_between {a b : Nat} (h : s.rows.find? (State.between a b) = none) :
    s.pair a b = [] := by
  unfold State.pair
  rw [List.filter_eq_nil_iff]
  exact List.find?_eq_none.mp h

private theorem query_effect {call : Call} (hcall : s.calls i = call)
    (h : s.query users i call = some s') : Effect s s' i := by
  cases call with
  | findUser requesterId username =>
    simp only [State.query] at h
    split at h
    · obtain rfl := Option.some.inj h
      exact .quiet rfl (by simp [calls_setCall]) (by simp [calls_setCall])
    · split at h
      · obtain rfl := Option.some.inj h
        exact .quiet rfl (by simp [calls_setCall]) (by simp [calls_setCall])
      · next hne =>
        obtain rfl := Option.some.inj h
        refine .quiet rfl (by simp [calls_setCall]) ?_
        intro a b hcheck
        simp only [calls_setCall, if_true, Call.check.injEq] at hcheck
        omega
  | check a b =>
    simp only [State.query] at h
    split at h
    · obtain rfl := Option.some.inj h
      exact .quiet rfl (by simp [calls_setCall]) (by simp [calls_setCall])
    · next hnone =>
      obtain rfl := Option.some.inj h
      exact .passes hcall (find?_between hnone) rfl (by simp [calls_setCall])
  | insert a b =>
    simp only [State.query] at h
    split at h
    · obtain rfl := Option.some.inj h
      exact .quiet rfl (by simp [calls_setCall]) (by simp [calls_setCall])
    · next row hrow =>
      obtain rfl := Option.some.inj h
      exact .inserts hcall hrow rfl (by simp [calls_setCall])
  | checkAddressee friendshipId userId accept =>
    simp only [State.query] at h
    split at h
    · obtain rfl := Option.some.inj h
      refine .quiet rfl ?_ ?_ <;> simp only [calls_setCall, if_true] <;> cases accept <;> simp
    · obtain rfl := Option.some.inj h
      exact .quiet rfl (by simp [calls_setCall]) (by simp [calls_setCall])
  | accept friendshipId =>
    obtain rfl := Option.some.inj h
    exact .accepts rfl ⟨_, by simp [calls_setCall]; rfl⟩
  | decline friendshipId =>
    obtain rfl := Option.some.inj h
    exact .deletes rfl ⟨_, by simp [calls_setCall]; rfl⟩
  | remove friendshipId userId =>
    obtain rfl := Option.some.inj h
    exact .deletes rfl ⟨_, by simp [calls_setCall]; rfl⟩
  | ended reply => cases h

private theorem query_calls {call : Call} (h : s.query users i call = some s') (j : Nat)
    (hj : j ≠ i) :
    s'.calls j = s.calls j := by
  cases call with
  | findUser requesterId username =>
    simp only [State.query] at h
    split at h
    · obtain rfl := Option.some.inj h
      rw [calls_setCall, if_neg hj]
    · split at h <;> obtain rfl := Option.some.inj h <;> rw [calls_setCall, if_neg hj]
  | check a b =>
    simp only [State.query] at h
    split at h <;> obtain rfl := Option.some.inj h <;> rw [calls_setCall, if_neg hj]
  | insert a b =>
    simp only [State.query] at h
    split at h <;> obtain rfl := Option.some.inj h <;> rw [calls_setCall, if_neg hj]
  | checkAddressee friendshipId userId accept =>
    simp only [State.query] at h
    split at h <;> obtain rfl := Option.some.inj h <;> rw [calls_setCall, if_neg hj]
  | accept friendshipId =>
    obtain rfl := Option.some.inj h
    rw [calls_setCall, if_neg hj]
  | decline friendshipId =>
    obtain rfl := Option.some.inj h
    rw [calls_setCall, if_neg hj]
  | remove friendshipId userId =>
    obtain rfl := Option.some.inj h
    rw [calls_setCall, if_neg hj]
  | ended reply => cases h

/-- Every step is about one call, and has one of these effects. -/
theorem next_effect {l : State.Label} (h : State.next users s l = some s') :
    Effect s s' l.index ∧ ∀ j, j ≠ l.index → s'.calls j = s.calls j := by
  cases l with
  | call i call =>
    simp only [State.next] at h
    split at h
    · split at h
      · next hstarts =>
        obtain rfl := Option.some.inj h
        refine ⟨.quiet rfl ?_ ?_, fun j hj ↦ (calls_setCall ..).trans (if_neg hj)⟩
        · intro a b hinsert
          simp only [State.Label.index, calls_setCall, if_true] at hinsert
          rw [hinsert] at hstarts
          cases hstarts
        · intro a b hcheck
          simp only [State.Label.index, calls_setCall, if_true] at hcheck
          rw [hcheck] at hstarts
          cases hstarts
      · cases h
    · cases h
  | query i => exact ⟨query_effect rfl h, query_calls h⟩
  | fail i =>
    simp only [State.next] at h
    split at h
    · cases h
    · obtain rfl := Option.some.inj h
      refine ⟨.quiet rfl (by simp [State.Label.index, calls_setCall])
        (by simp [State.Label.index, calls_setCall]), fun j hj ↦ (calls_setCall ..).trans (if_neg hj)⟩

end Step

/-! ### The invariant -/

/-- The rows and the requests on their way, where requests keep apart. -/
structure Apart.Ok (s : State) : Prop where
  once : ∀ a b, (s.pair a b).length ≤ 1
  distinct : ∀ i a b, (s.calls i = .check a b ∨ s.calls i = .insert a b) → a ≠ b
  single : ∀ i j a b, s.calls i = .insert a b → s.calls j ≠ .insert b a
  mirror : ∀ i a b, s.calls i = .insert a b → ∀ row ∈ s.rows,
    ¬ (row.requesterId = b ∧ row.addresseeId = a)

section Invariant

variable {users : String → Option Nat} {s s' : State}

private theorem mem_pair {a b : Nat} {row : Friendship} : row ∈ s.pair a b ↔ row ∈ s.rows ∧
    (row.requesterId = a ∧ row.addresseeId = b ∨ row.requesterId = b ∧ row.addresseeId = a) := by
  simp [State.pair, State.between]

private theorem pair_comm (s : State) (a b : Nat) : s.pair a b = s.pair b a := by
  unfold State.pair
  congr 1
  funext row
  unfold State.between
  rw [Bool.or_comm]

/-- Only a query moves a request on to its insert. -/
theorem isQuery_of_passes {l : State.Label} {a b : Nat} (h : State.next users s l = some s')
    (hcall : s.calls l.index = .check a b) (hcall' : s'.calls l.index = .insert a b) :
    ∃ i, l = .query i := by
  cases l with
  | call i call =>
    simp only [State.Label.index] at hcall
    simp only [State.next, hcall] at h
    cases h
  | query i => exact ⟨i, rfl⟩
  | fail i =>
    simp only [State.Label.index] at hcall hcall'
    simp only [State.next, hcall] at h
    obtain rfl := Option.some.inj h
    simp [calls_setCall] at hcall'

/-- A stored request found no row in its own direction. -/
theorem inserted_eq_some {a b : Nat} {row : Friendship} (h : s.inserted a b = some row) :
    row.requesterId = a ∧ row.addresseeId = b ∧ a ≠ b ∧
      ∀ old ∈ s.rows, ¬ (old.requesterId = a ∧ old.addresseeId = b) := by
  unfold State.inserted at h
  split at h
  · cases h
  · next hfree =>
    obtain rfl := Option.some.inj h
    simpa [not_or] using hfree

/-- What a step leaves as it was. -/
theorem Apart.Ok.of_calls (h : Apart.Ok s) {i : Nat}
    (hothers : ∀ j, j ≠ i → s'.calls j = s.calls j) (hinsert : ∀ a b, s'.calls i ≠ .insert a b)
    (hcheck : ∀ a b, s'.calls i = .check a b → a ≠ b)
    (honce : ∀ a b, (s'.pair a b).length ≤ (s.pair a b).length)
    (hrows : ∀ row ∈ s'.rows, ∃ old ∈ s.rows, old.requesterId = row.requesterId ∧
      old.addresseeId = row.addresseeId) : Apart.Ok s' := by
  have hold : ∀ j a b, s'.calls j = .insert a b → s.calls j = .insert a b := by
    intro j a b hj
    by_cases heq : j = i
    · exact absurd (heq ▸ hj) (hinsert a b)
    · rw [← hothers j heq]
      exact hj
  constructor
  · exact fun a b ↦ Nat.le_trans (honce a b) (h.once a b)
  · intro j a b hj
    by_cases heq : j = i
    · subst heq
      rcases hj with hj | hj
      · exact hcheck a b hj
      · exact absurd hj (hinsert a b)
    · rw [hothers j heq] at hj
      exact h.distinct j a b hj
  · exact fun j k a b hj hk ↦ h.single j k a b (hold j a b hj) (hold k b a hk)
  · intro j a b hj row hrow hmirror
    obtain ⟨old, hmem, hreq, hadr⟩ := hrows row hrow
    exact h.mirror j a b (hold j a b hj) old hmem ⟨hreq.trans hmirror.1, hadr.trans hmirror.2⟩

private theorem pair_map (f : Friendship → Friendship)
    (hreq : ∀ row, (f row).requesterId = row.requesterId)
    (hadr : ∀ row, (f row).addresseeId = row.addresseeId) (h : s'.rows = s.rows.map f) (a b : Nat) :
    (s'.pair a b).length = (s.pair a b).length := by
  unfold State.pair
  rw [h, List.filter_map, List.length_map]
  congr 2
  funext row
  simp only [Function.comp_apply, State.between, hreq, hadr]

/-- Every step of requests that keep apart preserves the invariant. -/
theorem Apart.Ok.step (h : Apart.Ok s) {l : State.Label} (happart : Apart s l)
    (hstep : State.next users s l = some s') : Apart.Ok s' := by
  obtain ⟨heffect, hothers⟩ := next_effect hstep
  cases heffect with
  | quiet hrows hinsert hcheck =>
    refine h.of_calls hothers hinsert hcheck (fun a b ↦ ?_) fun row hrow ↦ ?_
    · rw [State.pair, hrows]
      exact Nat.le_refl _
    · exact ⟨row, hrows ▸ hrow, rfl, rfl⟩
  | @passes a b hcall hnone hrows hcall' =>
    obtain ⟨i, rfl⟩ := isQuery_of_passes hstep hcall hcall'
    change s.calls i = .check a b at hcall
    change s'.calls i = .insert a b at hcall'
    have hother := happart a b hcall hnone
    -- the only request that has moved on to its insert
    have hold : ∀ j c d, s'.calls j = .insert c d →
        (j = i ∧ c = a ∧ d = b) ∨ s.calls j = .insert c d := by
      intro j c d hj
      by_cases heq : j = i
      · rw [heq, hcall', Call.insert.injEq] at hj
        exact Or.inl ⟨heq, hj.1.symm, hj.2.symm⟩
      · exact Or.inr (hothers j heq ▸ hj)
    have hne := h.distinct i a b (Or.inl hcall)
    constructor
    · intro c d
      rw [State.pair, hrows]
      exact h.once c d
    · intro j c d hj
      by_cases heq : j = i
      · rw [heq, hcall'] at hj
        rcases hj with hj | hj
        · cases hj
        · obtain ⟨rfl, rfl⟩ := Call.insert.inj hj
          exact hne
      · rw [hothers j heq] at hj
        exact h.distinct j c d hj
    · intro j k c d hj hk
      rcases hold j c d hj with ⟨-, rfl, rfl⟩ | hj
      · rcases hold k d c hk with ⟨-, rfl, -⟩ | hk
        · exact hne rfl
        · exact hother k hk
      · rcases hold k d c hk with ⟨-, rfl, rfl⟩ | hk
        · exact hother j hj
        · exact h.single j k c d hj hk
    · intro j c d hj row hrow hmirror
      rw [hrows] at hrow
      rcases hold j c d hj with ⟨-, rfl, rfl⟩ | hj
      · have hmem : row ∈ s.pair c d := mem_pair.mpr ⟨hrow, Or.inr hmirror⟩
        rw [hnone] at hmem
        cases hmem
      · exact h.mirror j c d hj row hrow hmirror
  | @inserts a b row hcall hrow hrows hcall' =>
    obtain ⟨hreq, hadr, hne, hfree⟩ := inserted_eq_some hrow
    have hold : ∀ j c d, s'.calls j = .insert c d → s.calls j = .insert c d := by
      intro j c d hj
      by_cases heq : j = l.index
      · rw [heq, hcall'] at hj
        cases hj
      · exact hothers j heq ▸ hj
    have hnone : s.pair a b = [] := by
      rw [List.eq_nil_iff_forall_not_mem]
      intro old hold'
      rcases mem_pair.mp hold' with ⟨hmem, hsame | hmirror⟩
      · exact hfree old hmem hsame
      · exact h.mirror _ a b hcall old hmem hmirror
    constructor
    · intro c d
      have hlength : (s'.pair c d).length =
          (s.pair c d).length + if State.between c d row then 1 else 0 := by
        rw [State.pair, hrows, List.filter_append, List.length_append, List.filter_singleton]
        cases State.between c d row <;> rfl
      rw [hlength]
      split
      · next hbetween =>
        -- the new row is the pair's only one
        have hpair : s.pair c d = [] := by
          rw [← hnone]
          unfold State.between at hbetween
          simp only [Bool.or_eq_true, Bool.and_eq_true, beq_iff_eq, hreq, hadr] at hbetween
          rcases hbetween with ⟨rfl, rfl⟩ | ⟨rfl, rfl⟩
          · rfl
          · exact pair_comm ..
        rw [hpair]
        exact Nat.le_refl _
      · exact h.once c d
    · intro j c d hj
      by_cases heq : j = l.index
      · rw [heq, hcall'] at hj
        rcases hj with hj | hj <;> cases hj
      · rw [hothers j heq] at hj
        exact h.distinct j c d hj
    · exact fun j k c d hj hk ↦ h.single j k c d (hold j c d hj) (hold k d c hk)
    · intro j c d hj old hmem hmirror
      rw [hrows, List.mem_append, List.mem_singleton] at hmem
      rcases hmem with hmem | rfl
      · exact h.mirror j c d (hold j c d hj) old hmem hmirror
      · rw [hreq, hadr] at hmirror
        obtain ⟨rfl, rfl⟩ := hmirror
        exact h.single _ j _ _ hcall (hold j _ _ hj)
  | @accepts friendshipId hrows hcall' =>
    obtain ⟨reply, hcall'⟩ := hcall'
    refine h.of_calls hothers (by simp [hcall']) (by simp [hcall']) (fun a b ↦ ?_) fun row hrow ↦ ?_
    · refine Nat.le_of_eq (pair_map _ ?_ ?_ hrows a b) <;> intro row <;> split <;> rfl
    · rw [hrows] at hrow
      obtain ⟨old, hmem, rfl⟩ := List.mem_map.mp hrow
      refine ⟨old, hmem, ?_⟩
      split <;> exact ⟨rfl, rfl⟩
  | @deletes keep hrows hcall' =>
    obtain ⟨reply, hcall'⟩ := hcall'
    refine h.of_calls hothers (by simp [hcall']) (by simp [hcall']) (fun a b ↦ ?_) fun row hrow ↦ ?_
    · rw [State.pair, State.pair, hrows]
      exact (List.filter_sublist.filter _).length_le
    · rw [hrows] at hrow
      exact ⟨row, (List.mem_filter.mp hrow).1, rfl, rfl⟩

private theorem Apart.Ok.empty : Apart.Ok .empty where
  once _ _ := Nat.zero_le _
  distinct _ _ _ h := by
    rcases h with h | h <;> cases h
  single _ _ _ _ h := by cases h
  mirror _ _ _ h := by cases h

private theorem Apart.Ok.reachable (h : ((machine users).restrict Apart).Reachable s) :
    Apart.Ok s := by
  refine Machine.Invariant.reachable (I := Apart.Ok) ⟨?_, ?_⟩ h
  · rintro s rfl
    exact Apart.Ok.empty
  · rintro s l s' hok ⟨happart, hstep⟩
    exact hok.step happart hstep

/-! ### One friendship for each pair -/

/-- A removal that has succeeded leaves no row of the pair it has removed. -/
theorem Apart.Ok.removed (h : Apart.Ok s) {i friendshipId userId : Nat}
    (hcall : s.calls i = .remove friendshipId userId)
    (hstep : State.next users s (.query i) = some s') (hok : s'.calls i = .ended (.removed true)) :
    ∃ row ∈ s.rows, State.belongs friendshipId userId row = true ∧
      s'.pair row.requesterId row.addresseeId = [] := by
  simp only [State.next, hcall, State.query] at hstep
  obtain rfl := Option.some.inj hstep
  simp only [calls_setCall, if_true, Call.ended.injEq, Reply.removed.injEq,
    List.any_eq_true] at hok
  obtain ⟨row, hrow, hbelongs⟩ := hok
  refine ⟨row, hrow, hbelongs, ?_⟩
  -- the removed row was the pair's only one
  have hmem : row ∈ s.pair row.requesterId row.addresseeId := mem_pair.mpr ⟨hrow, Or.inl ⟨rfl, rfl⟩⟩
  have honly : s.pair row.requesterId row.addresseeId = [row] := by
    obtain ⟨only, honly⟩ := List.length_eq_one_iff.mp
      (Nat.le_antisymm (h.once _ _) (List.length_pos_of_mem hmem))
    rw [honly, List.mem_singleton] at hmem
    rw [honly, hmem]
  change (s.rows.filter _).filter _ = []
  rw [List.filter_comm]
  change (s.pair _ _).filter _ = []
  rw [honly, List.filter_singleton, hbelongs]
  rfl

private theorem next_insert {i a b : Nat} {row : Friendship} (hcall : s.calls i = .insert a b)
    (hrow : s.inserted a b = some row) : State.next users s (.query i) =
      some ({ s with rows := s.rows ++ [row], nextId := s.nextId + 1 }.setCall i
        (.ended (.friendship (some row)))) := by
  simp only [State.next, hcall, State.query, hrow]

/-- Two mirrored requests past their looks can both be stored. -/
theorem two_rows_of_mirrored {i j a b : Nat} (hne : a ≠ b) (hnone : s.pair a b = [])
    (hi : s.calls i = .insert a b) (hj : s.calls j = .insert b a) :
    ∃ s', (machine users).Steps s s' ∧ (s'.pair a b).length = 2 := by
  have hij : i ≠ j := by
    rintro rfl
    rw [hi, Call.insert.injEq] at hj
    exact hne hj.1
  have hfree : ∀ row ∈ s.rows, ¬ (row.requesterId = a ∧ row.addresseeId = b) ∧
      ¬ (row.requesterId = b ∧ row.addresseeId = a) := by
    intro row hrow
    rw [← not_or]
    intro hpair
    have hmem := mem_pair.mpr ⟨hrow, hpair⟩
    rw [hnone] at hmem
    cases hmem
  let first : Friendship := ⟨s.nextId, b, a, .pending⟩
  let second : Friendship := ⟨s.nextId + 1, a, b, .pending⟩
  let s₁ := { s with rows := s.rows ++ [first], nextId := s.nextId + 1 }.setCall j
    (.ended (.friendship (some first)))
  have hfirst : s.inserted b a = some first := by
    unfold State.inserted
    rw [if_neg]
    simp only [List.any_eq_true, Bool.and_eq_true, beq_iff_eq, not_or, not_exists, not_and]
    exact ⟨hne.symm, fun row hrow hreq hadr ↦ (hfree row hrow).2 ⟨hreq, hadr⟩⟩
  have hsecond : s₁.inserted a b = some second := by
    unfold State.inserted
    rw [if_neg]
    · rfl
    · simp only [List.any_eq_true, Bool.and_eq_true, beq_iff_eq, not_or, not_exists, not_and]
      refine ⟨hne, fun row hrow hreq hadr ↦ ?_⟩
      rcases List.mem_append.mp hrow with hrow | hrow
      · exact (hfree row hrow).1 ⟨hreq, hadr⟩
      · rw [List.mem_singleton.mp hrow] at hreq
        exact hne hreq.symm
  have hi' : s₁.calls i = .insert a b := by
    rw [calls_setCall, if_neg hij]
    exact hi
  have hstep₁ : (machine users).step s (.query j) s₁ := next_insert hj hfirst
  have hstep₂ : (machine users).step s₁ (.query i) _ := next_insert hi' hsecond
  refine ⟨_, (Machine.Steps.single _ hstep₁).step hstep₂, ?_⟩
  change (((s.rows ++ [first]) ++ [second]).filter (State.between a b)).length = 2
  rw [List.filter_append, List.filter_append]
  change ((s.pair a b ++ _) ++ _).length = 2
  rw [hnone]
  simp [first, second, State.between]

/-- Friend requests, whose mirrored looks and inserts keep apart: in every state a pair of users
has at most one row, and none after a removal that succeeded. Where they do not keep apart a pair
can come to two rows. -/
theorem friendship_once (h : ((machine users).restrict Apart).Reachable s) :
    (∀ a b, (s.pair a b).length ≤ 1) ∧
    (∀ i friendshipId userId s', s.calls i = .remove friendshipId userId →
      State.next users s (.query i) = some s' → s'.calls i = .ended (.removed true) →
        ∃ row ∈ s.rows, State.belongs friendshipId userId row = true ∧
          s'.pair row.requesterId row.addresseeId = []) ∧
    (∀ l s', State.next users s l = some s' → ¬ Apart s l →
      ∃ a b s'', (machine users).Steps s' s'' ∧ (s''.pair a b).length = 2) := by
  have hok := Apart.Ok.reachable h
  refine ⟨hok.once, fun i friendshipId userId s' hcall hstep hremoved ↦
    hok.removed hcall hstep hremoved, ?_⟩
  intro l s' hstep hapart
  cases l with
  | call i call => exact absurd trivial hapart
  | fail i => exact absurd trivial hapart
  | query i =>
    simp only [Apart, not_forall, not_not] at hapart
    obtain ⟨a, b, hcheck, hnone, j, hj⟩ := hapart
    have hij : j ≠ i := by
      rintro rfl
      rw [hcheck] at hj
      cases hj
    have hfind : s.rows.find? (State.between a b) = none :=
      List.find?_eq_none.mpr (List.filter_eq_nil_iff.mp hnone)
    simp only [State.next, hcheck, State.query, hfind] at hstep
    obtain rfl := Option.some.inj hstep
    refine ⟨a, b, two_rows_of_mirrored (i := i) (j := j) (hok.distinct i a b (Or.inl hcheck)) hnone
      ?_ ?_⟩
    · rw [calls_setCall, if_pos rfl]
    · rw [calls_setCall, if_neg hij]
      exact hj

/-! ### A run with two rows -/

/-- Alice is the user 1, Bob the user 2. -/
def twoUsers : String → Option Nat
  | "alice" => some 1
  | "bob" => some 2
  | _ => none

/-- Alice and Bob ask each other at once. -/
def crossedRequests : List State.Label :=
  [.call 0 (.findUser 1 "bob"), .call 1 (.findUser 2 "alice"), .query 0, .query 1, .query 0,
    .query 1, .query 0, .query 1]

/-- Then Alice takes her own request back. -/
def removal : List State.Label := [.call 2 (.remove 1 1), .query 2]

/-- The state a script leads to. -/
def after (labels : List State.Label) : Option State :=
  Machine.script (State.next twoUsers) (fun _ _ ↦ true) .empty labels

private theorem after_reachable {labels : List State.Label} {s : State}
    (h : after labels = some s) :
    (machine twoUsers).Reachable s :=
  (Machine.script_reachable (P := fun _ _ ↦ True) (fun _ _ _ ↦ trivial) (.init rfl) h).of_restrict

/-- A query of the only call keeps apart from the others. -/
theorem apart_of_alone {s : State} {i : Nat} (h : ∀ j a b, s.calls j = .insert a b → j = i) :
    Apart s (.query i) := by
  intro a b hcheck _ j hj
  rw [h j b a hj, hcheck] at hj
  cases hj

/-- Alice has asked Bob: their pair has one row. -/
theorem friendship_once_request :
    ∃ s : State, s.pair 1 2 = [⟨1, 1, 2, .pending⟩] ∧ ∀ a b, (s.pair a b).length ≤ 1 := by
  let s₁ := State.empty.setCall 0 (.findUser 1 "bob")
  let s₂ := s₁.setCall 0 (.check 1 2)
  let s₃ := s₂.setCall 0 (.insert 1 2)
  have halone : ∀ call : Call, ∀ j a b,
      (Function.update State.empty.calls 0 call) j = .insert a b → j = 0 := by
    intro call j a b hj
    by_contra hne
    rw [Function.update_of_ne hne] at hj
    cases hj
  have hreach : ((machine twoUsers).restrict Apart).Reachable s₃ := by
    refine .step (s := s₂) (l := .query 0) (.step (s := s₁) (l := .query 0)
      (.step (l := .call 0 (.findUser 1 "bob")) (.init rfl) ⟨trivial, rfl⟩) ⟨?_, rfl⟩) ⟨?_, rfl⟩
    · exact apart_of_alone (halone (.findUser 1 "bob"))
    · apply apart_of_alone
      intro j a b hj
      by_contra hne
      simp [s₂, s₁, calls_setCall, hne, State.empty] at hj
  have hrow : (machine twoUsers).step s₃ (.query 0) _ :=
    @next_insert twoUsers s₃ 0 1 2 ⟨1, 1, 2, .pending⟩ rfl rfl
  exact ⟨_, rfl, (friendship_once (hreach.step (l := .query 0) ⟨apart_of_alone fun j a b hj ↦ by
    by_contra hne
    simp [s₃, s₂, s₁, calls_setCall, hne, State.empty] at hj, hrow⟩)).1⟩

/-- Two users who ask each other at once have two rows, of which one is left after the other was
removed. -/
theorem not_once_crossed :
    (∃ s, (machine twoUsers).Reachable s ∧ (s.pair 1 2).length = 2) ∧
    ∃ s, (machine twoUsers).Reachable s ∧ s.calls 2 = .ended (.removed true) ∧
      (s.pair 1 2).length = 1 := by
  have hcrossed : (after crossedRequests).any (fun s ↦ (s.pair 1 2).length = 2) = true := by
    decide +kernel
  have hremoved : (after (crossedRequests ++ removal)).any (fun s ↦
      s.calls 2 = .ended (.removed true) ∧ (s.pair 1 2).length = 1) = true := by decide +kernel
  obtain ⟨s, hs, hpair⟩ := Option.any_eq_true _ _ |>.mp hcrossed
  obtain ⟨s', hs', hleft⟩ := Option.any_eq_true _ _ |>.mp hremoved
  exact ⟨⟨s, after_reachable hs, of_decide_eq_true hpair⟩, s', after_reachable hs',
    of_decide_eq_true hleft⟩

end Invariant

end ChessStack.Friends
