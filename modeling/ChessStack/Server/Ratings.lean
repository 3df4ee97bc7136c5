import ChessStack.Library.Relock
import ChessStack.Server.Reference
import ChessStack.Server.Script

/-!
# Finalizations of different games side by side

Library `Server`. `finalizeGameAtomic` of `Chess-Backend/src/socket/gameSocket.js:282–331` statement
by statement, with the locks PostgreSQL takes: the game's row, then the two users in the order of
their ids. Counting wins locks nothing. No cycle of waits comes about, and the store is what the
committed finalizations leave one after another.
-/

namespace ChessStack.Server

open ChessStack.Chess ChessStack.Js ChessStack.Library ChessStack.Store

/-! ### The system -/

/-- A row of `games` or `users`, or an entry of the unique index of another table. -/
inductive Lock where
  | row (key : Key)
  | score (gameId userId : Nat)
  | achievement (userId : Nat) (key : String)
  deriving DecidableEq

/-- The locks a statement of a finalization takes, in its order. The rows a foreign key points to
are locked by the transaction already. -/
def rowLocks : Stmt → List Lock
  | .finishGame id _ _ => [.row (.game id)]
  | .lockUsers ids => (ids.dedup.insertionSort (· ≤ ·)).map fun id ↦ .row (.user id)
  | .setElo id _ => [.row (.user id)]
  | .insertScore row => [.score row.gameId row.userId]
  | .insertAchievements id keys => keys.dedup.map (.achievement id)
  | _ => []

/-- The store with these locks. -/
def rowStore : Database Db Change Lock Unit Unit Stmt Ans where
  apply := Db.apply
  cell _ _ := ()
  fixed _ := ()
  locks stmt _ := rowLocks stmt
  exec := exec

/-- A call of `finalizeGameAtomic`. -/
structure Finalization (js : ChessJs) where
  room : Room js
  result : GameResult
  winnerColor : Option Color
  now : Nat

section System

variable (js : ChessJs) (computeNewRatings : Int → Int → Score → Int × Int) (d₀ : Db)

/-- Tasks that finalize games, on a store that starts as `d₀`. -/
def finalizing : System Db Change Lock Unit Unit Stmt Ans (Finalization js) fun _ ↦ Finalized where
  base := rowStore
  prog c := finalizeGameAtomic computeNewRatings c.room c.result c.winnerColor c.now
  start d := d = d₀
  spawn t := ∃ c, t = .call c fun _ ↦ .done

/-- Their statements interleaved, lock by lock. -/
abbrev finalizations : Machine (System.LockState Db Change Lock Stmt Lock Ans (Finalization js)
    fun _ ↦ Finalized) (System.LockLabel Lock) :=
  (finalizing js computeNewRatings d₀).locking (fun stmt _ ↦ rowLocks stmt) fun _ _ ↦ True

variable {js}

/-- The store after some finalizations, one after another. -/
def runAll (calls : List (Finalization js)) : Option Db :=
  calls.foldlM (fun d c ↦ (backend.run (finalizeGameAtomic computeNewRatings c.room c.result
    c.winnerColor c.now) d).map Prod.snd) d₀

end System

/-- The finalizations that committed, in the order of their commits. -/
def committed {js : ChessJs} (log : List (Outcome Db (Finalization js) fun _ ↦ Finalized)) :
    List (Finalization js) :=
  log.filterMap fun
    | .committed c _ _ _ _ => some c
    | .failed _ => none

private theorem committed_concat {js : ChessJs}
    (log : List (Outcome Db (Finalization js) fun _ ↦ Finalized))
    (c : Finalization js) (value : Finalized) (before after : Db) (answered : Bool) :
    committed (log ++ [.committed c value before after answered]) = committed log ++ [c] := by
  simp [committed]

private theorem committed_concat_failed {js : ChessJs}
    (log : List (Outcome Db (Finalization js) fun _ ↦ Finalized)) (c : Finalization js) :
    committed (log ++ [.failed c]) = committed log := by
  simp [committed]

/-! ### The order of the statements -/

/-- Where a finalization is: before its first statement, with its two users to lock, with both
locked, or about to return. -/
inductive Stage where
  | first
  | seated (white black : Nat)
  | holding (white black : Nat)
  | ended

variable {js : ChessJs} {computeNewRatings : Int → Int → Score → Int × Int} {d₀ : Db}
  {c : Finalization js} {p : Stage} {white black : Nat} {locked : List Lock}

/-- A statement on one of two users. -/
def Stmt.OnUsers (gameId white black : Nat) : Stmt → Prop
  | .setElo id _ => id = white ∨ id = black
  | .insertScore row => (row.userId = white ∨ row.userId = black) ∧ row.gameId = gameId
  | .countWins id => id = white ∨ id = black
  | .insertAchievements id _ => id = white ∨ id = black
  | _ => False

/-- The statements in each stage. -/
def Finalization.ok (c : Finalization js) : Stage → Stmt → Prop
  | .first, stmt => stmt = .finishGame c.room.gameId c.result c.winnerColor
  | .seated white black, stmt => stmt = .lockUsers [white, black]
  | .holding white black, stmt => Stmt.OnUsers c.room.gameId white black stmt
  | .ended, _ => False

/-- The stage after a statement. -/
def Finalization.after (c : Finalization js) : Stage → (stmt : Stmt) → Ans stmt → Stage
  | .first, .finishGame _ _ _, (finished : Nat) =>
    if finished = 0 then .ended
    else
      match seatOf c.room.players .w, seatOf c.room.players .b with
      | some (_, white), some (_, black) => .seated white black
      | _, _ => .ended
  | .seated white black, .lockUsers _, (users : List UserRow) =>
    if users.length = 2 then .holding white black else .ended
  | .holding white black, _, _ => .holding white black
  | _, _, _ => .ended

private theorem follows_sql {Value : Type} {stmt : Stmt} {f : Ans stmt → GameTx Value}
    (hok : c.ok p stmt)
    (h : ∀ a, (f a).Follows c.ok c.after (c.after p stmt a)) :
    (sql stmt >>= f).Follows c.ok c.after p := ⟨hok, h⟩

private theorem follows_bind {Value Value' : Type} {tx : GameTx Value} {f : Value → GameTx Value'}
    (h : tx.Follows c.ok c.after (.holding white black))
    (hf : ∀ v, (f v).Follows c.ok c.after (.holding white black)) :
    (tx >>= f).Follows c.ok c.after (.holding white black) := by
  induction tx with
  | ret value => exact hf value
  | throw => trivial
  | query stmt next ih => exact ⟨h.1, fun a ↦ ih a (h.2 a)⟩

private theorem follows_recordScore {moves duration userId : Nat} {player : Player}
    {winnerColor : Option Color} (huser : userId = white ∨ userId = black) :
    (recordScore c.room.gameId moves duration player userId winnerColor).Follows c.ok c.after
      (.holding white black) := by
  have hkeys : ∀ wins, (insertAchievements userId (achievementKeys wins moves)).Follows c.ok c.after
      (.holding white black) := fun wins ↦ ⟨huser, fun _ ↦ trivial⟩
  refine follows_sql ⟨huser, rfl⟩ fun inserted ↦ ?_
  dsimp only
  split
  · trivial
  · split
    · exact ⟨huser, fun wins ↦ hkeys (some wins)⟩
    · exact hkeys none

/-- A finalization goes through its stages. -/
theorem follows_finalize : (finalizeGameAtomic computeNewRatings c.room c.result c.winnerColor
    c.now).Follows c.ok c.after .first := by
  refine follows_sql rfl fun (finished : Nat) ↦ ?_
  by_cases hzero : finished = 0
  · rw [if_pos hzero]
    trivial
  · rw [if_neg hzero]
    dsimp only
    split
    · trivial
    · split
      · next white whiteId black blackId hwhite hblack =>
        have hafter : c.after .first (.finishGame c.room.gameId c.result c.winnerColor) finished =
            .seated whiteId blackId := by
          simp only [Finalization.after, hzero, hwhite, hblack, if_false]
        rw [hafter]
        refine follows_sql rfl fun (users : List UserRow) ↦ ?_
        by_cases htwo : users.length = 2
        · have hafter : c.after (.seated whiteId blackId) (.lockUsers [whiteId, blackId]) users =
              .holding whiteId blackId := if_pos htwo
          rw [hafter, if_neg (not_not.mpr htwo)]
          split
          · refine follows_sql (Or.inl rfl) fun whiteUpdate ↦ ?_
            refine follows_sql (Or.inr rfl) fun blackUpdate ↦ ?_
            split
            · trivial
            · exact follows_bind (follows_recordScore (.inl rfl)) fun _ ↦
                follows_bind (follows_recordScore (.inr rfl)) fun _ ↦ trivial
          · trivial
        · rw [if_pos htwo]
          trivial
      · trivial

/-! ### The locks in each stage -/

/-- The user whose score or achievement is locked. -/
def Lock.owner : Lock → Option Nat
  | .row _ => none
  | .score _ userId => some userId
  | .achievement userId _ => some userId

/-- The locks a finalization has in each stage. Between the game and the statements on the users,
no user is locked before a smaller one of the two. -/
def Finalization.holds (c : Finalization js) (locked : List Lock) : Stage → Prop
  | .first => ∀ row ∈ locked, row = .row (.game c.room.gameId)
  | .seated white black => .row (.game c.room.gameId) ∈ locked ∧
      ∀ row ∈ locked, row = .row (.game c.room.gameId) ∨ ∃ id ∈ [white, black],
        row = .row (.user id) ∧ ∀ id' ∈ [white, black], id' < id → .row (.user id') ∈ locked
  | .holding white black => .row (.game c.room.gameId) ∈ locked ∧ .row (.user white) ∈ locked ∧
      .row (.user black) ∈ locked
  | .ended => True

/-- Where a finalization is, what it still has to do, and what it has locked. -/
structure Finalization.At (c : Finalization js) (p : Stage) (rest : GameTx Finalized)
    (locked : List Lock) : Prop where
  follows : rest.Follows c.ok c.after p
  holds : c.holds locked p
  owned : ∀ row ∈ locked, ∀ id, row.owner = some id → .row (.user id) ∈ locked

private theorem mem_rowLocks_lockUsers {ids : List Nat} {id : Nat} (hid : id ∈ ids) :
    .row (.user id) ∈ rowLocks (.lockUsers ids) := by
  rw [rowLocks, List.mem_map]
  exact ⟨id, (List.mem_insertionSort _).mpr (List.mem_dedup.mpr hid), rfl⟩

private theorem Finalization.holds_user (h : c.holds locked (.holding white black)) {id : Nat}
    (hid : id = white ∨ id = black) : .row (.user id) ∈ locked := by
  rcases hid with rfl | rfl
  · exact h.2.1
  · exact h.2.2

/-- The next user to lock is the smallest one left. -/
theorem next_user {ids : List Nat} {row : Lock}
    (h : (rowLocks (.lockUsers ids)).find? (· ∉ locked) = some row) : ∃ id ∈ ids,
      row = .row (.user id) ∧ ∀ id' ∈ ids, id' < id → .row (.user id') ∈ locked := by
  have hmem : ∀ id, id ∈ ids.dedup.insertionSort (· ≤ ·) ↔ id ∈ ids := by
    intro id
    rw [List.mem_insertionSort, List.mem_dedup]
  have hsorted : (ids.dedup.insertionSort (· ≤ ·)).Pairwise (· ≤ ·) :=
    List.pairwise_insertionSort (· ≤ ·) ids.dedup
  obtain ⟨-, before, after, hsplit, hbefore⟩ := List.find?_eq_some_iff_append.mp h
  obtain ⟨front, back, hsort, rfl, hback⟩ := List.map_eq_append_iff.mp hsplit
  obtain ⟨id, back, rfl, rfl, rfl⟩ := List.map_eq_cons_iff.mp hback
  rw [hsort] at hsorted
  refine ⟨id, (hmem id).mp (hsort ▸ List.mem_append_right _ List.mem_cons_self), rfl,
    fun id' hid' hlt ↦ ?_⟩
  have hin : id' ∈ front ++ id :: back := hsort ▸ (hmem id').mpr hid'
  rcases List.mem_append.mp hin with hfront | hrest
  · simpa using hbefore _ (List.mem_map_of_mem hfront)
  · have hle : id ≤ id' := by
      rcases List.mem_cons.mp hrest with rfl | hlater
      · exact Nat.le_refl _
      · exact List.rel_of_pairwise_cons (List.pairwise_append.mp hsorted).2.1 hlater
    omega

/-- With both users locked, what is left to lock are entries of theirs. -/
theorem entry_of_holding {stmt : Stmt} {row : Lock} (hok : Stmt.OnUsers c.room.gameId white black stmt)
    (hholds : c.holds locked (.holding white black)) (hrow : row ∈ rowLocks stmt)
    (hnew : row ∉ locked) : ∃ id, row.owner = some id ∧ .row (.user id) ∈ locked := by
  cases stmt with
  | setElo id elo =>
    obtain rfl := List.mem_singleton.mp hrow
    exact absurd (Finalization.holds_user hholds hok) hnew
  | insertScore inserted =>
    obtain rfl := List.mem_singleton.mp hrow
    exact ⟨_, rfl, Finalization.holds_user hholds hok.1⟩
  | insertAchievements userId keys =>
    obtain ⟨key, -, rfl⟩ := List.mem_map.mp hrow
    exact ⟨_, rfl, Finalization.holds_user hholds hok⟩
  | countWins => cases hrow
  | _ => cases hok

/-- The next lock keeps the order. -/
theorem Finalization.At.grant {stmt : Stmt} {k : Ans stmt → GameTx Finalized} {row : Lock}
    (h : c.At p (.query stmt k) locked) (hnext : (rowLocks stmt).find? (· ∉ locked) = some row) :
    c.At p (.query stmt k) (locked ++ [row]) := by
  have hrow : row ∈ rowLocks stmt := List.mem_of_find?_eq_some hnext
  have hnew : row ∉ locked := by simpa using List.find?_some hnext
  obtain ⟨⟨hok, hrest⟩, hholds, howned⟩ := h
  have hmore : ∀ row' ∈ locked, row' ∈ locked ++ [row] := fun _ ↦ List.mem_append_left _
  have hextend : (∀ id, row.owner = some id → .row (.user id) ∈ locked) →
      ∀ row' ∈ locked ++ [row], ∀ id, row'.owner = some id → .row (.user id) ∈ locked ++ [row] := by
    intro hnew row' hrow' id hid
    rcases List.mem_append.mp hrow' with hold | hlast
    · exact hmore _ (howned row' hold id hid)
    · obtain rfl := List.mem_singleton.mp hlast
      exact hmore _ (hnew id hid)
  cases p with
  | first =>
    obtain rfl : stmt = _ := hok
    obtain rfl := List.mem_singleton.mp hrow
    refine ⟨⟨rfl, hrest⟩, fun row' hrow' ↦ ?_, hextend nofun⟩
    rcases List.mem_append.mp hrow' with hold | hlast
    · exact hholds row' hold
    · exact List.mem_singleton.mp hlast
  | seated white black =>
    obtain rfl : stmt = _ := hok
    obtain ⟨id, hid, rfl, hsmaller⟩ := next_user hnext
    refine ⟨⟨rfl, hrest⟩, ⟨hmore _ hholds.1, fun row' hrow' ↦ ?_⟩, hextend nofun⟩
    rcases List.mem_append.mp hrow' with hold | hlast
    · refine (hholds.2 row' hold).imp_right ?_
      rintro ⟨id', hid', rfl, hsmaller'⟩
      exact ⟨id', hid', rfl, fun v hv hlt ↦ hmore _ (hsmaller' v hv hlt)⟩
    · obtain rfl := List.mem_singleton.mp hlast
      exact .inr ⟨id, hid, rfl, fun v hv hlt ↦ hmore _ (hsmaller v hv hlt)⟩
  | holding white black =>
    obtain ⟨id, hid, huser⟩ := entry_of_holding hok hholds hrow hnew
    refine ⟨⟨hok, hrest⟩, ⟨hmore _ hholds.1, hmore _ hholds.2.1, hmore _ hholds.2.2⟩, hextend ?_⟩
    rintro id' hid'
    obtain rfl : id = id' := Option.some.inj (hid.symm.trans hid')
    exact huser
  | ended => cases hok

/-- A statement whose rows are locked leads to the next stage. -/
theorem Finalization.At.exec {stmt : Stmt} {k : Ans stmt → GameTx Finalized}
    (h : c.At p (.query stmt k) locked) (hlocked : ∀ row ∈ rowLocks stmt, row ∈ locked)
    (a : Ans stmt) : c.At (c.after p stmt a) (k a) locked := by
  obtain ⟨⟨hok, hrest⟩, hholds, howned⟩ := h
  refine ⟨hrest a, ?_, howned⟩
  cases p with
  | first =>
    obtain rfl : stmt = _ := hok
    have hgame : .row (.game c.room.gameId) ∈ locked := hlocked _ (List.mem_singleton.mpr rfl)
    simp only [Finalization.after]
    split
    · trivial
    · split
      · exact ⟨hgame, fun row hrow ↦ .inl (hholds row hrow)⟩
      · trivial
  | seated white black =>
    obtain rfl : stmt = _ := hok
    have huser : ∀ id ∈ [white, black], .row (.user id) ∈ locked := fun id hid ↦
      hlocked _ (mem_rowLocks_lockUsers hid)
    simp only [Finalization.after]
    split
    · exact ⟨hholds.1, huser white (by simp), huser black (by simp)⟩
    · trivial
  | holding white black => exact hholds
  | ended => cases hok

/-- A statement that runs has the rows of all it reads. -/
theorem Finalization.At.covers {stmt : Stmt} {k : Ans stmt → GameTx Finalized}
    (h : c.At p (.query stmt k) locked) (hlocked : ∀ row ∈ rowLocks stmt, row ∈ locked) {d : Db} :
    ∀ key ∈ Store.locks stmt d, .row key ∈ locked := by
  obtain ⟨⟨hok, -⟩, hholds, -⟩ := h
  intro key hkey
  cases p with
  | first =>
    obtain rfl : stmt = _ := hok
    obtain rfl := List.mem_singleton.mp hkey
    exact hlocked _ (List.mem_singleton.mpr rfl)
  | seated white black =>
    obtain rfl : stmt = _ := hok
    obtain ⟨id, hid, rfl⟩ := List.mem_map.mp hkey
    exact hlocked _ (mem_rowLocks_lockUsers hid)
  | holding white black =>
    cases stmt with
    | setElo id elo =>
      obtain rfl := List.mem_singleton.mp hkey
      exact Finalization.holds_user hholds hok
    | insertScore row =>
      rcases List.mem_cons.mp hkey with rfl | hkey
      · exact Finalization.holds_user hholds hok.1
      · obtain rfl := List.mem_singleton.mp hkey
        rw [hok.2]
        exact hholds.1
    | countWins id =>
      obtain rfl := List.mem_singleton.mp hkey
      exact Finalization.holds_user hholds hok
    | insertAchievements id keys =>
      obtain rfl := List.mem_singleton.mp hkey
      exact Finalization.holds_user hholds hok
    | _ => cases hok
  | ended => cases hok

/-! ### The locks in every state -/

section Runs

variable {s s' : System.LockState Db Change Lock Stmt Lock Ans (Finalization js) fun _ ↦ Finalized}

/-- Every finalization is in some stage. -/
def Ordered (s : System.LockState Db Change Lock Stmt Lock Ans (Finalization js)
    fun _ ↦ Finalized) : Prop :=
  ∀ i c next held cs rest, s.base.slots i = .running c next held cs rest →
    ∃ p, c.At p rest (s.locked i)

/-- The lock a task waits for is the next one of its statement. -/
theorem wants_eq {i : Nat} {next : Finalized → Task Db (Finalization js) fun _ ↦ Finalized}
    {held : List Lock} {cs : List Change} {stmt : Stmt} {k : Ans stmt → GameTx Finalized}
    (hslot : s.base.slots i = .running c next held cs (.query stmt k)) :
    s.wants (finalizing js computeNewRatings d₀) (fun stmt _ ↦ rowLocks stmt) i =
      (rowLocks stmt).find? (· ∉ s.locked i) := by
  simp only [System.LockState.wants, hslot, System.Slot.asks]

/-- A task that waits for a lock is about to run a statement. -/
theorem running_of_wants {i : Nat} {row : Lock}
    (h : s.wants (finalizing js computeNewRatings d₀) (fun stmt _ ↦ rowLocks stmt) i = some row) :
    ∃ c next held cs stmt k, s.base.slots i = .running c next held cs (.query stmt k) := by
  have hmem := (System.LockState.mem_of_wants h).1
  cases hslot : s.base.slots i with
  | idle t =>
    rw [hslot] at hmem
    cases hmem
  | running c next held cs rest =>
    rw [hslot] at hmem
    cases rest with
    | ret value => cases hmem
    | throw => cases hmem
    | query stmt k => exact ⟨c, next, held, cs, stmt, k, rfl⟩

private theorem Ordered.step {l : System.LockLabel Lock} (h : Ordered s)
    (hexclusive : System.Exclusive s)
    (hstep : System.LockStep (finalizing js computeNewRatings d₀) (fun stmt _ ↦ rowLocks stmt)
      (fun _ _ ↦ True) s l s') : Ordered s' := by
  cases hstep with
  | @lock i row hwants hfree =>
    intro j c next held cs rest hslot
    by_cases hji : j = i
    · subst hji
      obtain ⟨c', next', held', cs', stmt, k, hslot'⟩ := running_of_wants hwants
      have hsame : s.base.slots j = .running c next held cs rest := hslot
      obtain ⟨p, hat⟩ := h j c next held cs rest hsame
      rw [hslot'] at hsame
      cases hsame
      rw [wants_eq hslot'] at hwants
      rw [s.grant_self]
      exact ⟨p, hat.grant hwants⟩
    · rw [s.grant_of_ne row hji]
      exact h j c next held cs rest hslot
  | @step i base hbase hready =>
    intro j c next held cs rest hslot
    by_cases hji : j = i
    · subst hji
      have hbegun : base.slots j = .running c next held cs rest := hslot
      rw [s.move_self, hbegun]
      change ∃ p, c.At p rest (s.locked j)
      cases hbase with
      | begin hi =>
        rw [s.base.put_self] at hbegun
        cases hbegun
        rw [hexclusive.idle j _ hi]
        exact ⟨.first, follows_finalize, nofun, nofun⟩
      | @exec c' next' held' cs' cs'' stmt a k hi hapart hexec =>
        have hnone : s.wants (finalizing js computeNewRatings d₀) (fun stmt _ ↦ rowLocks stmt) j =
            none := by
          apply hready
          rw [hbegun]
          trivial
        rw [s.base.put_self] at hbegun
        cases hbegun
        obtain ⟨p, hat⟩ := h j _ _ _ _ _ hi
        rw [wants_eq hi, List.find?_eq_none] at hnone
        exact ⟨_, hat.exec (by simpa using hnone) a⟩
      | spawn | read | stop => exact nomatch (s.base.put_self j _).symm.trans hbegun
      | commit | lost | abort => exact nomatch (s.base.put_self j _).symm.trans hbegun
    · rw [s.move_of_ne base hji]
      exact h j c next held cs rest ((hbase.slots_of_ne hji).symm.trans hslot)

private theorem ordered_reachable (hs : (finalizations js computeNewRatings d₀).Reachable s) :
    System.Exclusive s ∧ Ordered s := by
  induction hs with
  | @init s h =>
    refine ⟨⟨fun i _ _ ↦ h.2 i, fun i j _ row hrow ↦ ?_⟩, fun i c next held cs rest hslot ↦ ?_⟩
    · rw [show s.locked i = [] from h.2 i] at hrow
      cases hrow
    · rw [show s.base.slots i = _ from h.1.2.2 i] at hslot
      cases hslot
  | @step s s' l _ hst ih => exact ⟨ih.1.step hst, ih.2.step ih.1 hst⟩

/-! ### No cycle of waits -/

/-- How far a waiting finalization is: by the user it wants. -/
def rankOf : Option Lock → Nat
  | some (.row (.user id)) => id + 1
  | _ => 0

/-- A waiting finalization has its game and wants a user, or has nothing yet. -/
theorem Ordered.waits (h : Ordered s) (hexclusive : System.Exclusive s) {i j : Nat}
    (hwaits : s.Waits (finalizing js computeNewRatings d₀) (fun stmt _ ↦ rowLocks stmt) i j) :
    s.locked i = [] ∨ ∃ id, s.wants (finalizing js computeNewRatings d₀)
      (fun stmt _ ↦ rowLocks stmt) i = some (.row (.user id)) ∧
      ∀ id', .row (.user id') ∈ s.locked i → id' < id := by
  obtain ⟨hij, row, hwants, hlocked⟩ := hwaits
  obtain ⟨c, next, held, cs, stmt, k, hslot⟩ := running_of_wants hwants
  obtain ⟨p, ⟨hok, -⟩, hholds, howned⟩ := h i c next held cs _ hslot
  have hnew : row ∉ s.locked i := (System.LockState.mem_of_wants hwants).2
  have hfind : (rowLocks stmt).find? (· ∉ s.locked i) = some row := (wants_eq hslot).symm.trans hwants
  have hrow : row ∈ rowLocks stmt := List.mem_of_find?_eq_some hfind
  cases p with
  | first =>
    -- The game's row is the only one a finalization can have here, and it is the wanted one.
    obtain rfl : stmt = _ := hok
    obtain rfl := List.mem_singleton.mp hrow
    refine .inl (List.eq_nil_iff_forall_not_mem.mpr fun row' hrow' ↦ hnew ?_)
    exact hholds row' hrow' ▸ hrow'
  | seated white black =>
    obtain rfl : stmt = _ := hok
    obtain ⟨id, hid, rfl, -⟩ := next_user hfind
    refine .inr ⟨id, hwants, fun id' hid' ↦ ?_⟩
    obtain hgame | ⟨v, hv, hsame, hsmaller⟩ := hholds.2 _ hid'
    · cases hgame
    · cases hsame
      have hle : ¬ id < id' := fun hlt ↦ hnew (hsmaller id hid hlt)
      have hne : id' ≠ id := by
        rintro rfl
        exact hnew hid'
      omega
  | holding white black =>
    -- Whoever has an entry of a user has the user, and this finalization has both of its users.
    exfalso
    obtain ⟨id, hid, hmine⟩ := entry_of_holding hok hholds hrow hnew
    cases hother : s.base.slots j with
    | idle t =>
      rw [hexclusive.idle j t hother] at hlocked
      cases hlocked
    | running c' next' held' cs' rest' =>
      obtain ⟨p', hat⟩ := h j c' next' held' cs' rest' hother
      exact hexclusive.apart i j hij _ hmine (hat.owned row hlocked id hid)
  | ended => cases hok

/-- Each wait for a waiting finalization is for a smaller user than that one wants. -/
theorem Ordered.no_cycle (h : Ordered s) (hexclusive : System.Exclusive s) :
    ¬ s.Deadlocked (finalizing js computeNewRatings d₀) fun stmt _ ↦ rowLocks stmt := by
  refine System.not_deadlocked_of_wait_rank (fun i ↦ rankOf (s.wants
    (finalizing js computeNewRatings d₀) (fun stmt _ ↦ rowLocks stmt) i)) fun i j k hij hjk ↦ ?_
  obtain ⟨-, row, hwants, hlocked⟩ := hij
  obtain hnone | ⟨id, hnext, hsmaller⟩ := h.waits hexclusive hjk
  · rw [hnone] at hlocked
    cases hlocked
  · have hrank : rankOf (some row) < id + 1 := by
      unfold rankOf
      split
      · next hrow =>
        obtain rfl := Option.some.inj hrow
        exact Nat.succ_lt_succ (hsmaller _ hlocked)
      · exact Nat.succ_pos id
    simp only [hwants, hnext]
    exact hrank

/-! ### One after another -/

/-- The rows of all a statement reads are locked before it runs. -/
theorem Ordered.covered (h : Ordered s) : System.Covered (finalizing js computeNewRatings d₀)
    (fun stmt _ ↦ rowLocks stmt) Store.locks .row s := by
  intro i c next held cs stmt k hslot hwants
  obtain ⟨p, hat⟩ := h i c next held cs _ hslot
  rw [wants_eq hslot, List.find?_eq_none] at hwants
  exact hat.covers (by simpa using hwants)

/-- The same finalizations on the store that locks all it reads. -/
abbrev relocked (js : ChessJs) (computeNewRatings : Int → Int → Score → Int × Int) (d₀ : Db) :
    System Db Change Key Cell ((Nat → Bool) × List String) Stmt Ans (Finalization js)
      fun _ ↦ Finalized :=
  (finalizing js computeNewRatings d₀).relock (fun k d ↦ d.cell k) Db.fixed Store.locks

private theorem runAll_concat {calls : List (Finalization js)} {d d' : Db} {value : Finalized}
    (h : runAll computeNewRatings d₀ calls = some d) (hrun : backend.run (finalizeGameAtomic
      computeNewRatings c.room c.result c.winnerColor c.now) d = some (value, d')) :
    runAll computeNewRatings d₀ (calls ++ [c]) = some d' := by
  unfold runAll at h ⊢
  rw [List.foldlM_append, h]
  simp [hrun]

/-- Whole finalizations leave what the committed ones leave one after another. -/
theorem serial_invariant : ((relocked js computeNewRatings d₀).atomic fun _ _ ↦ True).Invariant
    (fun a ↦ runAll computeNewRatings d₀ (committed a.log) = some a.db) where
  init a h := by
    obtain ⟨hstart, hlog, -⟩ := h
    rw [hlog, show a.db = d₀ from hstart]
    rfl
  step a i a' h hstep := by
    cases hstep with
    | commit htask hallowed hrun | lost htask hallowed hrun =>
      rw [committed_concat]
      exact runAll_concat h hrun
    | fail =>
      rw [committed_concat_failed]
      exact h
    | _ => exact h

/-- Finalizations whose statements interleave never wait for each other in a cycle, and leave the
store that the committed ones leave one after another. -/
theorem ratings_serial (hs : (finalizations js computeNewRatings d₀).Reachable s) :
    ¬ s.Deadlocked (finalizing js computeNewRatings d₀) (fun stmt _ ↦ rowLocks stmt) ∧
      runAll computeNewRatings d₀ (committed s.base.log) = some s.base.db := by
  obtain ⟨hexclusive, hordered⟩ := ordered_reachable hs
  refine ⟨hordered.no_cycle hexclusive, ?_⟩
  obtain ⟨-, keys, -, hreach⟩ := System.locking_relocked (fun k d ↦ d.cell k) Db.fixed hs
    fun _ h ↦ (ordered_reachable h).2.covered
  exact System.sessions_invariant (S := relocked js computeNewRatings d₀) backend_lawful
    serial_invariant hreach

end Runs

/-! ### Two games at once -/

/-- Two games of two users. -/
def twoGames : Db := { twoUsers with games := ⟨[activeGame 1, activeGame 2], by decide⟩ }

/-- What `utils/elo.js` computes for equal ratings, and for the draw of the second game. -/
def drawRatings (white black : Int) (score : Score) : Int × Int :=
  if white = 1184 ∧ black = 1216 ∧ score = .draw then (1185, 1215) else equalRatings white black score

/-- The first game is won, the second drawn: both lock their games, then the first goes on to its
end, and then the second. -/
def twoEndings : List (System.Turn (Finalization reference)) :=
  [System.Turn.call 0 ⟨endedRoom reference 1 ada ben, .resign, some .w, 60000⟩,
    .call 1 ⟨endedRoom reference 2 ben ada, .draw, none, 60000⟩,
    .go 0, .go 1, .go 1, .go 0, .go 0, .go 1] ++ List.replicate 17 (.go 0) ++
    List.replicate 14 (.go 1)

/-- Two games of the same users are finalized at once. -/
theorem ratings_serial_twoGames : ∃ s, (finalizations reference drawRatings twoGames).Reachable s ∧
    (s.base.db.user? 1).map UserRow.eloRating = some 1215 ∧
    (s.base.db.user? 2).map UserRow.eloRating = some 1185 ∧
    (committed s.base.log).length = 2 ∧
    ¬ s.Deadlocked (finalizing reference drawRatings twoGames) (fun stmt _ ↦ rowLocks stmt) ∧
    runAll drawRatings twoGames (committed s.base.log) = some s.base.db := by
  have hrun : ((⟨⟨twoGames, fun _ ↦ .idle .done, []⟩, fun _ ↦ []⟩ : System.LockState Db Change Lock Stmt
      Lock Ans (Finalization reference) fun _ ↦ Finalized).turns
      (finalizing reference drawRatings twoGames) (fun stmt _ ↦ rowLocks stmt) [0, 1]
      (fun _ _ ↦ true) twoEndings).any
      (fun s ↦ (s.base.db.user? 1).map UserRow.eloRating = some 1215 ∧
        (s.base.db.user? 2).map UserRow.eloRating = some 1185 ∧
        (committed s.base.log).length = 2) = true := by
    decide +kernel
  obtain ⟨s, hturns, hfacts⟩ := Option.any_eq_true _ _ |>.mp hrun
  have hinit : ((finalizations reference drawRatings twoGames).restrict fun _ _ ↦ True).Reachable
      ⟨⟨twoGames, fun _ ↦ .idle .done, []⟩, fun _ ↦ []⟩ := .init ⟨⟨rfl, rfl, fun _ ↦ rfl⟩, fun _ ↦ rfl⟩
  have hspawn : ∀ c, (finalizing reference drawRatings twoGames).spawn (.call c fun _ ↦ .done) :=
    fun c ↦ ⟨c, rfl⟩
  have hreach := (System.turns_reachable (fun _ _ ↦ trivial) hspawn
    (fun _ _ _ _ ↦ trivial) (fun _ _ ↦ ⟨rfl, rfl⟩)
    hinit hturns).of_restrict
  obtain ⟨hada, hben, hboth⟩ := of_decide_eq_true hfacts
  obtain ⟨hfree, hserial⟩ := ratings_serial hreach
  exact ⟨s, hreach, hada, hben, hboth, hfree, hserial⟩

end ChessStack.Server
