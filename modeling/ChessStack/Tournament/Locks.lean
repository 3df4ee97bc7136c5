import ChessStack.Library.Locks
import ChessStack.Tournament.Integrity

/-!
# The row locks of the tournament transactions

Library `Tournament`. Which rows the statements of `Chess-Backend/src/models/Tournament.js` lock, and
in which order each transaction comes to them: `reportResult` locks its match before the tournament,
everything else the tournament before its matches and players.
-/

namespace ChessStack.Tournament

open ChessStack.Library

/-- A row that a statement can lock. -/
inductive Row where
  | tournament (id : Nat)
  | match_ (id : Nat)
  | player (tournamentId userId : Nat)
  deriving DecidableEq, Repr

/-- The tournament's row, if there is one. -/
def Db.tournamentRow (d : Db) (id : Nat) : List Row :=
  if (d.tournament? id).isSome then [.tournament id] else []

/-- The match's row, if there is one. -/
def Db.matchRow (d : Db) (id : Nat) : List Row :=
  if (d.match? id).isSome then [.match_ id] else []

/-- The rows a statement locks exclusively, in its order: those of `FOR UPDATE` and `UPDATE`, and the
tournament's that the trigger `enforce_tournament_capacity` locks for a new entrant. -/
def rows : Stmt → Db → List Row
  | .lockTournament id, d => d.tournamentRow id
  | .insertTournament _, _ => []
  | .findEntrant .., _ => []
  | .countEntrants _, _ => []
  | .insertEntrant id _ _, d => d.tournamentRow id
  | .playersOf id, d => ((((d.entrants id).insertionSort fun e e' ↦ e.joinedAt ≤ e'.joinedAt).map
      Entrant.userId).filter d.users.contains).map (Row.player id)
  | .insertMatch _, _ => []
  | .insertNext _, _ => []
  | .startTournament id, d => d.tournamentRow id
  | .finishTournament id _, d => d.tournamentRow id
  | .lockMatch id, d => d.matchRow id
  | .setResult id _, d => d.matchRow id
  | .lockRound id round, d => (d.roundOf id round).map fun m ↦ .match_ m.id

/-- The tournament server with its row locks. -/
abbrev lockServer : Machine (System.LockState Db Change Key Stmt Row Ans Call Result)
    (System.LockLabel Row) := server.locking rows always

/-! ### The order of the statements -/

/-- Where a transaction is: before its first lock, with the match it will resolve, with its
tournament (and the round it will lock), or about to return. -/
inductive Phase where
  | first
  | matched (id : Nat) (m : MatchRow)
  | holding (t : Nat) (round : Option Nat)
  | ended

/-- The report is accepted on this match, `Tournament.js:149–152`. -/
def accepts (reporterId : Nat) (winnerId : Int) (m : MatchRow) : Bool :=
  m.status == .pending && [m.player1, m.player2].reduceOption.any (fun id ↦ (id : Int) == winnerId) &&
    [m.player1, m.player2].reduceOption.contains reporterId

/-- The statement a transaction begins with. -/
def Call.opens : Call → Stmt
  | .create id creatorId name maxPlayers _ =>
    .insertTournament ⟨id, name, creatorId, maxPlayers, .open_, none⟩
  | .join t _ _ => .lockTournament t
  | .start t _ _ _ _ => .lockTournament t
  | .reportResult matchId _ _ _ => .lockMatch matchId
  | .maybeAdvanceRound t _ _ => .lockTournament t

/-- A statement on a tournament whose row is locked; a round is locked only if it is this one. -/
def Stmt.On (t : Nat) (round : Option Nat) : Stmt → Prop
  | .lockTournament id => id = t
  | .insertTournament _ => False
  | .findEntrant id _ => id = t
  | .countEntrants id => id = t
  | .insertEntrant id _ _ => id = t
  | .playersOf id => id = t
  | .insertMatch row => row.tournamentId = t
  | .insertNext row => row.tournamentId = t
  | .startTournament id => id = t
  | .finishTournament id _ => id = t
  | .lockMatch _ => False
  | .setResult .. => False
  | .lockRound id r => id = t ∧ some r = round

/-- The statements of a call in each phase. -/
def Call.ok (c : Call) : Phase → Stmt → Prop
  | .first, stmt => stmt = c.opens
  | .matched id m, stmt => (∃ w, stmt = .setResult id w) ∨ stmt = .lockTournament m.tournamentId
  | .holding t round, stmt => stmt.On t round
  | .ended, _ => False

/-- The phase after the first statement. -/
def Call.opened (c : Call) : (stmt : Stmt) → Ans stmt → Phase
  | .insertTournament _, created => .holding (created : TournamentRow).id none
  | .lockMatch id, m =>
    match c, m with
    | .reportResult _ reporterId winnerId _, some m =>
      if accepts reporterId winnerId m then .matched id m else .ended
    | _, _ => .ended
  | .lockTournament id, row =>
    match c, row with
    | .join .., some _ => .holding id none
    | .start .., some row => if row.status = .open_ then .holding id (some 1) else .ended
    | .maybeAdvanceRound _ round _, some _ => .holding id (some round)
    | _, _ => .ended
  | _, _ => .ended

/-- The phase after a statement. -/
def Call.after (c : Call) : Phase → (stmt : Stmt) → Ans stmt → Phase
  | .first, stmt, a => c.opened stmt a
  | .matched _ m, .lockTournament _, row =>
    match row with
    | some _ => .holding m.tournamentId (some m.round)
    | none => .ended
  | .matched id m, _, _ => .matched id m
  | .holding t round, _, _ => .holding t round
  | .ended, _, _ => .ended

section Follows

variable {c : Call} {t r : Nat} {ids : Nat → Nat} {Value : Type}

/-- A program that begins with a statement. -/
theorem follows_sql {p : Phase} {stmt : Stmt} {f : Ans stmt → TournamentTx Value}
    (hok : c.ok p stmt) (h : ∀ a, (f a).Follows c.ok c.after (c.after p stmt a)) :
    (sql stmt >>= f).Follows c.ok c.after p := ⟨hok, h⟩

/-- A part with nothing to lock after it. -/
theorem follows_then {Value' : Type} {p : Phase} {tx : TournamentTx Value}
    {f : Value → TournamentTx Value'} (h : tx.Follows c.ok c.after p)
    (hf : ∀ p v, (f v).Follows c.ok c.after p) : (tx >>= f).Follows c.ok c.after p := by
  induction tx generalizing p with
  | ret value => exact hf p value
  | throw => trivial
  | query stmt next ih => exact ⟨h.1, fun a ↦ ih a (h.2 a)⟩

/-- A part that runs while the tournament is held. -/
theorem follows_bind {Value' : Type} {round : Option Nat} {tx : TournamentTx Value}
    {f : Value → TournamentTx Value'} (h : tx.Follows c.ok c.after (.holding t round))
    (hf : ∀ v, (f v).Follows c.ok c.after (.holding t round)) :
    (tx >>= f).Follows c.ok c.after (.holding t round) := by
  induction tx with
  | ret value => exact hf value
  | throw => trivial
  | query stmt next ih => exact ⟨h.1, fun a ↦ ih a (h.2 a)⟩

private theorem follows_insertBracket {round : Option Nat}
    {pairs : List (Option Nat × Option Nat)} (p : Nat) :
    (insertBracket t ids pairs p).Follows c.ok c.after (.holding t round) := by
  induction pairs generalizing p with
  | nil => trivial
  | cons pair rest ih =>
    refine follows_sql rfl fun inserted ↦ ?_
    split
    · trivial
    · exact ih (p + 1)

private theorem follows_insertNextRound {round : Option Nat}
    {pairs : List (Option Nat × Option Nat)} (p : Nat) :
    (insertNextRound t r ids pairs p).Follows c.ok c.after (.holding t round) := by
  induction pairs generalizing p with
  | nil => trivial
  | cons pair rest ih => exact ⟨rfl, fun _ ↦ ih (p + 1)⟩

/-- `advanceRound` in a phase in which it may lock the tournament, and then holds it. -/
theorem follows_advanceRound {p : Phase} (hok : c.ok p (.lockTournament t))
    (hafter : ∀ row, c.after p (.lockTournament t) (some row) = .holding t (some r)) :
    (advanceRound t r ids).Follows c.ok c.after p := by
  refine follows_sql hok fun row ↦ ?_
  cases row with
  | none => trivial
  | some row =>
    rw [hafter]
    dsimp only
    split
    · trivial
    · refine follows_sql ⟨rfl, rfl⟩ fun ms ↦ ?_
      split
      · trivial
      · split
        · refine follows_sql rfl fun finished ↦ ?_
          split <;> trivial
        · exact follows_insertNextRound 0

/-- Every call goes through its phases. -/
theorem follows_prog (c : Call) : (prog c).Follows c.ok c.after .first := by
  cases c with
  | create id creatorId name maxPlayers now =>
    refine follows_sql rfl fun created ↦ follows_sql rfl fun joined ↦ ?_
    split <;> trivial
  | join t userId now =>
    refine follows_sql rfl fun row ↦ ?_
    cases row with
    | none => trivial
    | some row =>
      change Tx.Follows _ _ (Phase.holding t none) _
      dsimp only
      split
      · trivial
      · refine follows_sql rfl fun existing ↦ ?_
        split
        · trivial
        · refine follows_sql rfl fun count ↦ ?_
          split
          · trivial
          · refine follows_sql rfl fun inserted ↦ ?_
            split <;> trivial
  | start t requesterId draws ids ids' =>
    refine follows_sql rfl fun row ↦ ?_
    cases row with
    | none => trivial
    | some row =>
      dsimp only
      split
      · trivial
      · split
        · trivial
        · next hopen =>
          rw [show Call.after (.start t requesterId draws ids ids') .first (.lockTournament t)
            (some row) = .holding t (some 1) from if_pos (not_not.mp hopen)]
          refine follows_sql rfl fun players ↦ ?_
          split
          · trivial
          · refine follows_bind (follows_insertBracket 0) fun _ ↦ ?_
            refine follows_sql rfl fun updated ↦ ?_
            split
            · trivial
            · exact follows_then (follows_advanceRound rfl fun _ ↦ rfl) fun _ _ ↦ trivial
  | reportResult matchId reporterId winnerId ids =>
    refine follows_sql rfl fun m ↦ ?_
    cases m with
    | none => trivial
    | some m =>
      dsimp only
      split
      · trivial
      · split
        · trivial
        · split
          · trivial
          · next hpending hwinner hreporter =>
            have haccepts : accepts reporterId winnerId m = true := by
              simp_all [accepts]
            rw [show Call.after (.reportResult matchId reporterId winnerId ids) .first
              (.lockMatch matchId) (some m) = .matched matchId m from if_pos haccepts]
            refine follows_sql (Or.inl ⟨_, rfl⟩) fun updated ↦ ?_
            split
            · trivial
            · exact follows_then (follows_advanceRound (Or.inr rfl) fun _ ↦ rfl) fun _ _ ↦ trivial
  | maybeAdvanceRound t round ids => exact follows_advanceRound rfl fun _ ↦ rfl

end Follows

end ChessStack.Tournament
