import ChessStack.Library.Machine
import Mathlib.Data.List.Basic
import Mathlib.Logic.Function.Basic

/-!
# Replacing an avatar

Library `Upload`. `POST /avatar` of `Chess-Backend/src/routes/auth.js` over the store of
`services/avatarStore.js` and the row `User.replaceAvatar` updates, for any number of uploads of
one user. What is sent to the store or to the database happens on its own: before the reply,
after the caller has given up, or never.
-/

namespace ChessStack.Upload

open ChessStack.Library

/-! ### Names -/

/-- `[0-9a-f-]`. -/
def isUuidChar (c : Char) : Bool := c.isDigit || ('a' ≤ c && c ≤ 'f') || c == '-'

/-- `[0-9a-f-]+\.webp`, to the end. -/
def uuidWebp (text : List Char) : Bool :=
  match text.dropSuffix? ".webp".toList with
  | some uuid => !uuid.isEmpty && uuid.all isUuidChar
  | none => false

/-- `MANAGED_FILE_RE`, `avatarStore.js:37`. -/
def managedFile (name : List Char) : Bool :=
  match name.dropPrefix? "user".toList with
  | some rest =>
    match rest.dropWhile Char.isDigit with
    | '-' :: text => !(rest.takeWhile Char.isDigit).isEmpty && uuidWebp text
    | _ => false
  | none => false

/-- `managedAvatarFilename`, `avatarStore.js:72–75`. -/
def managedAvatarFilename (publicPath : Option String) : Option String :=
  match (publicPath.getD "").toList.dropPrefix? "/uploads/avatars/".toList with
  | some name => if managedFile name then some (String.ofList name) else none
  | none => none

/-- `avatarUrl` of the route, `auth.js:213`. -/
def avatarUrl (filename : String) : String := "/uploads/avatars/" ++ filename

/-- What is assumed of `crypto.randomUUID`: its texts are of digits, letters and dashes, and no
text comes twice. -/
structure Uuids where
  text : Nat → String
  shape : ∀ i, (text i).toList ≠ [] ∧ ∀ c ∈ (text i).toList, isUuidChar c = true
  injective : Function.Injective text

/-- The name the upload `i` of the user is stored under, `upload.js:60`. -/
def filename (userId : Nat) (uuids : Uuids) (i : Nat) : String :=
  "user" ++ toString userId ++ "-" ++ uuids.text i ++ ".webp"

/-! ### The system -/

/-- What an upload has asked of the store. -/
inductive StoreOp where
  | put (i : Nat)
  | delete (i : Nat) (file : String)
  deriving DecidableEq, Repr

/-- The transaction of an upload, on the side of the database. -/
inductive Tx where
  | idle
  | open
  | locked
  | committing
  | committed
  | ended
  deriving DecidableEq, Repr

/-- An upload, by what it waits for. `commit` and `update` keep the URL read under the lock. -/
inductive Phase where
  | idle
  | write
  | connect
  | beginTx
  | select
  | update (old : Option String)
  | commit (old : Option String)
  | deleteOld (file : String)
  | respond (failed : Bool)
  | rollback
  | missing
  | deleteNew
  | done (failed : Bool)
  | crashed
  deriving DecidableEq, Repr

/-- The row of the user, if there is one, its lock, the user's files and the uploads. -/
structure State where
  row : Option (Option String)
  holder : Option Nat
  store : List String
  sent : List StoreOp
  tx : Nat → Tx
  phase : Nat → Phase

namespace State

/-- Where a request is now. -/
def setPhase (s : State) (i : Nat) (p : Phase) : State :=
  { s with phase := Function.update s.phase i p }

/-- Where its transaction is now. -/
def setTx (s : State) (i : Nat) (t : Tx) : State := { s with tx := Function.update s.tx i t }

/-- An operation of the store is sent. -/
def send (s : State) (op : StoreOp) : State := { s with sent := s.sent ++ [op] }

/-- The transaction of `i` is over. -/
def endTx (s : State) (i : Nat) (t : Tx) : State :=
  { s.setTx i t with holder := if s.holder = some i then none else s.holder }

/-- `ROLLBACK`, which does nothing where there is no transaction. -/
def rolledBack (s : State) (i : Nat) : State :=
  if s.tx i = .open ∨ s.tx i = .locked then s.endTx i .ended else s

variable (name : Nat → String)

/-- The catch of the route deletes the new file, `auth.js:221`. -/
def deletesNew (s : State) (i : Nat) : State :=
  (s.send (.delete i (name i))).setPhase i .deleteNew

/-- The route goes on with the replacement, `auth.js:216–219`. -/
def replaced (s : State) (i : Nat) (old : Option String) : State :=
  match managedAvatarFilename old with
  | some file => (s.send (.delete i file)).setPhase i (.deleteOld file)
  | none => s.setPhase i (.respond false)

/-- What the upload waits for comes. -/
def returns (s : State) (i : Nat) : Phase → Option State
  | .write => if .put i ∈ s.sent then none else some (s.setPhase i .connect)
  | .connect => some (s.setPhase i .beginTx)
  | .beginTx => some ((s.setTx i .open).setPhase i .select)
  | .select =>
    if s.tx i = .open then
      match s.row with
      | none => some (s.setPhase i .missing)
      | some old => if s.holder = none then
          some ({ s.setTx i .locked with holder := some i }.setPhase i (.update old)) else none
    else none
  | .update old =>
    if s.tx i = .locked then some ((s.setTx i .committing).setPhase i (.commit old)) else none
  | .commit old => if s.tx i = .committed then some (s.replaced i old) else none
  | .deleteOld file =>
    if .delete i file ∈ s.sent then none else some (s.setPhase i (.respond false))
  | .respond failed => some (s.setPhase i (.done failed))
  | .rollback | .missing =>
    if s.tx i = .committing then none else some ((s.rolledBack i).deletesNew name i)
  | .deleteNew => if .delete i (name i) ∈ s.sent then none else some (s.setPhase i (.done true))
  | .idle | .done _ | .crashed => none

/-- What the upload waits for fails. The old file's delete reports a failure, it does not throw. -/
def fails (s : State) (i : Nat) : Phase → Option State
  | .write => some (s.setPhase i (.done true))
  | .connect => some (s.deletesNew name i)
  | .beginTx | .select | .update _ | .commit _ | .missing => some (s.setPhase i .rollback)
  | .rollback => some (s.deletesNew name i)
  | .deleteOld _ => some (s.setPhase i (.respond true))
  | .deleteNew => some (s.setPhase i (.done true))
  | .idle | .respond _ | .done _ | .crashed => none

/-- An operation happens in the store. -/
def landed (s : State) : StoreOp → State
  | .put i => { s with store := name i :: s.store }
  | .delete _ file => { s with store := s.store.filter (· ≠ file) }

/-- An upload is made; what it waits for comes or fails, or something throws after the commit; its
process ends; the database commits or ends its transaction; the store does what it was asked. -/
inductive Label where
  | start (i : Nat)
  | returns (i : Nat)
  | fails (i : Nat)
  | throws (i : Nat)
  | crash (i : Nat)
  | commits (i : Nat)
  | aborts (i : Nat)
  | land (op : StoreOp)
  deriving DecidableEq, Repr

/-- The state after a step. -/
def next (s : State) : Label → Option State
  | .start i => if s.phase i = .idle then some ((s.send (.put i)).setPhase i .write) else none
  | .returns i => s.returns name i (s.phase i)
  | .fails i => s.fails name i (s.phase i)
  | .throws i =>
    match s.phase i with
    | .deleteOld _ | .respond _ => some (s.deletesNew name i)
    | _ => none
  | .crash i =>
    match s.phase i with
    | .idle | .done _ | .crashed => none
    | .deleteNew => some (s.setPhase i (.done true))
    | _ => some (s.setPhase i .crashed)
  | .commits i =>
    if s.tx i = .committing then
      some { s.endTx i .committed with row := s.row.map fun _ ↦ some (avatarUrl (name i)) }
    else none
  | .aborts i =>
    if s.tx i = .open ∨ s.tx i = .locked ∨ s.tx i = .committing then some (s.endTx i .ended)
    else none
  | .land op =>
    if op ∈ s.sent then some (landed name { s with sent := s.sent.erase op } op) else none

/-- The file the row names. -/
def current (s : State) : Option String := s.row.bind managedAvatarFilename

/-- Before any upload the row names the one file of the user, or none. -/
structure Fresh (s : State) : Prop where
  holder : s.holder = none
  sent : s.sent = []
  tx : s.tx = fun _ ↦ .idle
  phase : s.phase = fun _ ↦ .idle
  url : ∀ url, s.row = some (some url) → (managedAvatarFilename (some url)).isSome
  store : ∀ file, file ∈ s.store ↔ s.current = some file
  other : ∀ i, name i ∉ s.store

end State

/-- Uploads of the user. -/
def machine (userId : Nat) (uuids : Uuids) : Machine State State.Label where
  init := State.Fresh (filename userId uuids)
  step s l s' := State.next (filename userId uuids) s l = some s'

/-- No upload whose COMMIT the database executes sees it fail, and nothing throws after it. -/
def Acknowledged (s : State) : State.Label → Prop
  | .fails i => ∀ old, s.phase i = .commit old → s.tx i ≠ .committed
  | .throws _ => False
  | .commits i => (∃ old, s.phase i = .commit old) ∨ s.phase i = .crashed
  | _ => True

/-! ### The invariant -/

/-- The upload has neither asked to delete its own file nor seen its commit. -/
def Phase.undecided : Phase → Bool
  | .deleteOld _ | .respond _ | .deleteNew | .done _ => false
  | _ => true

/-- Something has failed in the upload. -/
def Phase.failed : Phase → Bool
  | .rollback | .missing | .deleteNew | .respond true | .done true | .crashed => true
  | _ => false

/-- The upload has seen its commit. -/
def Phase.settled : Phase → Bool
  | .deleteOld _ | .respond _ | .done false => true
  | _ => false

/-- The commit of the upload cannot have happened. -/
def Phase.early : Phase → Bool
  | .idle | .write | .connect | .beginTx | .select | .update _ | .rollback | .missing => true
  | _ => false

section Invariant

variable (name : Nat → String)

/-- The database may yet put the upload's file in the row. -/
def MayCommit (s : State) (i : Nat) : Prop := s.tx i ≠ .committed ∧ (s.phase i).undecided = true

/-- The row names the file or may come to name it. -/
def Live (s : State) (file : String) : Prop :=
  s.current = some file ∨ ∃ i, name i = file ∧ MayCommit s i

/-- Some request has failed. -/
def SomeFailed (s : State) : Prop := ∃ i, (s.phase i).failed = true

/-- The upload has the file to commit or to delete. -/
def Owes (i : Nat) (file : String) (p : Phase) (t : Tx) : Prop :=
  (name i = file ∧ t ≠ .committed ∧ p ≠ .idle) ∨ p = .deleteOld file ∨
    ∃ old, p = .commit old ∧ t = .committed ∧ managedAvatarFilename old = some file

/-- What holds of one upload, in the phase `p` and with its transaction at `t`. -/
structure UploadOk (s : State) (i : Nat) (p : Phase) (t : Tx) : Prop where
  idle : p = .idle → t = .idle ∧ .put i ∉ s.sent
  put : .put i ∈ s.sent → t = .idle ∧ (p = .write ∨ p.failed = true)
  written : t ≠ .committed → p.undecided = true → p ≠ .idle → .put i ∈ s.sent ∨ name i ∈ s.store
  lock : t = .locked ∨ t = .committing → s.holder = some i
  read : ∀ old, p = .update old ∨ p = .commit old → t = .locked ∨ t = .committing →
    s.row = some old
  settled : p.settled = true → t = .committed
  early : p.early = true → t ≠ .committed
  replaced : ∀ old file, p = .commit old → t = .committed →
    managedAvatarFilename old = some file → ¬ Live name s file
  deleting : ∀ file, p = .deleteOld file → ¬ Live name s file ∧
    (.delete i file ∈ s.sent ∨ file ∉ s.store ∨ SomeFailed s)

/-- What holds of every state. -/
structure Ok (s : State) : Prop where
  url : ∀ url, s.row = some (some url) → (managedAvatarFilename (some url)).isSome
  current : ∀ file, s.current = some file → file ∈ s.store
  deletes : ∀ i file, .delete i file ∈ s.sent → ¬ Live name s file
  minted : ∀ i, s.current = some (name i) → s.tx i = .committed
  stored : ∀ file ∈ s.store, s.current = some file ∨ SomeFailed s ∨
    ∃ i, Owes name i file (s.phase i) (s.tx i)
  uploads : ∀ i, UploadOk name s i (s.phase i) (s.tx i)

variable {name} {s s' : State} {i : Nat}

/-- A step of the upload `i` that leaves the row and the files as they are. -/
structure Moves (s s' : State) (i : Nat) : Prop where
  row : s'.row = s.row
  store : s'.store = s.store
  phases : ∀ j, j ≠ i → s'.phase j = s.phase j
  txs : ∀ j, j ≠ i → s'.tx j = s.tx j
  holder : ∀ j, j ≠ i → s.holder = some j → s'.holder = some j
  sent : s.sent ⊆ s'.sent
  new : ∀ op ∈ s'.sent, op ∈ s.sent ∨ op = .put i ∨ ∃ file, op = .delete i file
  may : MayCommit s' i → MayCommit s i
  committed : s.tx i = .committed → s'.tx i = .committed
  failed : (s.phase i).failed = true → (s'.phase i).failed = true

private theorem Moves.current (h : Moves s s' i) : s'.current = s.current := by
  rw [State.current, h.row]
  rfl

private theorem Moves.live (h : Moves s s' i) {file : String} (hlive : Live name s' file) :
    Live name s file := by
  rcases hlive with hlive | ⟨j, hj, hmay⟩
  · exact .inl (h.current ▸ hlive)
  · refine .inr ⟨j, hj, ?_⟩
    by_cases hji : j = i
    · exact hji ▸ h.may (hji ▸ hmay)
    · unfold MayCommit at hmay
      rwa [h.phases j hji, h.txs j hji] at hmay

private theorem Moves.someFailed (h : Moves s s' i) (hs : SomeFailed s) : SomeFailed s' := by
  obtain ⟨j, hj⟩ := hs
  refine ⟨j, ?_⟩
  by_cases hji : j = i
  · exact hji ▸ h.failed (hji ▸ hj)
  · rwa [h.phases j hji]

/-- A move keeps the invariant where the upload itself keeps it, deletes no live file and still
owes what it owed. -/
theorem Moves.ok (h : Moves s s' i) (hok : Ok name s)
    (hdeletes : ∀ file, .delete i file ∈ s'.sent → .delete i file ∈ s.sent ∨ ¬ Live name s' file)
    (howes : ∀ file ∈ s.store, Owes name i file (s.phase i) (s.tx i) →
      SomeFailed s' ∨ Owes name i file (s'.phase i) (s'.tx i))
    (hi : UploadOk name s' i (s'.phase i) (s'.tx i)) : Ok name s' where
  url url hurl := hok.url url (h.row ▸ hurl)
  current file hfile := h.store ▸ hok.current file (h.current ▸ hfile)
  deletes j file hmem := by
    rcases h.new _ hmem with hold | hput | ⟨file', heq⟩
    · exact fun hlive ↦ hok.deletes j file hold (h.live hlive)
    · cases hput
    · obtain ⟨rfl, rfl⟩ := StoreOp.delete.inj heq
      rcases hdeletes _ hmem with hold | hnot
      · exact fun hlive ↦ hok.deletes _ _ hold (h.live hlive)
      · exact hnot
  minted j hj := by
    have htx := hok.minted j (h.current ▸ hj)
    by_cases hji : j = i
    · exact hji ▸ h.committed (hji ▸ htx)
    · rw [h.txs j hji, htx]
  stored file hfile := by
    rw [h.store] at hfile
    rw [h.current]
    rcases hok.stored file hfile with hcur | hfailed | ⟨j, hj⟩
    · exact .inl hcur
    · exact .inr (.inl (h.someFailed hfailed))
    · refine .inr ?_
      by_cases hji : j = i
      · subst hji
        exact (howes file hfile hj).imp id fun howes ↦ ⟨j, howes⟩
      · exact .inr ⟨j, by rwa [h.phases j hji, h.txs j hji]⟩
  uploads j := by
    by_cases hji : j = i
    · exact hji ▸ hi
    · have hj := hok.uploads j
      rw [h.phases j hji, h.txs j hji]
      have hput : .put j ∈ s'.sent → .put j ∈ s.sent := fun hmem ↦ by
        rcases h.new _ hmem with hold | hput | ⟨file, heq⟩
        · exact hold
        · exact absurd (StoreOp.put.inj hput) hji
        · cases heq
      refine ⟨fun hp ↦ ?_, fun hmem ↦ hj.put (hput hmem), fun ht hu hne ↦ ?_, fun ht ↦ ?_,
        fun old hp ht ↦ ?_, hj.settled, hj.early, fun old file hp ht hold hlive ↦ ?_,
        fun file hp ↦ ?_⟩
      · exact ⟨(hj.idle hp).1, fun hmem ↦ (hj.idle hp).2 (hput hmem)⟩
      · exact (hj.written ht hu hne).imp (fun hmem ↦ h.sent hmem) fun hmem ↦ h.store ▸ hmem
      · exact h.holder j hji (hj.lock ht)
      · exact h.row ▸ hj.read old hp ht
      · exact hj.replaced old file hp ht hold (h.live hlive)
      · obtain ⟨hnot, hdel⟩ := hj.deleting file hp
        refine ⟨fun hlive ↦ hnot (h.live hlive), ?_⟩
        rcases hdel with hmem | hmem | hfailed
        · exact .inl (h.sent hmem)
        · exact .inr (.inl (h.store ▸ hmem))
        · exact .inr (.inr (h.someFailed hfailed))

private theorem Moves.trans {s'' : State} (h : Moves s s' i) (h' : Moves s' s'' i) :
    Moves s s'' i where
  row := h'.row.trans h.row
  store := h'.store.trans h.store
  phases j hj := (h'.phases j hj).trans (h.phases j hj)
  txs j hj := (h'.txs j hj).trans (h.txs j hj)
  holder j hj hs := h'.holder j hj (h.holder j hj hs)
  sent := List.Subset.trans h.sent h'.sent
  new op hop := (h'.new op hop).elim (h.new op) .inr
  may hs := h.may (h'.may hs)
  committed hs := h'.committed (h.committed hs)
  failed hs := h'.failed (h.failed hs)

private theorem moves_setPhase {p : Phase}
    (hu : p.undecided = true → s.tx i ≠ .committed → (s.phase i).undecided = true)
    (hf : (s.phase i).failed = true → p.failed = true) : Moves s (s.setPhase i p) i where
  row := rfl
  store := rfl
  phases j hj := Function.update_of_ne hj ..
  txs _ _ := rfl
  holder _ _ hs := hs
  sent := List.Subset.refl _
  new op hop := .inl hop
  may hs := ⟨hs.1, hu (by simpa [State.setPhase] using hs.2) hs.1⟩
  committed hs := hs
  failed hs := by simpa [State.setPhase] using hf hs

private theorem moves_send {op : StoreOp} (hop : op = .put i ∨ ∃ file, op = .delete i file) :
    Moves s (s.send op) i where
  row := rfl
  store := rfl
  phases _ _ := rfl
  txs _ _ := rfl
  holder _ _ hs := hs
  sent := List.subset_append_left _ _
  new op' hop' := (List.mem_append.mp hop').imp_right fun hmem ↦ by
    rw [List.mem_singleton.mp hmem]
    exact hop
  may hs := hs
  committed hs := hs
  failed hs := hs

/-- The transaction of `i` goes on, by which nobody else loses the lock. -/
theorem moves_tx {t : Tx} {holder : Option Nat} (ht : s.tx i ≠ .committed)
    (hholder : ∀ j, j ≠ i → s.holder = some j → holder = some j) :
    Moves s { s.setTx i t with holder := holder } i where
  row := rfl
  store := rfl
  phases _ _ := rfl
  txs _ hj := Function.update_of_ne hj ..
  holder := hholder
  sent := List.Subset.refl _
  new _ hop := .inl hop
  may hs := ⟨ht, hs.2⟩
  committed hs := absurd hs ht
  failed hs := hs

private theorem moves_endTx {t : Tx} (ht : s.tx i ≠ .committed) : Moves s (s.endTx i t) i :=
  moves_tx ht fun j hj hs ↦ by
    rw [if_neg fun heq ↦ hj (Option.some.inj (hs.symm.trans heq)), hs]

@[simp] private theorem phase_setPhase_self (s : State) (i : Nat) (p : Phase) :
    (s.setPhase i p).phase i = p := Function.update_self ..

@[simp] private theorem tx_setPhase (s : State) (i j : Nat) (p : Phase) :
    (s.setPhase i p).tx j = s.tx j := rfl

@[simp] private theorem tx_setTx_self (s : State) (i : Nat) (t : Tx) : (s.setTx i t).tx i = t :=
  Function.update_self ..

private theorem start_ok (hok : Ok name s) (hp : s.phase i = .idle) :
    Ok name ((s.send (.put i)).setPhase i .write) := by
  have hi := hok.uploads i
  rw [hp] at hi
  have hmoves : Moves s ((s.send (.put i)).setPhase i .write) i :=
    (moves_send (.inl rfl)).trans (moves_setPhase (fun _ _ ↦ by rw [State.send, hp]; rfl)
      fun hf ↦ by rw [State.send, hp] at hf; cases hf)
  refine hmoves.ok hok (fun file hmem ↦ ?_) (fun file hfile howes ↦ ?_) ?_
  · rcases List.mem_append.mp hmem with hold | hnew
    · exact .inl hold
    · cases List.mem_singleton.mp hnew
  · rw [hp] at howes
    rcases howes with ⟨-, -, hne⟩ | hdel | ⟨old, hcommit, -⟩
    · exact absurd rfl hne
    · cases hdel
    · cases hcommit
  · have htx := (hi.idle rfl).1
    rw [phase_setPhase_self, tx_setPhase, State.send, htx]
    refine ⟨nofun, fun _ ↦ ⟨rfl, .inl rfl⟩, fun _ _ _ ↦ .inl ?_, ?_, ?_, nofun, nofun, nofun, nofun⟩
    · exact List.mem_append_right _ List.mem_cons_self
    · rintro (h | h) <;> cases h
    · rintro old (h | h) <;> cases h

/-- What does not touch a transaction or a file: the upload waits for something else. -/
theorem wait_ok (hok : Ok name s) {p : Phase}
    (hu : p.undecided = true → s.tx i ≠ .committed → (s.phase i).undecided = true)
    (hf : (s.phase i).failed = true → p.failed = true)
    (howes : ∀ file ∈ s.store, Owes name i file (s.phase i) (s.tx i) →
      SomeFailed (s.setPhase i p) ∨ Owes name i file p (s.tx i))
    (hi : UploadOk name (s.setPhase i p) i p (s.tx i)) : Ok name (s.setPhase i p) := by
  refine (moves_setPhase hu hf).ok hok (fun file hmem ↦ .inl hmem) ?_ ?_
  · rwa [phase_setPhase_self]
  · rwa [phase_setPhase_self]

/-- The upload fails without having asked to delete its file. -/
theorem fail_ok (hok : Ok name s) {p : Phase} (hf : p.failed = true)
    (hu : p.undecided = true → s.tx i ≠ .committed → (s.phase i).undecided = true)
    (hidle : s.phase i ≠ .idle) (hdone : p ≠ .deleteNew)
    (hearly : p.early = true → s.tx i ≠ .committed)
    (hsettled : p.settled = true → s.tx i = .committed) : Ok name (s.setPhase i p) := by
  have hi := hok.uploads i
  have hfailed : SomeFailed (s.setPhase i p) := ⟨i, by rwa [phase_setPhase_self]⟩
  refine wait_ok hok hu (fun _ ↦ hf) (fun file _ _ ↦ .inl hfailed) ?_
  refine ⟨?_, fun hmem ↦ ⟨(hi.put hmem).1, .inr hf⟩, fun ht hun hne ↦ ?_, hi.lock, ?_, hsettled,
    hearly, ?_, ?_⟩
  · rintro rfl
    cases hf
  · exact hi.written ht (hu hun ht) hidle
  · rintro old (rfl | rfl) <;> cases hf
  · rintro old file rfl
    cases hf
  · rintro file rfl
    cases hf

/-- The names are distinct and are recognised. -/
structure Mints (name : Nat → String) : Prop where
  injective : Function.Injective name
  managed : ∀ i, managedAvatarFilename (some (avatarUrl (name i))) = some (name i)

/-- An upload that has not committed deletes its own file. -/
theorem deletesNew_ok (hname : Mints name) (hok : Ok name s) (ht : s.tx i ≠ .committed)
    (hu : (s.phase i).undecided = true) : Ok name (s.deletesNew name i) := by
  have hi := hok.uploads i
  have hphase : (s.deletesNew name i).phase i = .deleteNew := phase_setPhase_self ..
  have hmoves : Moves s (s.deletesNew name i) i :=
    (moves_send (.inr ⟨name i, rfl⟩)).trans (moves_setPhase (fun _ _ ↦ hu) fun _ ↦ rfl)
  have hfailed : SomeFailed (s.deletesNew name i) := ⟨i, hphase ▸ rfl⟩
  have hsent : ∀ op ∈ (s.deletesNew name i).sent, op ∈ s.sent ∨ op = .delete i (name i) := by
    intro op hop
    exact (List.mem_append.mp hop).imp_right List.mem_singleton.mp
  refine hmoves.ok hok (fun file hmem ↦ ?_) (fun file _ _ ↦ .inl hfailed) ?_
  · rcases hsent _ hmem with hold | hnew
    · exact .inl hold
    · obtain ⟨-, rfl⟩ := StoreOp.delete.inj hnew
      refine .inr ?_
      rintro (hcur | ⟨j, hj, hmay⟩)
      · exact ht (hok.minted i (hmoves.current ▸ hcur))
      · obtain rfl := hname.injective hj
        have hun := hmay.2
        rw [hphase] at hun
        cases hun
  · rw [hphase]
    refine ⟨nofun, fun hmem ↦ ?_, nofun, hi.lock, ?_, nofun, nofun, nofun, nofun⟩
    · rcases hsent _ hmem with hold | hnew
      · exact ⟨(hi.put hold).1, .inr rfl⟩
      · cases hnew
    · rintro old (h | h) <;> cases h

/-- The upload goes on before its commit, and its transaction with it. -/
theorem advance_ok (hok : Ok name s) {p : Phase} {t : Tx} {holder : Option Nat}
    (hq : (s.phase i).early = true) (hidle : s.phase i ≠ .idle)
    (hnot : (s.phase i).failed = false) (hput : .put i ∉ s.sent) (ht : t ≠ .committed)
    (hp : p.undecided = true ∧ p ≠ .idle ∧ p.settled = false)
    (hholder : ∀ j, j ≠ i → s.holder = some j → holder = some j)
    (hlock : t = .locked ∨ t = .committing → holder = some i)
    (hread : ∀ old, p = .update old ∨ p = .commit old → s.row = some old) :
    Ok name ({ s.setTx i t with holder := holder }.setPhase i p) := by
  have hi := hok.uploads i
  have htx := hi.early hq
  have hu : (s.phase i).undecided = true := by
    cases hphase : s.phase i <;> rw [hphase] at hq <;> first | rfl | cases hq
  have hphase' : ({ s.setTx i t with holder := holder }.setPhase i p).phase i = p :=
    phase_setPhase_self ..
  have htx' : ({ s.setTx i t with holder := holder }.setPhase i p).tx i = t :=
    tx_setTx_self ..
  have hmoves : Moves s ({ s.setTx i t with holder := holder }.setPhase i p) i :=
    (moves_tx htx hholder).trans (moves_setPhase (fun _ _ ↦ hu) fun hf ↦
      absurd (hnot.symm.trans hf) Bool.false_ne_true)
  refine hmoves.ok hok (fun file hmem ↦ .inl hmem) (fun file _ howes ↦ .inr ?_) ?_
  · rw [hphase', htx']
    rcases howes with ⟨hfile, -, -⟩ | hdel | ⟨old, hcommit, -⟩
    · exact .inl ⟨hfile, ht, hp.2.1⟩
    · rw [hdel] at hq
      cases hq
    · rw [hcommit] at hq
      cases hq
  · rw [hphase', htx']
    refine ⟨fun h ↦ absurd h hp.2.1, fun hmem ↦ absurd hmem hput, fun _ _ _ ↦ ?_, hlock,
      fun old hold _ ↦ hread old hold, fun hs ↦ ?_, fun _ ↦ ht, fun _ _ _ hc ↦ absurd hc ht, ?_⟩
    · exact hi.written htx hu hidle
    · rw [hp.2.2] at hs
      cases hs
    · rintro file rfl
      cases hp.1

/-- The transaction of an upload that has not committed is over. -/
theorem ended_ok (hok : Ok name s)
    (h : s.tx i = .open ∨ s.tx i = .locked ∨ s.tx i = .committing) :
    Ok name (s.endTx i .ended) := by
  have hi := hok.uploads i
  have ht : s.tx i ≠ .committed := by rcases h with h | h | h <;> rw [h] <;> decide
  have hne : s.tx i ≠ .idle := by rcases h with h | h | h <;> rw [h] <;> decide
  have htx' : (s.endTx i .ended).tx i = .ended := tx_setTx_self ..
  refine (moves_endTx ht).ok hok (fun file hmem ↦ .inl hmem) (fun file _ howes ↦ .inr ?_) ?_
  · rw [htx']
    rcases howes with ⟨hfile, -, hidle⟩ | hdel | ⟨old, -, hc, -⟩
    · exact .inl ⟨hfile, nofun, hidle⟩
    · exact .inr (.inl hdel)
    · exact absurd hc ht
  · rw [htx']
    refine ⟨fun hp ↦ absurd (hi.idle hp).1 hne, fun hmem ↦ absurd (hi.put hmem).1 hne,
      fun _ ↦ hi.written ht, ?_, fun old _ h ↦ ?_, fun hs ↦ absurd (hi.settled hs) ht,
      fun _ ↦ nofun, nofun, ?_⟩
    · rintro (h | h) <;> cases h
    · rcases h with h | h <;> cases h
    · intro file hp
      exact absurd (hi.settled (hp ▸ rfl)) ht

private theorem rolledBack_ok (hok : Ok name s) : Ok name (s.rolledBack i) := by
  unfold State.rolledBack
  split
  · next h => exact ended_ok hok (h.imp_right .inl)
  · exact hok

/-- The route goes on to the old file, which nobody names any more. -/
theorem replaced_ok (hok : Ok name s) {old : Option String} (hp : s.phase i = .commit old)
    (ht : s.tx i = .committed) : Ok name (s.replaced i old) := by
  have hi := hok.uploads i
  rw [hp, ht] at hi
  have hput : .put i ∉ s.sent := fun hmem ↦ nomatch (hi.put hmem).1
  unfold State.replaced
  split
  · next file hold =>
    have hphase : ((s.send (.delete i file)).setPhase i (.deleteOld file)).phase i =
        .deleteOld file := phase_setPhase_self ..
    have hmoves : Moves s ((s.send (.delete i file)).setPhase i (.deleteOld file)) i :=
      (moves_send (.inr ⟨file, rfl⟩)).trans (moves_setPhase nofun fun hf ↦ by
        rw [State.send, hp] at hf
        cases hf)
    have hnot : ¬ Live name ((s.send (.delete i file)).setPhase i (.deleteOld file)) file :=
      fun hlive ↦ hi.replaced old file rfl rfl hold (hmoves.live hlive)
    refine hmoves.ok hok (fun file' hmem ↦ ?_) (fun file' _ howes ↦ .inr ?_) ?_
    · rcases List.mem_append.mp hmem with hmem | hmem
      · exact .inl hmem
      · obtain ⟨-, rfl⟩ := StoreOp.delete.inj (List.mem_singleton.mp hmem)
        exact .inr hnot
    · rw [hp, ht] at howes
      rw [hphase]
      rcases howes with ⟨-, hc, -⟩ | hdel | ⟨old', hcommit, -, hfile⟩
      · exact absurd rfl hc
      · cases hdel
      · obtain rfl := Phase.commit.inj hcommit
        rw [hold, Option.some.injEq] at hfile
        exact .inr (.inl (hfile ▸ rfl))
    · rw [hphase, tx_setPhase, State.send, ht]
      refine ⟨nofun, fun hmem ↦ ?_, fun hc ↦ absurd rfl hc, ?_, ?_, fun _ ↦ rfl, nofun, nofun, ?_⟩
      · rcases List.mem_append.mp hmem with hmem | hmem
        · exact absurd hmem hput
        · cases List.mem_singleton.mp hmem
      · rintro (h | h) <;> cases h
      · rintro old (h | h) <;> cases h
      · intro file' hfile
        obtain rfl := Phase.deleteOld.inj hfile
        exact ⟨hnot, .inl (List.mem_append_right _ List.mem_cons_self)⟩
  · next hold =>
    refine wait_ok hok nofun (fun hf ↦ ?_) (fun file _ howes ↦ ?_) ?_
    · rw [hp] at hf
      cases hf
    · rw [hp, ht] at howes
      rcases howes with ⟨-, hc, -⟩ | hdel | ⟨old', hcommit, -, hfile⟩
      · exact absurd rfl hc
      · cases hdel
      · obtain rfl := Phase.commit.inj hcommit
        rw [hold] at hfile
        cases hfile
    · rw [ht]
      refine ⟨nofun, fun hmem ↦ absurd hmem hput, fun hc ↦ absurd rfl hc, ?_, ?_, fun _ ↦ rfl,
        nofun, nofun, nofun⟩
      · rintro (h | h) <;> cases h
      · rintro old (h | h) <;> cases h

/-- An upload that has seen its commit goes on, once it owes nothing. -/
theorem settled_ok (hok : Ok name s) {p : Phase} (hq : (s.phase i).settled = true)
    (hnot : (s.phase i).failed = false) (hp : p = .respond false ∨ p = .done false)
    (hdeleted : ∀ file ∈ s.store, s.phase i = .deleteOld file → SomeFailed (s.setPhase i p)) :
    Ok name (s.setPhase i p) := by
  have hi := hok.uploads i
  have ht := hi.settled hq
  rw [ht] at hi
  have hun : p.undecided = false := by rcases hp with rfl | rfl <;> rfl
  refine wait_ok hok (fun h _ ↦ absurd (hun.symm.trans h) Bool.false_ne_true)
    (fun hf ↦ absurd (hnot.symm.trans hf) Bool.false_ne_true) (fun file hfile howes ↦ ?_) ?_
  · rw [ht] at howes
    rcases howes with ⟨-, hc, -⟩ | hdel | ⟨old', hcommit, -⟩
    · exact absurd rfl hc
    · exact .inl (hdeleted file hfile hdel)
    · rw [hcommit] at hq
      cases hq
  · rw [ht]
    refine ⟨fun h ↦ ?_, fun hmem ↦ absurd (hi.put hmem).1 nofun, fun hc ↦ absurd rfl hc, ?_, ?_,
      fun _ ↦ rfl, fun h ↦ ?_, fun old file h ↦ ?_, fun file h ↦ ?_⟩
    · rcases hp with rfl | rfl <;> cases h
    · rintro (h | h) <;> cases h
    · rintro old - (h | h) <;> cases h
    · rcases hp with rfl | rfl <;> cases h
    · rcases hp with rfl | rfl <;> cases h
    · rcases hp with rfl | rfl <;> cases h

/-- The database commits the upload, which still waits for it or has crashed. -/
theorem commits_ok (hname : Mints name) (hok : Ok name s) (ht : s.tx i = .committing)
    (hp : (∃ old, s.phase i = .commit old) ∨ s.phase i = .crashed) :
    Ok name { s.endTx i .committed with
      row := s.row.map fun _ ↦ some (avatarUrl (name i)) } := by
  have hi := hok.uploads i
  have hu : (s.phase i).undecided = true ∧ s.phase i ≠ .idle ∧ (s.phase i).early = false := by
    rcases hp with ⟨old, hp⟩ | hp <;> rw [hp] <;> exact ⟨rfl, nofun, rfl⟩
  have hne : s.tx i ≠ .committed := by rw [ht]; decide
  have hput : .put i ∉ s.sent := fun hmem ↦ by
    have := (hi.put hmem).1
    rw [ht] at this
    cases this
  have hstored : name i ∈ s.store := (hi.written hne hu.1 hu.2.1).resolve_left hput
  have hholder := hi.lock (.inr ht)
  generalize hs' : { s.endTx i .committed with
    row := s.row.map fun _ ↦ some (avatarUrl (name i)) } = s'
  have hphase : s'.phase = s.phase := hs' ▸ rfl
  have hstore : s'.store = s.store := hs' ▸ rfl
  have hsent : s'.sent = s.sent := hs' ▸ rfl
  have htx : s'.tx i = .committed := hs' ▸ tx_setTx_self ..
  have htxs : ∀ j, j ≠ i → s'.tx j = s.tx j := fun j hj ↦ hs' ▸ Function.update_of_ne hj ..
  have hrow : s'.row = s.row.map fun _ ↦ some (avatarUrl (name i)) := hs' ▸ rfl
  have hcur : ∀ file, s'.current = some file → file = name i := by
    intro file hfile
    rw [State.current, hrow] at hfile
    cases hr : s.row with
    | none =>
      rw [hr] at hfile
      cases hfile
    | some old =>
      rw [hr, Option.map_some, Option.bind_some, hname.managed, Option.some.injEq] at hfile
      exact hfile.symm
  have hmay : ∀ j, MayCommit s' j → j ≠ i ∧ MayCommit s j := by
    intro j hj
    have hji : j ≠ i := by
      rintro rfl
      exact hj.1 htx
    unfold MayCommit at hj
    rw [htxs j hji, hphase] at hj
    exact ⟨hji, hj⟩
  have hlive : ∀ file, Live name s' file → Live name s file := by
    rintro file (hfile | ⟨j, hj, hm⟩)
    · exact .inr ⟨i, (hcur file hfile).symm, hne, hu.1⟩
    · exact .inr ⟨j, hj, (hmay j hm).2⟩
  have hfailed : SomeFailed s → SomeFailed s' := by
    rintro ⟨j, hj⟩
    exact ⟨j, hphase ▸ hj⟩
  have hcrashed : s.phase i = .crashed → SomeFailed s' := fun h ↦ ⟨i, by rw [hphase, h]; rfl⟩
  have hread : ∀ old, s.phase i = .commit old → s.row = some old := fun old h ↦
    hi.read old (.inr h) (.inr ht)
  constructor
  · intro url hurl
    rw [hrow] at hurl
    obtain ⟨old, -, heq⟩ := Option.map_eq_some_iff.mp hurl
    rw [← heq, hname.managed]
    rfl
  · intro file hfile
    rw [hstore, hcur file hfile]
    exact hstored
  · intro j file hmem hl
    exact hok.deletes j file (hsent ▸ hmem) (hlive file hl)
  · intro j hj
    obtain rfl := hname.injective (hcur _ hj)
    exact htx
  · intro file hfile
    rw [hstore] at hfile
    rcases hp with ⟨old, hp⟩ | hp
    · have hnew : s'.current = some (name i) := by
        rw [State.current, hrow, hread old hp, Option.map_some, Option.bind_some, hname.managed]
      rcases hok.stored file hfile with hc | hf | ⟨j, hj⟩
      · rw [State.current, hread old hp, Option.bind_some] at hc
        exact .inr (.inr ⟨i, .inr (.inr ⟨old, hphase ▸ hp, htx, hc⟩)⟩)
      · exact .inr (.inl (hfailed hf))
      · by_cases hji : j = i
        · subst hji
          rw [hp, ht] at hj
          rcases hj with ⟨hfile, -, -⟩ | hdel | ⟨old', -, hc, -⟩
          · exact .inl (hfile ▸ hnew)
          · cases hdel
          · cases hc
        · exact .inr (.inr ⟨j, by rwa [hphase, htxs j hji]⟩)
    · exact .inr (.inl (hcrashed hp))
  · intro j
    rw [hphase]
    by_cases hji : j = i
    · subst hji
      rw [htx]
      refine ⟨fun h ↦ absurd h hu.2.1, fun hmem ↦ absurd (hsent ▸ hmem) hput,
        fun h ↦ absurd rfl h, ?_, fun old _ h ↦ ?_, fun _ ↦ rfl, fun h ↦ ?_, ?_, ?_⟩
      · rintro (h | h) <;> cases h
      · rcases h with h | h <;> cases h
      · exact absurd (hu.2.2.symm.trans h) Bool.false_ne_true
      · intro old file hcommit _ hold
        have hc : s.current = some file := by
          rw [State.current, hread old hcommit, Option.bind_some, hold]
        rintro (hfile | ⟨k, hk, hm⟩)
        · rw [hcur file hfile] at hc
          exact hne (hok.minted j hc)
        · exact (hmay k hm).2.1 (hok.minted k (hk ▸ hc))
      · intro file hdel
        rw [hdel] at hu
        cases hu.1
    · have hj := hok.uploads j
      have hfree : ¬ (s.tx j = .locked ∨ s.tx j = .committing) := fun h ↦
        hji (Option.some.inj ((hj.lock h).symm.trans hholder))
      rw [htxs j hji]
      refine ⟨fun h ↦ hsent ▸ hj.idle h, fun h ↦ hj.put (hsent ▸ h), fun h h' h'' ↦ ?_,
        fun h ↦ absurd h hfree, fun _ _ h ↦ absurd h hfree, hj.settled, hj.early,
        fun old file h h' h'' hl ↦ hj.replaced old file h h' h'' (hlive file hl), fun file h ↦ ?_⟩
      · rw [hsent, hstore]
        exact hj.written h h' h''
      · obtain ⟨hnot, hdel⟩ := hj.deleting file h
        rw [hsent, hstore]
        exact ⟨fun hl ↦ hnot (hlive file hl), hdel.imp id (Or.imp id hfailed)⟩

/-- A file arrives in the store. -/
theorem put_ok (hok : Ok name s) {j : Nat} (hmem : .put j ∈ s.sent) :
    Ok name (State.landed name { s with sent := s.sent.erase (.put j) } (.put j)) where
  url := hok.url
  current file hfile := List.mem_cons_of_mem _ (hok.current file hfile)
  deletes k file hdel := hok.deletes k file (List.mem_of_mem_erase hdel)
  minted := hok.minted
  stored file hfile := by
    rcases List.mem_cons.mp hfile with rfl | hfile
    · obtain ⟨htx, hp | hp⟩ := (hok.uploads j).put hmem
      · have hne : s.tx j ≠ .committed := by rw [htx]; decide
        have hidle : s.phase j ≠ .idle := by rw [hp]; decide
        exact .inr (.inr ⟨j, .inl ⟨rfl, hne, hidle⟩⟩)
      · exact .inr (.inl ⟨j, hp⟩)
    · exact hok.stored file hfile
  uploads k := by
    have hk := hok.uploads k
    refine ⟨fun h ↦ ⟨(hk.idle h).1, fun hm ↦ (hk.idle h).2 (List.mem_of_mem_erase hm)⟩,
      fun h ↦ hk.put (List.mem_of_mem_erase h), fun h h' h'' ↦ ?_, hk.lock, hk.read, hk.settled,
      hk.early, hk.replaced, fun file h ↦ ?_⟩
    · rcases hk.written h h' h'' with hm | hm
      · by_cases hkj : k = j
        · exact .inr (hkj ▸ List.mem_cons_self)
        · exact .inl ((List.mem_erase_of_ne fun heq ↦ hkj (StoreOp.put.inj heq)).mpr hm)
      · exact .inr (List.mem_cons_of_mem _ hm)
    · obtain ⟨hnot, hdel⟩ := hk.deleting file h
      refine ⟨hnot, ?_⟩
      rcases hdel with hm | hm | hf
      · exact .inl ((List.mem_erase_of_ne (by nofun)).mpr hm)
      · by_cases hfile : file = name j
        · -- a file that is still to arrive belongs to an upload that can commit or has failed
          obtain ⟨htx, hp | hp⟩ := (hok.uploads j).put hmem
          · have hne : s.tx j ≠ .committed := by rw [htx]; decide
            have hun : (s.phase j).undecided = true := by rw [hp]; rfl
            exact absurd (.inr ⟨j, hfile.symm, hne, hun⟩) hnot
          · exact .inr (.inr ⟨j, hp⟩)
        · refine .inr (.inl fun hmem' ↦ ?_)
          rcases List.mem_cons.mp hmem' with heq | hmem'
          · exact hfile heq
          · exact hm hmem'
      · exact .inr (.inr hf)

/-- A file leaves the store. -/
theorem delete_ok (hok : Ok name s) {j : Nat} {f : String} (hmem : .delete j f ∈ s.sent) :
    Ok name (State.landed name { s with sent := s.sent.erase (.delete j f) } (.delete j f)) := by
  have hnot := hok.deletes j f hmem
  have hstore : ∀ file, file ∈ (State.landed name { s with sent := s.sent.erase (.delete j f) }
      (.delete j f)).store ↔ file ∈ s.store ∧ file ≠ f := by
    intro file
    simp [State.landed]
  constructor
  · exact hok.url
  · intro file hfile
    refine (hstore file).mpr ⟨hok.current file hfile, ?_⟩
    rintro rfl
    exact hnot (.inl hfile)
  · intro k file hdel
    exact hok.deletes k file (List.mem_of_mem_erase hdel)
  · exact hok.minted
  · intro file hfile
    exact hok.stored file ((hstore file).mp hfile).1
  · intro k
    have hk := hok.uploads k
    refine ⟨fun h ↦ ⟨(hk.idle h).1, fun hm ↦ (hk.idle h).2 (List.mem_of_mem_erase hm)⟩,
      fun h ↦ hk.put (List.mem_of_mem_erase h), fun h h' h'' ↦ ?_, hk.lock, hk.read, hk.settled,
      hk.early, hk.replaced, fun file h ↦ ?_⟩
    · rcases hk.written h h' h'' with hm | hm
      · exact .inl ((List.mem_erase_of_ne (by nofun)).mpr hm)
      · refine .inr ((hstore _).mpr ⟨hm, ?_⟩)
        rintro rfl
        exact hnot (.inr ⟨k, rfl, h, h'⟩)
    · obtain ⟨hlive, hdel⟩ := hk.deleting file h
      refine ⟨hlive, ?_⟩
      rcases hdel with hm | hm | hf
      · by_cases heq : StoreOp.delete k file = .delete j f
        · obtain ⟨-, rfl⟩ := StoreOp.delete.inj heq
          exact .inr (.inl fun hin ↦ ((hstore _).mp hin).2 rfl)
        · exact .inl ((List.mem_erase_of_ne heq).mpr hm)
      · exact .inr (.inl fun hin ↦ hm ((hstore _).mp hin).1)
      · exact .inr (.inr hf)

/-- The upload waits for the next thing before its commit, its file being stored. -/
theorem early_ok (hok : Ok name s) {p : Phase} (hq : (s.phase i).early = true)
    (hidle : s.phase i ≠ .idle) (hnot : (s.phase i).failed = false) (hput : .put i ∉ s.sent)
    (hp : p = .connect ∨ p = .beginTx) : Ok name (s.setPhase i p) := by
  have hi := hok.uploads i
  have hu : (s.phase i).undecided = true := by
    cases hphase : s.phase i <;> rw [hphase] at hq <;> first | rfl | cases hq
  refine wait_ok hok (fun _ _ ↦ hu) (fun hf ↦ absurd (hnot.symm.trans hf) Bool.false_ne_true)
    (fun file _ howes ↦ .inr ?_) ?_
  · rcases howes with ⟨hfile, ht, -⟩ | hdel | ⟨old, hcommit, -⟩
    · exact .inl ⟨hfile, ht, by rcases hp with rfl | rfl <;> decide⟩
    · rw [hdel] at hq
      cases hq
    · rw [hcommit] at hq
      cases hq
  · refine ⟨fun h ↦ ?_, fun hmem ↦ absurd hmem hput, fun ht _ _ ↦ hi.written ht hu hidle, hi.lock,
      fun old h ↦ ?_, fun h ↦ ?_, fun _ ↦ hi.early hq, fun old file h ↦ ?_, fun file h ↦ ?_⟩
    · rcases hp with rfl | rfl <;> cases h
    · rcases hp with rfl | rfl <;> rcases h with h | h <;> cases h
    · rcases hp with rfl | rfl <;> cases h
    · rcases hp with rfl | rfl <;> cases h
    · rcases hp with rfl | rfl <;> cases h

private theorem UploadOk.arrived {p : Phase} {t : Tx} (h : UploadOk name s i p t) (hw : p ≠ .write)
    (hf : p.failed = false) : .put i ∉ s.sent := by
  intro hmem
  rcases (h.put hmem).2 with hp | hp
  · exact hw hp
  · exact absurd (hf.symm.trans hp) Bool.false_ne_true

/-- What an upload waited for has come. -/
theorem returns_ok (hname : Mints name) (hok : Ok name s)
    (h : s.returns name i (s.phase i) = some s') : Ok name s' := by
  have hi := hok.uploads i
  cases hp : s.phase i with
  | idle | done failed | crashed =>
    rw [hp] at h
    cases h
  | write =>
    simp only [hp, State.returns, Option.ite_none_left_eq_some, Option.some.injEq] at h
    obtain ⟨hput, rfl⟩ := h
    exact early_ok hok (hp ▸ rfl) (hp ▸ nofun) (hp ▸ rfl) hput (.inl rfl)
  | connect =>
    rw [hp] at h
    obtain rfl := Option.some.inj h
    exact early_ok hok (hp ▸ rfl) (hp ▸ nofun) (hp ▸ rfl)
      (hi.arrived (hp ▸ nofun) (hp ▸ rfl)) (.inr rfl)
  | beginTx =>
    rw [hp] at h
    obtain rfl := Option.some.inj h
    refine @advance_ok _ _ _ hok _ _ s.holder (hp ▸ rfl) (hp ▸ nofun) (hp ▸ rfl)
      (hi.arrived (hp ▸ nofun) (hp ▸ rfl)) nofun ⟨rfl, nofun, rfl⟩ (fun _ _ hs ↦ hs) ?_ ?_
    · rintro (h | h) <;> cases h
    · rintro old (h | h) <;> cases h
  | select =>
    simp only [hp, State.returns, Option.ite_none_right_eq_some] at h
    obtain ⟨ht, h⟩ := h
    split at h
    · obtain rfl := Option.some.inj h
      exact fail_ok hok rfl (fun _ _ ↦ hp ▸ rfl) (hp ▸ nofun) nofun (fun _ ↦ by rw [ht]; decide) nofun
    · next old hrow =>
      simp only [Option.ite_none_right_eq_some, Option.some.injEq] at h
      obtain ⟨hfree, rfl⟩ := h
      refine advance_ok hok (hp ▸ rfl) (hp ▸ nofun) (hp ▸ rfl)
        (hi.arrived (hp ▸ nofun) (hp ▸ rfl)) nofun ⟨rfl, nofun, rfl⟩ (fun j _ hs ↦ ?_)
        (fun _ ↦ rfl) ?_
      · rw [hfree] at hs
        cases hs
      · rintro old' (h | h)
        · exact Phase.update.inj h ▸ hrow
        · cases h
  | update old =>
    simp only [hp, State.returns, Option.ite_none_right_eq_some, Option.some.injEq] at h
    obtain ⟨ht, rfl⟩ := h
    refine @advance_ok _ _ _ hok _ _ s.holder (hp ▸ rfl) (hp ▸ nofun) (hp ▸ rfl)
      (hi.arrived (hp ▸ nofun) (hp ▸ rfl)) nofun ⟨rfl, nofun, rfl⟩ (fun _ _ hs ↦ hs)
      (fun _ ↦ hi.lock (.inl ht)) ?_
    rintro old' (h | h)
    · cases h
    · exact Phase.commit.inj h ▸ hi.read old (.inl hp) (.inl ht)
  | commit old =>
    simp only [hp, State.returns, Option.ite_none_right_eq_some, Option.some.injEq] at h
    obtain ⟨ht, rfl⟩ := h
    exact replaced_ok hok hp ht
  | deleteOld file =>
    simp only [hp, State.returns, Option.ite_none_left_eq_some, Option.some.injEq] at h
    obtain ⟨hdone, rfl⟩ := h
    refine settled_ok hok (hp ▸ rfl) (hp ▸ rfl) (.inl rfl) fun file' hfile hdel ↦ ?_
    obtain rfl := Phase.deleteOld.inj (hp.symm.trans hdel)
    rcases (hi.deleting file hp).2 with hmem | hnot | ⟨j, hj⟩
    · exact absurd hmem hdone
    · exact absurd hfile hnot
    · have hji : j ≠ i := by
        rintro rfl
        rw [hp] at hj
        cases hj
      have hphase : (s.setPhase i (.respond false)).phase j = s.phase j :=
        Function.update_of_ne hji ..
      exact ⟨j, hphase ▸ hj⟩
  | respond failed =>
    rw [hp] at h
    obtain rfl := Option.some.inj h
    cases failed with
    | false =>
      refine settled_ok hok (hp ▸ rfl) (hp ▸ rfl) (.inr rfl) fun file _ hdel ↦ ?_
      cases hp.symm.trans hdel
    | true => exact fail_ok hok rfl nofun (hp ▸ nofun) nofun nofun nofun
  | rollback | missing =>
    simp only [hp, State.returns, Option.ite_none_left_eq_some, Option.some.injEq] at h
    obtain ⟨-, rfl⟩ := h
    have hphase : (s.rolledBack i).phase i = s.phase i := by
      unfold State.rolledBack
      split <;> rfl
    have hok' : Ok name (s.rolledBack i) := rolledBack_ok hok
    refine deletesNew_ok hname hok' ((hok'.uploads i).early ?_) ?_ <;> rw [hphase, hp] <;> rfl
  | deleteNew =>
    simp only [hp, State.returns, Option.ite_none_left_eq_some, Option.some.injEq] at h
    obtain ⟨-, rfl⟩ := h
    exact fail_ok hok rfl nofun (hp ▸ nofun) nofun nofun nofun

/-- What an upload waited for has failed. -/
theorem fails_ok (hname : Mints name) (hok : Ok name s)
    (hguard : ∀ old, s.phase i = .commit old → s.tx i ≠ .committed)
    (h : s.fails name i (s.phase i) = some s') : Ok name s' := by
  have hi := hok.uploads i
  cases hp : s.phase i with
  | idle | respond failed | done failed | crashed =>
    rw [hp] at h
    cases h
  | write | deleteNew =>
    rw [hp] at h
    obtain rfl := Option.some.inj h
    exact fail_ok hok rfl nofun (hp ▸ nofun) nofun nofun nofun
  | connect | rollback =>
    rw [hp] at h
    obtain rfl := Option.some.inj h
    exact deletesNew_ok hname hok (hi.early (hp ▸ rfl)) (hp ▸ rfl)
  | beginTx | select | update old | missing =>
    rw [hp] at h
    obtain rfl := Option.some.inj h
    exact fail_ok hok rfl (fun _ _ ↦ hp ▸ rfl) (hp ▸ nofun) nofun (fun _ ↦ hi.early (hp ▸ rfl)) nofun
  | commit old =>
    rw [hp] at h
    obtain rfl := Option.some.inj h
    exact fail_ok hok rfl (fun _ _ ↦ hp ▸ rfl) (hp ▸ nofun) nofun (fun _ ↦ hguard old hp) nofun
  | deleteOld file =>
    rw [hp] at h
    obtain rfl := Option.some.inj h
    exact fail_ok hok rfl nofun (hp ▸ nofun) nofun nofun (fun _ ↦ hi.settled (hp ▸ rfl))

/-- One acknowledged step keeps the invariant. -/
theorem next_ok (hname : Mints name) (hok : Ok name s) {l : State.Label} (hguard : Acknowledged s l)
    (h : State.next name s l = some s') : Ok name s' := by
  cases l with
  | start i =>
    simp only [State.next, Option.ite_none_right_eq_some, Option.some.injEq] at h
    obtain ⟨hp, rfl⟩ := h
    exact start_ok hok hp
  | returns i => exact returns_ok hname hok h
  | fails i => exact fails_ok hname hok hguard h
  | throws i => exact hguard.elim
  | crash i =>
    have hi := hok.uploads i
    cases hp : s.phase i with
    | idle | done failed | crashed =>
      simp only [State.next, hp] at h
      cases h
    | deleteNew =>
      simp only [State.next, hp, Option.some.injEq] at h
      subst h
      exact fail_ok hok rfl nofun (hp ▸ nofun) nofun nofun nofun
    | deleteOld file | respond failed =>
      simp only [State.next, hp, Option.some.injEq] at h
      subst h
      exact fail_ok hok rfl (fun _ ht ↦ absurd (hi.settled (hp ▸ rfl)) ht) (hp ▸ nofun) nofun nofun
        nofun
    | _ =>
      simp only [State.next, hp, Option.some.injEq] at h
      subst h
      exact fail_ok hok rfl (fun _ _ ↦ hp ▸ rfl) (hp ▸ nofun) nofun nofun nofun
  | commits i =>
    simp only [State.next, Option.ite_none_right_eq_some, Option.some.injEq] at h
    obtain ⟨ht, rfl⟩ := h
    exact commits_ok hname hok ht hguard
  | aborts i =>
    simp only [State.next, Option.ite_none_right_eq_some, Option.some.injEq] at h
    obtain ⟨ht, rfl⟩ := h
    exact ended_ok hok ht
  | land op =>
    simp only [State.next, Option.ite_none_right_eq_some, Option.some.injEq] at h
    obtain ⟨hmem, rfl⟩ := h
    cases op with
    | put j => exact put_ok hok hmem
    | delete j file => exact delete_ok hok hmem

private theorem fresh_ok (h : State.Fresh name s) : Ok name s where
  url := h.url
  current file hfile := (h.store file).mpr hfile
  deletes i file hmem := by
    rw [h.sent] at hmem
    cases hmem
  minted i hi := absurd ((h.store _).mpr hi) (h.other i)
  stored file hfile := .inl ((h.store file).mp hfile)
  uploads i := by
    rw [h.phase, h.tx]
    refine ⟨fun _ ↦ ⟨rfl, fun hmem ↦ ?_⟩, fun hmem ↦ ?_, fun _ _ hne ↦ absurd rfl hne, ?_, nofun,
      nofun, fun _ ↦ nofun, nofun, nofun⟩
    · rw [h.sent] at hmem
      cases hmem
    · rw [h.sent] at hmem
      cases hmem
    · rintro (h | h) <;> cases h

end Invariant

/-! ### The route's names -/

section Names

variable {userId : Nat} {uuids : Uuids}

private theorem uuidWebp_append {text : List Char} (hne : text ≠ [])
    (h : ∀ c ∈ text, isUuidChar c = true) :
    uuidWebp (text ++ ".webp".toList) = true := by
  have hdrop : (text ++ ".webp".toList).dropSuffix? ".webp".toList = some text :=
    List.dropSuffix?_eq_some_iff.mpr ⟨_, rfl, beq_self_eq_true _⟩
  unfold uuidWebp
  rw [hdrop]
  simp only [Bool.and_eq_true, Bool.not_eq_true', List.isEmpty_eq_false_iff, List.all_eq_true]
  exact ⟨hne, h⟩

private theorem filename_toList (userId : Nat) (uuids : Uuids) (i : Nat) :
    (filename userId uuids i).toList = "user".toList ++ (Nat.toDigits 10 userId ++
      '-' :: ((uuids.text i).toList ++ ".webp".toList)) := by
  have hdigits : (toString userId).toList = Nat.toDigits 10 userId := by
    rw [show toString userId = userId.repr from rfl, Nat.repr_eq_ofList_toDigits,
      String.toList_ofList]
  simp only [filename, String.toList_append, hdigits, List.append_assoc]
  rfl

private theorem managedFile_filename (userId : Nat) (uuids : Uuids) (i : Nat) :
    managedFile (filename userId uuids i).toList = true := by
  have hdigits : ∀ c ∈ Nat.toDigits 10 userId, c.isDigit = true := fun c hc ↦
    Nat.isDigit_of_mem_toDigits (by decide) (by decide) hc
  unfold managedFile
  rw [filename_toList, List.dropPrefix?_append_of_beq _ (beq_self_eq_true _)]
  simp only [List.dropWhile_append_of_pos hdigits, List.takeWhile_append_of_pos hdigits]
  have hdash : ('-').isDigit = false := rfl
  simp only [List.dropWhile_cons, hdash, List.takeWhile_cons, Bool.false_eq_true, if_false,
    List.append_nil, Bool.and_eq_true, Bool.not_eq_true', List.isEmpty_eq_false_iff]
  exact ⟨Nat.toDigits_ne_nil, uuidWebp_append (uuids.shape i).1 (uuids.shape i).2⟩

private theorem mints_filename (userId : Nat) (uuids : Uuids) : Mints (filename userId uuids) where
  injective i j h := by
    have hlist := congrArg String.toList h
    rw [filename_toList, filename_toList, List.append_cancel_left_eq, List.append_cancel_left_eq,
      List.cons.injEq, List.append_cancel_right_eq] at hlist
    exact uuids.injective (String.toList_injective hlist.2)
  managed i := by
    unfold managedAvatarFilename avatarUrl
    rw [Option.getD_some, String.toList_append,
      List.dropPrefix?_append_of_beq _ (beq_self_eq_true _)]
    dsimp only
    rw [if_pos (managedFile_filename userId uuids i), String.ofList_toList]

/-- Where every upload whose COMMIT is executed sees it succeed and nothing throws after it, the
row names no file or one that is in the store, and once all uploads have ended without a failure
the store holds just that file. -/
theorem avatar_in_store {s : State}
    (hs : ((machine userId uuids).restrict Acknowledged).Reachable s) :
    (∀ url, s.row = some (some url) →
      ∃ file, managedAvatarFilename (some url) = some file ∧ file ∈ s.store) ∧
    ((∀ i, s.phase i = .idle ∨ s.phase i = .done false) →
      ∀ file, file ∈ s.store ↔ s.current = some file) := by
  have hok : Ok (filename userId uuids) s :=
    Machine.Invariant.reachable (M := (machine userId uuids).restrict Acknowledged)
      ⟨fun _ h ↦ fresh_ok h, fun _ _ _ hok h ↦ next_ok (mints_filename userId uuids) hok h.1 h.2⟩ hs
  constructor
  · intro url hurl
    obtain ⟨file, hfile⟩ := Option.isSome_iff_exists.mp (hok.url url hurl)
    refine ⟨file, hfile, hok.current file ?_⟩
    rw [State.current, hurl, Option.bind_some, hfile]
  · intro hended file
    refine ⟨fun hfile ↦ ?_, hok.current file⟩
    rcases hok.stored file hfile with hcur | ⟨j, hj⟩ | ⟨j, hj⟩
    · exact hcur
    · rcases hended j with hp | hp <;> rw [hp] at hj <;> cases hj
    · rcases hj with ⟨-, ht, hne⟩ | hp | ⟨old, hp, -⟩
      · rcases hended j with hp | hp
        · exact absurd hp hne
        · exact absurd ((hok.uploads j).settled (hp ▸ rfl)) ht
      · rcases hended j with hp' | hp' <;> cases hp.symm.trans hp'
      · rcases hended j with hp' | hp' <;> cases hp.symm.trans hp'

/-- Texts of one digit, one longer than the other. -/
def zeros : Uuids where
  text i := String.ofList (List.replicate (i + 1) '0')
  shape i := by
    rw [String.toList_ofList]
    refine ⟨by simp, fun c hc ↦ ?_⟩
    rw [List.eq_of_mem_replicate hc]
    rfl
  injective i j h := by
    have hlength := congrArg (fun text : String ↦ text.toList.length) h
    simpa [String.toList_ofList] using hlength

/-- A user without an avatar. -/
def State.noAvatar : State := ⟨some none, none, [], [], fun _ ↦ .idle, fun _ ↦ .idle⟩

private theorem noAvatar_fresh : State.Fresh (filename 7 zeros) .noAvatar where
  holder := rfl
  sent := rfl
  tx := rfl
  phase := rfl
  url url h := nomatch Option.some.inj h
  store file := ⟨nofun, fun h ↦ by
    have hnone : State.noAvatar.current = none := by decide +kernel
    rw [hnone] at h
    cases h⟩
  other i := List.not_mem_nil

/-- The first upload up to the point where its COMMIT is executed. -/
def committed : List State.Label :=
  [.start 0, .land (.put 0), .returns 0, .returns 0, .returns 0, .returns 0, .returns 0, .commits 0]

/-- An upload whose commit is acknowledged. -/
def acknowledgedUpload : List State.Label := committed ++ [State.Label.returns 0, .returns 0]

/-- An upload whose commit loses its reply. -/
def lostReply : List State.Label :=
  committed ++ [State.Label.fails 0, .fails 0, .land (.delete 0 (filename 7 zeros 0))]

/-- The steps of an upload that does not fail. -/
def acknowledgedNext (s : State) (l : State.Label) : Option State :=
  match l with
  | .fails _ | .throws _ => none
  | .commits i =>
    match s.phase i with
    | .commit _ => State.next (filename 7 zeros) s l
    | _ => none
  | l => State.next (filename 7 zeros) s l

private theorem acknowledgedNext_step (s : State) (l : State.Label) (s' : State)
    (h : acknowledgedNext s l = some s') :
    ((machine 7 zeros).restrict Acknowledged).step s l s' := by
  unfold acknowledgedNext at h
  split at h
  · cases h
  · cases h
  · split at h
    · next i old hp => exact ⟨.inl ⟨old, hp⟩, h⟩
    · cases h
  · next hfails hthrows hcommits =>
    refine ⟨?_, h⟩
    cases l with
    | fails i => exact absurd rfl (hfails i)
    | throws i => exact absurd rfl (hthrows i)
    | commits i => exact absurd rfl (hcommits i)
    | _ => trivial

/-- The first upload of a user. -/
theorem avatar_in_store_first : ∃ s,
    ((machine 7 zeros).restrict Acknowledged).Reachable s ∧ s.phase 0 = .done false ∧
      ∃ url, s.row = some (some url) ∧
        ∃ file, managedAvatarFilename (some url) = some file ∧ file ∈ s.store := by
  have hrun : (acknowledgedUpload.foldlM acknowledgedNext State.noAvatar).any (fun s ↦
      s.phase 0 = .done false ∧ s.row = some (some (avatarUrl (filename 7 zeros 0)))) = true := by
    decide +kernel
  obtain ⟨s, hs, hfacts⟩ := Option.any_eq_true _ _ |>.mp hrun
  obtain ⟨hphase, hrow⟩ := of_decide_eq_true hfacts
  have hreach : ((machine 7 zeros).restrict Acknowledged).Reachable s :=
    .foldlM acknowledgedNext_step (.init noAvatar_fresh) hs
  exact ⟨s, hreach, hphase, _, hrow, (avatar_in_store hreach).1 _ hrow⟩

/-- The COMMIT of an upload is executed and its reply is lost: the route deletes the new file,
which the row names. -/
theorem not_in_store_lostReply : ∃ s, (machine 7 zeros).Reachable s ∧
    ∃ url, s.row = some (some url) ∧
      ¬ ∃ file, managedAvatarFilename (some url) = some file ∧ file ∈ s.store := by
  have hrun : (lostReply.foldlM (State.next (filename 7 zeros)) State.noAvatar).any (fun s ↦
      s.row = some (some (avatarUrl (filename 7 zeros 0))) ∧ s.store = []) = true := by
    decide +kernel
  obtain ⟨s, hs, hfacts⟩ := Option.any_eq_true _ _ |>.mp hrun
  obtain ⟨hrow, hstore⟩ := of_decide_eq_true hfacts
  refine ⟨s, .foldlM (fun _ _ _ h ↦ h) (.init noAvatar_fresh) hs, _, hrow, ?_⟩
  rintro ⟨file, -, hfile⟩
  rw [hstore] at hfile
  cases hfile

end Names

end ChessStack.Upload
