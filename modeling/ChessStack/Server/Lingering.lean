import ChessStack.Library.Upkeep
import ChessStack.Server.Effects
import ChessStack.Server.Process

/-!
# Finished rooms in the cache

Library `Server`. A finished room that stays in `activeRooms` without a socket is a debt of the
functions of `Chess-Backend/src/socket/gameSocket.js`. Who leaves one behind, who sees to it, and
the four turns after which nobody does.
-/

namespace ChessStack.Server

open ChessStack.Chess ChessStack.Js ChessStack.Library ChessStack.Store

/-! ### Turns by name -/

section Turns

variable {js : ChessJs}

/-- The turn of a refresh that its snapshot query begins. -/
def afterSnapshot (room : Nat) (roomId : String) (next : Option Nat → RoomCode js) :
    Option (Option GameSnapshot) → RoomCode js
  | none => tick (next none)
  | some found =>
    match found.filter isMaterializable with
    | none => .store (·.evict roomId) (tick (next none))
    | some snapshot =>
      match buildRoomFromSnapshot js snapshot with
      | none => .await (.call (.abandonMany snapshot.game.id)) fun
        | none => .throw "abandon failed"
        | some _ => .store (·.evict roomId) (tick (next none))
      | some built => .look fun m ↦
        .store (·.add ((m.current roomId room).rebuilt roomId built)) (tick (next (some m.allocated)))

/-- `refreshRoomFromDb` reads the snapshot, then goes on as `afterSnapshot` says. -/
theorem refreshRoomFromDb_eq (room : Nat) (next : Option Nat → RoomCode js) :
    refreshRoomFromDb room next =
      .look fun m ↦ .await (.snapshot (m.objects room).id) (afterSnapshot room (m.objects room).id next) := by
  refine congrArg Code.look (funext fun m ↦ congrArg (Code.await _) (funext fun answer ↦ ?_))
  rcases answer with - | found
  · rfl
  · rcases hkept : found.filter isMaterializable with - | snapshot
    · simp only [afterSnapshot, hkept]
    · rcases hbuilt : buildRoomFromSnapshot js snapshot with - | built
      -- the answer to the abandonment decides how the call goes on, so both answers are looked at
      · generalize hright : afterSnapshot room (m.objects room).id next (some found) = right
        simp only [afterSnapshot, hkept, hbuilt] at hright ⊢
        exact (congrArg (Code.await _) (funext fun abandoned ↦ by cases abandoned <;> rfl)).trans hright
      · simp only [afterSnapshot, hkept, hbuilt]

/-- The turn of `leave_room` without truth, `gameSocket.js:675–680`. -/
def leaveUntrue (socket room : Nat) : RoomCode js :=
  .look fun m ↦
    if (m.objects room).players.any (·.id == some socket) then
      .store (·.modify room (·.detach socket)) (.tell (.left socket) .done)
    else .tell (.leaveRefused socket "Not authorized") .done

end Turns

/-! ### Debts -/

/-- A finished room object is cached under the id and no socket is attached to it. -/
def Memory.Lingers {js : ChessJs} (m : Memory js) (key : String × Nat) : Prop :=
  m.activeRooms.get key.1 = some key.2 ∧ (m.objects key.2).status = .finished ∧
    (m.objects key.2).socketless = true

/-- The cache holds objects under their ids, and hydrations have left objects that exist. -/
structure Memory.Coherent {js : ChessJs} (m : Memory js) : Prop where
  cached : ∀ roomId ref, m.activeRooms.get roomId = some ref →
    ref < m.allocated ∧ (m.objects ref).id = roomId
  hydrated : ∀ job ref, m.hydrated job = some (some ref) → ref < m.allocated

/-- Room objects are made, never lost, and keep their ids. -/
structure Memory.Grows {js : ChessJs} (m m' : Memory js) : Prop where
  allocated : m.allocated ≤ m'.allocated
  ids : ∀ ref < m.allocated, (m'.objects ref).id = (m.objects ref).id

/-- What a function does to the memory of its process. Only a hydration leaves its result, where
nothing was left before. -/
structure Memory.Does {js : ChessJs} (job : Nat) (m m' : Memory js) : Prop extends Grows m m' where
  hydrated : ∀ job' ≠ job, m'.hydrated job' = m.hydrated job'
  draining : m'.draining = m.draining
  listening : m'.listening = m.listening

/-- The function serves a `join_room`. -/
def Origin.isJoin : Origin → Bool
  | .event _ _ (.joinRoom _) _ _ => true
  | _ => false

/-- The function hydrates a room. -/
def Origin.isHydration : Origin → Bool
  | .hydration _ => true
  | _ => false

/-- Only `join_room` joins. -/
theorem isJoin_iff {origin : Origin} : origin.isJoin = true ↔ ∃ socket user name newId now,
    origin = .event socket user (.joinRoom name) newId now := by
  constructor
  · intro h
    unfold Origin.isJoin at h
    split at h
    · exact ⟨_, _, _, _, _, rfl⟩
    · cases h
  · rintro ⟨socket, user, name, newId, now, rfl⟩
    rfl

/-- Only hydrations hydrate. -/
theorem isHydration_iff {origin : Origin} :
    origin.isHydration = true ↔ ∃ name, origin = .hydration name := by
  constructor
  · intro h
    unfold Origin.isHydration at h
    split at h
    · exact ⟨_, rfl⟩
    · cases h
  · rintro ⟨name, rfl⟩
    rfl

/-- A join is no hydration. -/
theorem isHydration_of_isJoin {origin : Origin} (h : origin.isJoin = true) :
    origin.isHydration = false := by
  obtain ⟨socket, user, name, newId, now, rfl⟩ := isJoin_iff.mp h
  rfl

section Upkeep

variable {js : ChessJs}

/-- The turns after which somebody sees to a finished room. Three kinds of turn are left out. A
task that is not a join puts a finished room without sockets in the cache; the end of a game is
announced on a cached object without sockets; a `leave_room` without truth takes the last socket
off a finished room in the cache. -/
structure Admits (origin : Origin) (m : Memory js) (c : RoomCode js) : Prop where
  inserts : origin.isJoin = false → ∀ room roomId next snapshot built,
    c = afterSnapshot room roomId next (some (some snapshot)) → isMaterializable snapshot = true →
    buildRoomFromSnapshot js snapshot = some built → built.status = .finished →
      ((m.current roomId room).rebuilt roomId built).socketless = false
  ends : ∀ live result winner finalized, c = announce live result winner finalized .done →
    finalized.settled = true → m.activeRooms.get (m.objects live).id = some live →
      (m.objects live).socketless = false
  leaves : ∀ socket room, c = leaveUntrue socket room →
    m.activeRooms.get (m.objects room).id = some room → (m.objects room).status = .finished →
      ((m.objects room).detach socket).socketless = false

/-- What requests can return: the new game of a rematch has a position that loads. -/
def Returns : (r : Await js) → Answer js r → Prop
  | .call (.rematch ..), some game => (js.loadOr game.boardFen).isSome
  | _, _ => True

/-- A join whose refresh fails does not see to the room. -/
def Answers (origin : Origin) (key : String × Nat) : (r : Await js) → Answer js r → Prop
  | .snapshot roomId, none => ¬ (origin.isJoin = true ∧ roomId = key.1)
  | _, _ => True

/-- The rules for a function of a handler that works on a room. The `catch` of a join evicts, and
a hydration passes the room on to the joins that wait for it. -/
def upkeep (c : Caller) (roomId : Option String) :
    Upkeep (Memory js) (Await js) (Answer js) (Message js) (String × Nat) where
  inv := Memory.Coherent
  does := Memory.Does c.job
  later m m' := m.Grows m' ∧ m'.hydrated c.job = m.hydrated c.job
  waits m := c.origin.isHydration = true → m.hydrated c.job = none
  debt := Memory.Lingers
  mine key := roomId = some key.1
  caught key := c.origin.isJoin = true ∧ roomId = some key.1
  passed m key := c.origin.isHydration = true ∧ m.hydrated c.job = some (some key.2) ∧
    roomId = some key.1
  returns := Returns
  answers := Answers c.origin
  admits := Admits c.origin

end Upkeep

/-! ### What the stores do -/

namespace Memory

variable {js : ChessJs} {m m' m'' : Memory js} {job : Nat}

/-- A memory has grown from itself. -/
theorem Grows.refl (m : Memory js) : m.Grows m := ⟨Nat.le_refl _, fun _ _ ↦ rfl⟩

/-- Growth upon growth. -/
theorem Grows.trans (h : m.Grows m') (h' : m'.Grows m'') : m.Grows m'' where
  allocated := Nat.le_trans h.allocated h'.allocated
  ids ref href := (h'.ids ref (Nat.lt_of_lt_of_le href h.allocated)).trans (h.ids ref href)

/-- Nothing was done. -/
theorem Does.refl (job : Nat) (m : Memory js) : m.Does job m := ⟨.refl m, fun _ _ ↦ rfl, rfl, rfl⟩

private theorem Does.trans (h : m.Does job m') (h' : m'.Does job m'') : m.Does job m'' where
  toGrows := h.toGrows.trans h'.toGrows
  hydrated job' hne := (h'.hydrated job' hne).trans (h.hydrated job' hne)
  draining := h'.draining.trans h.draining
  listening := h'.listening.trans h.listening

/-- A function may evict a room. -/
theorem evict_does (job : Nat) (m : Memory js) (roomId : String) : m.Does job (m.evict roomId) :=
  ⟨⟨Nat.le_refl _, fun _ _ ↦ rfl⟩, fun _ _ ↦ rfl, rfl, rfl⟩

/-- Eviction keeps the memory in order. -/
theorem Coherent.evict (h : m.Coherent) (roomId : String) : (m.evict roomId).Coherent where
  cached name ref hget := by
    refine h.cached name ref ?_
    change (m.activeRooms.delete roomId).get name = some ref at hget
    rw [JsMap.get_delete] at hget
    split at hget
    · cases hget
    · exact hget
  hydrated := h.hydrated

/-- What still lingers after an eviction is another room. -/
theorem lingers_evict {roomId : String} {key : String × Nat} (h : (m.evict roomId).Lingers key) :
    m.Lingers key ∧ key.1 ≠ roomId := by
  obtain ⟨hget, hstatus, hless⟩ := h
  change (m.activeRooms.delete roomId).get key.1 = some key.2 at hget
  rw [JsMap.get_delete] at hget
  split at hget
  · cases hget
  · next hne => exact ⟨⟨hget, hstatus, hless⟩, hne⟩

/-- A function may update a room that keeps its name. -/
theorem modify_does (job : Nat) (m : Memory js) (live : Nat) {f : RoomObject js → RoomObject js}
    (hid : (f (m.objects live)).id = (m.objects live).id) : m.Does job (m.modify live f) where
  allocated := Nat.le_refl _
  ids ref _ := by
    change (Function.update m.objects live (f (m.objects live)) ref).id = _
    rcases eq_or_ne ref live with rfl | hne
    · rw [Function.update_self, hid]
    · rw [Function.update_of_ne hne]
  hydrated _ _ := rfl
  draining := rfl
  listening := rfl

/-- What functions do keeps the memory in order, if the cache names rooms rightly. -/
theorem Coherent.does (h : m.Coherent) (hdoes : m.Does job m')
    (hget : ∀ roomId ref, m'.activeRooms.get roomId = some ref →
      m.activeRooms.get roomId = some ref ∨
        ref < m'.allocated ∧ (m'.objects ref).id = roomId)
    (hjob : ∀ ref, m'.hydrated job = some (some ref) → ref < m'.allocated) : m'.Coherent where
  cached roomId ref href := by
    rcases hget roomId ref href with hold | hnew
    · obtain ⟨hlt, hid⟩ := h.cached roomId ref hold
      exact ⟨Nat.lt_of_lt_of_le hlt hdoes.allocated, (hdoes.ids ref hlt).trans hid⟩
    · exact hnew
  hydrated job' ref href := by
    rcases eq_or_ne job' job with rfl | hne
    · exact hjob ref href
    · rw [hdoes.hydrated job' hne] at href
      exact Nat.lt_of_lt_of_le (h.hydrated job' ref href) hdoes.allocated

/-- An update of a room that keeps its name keeps the memory in order. -/
theorem Coherent.modify (h : m.Coherent) {live : Nat} {f : RoomObject js → RoomObject js}
    (hid : (f (m.objects live)).id = (m.objects live).id) : (m.modify live f).Coherent :=
  h.does (modify_does 0 m live hid) (fun _ _ hget ↦ Or.inl hget) fun ref href ↦ h.hydrated 0 ref href

/-- What lingers after a change of an object is another that lingered, or that object. -/
theorem lingers_modify {live : Nat} {f : RoomObject js → RoomObject js} {key : String × Nat}
    (h : (m.modify live f).Lingers key) : key.2 ≠ live ∧ m.Lingers key ∨ key.2 = live ∧
      m.activeRooms.get key.1 = some live ∧ (f (m.objects live)).status = .finished ∧
        (f (m.objects live)).socketless = true := by
  obtain ⟨hget, hstatus, hless⟩ := h
  change m.activeRooms.get key.1 = some key.2 at hget
  change (Function.update m.objects live (f (m.objects live)) key.2).status = _ at hstatus
  change (Function.update m.objects live (f (m.objects live)) key.2).socketless = _ at hless
  rcases eq_or_ne key.2 live with heq | hne
  · rw [heq, Function.update_self] at hstatus hless
    exact Or.inr ⟨heq, heq ▸ hget, hstatus, hless⟩
  · rw [Function.update_of_ne hne] at hstatus hless
    exact Or.inl ⟨hne, hget, hstatus, hless⟩

/-- A change that keeps status and sockets leaves nothing new behind. -/
theorem lingers_of_modify {live : Nat} {f : RoomObject js → RoomObject js} {key : String × Nat}
    (hf : (f (m.objects live)).status = .finished → (f (m.objects live)).socketless = true →
      (m.objects live).status = .finished ∧ (m.objects live).socketless = true)
    (h : (m.modify live f).Lingers key) : m.Lingers key := by
  obtain ⟨-, hold⟩ | ⟨heq, hget, hstatus, hless⟩ := lingers_modify h
  · exact hold
  · obtain ⟨hstatus', hless'⟩ := hf hstatus hless
    exact ⟨heq ▸ hget, heq ▸ hstatus', heq ▸ hless'⟩

/-- A function may add a room. -/
theorem add_does (job : Nat) (m : Memory js) (o : RoomObject js) : m.Does job (m.add o) where
  allocated := Nat.le_succ _
  ids ref href := by
    change (Function.update m.objects m.allocated o ref).id = _
    rw [Function.update_of_ne (Nat.ne_of_lt href)]
  hydrated _ _ := rfl
  draining := rfl
  listening := rfl

/-- The cache after a room was added. -/
theorem get_add (m : Memory js) (o : RoomObject js) (roomId : String) :
    (m.add o).activeRooms.get roomId = if roomId = o.id then some m.allocated
      else m.activeRooms.get roomId := JsMap.get_set _ _ _ _

/-- The room that was added. -/
theorem objects_add_self (m : Memory js) (o : RoomObject js) :
    (m.add o).objects m.allocated = o := Function.update_self _ _ _

/-- A new room keeps the memory in order. -/
theorem Coherent.add (h : m.Coherent) (o : RoomObject js) : (m.add o).Coherent := by
  refine h.does (add_does 0 m o) (fun roomId ref hget ↦ ?_) fun ref href ↦
    Nat.lt_succ_of_lt (h.hydrated 0 ref href)
  rw [get_add] at hget
  split at hget
  · next heq =>
    obtain rfl := Option.some.inj hget
    rw [objects_add_self]
    exact Or.inr ⟨Nat.lt_succ_self _, heq.symm⟩
  · exact Or.inl hget

/-- What lingers after an object was added is that object, or another room that lingered. -/
theorem Coherent.lingers_add (hm : m.Coherent) {o : RoomObject js} {key : String × Nat}
    (h : (m.add o).Lingers key) :
    (key = (o.id, m.allocated) ∧ o.status = .finished ∧ o.socketless = true) ∨
      m.Lingers key ∧ key.1 ≠ o.id := by
  obtain ⟨hget, hstatus, hless⟩ := h
  rw [get_add] at hget
  split at hget
  · next heq =>
    have hnew : m.allocated = key.2 := Option.some.inj hget
    rw [← hnew, objects_add_self] at hstatus hless
    exact Or.inl ⟨Prod.ext heq hnew.symm, hstatus, hless⟩
  · next hne =>
    have hold : key.2 ≠ m.allocated := Nat.ne_of_lt (hm.cached _ _ hget).1
    have hobject : (m.add o).objects key.2 = m.objects key.2 := Function.update_of_ne hold _ _
    rw [hobject] at hstatus hless
    exact Or.inr ⟨⟨hget, hstatus, hless⟩, hne⟩

end Memory

/-- The upkeep of a room is stable. -/
theorem upkeep_lawful {js : ChessJs} (c : Caller) (roomId : Option String) :
    (@upkeep js c roomId).Lawful where
  does_refl := Memory.Does.refl _
  does_trans _ _ _ := Memory.Does.trans
  later_refl m := ⟨.refl m, rfl⟩
  later_trans _ _ _ h h' := ⟨h.1.trans h'.1, h'.2.trans h.2⟩

end ChessStack.Server
