import ChessStack.Server.Serving

/-!
# How the handlers conduct themselves

Library `Server`. Each asynchronous function of `Chess-Backend/src/socket/gameSocket.js` keeps the
rules of its room whatever the others do while it waits: it asks only for what it is entitled to,
writes no room object but its own, and tells a player of no game he does not sit in.
-/

namespace ChessStack.Server

open ChessStack.Chess ChessStack.Js ChessStack.Library ChessStack.Store

section

variable {js : ChessJs}

/-! ### What functions know -/

/-- What a function does to the memory of its process: it changes no room but its own, and may
make another its own. -/
structure Memory.Writes (m m' : Memory js) (own own' : Option Nat) : Prop where
  allocated : m.allocated ≤ m'.allocated
  listening : m'.listening = m.listening
  rooms : ∀ ref < m.allocated, own ≠ some ref → (m'.objects ref).room = (m.objects ref).room
  own : own' = own ∨ ∃ ref, own' = some ref ∧ m.allocated ≤ ref ∧ ref < m'.allocated

/-- The memory of a process is in order beside the tables and the sockets of the system. -/
structure MemoryOk (w : World js) (m : Memory js) : Prop where
  coherent : m.Coherent
  objects : ∀ ref < m.allocated, ObjectOk w (m.objects ref)

/-- The function has been granted no seat. -/
def Unclaimed (log : List (Event js)) (c : Caller) : Prop :=
  ∀ gameId user, ¬ ServedWith log c (.call (.claimBlack gameId user))

/-- The function has not voted. -/
def Unvoted (log : List (Event js)) (c : Caller) : Prop :=
  ∀ command, ¬ ServedWith log c (.vote command)

/-- The event of a function came by a socket of its user. -/
def World.Sent (w : World js) (c : Caller) : Prop :=
  ∀ socket user packet newId now, c.origin = .event socket user packet newId now →
    w.SocketIs socket user

/-- What a task has before its first vote and its first claim. -/
structure Begun (w : World js) (c : Caller) : Prop where
  unclaimed : Unclaimed w.log c
  unvoted : Unvoted w.log c
  sent : w.Sent c

variable (D : Deployment) (at_ : js.Game → Position → Prop)

/-- The function keeps the rules from here on. -/
abbrev Conducts (c : Caller) (own : Option Nat) (code : RoomCode js) (w : World js) : Prop :=
  code.Keeps (World.host c) (roomRules D at_ c) own w

/-- The room of the object is as a refresh has read it from tables in order. -/
structure Read (c : Caller) (live : Nat) (w : World js) : Prop where
  placed : live < (w.memory c.process).allocated
  source : ∃ d row, DbOk js at_ D.accounts d ∧
    Live js d row ((w.memory c.process).objects live).room ∧
    row.roomId = ((w.memory c.process).objects live).room.id ∧
    Onward d w.outside.db ∧ RoomsOnward d w.outside.db ∧
    ∃ c' r a arrived before after, Event.served c' r a arrived before after ∈ w.log ∧ before.db = d

/-- A request has come back, and the function goes on. -/
structure Answered (c : Caller) (own : Option Nat) (r : Await js) (a : Answer js r)
    (w w' : World js) : Prop where
  later : Later c own w w'
  served : ∀ r' a' arrived before after, Event.served c r' a' arrived before after ∈ w'.log →
    Event.served c r' a' arrived before after ∈ w.log ∨
      r' = r ∧ (arrived = true → (⟨r', a'⟩ : (r : Await js) × Answer js r) = ⟨r, a⟩)
  source : r.failed = some a ∨ ∃ w₁ fetched o, WorldOk D at_ w₁ ∧
    AwaitPre D c r w₁.outside.db w₁.log ∧ Later c own w w₁ ∧
    w₁.outside.serve D c.process fetched r = some (a, o) ∧
    Later c own (w₁.recorded c r a true o) w'

variable {D at_} {c : Caller} {own own' : Option Nat} {w w' : World js} {r : Await js}
  {a : Answer js r} {live : Nat}

/-- Who has claimed nothing has achieved what it must. -/
theorem Unclaimed.post {log : List (Event js)} (h : Unclaimed log c) : Post c log :=
  fun gameId user _ _ _ he ↦ (h gameId user ⟨_, _, _, _, he⟩).elim

private theorem Answered.servedWith (h : Answered D at_ c own r a w w') {r' : Await js}
    (hserved : ServedWith w'.log c r') : ServedWith w.log c r' ∨ r' = r := by
  obtain ⟨a', arrived, before, after, hmem⟩ := hserved
  rcases h.served _ _ _ _ _ hmem with hold | ⟨heq, -⟩
  · exact Or.inl ⟨a', arrived, before, after, hold⟩
  · exact Or.inr heq

private theorem Answered.unclaimed (h : Answered D at_ c own r a w w') (hun : Unclaimed w.log c)
    (hr : ∀ gameId user, r ≠ .call (.claimBlack gameId user)) : Unclaimed w'.log c :=
  fun gameId user hserved ↦ (h.servedWith hserved).elim (hun gameId user) fun heq ↦
    hr gameId user heq.symm

private theorem Answered.unvoted (h : Answered D at_ c own r a w w') (hun : Unvoted w.log c)
    (hr : ∀ command, r ≠ .vote command) : Unvoted w'.log c :=
  fun command hserved ↦ (h.servedWith hserved).elim (hun command) fun heq ↦ hr command heq.symm

/-- What was sent was sent. -/
theorem World.Sent.later (h : w.Sent c) (hlater : Later c own w w') : w'.Sent c :=
  fun _ _ _ _ _ horigin ↦ hlater.sockets _ _ (h _ _ _ _ _ horigin)

private theorem Answered.begun (h : Answered D at_ c own r a w w') (hbegun : Begun w c)
    (hclaim : ∀ gameId user, r ≠ .call (.claimBlack gameId user))
    (hvote : ∀ command, r ≠ .vote command) : Begun w' c where
  unclaimed := h.unclaimed hbegun.unclaimed hclaim
  unvoted := h.unvoted hbegun.unvoted hvote
  sent := hbegun.sent.later h.later

private theorem Read.later (h : Read D at_ c live w) (hlater : Later c (some live) w w') :
    Read D at_ c live w' where
  placed := Nat.lt_of_lt_of_le h.placed hlater.allocated
  source := by
    obtain ⟨d, row, hdb, hlive, hid, hon, hrooms, c', r, a, arrived, before, after, hmem, heq⟩ :=
      h.source
    rw [hlater.own live rfl]
    exact ⟨d, row, hdb, hlive, hid, hon.trans hlater.db, hrooms.trans hlater.rooms, c', r, a,
      arrived, before, after, hlater.mem_log _ hmem, heq⟩

/-! ### The rules, step by step -/

/-- Only tables and sockets matter to a room. -/
theorem ObjectOk.congr {o : RoomObject js} (h : ObjectOk w o) (hdb : w'.outside.db = w.outside.db)
    (hsockets : w'.sockets = w.sockets) : ObjectOk w' o := by
  refine h.onward (hdb ▸ Onward.refl _) fun socket user hs ↦ ?_
  obtain ⟨connection, hconnection, huser⟩ := hs
  exact ⟨connection, by rw [hsockets]; exact hconnection, huser⟩

/-- A store that keeps the memory in order. -/
theorem WorldOk.setMemory (hw : WorldOk D at_ w) {process : Nat} {m : Memory js}
    (hm : MemoryOk w m) : WorldOk D at_ (w.setMemory process m) where
  tables := hw.tables
  coherent process' := by
    rcases eq_or_ne process' process with rfl | hne
    · rw [show (w.setMemory process' m).memory process' = m from Function.update_self _ _ _]
      exact hm.coherent
    · rw [show (w.setMemory process m).memory process' = w.memory process' from
        Function.update_of_ne hne _ _]
      exact hw.coherent process'
  objects process' ref href := by
    rcases eq_or_ne process' process with rfl | hne
    · rw [show (w.setMemory process' m).memory process' = m from Function.update_self _ _ _]
        at href ⊢
      exact (hm.objects ref href).congr rfl rfl
    · rw [show (w.setMemory process m).memory process' = w.memory process' from
        Function.update_of_ne hne _ _] at href ⊢
      exact (hw.objects process' ref href).congr rfl rfl
  users := hw.users
  votes := hw.votes
  voters := hw.voters
  log := hw.log
  past := hw.past
  granted := hw.granted
  filled := hw.filled
  told := hw.told

/-- What is told of games in which the user sits. -/
theorem WorldOk.say (hw : WorldOk D at_ w) {m : Message js} (htold : ToldOk w.outside.db c m) :
    WorldOk D at_ (w.say (.told c m)) := by
  have hserved : ∀ c' r a arrived before after, Event.served c' r a arrived before after ∈
      w.log ++ [Event.told c m] → Event.served c' r a arrived before after ∈ w.log := by
    intro c' r a arrived before after hmem
    rcases List.mem_append.mp hmem with hold | hnew
    · exact hold
    · cases List.mem_singleton.mp hnew
  have hmono : ∀ e ∈ w.log, e ∈ w.log ++ [Event.told c m] := fun e he ↦ List.mem_append_left _ he
  refine ⟨hw.tables, hw.coherent, fun process ref href ↦ (hw.objects process ref href).congr rfl rfl,
    hw.users, ?_, ?_, hw.log.snoc trivial, ?_, ?_, ?_, ?_⟩
  · funext store gameId
    change w.outside.votes store gameId = votersOf D (w.log ++ [_]) store gameId
    rw [votersOf_append, ← hw.votes]
    rfl
  · intro store gameId userId hmem
    obtain ⟨hseated, hvoted⟩ := hw.voters store gameId userId hmem
    exact ⟨hseated, hvoted.mono hmono⟩
  · exact fun c' r a arrived before after hmem ↦ hw.past _ _ _ _ _ _ (hserved _ _ _ _ _ _ hmem)
  · rintro c' gameId user ⟨row, arrived, before, after, hmem⟩
    exact hw.granted c' gameId user ⟨row, arrived, before, after, hserved _ _ _ _ _ _ hmem⟩
  · rintro gameId ⟨c', r, a, arrived, before, after, row, hmem, hrow, hfree⟩ row' hrow' hsome
    obtain ⟨c₁, user, hgranted⟩ := hw.filled gameId
      ⟨c', r, a, arrived, before, after, row, hserved _ _ _ _ _ _ hmem, hrow, hfree⟩ row' hrow' hsome
    exact ⟨c₁, user, hgranted.mono hmono⟩
  · intro c' m' hmem
    rcases List.mem_append.mp hmem with hold | hnew
    · exact hw.told c' m' hold
    · cases List.mem_singleton.mp hnew
      exact htold

/-- A function may write the memory of its process as its place in a room allows. -/
theorem Guar.setMemory {m : Memory js} (h : (w.memory c.process).Writes m own own') :
    Guar c own w own' (w.setMemory c.process m) where
  outside := rfl
  sockets := rfl
  jobs := rfl
  created := rfl
  drains := rfl
  memory process hne := Function.update_of_ne hne _ _
  log := ⟨[], (List.append_nil _).symm⟩
  allocated := by
    rw [show (w.setMemory c.process m).memory c.process = m from Function.update_self _ _ _]
    exact h.allocated
  listening := by
    rw [show (w.setMemory c.process m).memory c.process = m from Function.update_self _ _ _]
    exact h.listening
  rooms ref href hne := by
    rw [show (w.setMemory c.process m).memory c.process = m from Function.update_self _ _ _]
    exact h.rooms ref href hne
  own := by
    rw [show (w.setMemory c.process m).memory c.process = m from Function.update_self _ _ _]
    exact h.own

private theorem conducts_look {k : Memory js → RoomCode js}
    (h : Conducts D at_ c own (k (w.memory c.process)) w) : Conducts D at_ c own (.look k) w := h

private theorem conducts_store (hw : WorldOk D at_ w) {f : Memory js → Memory js} {k : RoomCode js}
    (hwrites : (w.memory c.process).Writes (f (w.memory c.process)) own own')
    (hok : MemoryOk w (f (w.memory c.process)))
    (hk : WorldOk D at_ (w.setMemory c.process (f (w.memory c.process))) →
      Conducts D at_ c own' k (w.setMemory c.process (f (w.memory c.process)))) :
    Conducts D at_ c own (.store f k) w :=
  ⟨own', Guar.setMemory hwrites, hw.setMemory hok, hk (hw.setMemory hok)⟩

private theorem conducts_tell (hw : WorldOk D at_ w) {m : Message js} {k : RoomCode js}
    (htold : ToldOk w.outside.db c m)
    (hk : WorldOk D at_ (w.say (.told c m)) → Conducts D at_ c own k (w.say (.told c m))) :
    Conducts D at_ c own (.tell m k) w := by
  refine ⟨?_, hw.say htold, hk (hw.say htold)⟩
  exact ⟨rfl, rfl, rfl, rfl, rfl, fun _ _ ↦ rfl, ⟨[m], rfl⟩, Nat.le_refl _, rfl, fun _ _ _ ↦ rfl,
    Or.inl rfl⟩

private theorem recorded_later (hjs : js.Follows at_) (hw : WorldOk D at_ w)
    (hpre : AwaitPre D c r w.outside.db w.log) {fetched : List Nat} {o : Outside} (arrived : Bool)
    (hserve : w.outside.serve D c.process fetched r = some (a, o)) :
    Later c own w (w.recorded c r a arrived o) := by
  obtain ⟨-, hon, hrooms⟩ := hw.recorded hjs hpre hserve arrived
  exact ⟨hon, hrooms, fun _ _ h ↦ h, ⟨_, rfl⟩, Nat.le_refl _, fun _ _ ↦ rfl⟩

/-- A request that the function may make, and that it goes on from. -/
theorem conducts_await (hjs : js.Follows at_) {k : Answer js r → RoomCode js}
    (hpre : AwaitPre D c r w.outside.db w.log)
    (hk : ∀ a w', WorldOk D at_ w' → Answered D at_ c own r a w w' → Conducts D at_ c own (k a) w') :
    Conducts D at_ c own (.await r k) w := by
  refine ⟨hpre, fun w₁ a w₂ w₃ hrely hw₁ hserves hrely' hw₃ ↦ hk a w₃ hw₃ ?_⟩
  have hpre₁ := hpre.stable hrely
  -- a served request of the function at its end was there before, or is this one
  have hserved : ∀ {a' : Answer js r} {arrived : Bool} {o : Outside},
      (arrived = true → (⟨r, a'⟩ : (r : Await js) × Answer js r) = ⟨r, a⟩) →
      w₂ = w₁.recorded c r a' arrived o → ∀ r' a'' arrived' before after,
      Event.served c r' a'' arrived' before after ∈ w₃.log →
        Event.served c r' a'' arrived' before after ∈ w.log ∨
          r' = r ∧ (arrived' = true → (⟨r', a''⟩ : (r : Await js) × Answer js r) = ⟨r, a⟩) := by
    rintro a' arrived o harrived rfl r' a'' arrived' before after hmem
    rcases List.mem_append.mp (hrely'.served _ _ _ _ _ hmem) with hold | hnew
    · exact Or.inl (hrely.served _ _ _ _ _ hold)
    · cases List.mem_singleton.mp hnew
      exact Or.inr ⟨rfl, harrived⟩
  cases hserves with
  | @arrives fetched o hserve =>
    exact ⟨(hrely.toLater.trans (recorded_later hjs hw₁ hpre₁ true hserve)).trans hrely'.toLater,
      hserved (fun _ ↦ rfl) rfl, Or.inr ⟨w₁, fetched, o, hw₁, hpre₁, hrely.toLater, hserve,
        hrely'.toLater⟩⟩
  | @lost a' o hserve hfailed =>
    exact ⟨(hrely.toLater.trans (recorded_later hjs hw₁ hpre₁ false hserve)).trans hrely'.toLater,
      hserved (fun h ↦ by cases h) rfl, Or.inl hfailed⟩
  | fails hfailed =>
    exact ⟨hrely.toLater.trans hrely'.toLater, fun r' a'' arrived before after hmem ↦
      Or.inl (hrely.served _ _ _ _ _ (hrely'.served _ _ _ _ _ hmem)), Or.inl hfailed⟩

/-! ### What the stores do -/

namespace Memory

variable {m : Memory js}

private theorem objects_modify_self (ref : Nat) (f : RoomObject js → RoomObject js) :
    (m.modify ref f).objects ref = f (m.objects ref) := Function.update_self _ _ _

/-- A change of the sockets of any object. -/
theorem writes_sockets {ref : Nat} {f : RoomObject js → RoomObject js}
    (hf : (f (m.objects ref)).room = (m.objects ref).room) : m.Writes (m.modify ref f) own own where
  allocated := Nat.le_refl _
  listening := rfl
  rooms ref' _ _ := by
    change (Function.update m.objects ref (f (m.objects ref)) ref').room = _
    rcases eq_or_ne ref' ref with rfl | hne
    · rw [Function.update_self, hf]
    · rw [Function.update_of_ne hne]
  own := Or.inl rfl

/-- A change of the task's own object. -/
theorem writes_own {f : RoomObject js → RoomObject js} :
    m.Writes (m.modify live f) (some live) (some live) where
  allocated := Nat.le_refl _
  listening := rfl
  rooms ref' _ hne := by
    change (Function.update m.objects live (f (m.objects live)) ref').room = _
    rw [Function.update_of_ne fun heq ↦ hne (congrArg some heq.symm)]
  own := Or.inl rfl

private theorem writes_add (o : RoomObject js) : m.Writes (m.add o) own (some m.allocated) where
  allocated := Nat.le_succ _
  listening := rfl
  rooms ref' href _ := by
    change (Function.update m.objects m.allocated o ref').room = _
    rw [Function.update_of_ne (Nat.ne_of_lt href)]
  own := Or.inr ⟨_, rfl, Nat.le_refl _, Nat.lt_succ_self _⟩

/-- Anybody may evict a room. -/
theorem writes_evict (roomId : String) : m.Writes (m.evict roomId) own own :=
  ⟨Nat.le_refl _, rfl, fun _ _ _ ↦ rfl, Or.inl rfl⟩

end Memory

/-- The memory of a process is in order. -/
theorem WorldOk.memoryOk (hw : WorldOk D at_ w) (process : Nat) : MemoryOk w (w.memory process) :=
  ⟨hw.coherent process, hw.objects process⟩

namespace MemoryOk

variable {m : Memory js}

/-- Evicting a room keeps the memory in order. -/
theorem evict (h : MemoryOk w m) (roomId : String) : MemoryOk w (m.evict roomId) :=
  ⟨h.coherent.evict roomId, h.objects⟩

/-- An update that keeps its room in order keeps the memory in order. -/
theorem modify (h : MemoryOk w m) {ref : Nat} {f : RoomObject js → RoomObject js}
    (hid : (f (m.objects ref)).id = (m.objects ref).id) (hf : ObjectOk w (f (m.objects ref))) :
    MemoryOk w (m.modify ref f) where
  coherent := h.coherent.modify hid
  objects ref' href := by
    change ObjectOk w (Function.update m.objects ref (f (m.objects ref)) ref')
    rcases eq_or_ne ref' ref with rfl | hne
    · rw [Function.update_self]
      exact hf
    · rw [Function.update_of_ne hne]
      exact h.objects ref' href

/-- A new room that is in order keeps the memory in order. -/
theorem add (h : MemoryOk w m) {o : RoomObject js} (ho : ObjectOk w o) : MemoryOk w (m.add o) where
  coherent := h.coherent.add o
  objects ref href := by
    change ObjectOk w (Function.update m.objects m.allocated o ref)
    rcases eq_or_ne ref m.allocated with rfl | hne
    · rw [Function.update_self]
      exact ho
    · rw [Function.update_of_ne hne]
      exact h.objects ref (Nat.lt_of_le_of_ne (Nat.lt_succ_iff.mp href) hne)

end MemoryOk

/-! ### What becomes of seats -/

namespace ObjectOk

variable {o : RoomObject js}

/-- Only the game and the players matter to a room. -/
theorem of_players {o' : RoomObject js} (h : ObjectOk w o) (hgame : o'.gameId = o.gameId)
    (hplayers : o'.players = o.players) : ObjectOk w o' :=
  ⟨by rw [hgame, hplayers]; exact h.seats, by rw [hplayers]; exact h.sockets⟩

/-- Sockets are taken off. -/
theorem of_held {players : List Seat} (h : ObjectOk w o)
    (hseats : ∀ seat ∈ players, ∃ seat' ∈ o.players, seat.player = seat'.player ∧
      (seat.id = seat'.id ∨ seat.id = none)) : ObjectOk w { o with players := players } where
  seats := by
    obtain ⟨row, hrow, hmem⟩ := h.seats
    refine ⟨row, hrow, fun seat hseat ↦ ?_⟩
    obtain ⟨seat', hseat', heq, -⟩ := hseats seat hseat
    exact heq ▸ hmem seat' hseat'
  sockets seat hseat socket hid := by
    obtain ⟨seat', hseat', heq, hsame | hnone⟩ := hseats seat hseat
    · obtain ⟨user, hsocket, huser⟩ := h.sockets seat' hseat' socket (hsame.symm.trans hid)
      exact ⟨user, hsocket, heq ▸ huser⟩
    · rw [hnone] at hid
      cases hid

private theorem detach (h : ObjectOk w o) (socket : Nat) : ObjectOk w (o.detach socket) := by
  refine h.of_held fun seat hseat ↦ ?_
  rcases mem_updateFirst hseat with hmem | ⟨seat', hseat', -, rfl⟩
  · exact ⟨seat, hmem, rfl, Or.inl rfl⟩
  · exact ⟨seat', hseat', rfl, Or.inr rfl⟩

private theorem detachAt (h : ObjectOk w o) (i : Nat) : ObjectOk w (o.detachAt i) := by
  refine h.of_held fun seat hseat ↦ ?_
  obtain ⟨j, hj⟩ := List.mem_iff_getElem?.mp hseat
  rw [List.getElem?_modify] at hj
  obtain ⟨seat', hseat', rfl⟩ := Option.map_eq_some_iff.mp hj
  refine ⟨seat', List.mem_of_getElem? hseat', ?_⟩
  split
  · exact ⟨rfl, Or.inr rfl⟩
  · exact ⟨rfl, Or.inl rfl⟩

/-- The user takes a seat that is his with a socket of his. -/
theorem reattach (h : ObjectOk w o) {user : SocketUser} {socket : Nat}
    (hsocket : w.SocketIs socket user) : ObjectOk w (o.reattach user.id socket) where
  seats := by
    obtain ⟨row, hrow, hmem⟩ := h.seats
    refine ⟨row, hrow, fun seat hseat ↦ ?_⟩
    rcases mem_updateFirst hseat with hold | ⟨seat', hseat', -, rfl⟩
    · exact hmem seat hold
    · exact hmem seat' hseat'
  sockets seat hseat socket' hid := by
    rcases mem_updateFirst hseat with hold | ⟨seat', -, hfree, rfl⟩
    · exact h.sockets seat hold socket' hid
    · obtain rfl := Option.some.inj hid
      rw [Seat.freeOf, Bool.and_eq_true, beq_iff_eq] at hfree
      exact ⟨user, hsocket, hfree.1⟩

/-- What a refresh makes of a room from tables. -/
theorem rebuilt (h : ObjectOk w o) {roomId : String} {built : Room js} {row : GameRow}
    (hrow : w.outside.db.game? built.gameId = some row)
    (hplayers : ∀ player ∈ built.players, player ∈ playersOf row) :
    ObjectOk w (o.rebuilt roomId built) where
  seats := by
    refine ⟨row, hrow, fun seat hseat ↦ ?_⟩
    obtain ⟨player, hplayer, rfl⟩ := List.mem_map.mp hseat
    exact hplayers player hplayer
  sockets seat hseat socket hid := by
    obtain ⟨player, -, rfl⟩ := List.mem_map.mp hseat
    obtain ⟨seat', hfound, hid'⟩ := Option.bind_eq_some_iff.mp hid
    obtain ⟨user, hsocket, huser⟩ := h.sockets seat' (List.mem_reverse.mp
      (List.mem_of_find?_eq_some hfound)) socket hid'
    have hsame := List.find?_some hfound
    exact ⟨user, hsocket, (beq_iff_eq.mp hsame).symm.trans huser⟩

end ObjectOk

/-! ### Reading a room -/

/-- Tables in order have no corrupt game. -/
theorem snapshot_read (hjs : js.Follows at_) {d : Db} (h : DbOk js at_ D.accounts d)
    {roomId : String} {snapshot : GameSnapshot} (hsnap : findRoomSnapshot d roomId = some snapshot) :
    ∃ built row, buildRoomFromSnapshot js snapshot = some built ∧ Live js d row built ∧
      built.id = some roomId ∧ row.roomId = some roomId := by
  obtain ⟨row, hrow, heq⟩ := Option.map_eq_some_iff.mp hsnap
  have hfits := List.find?_some hrow
  rw [Bool.and_eq_true, beq_iff_eq] at hfits
  have hfound := Db.game?_of_mem (List.mem_of_find?_eq_some hrow)
  have hok := h.rows _ _ hfound
  obtain ⟨p, hlegal⟩ := hok.legal
  obtain ⟨g, hload, -⟩ := hlegal.load_last hjs
  have hbuilt : ∃ built, buildRoomFromSnapshot js snapshot = some built ∧ built.id = row.roomId ∧
      built.gameId = row.id := by
    rw [← heq]
    simp only [buildRoomFromSnapshot, checkpoint, hok.board, if_neg hlegal.lastFen_ne, hload]
    exact ⟨_, rfl, rfl, rfl⟩
  obtain ⟨built, hbuilt, hid, hgame⟩ := hbuilt
  obtain ⟨row', hlive⟩ := live_of_snapshot h hsnap hbuilt
  have hsame := hlive.found
  rw [hgame, hfound] at hsame
  obtain rfl := Option.some.inj hsame
  exact ⟨built, row, hbuilt, hlive, hid.trans hfits.1, hfits.1⟩

private theorem rebuilt_room (o : RoomObject js) {roomId : String} {built : Room js}
    (hid : built.id = some roomId) : (o.rebuilt roomId built).room = built := by
  obtain ⟨id, gameId, players, chess, status, moves, createdAt⟩ := built
  obtain rfl : id = some roomId := hid
  have hplayers : (players.map fun player ↦
      (⟨player, o.socketOf player.userId⟩ : Seat)).map Seat.player = players := by
    rw [List.map_map]
    exact List.map_id' players
  change Room.mk _ _ ((players.map fun player ↦
      (⟨player, o.socketOf player.userId⟩ : Seat)).map Seat.player) _ _ _ _ = _
  rw [hplayers]
  rfl

private theorem Later.setMemory {m : Memory js} (h : (w.memory c.process).allocated ≤ m.allocated) :
    Later c none w (w.setMemory c.process m) where
  db := Onward.refl _
  rooms := RoomsOnward.refl _
  sockets _ _ hs := hs
  log := ⟨[], (List.append_nil _).symm⟩
  allocated := by
    rw [show (w.setMemory c.process m).memory c.process = m from Function.update_self _ _ _]
    exact h
  own _ h := by cases h

private theorem conducts_tick (hjs : js.Follows at_) {k : RoomCode js}
    (hk : ∀ w', WorldOk D at_ w' → Answered D at_ c own .tick () w w' → Conducts D at_ c own k w') :
    Conducts D at_ c own (tick k) w :=
  conducts_await hjs trivial fun _ w' hw' h ↦ hk w' hw' h

/-- A function that has begun has begun. -/
theorem Begun.setMemory (h : Begun w c) (process : Nat) (m : Memory js) :
    Begun (w.setMemory process m) c :=
  ⟨h.unclaimed, h.unvoted, h.sent⟩

private theorem Answered.begun_tick (h : Answered D at_ c own .tick () w w') (hbegun : Begun w c) :
    Begun w' c :=
  h.begun hbegun (fun _ _ h ↦ by cases h) fun _ h ↦ by cases h

/-- What a refresh leaves the rest of its task. -/
theorem refresh_conducts (hjs : js.Follows at_) (hbegun : Begun w c) {room : Nat}
    (hplaced : room < (w.memory c.process).allocated) {next : Option Nat → RoomCode js}
    (hnone : ∀ w', WorldOk D at_ w' → Begun w' c → Later c none w w' →
      Conducts D at_ c none (next none) w')
    (hlive : ∀ live w', WorldOk D at_ w' → Begun w' c → Read D at_ c live w' →
      Conducts D at_ c (some live) (next (some live)) w') :
    Conducts D at_ c none (refreshRoomFromDb room next) w := by
  rw [refreshRoomFromDb_eq]
  have hgone : ∀ w₁, WorldOk D at_ w₁ → Begun w₁ c → Later c none w w₁ →
      Conducts D at_ c none (tick (next none)) w₁ := fun w₁ hw₁ hbegun₁ hlater₁ ↦
    conducts_tick hjs fun w' hw' h ↦ hnone w' hw' (h.begun_tick hbegun₁) (hlater₁.trans h.later)
  refine conducts_await hjs trivial fun a w₁ hw₁ h ↦ ?_
  have hbegun₁ := h.begun hbegun (fun _ _ h ↦ by cases h) (fun _ h ↦ by cases h)
  rcases h.source with hfailed | ⟨w₀, fetched, o, hw₀, -, hlater₀, hserve, hlater⟩
  · obtain rfl := Option.some.inj hfailed
    exact hgone w₁ hw₁ hbegun₁ h.later
  obtain ⟨rfl, rfl⟩ := Prod.mk.inj (Option.some.inj hserve)
  unfold afterSnapshot
  dsimp only
  split
  · exact conducts_store hw₁ (Memory.writes_evict _) ((hw₁.memoryOk _).evict _) fun hw' ↦
      hgone _ hw' (hbegun₁.setMemory _ _) (h.later.trans (Later.setMemory (Nat.le_refl _)))
  · next snapshot hfilter =>
    have hsnap := (Option.filter_eq_some_iff.mp hfilter).1
    obtain ⟨built, row, hbuilt, hrow, hid, hroom⟩ := snapshot_read hjs hw₀.tables.rows hsnap
    rw [hbuilt]
    dsimp only
    obtain ⟨row', hrow', hon⟩ := hlater.db _ _ hrow.found
    have hcurrent : ObjectOk w₁ ((w₁.memory c.process).current
        ((w.memory c.process).objects room).id room) := by
      unfold Memory.current
      refine hw₁.objects c.process _ ?_
      cases hget : (w₁.memory c.process).activeRooms.get ((w.memory c.process).objects room).id with
      | none => exact Nat.lt_of_lt_of_le hplaced h.later.allocated
      | some ref => exact ((hw₁.coherent c.process).cached _ _ hget).1
    have hobject : ObjectOk w₁ (((w₁.memory c.process).current
        ((w.memory c.process).objects room).id room).rebuilt
          ((w.memory c.process).objects room).id built) :=
      hcurrent.rebuilt hrow' fun player hplayer ↦ by
        rw [hrow.players] at hplayer
        exact playersOf_subset hon hplayer
    refine conducts_look ?_
    refine conducts_store hw₁ (Memory.writes_add _) ((hw₁.memoryOk _).add hobject) fun hw₂ ↦ ?_
    refine conducts_tick hjs fun w' hw' h' ↦ ?_
    refine hlive _ w' hw' (h'.begun_tick (hbegun₁.setMemory _ _)) (Read.later ⟨?_, ?_⟩ h'.later)
    · rw [show (World.memory (w₁.setMemory _ _) c.process) = _ from Function.update_self _ _ _]
      exact Nat.lt_succ_self _
    · rw [show (World.memory (w₁.setMemory _ _) c.process) = _ from Function.update_self _ _ _,
        Memory.objects_add_self, rebuilt_room _ hid]
      exact ⟨_, row, hw₀.tables.rows, hrow, hroom.trans hid.symm, hlater.db, hlater.rooms, c, _, _,
        true, _, _, hlater.mem_log _ (List.mem_append_right _ (List.mem_singleton_self _)), rfl⟩

/-! ### What is told, and how a task ends -/

private theorem Message.JoinsBlack.joins {m : Message js} {gameId : Nat} {user : SocketUser}
    (h : m.JoinsBlack gameId user) : m.Joins gameId := by
  cases m with
  | gameStart room => exact h.1
  | roomRejoined socket room color => exact h.1
  | _ => exact h.elim

/-- A message that names no seat needs no justification. -/
theorem toldOk_of_silent {d : Db} {m : Message js} (h : ∀ gameId, ¬ m.Joins gameId) :
    ToldOk d c m := fun _ _ _ _ _ _ gameId ↦
  ⟨fun hjoins ↦ (h gameId hjoins).elim, fun hblack ↦ (h gameId hblack.joins).elim⟩

private theorem toldOk_of_origin {d : Db} {m : Message js} (h : c.origin.isJoin = false) :
    ToldOk d c m := by
  intro socket user roomId newId now horigin
  rw [horigin] at h
  cases h

private theorem servedWith_told {log : List (Event js)} {m : Message js}
    (h : ServedWith (log ++ [.told c m]) c r) : ServedWith log c r := by
  obtain ⟨a, arrived, before, after, hmem⟩ := h
  rcases List.mem_append.mp hmem with hold | hnew
  · exact ⟨a, arrived, before, after, hold⟩
  · cases List.mem_singleton.mp hnew

private theorem Unclaimed.say {log : List (Event js)} (h : Unclaimed log c) (m : Message js) :
    Unclaimed (log ++ [.told c m]) c := fun gameId user hserved ↦ h gameId user (servedWith_told hserved)

/-- A function that is over. -/
theorem conducts_done (h : Unclaimed w.log c) : Conducts D at_ c own .done w := h.post

private theorem conducts_throw (h : Unclaimed w.log c) (text : String) :
    Conducts D at_ c own (.throw text) w := h.post

/-- A last word that is about no game. -/
theorem conducts_last (hw : WorldOk D at_ w) (h : Unclaimed w.log c) {m : Message js}
    (hsilent : ∀ gameId, ¬ m.Joins gameId) : Conducts D at_ c own (.tell m .done) w :=
  conducts_tell hw (toldOk_of_silent hsilent) fun _ ↦ conducts_done (h.say m)

/-! ### Seats and users -/

private theorem World.SocketIs.unique {socket : Nat} {user user' : SocketUser}
    (h : w.SocketIs socket user)
    (h' : w.SocketIs socket user') : user = user' := by
  obtain ⟨connection, hconnection, rfl⟩ := h
  obtain ⟨connection', hconnection', rfl⟩ := h'
  rw [hconnection] at hconnection'
  rw [Option.some.inj hconnection']

/-- The user of a seat that holds a socket is the socket's. -/
theorem ObjectOk.userId {o : RoomObject js} (h : ObjectOk w o) {socket : Nat} {user : SocketUser}
    (hsocket : w.SocketIs socket user) {seat : Seat} (hseat : seat ∈ o.players)
    (hid : seat.id = some socket) : seat.player.userId = some user.id := by
  obtain ⟨user', hsocket', huser⟩ := h.sockets seat hseat socket hid
  rw [hsocket.unique hsocket']
  exact huser

private theorem seatedIn_of_player {d : Db} {gameId userId : Nat} {row : GameRow} {player : Player}
    (hrow : d.game? gameId = some row) (hplayer : player ∈ playersOf row)
    (huser : player.userId = some userId) : SeatedIn d gameId userId := by
  refine ⟨row, hrow, ?_⟩
  unfold playersOf at hplayer
  rcases List.mem_cons.mp hplayer with rfl | hplayer
  · exact Or.inl huser
  · split at hplayer
    · next name hname =>
      split at hplayer
      · cases hplayer
      · obtain rfl := List.mem_singleton.mp hplayer
        exact Or.inr ⟨huser, by rw [hname]; rfl⟩
    · cases hplayer

private theorem ObjectOk.seatedIn {o : RoomObject js} (h : ObjectOk w o) {userId : Nat}
    {seat : Seat}
    (hseat : seat ∈ o.players) (huser : seat.player.userId = some userId) :
    SeatedIn w.outside.db o.gameId userId := by
  obtain ⟨row, hrow, hmem⟩ := h.seats
  exact seatedIn_of_player hrow (hmem seat hseat) huser

private theorem WorldOk.account (hw : WorldOk D at_ w) (hsent : w.Sent c) {socket : Nat}
    {user : SocketUser}
    {packet : Packet} {newId now : Nat} (horigin : c.origin = .event socket user packet newId now) :
    user ∈ D.accounts := hw.users _ _ (hsent _ _ _ _ _ horigin)

/-! ### Calls -/

/-- The caller of a request that is a call of another kind has claimed nothing. -/
theorem Answered.unclaimed_call {call : Call js} {a : Answer js (.call call)}
    (h : Answered D at_ c own (.call call) a w w') (hun : Unclaimed w.log c)
    (hcall : ∀ gameId user, call ≠ .claimBlack gameId user) : Unclaimed w'.log c :=
  h.unclaimed hun fun gameId user heq ↦ hcall gameId user (by injection heq)

/-- A call that has come back with its value has committed. -/
theorem Answered.committed {call : Call js} {value : Result js call}
    (h : Answered D at_ c own (.call call) (some value) w w') :
    ∃ w₁ d, WorldOk D at_ w₁ ∧ CallPre js D c call w₁.outside.db w₁.log ∧ Later c own w w₁ ∧
      backend.run (prog js D.computeNewRatings call) w₁.outside.db = some (value, d) ∧
      Onward d w'.outside.db ∧ RoomsOnward d w'.outside.db := by
  rcases h.source with hfailed | ⟨w₁, fetched, o, hw₁, hpre, hlater, hserve, hlater'⟩
  · cases hfailed
  · obtain ⟨⟨value', d⟩, hrun, heq⟩ := Option.map_eq_some_iff.mp hserve
    obtain ⟨hvalue, rfl⟩ := Prod.mk.inj heq
    obtain rfl := Option.some.inj hvalue
    exact ⟨w₁, d, hw₁, hpre, hlater, hrun, hlater'.db, hlater'.rooms⟩

/-! ### create_room -/

/-- `create_room` keeps the rules. -/
theorem createRoom_conducts (hjs : js.Follows at_) (hw : WorldOk D at_ w) (hbegun : Begun w c)
    {roomId : String} {socket newId now : Nat} {user : SocketUser}
    (horigin : c.origin = .event socket user (.createRoom roomId) newId now) :
    Conducts D at_ c none (createRoomCode roomId socket user newId now) w := by
  unfold createRoomCode
  refine conducts_await hjs ⟨hw.account hbegun.sent horigin, trivial, ⟨_, _, _, _, horigin⟩,
    fun _ _ h ↦ by (cases h), fun _ _ _ _ _ _ h ↦ by (cases h)⟩ fun a w' hw' h ↦ ?_
  have hun := h.unclaimed_call hbegun.unclaimed fun _ _ h ↦ by cases h
  cases a with
  | none => exact conducts_throw hun _
  | some game =>
    dsimp only
    cases hload : js.loadOr game.boardFen with
    | none => exact conducts_throw hun _
    | some chess =>
      dsimp only
      obtain ⟨w₁, d, -, -, -, hrun, hon, -⟩ := h.committed
      obtain ⟨-, -, rfl, rfl⟩ := create_run hrun
      obtain ⟨row', hrow', honward⟩ := hon _ _ (by rw [game?_putGame, if_pos rfl])
      have hobject : ObjectOk w' (.created roomId newId chess socket user now) := by
        refine ⟨⟨row', hrow', fun seat hseat ↦ ?_⟩, fun seat hseat socket' hid ↦ ?_⟩
        · obtain rfl := List.mem_singleton.mp hseat
          unfold playersOf
          rw [honward.white.1, honward.white.2]
          exact List.mem_cons_self
        · obtain rfl := List.mem_singleton.mp hseat
          obtain rfl := Option.some.inj hid
          exact ⟨user, hbegun.sent.later h.later _ _ _ _ _ horigin, rfl⟩
      exact conducts_store hw' (Memory.writes_add _) ((hw'.memoryOk _).add hobject) fun hw'' ↦
        conducts_last hw'' hun fun _ h ↦ h

/-! ### join_room -/

/-- The user of a join sits in the game of its object, and a seat it was granted is Black's
there. -/
structure Joined (c : Caller) (live : Nat) (user : SocketUser) (w : World js) : Prop where
  placed : live < (w.memory c.process).allocated
  sent : w.Sent c
  seated : SeatedIn w.outside.db ((w.memory c.process).objects live).room.gameId user.id
  claimed : ∀ gameId user' row before after,
    Event.served c (.call (.claimBlack gameId user')) (some (some row)) true before after ∈ w.log →
      gameId = ((w.memory c.process).objects live).room.gameId ∧ user' = user ∧
        ((w.memory c.process).objects live).room.status = .playing ∧
        user.player .b ∈ ((w.memory c.process).objects live).room.players

private theorem Joined.answered {user : SocketUser} (h : Joined c live user w)
    (ha : Answered D at_ c (some live) r a w w')
    (hr : ∀ gameId user, r ≠ .call (.claimBlack gameId user)) : Joined c live user w' where
  placed := Nat.lt_of_lt_of_le h.placed ha.later.allocated
  sent := h.sent.later ha.later
  seated := by
    rw [ha.later.own live rfl]
    exact h.seated.onward ha.later.db
  claimed gameId user' row before after hmem := by
    rw [ha.later.own live rfl]
    rcases ha.served _ _ _ _ _ hmem with hold | ⟨heq, -⟩
    · exact h.claimed gameId user' row before after hold
    · exact (hr gameId user' heq.symm).elim

private theorem RowOk.color_of_user {d : Db} {row : GameRow} (hok : RowOk js at_ D.accounts d row)
    {player : Player} {user : SocketUser} (hplayer : player ∈ playersOf row)
    (hblack : user.player .b ∈ playersOf row) (hid : player.userId = some user.id) :
    player.color = .b := by
  have hsome : row.blackUsername.isSome := by
    unfold playersOf at hblack
    rcases List.mem_cons.mp hblack with heq | hmem
    · cases (congrArg Player.color heq : Color.b = Color.w)
    · split at hmem
      · next name hname =>
        rw [hname]
        rfl
      · cases hmem
  obtain ⟨white, -, black, -, hseats⟩ := hok.seats hsome
  rw [hseats.players, List.mem_cons, List.mem_singleton] at hplayer hblack
  rcases hplayer with rfl | rfl
  · rcases hblack with heq | heq
    · cases (congrArg Player.color heq : Color.b = Color.w)
    · have hwhite : white.id = user.id := Option.some.inj hid
      have hsame : user.id = black.id := Option.some.inj (congrArg Player.userId heq)
      exact (hseats.distinct (hwhite.trans hsame)).elim
  · rfl

/-- A room object has the user for Black only where it plays Black. -/
theorem ObjectOk.playsBlack {o : RoomObject js} (h : ObjectOk w o) {user : SocketUser}
    (hmem : user.player .b ∈ o.room.players) : PlaysBlack w.outside.db o.gameId user.id := by
  obtain ⟨row, hrow, hseats⟩ := h.seats
  obtain ⟨seat, hseat, hplayer⟩ := List.mem_map.mp hmem
  have hblack := hseats seat hseat
  rw [hplayer] at hblack
  refine ⟨row, hrow, ?_⟩
  unfold playersOf at hblack
  rcases List.mem_cons.mp hblack with heq | hblack
  · cases (congrArg Player.color heq : Color.b = Color.w)
  · split at hblack
    · next name hname =>
      split at hblack
      · cases hblack
      · have heq := List.mem_singleton.mp hblack
        exact ⟨(congrArg Player.userId heq).symm, by rw [hname]; rfl⟩
    · cases hblack

/-- A last word to a user that has joined, about the game it has joined. -/
theorem Joined.last {user : SocketUser} {socket newId now : Nat} {roomId : String}
    (h : Joined c live user w) (hw : WorldOk D at_ w)
    (horigin : c.origin = .event socket user (.joinRoom roomId) newId now) {m : Message js}
    (hgame : ∀ gameId, m.Joins gameId → gameId = ((w.memory c.process).objects live).room.gameId)
    (hmine : ∀ gameId, m.JoinsBlack gameId user →
      user.player .b ∈ ((w.memory c.process).objects live).room.players)
    (hblack : ((w.memory c.process).objects live).room.status = .playing →
      user.player .b ∈ ((w.memory c.process).objects live).room.players →
      m.JoinsBlack ((w.memory c.process).objects live).room.gameId user) :
    Conducts D at_ c (some live) (.tell m .done) w := by
  refine conducts_tell hw ?_ fun _ ↦ ?_
  · intro socket' user' roomId' newId' now' horigin' gameId
    rw [horigin] at horigin'
    cases horigin'
    refine ⟨fun hjoins ↦ ?_, fun hjoins ↦ ?_⟩
    · rw [hgame gameId hjoins]
      exact h.seated
    · rw [hgame gameId hjoins.joins]
      exact (hw.objects c.process live h.placed).playsBlack (hmine gameId hjoins)
  · intro gameId user' row before after hmem
    rcases List.mem_append.mp hmem with hold | hnew
    · obtain ⟨rfl, rfl, hplaying, hmem'⟩ := h.claimed _ _ _ _ _ hold
      exact ⟨m, List.mem_append_right _ (List.mem_singleton_self _), hblack hplaying hmem'⟩
    · cases List.mem_singleton.mp hnew

private theorem welcome_conducts (hjs : js.Follows at_) (hw : WorldOk D at_ w) {user : SocketUser}
    {socket newId now : Nat} {roomId : String} (h : Joined c live user w)
    (horigin : c.origin = .event socket user (.joinRoom roomId) newId now) :
    Conducts D at_ c (some live) (welcome live socket) w := by
  unfold welcome
  refine conducts_look ?_
  split
  · next hfinished =>
    refine h.last hw horigin (fun gameId hjoins ↦ hjoins.symm) (fun _ h ↦ h.elim)
      fun hplaying _ ↦ ?_
    rw [show ((w.memory c.process).objects live).room.status = RoomStatus.finished from hfinished]
      at hplaying
    cases hplaying
  · refine conducts_await hjs trivial fun fetched w' hw' ha ↦ conducts_look ?_
    have h' := h.answered ha fun _ _ heq ↦ by cases heq
    split
    · exact h'.last hw' horigin (fun gameId hjoins ↦ hjoins.symm) (fun _ h ↦ h.2) fun _ hmem ↦
        ⟨rfl, hmem⟩
    · refine h'.last hw' horigin (fun gameId hjoins ↦ hjoins.symm) (fun _ h ↦ h.2.1) fun _ hmem ↦
        ⟨rfl, hmem, ?_⟩
      cases hfound : ((w'.memory c.process).objects live).players.find? (·.id == some socket) with
      | none => rfl
      | some seat =>
        have hobject := hw'.objects c.process live h'.placed
        have hseat := List.mem_of_find?_eq_some hfound
        obtain ⟨row, hrow, hseats⟩ := hobject.seats
        have hid := List.find?_some hfound
        obtain ⟨black, hblack, hplayer⟩ := List.mem_map.mp hmem
        exact (hw'.tables.rows.rows _ _ hrow).color_of_user (hseats seat hseat)
          (hplayer ▸ hseats black hblack)
          (hobject.userId (h'.sent _ _ _ _ _ horigin) hseat (beq_iff_eq.mp hid))

private theorem reattach_room (o : RoomObject js) (userId socket : Nat) :
    (o.reattach userId socket).room = o.room := by
  have hplayers := map_updateFirst (·.freeOf userId) (·.hold (some socket)) Seat.player
    (fun _ ↦ rfl) o.players
  change Room.mk _ _ ((updateFirst _ _ o.players).map Seat.player) _ _ _ _ = _
  rw [hplayers]
  rfl

private theorem detach_room (o : RoomObject js) (socket : Nat) :
    (o.detach socket).room = o.room := by
  have hplayers := map_updateFirst (·.id == some socket) (·.hold none) Seat.player
    (fun _ ↦ rfl) o.players
  change Room.mk _ _ ((updateFirst _ _ o.players).map Seat.player) _ _ _ _ = _
  rw [hplayers]
  rfl

/-- A room read when its black seat was free. -/
theorem Read.vacant (h : Read D at_ c live w)
    (hfew : ((w.memory c.process).objects live).room.players.length < 2) :
    SawVacant w.log ((w.memory c.process).objects live).room.gameId := by
  obtain ⟨d, row, hdb, hlive, -, -, -, c', r, a, arrived, before, after, hmem, rfl⟩ := h.source
  refine ⟨c', r, a, arrived, before, after, row, hmem, hlive.found, ?_⟩
  cases hname : row.blackUsername with
  | none => rfl
  | some name =>
    obtain ⟨white, -, black, -, hseats⟩ := (hdb.rows _ _ hlive.found).seats (by rw [hname]; rfl)
    rw [hlive.players, hseats.players] at hfew
    exact absurd hfew (Nat.lt_irrefl 2)

/-- The seat a claim was granted, in the object. -/
theorem ObjectOk.seatBlack {o : RoomObject js} (h : ObjectOk w o) {user : SocketUser} {socket : Nat}
    {row : GameRow} (hrow : w.outside.db.game? o.gameId = some row)
    (hid : row.blackUserId = some user.id) (hname : row.blackUsername = some user.username)
    (hsocket : w.SocketIs socket user) : ObjectOk w (o.seatBlack socket user) where
  seats := by
    obtain ⟨row', hrow', hseats⟩ := h.seats
    obtain rfl := Option.some.inj (hrow.symm.trans hrow')
    refine ⟨row, hrow, fun seat hseat ↦ ?_⟩
    rcases List.mem_append.mp hseat with hold | hnew
    · exact hseats seat hold
    · obtain rfl := List.mem_singleton.mp hnew
      unfold playersOf
      rw [hname, hid]
      dsimp only
      rw [if_neg user.named]
      exact List.mem_cons_of_mem _ (List.mem_singleton_self _)
  sockets seat hseat socket' hid' := by
    rcases List.mem_append.mp hseat with hold | hnew
    · exact h.sockets seat hold socket' hid'
    · obtain rfl := List.mem_singleton.mp hnew
      obtain rfl := Option.some.inj hid'
      exact ⟨user, hsocket, rfl⟩

/-- A user without a seat in the room a refresh has read is not White. -/
theorem Read.notWhite (h : Read D at_ c live w) {userId : Nat}
    (hother : ∀ player ∈ ((w.memory c.process).objects live).room.players,
      player.userId ≠ some userId) :
    ∃ row, w.outside.db.game? ((w.memory c.process).objects live).room.gameId = some row ∧
      row.whiteUserId ≠ some userId := by
  obtain ⟨d, row, -, hlive, -, hon, -⟩ := h.source
  obtain ⟨row', hrow', honward⟩ := hon _ _ hlive.found
  refine ⟨row', hrow', ?_⟩
  rw [honward.white.1]
  refine hother ⟨row.whiteUsername, .w, row.whiteUserId⟩ ?_
  rw [hlive.players]
  exact List.mem_cons_self

private theorem Begun.joined (h : Begun w c) (hplaced : live < (w.memory c.process).allocated)
    {user : SocketUser}
    (hseated : SeatedIn w.outside.db ((w.memory c.process).objects live).room.gameId user.id) :
    Joined c live user w :=
  ⟨hplaced, h.sent, hseated, fun gameId user' _ _ _ hmem ↦
    (h.unclaimed gameId user' ⟨_, _, _, _, hmem⟩).elim⟩

/-- A store that leaves the facts of a join as they are. -/
theorem Joined.setMemory {user : SocketUser} {m : Memory js} (h : Joined c live user w)
    (hplaced : live < m.allocated)
    (hroom : (m.objects live).room = ((w.memory c.process).objects live).room) :
    Joined c live user (w.setMemory c.process m) := by
  have hm : (w.setMemory c.process m).memory c.process = m := Function.update_self _ _ _
  refine ⟨by rw [hm]; exact hplaced, h.sent, ?_, ?_⟩
  · rw [hm, hroom]
    exact h.seated
  · rw [hm, hroom]
    exact h.claimed

/-- The task of `join_room` keeps the rules. -/
theorem joinTask_conducts (hjs : js.Follows at_) (hbegun : Begun w c)
    {roomId : String} {socket newId now room : Nat} {user : SocketUser}
    (horigin : c.origin = .event socket user (.joinRoom roomId) newId now)
    (hplaced : room < (w.memory c.process).allocated) :
    Conducts D at_ c none (joinTask socket user room) w := by
  refine refresh_conducts hjs hbegun hplaced
    (fun w' hw' hbegun' _ ↦ conducts_last hw' hbegun'.unclaimed fun _ h ↦ h)
    fun live w' hw' hbegun' hread ↦ conducts_look ?_
  have hobject := hw'.objects c.process live hread.placed
  split
  · next hfree =>
    obtain ⟨seat, hseat, hfree⟩ := List.any_eq_true.mp hfree
    rw [Seat.freeOf, Bool.and_eq_true, beq_iff_eq] at hfree
    have hjoined := hbegun'.joined hread.placed (hobject.seatedIn hseat hfree.1)
    refine conducts_store hw' (Memory.writes_sockets (reattach_room _ _ _))
      ((hw'.memoryOk _).modify rfl (hobject.reattach (hbegun'.sent _ _ _ _ _ horigin))) fun hw'' ↦ ?_
    refine welcome_conducts hjs hw'' (hjoined.setMemory hread.placed ?_) horigin
    rw [Memory.objects_modify_self, reattach_room]
  · split
    · exact conducts_throw hbegun'.unclaimed _
    · next hother =>
      split
      · exact conducts_throw hbegun'.unclaimed _
      · next hopen =>
        rw [not_or, not_le] at hopen
        have hnobody : ∀ player ∈ ((w'.memory c.process).objects live).room.players,
            player.userId ≠ some user.id := by
          intro player hplayer heq
          obtain ⟨seat, hseat, rfl⟩ := List.mem_map.mp hplayer
          exact hother (List.any_eq_true.mpr ⟨seat, hseat, beq_iff_eq.mpr heq⟩)
        have hfew : ((w'.memory c.process).objects live).room.players.length < 2 := by
          change (List.map _ _).length < 2
          rw [List.length_map]
          exact hopen.1
        have hvacant := hread.vacant hfew
        refine conducts_await hjs ⟨⟨hw'.account hbegun'.sent horigin, hread.notWhite hnobody⟩,
          trivial, ⟨_, _, _, _, horigin⟩, fun gameId user' heq ↦ ?_,
          fun _ _ _ _ _ _ h ↦ by (cases h)⟩ fun a w'' hw'' ha ↦ ?_
        · injection heq with hgame huser
          exact hgame ▸ hvacant
        · -- the seat of a claim whose reply has come
          have hclaims : ∀ gameId user' row before after,
              Event.served c (.call (.claimBlack gameId user')) (some (some row)) true before after ∈
                w''.log → gameId = ((w'.memory c.process).objects live).gameId ∧ user' = user ∧
                  a = some (some row) := by
            intro gameId user' row before after hmem
            rcases ha.served _ _ _ _ _ hmem with hold | ⟨-, hsame⟩
            · exact (hbegun'.unclaimed gameId user' ⟨_, _, _, _, hold⟩).elim
            · cases hsame rfl
              exact ⟨rfl, rfl, rfl⟩
          have hrefused : ∀ text, (∀ row, a ≠ some (some row)) →
              Conducts D at_ c (some live) (.throw text) w'' := by
            intro text hno gameId user' row before after hmem
            exact (hno row (hclaims _ _ _ _ _ hmem).2.2).elim
          rcases a with - | - | granted
          · exact hrefused _ fun _ h ↦ by cases h
          · exact hrefused _ fun _ h ↦ by cases h
          · obtain ⟨w₁, d, -, -, -, hrun, hon, -⟩ := ha.committed
            obtain ⟨hnone, -⟩ | ⟨row, hrow, -, -, -, rfl⟩ := claimBlack_run hrun
            · cases hnone
            obtain ⟨row', hrow', honward⟩ := hon ((w'.memory c.process).objects live).gameId _ (by
              rw [game?_putGame, if_pos (Db.id_of_game? hrow).symm])
            obtain ⟨hid, hname⟩ := honward.black rfl
            have hplaced'' : live < (w''.memory c.process).allocated :=
              Nat.lt_of_lt_of_le hread.placed ha.later.allocated
            have hroom := ha.later.own live rfl
            have hgame : ((w''.memory c.process).objects live).gameId =
                ((w'.memory c.process).objects live).gameId := congrArg Room.gameId hroom
            have hsocket : w''.SocketIs socket user :=
              hbegun'.sent.later ha.later _ _ _ _ _ horigin
            have hobject'' := (hw''.objects c.process live hplaced'').seatBlack (hgame ▸ hrow') hid
              hname hsocket
            refine conducts_store hw'' Memory.writes_own ((hw''.memoryOk _).modify rfl hobject'')
              fun hw₃ ↦ welcome_conducts hjs hw₃ ?_ horigin
            have hm : (w''.setMemory c.process ((w''.memory c.process).modify live
                (·.seatBlack socket user))).memory c.process = (w''.memory c.process).modify live
                  (·.seatBlack socket user) := Function.update_self _ _ _
            have hself : ((w''.memory c.process).modify live (·.seatBlack socket user)).objects live =
                ((w''.memory c.process).objects live).seatBlack socket user :=
              Memory.objects_modify_self _ _
            have hmine : user.player .b ∈ (((w''.memory c.process).objects live).seatBlack socket
                user).room.players :=
              List.mem_map.mpr ⟨_, List.mem_append_right _ (List.mem_singleton_self _), rfl⟩
            have hsent : w''.Sent c := hbegun'.sent.later ha.later
            refine ⟨by rw [hm]; exact hplaced'', hsent, ?_, ?_⟩
            · rw [hm, hself]
              exact hobject''.seatedIn (List.mem_append_right _ (List.mem_singleton_self _)) rfl
            · rw [hm, hself]
              intro gameId user' row₁ before after hmem
              obtain ⟨rfl, rfl, -⟩ := hclaims _ _ _ _ _ hmem
              exact ⟨hgame.symm, rfl, rfl, hmine⟩

/-! ### Playing a game -/

section Play

variable {socket newId now : Nat} {user : SocketUser} {packet : Packet} {seat : Seat}

/-- The player a handler finds by the socket of its event is the user, who sits in the game. -/
theorem Read.player (h : Read D at_ c live w) (hw : WorldOk D at_ w) (hsent : w.Sent c)
    (horigin : c.origin = .event socket user packet newId now)
    (hseat : seat ∈ ((w.memory c.process).objects live).players) (hid : seat.id = some socket) :
    seat.player.userId = some user.id ∧
      SeatedIn w.outside.db ((w.memory c.process).objects live).room.gameId user.id := by
  have hobject := hw.objects c.process live h.placed
  have huser := hobject.userId (hsent _ _ _ _ _ horigin) hseat hid
  exact ⟨huser, hobject.seatedIn hseat huser⟩

/-- Both seats of a room that plays are taken, and a player sits where the room says. -/
theorem Read.seated (h : Read D at_ c live w)
    (hplaying : ((w.memory c.process).objects live).room.status = .playing)
    (hseat : seat ∈ ((w.memory c.process).objects live).players) :
    ∃ row, w.outside.db.game? ((w.memory c.process).objects live).room.gameId = some row ∧
      row.blackUsername.isSome ∧ Server.seat row seat.player.color = seat.player.userId := by
  obtain ⟨d, row, -, hlive, -, hon, -⟩ := h.source
  obtain ⟨row', hrow', honward⟩ := hon _ _ hlive.found
  have hsome := hlive.seated_of_playing hplaying
  have hplayer : seat.player ∈ playersOf row := by
    rw [← hlive.players]
    exact List.mem_map_of_mem hseat
  refine ⟨row', hrow', ?_, (seat_onward honward hsome _).trans (seat_of_mem hplayer)⟩
  rw [(honward.black hsome).2]
  exact hsome

private theorem Read.roomOk_of_playing (h : Read D at_ c live w)
    (hplaying : ((w.memory c.process).objects live).room.status = .playing) :
    RoomOk js w.outside.db ((w.memory c.process).objects live).room := by
  obtain ⟨d, row, -, hlive, -, hon, -⟩ := h.source
  exact (hlive.roomOk (hlive.seated_of_playing hplaying)).stable hon

private theorem Read.roomOk_of_over (hjs : js.Follows at_) (h : Read D at_ c live w)
    (hover : js.isGameOver ((w.memory c.process).objects live).room.chess = true) :
    RoomOk js w.outside.db ((w.memory c.process).objects live).room := by
  obtain ⟨d, row, hdb, hlive, -, hon, -⟩ := h.source
  exact (hlive.roomOk (hlive.seated_of_over hjs (hdb.rows _ _ hlive.found) hover)).stable hon

/-- The room of a task whose move was stored. -/
theorem Read.roomOk_of_moved (hjs : js.Follows at_) (h : Read D at_ c live w)
    (hplaying : ((w.memory c.process).objects live).room.status = .playing) {w₁ : World js} {d : Db}
    {player : Player} {requested : Option Json} {persisted : Persisted js}
    (hw₁ : WorldOk D at_ w₁) (hlater : Later c (some live) w w₁)
    (hrun : backend.run (persistMoveAtomic js ((w.memory c.process).objects live).gameId player.color
      requested) w₁.outside.db = some (some persisted, d)) :
    RoomOk js d (((w.memory c.process).objects live).moved persisted).room := by
  obtain ⟨d₀, row, -, hlive, -, hon, -⟩ := h.source
  obtain ⟨hnone, -⟩ | ⟨row₁, chess, persisted', hsame, hs⟩ := persistMoveAtomic_run hrun
  · cases hnone
  · obtain rfl := Option.some.inj hsame
    exact roomOk_after hjs hlive (hlive.seated_of_playing hplaying) (hon.trans hlater.db)
      (hw₁.tables.rows.rows _ _ hs.found) hs

/-- A finalization for a player of the room. -/
theorem finalize_pre {d : Db} {log : List (Event js)} {room : Room js} {result : GameResult}
    {winnerColor : Option Color} {time : Nat}
    (horigin : c.origin = .event socket user packet newId now) (hplays : packet.Plays)
    (hroom : RoomOk js d room) (hdecided : Decided js room result winnerColor)
    (hseated : SeatedIn d room.gameId user.id) :
    AwaitPre D c (.call (.finalize room result winnerColor time)) d log :=
  ⟨⟨hroom, hdecided⟩, trivial, ⟨_, _, _, _, _, horigin, hplays, hseated⟩,
    fun _ _ h ↦ by (cases h), fun _ _ _ _ _ _ h ↦ by (cases h)⟩

/-- What a task knows to its end once it has called its last transaction. -/
structure Ending (c : Caller) (live : Nat) (w : World js) : Prop where
  placed : live < (w.memory c.process).allocated
  unclaimed : Unclaimed w.log c

private theorem Ending.setMemory {m : Memory js} (h : Ending c live w)
    (hplaced : live < m.allocated) :
    Ending c live (w.setMemory c.process m) where
  placed := by
    rw [show (w.setMemory c.process m).memory c.process = m from Function.update_self _ _ _]
    exact hplaced
  unclaimed := h.unclaimed

private theorem Ending.say (h : Ending c live w) (m : Message js) : Ending c live
    (w.say (.told c m)) :=
  ⟨h.placed, h.unclaimed.say m⟩

private theorem announce_conducts (hw : WorldOk D at_ w) (h : Ending c live w) {result : GameResult}
    {winner : Option String} {finalized : Finalized} {next : RoomCode js}
    (hnext : ∀ w', WorldOk D at_ w' → Ending c live w' → Conducts D at_ c (some live) next w') :
    Conducts D at_ c (some live) (announce live result winner finalized next) w := by
  unfold announce
  split
  · have hobject := hw.objects c.process live h.placed
    refine conducts_store hw Memory.writes_own
      ((hw.memoryOk _).modify rfl (hobject.of_players rfl rfl)) fun hw' ↦ conducts_look ?_
    refine conducts_tell hw' (toldOk_of_silent fun _ h ↦ h) fun hw'' ↦
      hnext _ hw'' ((h.setMemory ?_).say _)
    exact h.placed
  · exact hnext w hw h

private theorem Answered.ending {call : Call js} {a : Answer js (.call call)}
    (ha : Answered D at_ c (some live) (.call call) a w w') (h : Ending c live w)
    (hcall : ∀ gameId user, call ≠ .claimBlack gameId user) : Ending c live w' :=
  ⟨Nat.lt_of_lt_of_le h.placed ha.later.allocated, ha.unclaimed_call h.unclaimed hcall⟩

private theorem Ending.done (h : Ending c live w) : Conducts D at_ c (some live) .done w :=
  conducts_done h.unclaimed

private theorem Ending.last (h : Ending c live w) (hw : WorldOk D at_ w) {m : Message js}
    (hsilent : ∀ gameId, ¬ m.Joins gameId) : Conducts D at_ c (some live) (.tell m .done) w :=
  conducts_last hw h.unclaimed hsilent

private theorem Begun.ending (h : Begun w c) (hplaced : live < (w.memory c.process).allocated) :
    Ending c live w := ⟨hplaced, h.unclaimed⟩

/-- The task of `make_move` keeps the rules. -/
theorem moveTask_conducts (hjs : js.Follows at_) (hbegun : Begun w c)
    {roomId : String} {requested : Option Json} {room : Nat}
    (horigin : c.origin = .event socket user (.makeMove roomId requested) newId now)
    (hplaced : room < (w.memory c.process).allocated) :
    Conducts D at_ c none (moveTask socket user requested now room) w := by
  refine refresh_conducts hjs hbegun hplaced
    (fun w' hw' hbegun' _ ↦ conducts_last hw' hbegun'.unclaimed fun _ h ↦ h)
    fun live w' hw' hbegun' hread ↦ conducts_look ?_
  have hending := hbegun'.ending hread.placed
  split
  · exact hending.done
  next hplaying =>
  rw [not_not] at hplaying
  split
  · exact hending.last hw' fun _ h ↦ h
  next seat hfound =>
  split
  · exact hending.last hw' fun _ h ↦ h
  have hseat := List.mem_of_find?_eq_some hfound
  have hid := List.find?_some hfound
  obtain ⟨huser, hseated⟩ := hread.player hw' hbegun'.sent horigin hseat (beq_iff_eq.mp hid)
  obtain ⟨row, hrow, hsome, hplayer⟩ := hread.seated hplaying hseat
  refine conducts_await hjs ⟨⟨row, hrow, hsome, hplayer.trans huser⟩, trivial,
    ⟨_, _, _, _, _, horigin, hseated⟩, fun _ _ h ↦ by (cases h),
    fun _ _ _ _ _ _ h ↦ by (cases h)⟩ fun a w'' hw'' ha ↦ ?_
  have hending'' := ha.ending hending fun _ _ h ↦ by cases h
  rcases a with - | - | persisted
  · exact hending''.last hw'' fun _ h ↦ h
  · exact hending''.last hw'' fun _ h ↦ h
  obtain ⟨w₁, d, hw₁, -, hlater, hrun, hon, -⟩ := ha.committed
  have hsame := ha.later.own live rfl
  have hmoved : (((w''.memory c.process).objects live).moved persisted).room =
      (((w'.memory c.process).objects live).moved persisted).room :=
    congrArg (fun room : Room js ↦
      { room with chess := persisted.chess, moves := room.moves ++ [persisted.record] }) hsame
  have hroom := (hread.roomOk_of_moved hjs hplaying hw₁ hlater hrun).stable hon
  rw [← hmoved] at hroom
  have hseated'' := hseated.onward ha.later.db
  rw [← hsame] at hseated''
  have hobject := hw''.objects c.process live hending''.placed
  refine conducts_store hw'' Memory.writes_own
    ((hw''.memoryOk _).modify rfl (hobject.of_players rfl rfl)) fun hw₂ ↦ conducts_look ?_
  refine conducts_tell hw₂ (toldOk_of_silent fun _ h ↦ h) fun hw₃ ↦ ?_
  have hending₃ := (hending''.setMemory (m := (w''.memory c.process).modify live (·.moved persisted))
    hending''.placed).say
      (.moveMade (((w''.memory c.process).modify live (·.moved persisted)).objects live)
        persisted.move)
  have hm : (w''.setMemory c.process ((w''.memory c.process).modify live
      (·.moved persisted))).memory c.process = (w''.memory c.process).modify live (·.moved persisted) :=
    Function.update_self _ _ _
  rw [hm, Memory.objects_modify_self] at *
  split
  · next hover =>
    refine conducts_await hjs ?_ fun a w₄ hw₄ ha₄ ↦ ?_
    · exact finalize_pre horigin trivial hroom (Or.inr ⟨hover, rfl⟩) hseated''
    have hending₄ := ha₄.ending hending₃ fun _ _ h ↦ by cases h
    cases a with
    | none => exact hending₄.last hw₄ fun _ h ↦ h
    | some finalized => exact announce_conducts hw₄ hending₄ fun _ _ h ↦ h.done
  · exact hending₃.done

/-- The task of `game_over` keeps the rules. -/
theorem gameOverTask_conducts (hjs : js.Follows at_) (hbegun : Begun w c)
    {roomId : String} {room : Nat}
    (horigin : c.origin = .event socket user (.gameOver roomId) newId now)
    (hplaced : room < (w.memory c.process).allocated) :
    Conducts D at_ c none (gameOverTask socket now room) w := by
  refine refresh_conducts hjs hbegun hplaced
    (fun w' _ hbegun' _ ↦ conducts_done hbegun'.unclaimed)
    fun live w' hw' hbegun' hread ↦ conducts_look ?_
  have hending := hbegun'.ending hread.placed
  split
  · exact hending.last hw' fun _ h ↦ h
  next hmember =>
  rw [Bool.not_eq_true, Bool.not_eq_false'] at hmember
  split
  · exact hending.last hw' fun _ h ↦ h
  next hover =>
  rw [Bool.not_eq_true, Bool.not_eq_false'] at hover
  split
  · exact hending.done
  obtain ⟨seat, hseat, hid⟩ := List.any_eq_true.mp hmember
  obtain ⟨-, hseated⟩ := hread.player hw' hbegun'.sent horigin hseat (beq_iff_eq.mp hid)
  refine conducts_await hjs ?_ fun a w'' hw'' ha ↦ ?_
  · exact finalize_pre horigin trivial (hread.roomOk_of_over hjs hover) (Or.inr ⟨hover, rfl⟩) hseated
  have hending'' := ha.ending hending fun _ _ h ↦ by cases h
  cases a with
  | none => exact conducts_throw hending''.unclaimed _
  | some finalized => exact announce_conducts hw'' hending'' fun _ _ h ↦ h.done

/-- The task of `resign` keeps the rules. -/
theorem resignTask_conducts (hjs : js.Follows at_) (hbegun : Begun w c)
    {roomId : String} {room : Nat}
    (horigin : c.origin = .event socket user (.resign roomId) newId now)
    (hplaced : room < (w.memory c.process).allocated) :
    Conducts D at_ c none (resignTask socket now room) w := by
  refine refresh_conducts hjs hbegun hplaced
    (fun w' _ hbegun' _ ↦ conducts_done hbegun'.unclaimed)
    fun live w' hw' hbegun' hread ↦ conducts_look ?_
  have hending := hbegun'.ending hread.placed
  split
  · exact hending.done
  next hplaying =>
  rw [not_not] at hplaying
  split
  · exact hending.last hw' fun _ h ↦ h
  next seat hfound =>
  have hid := List.find?_some hfound
  obtain ⟨-, hseated⟩ := hread.player hw' hbegun'.sent horigin (List.mem_of_find?_eq_some hfound)
    (beq_iff_eq.mp hid)
  refine conducts_await hjs ?_ fun a w'' hw'' ha ↦ ?_
  · exact finalize_pre horigin trivial (hread.roomOk_of_playing hplaying) (Or.inl rfl) hseated
  have hending'' := ha.ending hending fun _ _ h ↦ by cases h
  cases a with
  | none => exact conducts_throw hending''.unclaimed _
  | some finalized => exact announce_conducts hw'' hending'' fun _ _ h ↦ h.done

end Play

/-! ### Votes -/

private theorem Answered.unclaimed_vote {command : VoteCommand} {a : Answer js (.vote command)}
    (h : Answered D at_ c own (.vote command) a w w') (hun : Unclaimed w.log c) :
    Unclaimed w'.log c := h.unclaimed hun fun _ _ heq ↦ by cases heq

/-- Removing or clearing a vote is open to every function. -/
theorem removeVote_conducts (hjs : js.Follows at_) (hw : WorldOk D at_ w) (hun : Unclaimed w.log c)
    {gameId : Nat} {userId : Option Nat} {next : RoomCode js}
    (hnext : ∀ w', WorldOk D at_ w' → Unclaimed w'.log c → Later c own w w' →
      Conducts D at_ c own next w') :
    Conducts D at_ c own (removeVote gameId userId next) w := by
  unfold removeVote
  split
  · exact hnext w hw hun (.refl c own w)
  · exact hnext w hw hun (.refl c own w)
  · split
    · exact hnext w hw hun (.refl c own w)
    · refine conducts_await hjs ⟨fun _ _ h ↦ ?_, fun _ h ↦ by cases h⟩ fun a w' hw' ha ↦
        hnext w' hw' (ha.unclaimed_vote hun) ha.later
      rcases h with h | h <;> cases h

private theorem clearVotes_conducts (hjs : js.Follows at_) (hw : WorldOk D at_ w)
    (hun : Unclaimed w.log c)
    {gameId : Nat} {next : RoomCode js}
    (hnext : ∀ w', WorldOk D at_ w' → Unclaimed w'.log c → Conducts D at_ c own next w') :
    Conducts D at_ c own (clearVotes gameId next) w := by
  unfold clearVotes
  split
  · exact hnext w hw hun
  · refine conducts_await hjs ⟨fun _ _ h ↦ ?_, fun _ h ↦ by cases h⟩ fun a w' hw' ha ↦
      hnext w' hw' (ha.unclaimed_vote hun)
    rcases h with h | h <;> cases h

/-! ### leave_room, disconnect -/

private theorem detachAt_room (o : RoomObject js) (i : Nat) : (o.detachAt i).room = o.room := by
  have hplayers : (o.players.modify i (·.hold none)).map Seat.player = o.players.map Seat.player := by
    refine List.ext_getElem? fun j ↦ ?_
    rw [List.getElem?_map, List.getElem?_map, List.getElem?_modify]
    cases o.players[j]? with
    | none => rfl
    | some seat =>
      change some (if i = j then seat.hold none else seat).player = some seat.player
      split <;> rfl
  change Room.mk _ _ ((o.players.modify i _).map Seat.player) _ _ _ _ = _
  rw [hplayers]
  rfl

/-- A finished room without sockets leaves the cache. -/
theorem conducts_evict (hw : WorldOk D at_ w) {roomId : String} {k : RoomCode js}
    (hk : WorldOk D at_ (w.setMemory c.process ((w.memory c.process).evict roomId)) →
      Conducts D at_ c own k (w.setMemory c.process ((w.memory c.process).evict roomId))) :
    Conducts D at_ c own (.store (·.evict roomId) k) w :=
  conducts_store hw (Memory.writes_evict _) ((hw.memoryOk _).evict _) hk

private theorem departTask_conducts (hjs : js.Follows at_) (hw : WorldOk D at_ w)
    (h : Ending c live w)
    (i : Nat) (seat : Seat) (socket : Nat) :
    Conducts D at_ c (some live) (departTask live i seat socket) w := by
  have hobject := hw.objects c.process live h.placed
  refine conducts_store hw (Memory.writes_sockets (detachAt_room _ _))
    ((hw.memoryOk _).modify rfl (hobject.detachAt i)) fun hw' ↦ conducts_look ?_
  refine removeVote_conducts hjs hw' h.unclaimed fun w'' hw'' hun _ ↦ conducts_look ?_
  split
  · exact conducts_evict hw'' fun hw₃ ↦ conducts_last hw₃ hun fun _ h ↦ h
  · exact conducts_last hw'' hun fun _ h ↦ h

/-- The task of `leave_room` keeps the rules. -/
theorem leaveTask_conducts (hjs : js.Follows at_) (hbegun : Begun w c)
    {roomId : String} {socket newId now room : Nat} {user : SocketUser}
    (horigin : c.origin = .event socket user (.leaveRoom roomId) newId now)
    (hplaced : room < (w.memory c.process).allocated) :
    Conducts D at_ c none (leaveTask socket now room) w := by
  refine refresh_conducts hjs hbegun hplaced (fun w' hw' hbegun' hlater ↦ conducts_look ?_)
    fun live w' hw' hbegun' hread ↦ conducts_look ?_
  · split
    · have hobject := hw'.objects c.process room (Nat.lt_of_lt_of_le hplaced hlater.allocated)
      exact conducts_store hw' (Memory.writes_sockets (detach_room _ _))
        ((hw'.memoryOk _).modify rfl (hobject.detach socket)) fun hw'' ↦
          conducts_last hw'' hbegun'.unclaimed fun _ h ↦ h
    · exact conducts_last hw' hbegun'.unclaimed fun _ h ↦ h
  have hending := hbegun'.ending hread.placed
  split
  · next i seat hindex hfound =>
    split
    · next hplaying =>
      have hid := List.find?_some hfound
      obtain ⟨-, hseated⟩ := hread.player hw' hbegun'.sent horigin
        (List.mem_of_find?_eq_some hfound) (beq_iff_eq.mp hid)
      refine conducts_await hjs ?_ fun a w'' hw'' ha ↦ ?_
      · exact finalize_pre horigin trivial (hread.roomOk_of_playing hplaying) (Or.inl rfl) hseated
      have hending'' := ha.ending hending fun _ _ h ↦ by cases h
      cases a with
      | none => exact conducts_throw hending''.unclaimed _
      | some finalized =>
        exact announce_conducts hw'' hending'' fun w₃ hw₃ h ↦ departTask_conducts hjs hw₃ h _ _ _
    · exact departTask_conducts hjs hw' hending _ _ _
  · exact hending.last hw' fun _ h ↦ h

/-- The task of a disconnect keeps the rules. -/
theorem disconnectTask_conducts (hjs : js.Follows at_) (hw : WorldOk D at_ w) (hbegun : Begun w c)
    (socket : Nat) {room : Nat} (hplaced : room < (w.memory c.process).allocated) :
    Conducts D at_ c none (disconnectTask socket room) w := by
  refine conducts_look ?_
  dsimp only
  have hlive : ((w.memory c.process).activeRooms.get
      ((w.memory c.process).objects room).id).getD room < (w.memory c.process).allocated := by
    cases hget : (w.memory c.process).activeRooms.get ((w.memory c.process).objects room).id with
    | none => exact hplaced
    | some ref => exact ((hw.coherent c.process).cached _ _ hget).1
  split
  · exact conducts_done hbegun.unclaimed
  have hobject := hw.objects c.process _ hlive
  refine conducts_store hw (Memory.writes_sockets (detach_room _ _))
    ((hw.memoryOk _).modify rfl (hobject.detach socket)) fun hw' ↦ ?_
  refine removeVote_conducts hjs hw' hbegun.unclaimed fun w'' hw'' hun _ ↦ conducts_look ?_
  have hrest : ∀ w₃, WorldOk D at_ w₃ → Unclaimed w₃.log c → ∀ (P : Prop) [Decidable P] roomId,
      Conducts D at_ c none (if P then .store (·.evict roomId) .done else .done) w₃ := by
    intro w₃ hw₃ hun₃ P _ roomId
    split
    · exact conducts_evict hw₃ fun _ ↦ conducts_done hun₃
    · exact conducts_done hun₃
  split
  · exact conducts_tell hw'' (toldOk_of_silent fun _ h ↦ h) fun hw₃ ↦
      hrest _ hw₃ (hun.say _) _ _
  · exact hrest _ hw'' hun _ _

/-! ### accept_rematch -/

private theorem votersOf_nodup (log : List (Event js)) (store gameId : Nat) :
    (votersOf D log store gameId).Nodup := by
  induction log using List.reverseRecOn with
  | nil => exact List.nodup_nil
  | append_singleton log e ih =>
    rw [votersOf_append]
    cases e with
    | served c r a arrived before after =>
      cases r with
      | vote command =>
        change (ite _ _ _ : List Nat).Nodup
        split
        · exact VoteCommand.apply_nodup ih command
        · exact ih
      | tick => exact ih
      | snapshot roomId => exact ih
      | call call => exact ih
      | presence roomId => exact ih
    | evaporated _ _ | lost _ =>
      change (ite _ _ _ : List Nat).Nodup
      split
      · exact List.nodup_nil
      · exact ih
    | told c m => exact ih

/-- The function has counted so many votes for the game, each of a user that sits in it. -/
def Quorum (D : Deployment) (c : Caller) (gameId count : Nat) (w : World js) : Prop :=
  ∃ voters : List Nat, voters.Nodup ∧ voters.length = count ∧
    (∀ userId ∈ voters, SeatedIn w.outside.db gameId userId) ∧ Counted D w.log c gameId voters

private theorem Quorum.later {gameId count : Nat} (h : Quorum D c gameId count w)
    (hlater : Later c own w w') : Quorum D c gameId count w' := by
  obtain ⟨voters, hnodup, hlength, hseated, hcounted⟩ := h
  exact ⟨voters, hnodup, hlength, fun userId hmem ↦ (hseated userId hmem).onward hlater.db,
    hcounted.mono hlater.mem_log⟩

/-- The count that a command has returned. -/
theorem Answered.quorum {command : VoteCommand} {count : Nat}
    (h : Answered D at_ c own (.vote command) (some count) w w') {gameId : Nat}
    (hgame : command.gameId = gameId) (hcounts : command.Counts gameId)
    (hreply : ∀ voters, command.reply voters = (command.apply voters).length)
    (hadds : ∀ userId, command.Adds gameId userId → SeatedIn w.outside.db gameId userId) :
    Quorum D c gameId count w' := by
  subst hgame
  rcases h.source with hfailed | ⟨w₁, fetched, o, hw₁, -, hlater, hserve, hlater'⟩
  · cases hfailed
  have hafter := serve_votes hserve true (Outside.storeOf D c.process) command.gameId
  have hon : Onward w₁.outside.db w'.outside.db := by
    have hsame : o.db = w₁.outside.db := by
      obtain ⟨-, rfl⟩ := Prod.mk.inj (Option.some.inj hserve)
      rfl
    exact hsame ▸ hlater'.db
  change o.votes _ _ = ite _ _ _ at hafter
  rw [if_pos ⟨rfl, rfl⟩] at hafter
  obtain ⟨hcount, -⟩ := Prod.mk.inj (Option.some.inj hserve)
  refine ⟨_, ?_, ?_, ?_, command, _, true, _, _, hcounts,
    hlater'.mem_log _ (List.mem_append_right _ (List.mem_singleton_self _)), fun _ hmem ↦ hmem⟩
  · rw [hafter, hw₁.votes]
    exact VoteCommand.apply_nodup (votersOf_nodup _ _ _) command
  · rw [hafter, ← hreply]
    exact Option.some.inj hcount
  · intro userId hmem
    rw [hafter] at hmem
    rcases command.mem_apply hmem with hold | hnew
    · exact (hw₁.voters _ _ _ hold).1.onward hon
    · exact ((hadds userId hnew).onward hlater.db).onward hon

private theorem addVote_conducts (hjs : js.Follows at_) (hbegun : Begun w c)
    {backend : VoteBackend} {gameId : Nat} {userId : Option Nat} {next : Option Nat → RoomCode js}
    (hvoter : ∀ user, userId = some user →
      c.origin.Accepts user ∧ SeatedIn w.outside.db gameId user)
    (hnone : ∀ w', WorldOk D at_ w' → Unclaimed w'.log c → Conducts D at_ c own (next none) w')
    (hsome : ∀ count w', WorldOk D at_ w' → Unclaimed w'.log c → Later c own w w' →
      Quorum D c gameId count w' → Conducts D at_ c own (next (some count)) w') :
    Conducts D at_ c own (addVote backend gameId userId next) w := by
  unfold addVote
  split
  · exact conducts_throw hbegun.unclaimed _
  split
  · exact conducts_throw hbegun.unclaimed _
  · exact conducts_throw hbegun.unclaimed _
  next user _ =>
  obtain ⟨haccepts, hseated⟩ := hvoter user rfl
  cases backend with
  | localBackend =>
    refine conducts_await hjs ⟨fun gameId' user' h ↦ ?_, fun _ h ↦ by cases h⟩ fun a w' hw' ha ↦ ?_
    · rcases h with h | h <;> cases h
      exact ⟨haccepts, hseated, hbegun.unvoted⟩
    · have hun := ha.unclaimed_vote hbegun.unclaimed
      cases a with
      | none => exact hnone w' hw' hun
      | some count =>
        refine hsome count w' hw' hun ha.later (ha.quorum rfl (Or.inr ⟨user, rfl⟩) (fun _ ↦ rfl)
          fun user' h ↦ ?_)
        rcases h with h | h <;> cases h
        exact hseated
  | redisBackend =>
    refine conducts_await hjs ⟨fun gameId' user' h ↦ ?_, fun _ h ↦ by cases h⟩ fun a w₁ hw₁ ha ↦ ?_
    · rcases h with h | h <;> cases h
      exact ⟨haccepts, hseated, hbegun.unvoted⟩
    have hun := ha.unclaimed_vote hbegun.unclaimed
    rcases hsource : a with - | reply
    · exact hnone w₁ hw₁ hun
    subst hsource
    -- the vote is in the log: a reply has come
    have hadded : ServedWith w₁.log c (.vote (.sadd gameId user)) := by
      rcases ha.source with hfailed | ⟨w₀, fetched, o, -, -, -, -, hlater⟩
      · cases hfailed
      · exact ⟨_, _, _, _, hlater.mem_log _ (List.mem_append_right _ (List.mem_singleton_self _))⟩
    refine conducts_await hjs ⟨fun _ _ h ↦ ?_, fun _ h ↦ by cases h⟩ fun a w₂ hw₂ ha₂ ↦ ?_
    · rcases h with h | h <;> cases h
    have hun₂ := ha₂.unclaimed_vote hun
    rcases a with _ | _
    · exact hnone w₂ hw₂ hun₂
    refine conducts_await hjs ⟨fun _ _ h ↦ ?_, fun gameId' h ↦ ?_⟩ fun a w₃ hw₃ ha₃ ↦ ?_
    · rcases h with h | h <;> cases h
    · cases h
      obtain ⟨a, arrived, before, after, hmem⟩ := hadded
      exact ⟨user, a, arrived, before, after, ha₂.later.mem_log _ hmem⟩
    have hun₃ := ha₃.unclaimed_vote hun₂
    rcases a with - | count
    · exact hnone w₃ hw₃ hun₃
    · refine hsome count w₃ hw₃ hun₃ ((ha.later.trans ha₂.later).trans ha₃.later)
        (ha₃.quorum rfl (Or.inl rfl) (fun _ ↦ rfl) fun _ h ↦ ?_)
      rcases h with h | h <;> cases h

/-- The two players of a room a refresh has read, their colours switched. -/
theorem Read.switched (h : Read D at_ c live w) {white black : Seat}
    (hwhite : (((w.memory c.process).objects live).players.map Seat.switched).find?
      (·.player.color == .w) = some white)
    (hblack : (((w.memory c.process).objects live).players.map Seat.switched).find?
      (·.player.color == .b) = some black) :
    ∃ row, ∃ old ∈ D.accounts, ∃ new ∈ D.accounts, Seats row new old ∧
      w.outside.db.game? ((w.memory c.process).objects live).room.gameId = some row ∧
      white.player = old.player .w ∧ black.player = new.player .b ∧
      (∀ seat ∈ ((w.memory c.process).objects live).players.map Seat.switched,
        seat.player = white.player ∨ seat.player = black.player) ∧
      ∀ newId now, RematchPre js (.rematch ((w.memory c.process).objects live).gameId
        (some ((w.memory c.process).objects live).id) white.player black.player newId now)
        w.outside.db := by
  obtain ⟨d, row, hdb, hlive, hid, hon, hrooms, -⟩ := h.source
  have hplayers : (((w.memory c.process).objects live).players.map Seat.switched).map Seat.player =
      (playersOf row).map Player.switched := by
    rw [← hlive.players, List.map_map]
    change _ = List.map _ (List.map Seat.player _)
    rw [List.map_map]
    rfl
  have hfind : ∀ color seat, (((w.memory c.process).objects live).players.map Seat.switched).find?
      (·.player.color == color) = some seat →
      ((playersOf row).map Player.switched).find? (·.color == color) = some seat.player := by
    intro color seat hseat
    rw [← hplayers, List.find?_map]
    exact congrArg (Option.map Seat.player) hseat
  have hswitched := switched_players (hfind _ _ hwhite) (hfind _ _ hblack)
  obtain ⟨new, hnew, old, hold, hseats⟩ := (hdb.rows _ _ hlive.found).seats hswitched.seated
  have htwo : (playersOf row).map Player.switched = [new.player .b, old.player .w] := by
    rw [hseats.players]
    rfl
  have hwhite' := hfind _ _ hwhite
  have hblack' := hfind _ _ hblack
  rw [htwo] at hwhite' hblack'
  obtain ⟨row', hrow', honward⟩ := hon _ _ hlive.found
  have hseats' : Seats row' new old :=
    ⟨honward.white.1.trans hseats.whiteId, honward.white.2.trans hseats.whiteName,
      (honward.black hswitched.seated).1.trans hseats.blackId,
      (honward.black hswitched.seated).2.trans hseats.blackName, hseats.distinct⟩
  refine ⟨row', old, hold, new, hnew, hseats', hrow', (Option.some.inj hwhite').symm,
    (Option.some.inj hblack').symm, fun seat hseat ↦ ?_, fun newId now ↦ ?_⟩
  · have hmem : seat.player ∈ (playersOf row).map Player.switched := by
      rw [← hplayers]
      exact List.mem_map_of_mem hseat
    rw [htwo, List.mem_cons, List.mem_singleton] at hmem
    rw [← Option.some.inj hwhite', ← Option.some.inj hblack']
    exact hmem.symm
  · obtain ⟨row'', hrow'', hkept⟩ := hrooms.rows _ _ hlive.found
    refine ⟨row'', _, hrow'', rfl, ?_, ?_, hswitched.stable hkept⟩
    · exact hrooms.held _ (Db.roomTaken_iff.mpr ⟨_, row, hlive.found, hid⟩)
    · rcases hkept.room with heq | hnone
      · exact Or.inl (heq.trans hid)
      · exact Or.inr hnone

/-- Who sits in a full game is one of its two users. -/
theorem seatedIn_seats {d : Db} {gameId userId : Nat} {row : GameRow} {white black : SocketUser}
    (h : SeatedIn d gameId userId) (hrow : d.game? gameId = some row) (hseats : Seats row white black) :
    userId = white.id ∨ userId = black.id := by
  obtain ⟨row', hrow', hseat⟩ := h
  obtain rfl := Option.some.inj (hrow.symm.trans hrow')
  rcases hseat with hwhite | ⟨hblack, -⟩
  · exact Or.inl (Option.some.inj (hwhite.symm.trans hseats.whiteId))
  · exact Or.inr (Option.some.inj (hblack.symm.trans hseats.blackId))

/-- Two votes of players are those of both. -/
theorem Quorum.both {gameId count : Nat} (h : Quorum D c gameId count w) (hcount : 2 ≤ count)
    {row : GameRow} {white black : SocketUser} (hrow : w.outside.db.game? gameId = some row)
    (hseats : Seats row white black) : Counted D w.log c gameId [black.id, white.id] := by
  obtain ⟨voters, hnodup, hlength, hseated, hcounted⟩ := h
  -- without one of the two the set has one member at most
  have hin : ∀ user other : Nat, (∀ userId ∈ voters, userId = user ∨ userId = other) →
      user ∈ voters := by
    intro user other hall
    by_contra hout
    have hsub : voters ⊆ [other] := fun userId hmem ↦ List.mem_singleton.mpr
      ((hall userId hmem).resolve_left fun heq ↦ hout (heq ▸ hmem))
    have hle := (hnodup.subperm hsub).length_le
    rw [hlength, List.length_singleton] at hle
    omega
  have hplayers : ∀ userId ∈ voters, userId = white.id ∨ userId = black.id :=
    fun userId hmem ↦ seatedIn_seats (hseated userId hmem) hrow hseats
  obtain ⟨command, a, arrived, before, after, hcounts, hmem, hset⟩ := hcounted
  refine ⟨command, a, arrived, before, after, hcounts, hmem, fun userId huser ↦ hset userId ?_⟩
  rw [List.mem_cons, List.mem_singleton] at huser
  rcases huser with rfl | rfl
  · exact hin _ _ fun userId hmem ↦ (hplayers userId hmem).symm
  · exact hin _ _ hplayers

/-- The object of the task after its rematch has committed. -/
theorem ObjectOk.rematched {o : RoomObject js} {gameId newId now : Nat} {roomId : Option String}
    {white black : Seat} {d d' : Db} {old new : GameRow}
    (hnew : Rematched gameId roomId white.player black.player newId now d old new d')
    (hon : Onward d' w.outside.db) {user user' : SocketUser} (hwhite : white.player = user.player .w)
    (hblack : black.player = user'.player .b)
    (hseats : ∀ seat ∈ o.players.map Seat.switched,
      seat.player = white.player ∨ seat.player = black.player)
    (hsockets : ∀ seat ∈ o.players, ∀ socket, seat.id = some socket →
      ∃ user, w.SocketIs socket user ∧ seat.player.userId = some user.id) :
    ObjectOk w { o with gameId := newId, players := o.players.map Seat.switched } where
  seats := by
    have hcreated := hnew.created
    obtain ⟨row, hrow, honward⟩ := hon newId new (by
      rw [hnew.after, game?_putGame, if_pos (by rw [hcreated])])
    refine ⟨row, hrow, fun seat hseat ↦ playersOf_subset honward ?_⟩
    have hplayers : playersOf new = [white.player, black.player] := by
      rw [hcreated, playersOf, hwhite, hblack]
      change _ :: (if user'.username = "" then _ else _) = _
      rw [if_neg user'.named]
      rfl
    rw [hplayers, List.mem_cons, List.mem_singleton]
    exact hseats seat hseat
  sockets seat hseat socket hid := by
    obtain ⟨seat', hseat', rfl⟩ := List.mem_map.mp hseat
    exact hsockets seat' hseat' socket hid

private theorem rematchTask_conducts (hjs : js.Follows at_) (hun : Unclaimed w.log c)
    (hread : Read D at_ c live w) {count newId now userId : Nat}
    (hquorum : Quorum D c ((w.memory c.process).objects live).room.gameId count w)
    (haccepts : c.origin.Accepts userId)
    (hseated : SeatedIn w.outside.db ((w.memory c.process).objects live).room.gameId userId) :
    Conducts D at_ c (some live) (rematchTask live count newId now) w := by
  have hnotJoin : c.origin.isJoin = false := by
    obtain ⟨socket, user, roomId, newId', now', horigin, -⟩ := haccepts
    rw [horigin]
    rfl
  refine conducts_look (conducts_await hjs trivial fun fetched w₁ hw₁ ha₁ ↦ conducts_look ?_)
  have hun₁ := ha₁.unclaimed hun fun _ _ h ↦ by cases h
  have hread₁ := hread.later ha₁.later
  have hquorum₁ := hquorum.later ha₁.later
  have hseated₁ := hseated.onward ha₁.later.db
  rw [← ha₁.later.own live rfl] at hquorum₁ hseated₁
  split
  · exact conducts_done hun₁
  next hgo =>
  rw [not_or, Nat.not_lt] at hgo
  dsimp only
  split
  · next white black hwhite hblack =>
    obtain ⟨row, old, hold, new, hnew, hseats, hrow, hwhiteIs, hblackIs, htwo, hrooms⟩ :=
      hread₁.switched hwhite hblack
    refine conducts_await hjs ⟨⟨old, hold, new, hnew, hwhiteIs ▸ ⟨rfl, rfl⟩, hblackIs ▸ ⟨rfl, rfl⟩,
      hseats.distinct.symm⟩, hrooms newId now, ⟨userId, haccepts, hseated₁⟩, fun _ _ h ↦ by (cases h),
      fun gameId roomId white' black' newId' now' heq ↦ ?_⟩ fun a w₂ hw₂ ha₂ ↦ ?_
    · injection heq with hgame _ hwhite' hblack' _ _
      subst hgame hwhite' hblack'
      refine ⟨old.id, new.id, hseats.distinct.symm, ?_, ?_, ?_⟩
      · rw [hwhiteIs]
        rfl
      · rw [hblackIs]
        rfl
      · exact hquorum₁.both hgo.1 hrow hseats
    have hun₂ := ha₂.unclaimed_call hun₁ fun _ _ h ↦ by cases h
    cases a with
    | none => exact conducts_throw hun₂ _
    | some game =>
      refine conducts_look ?_
      obtain ⟨w₀, d, -, -, -, hrun, hon, -⟩ := ha₂.committed
      obtain ⟨oldRow, newRow, hrematched, rfl⟩ := rematch_run hrun
      have hid : newRow.id = newId := by rw [hrematched.created]
      have hplaced₂ := Nat.lt_of_lt_of_le hread₁.placed ha₂.later.allocated
      -- the players the task switches are those of the object still
      have hobject : ∀ o : RoomObject js, o.gameId = newId →
          o.players = ((w₁.memory c.process).objects live).players.map Seat.switched →
            ObjectOk w₂ o := by
        intro o hgame hplayers
        refine (ObjectOk.rematched (o := (w₁.memory c.process).objects live) hrematched hon
          hwhiteIs hblackIs htwo fun seat hseat socket hid ↦ ?_).of_players hgame hplayers
        obtain ⟨user, hsocket, huser⟩ :=
          (hw₁.objects c.process live hread₁.placed).sockets seat hseat socket hid
        exact ⟨user, ha₂.later.sockets _ _ hsocket, huser⟩
      split
      · refine conducts_store hw₂ Memory.writes_own ((hw₂.memoryOk _).modify ?_ ?_) fun _ ↦ ?_
        · rfl
        · exact hobject _ hid rfl
        · exact hun₂.post
      · next chess hchess =>
        refine conducts_store hw₂ Memory.writes_own ((hw₂.memoryOk _).modify ?_ ?_) fun hw₃ ↦ ?_
        · rfl
        · exact hobject _ hid rfl
        · exact clearVotes_conducts hjs hw₃ hun₂ fun w₄ hw₄ hun₄ ↦ conducts_look
            (conducts_tell hw₄ (toldOk_of_origin hnotJoin) fun _ ↦ conducts_done (hun₄.say _))
  · exact conducts_throw hun₁ _

/-- The task of `accept_rematch` keeps the rules. -/
theorem acceptTask_conducts (hjs : js.Follows at_) (hbegun : Begun w c)
    {backend : VoteBackend} {roomId : String} {socket newId now room : Nat} {user : SocketUser}
    (horigin : c.origin = .event socket user (.acceptRematch roomId) newId now)
    (hplaced : room < (w.memory c.process).allocated) :
    Conducts D at_ c none (acceptTask backend socket newId now room) w := by
  refine refresh_conducts hjs hbegun hplaced
    (fun w' hw' hbegun' _ ↦ conducts_last hw' hbegun'.unclaimed fun _ h ↦ h)
    fun live w' hw' hbegun' hread ↦ conducts_look ?_
  have hending := hbegun'.ending hread.placed
  split
  · exact hending.last hw' fun _ h ↦ h
  split
  · exact hending.last hw' fun _ h ↦ h
  next voter hfound =>
  have hid := List.find?_some hfound
  obtain ⟨huser, hseated⟩ := hread.player hw' hbegun'.sent horigin
    (List.mem_of_find?_eq_some hfound) (beq_iff_eq.mp hid)
  have haccepts : c.origin.Accepts user.id := ⟨socket, user, roomId, newId, now, horigin, rfl⟩
  refine addVote_conducts hjs hbegun' (fun user' heq ↦ ?_)
    (fun w'' hw'' hun ↦ conducts_last hw'' hun fun _ h ↦ h) fun count w'' hw'' hun hlater hquorum ↦ ?_
  · rw [huser] at heq
    obtain rfl := Option.some.inj heq
    exact ⟨haccepts, hseated⟩
  · have hsame := hlater.own live rfl
    refine rematchTask_conducts hjs hun (hread.later hlater) ?_ haccepts ?_
    · rw [hsame]
      exact hquorum
    · rw [hsame]
      exact hseated.onward hlater.db

/-! ### The hydration of a room -/

/-- A hydration keeps the rules. -/
theorem hydrateRoom_conducts (hjs : js.Follows at_) (hun : Unclaimed w.log c)
    (job : Nat) (roomId : String) : Conducts D at_ c none (hydrateRoom job roomId) w := by
  have hfinish : ∀ own room w₁, WorldOk D at_ w₁ → Unclaimed w₁.log c →
      (∀ ref, room = some ref → ref < (w₁.memory c.process).allocated) →
      Conducts D at_ c own (hydrateRoom.finish job roomId room) w₁ := by
    intro own room w₁ hw₁ hun₁ hroom
    refine conducts_tick hjs fun w₂ hw₂ ha ↦ ?_
    have hun₂ := ha.unclaimed hun₁ fun _ _ h ↦ by cases h
    refine conducts_store hw₂ ⟨Nat.le_refl _, rfl, fun _ _ _ ↦ rfl, Or.inl rfl⟩
      ⟨⟨(hw₂.coherent _).cached, fun job' ref href ↦ ?_⟩, (hw₂.memoryOk _).objects⟩ fun _ ↦
        conducts_done hun₂
    change Function.update (w₂.memory c.process).hydrated job (some room) job' = _ at href
    rcases eq_or_ne job' job with rfl | hne
    · rw [Function.update_self, Option.some.injEq] at href
      exact Nat.lt_of_lt_of_le (hroom ref href) ha.later.allocated
    · rw [Function.update_of_ne hne] at href
      exact (hw₂.coherent _).hydrated job' ref href
  refine conducts_await hjs trivial fun a w₁ hw₁ ha ↦ ?_
  have hun₁ := ha.unclaimed hun fun _ _ h ↦ by cases h
  have hnone := hfinish none none w₁ hw₁ hun₁ fun _ h ↦ by cases h
  rcases ha.source with hfailed | ⟨w₀, fetched, o, hw₀, -, -, hserve, hlater⟩
  · obtain rfl := Option.some.inj hfailed
    exact hnone
  obtain ⟨rfl, rfl⟩ := Prod.mk.inj (Option.some.inj hserve)
  dsimp only
  split
  · exact hnone
  next snapshot hfilter =>
  have hsnap := (Option.filter_eq_some_iff.mp hfilter).1
  obtain ⟨built, row, hbuilt, hrow, hid, -⟩ := snapshot_read hjs hw₀.tables.rows hsnap
  rw [hbuilt]
  dsimp only
  obtain ⟨row', hrow', hon⟩ := hlater.db _ _ hrow.found
  have hobject : ObjectOk w₁ (.ofRoom roomId built) := by
    refine ⟨⟨row', hrow', fun seat hseat ↦ ?_⟩, fun seat hseat socket hsocket ↦ ?_⟩
    · obtain ⟨player, hplayer, rfl⟩ := List.mem_map.mp hseat
      exact playersOf_subset hon (hrow.players ▸ hplayer)
    · obtain ⟨player, -, rfl⟩ := List.mem_map.mp hseat
      cases hsocket
  refine conducts_look (conducts_store hw₁ (Memory.writes_add _) ((hw₁.memoryOk _).add hobject)
    fun hw₂ ↦ hfinish _ _ _ hw₂ hun₁ fun ref href ↦ ?_)
  obtain rfl := Option.some.inj href
  rw [show (World.memory (w₁.setMemory _ _) c.process) = _ from Function.update_self _ _ _]
  exact Nat.lt_succ_self _

end

end ChessStack.Server
