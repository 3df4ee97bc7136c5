import ChessStack.Server.Lingering

/-!
# The handlers and finished rooms

Library `Server`. Each function of `Chess-Backend/src/socket/gameSocket.js` minds the finished
rooms it leaves in the cache: a join evicts in its `catch` what it does not attach to, a leave
and a disconnect evict after they have detached, and a hydration leaves its room to the joins
that wait for it.
-/

namespace ChessStack.Server

open ChessStack.Chess ChessStack.Js ChessStack.Library ChessStack.Store

variable {js : ChessJs} {c : Caller} {roomId : String} {m m₀ : Memory js} {room live : Nat}
  {next : Option Nat → RoomCode js}

/-- Nothing lingers that did not linger when the turn began. -/
def Memory.Kept (m₀ m : Memory js) : Prop := ∀ key, m.Lingers key → m₀.Lingers key

/-- What lingers since the turn began is the room object. -/
def Memory.KeptBut (m₀ m : Memory js) (key : String × Nat) : Prop :=
  ∀ key', m.Lingers key' → ¬ m₀.Lingers key' → key' = key

private theorem Memory.Kept.refl (m : Memory js) : m.Kept m := fun _ h ↦ h

/-- The object is there, under the room's id. -/
def Memory.Holds (m : Memory js) (roomId : String) (ref : Nat) : Prop :=
  ref < m.allocated ∧ (m.objects ref).id = roomId

private theorem Memory.Holds.grows {m' : Memory js} {ref : Nat} (h : m.Holds roomId ref)
    (hm : m.Grows m') :
    m'.Holds roomId ref :=
  ⟨Nat.lt_of_lt_of_le h.1 hm.allocated, (hm.ids ref h.1).trans h.2⟩

/-! ### Turns that leave nothing -/

section Plain

variable {roomId : Option String}

private theorem minds_done (hkept : m₀.Kept m) : (.done : RoomCode js).Minds
    (upkeep c roomId) m₀ m :=
  fun key h hnew ↦ absurd (hkept key h) hnew

private theorem minds_throw {text : String} (hkept : m₀.Kept m) :
    (.throw text : RoomCode js).Minds (upkeep c roomId) m₀ m :=
  fun key h hnew ↦ absurd (hkept key h) hnew

/-- A function that waits with nothing left behind. -/
theorem minds_await {r : Await js} {k : Answer js r → RoomCode js}
    (htask : c.origin.isHydration = false) (hkept : m₀.Kept m)
    (hk : ∀ a, Returns r a → (k a).Willing (upkeep c roomId) m) :
    (Code.await r k : RoomCode js).Minds (upkeep c roomId) m₀ m := by
  refine ⟨fun hh ↦ ?_, fun key h hnew ↦ absurd (hkept key h) hnew, hk⟩
  rw [htask] at hh
  cases hh

end Plain

/-! ### The refresh -/

/-- What the rest of a task owes after its refresh. -/
structure Continues (c : Caller) (roomId : String) (next : Option Nat → RoomCode js) : Prop where
  untrue : ∀ m : Memory js, m.Coherent → Admits c.origin m (next none) →
    (next none).Minds (upkeep c (some roomId)) m m
  live : ∀ (m : Memory js) ref, m.Coherent → m.Holds roomId ref →
    Admits c.origin m (next (some ref)) → (next (some ref)).Minds (upkeep c (some roomId)) m m
  joins : c.origin.isJoin = true → ∀ (m : Memory js) ref, m.Coherent → m.Holds roomId ref →
    (next (some ref)).SeesTo (upkeep c (some roomId)) (roomId, ref) m

private theorem Continues.willing_untrue (h : Continues c roomId next) (m : Memory js) :
    (next none).Willing (upkeep c (some roomId)) m :=
  fun m' _ hinv hadmits ↦ h.untrue m' hinv hadmits

private theorem afterSnapshot_minds (htask : c.origin.isHydration = false)
    (h : Continues c roomId next) (hm : m.Coherent) (answer : Option (Option GameSnapshot))
    (hadmits : Admits c.origin m (afterSnapshot room roomId next answer)) :
    (afterSnapshot room roomId next answer).Minds (upkeep c (some roomId)) m m := by
  have hevict : ∀ m : Memory js, m.Coherent → (Code.store (·.evict roomId) (tick (next none)) :
      RoomCode js).Minds (upkeep c (some roomId)) m m := by
    intro m hm
    refine ⟨m.evict_does _ roomId, hm.evict roomId, minds_await htask ?_ fun _ _ ↦ ?_⟩
    · exact fun key hkey ↦ (Memory.lingers_evict hkey).1
    · exact h.willing_untrue _
  rcases answer with - | found
  · exact minds_await htask (.refl m) fun _ _ ↦ h.willing_untrue m
  · unfold afterSnapshot
    dsimp only
    rcases hfound : found.filter isMaterializable with - | snapshot
    · exact hevict m hm
    · obtain ⟨rfl, hmaterial⟩ := Option.filter_eq_some_iff.mp hfound
      dsimp only
      rcases hbuilt : buildRoomFromSnapshot js snapshot with - | built
      · refine minds_await htask (.refl m) fun abandoned _ m' _ hinv _ ↦ ?_
        cases abandoned with
        | none => exact minds_throw (.refl m')
        | some _ => exact hevict m' hinv
      · -- A finished room without sockets is the join's own, or the turn is not admitted.
        refine ⟨m.add_does _ _, hm.add _, fun hh ↦ ?_, fun key hkey hnew ↦ ?_, fun _ _ ↦ ?_⟩
        · rw [htask] at hh
          cases hh
        · obtain ⟨rfl, hstatus, hless⟩ | ⟨hold, -⟩ := hm.lingers_add hkey
          · cases hjoin : c.origin.isJoin with
            | false =>
              have hsome := hadmits.inserts hjoin room roomId next snapshot built rfl hmaterial
                hbuilt hstatus
              rw [hless] at hsome
              cases hsome
            | true =>
              refine ⟨rfl, fun _ _ _ m' hlater hinv ↦ h.joins hjoin m' _ hinv ?_⟩
              exact Memory.Holds.grows ⟨Nat.lt_succ_self _, by rw [Memory.objects_add_self]; rfl⟩
                hlater.1
          · exact absurd hold hnew
        · refine fun m' hlater hinv hadmits' ↦ h.live m' _ hinv ?_ hadmits'
          exact Memory.Holds.grows ⟨Nat.lt_succ_self _, by rw [Memory.objects_add_self]; rfl⟩
            hlater.1

/-- A task that goes on from a refresh. -/
theorem refresh_minds (htask : c.origin.isHydration = false) (h : Continues c roomId next)
    (hroom : (m.objects room).id = roomId) :
    (refreshRoomFromDb room next).Minds (upkeep c (some roomId)) m m := by
  rw [refreshRoomFromDb_eq]
  change (Code.await _ _ : RoomCode js).Minds (upkeep c (some roomId)) m m
  rw [hroom]
  exact minds_await htask (.refl m) fun answer _ m' _ hinv hadmits ↦
    afterSnapshot_minds htask h hinv answer hadmits

/-- A join whose refresh is answered sees to every object of its room before it puts a new one in
the cache. -/
theorem afterSnapshot_seesTo (hjoin : c.origin.isJoin = true) (hm : m.Coherent)
    {answer : Option (Option GameSnapshot)} (hanswer : answer ≠ none) {ref : Nat}
    (hold : ref < m.allocated) :
    (afterSnapshot room roomId next answer).SeesTo (upkeep c (some roomId)) (roomId, ref) m := by
  have hevict : ∀ m : Memory js, (Code.store (·.evict roomId) (tick (next none)) :
      RoomCode js).SeesTo (upkeep c (some roomId)) (roomId, ref) m :=
    fun m hdebt ↦ absurd rfl (Memory.lingers_evict hdebt).2
  rcases answer with - | found
  · exact absurd rfl hanswer
  · unfold afterSnapshot
    dsimp only
    rcases found.filter isMaterializable with - | snapshot
    · exact hevict m
    · dsimp only
      rcases buildRoomFromSnapshot js snapshot with - | built
      · intro _ abandoned _ _ m' _ _
        cases abandoned with
        | none => exact fun _ ↦ ⟨hjoin, rfl⟩
        | some _ => exact hevict m'
      · intro hdebt
        obtain ⟨heq, -⟩ | ⟨-, hne⟩ := hm.lingers_add hdebt
        · have : ref = m.allocated := congrArg Prod.snd heq
          omega
        · exact absurd rfl hne

/-- A join that has not refreshed sees to every object of its room. -/
theorem refresh_seesTo (hjoin : c.origin.isJoin = true) (hm : m.Coherent)
    (hroom : (m.objects room).id = roomId) (ref : Nat) :
    (refreshRoomFromDb room next).SeesTo (upkeep c (some roomId)) (roomId, ref) m := by
  rw [refreshRoomFromDb_eq]
  change (Code.await _ _ : RoomCode js).SeesTo (upkeep c (some roomId)) (roomId, ref) m
  rw [hroom]
  intro hdebt answer _ hanswers m' hlater hinv
  refine afterSnapshot_seesTo hjoin hinv ?_ (Nat.lt_of_lt_of_le (hm.cached _ _ hdebt.1).1
    hlater.1.allocated)
  rintro rfl
  exact hanswers ⟨hjoin, rfl⟩

/-! ### join_room -/

private theorem any_updateFirst {α : Type} {p q : α → Bool} {f : α → α} {l : List α}
    (h : l.any p = true)
    (hf : ∀ a, p a = true → q (f a) = true) : (updateFirst p f l).any q = true := by
  induction l with
  | nil => cases h
  | cons a l ih =>
    rw [updateFirst]
    split
    · next ha => rw [List.any_cons, hf a ha, Bool.true_or]
    · next ha =>
      rw [List.any_cons, Bool.eq_false_iff.mpr ha, Bool.false_or] at h
      rw [List.any_cons, ih h, Bool.or_true]

private theorem socketless_eq_not_any (o : RoomObject js) :
    o.socketless = !o.players.any (·.id.isSome) := by
  rw [RoomObject.socketless, List.not_any_eq_all_not]
  refine congrArg _ (funext fun seat ↦ ?_)
  cases seat.id <;> rfl

/-- After a socket was attached to a free seat the object has one. -/
theorem socketless_reattach {o : RoomObject js} {userId socket : Nat}
    (h : o.players.any (·.freeOf userId) = true) : (o.reattach userId socket).socketless = false := by
  rw [socketless_eq_not_any, Bool.not_eq_false']
  exact any_updateFirst h fun _ _ ↦ rfl

/-- A change after which the object has sockets, or is not finished, leaves nothing. -/
theorem kept_modify {f : RoomObject js → RoomObject js}
    (hf : (f (m.objects live)).status = .finished → (f (m.objects live)).socketless = true → False) :
    m.Kept (m.modify live f) :=
  fun _ ↦ Memory.lingers_of_modify fun hstatus hless ↦ (hf hstatus hless).elim

private theorem not_lingers_modify {f : RoomObject js → RoomObject js} {key : String × Nat}
    (hkey : key.2 = live)
    (hf : (f (m.objects live)).status = .finished → (f (m.objects live)).socketless = true → False) :
    ¬ (m.modify live f).Lingers key := by
  intro h
  obtain ⟨hne, -⟩ | ⟨-, -, hstatus, hless⟩ := Memory.lingers_modify h
  · exact hne hkey
  · exact hf hstatus hless

private theorem welcome_minds {socket : Nat} (htask : c.origin.isHydration = false)
    (hkept : m₀.Kept m) :
    (welcome live socket : RoomCode js).Minds (upkeep c (some roomId)) m₀ m := by
  change Code.Minds _ (ite _ _ _) _ _
  split
  · exact minds_done hkept
  · refine minds_await htask hkept fun fetched _ m' _ _ _ ↦ ?_
    change Code.Minds _ (ite _ _ _) _ _
    split
    · exact minds_done (.refl m')
    · exact minds_done (.refl m')

private theorem welcome_seesTo {socket : Nat} {key : String × Nat} (h : ¬ m.Lingers key) :
    (welcome live socket : RoomCode js).SeesTo (upkeep c (some roomId)) key m := by
  change Code.SeesTo _ _ (ite _ _ _) _
  split
  · exact fun hdebt ↦ absurd hdebt h
  · exact fun hdebt ↦ absurd hdebt h

private theorem joinTask_minds {socket : Nat} {user : SocketUser} (hjoin : c.origin.isJoin = true)
    (hroom : (m.objects room).id = roomId) :
    (joinTask socket user room : RoomCode js).Minds (upkeep c (some roomId)) m m := by
  have htask := isHydration_of_isJoin hjoin
  unfold joinTask
  refine refresh_minds htask ⟨fun m _ _ ↦ minds_done (.refl m), fun m ref hm hholds _ ↦ ?_,
    fun _ m ref hm hholds ↦ ?_⟩ hroom
  · change Code.Minds _ (ite _ _ _) _ _
    split
    · next hfree =>
      refine ⟨Memory.modify_does _ m ref rfl, hm.modify rfl, welcome_minds htask (kept_modify ?_)⟩
      intro _ hless
      rw [socketless_reattach hfree] at hless
      cases hless
    · split
      · exact minds_throw (.refl m)
      · split
        · exact minds_throw (.refl m)
        · refine minds_await htask (.refl m) fun claimed _ m' _ hinv _ ↦ ?_
          rcases claimed with - | - | row
          · exact minds_throw (.refl m')
          · exact minds_throw (.refl m')
          · exact ⟨Memory.modify_does _ m' ref rfl, hinv.modify rfl,
              welcome_minds htask (kept_modify fun h ↦ by cases h)⟩
  · change Code.SeesTo _ _ (ite _ _ _) _
    split
    · next hfree =>
      refine welcome_seesTo (not_lingers_modify rfl fun _ hless ↦ ?_)
      rw [socketless_reattach hfree] at hless
      cases hless
    · split
      · exact fun _ ↦ ⟨hjoin, rfl⟩
      · split
        · exact fun _ ↦ ⟨hjoin, rfl⟩
        · intro _ claimed _ _ m' _ _
          rcases claimed with - | - | row
          · exact fun _ ↦ ⟨hjoin, rfl⟩
          · exact fun _ ↦ ⟨hjoin, rfl⟩
          · exact welcome_seesTo (not_lingers_modify rfl fun h ↦ by cases h)

/-! ### make_move, game_over, resign -/

/-- The end of a game is announced on an object that is not cached, or has sockets. -/
theorem announce_minds {result : GameResult} {winner : Option String} {finalized : Finalized}
    (hm : m.Coherent) (hadmits : Admits c.origin m (announce live result winner finalized .done)) :
    (announce live result winner finalized .done : RoomCode js).Minds (upkeep c (some roomId)) m m := by
  have hends := hadmits.ends live result winner finalized rfl
  unfold announce
  split
  · next hsettled =>
    refine ⟨Memory.modify_does _ m live rfl, hm.modify rfl, fun key hkey hnew ↦ ?_⟩
    obtain ⟨-, hold⟩ | ⟨-, hget, -, hless⟩ := Memory.lingers_modify hkey
    · exact absurd hold hnew
    · have hid := (hm.cached _ _ hget).2
      have hsome := hends hsettled (hid ▸ hget)
      change (m.objects live).socketless = true at hless
      rw [hsome] at hless
      cases hless
  · exact minds_done (.refl m)

private theorem moveTask_minds {socket now : Nat} {user : SocketUser} {requested : Option Json}
    (htask : c.origin.isHydration = false) (hjoin : c.origin.isJoin = false)
    (hroom : (m.objects room).id = roomId) :
    (moveTask socket user requested now room : RoomCode js).Minds (upkeep c (some roomId)) m m := by
  unfold moveTask
  refine refresh_minds htask ⟨fun m _ _ ↦ minds_done (.refl m), fun m ref hm hholds _ ↦ ?_,
    fun h ↦ absurd h (by rw [hjoin]; exact Bool.false_ne_true)⟩ hroom
  change Code.Minds _ (ite _ _ _) _ _
  split
  · exact minds_done (.refl m)
  · split
    · exact minds_done (.refl m)
    · split
      · exact minds_done (.refl m)
      · refine minds_await htask (.refl m) fun persisted _ m' _ hinv _ ↦ ?_
        rcases persisted with - | - | persisted
        · exact minds_done (.refl m')
        · exact minds_done (.refl m')
        · have hkept : m'.Kept (m'.modify ref (·.moved persisted)) :=
            fun _ ↦ Memory.lingers_of_modify fun hstatus hless ↦ ⟨hstatus, hless⟩
          refine ⟨Memory.modify_does _ m' ref rfl, hinv.modify rfl, ?_⟩
          change Code.Minds _ (ite _ _ _) _ _
          split
          · refine minds_await htask hkept fun finalized _ m'' _ hinv' hadmits ↦ ?_
            rcases finalized with - | finalized
            · exact minds_done (.refl m'')
            · exact announce_minds hinv' hadmits
          · exact minds_done hkept

private theorem gameOverTask_minds {socket now : Nat}
    (htask : c.origin.isHydration = false) (hjoin : c.origin.isJoin = false)
    (hroom : (m.objects room).id = roomId) :
    (gameOverTask socket now room : RoomCode js).Minds (upkeep c (some roomId)) m m := by
  unfold gameOverTask
  refine refresh_minds htask ⟨fun m _ _ ↦ minds_done (.refl m), fun m ref hm hholds _ ↦ ?_,
    fun h ↦ absurd h (by rw [hjoin]; exact Bool.false_ne_true)⟩ hroom
  change Code.Minds _ (ite _ _ _) _ _
  split
  · exact minds_done (.refl m)
  · split
    · exact minds_done (.refl m)
    · split
      · exact minds_done (.refl m)
      · refine minds_await htask (.refl m) fun finalized _ m' _ hinv hadmits ↦ ?_
        rcases finalized with - | finalized
        · exact minds_throw (.refl m')
        · exact announce_minds hinv hadmits

private theorem resignTask_minds {socket now : Nat}
    (htask : c.origin.isHydration = false) (hjoin : c.origin.isJoin = false)
    (hroom : (m.objects room).id = roomId) :
    (resignTask socket now room : RoomCode js).Minds (upkeep c (some roomId)) m m := by
  unfold resignTask
  refine refresh_minds htask ⟨fun m _ _ ↦ minds_done (.refl m), fun m ref hm hholds _ ↦ ?_,
    fun h ↦ absurd h (by rw [hjoin]; exact Bool.false_ne_true)⟩ hroom
  change Code.Minds _ (ite _ _ _) _ _
  split
  · exact minds_done (.refl m)
  · split
    · exact minds_done (.refl m)
    · refine minds_await htask (.refl m) fun finalized _ m' _ hinv hadmits ↦ ?_
      rcases finalized with - | finalized
      · exact minds_throw (.refl m')
      · exact announce_minds hinv hadmits

/-! ### accept_rematch -/

private theorem addVote_minds {backend : VoteBackend} {gameId : Nat} {userId : Option Nat}
    {next : Option Nat → RoomCode js} (htask : c.origin.isHydration = false)
    (hnext : ∀ count (m' : Memory js), m.Grows m' → m'.Coherent →
      (next count).Minds (upkeep c (some roomId)) m' m') :
    (addVote backend gameId userId next).Minds (upkeep c (some roomId)) m m := by
  unfold addVote
  split
  · exact minds_throw (.refl m)
  · split
    · exact minds_throw (.refl m)
    · exact minds_throw (.refl m)
    · cases backend with
      | localBackend =>
        exact minds_await htask (.refl m) fun count _ m' hlater hinv _ ↦ hnext count m' hlater.1 hinv
      | redisBackend =>
        refine minds_await htask (.refl m) fun added _ m₁ hlater₁ hinv₁ _ ↦ ?_
        rcases added with - | added
        · exact hnext none m₁ hlater₁.1 hinv₁
        · refine minds_await htask (.refl m₁) fun expired _ m₂ hlater₂ hinv₂ _ ↦ ?_
          rcases expired with - | expired
          · exact hnext none m₂ (hlater₁.1.trans hlater₂.1) hinv₂
          · exact minds_await htask (.refl m₂) fun count _ m₃ hlater₃ hinv₃ _ ↦
              hnext count m₃ ((hlater₁.1.trans hlater₂.1).trans hlater₃.1) hinv₃

/-- The votes are cleared while nothing new lingers, and the rest tells and ends. -/
theorem clearVotes_minds {gameId : Nat} {k : Memory js → Message js}
    (htask : c.origin.isHydration = false) (hkept : m₀.Kept m) :
    (clearVotes gameId (.look fun m ↦ .tell (k m) .done)).Minds (upkeep c (some roomId)) m₀ m := by
  unfold clearVotes
  split
  · exact minds_done hkept
  · exact minds_await htask hkept fun _ _ m' _ _ _ ↦ minds_done (.refl m')

/-- The rematch's object plays again. -/
theorem rematch_minds {count newId now : Nat} (htask : c.origin.isHydration = false) :
    (rematchTask live count newId now : RoomCode js).Minds (upkeep c (some roomId)) m m := by
  change (Code.await _ _ : RoomCode js).Minds _ _ _
  refine minds_await htask (.refl m) fun fetched _ m₁ _ hinv₁ _ ↦ ?_
  change Code.Minds _ (ite _ _ _) _ _
  split
  · exact minds_done (.refl m₁)
  · dsimp only
    split
    · refine minds_await htask (.refl m₁) fun game hreturns m₂ _ hinv₂ _ ↦ ?_
      rcases game with - | game
      · exact minds_throw (.refl m₂)
      · obtain ⟨chess, hchess⟩ := Option.isSome_iff_exists.mp hreturns
        simp only [Code.Minds, hchess]
        exact ⟨Memory.modify_does _ m₂ live rfl, hinv₂.modify rfl,
          clearVotes_minds htask (kept_modify fun h ↦ by cases h)⟩
    · exact minds_throw (.refl m₁)

private theorem acceptTask_minds {backend : VoteBackend} {socket newId now : Nat}
    (htask : c.origin.isHydration = false) (hjoin : c.origin.isJoin = false)
    (hroom : (m.objects room).id = roomId) :
    (acceptTask backend socket newId now room : RoomCode js).Minds (upkeep c (some roomId)) m m := by
  unfold acceptTask
  refine refresh_minds htask ⟨fun m _ _ ↦ minds_done (.refl m), fun m ref hm hholds _ ↦ ?_,
    fun h ↦ absurd h (by rw [hjoin]; exact Bool.false_ne_true)⟩ hroom
  change Code.Minds _ (ite _ _ _) _ _
  split
  · exact minds_done (.refl m)
  · split
    · exact minds_done (.refl m)
    · refine addVote_minds htask fun count m' _ hinv ↦ ?_
      rcases count with - | count
      · exact minds_done (.refl m')
      · exact rematch_minds htask

/-! ### leave_room, disconnect -/

/-- The last turn of a leave or a disconnect. -/
theorem evict_minds {k : RoomCode js} (hk : ∀ m₀ m : Memory js, m₀.Kept m →
      k.Minds (upkeep c (some roomId)) m₀ m) (hm : m.Coherent)
    (hid : (m.objects live).id = roomId) (hnew : m₀.KeptBut m (roomId, live)) :
    (if (m.objects live).status = .finished ∧ (m.objects live).socketless then
      Code.store (·.evict (m.objects live).id) k else k).Minds (upkeep c (some roomId)) m₀ m := by
  split
  · refine ⟨m.evict_does _ _, hm.evict _, hk _ _ fun key hkey ↦ ?_⟩
    obtain ⟨hold, hne⟩ := Memory.lingers_evict hkey
    by_contra hfresh
    rw [hnew key hold hfresh] at hne
    exact hne hid.symm
  · next hgone =>
    refine hk _ _ fun key hkey ↦ ?_
    by_contra hfresh
    obtain rfl := hnew key hkey hfresh
    exact hgone hkey.2

private theorem evict_seesTo {k : RoomCode js} (hk : ∀ m : Memory js, ¬ m.Lingers (roomId, live) →
      k.SeesTo (upkeep c (some roomId)) (roomId, live) m) (hid : (m.objects live).id = roomId) :
    (if (m.objects live).status = .finished ∧ (m.objects live).socketless then
      Code.store (·.evict (m.objects live).id) k else k).SeesTo (upkeep c (some roomId))
        (roomId, live) m := by
  split
  · exact hk _ fun hkey ↦ (Memory.lingers_evict hkey).2 hid.symm
  · next hgone => exact hk _ fun hkey ↦ hgone hkey.2

/-- The vote is withdrawn, then the room is evicted if nobody is left. -/
theorem removeVote_minds {gameId : Nat} {userId : Option Nat} {k : RoomCode js}
    (htask : c.origin.isHydration = false) (hholds : m.Holds roomId live) (hm : m.Coherent)
    (hnew : m₀.KeptBut m (roomId, live))
    (hminds : ∀ m₀ m : Memory js, m.Coherent → m.Holds roomId live → m₀.KeptBut m (roomId, live) →
      k.Minds (upkeep c (some roomId)) m₀ m)
    (hsees : ∀ m : Memory js, m.Holds roomId live →
      k.SeesTo (upkeep c (some roomId)) (roomId, live) m) :
    (removeVote gameId userId k).Minds (upkeep c (some roomId)) m₀ m := by
  have hbut : ∀ m : Memory js, m.KeptBut m (roomId, live) := fun m key h hfresh ↦ absurd h hfresh
  unfold removeVote
  split
  · exact hminds _ _ hm hholds hnew
  · exact hminds _ _ hm hholds hnew
  · split
    · exact hminds _ _ hm hholds hnew
    · refine ⟨fun hh ↦ ?_, fun key hkey hfresh ↦ ?_, fun _ _ m' hlater hinv _ ↦ ?_⟩
      · rw [htask] at hh
        cases hh
      · obtain rfl := hnew key hkey hfresh
        exact ⟨rfl, fun _ _ _ m' hlater _ ↦ hsees m' (hholds.grows hlater.1)⟩
      · exact hminds _ _ hinv (hholds.grows hlater.1) (hbut m')

private theorem depart_minds {i socket : Nat} {seat : Seat} (htask : c.origin.isHydration = false)
    (hholds : m.Holds roomId live) (hm : m.Coherent) (hnew : m₀.KeptBut m (roomId, live)) :
    (departTask live i seat socket : RoomCode js).Minds (upkeep c (some roomId)) m₀ m := by
  have hdoes := Memory.modify_does c.job m live (f := (·.detachAt i)) rfl
  refine ⟨hdoes, hm.modify rfl, removeVote_minds htask (hholds.grows hdoes.toGrows) (hm.modify rfl)
    (fun key hkey hfresh ↦ ?_) (fun m₀ m hm hholds hnew ↦ ?_) fun m hholds ↦ ?_⟩
  · obtain ⟨-, hold⟩ | ⟨heq, hget, -⟩ := Memory.lingers_modify hkey
    · exact hnew key hold hfresh
    · exact Prod.ext ((hm.cached _ _ hget).2.symm.trans hholds.2) heq
  · exact evict_minds (fun _ _ ↦ minds_done) hm hholds.2 hnew
  · exact evict_seesTo (fun _ h hdebt ↦ absurd hdebt h) hholds.2

/-- A `leave_room` without truth does not take the last socket off a finished room. -/
theorem leaveUntrue_minds {socket : Nat} (hm : m.Coherent)
    (hadmits : Admits c.origin m (leaveUntrue socket room)) :
    (leaveUntrue socket room : RoomCode js).Minds (upkeep c (some roomId)) m m := by
  have hleaves := hadmits.leaves socket room rfl
  change Code.Minds _ (ite _ _ _) _ _
  split
  · refine ⟨Memory.modify_does _ m room rfl, hm.modify rfl, fun key hkey hnew ↦ ?_⟩
    obtain ⟨-, hold⟩ | ⟨-, hget, hstatus, hless⟩ := Memory.lingers_modify hkey
    · exact absurd hold hnew
    · have hsome := hleaves ((hm.cached _ _ hget).2 ▸ hget) hstatus
      rw [hless] at hsome
      cases hsome
  · exact minds_done (.refl m)

private theorem leaveTask_minds {socket now : Nat} (htask : c.origin.isHydration = false)
    (hjoin : c.origin.isJoin = false) (hroom : (m.objects room).id = roomId) :
    (leaveTask socket now room : RoomCode js).Minds (upkeep c (some roomId)) m m := by
  unfold leaveTask
  refine refresh_minds htask ⟨fun m hm hadmits ↦ leaveUntrue_minds hm hadmits,
    fun m ref hm hholds _ ↦ ?_, fun h ↦ absurd h (by rw [hjoin]; exact Bool.false_ne_true)⟩ hroom
  have hbut : ∀ m : Memory js, m.KeptBut m (roomId, ref) := fun m key h hfresh ↦ absurd h hfresh
  simp only [Code.Minds]
  split
  · next i seat _ _ =>
    split
    · refine minds_await htask (.refl m) fun finalized _ m' hlater hinv _ ↦ ?_
      rcases finalized with - | finalized
      · exact minds_throw (.refl m')
      · have hholds' := hholds.grows hlater.1
        change Code.Minds _ (announce _ _ _ _ _) _ _
        unfold announce
        split
        · -- The room is over from here on; the departure that follows sees to it.
          have hdoes := Memory.modify_does c.job m' ref (f := fun o ↦ { o with status := .finished }) rfl
          refine ⟨hdoes, hinv.modify rfl, depart_minds htask (hholds'.grows hdoes.toGrows)
            (hinv.modify rfl) fun key hkey hfresh ↦ ?_⟩
          obtain ⟨-, hold⟩ | ⟨heq, hget, -⟩ := Memory.lingers_modify hkey
          · exact absurd hold hfresh
          · exact Prod.ext ((hinv.cached _ _ hget).2.symm.trans hholds'.2) heq
        · exact depart_minds htask hholds' hinv (hbut m')
    · exact depart_minds htask hholds hm (hbut m)
  · exact minds_done (.refl m)

/-- What `disconnect` does last, once its player's vote is withdrawn. -/
theorem hungUp_cases (o : RoomObject js) (x : Message js) {k : RoomCode js} (P : RoomCode js → Prop)
    (htell : P k → P (.tell x k)) (hk : P k) :
    P (if o.status = .playing then .tell x k else k) := by
  split
  · exact htell hk
  · exact hk

private theorem disconnectTask_minds {socket : Nat} (htask : c.origin.isHydration = false)
    (hm : m.Coherent)
    (hholds : m.Holds roomId room) :
    (disconnectTask socket room : RoomCode js).Minds (upkeep c (some roomId)) m m := by
  unfold disconnectTask
  simp only [Code.Minds, hholds.2]
  have hlive : m.Holds roomId ((m.activeRooms.get roomId).getD room) := by
    cases hget : m.activeRooms.get roomId with
    | none => exact hholds
    | some ref => exact hm.cached _ _ hget
  generalize (m.activeRooms.get roomId).getD room = live at hlive ⊢
  split
  · exact minds_done (.refl m)
  · next seat _ =>
    have hdoes := Memory.modify_does c.job m live (f := (·.detach socket)) rfl
    refine ⟨hdoes, hm.modify rfl, removeVote_minds htask (hlive.grows hdoes.toGrows) (hm.modify rfl)
      (fun key hkey hfresh ↦ ?_) (fun m₀ m hm hholds hnew ↦ ?_) fun m hholds ↦ ?_⟩
    · obtain ⟨-, hold⟩ | ⟨heq, hget, -⟩ := Memory.lingers_modify hkey
      · exact absurd hold hfresh
      · exact Prod.ext ((hm.cached _ _ hget).2.symm.trans hlive.2) heq
    · exact hungUp_cases _ _ (fun k ↦ k.Minds (upkeep c (some roomId)) m₀ m) id
        (evict_minds (fun _ _ ↦ minds_done) hm hholds.2 hnew)
    · exact hungUp_cases _ _ (fun k ↦ k.SeesTo (upkeep c (some roomId)) (roomId, live) m) id
        (evict_seesTo (fun _ h hdebt ↦ absurd hdebt h) hholds.2)

/-! ### create_room, hydrations -/

/-- `create_room` minds the room it makes. -/
theorem create_minds {socket newId now : Nat} {name : String} {user : SocketUser}
    {roomId : Option String} (htask : c.origin.isHydration = false) :
    (createRoomCode name socket user newId now : RoomCode js).Minds (upkeep c roomId) m m := by
  unfold createRoomCode
  refine minds_await htask (.refl m) fun game _ m' _ hinv _ ↦ ?_
  rcases game with - | game
  · exact minds_throw (.refl m')
  · dsimp only
    split
    · exact minds_throw (.refl m')
    · refine ⟨m'.add_does _ _, hinv.add _, fun key hkey hnew ↦ ?_⟩
      obtain ⟨-, hstatus, -⟩ | ⟨hold, -⟩ := hinv.lingers_add hkey
      · cases hstatus
      · exact absurd hold hnew

/-- A hydration ends by leaving its result to the joins. -/
theorem finish_minds {result : Option Nat} (hc : c.origin = .hydration roomId)
    (hwait : m.hydrated c.job = none) (hresult : ∀ ref, result = some ref → ref < m.allocated)
    (hnew : ∀ key, m.Lingers key → ¬ m₀.Lingers key → key.1 = roomId ∧ result = some key.2) :
    (hydrateRoom.finish c.job roomId result : RoomCode js).Minds (upkeep c (some roomId)) m₀ m := by
  have hhydration : c.origin.isHydration = true := by
    rw [hc]
    rfl
  refine ⟨fun _ ↦ hwait, fun key hkey hfresh ↦ ?_, fun _ _ m' hlater hinv _ ↦ ?_⟩
  · obtain ⟨rfl, rfl⟩ := hnew key hkey hfresh
    exact ⟨rfl, fun _ _ _ m' _ _ _ ↦ ⟨hhydration, Function.update_self _ _ _, rfl⟩⟩
  · have hdoes : m'.Does c.job { m' with
        hydrating := m'.hydrating.delete roomId
        hydrated := Function.update m'.hydrated c.job (some result) } :=
      ⟨⟨Nat.le_refl _, fun _ _ ↦ rfl⟩, fun _ hne ↦ Function.update_of_ne hne _ _, rfl, rfl⟩
    refine ⟨hdoes, hinv.does hdoes (fun _ _ hget ↦ Or.inl hget) fun ref href ↦ ?_,
      fun key hkey hfresh ↦ absurd hkey hfresh⟩
    dsimp only at href
    rw [Function.update_self] at href
    exact Nat.lt_of_lt_of_le (hresult ref (Option.some.inj href)) hlater.1.allocated

/-- A hydration minds its room. -/
theorem hydrate_minds (hc : c.origin = .hydration roomId) (hwait : m.hydrated c.job = none) :
    (hydrateRoom c.job roomId : RoomCode js).Minds (upkeep c (some roomId)) m m := by
  have hnone : ∀ m : Memory js, m.hydrated c.job = none →
      (hydrateRoom.finish c.job roomId none : RoomCode js).Minds (upkeep c (some roomId)) m m :=
    fun m hwait ↦ finish_minds hc hwait (fun _ h ↦ by cases h) fun key hkey hfresh ↦ absurd hkey hfresh
  unfold hydrateRoom
  refine ⟨fun _ ↦ hwait, fun key hkey hfresh ↦ absurd hkey hfresh, fun answer _ m₁ hlater₁ hinv₁ _ ↦ ?_⟩
  have hwait₁ : m₁.hydrated c.job = none := hlater₁.2.trans hwait
  rcases answer with - | found
  · exact hnone m₁ hwait₁
  · dsimp only
    split
    · exact hnone m₁ hwait₁
    · next snapshot _ =>
      split
      · refine ⟨fun _ ↦ hwait₁, fun key hkey hfresh ↦ absurd hkey hfresh,
          fun abandoned _ m₂ hlater₂ _ _ ↦ ?_⟩
        rcases abandoned with - | abandoned
        · exact minds_throw (.refl m₂)
        · exact hnone m₂ (hlater₂.2.trans hwait₁)
      · next built _ =>
        refine ⟨m₁.add_does _ _, hinv₁.add _, finish_minds hc hwait₁ (fun ref href ↦ ?_)
          fun key hkey hfresh ↦ ?_⟩
        · obtain rfl := Option.some.inj href
          exact Nat.lt_succ_self _
        · obtain ⟨rfl, -⟩ | ⟨hold, -⟩ := hinv₁.lingers_add hkey
          · exact ⟨rfl, rfl⟩
          · exact absurd hold hfresh

/-! ### The task of an event -/

/-- The task that a handler submits on a room of its process minds what it leaves. -/
theorem task_minds (D : Deployment) (htask : c.origin.isHydration = false) (hm : m.Coherent)
    (hholds : m.Holds roomId room) :
    (c.origin.task D room : RoomCode js).Minds (upkeep c (some roomId)) m m := by
  obtain ⟨job, process, origin⟩ := c
  cases origin with
  | hydration name => cases htask
  | disconnect socket => exact disconnectTask_minds htask hm hholds
  | event socket user packet newId now =>
    cases packet with
    | createRoom name => exact minds_done (.refl m)
    | requestRematch name => exact minds_done (.refl m)
    | joinRoom name => exact joinTask_minds rfl hholds.2
    | makeMove name move => exact moveTask_minds htask rfl hholds.2
    | gameOver name => exact gameOverTask_minds htask rfl hholds.2
    | resign name => exact resignTask_minds htask rfl hholds.2
    | acceptRematch name => exact acceptTask_minds htask rfl hholds.2
    | leaveRoom name => exact leaveTask_minds htask rfl hholds.2

/-- The task of a join sees to every object of its room. -/
theorem task_seesTo (D : Deployment) (hjoin : c.origin.isJoin = true) (hm : m.Coherent)
    (hroom : (m.objects room).id = roomId) (ref : Nat) :
    (c.origin.task D room : RoomCode js).SeesTo (upkeep c (some roomId)) (roomId, ref) m := by
  obtain ⟨job, process, origin⟩ := c
  obtain ⟨socket, user, name, newId, now, rfl⟩ : ∃ socket user name newId now,
      origin = .event socket user (.joinRoom name) newId now := by
    unfold Origin.isJoin at hjoin
    split at hjoin
    · next h => exact ⟨_, _, _, _, _, h⟩
    · cases hjoin
  change (joinTask socket user room : RoomCode js).SeesTo _ _ _
  unfold joinTask
  exact refresh_seesTo hjoin hm hroom ref

end ChessStack.Server
