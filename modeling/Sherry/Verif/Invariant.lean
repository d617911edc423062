import Sherry.Verif.Placement

/-!
# The scheduler's invariant over whole runs

`Inv` joins the registry and the placement of every actor. Each function of the interface
keeps it, from any state in which the caller executes, and so does everything that libuv
calls; hence it holds of every state that a run reaches before `sherry_exit` returns.
-/

namespace Sherry

variable {φ : Type} {s t : State Seqs φ} {self a : ActorRef}

/-- The registry is consistent and every actor is where its status says. -/
structure Inv (s : State Seqs φ) : Prop where
  /-- Slots, ids and the counter agree. -/
  registry : Registry s
  /-- Lists, statuses and the processor agree. -/
  placed : Placement s

/-- The part of a state that the invariant sees, without descriptors, buffers, messages,
mailboxes and the history. -/
structure Core (φ : Type) where
  /-- The lists. -/
  waits : Seqs WaitRef ActorRef
  /-- The actors. -/
  actor : ActorRef → Actor φ
  /-- The table. -/
  actors : List (Option ActorRef)
  /-- The stack that executes. -/
  owner : Option Owner
  /-- `sche->running`. -/
  running : ActorRef
  /-- The scheduler's context. -/
  ctx : Context
  /-- The requests libuv holds. -/
  writes : List UvWrite
  /-- `sche->sizeactors`. -/
  sizeactors : Nat
  /-- `sche->curractors`. -/
  curractors : Int
  /-- `sche->main`. -/
  main : ActorRef
  /-- The number of actors made. -/
  nactors : Nat

/-- The core of a state. -/
def State.core (s : State Seqs φ) : Core φ where
  waits := s.waits
  actor := s.actor
  actors := s.actors
  owner := s.cpu.owner
  running := s.running
  ctx := s.ctx
  writes := s.writes
  sizeactors := s.sizeactors
  curractors := s.curractors
  main := s.main
  nactors := s.nactors

/-- The end of `sherry_main` removes the actor from the registry and from the processor. -/
theorem sherryMainReturn_eq (inv : Inv s) (exec : s.executing = some self) {i : Nat}
    (found : s.actors[i]? = some (some self)) :
    sherryMainReturn s self =
      park { s with
        actors := s.actors.set i none
        curractors := s.curractors - 1
        trace := s.trace ++ [.returned self] } self .running none .returned := by
  obtain ⟨current, _⟩ := inv.placed.current self exec
  obtain ⟨_, running, _⟩ := inv.placed.executing exec
  subst current
  have registry : Registry (s.emit (.returned s.running)) :=
    inv.registry.congr rfl rfl rfl rfl rfl (fun _ => rfl) (fun _ _ => rfl)
  have cleared := registry.unregActor_eq found
  change yield (unregActor (s.emit (.returned s.running))
    ((s.emit (.returned s.running)).actor s.running).aid) s.running .returned = _
  rw [cleared, yield_eq (by rfl)]
  simp [State.emit, park, running]

/-- Making an actor does not touch the table. -/
theorem regTable_newActor (s : State Seqs φ) (fn : Option φ) :
    regTable (newActor s fn).1 = regTable s := by
  have free : freeSlot (newActor s fn).1 = freeSlot s := rfl
  unfold regTable
  rw [free]
  cases freeSlot s <;> rfl

/-- `sherry_spawn` registers a new actor under the first free id and makes it ready. -/
theorem sherrySpawn_eq (s : State Seqs φ) (fn : φ) :
    sherrySpawn s fn =
      { s with
        actors := (regTable s).set (regId s) (some s.nactors)
        sizeactors := if (freeSlot s).isSome then s.sizeactors else s.sizeactors * 2
        curractors := s.curractors + 1
        nactors := s.nactors + 1
        waits := enlist s.waits (some .readyq) s.nactors
        mail := s.mail.set s.nactors []
        actor := Function.update s.actor s.nactors
          { aid := regId s
            status := .ready
            ctx := { rsp := some ⟨.actor s.nactors, stackSize - 2 * 8⟩ }
            fn := some fn
            frame := .entry }
        trace := s.trace ++
          [.made (.actor s.nactors) { rsp := some ⟨.actor s.nactors, stackSize - 2 * 8⟩ },
            .spawned s.nactors (regId s)] } := by
  unfold sherrySpawn
  simp only []
  rw [regActor_eq, regTable_newActor, setready_eq (by simp [newActor])]
  have free : freeSlot (newActor s (some fn)).1 = freeSlot s := rfl
  have id : regId (newActor s (some fn)).1 = regId s := rfl
  rw [free, id]
  simp [newActor, wake, enlist, makecontext, setContext, context, State.setFrame, State.setActor,
    State.emit]

/-- Everything that changes no id, no slot and no unallocated actor keeps the registry. -/
theorem Registry.change (registry : Registry s) (allocated : a < s.nactors)
    (actors : t.actors = s.actors) (sizeactors : t.sizeactors = s.sizeactors)
    (curractors : t.curractors = s.curractors) (main : t.main = s.main)
    (nactors : t.nactors = s.nactors) (others : ∀ b, b ≠ a → t.actor b = s.actor b)
    (aid : (t.actor a).aid = (s.actor a).aid) : Registry t := by
  refine registry.congr actors sizeactors curractors main nactors (fun b => ?_) fun b above => ?_
  · by_cases same : b = a
    · rw [same, aid]
    · rw [others b same]
  · exact others b (Nat.ne_of_gt (Nat.lt_of_lt_of_le allocated above))

namespace Inv

/-- `sherry_spawn` keeps the invariant. -/
theorem sherrySpawn (inv : Inv s) (fn : φ) : Inv (sherrySpawn s fn) := by
  have outside : ¬Registered s s.nactors := fun registered =>
    Nat.lt_irrefl _ (inv.registry.allocated registered)
  have idle : s.executing ≠ some s.nactors := fun exec =>
    outside (inv.placed.executing exec).1
  have blank : s.actor s.nactors = {} := inv.registry.fresh _ (Nat.le_refl _)
  have nowhere : home s s.nactors = none := by simp [home, homeOf, blank]
  have unwritten : ∀ req ∈ s.writes, req.data ≠ s.nactors :=
    inv.placed.no_write (by simp [blank])
  have made : Registry (newActor s (some fn)).1 := inv.registry.newActor (some fn)
  have registered : ∀ b, Registered (Sherry.sherrySpawn s fn) b ↔
      b = s.nactors ∨ Registered s b := fun _ =>
    inv.registry.registered_entered (by rw [sherrySpawn_eq])
  have own : (Sherry.sherrySpawn s fn).actor s.nactors =
      { aid := regId s
        status := .ready
        ctx := { rsp := some ⟨.actor s.nactors, stackSize - 2 * 8⟩ }
        fn := some fn
        frame := .entry } := by
    simp [sherrySpawn_eq]
  have others : ∀ b, b ≠ s.nactors → (Sherry.sherrySpawn s fn).actor b = s.actor b := by
    intro b other
    simp [sherrySpawn_eq, other]
  constructor
  · have added := made.regActor (Nat.lt_succ_self s.nactors) outside
    rw [regActor_eq, regTable_newActor] at added
    rw [sherrySpawn_eq] at own others ⊢
    refine added.congr rfl rfl rfl rfl rfl (fun b => ?_) fun b above => ?_
    · by_cases same : b = s.nactors
      · subst same
        rw [own]
        simp
        rfl
      · rw [others b same]
        simp [newActor, same]
    · have below : s.nactors + 1 ≤ b := above
      have other : b ≠ s.nactors := by omega
      rw [others b other]
      simp [newActor, other]
  · rw [sherrySpawn_eq] at own others registered ⊢
    refine inv.placed.change s.nactors others ?registered (fun _ _ => Iff.rfl) ?homed ?fits
      inv.placed.current ?recvSelf (Nat.le_refl _) ?onFd (fun req member _ => member)
      (fun req member same => absurd same (unwritten req member)) inv.placed.oneWrite
    case registered =>
      intro b other
      simp [registered, other]
    case homed =>
      rw [home, own]
      exact inv.placed.homed.append nowhere
    case fits =>
      rw [own]
      exact ⟨(registered _).mpr (.inl rfl), idle, rfl⟩
    case recvSelf =>
      rw [own]
      simp
    case onFd =>
      rw [own]
      simp [Frame.onFd]

/-- The invariant sees only the core of a state, and how many descriptors there are. -/
theorem congr (inv : Inv s) (core : t.core = s.core) (nfds : s.nfds ≤ t.nfds) : Inv t := by
  have waits : t.waits = s.waits := congrArg Core.waits core
  have actor : t.actor = s.actor := congrArg Core.actor core
  have actors : t.actors = s.actors := congrArg Core.actors core
  have nactors : t.nactors = s.nactors := congrArg Core.nactors core
  constructor
  · exact inv.registry.congr actors (congrArg Core.sizeactors core)
      (congrArg Core.curractors core) (congrArg Core.main core) nactors
      (fun a => by rw [actor]) (fun a _ => by rw [actor])
  · exact inv.placed.congr waits actor actors (congrArg Core.owner core)
      (congrArg Core.running core) (congrArg Core.ctx core) nfds (congrArg Core.writes core)

/-- A member of a list was allocated. -/
theorem member_allocated (inv : Inv s) {l : WaitRef} (inside : a ∈ s.waits.seq l) :
    a < s.nactors :=
  inv.registry.allocated (inv.placed.member inside).2.1

/-- `unblock_all` of a wait queue wakes every actor in it. -/
theorem unblockAll_eq (inv : Inv s) {list : WaitRef} (apart : list ≠ .readyq) :
    unblockAll s list = Sherry.wakeAll s list := by
  refine unblockLoop_eq apart rfl (inv.placed.homed.nodup list) (fun b member => ?_)
    (inv.placed.homed.length_le fun b member => inv.member_allocated member)
  rcases (inv.placed.blocked_of_member apart member).1 with status | status <;> simp [status]

/-- Suspending the executing actor keeps the invariant. -/
theorem park (inv : Inv s) (exec : s.executing = some self) {status : Status} {frame : Frame}
    (parks : Parks self status frame) (onFd : ∀ fd, frame.onFd = some fd → fd < s.nfds)
    {list : WaitRef} (at_home : homeOf status frame = some list) :
    Inv (Sherry.park s self status (some list) frame) := by
  have allocated := inv.registry.allocated (inv.placed.executing exec).1
  constructor
  · refine inv.registry.change allocated rfl rfl rfl rfl rfl (fun b other => ?_) ?_
    · simp [Sherry.park, other]
    · simp [Sherry.park]
  · rw [← at_home]
    exact inv.placed.park exec parks onFd (.inl rfl)

/-- `sherry_yield` keeps the invariant. -/
theorem sherryYield (inv : Inv s) (exec : s.executing = some self) {frame : Frame}
    (plain : frame = .user ∨ frame = .exit) : Inv (sherryYield s self frame) := by
  rw [sherryYield_eq (inv.placed.current self exec).1 (inv.placed.executing exec).2.1]
  rcases plain with rfl | rfl
  · exact inv.park exec ⟨by nofun, trivial⟩ (by nofun) rfl
  · exact inv.park exec ⟨by nofun, trivial⟩ (by nofun) rfl

/-- `block_fd` from `sherry_read` or `sherry_accept` keeps the invariant. -/
theorem blockFd (inv : Inv s) (exec : s.executing = some self) {fd : FdRef} {frame : Frame}
    (live : fd < s.nfds)
    (waits : (∃ count, frame = .read fd count) ∨ ∃ client, frame = .accept fd client) :
    Inv (blockFd s self fd .read frame) := by
  have bound : ∀ f, some fd = some f → f < s.nfds := fun f same =>
    Option.some.inj same ▸ live
  rw [blockFd_eq (inv.placed.current self exec).1]
  rcases waits with ⟨count, rfl⟩ | ⟨client, rfl⟩
  · exact inv.park exec ⟨by nofun, rfl⟩ (by exact bound) rfl
  · exact inv.park exec ⟨by nofun, rfl⟩ (by exact bound) rfl

/-- The end of `sherry_main` keeps the invariant. -/
theorem sherryMainReturn (inv : Inv s) (exec : s.executing = some self)
    (other : self ≠ s.main) : Inv (sherryMainReturn s self) := by
  obtain ⟨registered, running, _⟩ := inv.placed.executing exec
  have removed := inv.registry.unregActor registered other
  obtain ⟨i, found, _⟩ := inv.registry.at_id registered
  have unwritten : ∀ req ∈ s.writes, req.data ≠ self := inv.placed.no_write (by simp [running])
  have scheduler := (inv.placed.current self exec).2
  rw [inv.registry.unregActor_eq found] at removed
  rw [sherryMainReturn_eq inv exec found]
  constructor
  · refine removed.change (inv.registry.allocated registered) rfl rfl rfl rfl rfl
      (fun b apart => ?_) ?_
    · simp [Sherry.park, apart]
    · simp [Sherry.park]
  · refine inv.placed.change self ?others ?registered ?exec ?homed ?fits ?current ?recvSelf
      (Nat.le_refl _) ?onFd (fun req member _ => member)
      (fun req member same => absurd same (unwritten req member)) inv.placed.oneWrite
    case others =>
      intro b apart
      simp [Sherry.park, apart]
    case registered =>
      intro b apart
      exact (inv.registry.registered_left found rfl).trans (and_iff_left apart)
    case exec =>
      intro b apart
      rw [exec, executing_none (by exact scheduler)]
      exact iff_of_false (by simp) fun same => apart (Option.some.inj same).symm
    case homed =>
      have nowhere : home s self = none := by simp [home, homeOf, running]
      rw [show home _ self = none by simp [home, homeOf, Sherry.park],
        Function.update_eq_self_iff.mpr nowhere.symm]
      exact inv.placed.homed
    case fits =>
      have status : ((Sherry.park { s with
          actors := s.actors.set i none
          curractors := s.curractors - 1
          trace := s.trace ++ [.returned self] } self .running none .returned).actor
            self).status = .running := by simp [Sherry.park]
      unfold Fits
      rw [status]
      apply iff_of_false (fun held => ((inv.registry.registered_left found (by rfl)).mp held).2 rfl)
      rw [executing_none (by exact scheduler)]
      simp
    case current =>
      intro b exec'
      rw [executing_none (by exact scheduler)] at exec'
      cases exec'
    case recvSelf => simp [Sherry.park]
    case onFd => simp [Sherry.park, Frame.onFd]

/-- Moving the executing actor on to its own code keeps the invariant. -/
theorem setFrame (inv : Inv s) (exec : s.executing = some self) :
    Inv (s.setFrame self .user) := by
  have allocated := inv.registry.allocated (inv.placed.executing exec).1
  refine ⟨inv.registry.change allocated rfl rfl rfl rfl rfl (fun b other => ?_) ?_,
    inv.placed.setFrame exec⟩
  · simp [State.setFrame, State.setActor, other]
  · simp [State.setFrame, State.setActor]

/-- The end of `sherry_msg_recv` keeps the invariant. -/
theorem msgRecvTail (inv : Inv s) (exec : s.executing = some self) :
    Inv (msgRecvTail s self self) :=
  (inv.setFrame exec).congr rfl (Nat.le_refl _)

/-- `sherry_msg_recv` keeps the invariant. -/
theorem sherryMsgRecv (inv : Inv s) (exec : s.executing = some self) :
    Inv (sherryMsgRecv s self) := by
  have current := (inv.placed.current self exec).1
  by_cases empty : s.mail.seq self = []
  · rw [sherryMsgRecv_empty current empty]
    exact inv.park exec ⟨by simp, rfl⟩ (by nofun) rfl
  · rw [sherryMsgRecv_cons current empty]
    exact inv.msgRecvTail exec

/-- Waking a blocked actor that was taken off its list keeps the invariant. -/
theorem wake (inv : Inv s) (registered : Registered s a)
    (blocked : (s.actor a).status = .waitMsg ∨ (s.actor a).status = .waitEv)
    {waits : Seqs WaitRef ActorRef} {writes : List UvWrite}
    (homed : waits.Homed (Function.update (home s) a none)) (kept : writes.Sublist s.writes)
    (dropped : ∀ req ∈ writes, req.data ≠ a) :
    Inv (Sherry.wake { s with waits, writes } a) := by
  have allocated := inv.registry.allocated registered
  refine ⟨inv.registry.change allocated rfl rfl rfl rfl rfl (fun b other => ?_) ?_,
    inv.placed.wake blocked homed kept dropped⟩
  · simp [Sherry.wake, other]
  · simp [Sherry.wake]

/-- Waking every actor of a wait queue keeps the invariant. -/
theorem wakeAll (inv : Inv s) {list : WaitRef} (apart : list ≠ .readyq) :
    Inv (Sherry.wakeAll s list) := by
  have same : ∀ b, b ∉ s.waits.seq list → (Sherry.wakeAll s list).actor b = s.actor b := by
    intro b absent
    simp [Sherry.wakeAll, absent]
  refine ⟨inv.registry.congr rfl rfl rfl rfl rfl (fun b => ?_) (fun b above => same b ?_),
    inv.placed.wakeAll apart⟩
  · simp only [Sherry.wakeAll]
    split <;> rfl
  · exact fun member => Nat.lt_irrefl _ (Nat.lt_of_lt_of_le (inv.member_allocated member) above)

/-- Giving the processor to the first ready actor keeps the invariant. -/
theorem dispatch (inv : Inv s) (owner : s.cpu.owner = some .scheduler) {rest : List ActorRef}
    (first : s.waits.seq .readyq = a :: rest) : Inv (Sherry.dispatch s a rest) := by
  have allocated : a < s.nactors := inv.member_allocated (first ▸ List.mem_cons_self)
  refine ⟨inv.registry.change allocated rfl rfl rfl rfl rfl (fun b other => ?_) ?_,
    inv.placed.dispatch owner first⟩
  · simp [Sherry.dispatch, other]
  · simp [Sherry.dispatch]

/-- Revoking a receiver keeps the invariant. -/
theorem revoke (inv : Inv s) (recver : ActorRef) : Inv (revoke s recver) := by
  unfold Sherry.revoke
  split
  · rename_i waiting
    have member : recver ∈ s.waits.seq .waitingmsg := inv.placed.mem_waitingmsg.mpr waiting
    have at_home := (inv.placed.homed.mem_iff _ _).mp member
    exact inv.wake (inv.placed.member member).2.1 (.inl waiting) (inv.placed.homed.erase at_home)
      (List.Sublist.refl _) (inv.placed.no_write (by simp [waiting]))
  · exact inv

/-- `sherry_msg_send` keeps the invariant. -/
theorem sherryMsgSend (inv : Inv s) {dst msgtype : Int} {payload : Sds}
    (sent : sherryMsgSend s self dst msgtype payload = .ok t) : Inv t := by
  obtain ⟨_, _, recver, _, rfl⟩ := sherryMsgSend_ok.mp sent
  have placed : Inv (deliver s self recver (msgFor s recver msgtype payload)) :=
    inv.congr rfl (Nat.le_refl _)
  exact placed.revoke recver

/-- The wait queues of a descriptor not yet allocated are empty. -/
theorem waitq_empty (inv : Inv s) {fd : FdRef} (above : s.nfds ≤ fd) (event : Ev) :
    s.waits.seq (.waitq fd event) = [] := by
  apply List.eq_nil_iff_forall_not_mem.mpr
  intro b member
  obtain ⟨_, _, waits⟩ := inv.placed.mem_waitq.mp member
  have on : (s.actor b).frame.onFd = some fd := by
    rcases waits with ⟨count, frame⟩ | ⟨client, frame⟩ <;> simp [frame, Frame.onFd]
  exact absurd (inv.placed.onFd b fd on) (Nat.not_lt.mpr above)

/-- Initialising the wait queues of a new descriptor changes nothing. -/
theorem fresh_waitq (inv : Inv s) :
    listInit (listInit s.waits (.waitq s.nfds .read)) (.waitq s.nfds .write) = s.waits := by
  have reads := inv.waitq_empty (Nat.le_refl s.nfds) .read
  have writes := inv.waitq_empty (Nat.le_refl s.nfds) .write
  simp only [listInit_seqs]
  rw [Seqs.set_eq_self reads, Seqs.set_eq_self writes]

/-- `sherry_fd_tcp` keeps the invariant. -/
theorem sherryFdTcp (inv : Inv s) (allocated : Bool) : Inv (sherryFdTcp s allocated) := by
  unfold Sherry.sherryFdTcp fdnew
  cases allocated with
  | false => exact inv.congr rfl (Nat.le_refl _)
  | true =>
    refine inv.congr ?_ (Nat.le_succ _)
    exact congrArg (fun waits => { s.core with waits }) inv.fresh_waitq

/-- `sherry_listen` keeps the invariant. -/
theorem sherryListen (inv : Inv s) (fd : Option FdRef) (ret : Int) :
    Inv (sherryListen s fd ret) := by
  unfold Sherry.sherryListen
  split
  · exact inv.congr rfl (Nat.le_refl _)
  · split
    · exact inv.congr rfl (Nat.le_refl _)
    · simp only []
      split <;> exact inv.congr rfl (Nat.le_refl _)

/-- One iteration of the loop of `sherry_accept` keeps the invariant. -/
theorem sherryAccept (inv : Inv s) (exec : s.executing = some self) {server : FdRef}
    (live : server < s.nfds) (client : FdRef) (err : Int) :
    Inv (sherryAccept s self server client err) := by
  unfold Sherry.sherryAccept
  split
  · exact (inv.setFrame exec).congr rfl (Nat.le_refl _)
  · exact inv.blockFd exec live (.inr ⟨client, rfl⟩)

/-- One iteration of the loop of `sherry_read` keeps the invariant. -/
theorem readLoop (inv : Inv s) (exec : s.executing = some self) {fd : FdRef}
    (live : fd < s.nfds) (count : Nat) : Inv (readLoop s self fd count) := by
  unfold Sherry.readLoop
  simp only []
  split
  · exact (inv.setFrame exec).congr rfl (Nat.le_refl _)
  split
  · exact (inv.setFrame exec).congr rfl (Nat.le_refl _)
  · exact inv.blockFd exec live (.inl ⟨count, rfl⟩)

/-- `sherry_read` keeps the invariant. -/
theorem sherryRead (inv : Inv s) (exec : s.executing = some self) {fd : FdRef}
    (live : fd < s.nfds) (count : Nat) (err : Int) : Inv (sherryRead s self fd count err) := by
  unfold Sherry.sherryRead
  split
  · exact inv.congr rfl (Nat.le_refl _)
  · have started :
        Inv (s.setFd fd fun f => { f with handle := { f.handle with reading := true } }) :=
      inv.congr rfl (Nat.le_refl _)
    exact started.readLoop exec live count

/-- `sherry_write` keeps the invariant, whatever `uv_write` returns. -/
theorem sherryWrite (inv : Inv s) (exec : s.executing = some self) {fd : FdRef}
    (live : fd < s.nfds) (count : Nat) (ret : Int) : Inv (sherryWrite s self fd count ret) := by
  have allocated := inv.registry.allocated (inv.placed.executing exec).1
  have bound : ∀ f, (Frame.write fd count).onFd = some f → f < s.nfds := fun f same =>
    Option.some.inj same ▸ live
  have taken : s.writes ++ (if ret = 0 then [⟨fd, self⟩] else []) = s.writes ∨
      ∃ fd' count', s.writes ++ (if ret = 0 then [⟨fd, self⟩] else []) =
        s.writes ++ [⟨fd', self⟩] ∧ Status.waitEv = .waitEv ∧
          Frame.write fd count = .write fd' count' := by
    by_cases accepted : ret = 0
    · exact .inr ⟨fd, count, by simp [accepted], rfl, rfl⟩
    · exact .inl (by simp [accepted])
  have parked := inv.placed.park exec ⟨by nofun, rfl⟩ bound taken
  rw [sherryWrite_eq (inv.placed.current self exec).1]
  refine ⟨inv.registry.change allocated rfl rfl rfl rfl rfl (fun b other => ?_) ?_,
    parked.congr rfl rfl rfl rfl rfl rfl (Nat.le_refl _) rfl⟩
  · simp [Sherry.park, other]
  · simp [Sherry.park]

/-- `unblock_all` of a wait queue keeps the invariant. -/
theorem unblockAll (inv : Inv s) (fd : FdRef) (event : Ev) :
    Inv (unblockAll s (.waitq fd event)) := by
  rw [inv.unblockAll_eq (by simp)]
  exact inv.wakeAll (by simp)

/-- Freeing a buffer keeps the invariant. -/
theorem freeBase (inv : Inv s) (base : Option BufRef) : Inv (freeBase s base) := by
  unfold Sherry.freeBase
  split
  · exact inv.congr rfl (Nat.le_refl _)
  · exact inv

/-- Changing a descriptor keeps the invariant. -/
theorem setFd (inv : Inv s) (fd : FdRef) (change : SherryFd → SherryFd) :
    Inv (s.setFd fd change) :=
  inv.congr rfl (Nat.le_refl _)

/-- Extending the history keeps the invariant. -/
theorem emit (inv : Inv s) (o : Obs) : Inv (s.emit o) :=
  inv.congr rfl (Nat.le_refl _)

/-- `read_cb` keeps the invariant. -/
theorem readCb (inv : Inv s) (fd : FdRef) (nread : Int) (buf : UvBuf) :
    Inv (readCb s fd nread buf) := by
  unfold Sherry.readCb
  split
  · exact (inv.setFd fd _).freeBase buf.base
  · simp only []
    split
    · exact ((((inv.emit _).freeBase _).setFd fd _).setFd fd _).unblockAll fd .read
    · exact ((inv.emit _).setFd fd _).unblockAll fd .read

/-- `rbuf_alloc` keeps the invariant. -/
theorem rbufAlloc (inv : Inv s) (content : List UInt8) (allocated : Bool) :
    Inv (rbufAlloc s content allocated).1 := by
  unfold Sherry.rbufAlloc
  split
  · exact inv.congr rfl (Nat.le_refl _)
  · exact inv

/-- `close_cb` keeps the invariant. -/
theorem closeCb (inv : Inv s) (fd : FdRef) : Inv (closeCb s fd) := by
  unfold Sherry.closeCb fdfree
  split <;> exact inv.congr rfl (Nat.le_refl _)

/-- `write_cb` with status zero keeps the invariant. -/
theorem writeCb (inv : Inv s) {req : UvWrite} {status : Int} (pending : req ∈ s.writes)
    (done : writeCb { s with writes := s.writes.erase req } req status = .ok t) : Inv t := by
  obtain ⟨blocked, count, frame⟩ := inv.placed.writes req pending
  have registered : Registered s req.data := by
    have fits := inv.placed.fits req.data
    simp only [Fits, blocked] at fits
    exact fits.1
  have nowhere : home s req.data = none := by simp [home, homeOf, blocked, frame]
  have dropped : ∀ other ∈ s.writes.erase req, other.data ≠ req.data := by
    intro other member same
    have distinct : s.writes.Nodup := inv.placed.oneWrite.of_map
    obtain ⟨apart, inside⟩ := distinct.mem_erase_iff.mp member
    exact apart (List.inj_on_of_nodup_map inv.placed.oneWrite inside pending same)
  have homed : s.waits.Homed (Function.update (home s) req.data none) := by
    rw [Function.update_eq_self_iff.mpr nowhere.symm]
    exact inv.placed.homed
  obtain ⟨rfl, rfl⟩ := writeCb_ok.mp done
  rw [setready_eq (by simp [blocked])]
  exact (inv.wake registered (.inr blocked) homed List.erase_sublist dropped).emit _

/-- One iteration of the loop of `schdule` keeps the invariant. -/
theorem schdule (inv : Inv s) (owner : s.cpu.owner = some .scheduler) : Inv (schdule s) := by
  cases first : s.waits.seq .readyq with
  | nil =>
    rw [schdule_nil first]
    exact inv.congr rfl (Nat.le_refl _)
  | cons next rest =>
    rw [schdule_cons first]
    exact inv.dispatch owner first

/-- `sherry_exit` keeps the invariant as long as it does not return. -/
theorem sherryExit (inv : Inv s) (exec : s.executing = some self)
    (live : (sherryExit s self).exited = false) : Inv (sherryExit s self) := by
  unfold Sherry.sherryExit at live ⊢
  split at live
  · rename_i more
    simp only [more, ↓reduceIte]
    exact inv.sherryYield exec (.inr rfl)
  · cases live

/-- The code of a resumed actor keeps the invariant. -/
theorem resume (inv : Inv s) (exec : s.executing = some self) {err : Int}
    (resumed : resume s self err = .ok t) (live : t.exited = false) : Inv t := by
  rw [resume_ok] at resumed
  split at resumed
  · exact resumed.elim
  · exact resumed ▸ inv.setFrame exec
  · rename_i a frame
    obtain rfl := inv.placed.recvSelf self a frame
    exact resumed ▸ inv.msgRecvTail exec
  · obtain ⟨⟨server, _⟩, rfl⟩ := resumed
    exact inv.sherryAccept exec (liveFd_iff.mp server).1 _ err
  · obtain ⟨fd, rfl⟩ := resumed
    exact inv.readLoop exec (liveFd_iff.mp fd).1 _
  · exact resumed ▸ (inv.setFrame exec).emit _
  · subst resumed
    exact inv.sherryExit exec live
  · exact resumed.elim

/-- Every event that leaves the program running keeps the invariant. -/
theorem step (inv : Inv s) {e : Event φ} (taken : step s e = .ok t) (live : t.exited = false) :
    Inv t := by
  cases e with
  | compute ctx =>
    obtain ⟨self, user, done⟩ := call_ok.mp taken
    obtain ⟨owner, same⟩ := Machine.ite_ok.mp done
    cases same
    exact inv.congr (by simp [State.core, owner]) (Nat.le_refl _)
  | spawn fn =>
    obtain ⟨self, user, done⟩ := call_ok.mp taken
    cases done
    exact inv.sherrySpawn fn
  | yield =>
    obtain ⟨self, user, done⟩ := call_ok.mp taken
    cases done
    exact inv.sherryYield (inUser_iff.mp user).2.1 (.inl rfl)
  | send dst msgtype payload =>
    obtain ⟨self, user, done⟩ := call_ok.mp taken
    exact inv.sherryMsgSend done
  | recv =>
    obtain ⟨self, user, done⟩ := call_ok.mp taken
    cases done
    exact inv.sherryMsgRecv (inUser_iff.mp user).2.1
  | msgFree m =>
    obtain ⟨self, user, done⟩ := call_ok.mp taken
    cases done
    exact inv.congr rfl (Nat.le_refl _)
  | fdTcp allocated =>
    obtain ⟨self, user, done⟩ := call_ok.mp taken
    cases done
    exact inv.sherryFdTcp allocated
  | listen fd ret =>
    obtain ⟨self, user, done⟩ := call_ok.mp taken
    obtain ⟨_, same⟩ := Machine.ite_ok.mp done
    cases same
    exact inv.sherryListen fd ret
  | accept server client err =>
    obtain ⟨self, user, server', done⟩ := fdCall_ok.mp taken
    obtain ⟨_, same⟩ := Machine.ite_ok.mp done
    cases same
    exact inv.sherryAccept (inUser_iff.mp user).2.1 (liveFd_iff.mp server').1 client err
  | read fd count err =>
    obtain ⟨self, user, fd', done⟩ := fdCall_ok.mp taken
    cases done
    exact inv.sherryRead (inUser_iff.mp user).2.1 (liveFd_iff.mp fd').1 count err
  | write fd count ret =>
    obtain ⟨self, user, fd', done⟩ := fdCall_ok.mp taken
    cases done
    exact inv.sherryWrite (inUser_iff.mp user).2.1 (liveFd_iff.mp fd').1 count ret
  | close fd =>
    obtain ⟨self, user, fd', done⟩ := fdCall_ok.mp taken
    unfold sherryFdClose at done
    split at done <;> cases done
    exact inv.setFd fd _
  | ret =>
    obtain ⟨self, user, done⟩ := call_ok.mp taken
    split at done <;> cases done
    rename_i other
    exact inv.sherryMainReturn (inUser_iff.mp user).2.1 other
  | exit =>
    obtain ⟨self, user, done⟩ := call_ok.mp taken
    obtain ⟨_, same⟩ := Machine.ite_ok.mp done
    cases same
    exact inv.sherryExit (inUser_iff.mp user).2.1 live
  | resume err =>
    obtain ⟨_, self, exec, done⟩ := resume_step.mp taken
    exact inv.resume exec done live
  | schdule =>
    obtain ⟨on, _, done⟩ := onLoop_ok.mp taken
    cases done
    exact inv.schdule (onScheduler_iff.mp on).2.1
  | uvReturn =>
    obtain ⟨on, _, done⟩ := onLoop_ok.mp taken
    cases done
    exact inv.congr rfl (Nat.le_refl _)
  | listenCb fd status =>
    obtain ⟨on, _, done⟩ := onLoop_ok.mp taken
    cases done
    exact inv.unblockAll fd .read
  | readCb fd nread content allocated =>
    obtain ⟨on, _, done⟩ := onLoop_ok.mp taken
    cases done
    exact (inv.rbufAlloc content allocated).readCb fd nread _
  | writeCb req status =>
    obtain ⟨on, pending, done⟩ := onLoop_ok.mp taken
    exact inv.writeCb pending done
  | closeCb fd =>
    obtain ⟨on, _, done⟩ := onLoop_ok.mp taken
    cases done
    exact inv.closeCb fd

end Inv

/-- The state at the end of `sherry_init`. -/
theorem sherryInit_eq :
    (sherryInit : State Seqs φ) =
      { sizeactors := initialSize
        curractors := 1
        actors := (List.replicate initialSize none).set 0 (some 0)
        main := 0
        running := 0
        ctx := { rsp := some ⟨.scheduler, stackSize - 2 * 8⟩ }
        waits := ⟨fun _ => []⟩
        mail := ⟨fun _ => []⟩
        actor := Function.update (fun _ => {}) 0 { aid := 0, status := .running }
        nactors := 1
        msg := fun _ => {}
        nmsgs := 0
        fd := fun _ => {}
        nfds := 0
        buf := fun _ => []
        nbufs := 0
        freed := []
        cpu := { rsp := some ⟨.actor 0, 0⟩ }
        polling := false
        writes := []
        exited := false
        trace := [.made .scheduler { rsp := some ⟨.scheduler, stackSize - 2 * 8⟩ }] } := by
  have free : freeSlot { (newActor (processStart : State Seqs φ) none).1 with
      main := (newActor (processStart : State Seqs φ) none).2 } = some 0 := rfl
  have lists : ((ListStore.blank : Seqs WaitRef ActorRef).set .readyq []).set .waitingmsg [] =
      ⟨fun _ => []⟩ := by
    have first : (ListStore.blank : Seqs WaitRef ActorRef).set .readyq [] = ListStore.blank :=
      Seqs.set_eq_self rfl
    rw [first]
    exact Seqs.set_eq_self rfl
  have mailbox : (ListStore.blank : Seqs ActorRef MsgRef).set 0 [] = ⟨fun _ => []⟩ :=
    Seqs.set_eq_self rfl
  unfold sherryInit
  simp only [regActor]
  rw [free]
  simp [newActor, processStart, setrunning, State.setStatus, State.setActor, makecontext,
    setContext, context, State.emit, lists, mailbox]

/-- `sherry_init` registers main as the executing actor over empty lists. -/
theorem inv_sherryInit : Inv (sherryInit : State Seqs φ) := by
  have nonempty : 0 < initialSize := by decide
  have slot : ∀ (i : Nat) (b : ActorRef),
      ((List.replicate initialSize none).set 0 (some 0))[i]? = some (some b) ↔ i = 0 ∧ b = 0 := by
    intro i b
    rw [List.getElem?_set]
    by_cases zero : 0 = i
    · simp [← zero, nonempty, eq_comm]
    · simp [zero, Ne.symm zero, List.getElem?_replicate]
  have registered : ∀ b, some b ∈ (List.replicate initialSize none).set 0 (some (0 : ActorRef)) ↔
      b = 0 := by
    intro b
    simp [List.mem_iff_getElem?, slot]
  rw [sherryInit_eq]
  constructor
  · constructor
    · simp
    · exact nonempty
    · intro i b found
      obtain ⟨rfl, rfl⟩ := (slot i b).mp found
      simp
    · rw [List.countP_set (by simpa using nonempty)]
      simp [List.countP_replicate]
    · simp [nonempty]
    · intro b above
      have other : b ≠ 0 := Nat.ne_of_gt above
      simp [other]
  · constructor
    · apply Seqs.Homed.empty.congr
      intro b
      by_cases main : b = 0 <;> simp [home, homeOf, main]
    · intro b
      by_cases main : b = 0
      · subst main
        simp only [Fits, Function.update_self]
        exact iff_of_true ((registered 0).mpr rfl) rfl
      · simp only [Fits, Function.update_of_ne main]
        refine ⟨fun held => main ((registered b).mp held), fun exec => ?_⟩
        exact main (by simpa [State.executing, Context.owner, eq_comm] using exec)
    · intro b exec
      exact ⟨by simpa [State.executing, Context.owner] using exec, rfl⟩
    · intro b c
      by_cases main : b = 0 <;> simp [main]
    · intro b fd
      by_cases main : b = 0 <;> simp [main, Frame.onFd]
    · simp
    · simp

/-- Every state of a run satisfies the invariant until `sherry_exit` returns. -/
theorem inv_run {es : List (Event φ)}
    (ran : Machine.run step (sherryInit : State Seqs φ) es = .ok s) (live : s.exited = false) :
    Inv s := by
  have kept : ∀ {s : State Seqs φ} {e : Event φ} {t : State Seqs φ},
      (s.exited = false → Inv s) → step s e = .ok t → t.exited = false → Inv t :=
    fun inv taken live => (inv (step_live taken)).step taken live
  have start : (sherryInit : State Seqs φ).exited = false → Inv (sherryInit : State Seqs φ) :=
    fun _ => inv_sherryInit
  have finish : s.exited = false → Inv s := Machine.run_keeps kept start ran
  exact finish live

end Sherry
