import Sherry.Verif.Steps

/-!
# The moves of an actor between the processor and the lists

Over the store of sequences every function that suspends, wakes or resumes an actor is one of
three moves. `park` puts the executing actor into a list, or into none, and switches to the
scheduler; `wake` puts a suspended actor at the tail of `readyq`; `dispatch` takes an actor
off `readyq` and switches to it. The equations below say which function is which move, so a
property of a move is proved once for all of its callers.
-/

namespace Sherry

variable {φ : Type} {s t : State Seqs φ}

/-- Append an actor to a list, if one is named. -/
def enlist (q : Seqs WaitRef ActorRef) (list : Option WaitRef) (a : ActorRef) :
    Seqs WaitRef ActorRef :=
  match list with
  | some l => q.set l (q.seq l ++ [a])
  | none => q

/-- The executing actor suspends itself in a frame and a list, with a new status. -/
def park (s : State Seqs φ) (self : ActorRef) (status : Status) (list : Option WaitRef)
    (frame : Frame) : State Seqs φ :=
  { s with
    waits := enlist s.waits list self
    actor := Function.update s.actor self { s.actor self with status, frame, ctx := s.cpu }
    cpu := s.ctx
    trace := s.trace ++ [.swapped (.actor self) .scheduler s.cpu s.ctx] }

/-- A suspended actor becomes ready. -/
def wake (s : State Seqs φ) (a : ActorRef) : State Seqs φ :=
  { s with
    waits := enlist s.waits (some .readyq) a
    actor := Function.update s.actor a { s.actor a with status := .ready } }

/-- All actors of a list become ready, in their order. -/
def wakeAll (s : State Seqs φ) (list : WaitRef) : State Seqs φ :=
  { s with
    waits := (s.waits.set list []).set .readyq (s.waits.seq .readyq ++ s.waits.seq list)
    actor := fun a =>
      if a ∈ s.waits.seq list then { s.actor a with status := .ready } else s.actor a }

/-- The first ready actor gets the processor. -/
def dispatch (s : State Seqs φ) (next : ActorRef) (rest : List ActorRef) : State Seqs φ :=
  { s with
    waits := s.waits.set .readyq rest
    actor := Function.update s.actor next { s.actor next with status := .running }
    running := next
    ctx := s.cpu
    cpu := (s.actor next).ctx
    trace := s.trace ++ [.swapped .scheduler (.actor next) s.cpu (s.actor next).ctx] }

/-- `yield` parks the running actor without touching its status or its list. -/
theorem yield_eq {self : ActorRef} (current : s.running = self) (frame : Frame) :
    yield s self frame = park s self (s.actor self).status none frame := by
  subst current
  simp [yield, swapcontext, setContext, context, State.setFrame, State.setActor, State.emit,
    park, enlist]

/-- `setready` wakes an actor that is not ready. -/
theorem setready_eq {a : ActorRef} (blocked : (s.actor a).status ≠ .ready) :
    setready s a = wake s a := by
  simp [setready, blocked, State.setStatus, State.setActor, wake, enlist]

/-- `sherry_yield` parks the running actor at the tail of `readyq`. -/
theorem sherryYield_eq {self : ActorRef} (current : s.running = self)
    (running : (s.actor self).status = .running) (frame : Frame) :
    sherryYield s self frame = park s self .ready (some .readyq) frame := by
  subst current
  unfold sherryYield
  rw [setready_eq (by simp [running]), yield_eq (by rfl)]
  simp [park, wake, enlist]

/-- `block_fd` parks the running actor in the wait queue of a descriptor. -/
theorem blockFd_eq {self : ActorRef} (current : s.running = self) (fd : FdRef) (event : Ev)
    (frame : Frame) :
    blockFd s self fd event frame = park s self .waitEv (some (.waitq fd event)) frame := by
  subst current
  unfold blockFd
  rw [yield_eq (by rfl)]
  simp [State.setStatus, State.setActor, park, enlist]

/-- `sherry_msg_recv` on an empty mailbox parks the running actor in `waitingmsg`. -/
theorem sherryMsgRecv_empty {self : ActorRef} (current : s.running = self)
    (empty : s.mail.seq self = []) :
    sherryMsgRecv s self = park s self .waitMsg (some .waitingmsg) (.recv self) := by
  subst current
  simp only [sherryMsgRecv, listEmpty_seqs, empty, ↓reduceIte]
  rw [yield_eq (by rfl)]
  simp [State.setStatus, State.setActor, park, enlist]

/-- `sherry_msg_recv` on a mailbox with messages takes the first. -/
theorem sherryMsgRecv_cons {self : ActorRef} (current : s.running = self)
    (filled : s.mail.seq self ≠ []) : sherryMsgRecv s self = msgRecvTail s self self := by
  subst current
  simp [sherryMsgRecv, filled]

/-- `sherry_write` parks the running actor in no list, after libuv took the request or not. -/
theorem sherryWrite_eq {self : ActorRef} (current : s.running = self) (fd : FdRef)
    (count : Nat) (ret : Int) :
    sherryWrite s self fd count ret =
      park { s with
        writes := s.writes ++ (if ret = 0 then [⟨fd, self⟩] else [])
        trace := s.trace ++ [.submitted self fd ret] } self .waitEv none (.write fd count) := by
  subst current
  unfold sherryWrite
  by_cases taken : ret = 0
  · simp only [taken, ↓reduceIte]
    rw [yield_eq (by rfl)]
    simp [State.setStatus, State.setActor, State.emit, park, enlist]
  · simp only [taken, ↓reduceIte, List.append_nil]
    rw [yield_eq (by rfl)]
    simp [State.setStatus, State.setActor, State.emit, park, enlist]

/-- `schdule` resumes the first ready actor. -/
theorem schdule_cons {next : ActorRef} {rest : List ActorRef}
    (first : s.waits.seq .readyq = next :: rest) : schdule s = dispatch s next rest := by
  simp [schdule, listDequeue_cons _ _ first, setrunning, swapcontext, setContext, context,
    State.setStatus, State.setActor, State.emit, dispatch]

/-- `schdule` enters `uv_run` when no actor is ready. -/
theorem schdule_nil (idle : s.waits.seq .readyq = []) :
    schdule s = { s with polling := true, trace := s.trace ++ [.polled] } := by
  simp [schdule, listDequeue_nil _ _ idle, State.emit]

/-- `unblock_all` moves a list of blocked actors to the tail of `readyq`, when its bound
covers the list. -/
theorem unblockLoop_eq {list : WaitRef} (apart : list ≠ .readyq) :
    ∀ {items : List ActorRef} {fuel : Nat} {s : State Seqs φ}, s.waits.seq list = items →
      items.Nodup → (∀ a ∈ items, (s.actor a).status ≠ .ready) → items.length ≤ fuel →
        unblockLoop list fuel s = wakeAll s list
  | [], fuel, s, empty, _, _, _ => by
    have stopped : unblockLoop list fuel s = s := by
      cases fuel with
      | zero => rfl
      | succ fuel => simp [unblockLoop, listDequeue_nil _ _ empty]
    have unchanged : (s.waits.set list []).set .readyq (s.waits.seq .readyq) = s.waits := by
      rw [Seqs.set_eq_self empty, Seqs.set_eq_self rfl]
    simp [stopped, wakeAll, empty, unchanged]
  | a :: rest, 0, s, _, _, _, enough => by simp at enough
  | a :: rest, fuel + 1, s, first, nodup, blocked, enough => by
    rw [List.nodup_cons] at nodup
    have head : (s.actor a).status ≠ .ready := blocked a List.mem_cons_self
    have popped : (wake { s with waits := s.waits.set list rest } a).waits.seq list = rest := by
      simp [wake, enlist, apart]
    rw [unblockLoop, listDequeue_cons _ _ first]
    simp only []
    rw [setready_eq (by exact head),
      unblockLoop_eq apart popped nodup.2 ?_ (by simpa using enough)]
    · have waits : (wakeAll (wake { s with waits := s.waits.set list rest } a) list).waits =
          (wakeAll s list).waits := by
        ext l : 2
        simp only [wakeAll, wake, enlist, Seqs.set_seq, first, apart, apart.symm, ↓reduceIte]
        split
        · simp
        · split <;> rfl
      have actors : (wakeAll (wake { s with waits := s.waits.set list rest } a) list).actor =
          (wakeAll s list).actor := by
        funext b
        by_cases same : b = a
        · subst same
          simp [wakeAll, wake, enlist, first, apart]
        · simp [wakeAll, wake, enlist, first, apart, same]
      exact congrArg₂ (fun waits actor => { s with waits, actor }) waits actors
    · intro b member
      have other : b ≠ a := fun same => nodup.1 (same ▸ member)
      simp only [wake, Function.update_of_ne other]
      exact blocked b (List.mem_cons_of_mem a member)

/-- The message that `sherry_msg_send` makes for a receiver. -/
def msgFor (s : State Seqs φ) (recver : ActorRef) (msgtype : Int) (payload : Sds) : SherryMsg :=
  { sender := (s.actor s.running).aid, recver := (s.actor recver).aid, msgtype, payload }

/-- A new message at the end of a mailbox. -/
def deliver (s : State Seqs φ) (self recver : ActorRef) (msg : SherryMsg) : State Seqs φ :=
  { s with
    nmsgs := s.nmsgs + 1
    msg := Function.update s.msg s.nmsgs msg
    mail := s.mail.set recver (s.mail.seq recver ++ [s.nmsgs])
    trace := s.trace ++ [.sent self recver msg] }

/-- An actor that waits for a message leaves `waitingmsg` and becomes ready. -/
def revoke (s : State Seqs φ) (recver : ActorRef) : State Seqs φ :=
  if (s.actor recver).status = .waitMsg then
    wake { s with
      waits := s.waits.set .waitingmsg ((s.waits.seq .waitingmsg).erase recver) } recver
  else s

/-- `sherry_msg_send` reaches the actor in the slot of `dst`, which must be inside the table
and in use, places the message there and revokes the receiver. -/
theorem sherryMsgSend_ok {self : ActorRef} {dst msgtype : Int} {payload : Sds} :
    sherryMsgSend s self dst msgtype payload = .ok t ↔
      0 ≤ dst ∧ dst < s.actors.length ∧ ∃ recver, s.slot dst.toNat = some recver ∧
        t = revoke (deliver s self recver (msgFor s recver msgtype payload)) recver := by
  unfold sherryMsgSend
  by_cases outside : dst < 0 ∨ dst ≥ s.actors.length
  · simp only [outside, ↓reduceIte, reduceCtorEq, false_iff]
    omega
  · have inside : 0 ≤ dst ∧ dst < s.actors.length := by omega
    simp only [outside, ↓reduceIte, inside, true_and]
    cases s.slot dst.toNat with
    | none => simp
    | some recver =>
      simp only [Option.some.injEq, exists_eq_left']
      by_cases waiting : (s.actor recver).status = .waitMsg
      · have blocked : (s.actor recver).status ≠ .ready := by simp [waiting]
        simp only [State.emit, waiting, ↓reduceIte]
        rw [setready_eq (by exact blocked)]
        simp [revoke, deliver, waiting, msgFor, eq_comm]
      · simp [State.emit, revoke, deliver, waiting, msgFor, eq_comm]

end Sherry
