import Sherry.Verif.Invariant

/-!
# Everything one event can do

From a state that satisfies the invariant, `Outcome` lists what each event does, with its
guards and the exact state after it. A property of a run is proved by one case analysis over
`Outcome`, so no later proof looks into `step` or into a function of the source.
-/

namespace Sherry

variable {φ : Type} {s t : State Seqs φ} {self a : ActorRef} {e : Event φ}

/-- `uv_read_start` succeeded on a descriptor. -/
def started (s : State Seqs φ) (fd : FdRef) : State Seqs φ :=
  s.setFd fd fun f => { f with handle := { f.handle with reading := true } }

/-- `sherry_msg_recv` takes the first message, if any. -/
def taken (s : State Seqs φ) (self : ActorRef) : State Seqs φ :=
  { s with
    actor := Function.update s.actor self { s.actor self with frame := .user }
    mail := s.mail.set self (s.mail.seq self).tail
    trace := s.trace ++ [.received self ((s.mail.seq self).head?.map s.msg)] }

/-- What `sherry_read` returns for a recorded error. -/
def readReturn (rerror : Int) : Int := if rerror = uvEof then 0 else rerror

/-- The bytes between `roffset` and `rbuf.len`. -/
def window (s : State Seqs φ) (fd : FdRef) : List UInt8 :=
  (bytesOf s (s.fd fd).rbuf.base).drop (s.fd fd).roffset

/-- How many bytes `sherry_read` copies. -/
def copied (f : SherryFd) (count : Nat) : Nat := min count (f.rbuf.len - f.roffset)

/-- `sherry_read` copies bytes out of the buffer and returns. -/
def consume (s : State Seqs φ) (self : ActorRef) (fd : FdRef) (count : Nat) : State Seqs φ :=
  let n := copied (s.fd fd) count
  { s with
    actor := Function.update s.actor self { s.actor self with frame := .user }
    fd := Function.update s.fd fd { s.fd fd with roffset := (s.fd fd).roffset + n }
    trace := s.trace ++ [.read self fd n ((window s fd).take n)] }

/-- `read_cb` with an error or with nothing read. -/
def failRead (s : State Seqs φ) (fd : FdRef) (nread : Int) (content : List UInt8)
    (allocated : Bool) : State Seqs φ :=
  { s with
    nbufs := if allocated then s.nbufs + 1 else s.nbufs
    buf := if allocated then Function.update s.buf s.nbufs content else s.buf
    fd := Function.update s.fd fd { s.fd fd with rerror := nread }
    freed := s.freed ++ if allocated then [.buf s.nbufs] else [] }

/-- `read_cb` with data, before `unblock_all`. -/
def receive (s : State Seqs φ) (fd : FdRef) (nread : Int) (content : List UInt8) : State Seqs φ :=
  { s with
    nbufs := s.nbufs + 1
    buf := Function.update s.buf s.nbufs content
    fd := Function.update s.fd fd { s.fd fd with
      rbuf := { base := some s.nbufs, len := content.length }
      roffset := if (s.fd fd).rbuf.base.isSome then 0 else (s.fd fd).roffset }
    freed := s.freed ++ (s.fd fd).rbuf.base.toList.map Ptr.buf
    trace := s.trace ++ [.delivered fd (content.take nread.toNat)] }

/-- `close_cb` frees the buffer of a descriptor and the descriptor. -/
def released (s : State Seqs φ) (fd : FdRef) : State Seqs φ :=
  { s with freed := s.freed ++ ((s.fd fd).rbuf.base.toList.map Ptr.buf ++ [.fd fd]) }

/-- A new descriptor. -/
def openedFd (s : State Seqs φ) : State Seqs φ :=
  { s with
    nfds := s.nfds + 1
    fd := Function.update s.fd s.nfds { type := fdTcp }
    trace := s.trace ++ [.opened (some s.nfds)] }

/-- `sherry_exit` leaves its loop and returns. -/
def ended (s : State Seqs φ) : State Seqs φ :=
  { s with
    actors := s.actors.set 0 none
    curractors := s.curractors - 1
    freed := s.freed ++ [.actors, .tmpstack, .scheduler]
    exited := true }

/-- The executing actor is in the loop of `sherry_read`, in the state with which the loop
reads: just called, or resumed. -/
def InRead (s : State Seqs φ) (e : Event φ) (self : ActorRef) (fd : FdRef) (count : Nat)
    (at_loop : State Seqs φ) : Prop :=
  (e = .read fd count 0 ∧ (s.actor self).frame = .user ∧ at_loop = started s fd) ∨
    ∃ err, e = .resume err ∧ (s.actor self).frame = .read fd count ∧ at_loop = s

/-- The executing actor is in the loop of `sherry_accept`. -/
def InAccept (s : State Seqs φ) (e : Event φ) (self : ActorRef) (server client : FdRef)
    (err : Int) : Prop :=
  (e = .accept server client err ∧ (s.actor self).frame = .user) ∨
    (e = .resume err ∧ (s.actor self).frame = .accept server client)

/-- The executing actor is at the test of the loop of `sherry_exit`. -/
def InExit (s : State Seqs φ) (e : Event φ) (self : ActorRef) : Prop :=
  (e = .exit ∧ (s.actor self).frame = .user ∧ self = s.main) ∨
    ∃ err, e = .resume err ∧ (s.actor self).frame = .exit

/-- What an event does, from a state that satisfies the invariant. -/
inductive Outcome (s : State Seqs φ) : Event φ → State Seqs φ → Prop
  | computes {self : ActorRef} {ctx : Context} (user : s.inUser = some self)
      (owner : ctx.owner = s.cpu.owner) : Outcome s (.compute ctx) { s with cpu := ctx }
  | spawns {self : ActorRef} {fn : φ} (user : s.inUser = some self) :
      Outcome s (.spawn fn) (sherrySpawn s fn)
  | yields {self : ActorRef} (user : s.inUser = some self) :
      Outcome s .yield (park s self .ready (some .readyq) .user)
  | sends {self recver : ActorRef} {dst msgtype : Int} {payload : Sds}
      (user : s.inUser = some self) (inside : 0 ≤ dst ∧ dst < s.actors.length)
      (slot : s.slot dst.toNat = some recver) :
      Outcome s (.send dst msgtype payload)
        (revoke (deliver s self recver (msgFor s recver msgtype payload)) recver)
  | awaits {self : ActorRef} (user : s.inUser = some self) (empty : s.mail.seq self = []) :
      Outcome s .recv (park s self .waitMsg (some .waitingmsg) (.recv self))
  | receives {e : Event φ} {self : ActorRef} (exec : s.executing = some self)
      (enters : (e = .recv ∧ (s.actor self).frame = .user ∧ s.mail.seq self ≠ []) ∨
        ∃ err, e = .resume err ∧ (s.actor self).frame = .recv self) :
      Outcome s e (taken s self)
  | frees {self : ActorRef} {m : MsgRef} (user : s.inUser = some self) :
      Outcome s (.msgFree m) (sherryMsgFree s m)
  | opens {self : ActorRef} (user : s.inUser = some self) :
      Outcome s (.fdTcp true) (openedFd s)
  | opensNone {self : ActorRef} (user : s.inUser = some self) :
      Outcome s (.fdTcp false) (s.emit (.opened none))
  | listens {self : ActorRef} {fd : FdRef} (user : s.inUser = some self) :
      Outcome s (.listen (some fd) 0)
        ((s.setFd fd fun f => { f with handle := { f.handle with listening := true } }).emit
          (.listened (some fd) 0))
  | listensNot {self : ActorRef} {fd : Option FdRef} {ret err : Int}
      (user : s.inUser = some self) : Outcome s (.listen fd ret) (s.emit (.listened fd err))
  | accepts {e : Event φ} {self : ActorRef} {server client : FdRef} {err : Int}
      (exec : s.executing = some self) (enters : InAccept s e self server client err)
      (done : err ≥ 0 ∨ err ≠ uvEagain) :
      Outcome s e ((s.setFrame self .user).emit (.accepted self server client err))
  | blocksAccept {e : Event φ} {self : ActorRef} {server client : FdRef} {err : Int}
      (exec : s.executing = some self) (enters : InAccept s e self server client err)
      (live : s.liveFd server = true) :
      Outcome s e (park s self .waitEv (some (.waitq server .read)) (.accept server client))
  | refused {self : ActorRef} {fd : FdRef} {count : Nat} {err : Int}
      (user : s.inUser = some self) (failed : err ≠ 0) :
      Outcome s (.read fd count err) (s.emit (.read self fd err []))
  | readError {e : Event φ} {self : ActorRef} {fd : FdRef} {count : Nat}
      {at_loop : State Seqs φ} (exec : s.executing = some self)
      (enters : InRead s e self fd count at_loop) (error : (s.fd fd).rerror ≠ 0) :
      Outcome s e ((at_loop.setFrame self .user).emit
        (.read self fd (readReturn (s.fd fd).rerror) []))
  | readBytes {e : Event φ} {self : ActorRef} {fd : FdRef} {count : Nat}
      {at_loop : State Seqs φ} (exec : s.executing = some self)
      (enters : InRead s e self fd count at_loop) (sound : (s.fd fd).rerror = 0)
      (buffer : (s.fd fd).rbuf.base.isSome) (unread : (s.fd fd).roffset < (s.fd fd).rbuf.len) :
      Outcome s e (consume at_loop self fd count)
  | blocksRead {e : Event φ} {self : ActorRef} {fd : FdRef} {count : Nat}
      {at_loop : State Seqs φ} (exec : s.executing = some self)
      (enters : InRead s e self fd count at_loop) (live : s.liveFd fd = true)
      (sound : (s.fd fd).rerror = 0)
      (nothing : ¬((s.fd fd).rbuf.base.isSome ∧ (s.fd fd).roffset < (s.fd fd).rbuf.len)) :
      Outcome s e (park at_loop self .waitEv (some (.waitq fd .read)) (.read fd count))
  | submits {self : ActorRef} {fd : FdRef} {count : Nat} {ret : Int}
      (user : s.inUser = some self) (live : s.liveFd fd = true) :
      Outcome s (.write fd count ret)
        (park { s with
          writes := s.writes ++ (if ret = 0 then [⟨fd, self⟩] else [])
          trace := s.trace ++ [.submitted self fd ret] } self .waitEv none (.write fd count))
  | closes {self : ActorRef} {fd : FdRef} (user : s.inUser = some self)
      (opened : (s.fd fd).handle.closing = false) :
      Outcome s (.close fd)
        (s.setFd fd fun f => { f with handle := { f.handle with closing := true } })
  | returns {self : ActorRef} {i : Nat} (user : s.inUser = some self) (other : self ≠ s.main)
      (found : s.actors[i]? = some (some self)) :
      Outcome s .ret
        (park { s with
          actors := s.actors.set i none
          curractors := s.curractors - 1
          trace := s.trace ++ [.returned self] } self .running none .returned)
  | lingers {e : Event φ} {self : ActorRef} (exec : s.executing = some self)
      (enters : InExit s e self) (more : s.curractors > 1) :
      Outcome s e (park s self .ready (some .readyq) .exit)
  | ends {e : Event φ} {self : ActorRef} (exec : s.executing = some self)
      (enters : InExit s e self) (alone : ¬s.curractors > 1) : Outcome s e (ended s)
  | begins {self : ActorRef} {err : Int} (exec : s.executing = some self)
      (frame : (s.actor self).frame = .entry) : Outcome s (.resume err) (s.setFrame self .user)
  | wrote {self : ActorRef} {fd : FdRef} {count : Nat} {err : Int}
      (exec : s.executing = some self) (frame : (s.actor self).frame = .write fd count) :
      Outcome s (.resume err) (writeTail s self fd count)
  | dispatches {next : ActorRef} {rest : List ActorRef} (owner : s.cpu.owner = some .scheduler)
      (outside : s.polling = false) (first : s.waits.seq .readyq = next :: rest) :
      Outcome s .schdule (dispatch s next rest)
  | polls (owner : s.cpu.owner = some .scheduler) (outside : s.polling = false)
      (idle : s.waits.seq .readyq = []) :
      Outcome s .schdule { s with polling := true, trace := s.trace ++ [.polled] }
  | polled (owner : s.cpu.owner = some .scheduler) (inside : s.polling = true) :
      Outcome s .uvReturn { s with polling := false }
  | connects {fd : FdRef} {status : Int} (owner : s.cpu.owner = some .scheduler)
      (inside : s.polling = true) (live : s.openFd fd = true) :
      Outcome s (.listenCb fd status) (wakeAll s (.waitq fd .read))
  | fails {fd : FdRef} {nread : Int} {content : List UInt8} {allocated : Bool}
      (owner : s.cpu.owner = some .scheduler) (inside : s.polling = true)
      (live : s.openFd fd = true) (nothing : nread ≤ 0) :
      Outcome s (.readCb fd nread content allocated) (failRead s fd nread content allocated)
  | delivers {fd : FdRef} {nread : Int} {content : List UInt8} {allocated : Bool}
      (owner : s.cpu.owner = some .scheduler) (inside : s.polling = true)
      (live : s.openFd fd = true) (some_read : 0 < nread) (fits : nread ≤ content.length) :
      Outcome s (.readCb fd nread content allocated)
        (wakeAll (receive s fd nread content) (.waitq fd .read))
  | writes {req : UvWrite} (owner : s.cpu.owner = some .scheduler) (inside : s.polling = true)
      (pending : req ∈ s.writes) :
      Outcome s (.writeCb req 0)
        ((wake { s with writes := s.writes.erase req } req.data).emit
          (.written req.data req.fd 0))
  | closed {fd : FdRef} (owner : s.cpu.owner = some .scheduler) (inside : s.polling = true)
      (live : s.liveFd fd = true) (closing : (s.fd fd).handle.closing = true) :
      Outcome s (.closeCb fd) (released s fd)

/-- `sherry_msg_recv` takes the first message of its caller's mailbox. -/
theorem msgRecvTail_eq : msgRecvTail s self self = taken s self := by
  cases box : s.mail.seq self with
  | nil =>
    simp [msgRecvTail, taken, listDequeue_nil _ _ box, box, State.setFrame, State.setActor,
      State.emit, Seqs.set_eq_self box]
  | cons m rest =>
    simp [msgRecvTail, taken, listDequeue_cons _ _ box, box, State.setFrame, State.setActor,
      State.emit]

/-- An iteration of the loop of `sherry_read` with unread bytes copies some and returns. -/
theorem readLoop_bytes {fd : FdRef} {count : Nat} (sound : (s.fd fd).rerror = 0)
    (buffer : (s.fd fd).rbuf.base.isSome) (unread : (s.fd fd).roffset < (s.fd fd).rbuf.len) :
    readLoop s self fd count = consume s self fd count := by
  have amount : (if (s.fd fd).rbuf.len - (s.fd fd).roffset > count then count
      else (s.fd fd).rbuf.len - (s.fd fd).roffset) = copied (s.fd fd) count := by
    unfold copied
    split <;> omega
  have more : (s.fd fd).rbuf.base.isSome ∧ (s.fd fd).rbuf.len > (s.fd fd).roffset :=
    ⟨buffer, unread⟩
  unfold readLoop
  simp only [sound, ne_eq, not_true_eq_false, ↓reduceIte, more, and_self, amount]
  simp [consume, window, State.setFrame, State.setActor, State.setFd, State.emit]

/-- An iteration of the loop of `sherry_read` with a recorded error returns it. -/
theorem readLoop_error {fd : FdRef} {count : Nat} (error : (s.fd fd).rerror ≠ 0) :
    readLoop s self fd count =
      (s.setFrame self .user).emit (.read self fd (readReturn (s.fd fd).rerror) []) := by
  unfold readLoop readReturn
  simp only [ne_eq, error, not_false_eq_true, ↓reduceIte]

/-- An iteration of the loop of `sherry_read` without error and unread bytes blocks. -/
theorem readLoop_empty {fd : FdRef} {count : Nat} (sound : (s.fd fd).rerror = 0)
    (nothing : ¬((s.fd fd).rbuf.base.isSome ∧ (s.fd fd).roffset < (s.fd fd).rbuf.len)) :
    readLoop s self fd count = blockFd s self fd .read (.read fd count) := by
  unfold readLoop
  simp only [sound, ne_eq, not_true_eq_false, ↓reduceIte, gt_iff_lt, nothing]

/-- `read_cb` with an error keeps nothing but the error. -/
theorem readCb_failed {fd : FdRef} {nread : Int} {content : List UInt8} {allocated : Bool}
    (nothing : nread ≤ 0) :
    readCb (rbufAlloc s content allocated).1 fd nread (rbufAlloc s content allocated).2 =
      failRead s fd nread content allocated := by
  unfold readCb
  rw [if_pos nothing]
  cases allocated <;>
    simp [rbufAlloc, freeBase, failRead, State.setFd, State.srfree]

/-- `read_cb` with data replaces the buffer and wakes the readers. -/
theorem readCb_delivered (inv : Inv s) {fd : FdRef} {nread : Int} {content : List UInt8}
    (some_read : 0 < nread) :
    readCb (rbufAlloc s content true).1 fd nread (rbufAlloc s content true).2 =
      Sherry.wakeAll (receive s fd nread content) (.waitq fd .read) := by
  have received : Inv (receive s fd nread content) :=
    inv.congr rfl (Nat.le_refl _)
  rw [← received.unblockAll_eq (by simp)]
  unfold readCb
  rw [if_neg (by omega)]
  cases base : (s.fd fd).rbuf.base with
  | none => simp [rbufAlloc, receive, bytesOf, base, State.setFd, State.emit]
  | some old =>
    simp [rbufAlloc, receive, bytesOf, freeBase, base, State.setFd, State.emit, State.srfree]

/-- `sherry_fd_tcp` finds the wait queues of its new descriptor empty. -/
theorem sherryFdTcp_eq (inv : Inv s) : sherryFdTcp s true = openedFd s := by
  have waits : listInit (listInit s.waits (.waitq s.nfds .read)) (.waitq s.nfds .write) =
      s.waits := inv.fresh_waitq
  simp [sherryFdTcp, fdnew, openedFd, State.emit, -listInit_seqs, waits]

/-- `close_cb` frees the buffer, if any, and the descriptor. -/
theorem closeCb_eq {fd : FdRef} : closeCb s fd = released s fd := by
  cases base : (s.fd fd).rbuf.base <;> simp [closeCb, fdfree, released, base, State.srfree]

/-- `sherry_listen` marks the handle if libuv listens, and otherwise changes nothing. -/
theorem sherryListen_outcome {fd : Option FdRef} {ret : Int} (user : s.inUser = some self) :
    Outcome s (.listen fd ret) (sherryListen s fd ret) := by
  unfold sherryListen
  split
  · exact .listensNot user
  · split
    · exact .listensNot user
    · by_cases success : ret = 0
      · subst success
        exact .listens user
      · simp only [success, ↓reduceIte]
        exact .listensNot user

/-- An iteration of the loop of `sherry_read` has one of three outcomes. -/
theorem readLoop_outcome (inv : Inv s) {fd : FdRef} {count : Nat} {at_loop : State Seqs φ}
    (exec : s.executing = some self) (enters : InRead s e self fd count at_loop)
    (live : s.liveFd fd = true) : Outcome s e (readLoop at_loop self fd count) := by
  have current := (inv.placed.current self exec).1
  have same : at_loop.running = s.running ∧ (at_loop.fd fd).rerror = (s.fd fd).rerror ∧
      (at_loop.fd fd).rbuf = (s.fd fd).rbuf ∧ (at_loop.fd fd).roffset = (s.fd fd).roffset := by
    rcases enters with ⟨_, _, rfl⟩ | ⟨_, _, _, rfl⟩ <;> simp [started, State.setFd]
  obtain ⟨running, rerror, rbuf, roffset⟩ := same
  by_cases error : (s.fd fd).rerror = 0
  · by_cases more : (s.fd fd).rbuf.base.isSome ∧ (s.fd fd).roffset < (s.fd fd).rbuf.len
    · rw [readLoop_bytes (by rw [rerror, error]) (by rw [rbuf]; exact more.1)
        (by rw [rbuf, roffset]; exact more.2)]
      exact .readBytes exec enters error more.1 more.2
    · rw [readLoop_empty (by rw [rerror, error]) (by rw [rbuf, roffset]; exact more),
        blockFd_eq (by rw [running, current])]
      exact .blocksRead exec enters live error more
  · rw [readLoop_error (by rw [rerror]; exact error), rerror]
    exact .readError exec enters error

/-- An iteration of the loop of `sherry_accept` has one of two outcomes. -/
theorem sherryAccept_outcome (inv : Inv s) {server client : FdRef} {err : Int}
    (exec : s.executing = some self) (enters : InAccept s e self server client err)
    (live : s.liveFd server = true) :
    Outcome s e (sherryAccept s self server client err) := by
  unfold sherryAccept
  split
  · rename_i done
    exact .accepts exec enters done
  · rw [blockFd_eq (inv.placed.current self exec).1]
    exact .blocksAccept exec enters live

/-- The test of the loop of `sherry_exit` has one of two outcomes. -/
theorem sherryExit_outcome (inv : Inv s) (exec : s.executing = some self)
    (enters : InExit s e self) : Outcome s e (sherryExit s self) := by
  by_cases more : s.curractors > 1
  · have stays : sherryExit s self = park s self .ready (some .readyq) .exit := by
      rw [← sherryYield_eq (inv.placed.current self exec).1 (inv.placed.executing exec).2.1]
      simp [sherryExit, more]
    rw [stays]
    exact .lingers exec enters more
  · have leaves : sherryExit s self = ended s := by
      unfold sherryExit
      rw [if_neg more, inv.registry.unregActor_eq inv.registry.main]
      simp [ended, State.srfree]
    rw [leaves]
    exact .ends exec enters more

/-- The code of a resumed actor has one of the outcomes. -/
theorem resume_outcome (inv : Inv s) (exec : s.executing = some self) {err : Int}
    (resumed : resume s self err = .ok t) : Outcome s (.resume err) t := by
  rw [resume_ok] at resumed
  split at resumed <;> rename_i frame
  · exact resumed.elim
  · exact resumed ▸ .begins exec frame
  · rename_i b
    obtain rfl := inv.placed.recvSelf self b frame
    rw [resumed, msgRecvTail_eq]
    exact .receives exec (.inr ⟨err, rfl, frame⟩)
  · obtain ⟨⟨live, _⟩, rfl⟩ := resumed
    exact sherryAccept_outcome inv exec (.inr ⟨rfl, frame⟩) live
  · obtain ⟨live, rfl⟩ := resumed
    exact readLoop_outcome inv exec (.inr ⟨err, rfl, frame, rfl⟩) live
  · exact resumed ▸ .wrote exec frame
  · rw [resumed]
    exact sherryExit_outcome inv exec (.inr ⟨err, rfl, frame⟩)
  · exact resumed.elim

/-- Every event has one of the outcomes. -/
theorem step_outcome (inv : Inv s) (taken : step s e = .ok t) : Outcome s e t := by
  cases e with
  | compute ctx =>
    obtain ⟨self, user, done⟩ := call_ok.mp taken
    obtain ⟨owner, same⟩ := Machine.ite_ok.mp done
    cases same
    exact .computes user owner
  | spawn fn =>
    obtain ⟨self, user, done⟩ := call_ok.mp taken
    cases done
    exact .spawns user
  | yield =>
    obtain ⟨self, user, done⟩ := call_ok.mp taken
    cases done
    have exec := (inUser_iff.mp user).2.1
    rw [sherryYield_eq (inv.placed.current self exec).1 (inv.placed.executing exec).2.1]
    exact .yields user
  | send dst msgtype payload =>
    obtain ⟨self, user, done⟩ := call_ok.mp taken
    obtain ⟨above, below, recver, slot, rfl⟩ := sherryMsgSend_ok.mp done
    exact .sends user ⟨above, below⟩ slot
  | recv =>
    obtain ⟨self, user, done⟩ := call_ok.mp taken
    cases done
    obtain ⟨_, exec, frame⟩ := inUser_iff.mp user
    have current := (inv.placed.current self exec).1
    by_cases empty : s.mail.seq self = []
    · rw [sherryMsgRecv_empty current empty]
      exact .awaits user empty
    · rw [sherryMsgRecv_cons current empty, msgRecvTail_eq]
      exact .receives exec (.inl ⟨rfl, frame, empty⟩)
  | msgFree m =>
    obtain ⟨self, user, done⟩ := call_ok.mp taken
    cases done
    exact .frees user
  | fdTcp allocated =>
    obtain ⟨self, user, done⟩ := call_ok.mp taken
    cases done
    cases allocated with
    | false => exact .opensNone user
    | true =>
      rw [sherryFdTcp_eq inv]
      exact .opens user
  | listen fd ret =>
    obtain ⟨self, user, done⟩ := call_ok.mp taken
    obtain ⟨_, same⟩ := Machine.ite_ok.mp done
    cases same
    exact sherryListen_outcome user
  | accept server client err =>
    obtain ⟨self, user, live, done⟩ := fdCall_ok.mp taken
    obtain ⟨_, same⟩ := Machine.ite_ok.mp done
    cases same
    obtain ⟨_, exec, frame⟩ := inUser_iff.mp user
    exact sherryAccept_outcome inv exec (.inl ⟨rfl, frame⟩) live
  | read fd count err =>
    obtain ⟨self, user, live, done⟩ := fdCall_ok.mp taken
    cases done
    obtain ⟨_, exec, frame⟩ := inUser_iff.mp user
    by_cases failed : err = 0
    · subst failed
      exact readLoop_outcome inv exec (.inl ⟨rfl, frame, rfl⟩) live
    · unfold sherryRead
      rw [if_pos failed]
      exact .refused user failed
  | write fd count ret =>
    obtain ⟨self, user, live, done⟩ := fdCall_ok.mp taken
    cases done
    rw [sherryWrite_eq (inv.placed.current self (inUser_iff.mp user).2.1).1]
    exact .submits user live
  | close fd =>
    obtain ⟨self, user, _, done⟩ := fdCall_ok.mp taken
    unfold sherryFdClose at done
    split at done <;> cases done
    rename_i opened
    exact .closes user (Bool.eq_false_iff.mpr opened)
  | ret =>
    obtain ⟨self, user, done⟩ := call_ok.mp taken
    split at done <;> cases done
    rename_i other
    have exec := (inUser_iff.mp user).2.1
    obtain ⟨i, found, _⟩ := inv.registry.at_id (inv.placed.executing exec).1
    rw [sherryMainReturn_eq inv exec found]
    exact .returns user other found
  | exit =>
    obtain ⟨self, user, done⟩ := call_ok.mp taken
    obtain ⟨main, same⟩ := Machine.ite_ok.mp done
    cases same
    obtain ⟨_, exec, frame⟩ := inUser_iff.mp user
    exact sherryExit_outcome inv exec (.inl ⟨rfl, frame, main⟩)
  | resume err =>
    obtain ⟨_, self, exec, done⟩ := resume_step.mp taken
    exact resume_outcome inv exec done
  | schdule =>
    obtain ⟨on, _, done⟩ := onLoop_ok.mp taken
    obtain ⟨_, owner, outside⟩ := onScheduler_iff.mp on
    cases done
    cases first : s.waits.seq .readyq with
    | nil =>
      rw [schdule_nil first]
      exact .polls owner outside first
    | cons next rest =>
      rw [schdule_cons first]
      exact .dispatches owner outside first
  | uvReturn =>
    obtain ⟨on, _, done⟩ := onLoop_ok.mp taken
    obtain ⟨_, owner, inside⟩ := onScheduler_iff.mp on
    cases done
    exact .polled owner inside
  | listenCb fd status =>
    obtain ⟨on, ⟨live, _⟩, done⟩ := onLoop_ok.mp taken
    obtain ⟨_, owner, inside⟩ := onScheduler_iff.mp on
    cases done
    rw [listenCb, inv.unblockAll_eq (by simp)]
    exact .connects owner inside live
  | readCb fd nread content allocated =>
    obtain ⟨on, ⟨live, _, fits, allocates⟩, done⟩ := onLoop_ok.mp taken
    obtain ⟨_, owner, inside⟩ := onScheduler_iff.mp on
    have same : readCb (rbufAlloc s content allocated).1 fd nread
        (rbufAlloc s content allocated).2 = t := Except.ok.inj done
    rw [← same]
    rcases Int.lt_or_le 0 nread with some_read | nothing
    · obtain rfl := allocates some_read
      rw [readCb_delivered inv some_read]
      exact .delivers owner inside live some_read fits
    · rw [readCb_failed nothing]
      exact .fails owner inside live nothing
  | writeCb req status =>
    obtain ⟨on, pending, done⟩ := onLoop_ok.mp taken
    obtain ⟨_, owner, inside⟩ := onScheduler_iff.mp on
    obtain ⟨rfl, rfl⟩ := writeCb_ok.mp done
    have blocked := (inv.placed.writes req pending).1
    rw [setready_eq (by simp [blocked])]
    exact .writes owner inside pending
  | closeCb fd =>
    obtain ⟨on, ⟨live, closing, _⟩, done⟩ := onLoop_ok.mp taken
    obtain ⟨_, owner, inside⟩ := onScheduler_iff.mp on
    cases done
    rw [closeCb_eq]
    exact .closed owner inside live closing

/-- An error is recorded. -/
theorem step_fails {fd : FdRef} {nread : Int} {content : List UInt8} {allocated : Bool}
    (nothing : nread ≤ 0) (happened : step s (.readCb fd nread content allocated) = .ok t) :
    t = failRead s fd nread content allocated := by
  obtain ⟨_, _, done⟩ := onLoop_ok.mp happened
  rw [← readCb_failed nothing]
  exact (Except.ok.inj done).symm

/-- A delivery replaces the buffer and wakes the readers. -/
theorem step_delivers (inv : Inv s) {fd : FdRef} {nread : Int} {content : List UInt8}
    {allocated : Bool} (some_read : 0 < nread)
    (happened : step s (.readCb fd nread content allocated) = .ok t) :
    t = wakeAll (receive s fd nread content) (.waitq fd .read) := by
  obtain ⟨_, ⟨_, _, _, allocates⟩, done⟩ := onLoop_ok.mp happened
  obtain rfl := allocates some_read
  rw [← readCb_delivered inv some_read]
  exact (Except.ok.inj done).symm

/-- The counts of allocated objects never go down. -/
theorem Outcome.counts_le (outcome : Outcome s e t) :
    s.nactors ≤ t.nactors ∧ s.nfds ≤ t.nfds ∧ s.nbufs ≤ t.nbufs := by
  have same : s.nactors ≤ s.nactors ∧ s.nfds ≤ s.nfds ∧ s.nbufs ≤ s.nbufs := by simp
  cases outcome with
  | spawns =>
    rw [sherrySpawn_eq]
    exact ⟨Nat.le_succ _, same.2⟩
  | sends =>
    unfold revoke
    split <;> exact same
  | opens => exact ⟨same.1, Nat.le_succ _, same.2.2⟩
  | readError _ enters =>
    rcases enters with ⟨_, _, rfl⟩ | ⟨_, _, _, rfl⟩ <;> exact same
  | readBytes _ enters =>
    rcases enters with ⟨_, _, rfl⟩ | ⟨_, _, _, rfl⟩ <;> exact same
  | blocksRead _ enters =>
    rcases enters with ⟨_, _, rfl⟩ | ⟨_, _, _, rfl⟩ <;> exact same
  | @fails fd nread content allocated =>
    cases allocated with
    | false => exact same
    | true => exact ⟨same.1, same.2.1, Nat.le_succ _⟩
  | delivers => exact ⟨same.1, same.2.1, Nat.le_succ _⟩
  | _ => exact same

/-- A state in which the invariant holds, unless `sherry_exit` has returned. -/
def Sound (s : State Seqs φ) : Prop := s.exited = false → Inv s

/-- Every step starts in a state that satisfies the invariant, has one of the outcomes, and
leads to a sound state. -/
theorem step_sound (sound : Sound s) (taken : step s e = .ok t) :
    Inv s ∧ Outcome s e t ∧ Sound t := by
  have inv := sound (step_live taken)
  exact ⟨inv, step_outcome inv taken, fun live => inv.step taken live⟩

/-- Runs lead from sound states to sound states. -/
theorem run_sound {es : List (Event φ)} (sound : Sound s) (ran : Machine.run step s es = .ok t) :
    Sound t :=
  Machine.run_keeps (fun sound taken => (step_sound sound taken).2.2) sound ran

/-- A property that holds after `sherry_init` and is kept by the steps that meet a condition
holds at the end of every run whose steps meet it. -/
theorem run_along {property : State Seqs φ → Prop} {condition : State Seqs φ → Event φ → Prop}
    (start : property sherryInit)
    (kept : ∀ {s e t}, Inv s → property s → condition s e → step s e = .ok t → property t)
    {es : List (Event φ)} (met : Machine.Along step condition sherryInit es)
    (ran : Machine.run step sherryInit es = .ok s) : property s := by
  have both : ∀ {s : State Seqs φ} {e : Event φ} {t : State Seqs φ},
      Sound s ∧ property s → condition s e → step s e = .ok t → Sound t ∧ property t := by
    rintro s e t ⟨sound, holds⟩ met taken
    obtain ⟨inv, _, after⟩ := step_sound sound taken
    exact ⟨after, kept inv holds met taken⟩
  have first : Sound (sherryInit : State Seqs φ) ∧ property sherryInit :=
    ⟨fun _ => inv_sherryInit, start⟩
  exact (Machine.run_keeps_along both first met ran).2

/-- A property that holds after `sherry_init` and is kept by every step holds at the end of
every run. -/
theorem run_all {property : State Seqs φ → Prop} (start : property sherryInit)
    (kept : ∀ {s e t}, Inv s → property s → step s e = .ok t → property t)
    {es : List (Event φ)} (ran : Machine.run step sherryInit es = .ok s) : property s := by
  have always : Machine.Along step (fun _ _ => True) (sherryInit : State Seqs φ) es :=
    .all (fun _ _ => trivial) _ _
  exact run_along start (fun inv holds _ => kept inv holds) always ran

end Sherry
