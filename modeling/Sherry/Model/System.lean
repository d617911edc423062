import Sherry.Library.Machine
import Sherry.Model.Net

/-!
# The running system

Actors are arbitrary programs over the interface of `sherry.h`, so between two calls the
actor on the processor may make any call. After a switch the resumed actor first leaves the
call it was suspended in. On the scheduler's stack the loop of `schdule` runs, and inside
`uv_run` libuv calls back, any number of times and only for handles it was told to serve.
One event is one of these pieces of code, run until control changes hands.
-/

namespace Sherry

variable {Q : Type → Type → Type} [ListStore Q] {φ : Type}

/-- What happens next. -/
inductive Event (φ : Type)
  /-- The actor's own code changes the registers, on its own stack. -/
  | compute (ctx : Context)
  /-- The actor calls `sherry_spawn`. -/
  | spawn (fn : φ)
  /-- The actor calls `sherry_yield`. -/
  | yield
  /-- The actor calls `sherry_msg_send`. -/
  | send (dst msgtype : Int) (payload : Sds)
  /-- The actor calls `sherry_msg_recv`. -/
  | recv
  /-- The actor calls `sherry_msg_free`. -/
  | msgFree (m : MsgRef)
  /-- The actor calls `sherry_fd_tcp`. -/
  | fdTcp (allocated : Bool)
  /-- The actor calls `sherry_listen`; `uv_listen` returns `ret`. -/
  | listen (fd : Option FdRef) (ret : Int)
  /-- The actor calls `sherry_accept`; the first `uv_accept` returns `err`. -/
  | accept (server client : FdRef) (err : Int)
  /-- The actor calls `sherry_read`; `uv_read_start` returns `err`. -/
  | read (fd : FdRef) (count : Nat) (err : Int)
  /-- The actor calls `sherry_write`; `uv_write` returns `ret`. -/
  | write (fd : FdRef) (count : Nat) (ret : Int)
  /-- The actor calls `sherry_fd_close`. -/
  | close (fd : FdRef)
  /-- The actor's function returns to `sherry_main`. -/
  | ret
  /-- Main calls `sherry_exit`. -/
  | exit
  /-- The resumed actor goes on where `yield` returned; `err` is what `uv_accept` returns
  when that is the loop of `sherry_accept`. -/
  | resume (err : Int)
  /-- The loop of `schdule` runs once. -/
  | schdule
  /-- `uv_run` returns. -/
  | uvReturn
  /-- libuv calls `listen_cb`. -/
  | listenCb (fd : FdRef) (status : Int)
  /-- libuv calls `rbuf_alloc` and then `read_cb` with the same buffer, which then holds
  `content`. -/
  | readCb (fd : FdRef) (nread : Int) (content : List UInt8) (allocated : Bool)
  /-- libuv calls `write_cb`. -/
  | writeCb (req : UvWrite) (status : Int)
  /-- libuv calls `close_cb`. -/
  | closeCb (fd : FdRef)

namespace State

/-- The actor that executes its own code. -/
def inUser (s : State Q φ) : Option ActorRef :=
  if s.exited then none
  else s.executing.filter fun a => (s.actor a).frame = .user

/-- The scheduler's stack executes, inside `uv_run` or not. -/
def onScheduler (s : State Q φ) (inUvRun : Bool) : Bool :=
  !s.exited && s.cpu.owner = some .scheduler && s.polling = inUvRun

/-- A descriptor that was allocated and not freed. -/
def liveFd (s : State Q φ) (fd : FdRef) : Bool := fd < s.nfds && .fd fd ∉ s.freed

/-- A live descriptor whose handle libuv may still serve. -/
def openFd (s : State Q φ) (fd : FdRef) : Bool := s.liveFd fd && !(s.fd fd).handle.closing

end State

/-- A call made by the executing actor. -/
def call (s : State Q φ) (body : ActorRef → Except Fault (State Q φ)) : Except Fault (State Q φ) :=
  match s.inUser with
  | some self => body self
  | none => .error .disabled

/-- A call on a descriptor made by the executing actor. -/
def fdCall (s : State Q φ) (fd : FdRef) (body : ActorRef → Except Fault (State Q φ)) :
    Except Fault (State Q φ) :=
  call s fun self => if s.liveFd fd then body self else .error .useAfterFree

/-- Code that runs on the scheduler's stack under a condition. -/
def onLoop (s : State Q φ) (inUvRun : Bool) (allowed : Prop) [Decidable allowed]
    (body : Except Fault (State Q φ)) : Except Fault (State Q φ) :=
  if s.onScheduler inUvRun ∧ allowed then body else .error .disabled

/-- The code of a resumed actor from the return of `yield` to its own code or to the next
suspension. -/
def resume (s : State Q φ) (self : ActorRef) (err : Int) : Except Fault (State Q φ) :=
  match (s.actor self).frame with
  | .user => .error .disabled
  | .entry => .ok (s.setFrame self .user)
  | .recv a => .ok (msgRecvTail s self a)
  | .accept server client =>
    if s.liveFd server ∧ s.liveFd client then .ok (sherryAccept s self server client err)
    else .error .useAfterFree
  | .read fd count =>
    if s.liveFd fd then .ok (readLoop s self fd count) else .error .useAfterFree
  | .write fd count => .ok (writeTail s self fd count)
  | .exit => .ok (sherryExit s self)
  | .returned => .error .wildReturn

/-- One event. -/
def step (s : State Q φ) : Event φ → Except Fault (State Q φ)
  | .compute ctx =>
    call s fun _ => if ctx.owner = s.cpu.owner then .ok { s with cpu := ctx } else .error .disabled
  | .spawn fn => call s fun _ => .ok (sherrySpawn s fn)
  | .yield => call s fun self => .ok (sherryYield s self .user)
  | .send dst msgtype payload => call s fun self => sherryMsgSend s self dst msgtype payload
  | .recv => call s fun self => .ok (sherryMsgRecv s self)
  | .msgFree m => call s fun _ => .ok (sherryMsgFree s m)
  | .fdTcp allocated => call s fun _ => .ok (sherryFdTcp s allocated)
  | .listen fd ret =>
    call s fun _ =>
      if fd.all s.liveFd then .ok (sherryListen s fd ret) else .error .useAfterFree
  | .accept server client err =>
    fdCall s server fun self =>
      if s.liveFd client then .ok (sherryAccept s self server client err)
      else .error .useAfterFree
  | .read fd count err => fdCall s fd fun self => .ok (sherryRead s self fd count err)
  | .write fd count ret => fdCall s fd fun self => .ok (sherryWrite s self fd count ret)
  | .close fd => fdCall s fd fun _ => sherryFdClose s fd
  | .ret =>
    call s fun self => if self = s.main then .error .disabled else .ok (sherryMainReturn s self)
  | .exit =>
    call s fun self => if self = s.main then .ok (sherryExit s self) else .error .disabled
  | .resume err =>
    if s.exited then .error .disabled
    else
      match s.executing with
      | some self => resume s self err
      | none => .error .disabled
  | .schdule => onLoop s false True (.ok (schdule s))
  | .uvReturn => onLoop s true True (.ok { s with polling := false })
  | .listenCb fd status =>
    onLoop s true (s.openFd fd ∧ (s.fd fd).handle.listening) (.ok (listenCb s fd status))
  | .readCb fd nread content allocated =>
    onLoop s true
      (s.openFd fd ∧ (s.fd fd).handle.reading ∧ nread ≤ content.length ∧ (0 < nread → allocated))
      (let (s, buf) := rbufAlloc s content allocated
       .ok (readCb s fd nread buf))
  | .writeCb req status =>
    onLoop s true (req ∈ s.writes) (writeCb { s with writes := s.writes.erase req } req status)
  | .closeCb fd =>
    onLoop s true
      (s.liveFd fd ∧ (s.fd fd).handle.closing ∧ ∀ req ∈ s.writes, req.fd ≠ fd)
      (.ok (closeCb s fd))

/-- Main listens on descriptor 0 and accepts the first connection on descriptor 1. -/
def connected : List (Event φ) :=
  [.fdTcp true, .listen (some 0) 0, .fdTcp true, .accept 0 1 uvEagain, .schdule, .listenCb 0 0,
    .uvReturn, .schdule, .resume 0]

end Sherry
