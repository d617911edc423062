import Mathlib.Logic.Function.Basic

/-!
# Data of the actor library

The structures of `sherry.c` with the fields its functions read and write. A pointer is the
number of the object it names, counted in order of allocation within its kind, so two live
objects of one kind never share a pointer and a pointer outlives its object. The intrusive
links `actor.node` and `msg_node.node` and the list heads are not here: they belong to the
list stores of `Model.Lists`.
-/

namespace Sherry

/-- `actor_t *`. -/
abbrev ActorRef := Nat
/-- `struct msg_node *`. -/
abbrev MsgRef := Nat
/-- `sherry_fd_t *`. -/
abbrev FdRef := Nat
/-- The `base` of a read buffer. -/
abbrev BufRef := Nat
/-- `sds`: `NULL` or the address of a string buffer, which the library only passes on. -/
abbrev Sds := Option Nat

/-- `SHERRY_MAIN_ID`. -/
def mainId : Int := 0
/-- `SHERRY_STACK_SIZE`. -/
def stackSize : Nat := 10 * 4096
/-- `SHERRY_ERR_INVALID`. -/
def errInvalid : Int := 1
/-- `SHERRY_FD_TCP`. -/
def fdTcp : Int := 1
/-- `UV_EOF`. -/
def uvEof : Int := -4095
/-- `UV_EAGAIN`. -/
def uvEagain : Int := -11

/-- `SHERRY_STATE_NONE` to `SHERRY_STATE_WAIT_EV`. -/
inductive Status
  | none
  | dead
  | ready
  | running
  | waitMsg
  | waitEv
  deriving DecidableEq, Repr

/-- `SHERRY_EV_READ` and `SHERRY_EV_WRITE`, the indices of `waitq`. -/
inductive Ev
  | read
  | write
  deriving DecidableEq, Repr

/-- The lists that link actors through `actor.node`. -/
inductive WaitRef
  | readyq
  | waitingmsg
  | waitq (fd : FdRef) (event : Ev)
  deriving DecidableEq, Repr

/-- The owner of a context record and of a stack: the scheduler with `tmpstack`, or an actor
with the stack below its structure. The stack of the fake main actor is the process stack. -/
inductive Owner
  | scheduler
  | actor (a : ActorRef)
  deriving DecidableEq, Repr

/-- A stack pointer: the stack it points into and the offset from the stack's base. -/
structure StackPointer where
  /-- The stack. -/
  owner : Owner
  /-- The offset in bytes. -/
  offset : Nat
  deriving DecidableEq, Repr

/-- `context_t`: the registers that `_swapcontext` stores and loads. -/
structure Context where
  /-- `rsp`; nothing in a record that was never written. -/
  rsp : Option StackPointer := none
  /-- `rbp`. -/
  rbp : UInt64 := 0
  /-- `rbx`. -/
  rbx : UInt64 := 0
  /-- `r12`. -/
  r12 : UInt64 := 0
  /-- `r13`. -/
  r13 : UInt64 := 0
  /-- `r14`. -/
  r14 : UInt64 := 0
  /-- `r15`. -/
  r15 : UInt64 := 0
  deriving DecidableEq, Repr

/-- The stack a context executes on. -/
def Context.owner (ctx : Context) : Option Owner := ctx.rsp.map StackPointer.owner

/-- The innermost call on a suspended actor's stack: the code that runs when `yield` returns
there, with the locals that code still reads. On the executing stack it is `user` between two
calls of the library. -/
inductive Frame
  /-- The return address that `_makecontext` stored: `sherry_main` has not begun. -/
  | entry
  /-- The actor's own code. -/
  | user
  /-- `sherry_msg_recv` after its `yield`, with its local `a`. -/
  | recv (a : ActorRef)
  /-- The loop of `sherry_accept`. -/
  | accept (server client : FdRef)
  /-- The loop of `sherry_read`. -/
  | read (fd : FdRef) (count : Nat)
  /-- `sherry_write` after its `yield`. -/
  | write (fd : FdRef) (count : Nat)
  /-- The loop of `sherry_exit`. -/
  | exit
  /-- `sherry_main` after its `yield`, the end of that function. -/
  | returned
  deriving DecidableEq, Repr

/-- `actor_t`, with the function and its argument as one value of an arbitrary type, and with
the innermost call on the actor's stack. -/
structure Actor (φ : Type) where
  /-- `aid`. -/
  aid : Int := -1
  /-- `status`. -/
  status : Status := .none
  /-- `ctx`. -/
  ctx : Context := {}
  /-- `fn` with `argv`, nothing for `NULL`. -/
  fn : Option φ := none
  /-- The innermost call on the actor's stack. -/
  frame : Frame := .user

/-- `struct sherry_msg`. -/
structure SherryMsg where
  /-- `sender`. -/
  sender : Int := 0
  /-- `recver`. -/
  recver : Int := 0
  /-- `msgtype`. -/
  msgtype : Int := 0
  /-- `payload`. -/
  payload : Sds := none
  deriving DecidableEq, Repr

/-- `uv_buf_t`. -/
structure UvBuf where
  /-- `base`, nothing for `NULL`. -/
  base : Option BufRef := none
  /-- `len`. -/
  len : Nat := 0
  deriving DecidableEq, Repr

/-- What libuv keeps for a stream handle. -/
structure UvHandle where
  /-- `uv_read_start` succeeded. -/
  reading : Bool := false
  /-- `uv_listen` succeeded. -/
  listening : Bool := false
  /-- `uv_close` was called. -/
  closing : Bool := false
  deriving DecidableEq, Repr

/-- `sherry_fd_t`. -/
structure SherryFd where
  /-- `type`. -/
  type : Int := 0
  /-- `rbuf`. -/
  rbuf : UvBuf := {}
  /-- `roffset`. -/
  roffset : Nat := 0
  /-- `rerror`. -/
  rerror : Int := 0
  /-- `handle`. -/
  handle : UvHandle := {}
  deriving DecidableEq, Repr

/-- An accepted `uv_write` request whose callback has not run: the handle it writes to and
the `data` of its `uv_write_t`. -/
structure UvWrite where
  /-- The stream. -/
  fd : FdRef
  /-- `req.data`. -/
  data : ActorRef
  deriving DecidableEq, Repr

/-- What `srfree` and `sdsfree` are given. -/
inductive Ptr
  | buf (b : BufRef)
  | fd (fd : FdRef)
  | msg (m : MsgRef)
  | payload (p : Sds)
  | actor (a : ActorRef)
  | actors
  | tmpstack
  | scheduler
  deriving DecidableEq, Repr

/-- One entry of the history of a run: what the callers of the library and libuv see, and
every context switch. Entries of a call name the actor that executes it. -/
inductive Obs
  /-- `sherry_spawn` returned `id` for the new actor. -/
  | spawned (a : ActorRef) (id : Int)
  /-- The function of the actor returned. -/
  | returned (a : ActorRef)
  /-- `_makecontext` wrote a record. -/
  | made (owner : Owner) (ctx : Context)
  /-- `_swapcontext(octx, ctx)` stored the executing registers and loaded others. -/
  | swapped (octx ctx : Owner) (stored loaded : Context)
  /-- `schdule` called `uv_run`. -/
  | polled
  /-- `sherry_msg_send` placed a message in the receiver's mailbox. -/
  | sent (sender recver : ActorRef) (msg : SherryMsg)
  /-- `sherry_msg_recv` returned a message, or `NULL`. -/
  | received (a : ActorRef) (msg : Option SherryMsg)
  /-- `sherry_fd_tcp` returned a descriptor, or `NULL`. -/
  | opened (fd : Option FdRef)
  /-- `sherry_listen` returned. -/
  | listened (fd : Option FdRef) (ret : Int)
  /-- `sherry_accept` returned. -/
  | accepted (a : ActorRef) (server client : FdRef) (ret : Int)
  /-- `read_cb` was handed received bytes. -/
  | delivered (fd : FdRef) (bytes : List UInt8)
  /-- `sherry_read` returned `ret` after copying the bytes to its caller's buffer. -/
  | read (a : ActorRef) (fd : FdRef) (ret : Int) (bytes : List UInt8)
  /-- `uv_write` returned to `sherry_write`. -/
  | submitted (a : ActorRef) (fd : FdRef) (ret : Int)
  /-- `write_cb` ran. -/
  | written (a : ActorRef) (fd : FdRef) (status : Int)
  /-- `sherry_write` returned. -/
  | wrote (a : ActorRef) (fd : FdRef) (ret : Int)
  deriving DecidableEq, Repr

end Sherry
