import Sherry.Model.Types
import Sherry.Model.Lists

/-!
# The actor core

The functions of the section "Sherry actor model core implementation" of `sherry.c`, and the
context switch below them, as functions of one explicit state. A function that runs on an
actor's stack takes that actor as `self`, which decides only where its own frame lies and
whom an entry of the history names; what the code reads from `sche->running` the model reads
from `running`.

A call that suspends its actor ends at `yield`. What the code does after `yield` returns is a
function of its own, run when the actor is resumed.
-/

namespace Sherry

/-- What stops the program: a call that the state does not allow, or undefined behaviour. -/
inductive Fault
  /-- No part of the program is at this event. -/
  | disabled
  /-- A slot outside `sche->actors` is read. -/
  | outOfBounds
  /-- A `NULL` pointer is dereferenced. -/
  | nullDeref
  /-- An assertion fails. -/
  | assertFailed
  /-- A freed descriptor is used. -/
  | useAfterFree
  /-- Control leaves through a return address nothing was stored in. -/
  | wildReturn
  deriving DecidableEq, Repr

/-- The memory of the program, what libuv holds for it, the registers of the processor and
the history of the run. -/
structure State (Q : Type → Type → Type) (φ : Type) where
  /-- `sche->sizeactors`. -/
  sizeactors : Nat
  /-- `sche->curractors`. -/
  curractors : Int
  /-- `sche->actors`. -/
  actors : List (Option ActorRef)
  /-- `sche->main`. -/
  main : ActorRef
  /-- `sche->running`. -/
  running : ActorRef
  /-- `sche->ctx`. -/
  ctx : Context
  /-- `readyq`, `waitingmsg` and every `waitq`. -/
  waits : Q WaitRef ActorRef
  /-- The mailbox of every actor. -/
  mail : Q ActorRef MsgRef
  /-- The actor structures. -/
  actor : ActorRef → Actor φ
  /-- How many actor structures were allocated. -/
  nactors : Nat
  /-- The messages. -/
  msg : MsgRef → SherryMsg
  /-- How many messages were allocated. -/
  nmsgs : Nat
  /-- The descriptors. -/
  fd : FdRef → SherryFd
  /-- How many descriptors were allocated. -/
  nfds : Nat
  /-- The bytes of every read buffer. -/
  buf : BufRef → List UInt8
  /-- How many read buffers were allocated. -/
  nbufs : Nat
  /-- What was freed, in order. -/
  freed : List Ptr
  /-- The registers of the processor. -/
  cpu : Context
  /-- The scheduler's stack is inside `uv_run`. -/
  polling : Bool
  /-- The `uv_write` requests whose callback has not run. -/
  writes : List UvWrite
  /-- `sherry_exit` has returned. -/
  exited : Bool
  /-- The history, oldest first. -/
  trace : List Obs

namespace State

variable {Q : Type → Type → Type} {φ : Type}

/-- Extend the history. -/
def emit (s : State Q φ) (o : Obs) : State Q φ := { s with trace := s.trace ++ [o] }

/-- Change one actor structure. -/
def setActor (s : State Q φ) (a : ActorRef) (change : Actor φ → Actor φ) : State Q φ :=
  { s with actor := Function.update s.actor a (change (s.actor a)) }

/-- `a->status = status`. -/
def setStatus (s : State Q φ) (a : ActorRef) (status : Status) : State Q φ :=
  s.setActor a fun actor => { actor with status }

/-- Change the innermost call on an actor's stack. -/
def setFrame (s : State Q φ) (a : ActorRef) (frame : Frame) : State Q φ :=
  s.setActor a fun actor => { actor with frame }

/-- Change one descriptor. -/
def setFd (s : State Q φ) (fd : FdRef) (change : SherryFd → SherryFd) : State Q φ :=
  { s with fd := Function.update s.fd fd (change (s.fd fd)) }

/-- `srfree`. -/
def srfree (s : State Q φ) (p : Ptr) : State Q φ := { s with freed := s.freed ++ [p] }

/-- `sche->actors[i]` of a slot inside the table. -/
def slot (s : State Q φ) (i : Nat) : Option ActorRef := s.actors[i]?.join

/-- The actor on whose stack the processor executes. -/
def executing (s : State Q φ) : Option ActorRef :=
  match s.cpu.owner with
  | some (.actor a) => some a
  | _ => none

end State

variable {Q : Type → Type → Type} [ListStore Q] {φ : Type}

/-- The record `octx` or `ctx` points to. -/
def context (s : State Q φ) : Owner → Context
  | .scheduler => s.ctx
  | .actor a => (s.actor a).ctx

/-- Write a context record. -/
def setContext (s : State Q φ) (owner : Owner) (ctx : Context) : State Q φ :=
  match owner with
  | .scheduler => { s with ctx }
  | .actor a => s.setActor a fun actor => { actor with ctx }

/-- `_makecontext`: only `rsp` is written, two words below the top of the stack, where the
entry function is stored as the return address. -/
def makecontext (s : State Q φ) (owner : Owner) (stacksz : Nat) : State Q φ :=
  let ctx := { context s owner with rsp := some ⟨owner, stacksz - 2 * 8⟩ }
  let s := (setContext s owner ctx).emit (.made owner ctx)
  match owner with
  | .scheduler => s
  | .actor a => s.setFrame a .entry

/-- `_swapcontext`: store the executing registers in `octx`, then load them from `ctx`. -/
def swapcontext (s : State Q φ) (octx ctx : Owner) : State Q φ :=
  let stored := s.cpu
  let s := setContext s octx stored
  { s with cpu := context s ctx }.emit (.swapped octx ctx stored (context s ctx))

/-- `new_actor`. -/
def newActor (s : State Q φ) (fn : Option φ) : State Q φ × ActorRef :=
  let r := s.nactors
  ({ s with
      nactors := r + 1
      actor := Function.update s.actor r { aid := -1, status := .none, fn }
      mail := listInit s.mail r }, r)

/-- The scan of `reg_actor` for the first slot that holds `NULL`. -/
def freeSlot (s : State Q φ) : Option Nat := (s.actors.take s.sizeactors).findIdx? Option.isNone

/-- The growth of `reg_actor`: the table doubles and the new half holds `NULL`. -/
def growActors (s : State Q φ) : State Q φ :=
  let oldsize := s.sizeactors
  let newsize := s.sizeactors * 2
  { s with
    actors := s.actors.take oldsize ++ List.replicate (newsize - oldsize) none
    sizeactors := newsize }

/-- `reg_actor`. -/
def regActor (s : State Q φ) (actor : ActorRef) : State Q φ :=
  let (s, id) :=
    match freeSlot s with
    | some id => (s, id)
    | none => (growActors s, s.sizeactors)
  let s := s.setActor actor fun r => { r with aid := id }
  { s with
    actors := s.actors.set id (some actor)
    curractors := s.curractors + 1 }

/-- `unreg_actor`. -/
def unregActor (s : State Q φ) (rid : Int) : State Q φ :=
  if rid < 0 ∨ rid ≥ s.sizeactors ∨ s.slot rid.toNat = none then s
  else
    { s with
      actors := s.actors.set rid.toNat none
      curractors := s.curractors - 1 }

/-- `setready`. -/
def setready (s : State Q φ) (a : ActorRef) : State Q φ :=
  if (s.actor a).status ≠ .ready then
    let s := s.setStatus a .ready
    { s with waits := listEnqueue s.waits .readyq a }
  else s

/-- `setrunning`. -/
def setrunning (s : State Q φ) (a : ActorRef) : State Q φ :=
  { s.setStatus a .running with running := a }

/-- The loop of `unblock_all`, for at most `fuel` nodes. -/
def unblockLoop (list : WaitRef) : Nat → State Q φ → State Q φ
  | 0, s => s
  | fuel + 1, s =>
    match listDequeue s.waits list with
    | (_, none) => s
    | (waits, some a) => unblockLoop list fuel (setready { s with waits } a)

/-- `unblock_all`. A list holds an actor at most once, so the number of actors bounds the
loop. -/
def unblockAll (s : State Q φ) (list : WaitRef) : State Q φ := unblockLoop list s.nactors s

/-- One iteration of the loop of `schdule`: resume the first ready actor, or enter `uv_run`. -/
def schdule (s : State Q φ) : State Q φ :=
  match listDequeue s.waits .readyq with
  | (waits, some next) => swapcontext (setrunning { s with waits } next) .scheduler (.actor next)
  | (waits, none) => { s with waits, polling := true }.emit .polled

/-- `yield`, called from the given frame of the executing stack. -/
def yield (s : State Q φ) (self : ActorRef) (frame : Frame) : State Q φ :=
  swapcontext (s.setFrame self frame) (.actor s.running) .scheduler

/-- The end of `sherry_main`: the actor's function has returned. -/
def sherryMainReturn (s : State Q φ) (self : ActorRef) : State Q φ :=
  let s := s.emit (.returned self)
  yield (unregActor s (s.actor s.running).aid) self .returned

/-- `sherry_spawn`. -/
def sherrySpawn (s : State Q φ) (fn : φ) : State Q φ :=
  let (s, newactor) := newActor s (some fn)
  let s := makecontext (setready (regActor s newactor) newactor) (.actor newactor) stackSize
  s.emit (.spawned newactor (s.actor newactor).aid)

/-- `sherry_yield`, whose `yield` returns to the given frame. -/
def sherryYield (s : State Q φ) (self : ActorRef) (frame : Frame) : State Q φ :=
  yield (setready s s.running) self frame

/-- `sherry_msg_send`. -/
def sherryMsgSend (s : State Q φ) (self : ActorRef) (dst msgtype : Int) (payload : Sds) :
    Except Fault (State Q φ) :=
  if dst < 0 ∨ dst ≥ s.actors.length then .error .outOfBounds
  else
    match s.slot dst.toNat with
    | none => .error .nullDeref
    | some recver =>
      let msg : SherryMsg :=
        { sender := (s.actor s.running).aid, recver := (s.actor recver).aid, msgtype, payload }
      let m := s.nmsgs
      let s := { s with nmsgs := m + 1, msg := Function.update s.msg m msg }
      let s := { s with mail := listEnqueue s.mail recver m }.emit (.sent self recver msg)
      if (s.actor recver).status = .waitMsg then
        .ok (setready { s with waits := listErase s.waits .waitingmsg recver } recver)
      else .ok s

/-- The end of `sherry_msg_recv`, with its local `a`. -/
def msgRecvTail (s : State Q φ) (self a : ActorRef) : State Q φ :=
  let (mail, node) := listDequeue s.mail a
  { s.setFrame self .user with mail }.emit (.received self (node.map s.msg))

/-- `sherry_msg_recv`. -/
def sherryMsgRecv (s : State Q φ) (self : ActorRef) : State Q φ :=
  let a := s.running
  if listEmpty s.mail a then
    let s := s.setStatus a .waitMsg
    yield { s with waits := listEnqueue s.waits .waitingmsg a } self (.recv a)
  else msgRecvTail s self a

/-- `sherry_msg_free`. -/
def sherryMsgFree (s : State Q φ) (m : MsgRef) : State Q φ :=
  (s.srfree (.payload (s.msg m).payload)).srfree (.msg m)

/-- The size of the first registry table. -/
def initialSize : Nat := 1000

/-- The memory at the call of `sherry_init`, with the process executing on its own stack. -/
def processStart : State Q φ where
  sizeactors := initialSize
  curractors := 0
  actors := List.replicate initialSize none
  main := 0
  running := 0
  ctx := {}
  waits := ListStore.blank
  mail := ListStore.blank
  actor := fun _ => {}
  nactors := 0
  msg := fun _ => {}
  nmsgs := 0
  fd := fun _ => {}
  nfds := 0
  buf := fun _ => []
  nbufs := 0
  freed := []
  cpu := { rsp := some ⟨.actor 0, 0⟩ }
  polling := false
  writes := []
  exited := false
  trace := []

/-- `sherry_init`. -/
def sherryInit : State Q φ :=
  let (s, main) := newActor processStart none
  let s := setrunning (regActor { s with main } main) main
  let s := { s with waits := listInit (listInit s.waits .readyq) .waitingmsg }
  makecontext s .scheduler stackSize

/-- `sherry_exit` from the test of its loop. -/
def sherryExit (s : State Q φ) (self : ActorRef) : State Q φ :=
  if s.curractors > 1 then sherryYield s self .exit
  else
    let s := unregActor s (s.actor s.main).aid
    { ((s.srfree .actors).srfree .tmpstack).srfree .scheduler with exited := true }

end Sherry
