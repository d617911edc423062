import Sherry.Library.Rounds
import Sherry.Model.System

/-!
# Actors that spawn, yield and send to main

The system whose actors execute finite programs: `sherry_yield`, `sherry_spawn` of a further
program and `sherry_msg_send` to `SHERRY_MAIN_ID`, and steps of their own that no one else sees
but the log. The function an actor was spawned with is its program, so the code of an actor that
`schdule` resumes for the first time is what its structure holds. Main spawns programs and calls
`sherry_exit`, which returns to the loop of `schdule` until it is alone.
-/

namespace Sherry

open Rounds (Job Op)

variable {Q : Type → Type → Type} [ListStore Q] {ρ : Type}

/-- What a program does besides yields and spawns. -/
inductive Act (ρ : Type)
  /-- `sherry_msg_send` to `SHERRY_MAIN_ID`. -/
  | send (msgtype : Int) (payload : Sds)
  /-- Code of its own, such as the `printf` of the tests. -/
  | record (event : ρ)

/-- A program. -/
abbrev Behaviour (ρ : Type) : Type := Job (Act ρ)

/-- The system, and the code of every suspended actor. -/
structure Session (Q : Type → Type → Type) (ρ : Type) where
  /-- The state of the system. -/
  state : State Q (Behaviour ρ)
  /-- What an actor executes after the `sherry_yield` it is suspended in. -/
  code : ActorRef → Behaviour ρ
  /-- What the programs did, in order. -/
  log : List (ActorRef × Op (Act ρ))

/-- The event of the system that an operation of a program is. -/
def opEvent : Op (Act ρ) → Option (Event (Behaviour ρ))
  | .start => some (.resume 0)
  | .act (.send msgtype payload) => some (.send mainId msgtype payload)
  | .act (.record _) => none
  | .yield => some .yield
  | .spawn child => some (.spawn child)
  | .ret => some .ret

/-- The state after an operation. -/
def perform (s : State Q (Behaviour ρ)) (op : Op (Act ρ)) : Except Fault (State Q (Behaviour ρ)) :=
  match opEvent op with
  | some e => step s e
  | none => .ok s

/-- An actor executes an operation. -/
def Session.issue (c : Session Q ρ) (self : ActorRef) (op : Op (Act ρ)) :
    Except Fault (Session Q ρ) :=
  match perform c.state op with
  | .ok t => .ok { c with state := t, log := c.log ++ [(self, op)] }
  | .error fault => .error fault

/-- An actor executes its program up to its next yield or to its return. -/
def runBehaviour (self : ActorRef) : Behaviour ρ → Session Q ρ → Except Fault (Session Q ρ)
  | .ret, c => c.issue self .ret
  | .act a rest, c => do runBehaviour self rest (← c.issue self (.act a))
  | .yield rest, c => { c with code := Function.update c.code self rest }.issue self .yield
  | .spawn child rest, c => do runBehaviour self rest (← c.issue self (.spawn child))

/-- The actor that got the processor starts its program, goes on with it, or, as main, goes on
in the loop of `sherry_exit`. -/
def takeTurn (self : ActorRef) (c : Session Q ρ) : Except Fault (Session Q ρ) :=
  match (c.state.actor self).frame with
  | .entry => do
    runBehaviour self ((c.state.actor self).fn.getD .ret) (← c.issue self .start)
  | .user => runBehaviour self (c.code self) c
  | _ => do return { c with state := ← step c.state (.resume 0) }

/-- One iteration of the loop of `schdule`; `uv_run` returns at once, because no handle is
open. -/
def Session.iteration (c : Session Q ρ) : Except Fault (Session Q ρ) := do
  let s ← step c.state .schdule
  match s.executing with
  | some self => takeTurn self { c with state := s }
  | none => return { c with state := ← step s .uvReturn }

/-- A number of iterations. -/
def Session.iterate : Nat → Session Q ρ → Except Fault (Session Q ρ)
  | 0, c => .ok c
  | n + 1, c => do Session.iterate n (← c.iteration)

/-- Main spawns programs. -/
def spawnAll : List (Behaviour ρ) → State Q (Behaviour ρ) → Except Fault (State Q (Behaviour ρ))
  | [], s => .ok s
  | root :: roots, s => do spawnAll roots (← step s (.spawn root))

/-- Main calls `sherry_init`, spawns programs and calls `sherry_exit`; then the loop of
`schdule` runs a number of times. -/
def play (roots : List (Behaviour ρ)) (n : Nat) : Except Fault (Session Q ρ) := do
  let s ← spawnAll roots sherryInit
  Session.iterate n { state := ← step s .exit, code := fun _ => .ret, log := [] }

end Sherry
