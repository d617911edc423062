import Sherry.Model.System

/-!
# Actors with programs

The system with actors whose code is known: each actor has the list of the calls it still
makes, after which its function returns. The code runs between two switches without any choice,
so one iteration of the loop of `schdule` is a function, given what libuv does in `uv_run`.
-/

namespace Sherry

variable {Q : Type → Type → Type} [ListStore Q] {φ : Type}

/-- The system, and the calls that each actor still makes. -/
structure Config (Q : Type → Type → Type) (φ : Type) where
  /-- The state of the system. -/
  state : State Q φ
  /-- The calls after the one an actor is suspended in. -/
  rest : ActorRef → List (Event φ)

/-- The executing actor makes its calls until one suspends it or its function returns. -/
def runCalls (self : ActorRef) : List (Event φ) → State Q φ →
    Except Fault (State Q φ × List (Event φ))
  | [], s =>
    match step s .ret with
    | .ok t => .ok (t, [])
    | .error fault => .error fault
  | e :: es, s =>
    match step s e with
    | .ok t => if t.inUser = some self then runCalls self es t else .ok (t, es)
    | .error fault => .error fault

/-- The executing actor leaves the call it was suspended in, and goes on. -/
def turn (s : State Q φ) (self : ActorRef) (rest : List (Event φ)) :
    Except Fault (State Q φ × List (Event φ)) :=
  if (s.actor self).frame = .user then runCalls self rest s
  else
    match step s (.resume 0) with
    | .ok t => if t.inUser = some self then runCalls self rest t else .ok (t, rest)
    | .error fault => .error fault

/-- One iteration of the loop of `schdule`: a turn of the first ready actor, or `uv_run` with
what libuv does there. -/
def iteration (libuv : State Q φ → List (Event φ)) (c : Config Q φ) :
    Except Fault (Config Q φ) :=
  match step c.state .schdule with
  | .error fault => .error fault
  | .ok s =>
    match s.executing with
    | some self =>
      match turn s self (c.rest self) with
      | .ok (t, rest) => .ok { state := t, rest := Function.update c.rest self rest }
      | .error fault => .error fault
    | none =>
      match Machine.run step s (libuv s ++ [.uvReturn]) with
      | .ok t => .ok { c with state := t }
      | .error fault => .error fault

/-- A number of iterations. -/
def iterate (libuv : State Q φ → List (Event φ)) : Nat → Config Q φ → Except Fault (Config Q φ)
  | 0, c => .ok c
  | n + 1, c =>
    match iteration libuv c with
    | .ok d => iterate libuv n d
    | .error fault => .error fault

end Sherry
