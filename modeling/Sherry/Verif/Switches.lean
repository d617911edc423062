import Sherry.Library.Coroutines
import Sherry.Verif.Changes

/-!
# Context switches

The scheduler and the actors are one-shot coroutines, and `_swapcontext` switches between them.
Which one runs is read off the stack pointer, and how far an actor is from its registration and
its frame; the record that `_swapcontext` loads is then the one its owner last stored. So the
history of every run is one that the coroutines allow, although `yield` finds the record it
stores into through `sche->running`.
-/

namespace Sherry

variable {φ : Type} {s t : State Seqs φ} {a : ActorRef} {e : Event φ}

/-- The entry is about a context record, an end of an actor or a call of `uv_run`. -/
def Obs.isControl : Obs → Bool
  | .made _ _ | .returned _ | .swapped _ _ _ _ | .polled => true
  | _ => false

/-- The transfers of control in a history. -/
def controls (trace : List Obs) : List Obs := trace.filter Obs.isControl

/-- What is read off the transfers of control alone. -/
theorem filterMap_controls {β : Type} {f : Obs → Option β}
    (only : ∀ o, o.isControl = false → f o = none) (trace : List Obs) :
    trace.filterMap f = (controls trace).filterMap f := by
  induction trace with
  | nil => rfl
  | cons o trace ih =>
    cases control : o.isControl with
    | true => simp only [controls, List.filter_cons, control, ↓reduceIte, List.filterMap_cons, ih]
    | false =>
      simp only [controls, List.filter_cons, control, Bool.false_eq_true, ↓reduceIte,
        List.filterMap_cons, only o control]
      exact ih

/-- What a longer history adds is read off the transfers of control it adds. -/
theorem filterMap_grows {β : Type} {f : Obs → Option β}
    (only : ∀ o, o.isControl = false → f o = none) {more : List Obs}
    (same : controls t.trace = controls s.trace ++ more) :
    t.trace.filterMap f = s.trace.filterMap f ++ more.filterMap f := by
  rw [filterMap_controls only, same, List.filterMap_append, ← filterMap_controls only]

/-- What an event does to the processor, the scheduler's record and the registry, and which
transfers of control it adds to the history. -/
inductive ControlChange (s t : State Seqs φ) (e : Event φ) : Prop
  | kept (owner : t.cpu.owner = s.cpu.owner) (ctx : t.ctx = s.ctx) (actors : t.actors = s.actors)
      (nactors : t.nactors = s.nactors) (other : e ≠ .schdule)
      (same : controls t.trace = controls s.trace)
  | polled (event : e = .schdule) (idle : s.waits.seq .readyq = [])
      (owner : t.cpu.owner = s.cpu.owner) (ctx : t.ctx = s.ctx) (actors : t.actors = s.actors)
      (nactors : t.nactors = s.nactors) (more : controls t.trace = controls s.trace ++ [.polled])
  | spawned {fn : φ} (event : e = .spawn fn) (owner : t.cpu.owner = s.cpu.owner)
      (ctx : t.ctx = s.ctx) (registered : ∀ b, Registered t b ↔ b = s.nactors ∨ Registered s b)
      (nactors : t.nactors = s.nactors + 1) (entry : (t.actor s.nactors).frame = .entry)
      (more : controls t.trace =
        controls s.trace ++ [.made (.actor s.nactors) (t.actor s.nactors).ctx])
  | suspended {self : ActorRef} (exec : s.executing = some self) (cpu : t.cpu = s.ctx)
      (ctx : t.ctx = s.ctx) (own : (t.actor self).ctx = s.cpu)
      (inside : (t.actor self).frame ≠ .entry)
      (actors : t.actors = s.actors) (nactors : t.nactors = s.nactors) (other : e ≠ .schdule)
      (more : controls t.trace =
        controls s.trace ++ [.swapped (.actor self) .scheduler s.cpu s.ctx])
  | returned {self : ActorRef} (exec : s.executing = some self) (cpu : t.cpu = s.ctx)
      (ctx : t.ctx = s.ctx) (own : (t.actor self).ctx = s.cpu)
      (registered : ∀ b, Registered t b ↔ Registered s b ∧ b ≠ self)
      (nactors : t.nactors = s.nactors) (other : e ≠ .schdule)
      (more : controls t.trace =
        controls s.trace ++ [.returned self, .swapped (.actor self) .scheduler s.cpu s.ctx])
  | dispatched {next : ActorRef} (event : e = .schdule) (owner : s.cpu.owner = some .scheduler)
      (first : s.waits.seq .readyq = next :: t.waits.seq .readyq)
      (cpu : t.cpu = (s.actor next).ctx) (ctx : t.ctx = s.cpu) (actors : t.actors = s.actors)
      (nactors : t.nactors = s.nactors)
      (more : controls t.trace =
        controls s.trace ++ [.swapped .scheduler (.actor next) s.cpu (s.actor next).ctx])
  | ended (exited : t.exited = true) (other : e ≠ .schdule) (same : t.trace = s.trace)

/-- An event transfers control in one of seven ways. -/
theorem Outcome.control_change (outcome : Outcome s e t) (inv : Inv s) :
    ControlChange s t e := by
  cases outcome with
  | computes _ owner => exact .kept owner rfl rfl rfl (by simp) rfl
  | spawns =>
    rw [sherrySpawn_eq]
    exact .spawned rfl rfl rfl (fun _ => inv.registry.registered_entered rfl) rfl (by simp)
      (by simp [controls, List.filter_cons, Obs.isControl])
  | yields user =>
    exact .suspended (inUser_iff.mp user).2.1 rfl rfl (by simp [park]) (by simp [park]) rfl rfl
      (by simp) (by simp [park, controls, Obs.isControl])
  | sends =>
    unfold revoke
    split <;>
      exact .kept rfl rfl rfl rfl (by simp) (by simp [wake, deliver, controls, Obs.isControl])
  | awaits user =>
    exact .suspended (inUser_iff.mp user).2.1 rfl rfl (by simp [park]) (by simp [park]) rfl rfl
      (by simp) (by simp [park, controls, Obs.isControl])
  | receives _ enters =>
    rcases enters with ⟨rfl, _⟩ | ⟨_, rfl, _⟩ <;>
      exact .kept rfl rfl rfl rfl (by simp) (by simp [taken, controls, Obs.isControl])
  | frees => exact .kept rfl rfl rfl rfl (by simp) rfl
  | opens => exact .kept rfl rfl rfl rfl (by simp) (by simp [openedFd, controls, Obs.isControl])
  | opensNone =>
    exact .kept rfl rfl rfl rfl (by simp) (by simp [State.emit, controls, Obs.isControl])
  | listens =>
    exact .kept rfl rfl rfl rfl (by simp)
      (by simp [State.setFd, State.emit, controls, Obs.isControl])
  | listensNot =>
    exact .kept rfl rfl rfl rfl (by simp) (by simp [State.emit, controls, Obs.isControl])
  | accepts _ enters =>
    rcases enters with ⟨rfl, _⟩ | ⟨rfl, _⟩ <;>
      exact .kept rfl rfl rfl rfl (by simp)
        (by simp [State.setFrame, State.setActor, State.emit, controls, Obs.isControl])
  | blocksAccept exec enters =>
    rcases enters with ⟨rfl, _⟩ | ⟨rfl, _⟩ <;>
      exact .suspended exec rfl rfl (by simp [park]) (by simp [park]) rfl rfl (by simp)
        (by simp [park, controls, Obs.isControl])
  | refused =>
    exact .kept rfl rfl rfl rfl (by simp) (by simp [State.emit, controls, Obs.isControl])
  | readError _ enters =>
    rcases enters with ⟨rfl, _, rfl⟩ | ⟨_, rfl, _, rfl⟩ <;>
      exact .kept rfl rfl rfl rfl (by simp)
        (by simp [started, State.setFd, State.setFrame, State.setActor, State.emit, controls,
          Obs.isControl])
  | readBytes _ enters =>
    rcases enters with ⟨rfl, _, rfl⟩ | ⟨_, rfl, _, rfl⟩ <;>
      exact .kept rfl rfl rfl rfl (by simp)
        (by simp [started, State.setFd, consume, controls, Obs.isControl])
  | blocksRead exec enters =>
    rcases enters with ⟨rfl, _, rfl⟩ | ⟨_, rfl, _, rfl⟩ <;>
      exact .suspended exec rfl rfl (by simp [park, started, State.setFd]) (by simp [park]) rfl rfl
        (by simp) (by simp [park, started, State.setFd, controls, Obs.isControl])
  | submits user =>
    exact .suspended (inUser_iff.mp user).2.1 rfl rfl (by simp [park]) (by simp [park]) rfl rfl
      (by simp) (by simp [park, controls, Obs.isControl])
  | closes => exact .kept rfl rfl rfl rfl (by simp) rfl
  | @returns self i user _ found =>
    have exec := (inUser_iff.mp user).2.1
    exact .returned exec rfl rfl (by simp [park])
      (fun _ => inv.registry.registered_left found rfl) rfl (by simp)
      (by simp [park, controls, List.filter_cons, Obs.isControl])
  | lingers exec enters =>
    rcases enters with ⟨rfl, _⟩ | ⟨_, rfl, _⟩ <;>
      exact .suspended exec rfl rfl (by simp [park]) (by simp [park]) rfl rfl (by simp)
        (by simp [park, controls, Obs.isControl])
  | ends _ enters => rcases enters with ⟨rfl, _⟩ | ⟨_, rfl, _⟩ <;> exact .ended rfl (by simp) rfl
  | begins => exact .kept rfl rfl rfl rfl (by simp) rfl
  | wrote =>
    exact .kept rfl rfl rfl rfl (by simp)
      (by simp [writeTail, State.setFrame, State.setActor, State.emit, controls, Obs.isControl])
  | dispatches owner _ first =>
    exact .dispatched rfl owner (by simp [first, dispatch]) rfl rfl rfl rfl
      (by simp [dispatch, controls, Obs.isControl])
  | polls _ _ idle =>
    exact .polled rfl idle rfl rfl rfl rfl (by simp [controls, Obs.isControl])
  | polled => exact .kept rfl rfl rfl rfl (by simp) rfl
  | connects => exact .kept rfl rfl rfl rfl (by simp) rfl
  | fails => exact .kept rfl rfl rfl rfl (by simp) rfl
  | delivers =>
    exact .kept rfl rfl rfl rfl (by simp) (by simp [wakeAll, receive, controls, Obs.isControl])
  | writes =>
    exact .kept rfl rfl rfl rfl (by simp) (by simp [wake, State.emit, controls, Obs.isControl])
  | closed => exact .kept rfl rfl rfl rfl (by simp) rfl

/-- An entry of the history as a transfer between coroutines. -/
def switchOf : Obs → Option (Switch Owner Context)
  | .made owner ctx => some (.create owner ctx)
  | .returned a => some (.finish (.actor a))
  | .swapped octx ctx stored loaded => some (.switch octx ctx stored loaded)
  | _ => none

/-- The transfers between coroutines in a history. -/
def switches (trace : List Obs) : List (Switch Owner Context) := trace.filterMap switchOf

/-- The coroutines before `sherry_init`: the process runs as main. -/
def mainOnly : Coroutines Owner Context where
  current := .actor 0
  state := Function.update (fun _ => .unborn) (.actor 0) .running

/-- How far an actor is as a coroutine. -/
def coroutineOf (s : State Seqs φ) (a : ActorRef) : Coroutine Context :=
  if s.nactors ≤ a then .unborn
  else if ¬Registered s a then .finished
  else if s.executing = some a then .running
  else if (s.actor a).frame = .entry then .created (s.actor a).ctx
  else .suspended (s.actor a).ctx

/-- The coroutines that a history leaves are those of the state. -/
structure Agree (s : State Seqs φ) (c : Coroutines Owner Context) : Prop where
  /-- The processor is in the coroutine that runs. -/
  current : s.cpu.owner = some c.current
  /-- Every actor is as far as its coroutine. -/
  actors : ∀ a, c.state (.actor a) = coroutineOf s a
  /-- The scheduler runs, or its record is the one it last stored. -/
  scheduler : if c.current = .scheduler then c.state .scheduler = .running
    else (c.state .scheduler).saved = some s.ctx

/-- Entries that are no transfer of control are no transfer between coroutines. -/
theorem switchOf_control (o : Obs) (other : o.isControl = false) : switchOf o = none := by
  cases o <;> first | rfl | cases other

/-- An actor that is not executing and not made keeps its record and its frame. -/
theorem ActorChange.idle (change : ActorChange s t e a) (idle : s.executing ≠ some a)
    (old : a ≠ s.nactors) :
    (t.actor a).ctx = (s.actor a).ctx ∧ (t.actor a).frame = (s.actor a).frame := by
  cases change with
  | kept same => rw [same]; exact ⟨rfl, rfl⟩
  | proceeds exec => exact absurd exec idle
  | parked exec => exact absurd exec idle
  | woken _ same => rw [same]; exact ⟨rfl, rfl⟩
  | dispatched _ _ same => rw [same]; exact ⟨rfl, rfl⟩
  | made fresh => exact absurd fresh old

/-- The executing actor is the running coroutine. -/
theorem coroutineOf_executing (inv : Inv s) (exec : s.executing = some a) :
    coroutineOf s a = .running := by
  have registered := (inv.placed.executing exec).1
  have old := inv.registry.allocated registered
  simp [coroutineOf, registered, exec, old]

/-- A registered actor that does not execute has saved its record. -/
theorem coroutineOf_saved (inv : Inv s) (registered : Registered s a)
    (idle : s.executing ≠ some a) : (coroutineOf s a).saved = some (s.actor a).ctx := by
  have old := inv.registry.allocated registered
  unfold coroutineOf
  rw [if_neg (Nat.not_le.mpr old), if_neg (not_not.mpr registered), if_neg idle]
  split <;> rfl

/-- An actor that did not execute, was not made and does not execute now is as far as before,
unless it was registered or unregistered. -/
theorem coroutineOf_other (change : ActorChange s t e a)
    (paused : s.executing ≠ some a) (still : t.executing ≠ some a) (old : a ≠ s.nactors)
    (born : t.nactors ≤ a ↔ s.nactors ≤ a) (registered : Registered t a ↔ Registered s a) :
    coroutineOf t a = coroutineOf s a := by
  obtain ⟨ctx, frame⟩ := change.idle paused old
  simp only [coroutineOf, born, registered, if_neg paused, if_neg still, ctx, frame]

/-- An actor that was not made is an unborn coroutine. -/
theorem coroutineOf_unborn (fresh : s.nactors ≤ a) : coroutineOf s a = .unborn := by
  simp [coroutineOf, fresh]

/-- A coroutine is as far as before when its actor executes neither before nor after, and nobody was
made and it was not unregistered. -/
theorem coroutineOf_same (change : ActorChange s t e a) (paused : s.executing ≠ some a)
    (still : t.executing ≠ some a) (nactors : t.nactors = s.nactors)
    (registered : Registered t a ↔ Registered s a) : coroutineOf t a = coroutineOf s a := by
  by_cases fresh : s.nactors ≤ a
  · rw [coroutineOf_unborn fresh, coroutineOf_unborn (nactors ▸ fresh)]
  · exact coroutineOf_other change paused still (fun same => fresh (Nat.le_of_eq same.symm))
      (by rw [nactors]) registered

/-- Later entries of a history are later transfers. -/
theorem switches_append {more : List Obs} (same : controls t.trace = controls s.trace ++ more) :
    switches t.trace = switches s.trace ++ switches more :=
  filterMap_grows switchOf_control same

namespace Agree

variable {c : Coroutines Owner Context} {next : ActorRef}

/-- The processor is in an actor exactly when its coroutine runs. -/
theorem executing (agree : Agree s c) : s.executing = some a ↔ c.current = .actor a := by
  rw [executing_iff, agree.current, Option.some.injEq]

/-- A step that transfers no control leaves all coroutines as they are. -/
theorem kept (inv : Inv s) (agree : Agree s c) (change : ∀ a, ActorChange s t e a)
    (owner : t.cpu.owner = s.cpu.owner) (ctx : t.ctx = s.ctx) (actors : t.actors = s.actors)
    (nactors : t.nactors = s.nactors) : Agree t c := by
  have exec : t.executing = s.executing := by
    unfold State.executing
    rw [owner]
  have registered : ∀ a, Registered t a ↔ Registered s a := by simp [Registered, actors]
  refine ⟨owner.trans agree.current, fun a => ?_, ctx ▸ agree.scheduler⟩
  rw [agree.actors a]
  by_cases runs : s.executing = some a
  · have held := (inv.placed.executing runs).1
    have old := inv.registry.allocated held
    rw [coroutineOf_executing inv runs]
    simp [coroutineOf, nactors, old, registered, held, exec, runs]
  · exact (coroutineOf_same (change a) runs (exec ▸ runs) nactors (registered a)).symm

/-- A spawn creates the coroutine of its actor. -/
theorem spawned (inv : Inv s) (agree : Agree s c) (change : ∀ a, ActorChange s t e a)
    (owner : t.cpu.owner = s.cpu.owner) (ctx : t.ctx = s.ctx)
    (registered : ∀ b, Registered t b ↔ b = s.nactors ∨ Registered s b)
    (nactors : t.nactors = s.nactors + 1) (entry : (t.actor s.nactors).frame = .entry) :
    ∃ d, Coroutines.step c (.create (.actor s.nactors) (t.actor s.nactors).ctx) = .ok d ∧
      Agree t d := by
  have exec : t.executing = s.executing := by
    unfold State.executing
    rw [owner]
  have idle : s.executing ≠ some s.nactors := fun runs =>
    Nat.lt_irrefl _ (inv.registry.allocated (inv.placed.executing runs).1)
  have unborn : c.state (.actor s.nactors) = .unborn := by
    rw [agree.actors, coroutineOf_unborn (Nat.le_refl _)]
  refine ⟨_, Coroutines.step_ok.mpr ⟨unborn, rfl⟩, owner.trans agree.current, fun a => ?_, ?_⟩
  · by_cases made : a = s.nactors
    · subst made
      simp [coroutineOf, nactors, registered, exec, idle, entry]
    · have apart : Owner.actor a ≠ .actor s.nactors := fun same => made (Owner.actor.inj same)
      simp only [Function.update_of_ne apart, agree.actors a]
      by_cases runs : s.executing = some a
      · have held := (inv.placed.executing runs).1
        have old := inv.registry.allocated held
        rw [coroutineOf_executing inv runs]
        have below : ¬s.nactors + 1 ≤ a := Nat.not_le.mpr (Nat.lt_succ_of_lt old)
        simp [coroutineOf, nactors, below, registered, held, exec, runs]
      · refine (coroutineOf_other (change a) runs (exec ▸ runs) made ?_ ?_).symm
        · rw [nactors]
          exact ⟨Nat.le_of_succ_le, fun le => Nat.lt_of_le_of_ne le (Ne.symm made)⟩
        · rw [registered]
          exact or_iff_right made
  · simp only [ne_eq, reduceCtorEq, not_false_eq_true, Function.update_of_ne, ctx]
    exact agree.scheduler

/-- When the executing actor leaves the processor its coroutine runs and the scheduler's is
suspended, and then nobody executes. -/
theorem leaving {self : ActorRef} (inv : Inv s) (agree : Agree s c)
    (exec : s.executing = some self) (cpu : t.cpu = s.ctx) :
    c.current = .actor self ∧ (c.state .scheduler).saved = some s.ctx ∧
      c.state (.actor self) = .running ∧ t.cpu.owner = some .scheduler ∧
      ∀ a, t.executing ≠ some a := by
  have current : c.current = .actor self := agree.executing.mp exec
  have scheduler : (c.state .scheduler).saved = some s.ctx := by
    simpa [current] using agree.scheduler
  have runs : c.state (.actor self) = .running := by
    rw [agree.actors, coroutineOf_executing inv exec]
  have owner : t.cpu.owner = some .scheduler := cpu ▸ (inv.placed.current self exec).2
  exact ⟨current, scheduler, runs, owner, by simp [executing_none owner]⟩

/-- The executing actor suspends itself, and the scheduler goes on. -/
theorem suspended {self : ActorRef} (inv : Inv s) (agree : Agree s c)
    (change : ∀ a, ActorChange s t e a) (exec : s.executing = some self) (cpu : t.cpu = s.ctx)
    (own : (t.actor self).ctx = s.cpu) (inside : (t.actor self).frame ≠ .entry)
    (actors : t.actors = s.actors) (nactors : t.nactors = s.nactors) :
    ∃ d, Coroutines.step c (.switch (.actor self) .scheduler s.cpu s.ctx) = .ok d ∧
      Agree t d := by
  obtain ⟨current, scheduler, runs, owner, idle⟩ := agree.leaving inv exec cpu
  have registered : ∀ a, Registered t a ↔ Registered s a := by simp [Registered, actors]
  refine ⟨_, Coroutines.step_ok.mpr ⟨⟨current, scheduler⟩, rfl⟩, owner, fun a => ?_, by simp⟩
  by_cases here : a = self
  · subst here
    have held := (inv.placed.executing exec).1
    have old := inv.registry.allocated held
    simp [runs, Coroutine.save, coroutineOf, nactors, old, registered, held, idle, inside, own]
  · have apart : Owner.actor a ≠ .actor self := fun same => here (Owner.actor.inj same)
    have paused : s.executing ≠ some a := by
      rw [exec]
      exact fun same => here (Option.some.inj same).symm
    simp only [ne_eq, reduceCtorEq, not_false_eq_true, Function.update_of_ne, apart,
      agree.actors a]
    exact (coroutineOf_same (change a) paused (idle a) nactors (registered a)).symm

/-- An actor whose function has returned finishes and leaves the processor for good. -/
theorem returned {self : ActorRef} (inv : Inv s) (agree : Agree s c)
    (change : ∀ a, ActorChange s t e a) (exec : s.executing = some self) (cpu : t.cpu = s.ctx)
    (registered : ∀ b, Registered t b ↔ Registered s b ∧ b ≠ self)
    (nactors : t.nactors = s.nactors) :
    ∃ d, Machine.run Coroutines.step c
        [.finish (.actor self), .switch (.actor self) .scheduler s.cpu s.ctx] = .ok d ∧
      Agree t d := by
  obtain ⟨current, scheduler, runs, owner, idle⟩ := agree.leaving inv exec cpu
  have finishes := Coroutines.step_ok (c := c) (e := .finish (.actor self)) |>.mpr
    ⟨⟨current, runs⟩, rfl⟩
  refine ⟨_, Machine.run_cons.mpr ⟨_, finishes, Machine.run_cons.mpr ⟨_,
    Coroutines.step_ok.mpr ⟨⟨current, by simpa using scheduler⟩, rfl⟩, rfl⟩⟩, owner,
    fun a => ?_, by simp⟩
  by_cases here : a = self
  · subst here
    have old := inv.registry.allocated (inv.placed.executing exec).1
    simp [Coroutine.save, coroutineOf, nactors, old, registered]
  · have apart : Owner.actor a ≠ .actor self := fun same => here (Owner.actor.inj same)
    have paused : s.executing ≠ some a := by
      rw [exec]
      exact fun same => here (Option.some.inj same).symm
    simp only [ne_eq, reduceCtorEq, not_false_eq_true, Function.update_of_ne, apart,
      agree.actors a]
    refine (coroutineOf_same (change a) paused (idle a) nactors ?_).symm
    rw [registered]
    exact and_iff_left here

/-- `schdule` suspends the scheduler and resumes the first ready actor. -/
theorem dispatched (inv : Inv s) (agree : Agree s c) (change : ∀ a, ActorChange s t e a)
    (owner : s.cpu.owner = some .scheduler) (member : next ∈ s.waits.seq .readyq)
    (cpu : t.cpu = (s.actor next).ctx) (ctx : t.ctx = s.cpu) (actors : t.actors = s.actors)
    (nactors : t.nactors = s.nactors) :
    ∃ d, Coroutines.step c (.switch .scheduler (.actor next) s.cpu (s.actor next).ctx) = .ok d ∧
      Agree t d := by
  obtain ⟨_, held, paused, own⟩ := inv.placed.member member
  have current : c.current = .scheduler := Option.some.inj (agree.current.symm.trans owner)
  have runs : c.state .scheduler = .running := by simpa [current] using agree.scheduler
  have registered : ∀ a, Registered t a ↔ Registered s a := by simp [Registered, actors]
  have exec : t.executing = some next := executing_iff.mpr (cpu ▸ own)
  have saved : (c.state (.actor next)).saved = some (s.actor next).ctx := by
    rw [agree.actors, coroutineOf_saved inv held paused]
  refine ⟨_, Coroutines.step_ok.mpr ⟨⟨current, saved⟩, rfl⟩, executing_iff.mp exec,
    fun a => ?_, ?_⟩
  · by_cases here : a = next
    · subst here
      have old := inv.registry.allocated held
      simp [coroutineOf, nactors, old, registered, held, exec]
    · have apart : Owner.actor a ≠ .actor next := fun same => here (Owner.actor.inj same)
      simp only [ne_eq, reduceCtorEq, not_false_eq_true, Function.update_of_ne, apart,
        agree.actors a]
      refine (coroutineOf_same (change a) ?_ ?_ nactors (registered a)).symm
      · simp [executing_none owner]
      · rw [exec]
        exact fun same => here (Option.some.inj same).symm
  · simp [runs, Coroutine.save, Coroutine.saved, ctx]

end Agree

/-- The coroutines allow the transfers in the history, and end as the state has them. -/
def Replays (s : State Seqs φ) : Prop :=
  ∃ c, Machine.run Coroutines.step mainOnly (switches s.trace) = .ok c ∧
    (s.exited = false → Agree s c)

/-- `sherry_init` creates the scheduler's coroutine while main runs. -/
theorem replays_sherryInit : Replays (sherryInit : State Seqs φ) := by
  have inv : Inv (sherryInit : State Seqs φ) := inv_sherryInit
  have exec : (sherryInit : State Seqs φ).executing = some 0 := by
    rw [sherryInit_eq]
    rfl
  have others : ∀ a, a ≠ 0 → (sherryInit : State Seqs φ).nactors ≤ a := by
    intro a other
    rw [sherryInit_eq]
    exact Nat.pos_of_ne_zero other
  have trace : switches (sherryInit : State Seqs φ).trace =
      [.create .scheduler (sherryInit : State Seqs φ).ctx] := by
    rw [sherryInit_eq]
    rfl
  have created := Coroutines.step_ok (c := mainOnly)
    (e := .create .scheduler (sherryInit : State Seqs φ).ctx) |>.mpr ⟨rfl, rfl⟩
  refine ⟨_, trace ▸ Machine.run_cons.mpr ⟨_, created, rfl⟩, fun _ => ⟨?_, fun a => ?_, ?_⟩⟩
  · exact executing_iff.mp exec
  · by_cases main : a = 0
    · subst main
      rw [coroutineOf_executing inv exec]
      simp [mainOnly]
    · rw [coroutineOf_unborn (others a main)]
      simp [mainOnly, main]
  · simp [mainOnly, Coroutine.saved]

/-- Every step transfers control only as the coroutines allow. -/
theorem replays_step (inv : Inv s) (replays : Replays s) (happened : step s e = .ok t) :
    Replays t := by
  obtain ⟨c, ran, agrees⟩ := replays
  have agree := agrees (step_live happened)
  have outcome := step_outcome inv happened
  have change := outcome.actor_change
  cases outcome.control_change inv with
  | kept owner ctx actors nactors _ same =>
    refine ⟨c, ?_, fun _ => agree.kept inv change owner ctx actors nactors⟩
    have nothing : controls t.trace = controls s.trace ++ [] := by rw [same, List.append_nil]
    have still : switches t.trace = switches s.trace ++ [] := switches_append nothing
    rw [still, List.append_nil]
    exact ran
  | polled _ _ owner ctx actors nactors more =>
    refine ⟨c, ?_, fun _ => agree.kept inv change owner ctx actors nactors⟩
    rw [switches_append more]
    rw [show switches [.polled] = [] from rfl, List.append_nil]
    exact ran
  | spawned _ owner ctx registered nactors entry more =>
    obtain ⟨d, taken, after⟩ := agree.spawned inv change owner ctx registered nactors entry
    refine ⟨d, ?_, fun _ => after⟩
    rw [switches_append more]
    exact Machine.run_snoc ran taken
  | suspended exec cpu ctx own inside actors nactors _ more =>
    obtain ⟨d, taken, after⟩ :=
      agree.suspended inv change exec cpu own inside actors nactors
    refine ⟨d, ?_, fun _ => after⟩
    rw [switches_append more]
    exact Machine.run_snoc ran taken
  | returned exec cpu ctx _ registered nactors _ more =>
    obtain ⟨d, taken, after⟩ := agree.returned inv change exec cpu registered nactors
    refine ⟨d, ?_, fun _ => after⟩
    rw [switches_append more]
    exact Machine.run_append.mpr ⟨c, ran, taken⟩
  | dispatched _ owner first cpu ctx actors nactors more =>
    obtain ⟨d, taken, after⟩ :=
      agree.dispatched inv change owner (by simp [first]) cpu ctx actors nactors
    refine ⟨d, ?_, fun _ => after⟩
    rw [switches_append more]
    exact Machine.run_snoc ran taken
  | ended exited _ same =>
    refine ⟨c, by rw [same]; exact ran, fun live => ?_⟩
    rw [exited] at live
    cases live

/-- What an event does to the processor and the two records when it switches. -/
theorem ControlChange.swapped (change : ControlChange s t e) (inv : Inv s) :
    ∃ more, controls t.trace = controls s.trace ++ more ∧
      ∀ octx ctx stored loaded, .swapped octx ctx stored loaded ∈ more →
        s.cpu.owner = some octx ∧ stored = s.cpu ∧ loaded = context s ctx ∧
          loaded.owner = some ctx ∧ context t octx = stored ∧ t.cpu = loaded := by
  cases change with
  | kept _ _ _ _ _ same => exact ⟨[], by simpa using same, by simp⟩
  | polled _ _ _ _ _ _ more => exact ⟨_, more, by simp⟩
  | spawned _ _ _ _ _ _ more => exact ⟨_, more, by simp⟩
  | @suspended self exec cpu ctx own _ _ _ _ more =>
    refine ⟨_, more, ?_⟩
    rintro _ _ _ _ member
    obtain ⟨rfl, rfl, rfl, rfl⟩ := Obs.swapped.inj (List.mem_singleton.mp member)
    exact ⟨executing_iff.mp exec, rfl, rfl, (inv.placed.current self exec).2, own, cpu⟩
  | @returned self exec cpu ctx own _ _ _ more =>
    refine ⟨_, more, ?_⟩
    rintro _ _ _ _ member
    have last := (List.mem_cons.mp member).resolve_left nofun
    obtain ⟨rfl, rfl, rfl, rfl⟩ := Obs.swapped.inj (List.mem_singleton.mp last)
    exact ⟨executing_iff.mp exec, rfl, rfl, (inv.placed.current self exec).2, own, cpu⟩
  | @dispatched next _ owner first cpu ctx _ _ more =>
    refine ⟨_, more, ?_⟩
    rintro _ _ _ _ member
    obtain ⟨rfl, rfl, rfl, rfl⟩ := Obs.swapped.inj (List.mem_singleton.mp member)
    have queued : next ∈ s.waits.seq .readyq := by simp [first]
    exact ⟨owner, rfl, rfl, (inv.placed.member queued).2.2.2, ctx, cpu⟩
  | ended _ _ same => exact ⟨[], by rw [same, List.append_nil], by simp⟩

/-- The history of every run is one that the coroutines allow. So every `_swapcontext` stores
the registers of the context that executes into its own record, and loads what the other context
last stored and nobody has resumed since; no actor is entered twice, and none is resumed after
its function has returned. -/
theorem run_switches {es : List (Event φ)}
    (ran : Machine.run step (sherryInit : State Seqs φ) es = .ok s) :
    (∃ c, Machine.run Coroutines.step mainOnly (switches s.trace) = .ok c ∧
        (s.exited = false → Agree s c)) ∧
      (∀ before after octx ctx stored loaded,
        s.trace = before ++ .swapped octx ctx stored loaded :: after →
          ∃ c, Machine.run Coroutines.step mainOnly (switches before) = .ok c ∧
            c.current = octx ∧ (c.state ctx).saved = some loaded) ∧
      (∀ e t, step s e = .ok t →
        ∃ more, controls t.trace = controls s.trace ++ more ∧
          ∀ octx ctx stored loaded, .swapped octx ctx stored loaded ∈ more →
            s.cpu.owner = some octx ∧ stored = s.cpu ∧ loaded = context s ctx ∧
              loaded.owner = some ctx ∧ context t octx = stored ∧ t.cpu = loaded) ∧
      (∀ a, (Machine.collect Coroutines.step Coroutines.entered mainOnly
        (switches s.trace)).count (.actor a) ≤ 1) ∧
      ∀ before after a, s.trace = before ++ .returned a :: after →
        .actor a ∉ (switches after).filterMap Coroutines.resumed := by
  have replays : Replays s := run_all replays_sherryInit replays_step ran
  obtain ⟨c, replayed, agrees⟩ := replays
  -- The replay of a history passes through the replay of each part before an entry.
  have split : ∀ {before after : List Obs} {o : Obs} {sw : Switch Owner Context},
      switchOf o = some sw → s.trace = before ++ o :: after →
        ∃ m n, Machine.run Coroutines.step mainOnly (switches before) = .ok m ∧
          Coroutines.step m sw = .ok n ∧
          Machine.run Coroutines.step n (switches after) = .ok c := by
    intro before after o sw transfer trace
    have parts : switches s.trace = switches before ++ sw :: switches after := by
      simp [trace, switches, transfer]
    rw [parts] at replayed
    obtain ⟨m, first, rest⟩ := Machine.run_append.mp replayed
    obtain ⟨n, taken, last⟩ := Machine.run_cons.mp rest
    exact ⟨m, n, first, taken, last⟩
  refine ⟨⟨c, replayed, agrees⟩, ?_, ?_, fun a => Coroutines.entered_run replayed, ?_⟩
  · intro before after octx ctx stored loaded trace
    obtain ⟨m, n, first, taken, _⟩ := split rfl trace
    exact ⟨m, first, (Coroutines.step_ok.mp taken).1⟩
  · intro e t happened
    have inv := inv_run ran (step_live happened)
    exact ((step_outcome inv happened).control_change inv).swapped inv
  · intro before after a trace
    obtain ⟨m, n, _, taken, last⟩ := split rfl trace
    obtain ⟨_, rfl⟩ := Coroutines.step_ok.mp taken
    exact Coroutines.over_run last (by simp [Coroutine.isOver])

/-- Main spawns an actor and yields to it; it returns, and main is resumed. -/
def returnRun : List (Event Unit) :=
  [.spawn (), .yield, .schdule, .resume 0, .ret, .schdule]

/-- Nothing switches back to the actor that returned. -/
theorem run_switches_returned :
    ∃ s, Machine.run step (sherryInit : State Seqs Unit) returnRun = .ok s ∧
      .returned 1 ∈ s.trace ∧
        ∀ before after, s.trace = before ++ .returned 1 :: after →
          .actor 1 ∉ (switches after).filterMap Coroutines.resumed := by
  obtain ⟨s, ran, member⟩ : ∃ s, Machine.run step (sherryInit : State Seqs Unit) returnRun =
      .ok s ∧ .returned 1 ∈ s.trace := by
    decide +kernel
  exact ⟨s, ran, member, fun before after => (run_switches ran).2.2.2.2 before after 1⟩

end Sherry
