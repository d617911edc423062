import Sherry.Verif.Identity
import Sherry.Verif.Programs

/-!
# A blocked actor keeps `sherry_exit` in its loop

Main puts itself into `readyq` before each of its yields in `sherry_exit`, so `readyq` is never
empty there and `uv_run` is never called. As long as nothing calls back from `uv_run`, an actor
that waits for an event stays where it is, registered, and main goes round again.
-/

namespace Sherry

variable {φ : Type} {s t : State Seqs φ} {self a : ActorRef} {e : Event φ}
  {p r : List (Event φ)} {c d : Config Seqs φ} {libuv : State Seqs φ → List (Event φ)}

/-- An event of an actor that yields, reads, writes, returns or is resumed, or of `schdule`. -/
def Quiet : Event φ → Prop
  | .yield | .read _ _ _ | .write _ _ _ | .ret | .resume _ | .schdule => True
  | _ => False

/-- Main waits in `sherry_exit` and another registered actor waits for an event. -/
structure Blocked (s : State Seqs φ) (a : ActorRef) : Prop where
  /-- The invariant holds. -/
  inv : Inv s
  /-- `sherry_exit` has not returned. -/
  live : s.exited = false
  /-- Main is in the loop of `sherry_exit`. -/
  frame : (s.actor s.main).frame = .exit
  /-- The actor is registered. -/
  registered : Registered s a
  /-- The actor is not main. -/
  other : a ≠ s.main
  /-- The actor waits for an event. -/
  status : (s.actor a).status = .waitEv

/-- Main stays in the loop of `sherry_exit` while another actor is registered. -/
theorem Outcome.main_stays (outcome : Outcome s e t) (inv : Inv s)
    (frame : (s.actor s.main).frame = .exit) (shared : s.curractors > 1)
    (happened : step s e = .ok t) : (t.actor s.main).frame = .exit := by
  cases outcome.actor_change s.main with
  | kept same => rw [same, frame]
  | proceeds exec _ | parked exec _ _ =>
    obtain ⟨err, _, resumed⟩ := step_resumed exec (by rw [frame]; nofun) happened
    rw [resume_ok, frame] at resumed
    have stays : t = park s s.main .ready (some .readyq) .exit := by
      rw [resumed, ← sherryYield_eq (inv.placed.current _ exec).1
        (inv.placed.executing exec).2.1 .exit]
      simp [sherryExit, shared]
    simp [stays, park]
  | woken _ same => rw [same, frame]
  | dispatched _ _ same => rw [same, frame]
  | made fresh =>
    exact absurd fresh (Nat.ne_of_lt (inv.registry.allocated inv.registry.main_registered))

/-- A blocked actor stays as it is in every quiet step. -/
theorem Outcome.blocked_kept (outcome : Outcome s e t) (inv : Inv s) (quiet : Quiet e)
    (status : (s.actor a).status = .waitEv) : t.actor a = s.actor a := by
  obtain ⟨registered, idle⟩ := inv.placed.waiting status
  rcases (outcome.actor_change a).passive inv registered idle with
    same | ⟨waking, _⟩ | ⟨_, first, _⟩
  · exact same
  · cases waking <;> exact quiet.elim
  · cases status.symm.trans (inv.placed.mem_readyq.mp (List.mem_of_mem_head? first))

/-- A quiet step registers nobody, and only the executing actor can leave the registry. -/
theorem Outcome.registered_kept (outcome : Outcome s e t) (inv : Inv s) (quiet : Quiet e)
    (shared : s.curractors > 1) :
    t.main = s.main ∧ (∀ b, Registered t b → Registered s b) ∧
      ∀ b, Registered s b → s.executing ≠ some b → Registered t b := by
  cases outcome.life_change with
  | kept actors main =>
    simp only [Registered, actors]
    exact ⟨main, fun _ registered => registered, fun _ registered _ => registered⟩
  | spawned event =>
    rw [event] at quiet
    exact quiet.elim
  | @returned self i exec _ found actors main =>
    refine ⟨main, ?_, ?_⟩
    · intro b registered
      unfold Registered at registered
      rw [actors] at registered
      exact (List.mem_or_eq_of_mem_set registered).resolve_right (by simp)
    · intro b registered other
      obtain ⟨j, at_j, _⟩ := inv.registry.at_id registered
      have apart : i ≠ j := by
        rintro rfl
        rw [found] at at_j
        cases at_j
        exact other exec
      refine List.mem_of_getElem? (i := j) ?_
      rw [actors, List.getElem?_set_ne apart]
      exact at_j
  | ended _ alone => exact absurd shared alone

/-- Without a callback a blocked actor stays blocked, and main stays in `sherry_exit`. -/
theorem blocked_step (blocked : Blocked s a) (quiet : Quiet e) (happened : step s e = .ok t) :
    Blocked t a ∧ t.main = s.main ∧ ∀ b, Registered t b → Registered s b := by
  obtain ⟨inv, live, frame, registered, other, status⟩ := blocked
  have outcome := step_outcome inv happened
  have shared : s.curractors > 1 := inv.registry.shared_iff.mpr ⟨a, registered, other⟩
  obtain ⟨main, fewer, stay⟩ := outcome.registered_kept inv quiet shared
  have same := outcome.blocked_kept inv quiet status
  have still := outcome.exited_kept shared live
  have idle : s.executing ≠ some a := by
    intro exec
    cases status.symm.trans (inv.placed.executing exec).2.1
  refine ⟨⟨inv.step happened still, still, ?_, stay a registered idle, ?_, ?_⟩, main, fewer⟩
  · rw [main]
    exact outcome.main_stays inv frame shared happened
  · rw [main]
    exact other
  · rw [same, status]

/-- Without a callback a blocked actor stays blocked over a whole run. -/
theorem blocked_run {es : List (Event φ)} (blocked : Blocked s a) (quiet : ∀ e ∈ es, Quiet e)
    (ran : Machine.run step s es = .ok t) :
    Blocked t a ∧ t.main = s.main ∧ ∀ b, Registered t b → Registered s b := by
  induction es generalizing s with
  | nil =>
    cases ran
    exact ⟨blocked, rfl, fun _ registered => registered⟩
  | cons e es ih =>
    obtain ⟨m, happened, later⟩ := Machine.run_cons.mp ran
    obtain ⟨between, main, fewer⟩ := blocked_step blocked (quiet e List.mem_cons_self) happened
    obtain ⟨last, same, least⟩ :=
      ih between (fun f member => quiet f (List.mem_cons_of_mem e member)) later
    exact ⟨last, same.trans main, fun b registered => fewer b (least b registered)⟩

/-- Main is ready whenever it waits in `sherry_exit` and does not execute. -/
theorem exit_ready (inv : Inv s) (frame : (s.actor s.main).frame = .exit)
    (idle : s.executing ≠ some s.main) : (s.actor s.main).status = .ready := by
  have fits := inv.placed.fits s.main
  have registered := inv.registry.main_registered
  unfold Fits at fits
  cases status : (s.actor s.main).status <;>
    simp_all [Frame.onFd]

/-- While main waits in `sherry_exit`, `schdule` resumes the first ready actor. -/
theorem exit_dispatches (inv : Inv s) (frame : (s.actor s.main).frame = .exit)
    (happened : step s .schdule = .ok t) :
    ∃ next rest, s.waits.seq .readyq = next :: rest ∧ t = dispatch s next rest ∧
      t.executing = some next := by
  obtain ⟨on, _, _⟩ := onLoop_ok.mp happened
  have idle : s.executing = none := executing_none (onScheduler_iff.mp on).2.1
  have ready := exit_ready inv frame (by rw [idle]; nofun)
  cases step_outcome inv happened with
  | @dispatches next rest _ _ first =>
    have own := (inv.placed.member (l := .readyq) (by rw [first]; exact List.mem_cons_self)).2.2.2
    exact ⟨next, rest, first, rfl, executing_iff.mpr own⟩
  | polls _ _ none =>
    have member := inv.placed.mem_readyq.mpr ready
    rw [none] at member
    cases member
  | receives exec | accepts exec | blocksAccept exec | readError exec | readBytes exec
  | blocksRead exec | lingers exec | ends exec => cases idle.symm.trans exec

/-- A turn in `sherry_exit` is one round of its loop. -/
theorem exit_turn (inv : Inv s) (live : s.exited = false) (exec : s.executing = some self)
    (frame : (s.actor self).frame = .exit) (shared : s.curractors > 1) :
    turn s self p = .ok (park s self .ready (some .readyq) .exit, p) ∧
      step s (.resume 0) = .ok (park s self .ready (some .readyq) .exit) := by
  have current := inv.placed.current _ exec
  have round : step s (.resume 0) = .ok (park s self .ready (some .readyq) .exit) := by
    refine resume_step.mpr ⟨live, self, exec, ?_⟩
    rw [resume_ok, frame, ← sherryYield_eq current.1 (inv.placed.executing exec).2.1 .exit]
    simp [sherryExit, shared]
  have off : (park s self .ready (some .readyq) .exit).inUser = none := by
    simp [State.inUser, State.executing, park, current.2]
  refine ⟨?_, round⟩
  unfold turn
  simp only [frame, reduceCtorEq, ↓reduceIte, round, off]

/-- Main waits in `sherry_exit`, another actor waits for an event, and no registered actor has
anything but quiet calls to make. -/
structure Stuck (c : Config Seqs φ) (a : ActorRef) : Prop where
  /-- The actor is blocked. -/
  blocked : Blocked c.state a
  /-- The programs are quiet. -/
  quiet : ∀ b, Registered c.state b → b ≠ c.state.main → ∀ e ∈ c.rest b, Quiet e

/-- An iteration of the loop of `schdule` keeps a blocked actor blocked. -/
theorem stuck_iteration (stuck : Stuck c a) (ran : iteration libuv c = .ok d) : Stuck d a := by
  obtain ⟨blocked, quiet⟩ := stuck
  obtain ⟨s, happened, turned⟩ := iteration_cases ran
  obtain ⟨first, main, fewer⟩ := blocked_step blocked (by trivial) happened
  obtain ⟨next, rest, ready, _, exec⟩ := exit_dispatches blocked.inv blocked.frame happened
  obtain ⟨self, r, exec', turned, rests⟩ | ⟨none, _⟩ := turned
  case inr => cases exec.symm.trans none
  obtain rfl : next = self := Option.some.inj (exec.symm.trans exec')
  by_cases at_main : next = s.main
  · subst at_main
    have shared := first.inv.registry.shared_iff.mpr ⟨a, first.registered, first.other⟩
    obtain ⟨round, resumed⟩ := exit_turn (p := c.rest s.main) first.inv first.live exec
      first.frame shared
    rw [turned] at round
    have after : d.state = park s s.main .ready (some .readyq) .exit ∧ r = c.rest s.main := by
      simpa using round
    rw [← after.1] at resumed
    obtain ⟨last, same, least⟩ := blocked_step first (by trivial) resumed
    refine ⟨last, ?_⟩
    rw [rests, after.2, Function.update_eq_self, same, main]
    exact fun b registered other => quiet b (fewer b (least b registered)) other
  · have member : next ∈ c.state.waits.seq .readyq := by
      rw [ready]
      exact List.mem_cons_self
    have own := quiet next (blocked.inv.placed.member member).2.1 (main ▸ at_main)
    obtain ⟨suffix, es, later, from_p⟩ := turn_run turned
    have all_quiet : ∀ e ∈ es, Quiet e := by
      intro e inside
      rcases from_p e inside with inside | rfl | rfl
      · exact own e inside
      · trivial
      · trivial
    obtain ⟨last, same, least⟩ := blocked_run first all_quiet later
    refine ⟨last, fun b registered other e inside => ?_⟩
    rw [rests] at inside
    by_cases turn_of : b = next
    · subst turn_of
      rw [Function.update_self] at inside
      exact own e (suffix.subset inside)
    · rw [Function.update_of_ne turn_of] at inside
      rw [same, main] at other
      exact quiet b (fewer b (least b registered)) other e inside

/-- Without a callback `sherry_exit` does not return before a blocked actor. -/
theorem stuck_never_ends (stuck : Stuck c a) : ¬Ends libuv c := by
  rintro ⟨n, d, ran, done⟩
  have still : Stuck d a := by
    clear done
    induction n generalizing c with
    | zero =>
      cases ran
      exact stuck
    | succ n ih =>
      cases first : iteration libuv c with
      | error fault => simp [iterate, first] at ran
      | ok m =>
        simp only [iterate, first] at ran
        exact ih (stuck_iteration stuck first) ran
  cases done.symm.trans still.blocked.live

end Sherry
