import Sherry.Verif.Stuck
import Sherry.Verif.Work

/-!
# When the loop of `sherry_exit` ends

While main waits in `sherry_exit` the other actors take turns in the order of `readyq`, and
nothing is received or completed, because `uv_run` is never called. So the descriptors offer
what they offered when main entered, and every actor either makes all of its calls from that or
blocks for good. The loop ends exactly if the calls of all actors, in round-robin order, can be
paid.
-/

namespace Sherry

open RoundRobin

variable {φ : Type} {s t : State Seqs φ} {self a : ActorRef} {e : Event φ} {r : List (Event φ)}
  {c d : Config Seqs φ} {libuv : State Seqs φ → List (Event φ)}

/-- Work is quiet. -/
theorem Work.quiet (work : Work s e) : Quiet e := by
  cases e <;> trivial

/-- Main waits in `sherry_exit`, every other registered actor is ready, and all it still does
is work. -/
structure Leaving (c : Config Seqs φ) : Prop where
  /-- The invariant holds. -/
  inv : Inv c.state
  /-- `sherry_exit` has not returned. -/
  live : c.state.exited = false
  /-- Main is in the loop of `sherry_exit`. -/
  frame : (c.state.actor c.state.main).frame = .exit
  /-- The scheduler executes. -/
  owner : c.state.cpu.owner = some .scheduler
  /-- It is not in `uv_run`. -/
  outside : c.state.polling = false
  /-- Every registered actor is ready. -/
  ready : ∀ a, Registered c.state a → (c.state.actor a).status = .ready
  /-- The others are suspended in calls of such programs. -/
  works : ∀ a, Registered c.state a → a ≠ c.state.main → (c.state.actor a).frame.works
  /-- The others have only work left. -/
  work : ∀ a, Registered c.state a → a ≠ c.state.main → ∀ e ∈ remaining c a, Work c.state e

/-- `schdule` resumes the head of `readyq`. -/
theorem leaving_schdule (leaving : Leaving c) {next : ActorRef} {tail : List ActorRef}
    (first : c.state.waits.seq .readyq = next :: tail) :
    step c.state .schdule = .ok (dispatch c.state next tail) ∧
      (dispatch c.state next tail).executing = some next ∧ Inv (dispatch c.state next tail) := by
  have member : next ∈ c.state.waits.seq .readyq := by
    rw [first]
    exact List.mem_cons_self
  have happened : step c.state .schdule = .ok (dispatch c.state next tail) := by
    refine onLoop_ok.mpr ⟨onScheduler_iff.mpr ⟨leaving.live, leaving.owner, leaving.outside⟩,
      trivial, ?_⟩
    rw [schdule_cons first]
  exact ⟨happened, executing_iff.mpr (leaving.inv.placed.member member).2.2.2,
    leaving.inv.step happened leaving.live⟩

/-- An actor that did not have the turn has the same program left. -/
theorem remaining_apart {s : State Seqs φ} {b : ActorRef} (apart : Apart c.state s self)
    (other : b ≠ self) :
    remaining { state := s, rest := Function.update c.rest self r } b = remaining c b := by
  simp [remaining, apart.actor b other, other]

/-- The programs after a turn, when every actor of the rest of `readyq` is another. -/
theorem programs_apart {s : State Seqs φ} {tail items : List ActorRef}
    (apart : Apart c.state s self) (fresh : self ∉ tail)
    (readyq : s.waits.seq .readyq = tail ++ items) :
    programs { state := s, rest := Function.update c.rest self r } =
      (tail.filter (· ≠ c.state.main)).map (remaining c) ++
        (items.filter (· ≠ c.state.main)).map
          (remaining { state := s, rest := Function.update c.rest self r }) := by
  have same : ∀ b ∈ tail.filter (· ≠ c.state.main),
      remaining { state := s, rest := Function.update c.rest self r } b = remaining c b := by
    intro b member
    apply remaining_apart apart
    rintro rfl
    exact fresh (List.mem_filter.mp member).1
  simp only [programs, readyq, apart.main, List.filter_append, List.map_append]
  rw [List.map_congr_left same]

/-- The phase goes on after a turn that left its actor ready or returned. -/
theorem Leaving.after {s : State Seqs φ} (leaving : Leaving c) (suspends : Suspends c.state s self)
    (main : (s.actor s.main).frame = .exit)
    (own : Registered s self → (s.actor self).status = .ready ∧
      (self ≠ s.main → (s.actor self).frame.works ∧
        ∀ e ∈ remaining { state := s, rest := Function.update c.rest self r } self, Work s e)) :
    Leaving { state := s, rest := Function.update c.rest self r } where
  inv := suspends.inv
  live := suspends.live
  frame := main
  owner := suspends.owner
  outside := (congrArg Setting.polling suspends.apart.setting).trans leaving.outside
  ready a registered := by
    by_cases turn_of : a = self
    · subst turn_of
      exact (own registered).1
    · simp only [suspends.apart.actor a turn_of]
      exact leaving.ready a ((suspends.apart.registered a turn_of).mp registered)
  works a registered other := by
    by_cases turn_of : a = self
    · subst turn_of
      exact ((own registered).2 other).1
    · simp only [suspends.apart.actor a turn_of]
      exact leaving.works a ((suspends.apart.registered a turn_of).mp registered)
        (suspends.apart.main ▸ other)
  work a registered other e member := by
    by_cases turn_of : a = self
    · subst turn_of
      exact ((own registered).2 other).2 e member
    · rw [remaining_apart suspends.apart turn_of] at member
      have before := leaving.work a ((suspends.apart.registered a turn_of).mp registered)
        (suspends.apart.main ▸ other) e member
      exact suspends.apart.work before

/-- A dispatched actor and then a turn that suspended it. -/
theorem Suspends.dispatched {next : ActorRef} {tail : List ActorRef}
    (suspends : Suspends (dispatch s next tail) t next) : Suspends s t next where
  inv := suspends.inv
  live := suspends.live
  owner := suspends.owner
  apart :=
    { setting := suspends.apart.setting
      actor := fun b other => (suspends.apart.actor b other).trans (by simp [dispatch, other])
      registered := suspends.apart.registered }

variable (libuv) in
/-- What an iteration with a turn of another actor does. -/
theorem leaving_other (leaving : Leaving c) {tail : List ActorRef}
    (first : c.state.waits.seq .readyq = self :: tail) (other : self ≠ c.state.main) :
    ∃ d, iteration libuv c = .ok d ∧
      ((firstTurn isYield (remaining c self)).1.foldlM spend (budget c.state) = none ∧
          Stuck d self ∨
        (firstTurn isYield (remaining c self)).1.foldlM spend (budget c.state) =
            some (budget d.state) ∧
          Leaving d ∧ programs d = ((tail.filter (· ≠ c.state.main)).map (remaining c)) ++
            (firstTurn isYield (remaining c self)).2.toList) := by
  obtain ⟨happened, exec, inv⟩ := leaving_schdule leaving first
  have member : self ∈ c.state.waits.seq .readyq := by
    rw [first]
    exact List.mem_cons_self
  have registered := (leaving.inv.placed.member member).2.1
  have fresh : self ∉ tail := by
    have once := leaving.inv.placed.homed.nodup .readyq
    rw [first] at once
    exact (List.nodup_cons.mp once).1
  have frame : ((dispatch c.state self tail).actor self).frame = (c.state.actor self).frame := by
    simp [dispatch]
  have works := leaving.works self registered other
  have work := leaving.work self registered other
  obtain ⟨t, r, turned, ended⟩ := turn_turned (p := c.rest self) inv leaving.live exec other
    (by rw [frame]; exact works) (by rw [frame]; exact work)
  rw [frame] at ended
  have ended : Turned (dispatch c.state self tail) t self (remaining c self) r := ended
  obtain ⟨suspends, suffix, ending⟩ := ended
  have suspends := suspends.dispatched
  have main : (t.actor t.main).frame = .exit := by
    rw [suspends.apart.main, suspends.apart.actor _ (Ne.symm other)]
    exact leaving.frame
  have own : ∀ e ∈ r, Work t e := fun e inside =>
    suspends.apart.work (work e (suffix.subset inside))
  have offered : budget (dispatch c.state self tail) = budget c.state := budget_congr rfl
  refine ⟨_, iteration_turn happened exec turned, ?_⟩
  cases ending with
  | yields paid rest at_user status readyq =>
    have left : remaining { state := t, rest := Function.update c.rest self r } self = r := by
      simp [remaining, at_user, pendingCall]
    refine .inr ⟨by rw [← offered]; exact paid, leaving.after suspends main fun _ => ⟨status,
      fun _ => ⟨by rw [at_user]; trivial, by rw [left]; exact own⟩⟩, ?_⟩
    have queue : t.waits.seq .readyq = tail ++ [self] := by
      rw [readyq]
      simp [dispatch]
    rw [programs_apart suspends.apart fresh queue, rest]
    simp [other, left]
  | returns paid rest gone readyq =>
    refine .inr ⟨by rw [← offered]; exact paid, leaving.after suspends main fun still =>
      absurd still gone, ?_⟩
    have queue : t.waits.seq .readyq = tail ++ [] := by
      rw [readyq]
      simp [dispatch]
    rw [programs_apart suspends.apart fresh queue, rest]
    simp
  | blocks unpaid still status =>
    refine .inl ⟨by rw [← offered]; exact unpaid, ⟨suspends.inv, suspends.live, main, still,
      by rw [suspends.apart.main]; exact other, status⟩, fun b held apart e inside => ?_⟩
    by_cases turn_of : b = self
    · subst turn_of
      simp only [Function.update_self] at inside
      exact (own e inside).quiet
    · simp only [Function.update_of_ne turn_of] at inside
      have before := leaving.work b ((suspends.apart.registered b turn_of).mp held)
        (suspends.apart.main ▸ apart) e (List.mem_append_right _ inside)
      exact before.quiet

/-- Another actor has a program left exactly while another actor is registered. -/
theorem programs_nil_iff (leaving : Leaving c) :
    programs c = [] ↔ ¬c.state.curractors > 1 := by
  rw [leaving.inv.registry.shared_iff]
  simp only [programs, List.map_eq_nil_iff, List.filter_eq_nil_iff, decide_eq_true_eq, not_not,
    not_exists, not_and]
  constructor
  · intro alone a registered
    exact alone a (leaving.inv.placed.mem_readyq.mpr (leaving.ready a registered))
  · intro alone a member
    exact alone a (leaving.inv.placed.member member).2.1

variable (libuv) in
/-- What an iteration with a turn of main does. -/
theorem leaving_main (leaving : Leaving c) {tail : List ActorRef}
    (first : c.state.waits.seq .readyq = c.state.main :: tail) :
    ∃ d, iteration libuv c = .ok d ∧
      (programs c = [] ∧ d.state.exited = true ∨
        programs c ≠ [] ∧ Leaving d ∧ budget d.state = budget c.state ∧
          programs d = programs c ∧ d.state.main = c.state.main ∧
          d.state.waits.seq .readyq = tail ++ [c.state.main]) := by
  obtain ⟨happened, exec, inv⟩ := leaving_schdule leaving first
  have frame : ((dispatch c.state c.state.main tail).actor c.state.main).frame = .exit := by
    simp [dispatch, leaving.frame]
  by_cases shared : c.state.curractors > 1
  · have round := exit_turn (p := c.rest c.state.main) inv leaving.live exec frame shared
    generalize after : park (dispatch c.state c.state.main tail) c.state.main .ready
      (some .readyq) .exit = t at round
    obtain ⟨turned, resumed⟩ := round
    have suspends : Suspends c.state t c.state.main := by
      subst after
      exact (suspends_of inv leaving.live exec resumed (fun _ _ => Iff.rfl) rfl rfl rfl).dispatched
    have queue : t.waits.seq .readyq = tail ++ [c.state.main] := by
      simp [← after, park, dispatch, enlist]
    have fresh : c.state.main ∉ tail := by
      have once := leaving.inv.placed.homed.nodup .readyq
      rw [first] at once
      exact (List.nodup_cons.mp once).1
    refine ⟨_, iteration_turn happened exec turned, .inr
      ⟨fun none => (programs_nil_iff leaving).mp none shared, ?_, ?_, ?_, suspends.apart.main,
        queue⟩⟩
    · refine leaving.after suspends ?_ fun _ => ⟨?_, fun other => ?_⟩
      · rw [suspends.apart.main]
        simp [← after, park]
      · simp [← after, park]
      · exact absurd suspends.apart.main.symm other
    · exact budget_congr (by rw [← after]; rfl)
    · rw [programs_apart suspends.apart fresh queue]
      simp [programs, first]
  · generalize atMain : dispatch c.state c.state.main tail = s at *
    have alone : ¬s.curractors > 1 := by
      rw [← atMain]
      exact shared
    have leaves : step s (.resume 0) = .ok (sherryExit s c.state.main) :=
      resume_step.mpr ⟨by rw [← atMain]; exact leaving.live, c.state.main, exec,
        by rw [resume_ok, frame]⟩
    have done : (sherryExit s c.state.main).exited = true := by
      simp only [sherryExit, alone, ↓reduceIte]
    have turned : turn s c.state.main (c.rest c.state.main) =
        .ok (sherryExit s c.state.main, c.rest c.state.main) := by
      simp [turn, frame, leaves, State.inUser, done]
    exact ⟨_, iteration_turn happened exec turned,
      .inl ⟨(programs_nil_iff leaving).mpr shared, done⟩⟩

/-- Inside `uv_run` the scheduler executes, before and after every event. -/
theorem Outcome.polling_kept (outcome : Outcome s e t)
    (before : s.polling = true → s.cpu.owner = some .scheduler) :
    t.polling = true → t.cpu.owner = some .scheduler := by
  have outside : ∀ {a}, s.executing = some a → ∀ {result : Prop}, s.polling = true → result := by
    intro a exec _ inside
    cases (executing_iff.mp exec).symm.trans (before inside)
  cases outcome with
  | computes user | yields user | awaits user | frees user | opens user | opensNone user
  | listens user | listensNot user | refused user | submits user | closes user | returns user =>
    exact fun inside => outside (inUser_iff.mp user).2.1 inside
  | spawns user =>
    rw [sherrySpawn_eq]
    exact fun inside => outside (inUser_iff.mp user).2.1 inside
  | sends user =>
    unfold revoke
    split <;> exact fun inside => outside (inUser_iff.mp user).2.1 inside
  | receives exec | accepts exec | blocksAccept exec | lingers exec | ends exec | begins exec
  | wrote exec => exact fun inside => outside exec inside
  | readError exec enters | readBytes exec enters | blocksRead exec enters =>
    rcases enters with ⟨_, _, rfl⟩ | ⟨_, _, _, rfl⟩ <;> exact fun inside => outside exec inside
  | dispatches _ idle => exact fun inside => Bool.noConfusion (idle.symm.trans inside)
  | polled => nofun
  | polls owner | connects owner | fails owner | delivers owner | writes owner | closed owner =>
    exact fun _ => owner

/-- While an actor executes, `schdule` is not in `uv_run`. -/
theorem run_outside {es : List (Event φ)}
    (ran : Machine.run step (sherryInit : State Seqs φ) es = .ok s)
    (exec : s.executing = some self) : s.polling = false := by
  have inside : s.polling = true → s.cpu.owner = some .scheduler :=
    run_all (by rw [sherryInit_eq]; nofun)
      (fun inv before happened => (step_outcome inv happened).polling_kept before) ran
  cases polling : s.polling with
  | false => rfl
  | true => cases (executing_iff.mp exec).symm.trans (inside polling)

/-- Every turn of another actor is one less, and main has at most one turn in between. -/
def weight (c : Config Seqs φ) : Nat :=
  2 * turns isYield (programs c) +
    if (c.state.waits.seq .readyq).head? = some c.state.main then 1 else 0

/-- The loop ends exactly if the calls of the ready actors, in round-robin order, can be paid
from what the descriptors offer. -/
theorem leaving_ends (leaving : Leaving c) :
    Ends libuv c ↔
      ((roundRobin isYield (programs c)).foldlM spend (budget c.state)).isSome := by
  generalize measured : weight c = n
  induction n using Nat.strongRecOn generalizing c with
  | ind n ih =>
    have main_ready : c.state.main ∈ c.state.waits.seq .readyq :=
      leaving.inv.placed.mem_readyq.mpr
        (leaving.ready _ leaving.inv.registry.main_registered)
    cases first : c.state.waits.seq .readyq with
    | nil =>
      rw [first] at main_ready
      cases main_ready
    | cons next tail =>
      by_cases at_main : next = c.state.main
      · subst at_main
        obtain ⟨d, ran, ⟨alone, done⟩ | ⟨more, goes, same, queue, main, rotated⟩⟩ :=
          leaving_main libuv leaving first
        · rw [ends_iteration leaving.live ran, alone]
          exact iff_of_true ⟨0, d, rfl, done⟩ rfl
        · have fresh : (d.state.waits.seq .readyq).head? ≠ some d.state.main := by
            rw [rotated, main]
            have once := leaving.inv.placed.homed.nodup .readyq
            rw [first] at once
            cases tail with
            | nil => exact absurd (by simp [programs, first]) more
            | cons b tail =>
              intro same
              obtain rfl : b = c.state.main := by simpa using same
              exact (List.nodup_cons.mp once).1 List.mem_cons_self
          have less : weight d < n := by
            rw [← measured]
            simp [weight, queue, fresh, first]
          rw [ends_iteration leaving.live ran, ih _ less goes rfl, queue, same]
      · have split : programs c = remaining c next ::
            (tail.filter (· ≠ c.state.main)).map (remaining c) := by
          simp [programs, first, at_main]
        rw [split, roundRobin_cons, List.foldlM_append]
        obtain ⟨d, ran, ⟨unpaid, stuck⟩ | ⟨paid, goes, queue⟩⟩ :=
          leaving_other libuv leaving first at_main
        · rw [ends_iteration leaving.live ran, unpaid]
          exact iff_of_false (stuck_never_ends stuck) (by simp)
        · have less : weight d < n := by
            rw [← measured]
            simp only [weight, split, turns_cons, ← queue, first]
            split <;> split <;> omega
          rw [ends_iteration leaving.live ran, ih _ less goes rfl, paid, queue]
          rfl

/-- An actor with work left that neither executes nor waits for an event is ready. -/
theorem works_ready (inv : Inv s) (registered : Registered s a) (works : (s.actor a).frame.works)
    (idle : s.executing ≠ some a) (awake : (s.actor a).status ≠ .waitEv) :
    (s.actor a).status = .ready := by
  have fits := inv.placed.fits a
  unfold Fits at fits
  cases status : (s.actor a).status <;> simp_all [Frame.works]

/-- Main in the loop of `sherry_exit`. -/
def parkedInExit (s : State Seqs φ) : State Seqs φ :=
  park s s.main .ready (some .readyq) .exit

/-- Main enters the loop if other actors are registered, and otherwise ends the program. -/
theorem exit_enters (inv : Inv s) (enters : step s .exit = .ok t) :
    s.executing = some s.main ∧
      if s.curractors > 1 then t = parkedInExit s else t.exited = true := by
  obtain ⟨self, user, called⟩ := call_ok.mp enters
  obtain ⟨main, exits⟩ := Machine.ite_ok.mp called
  have exec := (inUser_iff.mp user).2.1
  subst main
  refine ⟨exec, ?_⟩
  have entered := Except.ok.inj exits
  by_cases shared : s.curractors > 1
  · rw [if_pos shared, ← entered, parkedInExit, ← sherryYield_eq
      (inv.placed.current _ exec).1 (inv.placed.executing exec).2.1]
    simp only [sherryExit, shared, ↓reduceIte]
  · rw [if_neg shared, ← entered]
    simp only [sherryExit, shared, ↓reduceIte]

/-- The other actors keep their programs when main enters the loop. -/
theorem remaining_parkedInExit {rest : ActorRef → List (Event φ)} {b : ActorRef}
    (other : b ≠ s.main) :
    remaining { state := parkedInExit s, rest } b = remaining { state := s, rest } b := by
  simp [remaining, parkedInExit, park, other]

/-- Main joins `readyq` and is not among the actors that make calls. -/
theorem programs_parkedInExit {rest : ActorRef → List (Event φ)}
    (outside : s.main ∉ s.waits.seq .readyq) :
    programs { state := parkedInExit s, rest } =
      (s.waits.seq .readyq).map (remaining { state := s, rest }) := by
  have queue : (parkedInExit s).waits.seq .readyq = s.waits.seq .readyq ++ [s.main] := by
    simp [parkedInExit, park, enlist]
  have main : (parkedInExit s).main = s.main := by rfl
  have others : (s.waits.seq .readyq).filter (· ≠ s.main) = s.waits.seq .readyq :=
    List.filter_eq_self.mpr fun b member => by
      simpa using fun at_main : b = s.main => outside (at_main ▸ member)
  have listed : ((parkedInExit s).waits.seq .readyq).filter (· ≠ s.main) =
      s.waits.seq .readyq := by
    rw [queue, List.filter_append, others]
    simp
  rw [programs, main, listed]
  apply List.map_congr_left
  intro b member
  apply remaining_parkedInExit
  rintro rfl
  exact outside member

/-- Main leaves once the others have made their calls, if none of them waits for an event. -/
theorem leaving_parkedInExit {rest : ActorRef → List (Event φ)}
    (suspends : Suspends s (parkedInExit s) s.main) (before : Inv s)
    (exec : s.executing = some s.main) (idle : s.polling = false)
    (works : ∀ a, Registered s a → a ≠ s.main → (s.actor a).frame.works)
    (work : ∀ a, Registered s a → a ≠ s.main → ∀ e ∈ remaining { state := s, rest } a, Work s e)
    (awake : ∀ a, Registered s a → a ≠ s.main → (s.actor a).status ≠ .waitEv) :
    Leaving { state := parkedInExit s, rest } where
  inv := suspends.inv
  live := suspends.live
  frame := by simp [parkedInExit, park]
  owner := suspends.owner
  outside := idle
  ready := by
    intro b held
    by_cases at_main : b = s.main
    · simp [parkedInExit, park, at_main]
    · simp only [suspends.apart.actor b at_main]
      have absent : s.executing ≠ some b := by
        rw [exec]
        exact fun same => at_main (Option.some.inj same).symm
      exact works_ready before held (works b held at_main) absent (awake b held at_main)
  works := by
    intro b held other
    simp only [suspends.apart.actor b other]
    exact works b held other
  work := by
    intro b held other e member
    have kept : remaining { state := parkedInExit s, rest } b = remaining { state := s, rest } b :=
      remaining_parkedInExit other
    exact suspends.apart.work (work b held other e (kept ▸ member))

/-- The loop of `sherry_exit`, entered by main in any state of a run while all others have only
yields, reads and writes left, ends exactly if no other actor waits for an event and the calls
of the ready ones, in round-robin order, can be paid from what the descriptors offer, whatever
libuv would do in `uv_run`. -/
theorem exit_ends_iff {es : List (Event φ)} {rest : ActorRef → List (Event φ)}
    (ran : Machine.run step (sherryInit : State Seqs φ) es = .ok s)
    (enters : step s .exit = .ok t)
    (works : ∀ a, Registered s a → a ≠ s.main → (s.actor a).frame.works)
    (work : ∀ a, Registered s a → a ≠ s.main → ∀ e ∈ remaining { state := s, rest } a, Work s e) :
    Ends libuv { state := t, rest } ↔
      (∀ a, Registered s a → a ≠ s.main → (s.actor a).status ≠ .waitEv) ∧
        ((roundRobin isYield ((s.waits.seq .readyq).map (remaining { state := s, rest }))).foldlM
          spend (budget s)).isSome := by
  have live := step_live enters
  have inv := inv_run ran live
  obtain ⟨exec, entered⟩ := exit_enters inv enters
  have outside := (inv.placed.executing exec).2.2 .readyq
  by_cases shared : s.curractors > 1
  · obtain rfl : t = parkedInExit s := by simpa only [shared, ↓reduceIte] using entered
    have suspends : Suspends s (parkedInExit s) s.main :=
      suspends_of inv live exec enters (fun _ _ => Iff.rfl) rfl rfl rfl
    by_cases awake : ∀ a, Registered s a → a ≠ s.main → (s.actor a).status ≠ .waitEv
    · have offered : budget (parkedInExit s) = budget s := budget_congr rfl
      rw [leaving_ends (leaving_parkedInExit suspends inv exec (run_outside ran exec) works work
        awake), programs_parkedInExit outside, offered]
      exact (and_iff_right awake).symm
    · refine iff_of_false ?_ fun both => awake both.1
      simp only [not_forall, not_not] at awake
      obtain ⟨a, held, other, waits⟩ := awake
      have frame : ((parkedInExit s).actor (parkedInExit s).main).frame = .exit := by
        simp [parkedInExit, park]
      have blocked : ((parkedInExit s).actor a).status = .waitEv :=
        (congrArg Actor.status (suspends.apart.actor a other)).trans waits
      refine stuck_never_ends (a := a)
        ⟨⟨suspends.inv, suspends.live, frame, held, other, blocked⟩, ?_⟩
      intro b held other e member
      exact (work b held other e (List.mem_append_right _ member)).quiet
  · have done : t.exited = true := by simpa only [shared, ↓reduceIte] using entered
    have alone : ∀ a, Registered s a → a = s.main := by
      intro a held
      by_contra other
      exact shared (inv.registry.shared_iff.mpr ⟨a, held, other⟩)
    have none : s.waits.seq .readyq = [] := by
      apply List.eq_nil_iff_forall_not_mem.mpr
      intro b member
      exact outside (alone b (inv.placed.member member).2.1 ▸ member)
    refine iff_of_true ⟨0, _, rfl, done⟩ ⟨fun a held other => absurd (alone a held) other, ?_⟩
    rw [none]
    rfl

/-- Main enters `sherry_exit` with an actor that yields twice and returns, and the loop ends. -/
theorem exit_ends_yielding :
    ∃ s, Machine.run step (sherryInit : State Seqs Unit) [.spawn ()] = .ok s ∧
      ∃ t, step s .exit = .ok t ∧
        Ends (fun _ => []) { state := t, rest := fun _ => [.yield, .yield] } := by
  obtain ⟨s, ran, ⟨live, main, allocated, frame, status, paid⟩, t, enters, _⟩ :
      ∃ s, Machine.run step (sherryInit : State Seqs Unit) [.spawn ()] = .ok s ∧
        (s.exited = false ∧ s.main = 0 ∧ s.nactors = 2 ∧ (s.actor 1).frame = .entry ∧
          (s.actor 1).status ≠ .waitEv ∧
          ((roundRobin isYield ((s.waits.seq .readyq).map
            (remaining { state := s, rest := fun _ => [.yield, .yield] }))).foldlM spend
              (budget s)).isSome = true) ∧
        ∃ t, step s .exit = .ok t ∧ True := by
    decide +kernel
  have only : ∀ a, Registered s a → a ≠ s.main → a = 1 := by
    intro a registered other
    have below : a < 2 := allocated ▸ (inv_run ran live).registry.allocated registered
    have above : a ≠ 0 := main ▸ other
    exact (Nat.le_antisymm (Nat.le_of_lt_succ below) (Nat.pos_of_ne_zero above))
  refine ⟨s, ran, t, enters, (exit_ends_iff ran enters ?_ ?_).mpr ⟨?_, paid⟩⟩
  · intro a registered other
    rw [only a registered other, frame]
    trivial
  · intro a registered other e member
    rw [only a registered other, remaining, frame] at member
    have yields : e = .yield := by simpa [pendingCall] using member
    rw [yields]
    trivial
  · intro a registered other
    rw [only a registered other]
    exact status

/-- Main accepts a connection and spawns actor 1, which writes to it. -/
def writingRun : List (Event Unit) :=
  connected ++ [.spawn (), .yield, .schdule, .resume 0, .write 1 5 0, .schdule]

/-- Main enters `sherry_exit` while actor 1 waits for the completion of its write, and the loop
never ends, whatever libuv would complete. -/
theorem exit_never_polls :
    ∃ s, Machine.run step (sherryInit : State Seqs Unit) writingRun = .ok s ∧
      ∃ t, step s .exit = .ok t ∧ t.writes = [⟨1, 1⟩] ∧
        ∀ libuv, ¬Ends libuv { state := t, rest := fun _ => [] } := by
  obtain ⟨s, ran, t, enters, pending, live, frame, registered, other, status⟩ :
      ∃ s, Machine.run step (sherryInit : State Seqs Unit) writingRun = .ok s ∧
        ∃ t, step s .exit = .ok t ∧ t.writes = [⟨1, 1⟩] ∧ t.exited = false ∧
          (t.actor t.main).frame = .exit ∧ some 1 ∈ t.actors ∧ 1 ≠ t.main ∧
            (t.actor 1).status = .waitEv := by
    decide +kernel
  have inv := inv_run (Machine.run_snoc ran enters) live
  refine ⟨s, ran, t, enters, pending, fun libuv => ?_⟩
  exact stuck_never_ends (a := 1)
    ⟨⟨inv, live, frame, registered, other, status⟩, fun _ _ _ _ none => absurd none nofun⟩

end Sherry
