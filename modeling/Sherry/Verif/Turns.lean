import Sherry.Verif.Switches

/-!
# Turns

A ready actor keeps its place in the ready queue until `schdule` has resumed the actors ahead
of it. Whatever happens in between only adds actors behind it and does not touch the actor
itself.
-/

namespace Sherry

variable {φ : Type} {s t : State Seqs φ} {a : ActorRef} {e : Event φ} {p : Nat}

/-- An actor is in the ready queue with a number of actors ahead of it. -/
def Ahead (s : State Seqs φ) (a : ActorRef) (p : Nat) : Prop :=
  ∃ front back, s.waits.seq .readyq = front ++ a :: back ∧ front.length = p

/-- The event is an iteration of the loop of `schdule`. -/
def Event.isSchdule : Event φ → Bool
  | .schdule => true
  | _ => false

/-- How often the loop of `schdule` runs. -/
def iterations (es : List (Event φ)) : Nat := es.countP Event.isSchdule

theorem Event.isSchdule_iff : e.isSchdule = true ↔ e = .schdule := by
  cases e <;> simp [Event.isSchdule]

/-- A queued actor is ready. -/
theorem Ahead.ready (inv : Inv s) (ahead : Ahead s a p) : (s.actor a).status = .ready := by
  obtain ⟨front, back, queue, _⟩ := ahead
  exact inv.placed.mem_readyq.mp (by simp [queue])

/-- A ready actor changes only when it is resumed. -/
theorem ready_change (inv : Inv s) (ready : (s.actor a).status = .ready)
    (change : ActorChange s t e a) :
    t.actor a = s.actor a ∨ e = .schdule ∧ (s.waits.seq .readyq).head? = some a ∧
      t.actor a = { s.actor a with status := .running } := by
  obtain ⟨_, registered, idle, _⟩ := inv.placed.member (inv.placed.mem_readyq.mpr ready)
  rcases change.passive inv registered idle with same | ⟨waking, _⟩ | dispatched
  · exact .inl same
  · cases waking with
    | sent _ waiting => cases ready.symm.trans waiting
    | connected member => cases ready.symm.trans (inv.placed.mem_waitq.mp member).2.1
    | delivered _ member => cases ready.symm.trans (inv.placed.mem_waitq.mp member).2.1
    | written pending data =>
      subst data
      cases ready.symm.trans (inv.placed.writes _ pending).1
  · exact .inr dispatched

/-- Only `schdule` moves a queued actor, by one place and to the processor from the first. -/
theorem ahead_step (inv : Inv s) (ahead : Ahead s a p) (happened : step s e = .ok t) :
    (e ≠ .schdule → Ahead t a p ∧ t.actor a = s.actor a) ∧
      (e = .schdule → 0 < p → Ahead t a (p - 1) ∧ t.actor a = s.actor a) := by
  have outcome := step_outcome inv happened
  have change := ready_change inv (ahead.ready inv) (outcome.actor_change a)
  obtain ⟨front, back, queue, length⟩ := ahead
  constructor
  · intro other
    refine ⟨?_, change.resolve_right fun both => other both.1⟩
    cases outcome.ready_change with
    | grows items same => exact ⟨front, back ++ items, by simp [same, queue], length⟩
    | pops event => exact absurd event other
  · intro event positive
    obtain ⟨first, rest, rfl⟩ := List.exists_cons_of_length_pos (length ▸ positive)
    have apart : first ≠ a := by
      rintro rfl
      have nodup := inv.placed.homed.nodup .readyq
      rw [queue] at nodup
      simp at nodup
    constructor
    · cases outcome.ready_change with
      | grows _ _ idle =>
        rw [idle event] at queue
        cases queue
      | @pops next _ head =>
        rw [queue] at head
        obtain ⟨_, tail⟩ := List.cons.inj head
        exact ⟨rest, back, tail.symm, by simp [← length]⟩
    · refine change.resolve_right fun both => apart ?_
      have head := both.2.1
      rw [queue] at head
      exact Option.some.inj head

/-- The first actor of the ready queue gets the processor. -/
theorem ahead_zero (inv : Inv s) (ahead : Ahead s a 0) (happened : step s .schdule = .ok t) :
    t.executing = some a ∧ t.actor a = { s.actor a with status := .running } := by
  obtain ⟨front, back, queue, length⟩ := ahead
  rw [List.length_eq_zero_iff.mp length, List.nil_append] at queue
  obtain ⟨on, _, done⟩ := onLoop_ok.mp happened
  have same : schdule s = t := Except.ok.inj done
  have member : a ∈ s.waits.seq .readyq := by simp [queue]
  have saved := (inv.placed.member member).2.2.2
  rw [schdule_cons queue] at same
  subst same
  exact ⟨executing_iff.mpr saved, by simp [dispatch]⟩

/-- Through any run in which `schdule` resumes no more actors than are ahead of it, a queued
actor only moves forward. -/
theorem ahead_run {es : List (Event φ)} (sound : Sound s) (ahead : Ahead s a p)
    (enough : iterations es ≤ p) (ran : Machine.run step s es = .ok t) :
    Ahead t a (p - iterations es) ∧ t.actor a = s.actor a := by
  induction es generalizing s p with
  | nil =>
    cases ran
    exact ⟨ahead, rfl⟩
  | cons e es ih =>
    obtain ⟨m, happened, rest⟩ := Machine.run_cons.mp ran
    obtain ⟨inv, _, after⟩ := step_sound sound happened
    obtain ⟨stays, moves⟩ := ahead_step inv ahead happened
    by_cases event : e = .schdule
    · have one : iterations (e :: es) = iterations es + 1 := by
        simp [iterations, List.countP_cons, event, Event.isSchdule]
      rw [one] at enough ⊢
      obtain ⟨next, same⟩ := moves event (by omega)
      obtain ⟨last, still⟩ := ih after next (by omega) rest
      rw [show p - (iterations es + 1) = p - 1 - iterations es by omega]
      exact ⟨last, still.trans same⟩
    · have none : iterations (e :: es) = iterations es := by
        have quiet : e.isSchdule = false := by
          rw [Bool.eq_false_iff]
          exact fun yes => event (Event.isSchdule_iff.mp yes)
        simp [iterations, quiet]
      rw [none] at enough ⊢
      obtain ⟨next, same⟩ := stays event
      obtain ⟨last, still⟩ := ih after next enough rest
      exact ⟨last, still.trans same⟩

/-- What an iteration of the loop of `schdule` did: it resumed an actor, or called `uv_run`. -/
def resumption : Obs → Option (Option ActorRef)
  | .swapped .scheduler (.actor a) _ _ => some (some a)
  | .polled => some none
  | _ => none

/-- What the loop of `schdule` did in a history. -/
def resumptions (trace : List Obs) : List (Option ActorRef) := trace.filterMap resumption

/-- Iterations of the loop of `schdule` are seen in the transfers of control. -/
theorem resumption_control (o : Obs) (other : o.isControl = false) : resumption o = none := by
  cases o <;> first | rfl | cases other

/-- Only `schdule` adds to what its loop did: the resumption of the first ready actor, or a call
of `uv_run` when there is none. -/
theorem resumptions_step (inv : Inv s) (happened : step s e = .ok t) :
    resumptions t.trace = resumptions s.trace ++
      if e.isSchdule then [(s.waits.seq .readyq).head?] else [] := by
  have grows : ∀ {more : List Obs}, controls t.trace = controls s.trace ++ more →
      resumptions t.trace = resumptions s.trace ++ resumptions more := fun same =>
    filterMap_grows resumption_control same
  have quiet : e ≠ .schdule → e.isSchdule = false := fun other =>
    Bool.eq_false_iff.mpr fun yes => other (Event.isSchdule_iff.mp yes)
  cases (step_outcome inv happened).control_change inv with
  | kept _ _ _ _ other same =>
    rw [quiet other]
    exact grows (same.trans (List.append_nil _).symm)
  | polled event idle _ _ _ _ more =>
    rw [grows more, event, idle]
    rfl
  | spawned event _ _ _ _ _ more =>
    rw [grows more, event]
    rfl
  | suspended _ _ _ _ _ _ _ other more =>
    rw [grows more, quiet other]
    rfl
  | returned _ _ _ _ _ _ other more =>
    rw [grows more, quiet other]
    rfl
  | dispatched event _ first _ _ _ _ more =>
    rw [grows more, event, first]
    rfl
  | ended _ other same =>
    rw [quiet other, same]
    exact (List.append_nil _).symm

/-- `sherry_exit` does not return while an actor is queued. -/
theorem exited_queued (inv : Inv s) (member : a ∈ s.waits.seq .readyq)
    (happened : step s e = .ok t) : t.exited = false := by
  obtain ⟨_, registered, idle, _⟩ := inv.placed.member member
  rw [Bool.eq_false_iff]
  intro exited
  obtain ⟨self, exec, alone⟩ := (step_outcome inv happened).exits (step_live happened) exited
  have held := (inv.placed.executing exec).1
  have other : self ≠ a := fun same => idle (same ▸ exec)
  apply alone
  rw [inv.registry.shared_iff]
  by_cases main : a = s.main
  · exact ⟨self, held, main ▸ other⟩
  · exact ⟨a, registered, main⟩

/-- What one event does to a queued actor and to those before it. -/
theorem front_step (inv : Inv s) {front back : List ActorRef}
    (queue : s.waits.seq .readyq = front ++ a :: back) (happened : step s e = .ok t)
    (few : e.isSchdule → front ≠ []) :
    ∃ new, t.waits.seq .readyq =
        (if e.isSchdule then front.tail else front) ++ a :: (back ++ new) := by
  cases (step_outcome inv happened).ready_change with
  | grows new same idle =>
    have quiet : e.isSchdule = false := by
      rw [Bool.eq_false_iff]
      intro event
      rw [idle (Event.isSchdule_iff.mp event)] at queue
      simp at queue
    exact ⟨new, by simp [same, queue, quiet]⟩
  | @pops next event first =>
    obtain ⟨head, rest, rfl⟩ := List.exists_cons_of_ne_nil (few (event ▸ rfl))
    rw [queue] at first
    obtain ⟨_, tail⟩ := List.cons.inj first
    exact ⟨[], by simp [event, Event.isSchdule, ← tail]⟩

/-- Through any run in which the loop of `schdule` runs at most as often as actors are ahead of a
queued one, it resumes these actors in their order and does nothing else. -/
theorem front_run {fs : List (Event φ)} {front back : List ActorRef} (sound : Sound s)
    (live : s.exited = false) (queue : s.waits.seq .readyq = front ++ a :: back)
    (few : iterations fs ≤ front.length) (ran : Machine.run step s fs = .ok t) :
    t.exited = false ∧
      resumptions t.trace = resumptions s.trace ++ (front.take (iterations fs)).map some ∧
      ∃ new, t.waits.seq .readyq = front.drop (iterations fs) ++ a :: (back ++ new) := by
  induction fs generalizing s front back with
  | nil =>
    cases ran
    exact ⟨live, by simp [iterations], [], by simpa [iterations] using queue⟩
  | cons e fs ih =>
    obtain ⟨m, happened, rest⟩ := Machine.run_cons.mp ran
    obtain ⟨inv, _, after⟩ := step_sound sound happened
    have member : a ∈ s.waits.seq .readyq := by simp [queue]
    have alive := exited_queued inv member happened
    have trace := resumptions_step inv happened
    cases event : e.isSchdule with
    | true =>
      have count : iterations (e :: fs) = iterations fs + 1 := by
        simp [iterations, event]
      rw [count] at few ⊢
      obtain ⟨first, others, rfl⟩ :=
        List.exists_cons_of_length_pos (Nat.lt_of_lt_of_le (Nat.succ_pos _) few)
      obtain ⟨new, next⟩ := front_step inv queue happened (by simp)
      rw [event] at next trace
      obtain ⟨ends, resumed, more, last⟩ :=
        ih after alive next (Nat.le_of_succ_le_succ few) rest
      refine ⟨ends, ?_, new ++ more, ?_⟩
      · rw [resumed, trace, queue]
        simp
      · simpa using last
    | false =>
      have count : iterations (e :: fs) = iterations fs := by simp [iterations, event]
      rw [count] at few ⊢
      obtain ⟨new, next⟩ := front_step inv queue happened (by simp [event])
      rw [event] at next trace
      obtain ⟨ends, resumed, more, last⟩ := ih after alive next few rest
      refine ⟨ends, ?_, new ++ more, ?_⟩
      · rw [resumed, trace]
        simp
      · simpa using last

/-- A ready actor is in the ready queue, behind some actors. Whatever happens until the loop of
`schdule` has run once for each of them, it resumes exactly these, each once and in their order,
and does not call `uv_run`; the actor keeps its place, and everything made ready in the meantime
is behind it. The next iteration then resumes the actor. -/
theorem reachable_bypass {es : List (Event φ)}
    (ran : Machine.run step (sherryInit : State Seqs φ) es = .ok s) (live : s.exited = false)
    (ready : (s.actor a).status = .ready) :
    ∃ front back, s.waits.seq .readyq = front ++ a :: back ∧ (front ++ a :: back).Nodup ∧
      ∀ fs t, Machine.run step s fs = .ok t → iterations fs ≤ front.length →
        t.exited = false ∧
        resumptions t.trace = resumptions s.trace ++ (front.take (iterations fs)).map some ∧
        t.actor a = s.actor a ∧
        (∃ new, t.waits.seq .readyq = front.drop (iterations fs) ++ a :: (back ++ new)) ∧
        (t.onScheduler false = true →
          ∃ u, step t .schdule = .ok u ∧ u.executing = (front ++ [a])[iterations fs]? ∧
            resumptions u.trace =
              resumptions s.trace ++ ((front ++ [a]).take (iterations fs + 1)).map some) := by
  have inv := inv_run ran live
  have sound : Sound s := fun _ => inv
  obtain ⟨front, back, queue⟩ := List.append_of_mem (inv.placed.mem_readyq.mpr ready)
  refine ⟨front, back, queue, queue ▸ inv.placed.homed.nodup .readyq, fun fs t went few => ?_⟩
  obtain ⟨alive, resumed, new, place⟩ := front_run sound live queue few went
  have same := (ahead_run sound ⟨front, back, queue, rfl⟩ few went).2
  refine ⟨alive, resumed, same, ⟨new, place⟩, fun on => ?_⟩
  have after : Inv t := run_sound sound went alive
  have goes : step t .schdule = .ok (schdule t) := onLoop_ok.mpr ⟨on, trivial, rfl⟩
  -- The first ready actor is the one at this position of the front, or the actor itself.
  have head : (t.waits.seq .readyq).head? = (front ++ [a])[iterations fs]? := by
    rw [place, ← List.head?_drop, List.drop_append_of_le_length few]
    cases front.drop (iterations fs) <;> rfl
  have inside : iterations fs < (front ++ [a]).length := by simpa using Nat.lt_succ_of_le few
  obtain ⟨next, found⟩ : ∃ next, (front ++ [a])[iterations fs]? = some next :=
    ⟨_, List.getElem?_eq_getElem inside⟩
  rw [found] at head
  obtain ⟨rest, first⟩ := List.head?_eq_some_iff.mp head
  refine ⟨schdule t, goes, ?_, ?_⟩
  · rw [found]
    exact (ahead_zero after ⟨[], rest, first, rfl⟩ goes).1
  · rw [resumptions_step after goes, resumed, first, List.take_add_one, found,
      List.take_append_of_le_length few]
    simp [Event.isSchdule]

/-- Actors 1 and 2 are ready, and main has yielded behind them. -/
def spawnTwo : List (Event Unit) := [.spawn (), .spawn (), .yield]

/-- Main keeps its place while actor 1 spawns another actor, and actor 2 yields. -/
theorem reachable_bypass_main :
    ∃ s t, Machine.run step (sherryInit : State Seqs Unit) spawnTwo = .ok s ∧
      Machine.run step s
          [.schdule, .resume 0, .spawn (), .ret, .schdule, .resume 0, .yield] = .ok t ∧
        ∃ u, step t .schdule = .ok u ∧ u.executing = some 0 := by
  obtain ⟨s, ran, live, ready, queue, t, went, on⟩ :
      ∃ s, Machine.run step (sherryInit : State Seqs Unit) spawnTwo = .ok s ∧
        s.exited = false ∧ (s.actor 0).status = .ready ∧ s.waits.seq .readyq = [1, 2, 0] ∧
          ∃ t, Machine.run step s
            [.schdule, .resume 0, .spawn (), .ret, .schdule, .resume 0, .yield] = .ok t ∧
              t.onScheduler false = true := by
    decide +kernel
  obtain ⟨front, back, split, nodup, bypass⟩ := reachable_bypass ran live ready
  have two : front = [1, 2] := by
    rw [queue] at split
    rcases front with _ | ⟨b, _ | ⟨c, _ | ⟨d, rest⟩⟩⟩ <;> simp_all
  subst two
  obtain ⟨_, _, _, _, next⟩ := bypass _ t went (by decide)
  obtain ⟨u, goes, exec, _⟩ := next on
  exact ⟨s, t, ran, went, u, goes, exec⟩

end Sherry
