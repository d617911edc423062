import Sherry.Verif.Turns

/-!
# Writes

`sherry_write` ignores what `uv_write` returns, and `write_cb` asserts that the status is
zero. A writer whose request was refused waits forever, since nothing that wakes an actor knows
of it; a failed request ends the program. A request that succeeds wakes its writer and touches
nobody else. So a write is answered as its caller expects exactly when `uv_write` takes it and
its status is zero.
-/

namespace Sherry

variable {φ : Type} {s t : State Seqs φ} {self a : ActorRef} {e : Event φ} {fd : FdRef}
  {count : Nat} {ret status : Int} {requests : List UvWrite}

/-- An actor is suspended in `sherry_write`, with the given requests at libuv. -/
structure Suspended (s : State Seqs φ) (a : ActorRef) (fd : FdRef) (count : Nat)
    (requests : List UvWrite) : Prop where
  /-- It waits for an event. -/
  status : (s.actor a).status = .waitEv
  /-- It called `sherry_write`. -/
  frame : (s.actor a).frame = .write fd count
  /-- Its requests. -/
  pending : s.writes.filter (fun req => decide (req.data = a)) = requests

/-- `sherry_write` suspends its caller, with a request if `uv_write` took it. -/
theorem suspended_write (inv : Inv s) (user : s.inUser = some self)
    (happened : step s (.write fd count ret) = .ok t) :
    Suspended t self fd count (if ret = 0 then [⟨fd, self⟩] else []) := by
  obtain ⟨self', exec', rfl⟩ := step_write inv happened
  have exec := (inUser_iff.mp user).2.1
  obtain rfl : self = self' := Option.some.inj (exec.symm.trans exec')
  have idle : s.writes.filter (fun req => decide (req.data = self)) = [] := by
    apply List.filter_eq_nil_iff.mpr
    intro req member
    have other := inv.placed.no_write (by rw [(inv.placed.executing exec).2.1]; nofun) req member
    simpa using other
  refine ⟨by simp [park], by simp [park], ?_⟩
  by_cases taken : ret = 0 <;> simp [park, idle, taken]

/-- Nothing but the callback of its own request moves an actor out of `sherry_write`. -/
theorem suspended_step (inv : Inv s) (suspended : Suspended s self fd count requests)
    (other : ∀ req ∈ requests, e ≠ .writeCb req 0) (happened : step s e = .ok t) :
    Suspended t self fd count requests := by
  obtain ⟨status, frame, pending⟩ := suspended
  obtain ⟨registered, idle⟩ := inv.placed.waiting status
  have own : ∀ {req}, req ∈ s.writes → req.data = self → req ∈ requests := by
    intro req member data
    rw [← pending]
    exact List.mem_filter.mpr ⟨member, by simpa using data⟩
  have outcome := step_outcome inv happened
  have same : t.actor self = s.actor self := by
    rcases (outcome.actor_change self).passive inv registered idle with
      same | ⟨waking, _⟩ | ⟨_, first, _⟩
    · exact same
    · cases waking with
      | sent _ waiting => cases status.symm.trans waiting
      | connected member =>
        obtain ⟨_, _, ⟨_, reads⟩ | ⟨_, accepts⟩⟩ := inv.placed.mem_waitq.mp member
        · cases frame.symm.trans reads
        · cases frame.symm.trans accepts
      | delivered _ member =>
        obtain ⟨_, _, ⟨_, reads⟩ | ⟨_, accepts⟩⟩ := inv.placed.mem_waitq.mp member
        · cases frame.symm.trans reads
        · cases frame.symm.trans accepts
      | written member data => exact absurd rfl (other _ (own member data))
    · cases status.symm.trans (inv.placed.mem_readyq.mp (List.mem_of_mem_head? first))
  refine ⟨same ▸ status, same ▸ frame, ?_⟩
  cases outcome.writes_change with
  | kept writes => rw [writes, pending]
  | @submitted self' fd' count' ret exec event writes =>
    have apart : self' ≠ self := fun equal => idle (equal ▸ exec)
    rw [writes, List.filter_append, pending]
    by_cases taken : ret = 0 <;> simp [taken, apart]
  | @completed req event member writes =>
    have apart : req.data ≠ self := fun data => other req (own member data) event
    rw [writes, ← List.erase_filter, pending]
    apply List.erase_of_not_mem
    intro inside
    rw [← pending] at inside
    exact apart (by simpa using (List.mem_filter.mp inside).2)

/-- Through any run without the callback of its own request an actor stays in `sherry_write`. -/
theorem suspended_run {es : List (Event φ)} (sound : Sound s)
    (suspended : Suspended s self fd count requests)
    (other : ∀ req ∈ requests, .writeCb req 0 ∉ es) (ran : Machine.run step s es = .ok t) :
    Suspended t self fd count requests := by
  induction es generalizing s with
  | nil =>
    cases ran
    exact suspended
  | cons e es ih =>
    obtain ⟨m, happened, rest⟩ := Machine.run_cons.mp ran
    obtain ⟨inv, _, after⟩ := step_sound sound happened
    have first : ∀ req ∈ requests, e ≠ .writeCb req 0 := fun req member event =>
      other req member (event ▸ List.mem_cons_self)
    have later : ∀ req ∈ requests, .writeCb req 0 ∉ es := fun req member inside =>
      other req member (List.mem_cons_of_mem e inside)
    exact ih after (suspended_step inv suspended first happened) later rest

/-- From here the writer is resumed once, after the actors ahead of it in the ready queue, and
its `sherry_write` then returns a value. -/
def ResumesOnce (s : State Seqs φ) (self : ActorRef) (fd : FdRef) (value : Int) : Prop :=
  ∃ ahead, ∀ es t, Machine.run step s es = .ok t →
    (iterations es ≤ ahead → (t.actor self).status = .ready) ∧
      (iterations es = ahead → ∀ m, step t .schdule = .ok m →
        m.executing = some self ∧ ∀ e u, step m e = .ok u →
          u = (m.setFrame self .user).emit (.wrote self fd value))

/-- What follows the outcome of a request: the callback with its status, or nothing when
`uv_write` refused the request. -/
def outcomeOf (s : State Seqs φ) (self : ActorRef) (fd : FdRef) (ret status : Int) :
    Except Fault (State Seqs φ) :=
  if ret = 0 then step s (.writeCb ⟨fd, self⟩ status) else .ok s

/-- A write is answered: no assertion fails, the caller becomes ready behind all others and is
resumed once, with the count after a success and a negative value after a failure, and no other
actor is affected. -/
def Answered (s : State Seqs φ) (self : ActorRef) (fd : FdRef) (count : Nat)
    (ret status : Int) : Prop :=
  ∃ t, outcomeOf s self fd ret status = .ok t ∧ (t.actor self).status = .ready ∧
    (∀ b, b ≠ self → t.actor b = s.actor b) ∧
    (∀ l, t.waits.seq l = s.waits.seq l ++ if l = .readyq then [self] else []) ∧
    ∃ value, ResumesOnce t self fd value ∧
      if ret = 0 ∧ status = 0 then value = count else value < 0

/-- A ready writer is resumed once and its call returns the count. -/
theorem resumesOnce (sound : Sound s) (live : s.exited = false)
    (queued : ∃ p, Ahead s self p) (frame : (s.actor self).frame = .write fd count) :
    ResumesOnce s self fd count := by
  obtain ⟨p, ahead⟩ := queued
  have ready := ahead.ready (sound live)
  refine ⟨p, fun es t ran => ⟨fun enough => ?_, fun exact_turn m happened => ?_⟩⟩
  · rw [(ahead_run sound ahead enough ran).2, ready]
  · obtain ⟨next, same⟩ := ahead_run sound ahead (Nat.le_of_eq exact_turn) ran
    rw [exact_turn, Nat.sub_self] at next
    have inv := run_sound sound ran (step_live happened)
    obtain ⟨exec, actor⟩ := ahead_zero inv next happened
    have inside : (m.actor self).frame = .write fd count := by
      rw [actor, same]
      exact frame
    refine ⟨exec, fun e u taken => ?_⟩
    obtain ⟨err, _, resumed⟩ := step_resumed exec (by rw [inside]; nofun) taken
    rw [resume_ok, inside] at resumed
    exact resumed

/-- `write_cb` with another status ends the program. -/
theorem writeCb_failed {req : UvWrite} (on : s.onScheduler true = true) (pending : req ∈ s.writes)
    (failed : status ≠ 0) : step s (.writeCb req status) = .error .assertFailed := by
  simp [step, onLoop, on, pending, writeCb, failed]

/-- `write_cb` with status zero wakes the writer at the tail of the ready queue. -/
theorem writeCb_woken (inv : Inv s) {req : UvWrite} (on : s.onScheduler true = true)
    (pending : req ∈ s.writes) :
    step s (.writeCb req 0) =
      .ok ((wake { s with writes := s.writes.erase req } req.data).emit
        (.written req.data req.fd 0)) := by
  have blocked := (inv.placed.writes req pending).1
  simp only [step, onLoop, on, pending, and_self, ↓reduceIte, writeCb]
  rw [setready_eq (by simp [blocked])]

/-- From a state with a suspended writer whose outcome arrives, the write is answered exactly
when it was taken and succeeded. -/
theorem answered_iff (inv : Inv s)
    (suspended : Suspended s self fd count (if ret = 0 then [⟨fd, self⟩] else []))
    (arrives : ret = 0 → s.onScheduler true = true) :
    Answered s self fd count ret status ↔ ret = 0 ∧ status = 0 := by
  have listed : ret = 0 → ⟨fd, self⟩ ∈ s.writes := by
    intro taken
    have own := suspended.pending
    rw [if_pos taken] at own
    exact (List.mem_filter.mp (own ▸ List.mem_cons_self)).1
  constructor
  · rintro ⟨t, outcome, ready, _⟩
    unfold outcomeOf at outcome
    split at outcome
    · rename_i taken
      refine ⟨taken, ?_⟩
      by_contra failed
      rw [writeCb_failed (arrives taken) (listed taken) failed] at outcome
      cases outcome
    · cases outcome
      cases suspended.status.symm.trans ready
  · rintro ⟨taken, rfl⟩
    have woken := writeCb_woken inv (arrives taken) (listed taken)
    have live := (onScheduler_iff.mp (arrives taken)).1
    refine ⟨_, by rw [outcomeOf, if_pos taken, woken], by simp [wake, State.emit], ?_, ?_, count,
      ?_, by simp [taken]⟩
    · intro b other
      simp [wake, State.emit, other]
    · intro l
      simp only [wake, State.emit, enlist, Seqs.set_seq]
      split
      · rename_i here
        rw [here]
      · simp
    · refine resumesOnce (step_sound (fun _ => inv) woken).2.2 live
        ⟨(s.waits.seq .readyq).length, ?_⟩ ?_
      · exact ⟨s.waits.seq .readyq, [], by simp [wake, State.emit, enlist], rfl⟩
      · simpa [wake, State.emit] using suspended.frame

/-- A write is answered exactly when `uv_write` takes it and its status is zero. A caller whose
write `uv_write` refuses waits in every later state. -/
theorem write_answered_iff {es fs : List (Event φ)}
    (ran : Machine.run step (sherryInit : State Seqs φ) es = .ok s)
    (user : s.inUser = some self) (called : step s (.write fd count ret) = .ok t)
    {u : State Seqs φ} (later : Machine.run step t fs = .ok u)
    (first : .writeCb ⟨fd, self⟩ 0 ∉ fs) (arrives : ret = 0 → u.onScheduler true = true)
    (live : u.exited = false) :
    (Answered u self fd count ret status ↔ ret = 0 ∧ status = 0) ∧
      (ret ≠ 0 → ∀ gs w, Machine.run step t gs = .ok w → (w.actor self).status = .waitEv) := by
  have start : Sound (sherryInit : State Seqs φ) := fun _ => inv_sherryInit
  have sound := run_sound start ran
  have inv := sound (step_live called)
  have after := (step_sound sound called).2.2
  have suspended := suspended_write inv user called
  constructor
  · refine answered_iff (run_sound after later live) (suspended_run after suspended ?_ later)
      arrives
    intro req member
    split at member
    · rw [List.mem_singleton.mp member]
      exact first
    · cases member
  · intro refused gs w run
    rw [if_neg refused] at suspended
    exact (suspended_run after suspended (by simp) run).status

/-- A write of main to a connection that libuv takes and completes is answered. -/
theorem write_answered_success :
    ∃ s, Machine.run step (sherryInit : State Seqs Unit) connected = .ok s ∧
      ∃ t, step s (.write 1 5 0) = .ok t ∧
        ∃ u, Machine.run step t [.schdule] = .ok u ∧ Answered u 0 1 5 0 0 := by
  obtain ⟨s, ran, user, t, called, u, later, on, live⟩ :
      ∃ s, Machine.run step (sherryInit : State Seqs Unit) connected = .ok s ∧
        s.inUser = some 0 ∧ ∃ t, step s (.write 1 5 0) = .ok t ∧
          ∃ u, Machine.run step t [.schdule] = .ok u ∧ u.onScheduler true = true ∧
            u.exited = false := by
    decide +kernel
  have answered : Answered u 0 1 5 0 0 ↔ (0 : Int) = 0 ∧ (0 : Int) = 0 :=
    (write_answered_iff ran user called later (by simp) (fun _ => on) live).1
  exact ⟨s, ran, t, called, u, later, answered.mpr ⟨rfl, rfl⟩⟩

/-- A write whose connection was reset ends the program in a failed assertion. -/
theorem reset_write_aborts :
    ∃ s, Machine.run step (sherryInit : State Seqs Unit)
        (connected ++ [.write 1 5 0, .schdule]) = .ok s ∧
      (s.actor 0).frame = .write 1 5 ∧
        step s (.writeCb ⟨1, 0⟩ (-104)) = .error .assertFailed := by
  decide +kernel

end Sherry
