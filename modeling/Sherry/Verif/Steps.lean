import Sherry.Model.System

/-!
# What one event can do

Each event of the system has one inversion lemma: the states in which it happens and the
function of the source that makes the next state. Every later proof about a step cites these
lemmas and never unfolds `step`.
-/

namespace Sherry

variable {Q : Type → Type → Type} {φ : Type} {s t : State Q φ}

/-- The actor that executes its own code executes, and the program has not ended. -/
theorem inUser_iff {self : ActorRef} :
    s.inUser = some self ↔
      s.exited = false ∧ s.executing = some self ∧ (s.actor self).frame = .user := by
  unfold State.inUser
  cases ended : s.exited with
  | true => simp
  | false =>
    simp only [Bool.false_eq_true, ↓reduceIte, Option.filter_eq_some_iff, decide_eq_true_eq,
      true_and]

/-- The scheduler executes in the asked part of its loop, and the program has not ended. -/
theorem onScheduler_iff {inUvRun : Bool} :
    s.onScheduler inUvRun = true ↔
      s.exited = false ∧ s.cpu.owner = some .scheduler ∧ s.polling = inUvRun := by
  simp [State.onScheduler, and_assoc]

/-- On the scheduler's stack no actor executes. -/
theorem executing_none (owner : s.cpu.owner = some .scheduler) : s.executing = none := by
  simp [State.executing, owner]

/-- An actor executes exactly when the stack pointer points into its stack. -/
theorem executing_iff {a : ActorRef} : s.executing = some a ↔ s.cpu.owner = some (.actor a) := by
  unfold State.executing
  split
  · rename_i b owner
    simp [owner]
  · rename_i other
    constructor
    · nofun
    · intro owner
      exact absurd owner (other a)

/-- A live descriptor was allocated. -/
theorem liveFd_iff {fd : FdRef} : s.liveFd fd = true ↔ fd < s.nfds ∧ .fd fd ∉ s.freed := by
  simp [State.liveFd]

/-- A call happens in the actor that executes its own code. -/
theorem call_ok {body : ActorRef → Except Fault (State Q φ)} :
    call s body = .ok t ↔ ∃ self, s.inUser = some self ∧ body self = .ok t := by
  unfold call
  cases s.inUser <;> simp

/-- A call on a descriptor happens only on a live one. -/
theorem fdCall_ok {fd : FdRef} {body : ActorRef → Except Fault (State Q φ)} :
    fdCall s fd body = .ok t ↔
      ∃ self, s.inUser = some self ∧ s.liveFd fd = true ∧ body self = .ok t := by
  unfold fdCall
  rw [call_ok]
  refine exists_congr fun self => and_congr_right fun _ => ?_
  split <;> rename_i live <;> simp [live]

/-- Code of the scheduler's stack happens there, under its condition. -/
theorem onLoop_ok {inUvRun : Bool} {allowed : Prop} [Decidable allowed]
    {body : Except Fault (State Q φ)} :
    onLoop s inUvRun allowed body = .ok t ↔
      s.onScheduler inUvRun = true ∧ allowed ∧ body = .ok t := by
  unfold onLoop
  split <;> rename_i enabled <;> simp [enabled]
  · intro on holds
    exact absurd ⟨on, holds⟩ enabled

variable [ListStore Q]

/-- What a resumed actor does, by the call it was suspended in. -/
theorem resume_ok {self : ActorRef} {err : Int} :
    resume s self err = .ok t ↔
      match (s.actor self).frame with
      | .user => False
      | .entry => t = s.setFrame self .user
      | .recv a => t = msgRecvTail s self a
      | .accept server client =>
        (s.liveFd server ∧ s.liveFd client) ∧ t = sherryAccept s self server client err
      | .read fd count => s.liveFd fd ∧ t = readLoop s self fd count
      | .write fd count => t = writeTail s self fd count
      | .exit => t = sherryExit s self
      | .returned => False := by
  unfold resume
  cases (s.actor self).frame <;> simp only [Machine.ite_ok, Except.ok.injEq, reduceCtorEq] <;>
    first | exact eq_comm | exact and_congr_right fun _ => eq_comm

/-- A resumed actor executes, and the program has not ended. -/
theorem resume_step {err : Int} :
    step s (.resume err) = .ok t ↔
      s.exited = false ∧ ∃ self, s.executing = some self ∧ resume s self err = .ok t := by
  unfold step
  cases s.exited <;> cases s.executing <;> simp

/-- No event happens once `sherry_exit` has returned. -/
theorem step_live {e : Event φ} (taken : step s e = .ok t) : s.exited = false := by
  cases ended : s.exited with
  | false => rfl
  | true =>
    have idle : s.inUser = none := by simp [State.inUser, ended]
    have off : ∀ inUvRun, s.onScheduler inUvRun = false := by simp [State.onScheduler, ended]
    cases e <;> simp [step, call, fdCall, onLoop, idle, off, ended] at taken

/-- An actor that executes inside a call of the library can only go on in that call. -/
theorem step_resumed {self : ActorRef} {e : Event φ} (exec : s.executing = some self)
    (inside : (s.actor self).frame ≠ .user) (taken : step s e = .ok t) :
    ∃ err, e = .resume err ∧ resume s self err = .ok t := by
  have idle : s.inUser = none := by simp [State.inUser, exec, inside]
  have off : ∀ inUvRun, s.onScheduler inUvRun = false := by
    simp [State.onScheduler, executing_iff.mp exec]
  cases e with
  | resume err =>
    obtain ⟨_, self', exec', resumed⟩ := resume_step.mp taken
    obtain rfl : self = self' := Option.some.inj (exec.symm.trans exec')
    exact ⟨err, rfl, resumed⟩
  | _ => simp [step, call, fdCall, onLoop, idle, off] at taken

/-- `write_cb` returns only for status zero. -/
theorem writeCb_ok {req : UvWrite} {status : Int} :
    writeCb s req status = .ok t ↔
      status = 0 ∧ t = (setready s req.data).emit (.written req.data req.fd status) := by
  unfold writeCb
  simp only [Machine.ite_ok, Except.ok.injEq]
  exact and_congr_right fun _ => eq_comm

end Sherry
