import Sherry.Verif.Closing
import Sherry.Verif.Release
import Sherry.Verif.Switches

/-!
# Programs that keep the contract

The library checks next to nothing of what its callers pass. `Contract` says what it relies on:
sends go to actors that have not returned, descriptors are not used after `sherry_fd_close`,
nobody waits on the one that is closed, messages are freed once and after they were received, and
writes succeed. A program of any number of actors that keeps it reaches no undefined behaviour and
no failed assertion, and control is never lost.
-/

namespace Sherry

variable {φ : Type} {s t : State Seqs φ} {self a : ActorRef} {e : Event φ} {fd : FdRef}
  {fault : Fault}

/-- The descriptors that a suspended call uses when it goes on. -/
def Frame.uses : Frame → List FdRef
  | .read fd _ => [fd]
  | .accept server client => [server, client]
  | _ => []

/-- A descriptor that was opened and not passed to `sherry_fd_close`. -/
def Usable (s : State Seqs φ) (fd : FdRef) : Prop :=
  fd < s.nfds ∧ (s.fd fd).handle.closing = false

instance (s : State Seqs φ) (fd : FdRef) : Decidable (Usable s fd) :=
  inferInstanceAs (Decidable (_ ∧ _))

/-- What the library relies on. -/
def Contract (s : State Seqs φ) : Event φ → Prop
  | .send dst _ _ => ∃ a < s.nactors, some a ∈ s.actors ∧ (s.actor a).aid = dst
  | .msgFree m => m < s.nmsgs ∧ .msg m ∉ s.freed ∧ ∀ a < s.nactors, m ∉ s.mail.seq a
  | .listen fd _ => ∀ f ∈ fd, Usable s f
  | .accept server client _ => Usable s server ∧ Usable s client
  | .read fd _ _ => Usable s fd
  | .write fd _ _ => Usable s fd
  | .close fd => Usable s fd ∧ ∀ a < s.nactors, fd ∉ (s.actor a).frame.uses
  | .writeCb _ status => status = 0
  | _ => True

instance decidableContract (s : State Seqs φ) : (e : Event φ) → Decidable (Contract s e)
  | .send _ _ _ => inferInstanceAs (Decidable (∃ a < s.nactors, _ ∧ _))
  | .msgFree _ => inferInstanceAs (Decidable (_ ∧ _ ∧ ∀ a < s.nactors, _))
  | .listen fd _ => inferInstanceAs (Decidable (∀ f ∈ fd, Usable s f))
  | .accept _ _ _ => inferInstanceAs (Decidable (_ ∧ _))
  | .read fd _ _ => inferInstanceAs (Decidable (Usable s fd))
  | .write fd _ _ => inferInstanceAs (Decidable (Usable s fd))
  | .close _ => inferInstanceAs (Decidable (_ ∧ ∀ a < s.nactors, _))
  | .writeCb _ status => inferInstanceAs (Decidable (status = 0))
  | .compute _ | .spawn _ | .yield | .recv | .fdTcp _ | .ret | .exit | .resume _ | .schdule
  | .uvReturn | .listenCb _ _ | .readCb _ _ _ _ | .closeCb _ => isTrue trivial

/-- A call stops in its body, or is not enabled. -/
theorem call_error {body : ActorRef → Except Fault (State Seqs φ)}
    (stops : call s body = .error fault) :
    fault = .disabled ∨ ∃ self, s.inUser = some self ∧ body self = .error fault := by
  unfold call at stops
  split at stops
  · rename_i self user
    exact .inr ⟨self, user, stops⟩
  · exact .inl (Except.error.inj stops).symm

/-- A call whose body never stops is not enabled. -/
theorem call_disabled {body : ActorRef → State Seqs φ}
    (stops : call s (fun self => .ok (body self)) = .error fault) : fault = .disabled := by
  rcases call_error stops with disabled | ⟨self, _, stops⟩
  · exact disabled
  · cases stops

/-- A call on a live descriptor stops in its body, or is not enabled. -/
theorem fdCall_error {body : ActorRef → Except Fault (State Seqs φ)} (live : s.liveFd fd = true)
    (stops : fdCall s fd body = .error fault) :
    fault = .disabled ∨ ∃ self, s.inUser = some self ∧ body self = .error fault := by
  refine (call_error stops).imp_right fun ⟨self, user, stops⟩ => ⟨self, user, ?_⟩
  rwa [if_pos live] at stops

/-- Code of the scheduler's stack stops in its body, or is not enabled. -/
theorem onLoop_error {inUvRun : Bool} {allowed : Prop} [Decidable allowed]
    {body : Except Fault (State Seqs φ)} (stops : onLoop s inUvRun allowed body = .error fault) :
    fault = .disabled ∨ s.onScheduler inUvRun = true ∧ allowed ∧ body = .error fault := by
  unfold onLoop at stops
  split at stops
  · rename_i enabled
    exact .inr ⟨enabled.1, enabled.2, stops⟩
  · exact .inl (Except.error.inj stops).symm

/-- Code of the scheduler's stack that never stops is not enabled. -/
theorem onLoop_disabled {inUvRun : Bool} {allowed : Prop} [Decidable allowed]
    {body : State Seqs φ} (stops : onLoop s inUvRun allowed (.ok body) = .error fault) :
    fault = .disabled := by
  rcases onLoop_error stops with disabled | ⟨_, _, stops⟩
  · exact disabled
  · cases stops

/-- Control is somewhere, suspended calls have their descriptors, and a function that returned is
not resumed. -/
structure Guarded (s : State Seqs φ) : Prop where
  /-- Somebody executes. -/
  control : s.cpu.owner = some .scheduler ∨ ∃ a, s.executing = some a
  /-- Suspended calls use descriptors that are not closed. -/
  uses : ∀ a, ∀ fd ∈ (s.actor a).frame.uses, a < s.nactors ∧ Usable s fd
  /-- An actor whose function returned is not registered. -/
  departed : ∀ a, (s.actor a).frame = .returned → ¬Registered s a

/-- What holds in every state of a run that keeps the contract. -/
structure Respected (s : State Seqs φ) : Prop where
  /-- Until `sherry_exit` returns. -/
  guarded : s.exited = false → Guarded s
  /-- Freed descriptors were closed. -/
  closed : FreedClosed s
  /-- The mailboxes are sound. -/
  mailed : Mailed s
  /-- Freed messages are in no mailbox. -/
  received : Received s
  /-- No message is freed twice. -/
  once : ∀ m, s.freed.count (.msg m) ≤ 1

/-- A descriptor that can be used was not freed. -/
theorem Usable.live (usable : Usable s fd) (closed : FreedClosed s) : s.liveFd fd = true := by
  refine liveFd_iff.mpr ⟨usable.1, fun gone => ?_⟩
  have closing := (closed fd gone).2
  rw [usable.2] at closing
  cases closing

/-- A descriptor can be used until it is closed. -/
theorem Usable.kept (usable : Usable s fd) (inv : Inv s) (happened : step s e = .ok t)
    (other : e ≠ .close fd) : Usable t fd := by
  refine ⟨Nat.lt_of_lt_of_le usable.1 (step_outcome inv happened).counts_le.2.1, ?_⟩
  rcases closing_step inv happened fd with same | ⟨closes, _⟩ | ⟨new, _⟩
  · exact same.trans usable.2
  · exact absurd closes other
  · exact absurd new (Nat.ne_of_lt usable.1)

/-- A call that blocks uses descriptors that are not closed. -/
theorem Guarded.parks (guarded : Guarded s) (met : Contract s e) {status : Status} {frame : Frame}
    (parking : Parking s e a status frame) : ∀ fd ∈ frame.uses, Usable s fd := by
  cases parking with
  | reads enters =>
    rcases enters with ⟨rfl, _, _⟩ | ⟨_, rfl, inside, _⟩
    · intro fd member
      rw [List.mem_singleton.mp member]
      exact met
    · intro fd member
      exact (guarded.uses a fd (inside ▸ member)).2
  | accepts enters =>
    rcases enters with ⟨rfl, _⟩ | ⟨rfl, inside⟩
    · intro fd member
      rcases List.mem_cons.mp member with rfl | last
      · exact met.1
      · rw [List.mem_singleton.mp last]
        exact met.2
    · intro fd member
      exact (guarded.uses a fd (inside ▸ member)).2
  | _ => nofun

/-- Only an actor that closes a descriptor that nobody waits on closes it. -/
theorem Contract.not_close (met : Contract s e) (allocated : a < s.nactors)
    (member : fd ∈ (s.actor a).frame.uses) : e ≠ .close fd := by
  rintro rfl
  exact met.2 a allocated member

/-- Who is registered after an event was registered before it, or is new. -/
theorem ControlChange.registered (change : ControlChange s t e) (live : t.exited = false)
    (registered : Registered t a) :
    Registered s a ∨ a = s.nactors ∧ (t.actor a).frame = .entry := by
  cases change with
  | kept _ _ actors => exact .inl (by rwa [Registered, actors] at registered)
  | polled _ _ _ _ actors => exact .inl (by rwa [Registered, actors] at registered)
  | spawned _ _ _ who _ entry =>
    rcases (who a).mp registered with rfl | before
    · exact .inr ⟨rfl, entry⟩
    · exact .inl before
  | suspended _ _ _ _ _ actors => exact .inl (by rwa [Registered, actors] at registered)
  | returned _ _ _ _ who => exact .inl ((who a).mp registered).1
  | dispatched _ _ _ _ _ actors => exact .inl (by rwa [Registered, actors] at registered)
  | ended exited => cases live.symm.trans exited

/-- Control stays with somebody. -/
theorem Guarded.control_step (guarded : Guarded s) (inv : Inv s) (live : t.exited = false)
    (change : ControlChange s t e) :
    t.cpu.owner = some .scheduler ∨ ∃ a, t.executing = some a := by
  have same : t.cpu.owner = s.cpu.owner →
      t.cpu.owner = some .scheduler ∨ ∃ a, t.executing = some a := by
    intro owner
    simpa only [executing_iff, owner] using guarded.control
  cases change with
  | kept owner => exact same owner
  | polled _ _ owner => exact same owner
  | spawned _ owner => exact same owner
  | suspended exec cpu => exact .inl (cpu ▸ (inv.placed.current _ exec).2)
  | returned exec cpu => exact .inl (cpu ▸ (inv.placed.current _ exec).2)
  | @dispatched next _ _ first cpu =>
    have member : next ∈ s.waits.seq .readyq := by
      rw [first]
      exact List.mem_cons_self
    have own := (inv.placed.member member).2.2.2
    exact .inr ⟨next, executing_iff.mpr (by rw [cpu, own])⟩
  | ended exited => cases live.symm.trans exited

/-- An actor whose function returned is not registered. -/
theorem ret_leaves (inv : Inv s) (exec : s.executing = some a) (happened : step s .ret = .ok t) :
    ¬Registered t a := by
  obtain ⟨self, user, done⟩ := call_ok.mp happened
  obtain rfl : self = a := Option.some.inj ((inUser_iff.mp user).2.1.symm.trans exec)
  split at done <;> cases done
  obtain ⟨i, found, _⟩ := inv.registry.at_id (inv.placed.executing exec).1
  rw [sherryMainReturn_eq inv exec found]
  intro registered
  exact ((inv.registry.registered_left found rfl).mp registered).2 rfl

/-- Every step that keeps the contract keeps what holds under it. -/
theorem Guarded.after (guarded : Guarded s) (inv : Inv s) (met : Contract s e)
    (happened : step s e = .ok t) (live : t.exited = false) : Guarded t := by
  have outcome := step_outcome inv happened
  have change := outcome.control_change inv
  have grows := outcome.counts_le.1
  refine ⟨guarded.control_step inv live change, fun a fd member => ?_, fun a frame registered => ?_⟩
  · have kept : fd ∈ (s.actor a).frame.uses → a < t.nactors ∧ Usable t fd := by
      intro before
      obtain ⟨allocated, usable⟩ := guarded.uses a fd before
      exact ⟨Nat.lt_of_lt_of_le allocated grows,
        usable.kept inv happened (met.not_close allocated before)⟩
    cases outcome.actor_change a with
    | kept same => exact kept (same ▸ member)
    | proceeds _ same =>
      rw [same] at member
      cases member
    | parked exec parking same =>
      rw [same] at member
      have allocated := inv.registry.allocated (inv.placed.executing exec).1
      refine ⟨Nat.lt_of_lt_of_le allocated grows,
        (guarded.parks met parking fd member).kept inv happened ?_⟩
      rintro rfl
      cases parking with
      | reads enters => rcases enters with ⟨other, _⟩ | ⟨_, other, _⟩ <;> cases other
      | accepts enters => rcases enters with ⟨other, _⟩ | ⟨other, _⟩ <;> cases other
      | lingers => cases member
    | woken _ same => exact kept (by rwa [same] at member)
    | dispatched _ _ same => exact kept (by rwa [same] at member)
    | made _ _ entry =>
      rw [entry] at member
      cases member
  · rcases change.registered live registered with before | ⟨_, entry⟩
    · have still : (s.actor a).frame ≠ .returned := fun departs => guarded.departed a departs before
      cases outcome.actor_change a with
      | kept same => exact still (same ▸ frame)
      | proceeds _ same =>
        rw [same] at frame
        cases frame
      | parked exec parking same =>
        rw [same] at frame
        cases parking with
        | returns =>
          exact ret_leaves inv exec happened registered
        | _ => cases frame
      | woken _ same => exact still (by rwa [same] at frame)
      | dispatched _ _ same => exact still (by rwa [same] at frame)
      | made _ _ entry => cases frame.symm.trans entry
    · cases frame.symm.trans entry

/-- Only `sherry_msg_free` frees a message. -/
theorem Outcome.message_count (outcome : Outcome s e t) (m : MsgRef) :
    t.freed.count (.msg m) = s.freed.count (.msg m) + if e.frees = some m then 1 else 0 := by
  have same : e.frees = none → t.freed.count (.msg m) = s.freed.count (.msg m) →
      t.freed.count (.msg m) = s.freed.count (.msg m) + if e.frees = some m then 1 else 0 := by
    intro other same
    rw [same, other, if_neg nofun, Nat.add_zero]
  have buffers : ∀ base : Option BufRef, (base.toList.map Ptr.buf).count (.msg m) = 0 := by
    intro base
    cases base <;> simp
  cases outcome with
  | spawns => exact same rfl (by rw [sherrySpawn_eq])
  | sends => exact same rfl (by unfold revoke; split <;> rfl)
  | @frees _ n =>
    by_cases here : n = m <;>
      simp [sherryMsgFree, State.srfree, Event.frees, List.count_append, here]
  | receives _ enters =>
    rcases enters with ⟨rfl, _⟩ | ⟨_, rfl, _⟩ <;> exact same rfl rfl
  | accepts _ enters => rcases enters with ⟨rfl, _⟩ | ⟨rfl, _⟩ <;> exact same rfl rfl
  | blocksAccept _ enters => rcases enters with ⟨rfl, _⟩ | ⟨rfl, _⟩ <;> exact same rfl rfl
  | readError _ enters =>
    rcases enters with ⟨rfl, _, rfl⟩ | ⟨_, rfl, _, rfl⟩ <;> exact same rfl rfl
  | readBytes _ enters =>
    rcases enters with ⟨rfl, _, rfl⟩ | ⟨_, rfl, _, rfl⟩ <;> exact same rfl rfl
  | blocksRead _ enters =>
    rcases enters with ⟨rfl, _, rfl⟩ | ⟨_, rfl, _, rfl⟩ <;> exact same rfl rfl
  | lingers _ enters => rcases enters with ⟨rfl, _⟩ | ⟨_, rfl, _⟩ <;> exact same rfl rfl
  | ends _ enters =>
    rcases enters with ⟨rfl, _⟩ | ⟨_, rfl, _⟩ <;> exact same rfl (by simp [ended])
  | fails => exact same rfl (by simp only [failRead]; split <;> simp)
  | delivers => exact same rfl (by simp [wakeAll, receive, buffers])
  | closed => exact same rfl (by simp [released, buffers])
  | _ => exact same rfl rfl

/-- What holds under the contract holds after every step that keeps it. -/
theorem Respected.after (respected : Respected s) (inv : Inv s) (met : Contract s e)
    (happened : step s e = .ok t) : Respected t := by
  have frees : FreesReceived s e := by
    intro m freed
    cases e with
    | msgFree n =>
      cases freed
      exact ⟨met.1, met.2.2⟩
    | _ => cases freed
  have mail := received_step inv ⟨respected.mailed, respected.received⟩ frees happened
  refine ⟨fun live => ?_, freedClosed_step inv respected.closed happened, mail.1, mail.2, ?_⟩
  · exact (respected.guarded (step_live happened)).after inv met happened live
  · intro m
    rw [(step_outcome inv happened).message_count m]
    have before := respected.once m
    split
    · rename_i frees
      cases e with
      | msgFree n =>
        cases frees
        rw [List.count_eq_zero_of_not_mem met.2.1]
      | _ => cases frees
    · exact before

/-- What holds under the contract holds after `sherry_init`. -/
theorem respected_sherryInit : Respected (sherryInit : State Seqs φ) := by
  have none_freed : (sherryInit : State Seqs φ).freed = [] := by
    rw [sherryInit_eq]
  have user : ∀ a, ((sherryInit : State Seqs φ).actor a).frame = .user := by
    intro a
    rw [sherryInit_eq]
    by_cases main : a = 0 <;> simp [main]
  refine ⟨fun _ => ⟨.inr ⟨0, ?_⟩, ?_, ?_⟩, ?_, mailed_sherryInit, ?_, ?_⟩
  · rw [sherryInit_eq]
    rfl
  · intro a fd member
    rw [user a] at member
    cases member
  · intro a frame
    cases (user a).symm.trans frame
  · intro fd gone
    rw [none_freed] at gone
    cases gone
  · intro m gone
    rw [none_freed] at gone
    cases gone
  · intro m
    rw [none_freed]
    exact Nat.zero_le 1

/-- An actor resumed inside a call goes on in it. -/
theorem Guarded.resumes (guarded : Guarded s) (inv : Inv s) (closed : FreedClosed s)
    (exec : s.executing = some self) (inside : (s.actor self).frame ≠ .user) (err : Int) :
    ∃ t, resume s self err = .ok t := by
  have live : ∀ fd ∈ (s.actor self).frame.uses, s.liveFd fd = true := fun fd member =>
    (guarded.uses self fd member).2.live closed
  simp only [resume_ok]
  split <;> rename_i frame
  · exact absurd frame inside
  · exact ⟨_, rfl⟩
  · exact ⟨_, rfl⟩
  · rename_i server client
    rw [frame] at live
    have both : s.liveFd server ∧ s.liveFd client :=
      ⟨live server List.mem_cons_self, live client (List.mem_cons_of_mem _ List.mem_cons_self)⟩
    exact ⟨_, both, rfl⟩
  · rename_i fd count
    rw [frame] at live
    exact ⟨_, live fd List.mem_cons_self, rfl⟩
  · exact ⟨_, rfl⟩
  · exact ⟨_, rfl⟩
  · exact absurd (inv.placed.executing exec).1 (guarded.departed self frame)

/-- An event that keeps the contract does not fault. -/
theorem Respected.no_fault (respected : Respected s) (inv : Inv s) (met : Contract s e)
    (stops : step s e = .error fault) : fault = .disabled := by
  have closed := respected.closed
  cases e with
  | compute ctx =>
    rcases call_error stops with disabled | ⟨self, _, stops⟩
    · exact disabled
    · split at stops <;> cases stops
      rfl
  | send dst msgtype payload =>
    rcases call_error stops with disabled | ⟨self, _, stops⟩
    · exact disabled
    · obtain ⟨a, _, held, rfl⟩ := met
      obtain ⟨i, found, id, _⟩ := inv.registry.at_id held
      have inside : i < s.actors.length := (List.getElem?_eq_some_iff.mp found).1
      have slot : s.slot (s.actor a).aid.toNat = some a := by
        rw [id, Int.toNat_natCast]
        exact Registry.slot_iff.mpr found
      have sends : sherryMsgSend s self (s.actor a).aid msgtype payload = .ok _ :=
        sherryMsgSend_ok.mpr ⟨by omega, by omega, a, slot, rfl⟩
      cases stops.symm.trans sends
  | listen fd ret =>
    rcases call_error stops with disabled | ⟨self, _, stops⟩
    · exact disabled
    · have live : fd.all s.liveFd = true := by
        cases fd with
        | none => rfl
        | some f => exact (met f rfl).live closed
      rw [if_pos live] at stops
      cases stops
  | accept server client err =>
    rcases fdCall_error (met.1.live closed) stops with disabled | ⟨self, _, stops⟩
    · exact disabled
    · rw [if_pos (met.2.live closed)] at stops
      cases stops
  | read fd count err =>
    rcases fdCall_error (met.live closed) stops with disabled | ⟨self, _, stops⟩
    · exact disabled
    · cases stops
  | write fd count ret =>
    rcases fdCall_error (met.live closed) stops with disabled | ⟨self, _, stops⟩
    · exact disabled
    · cases stops
  | close fd =>
    rcases fdCall_error (met.1.live closed) stops with disabled | ⟨self, _, stops⟩
    · exact disabled
    · unfold sherryFdClose at stops
      rw [met.1.2] at stops
      cases stops
  | ret =>
    rcases call_error stops with disabled | ⟨self, _, stops⟩
    · exact disabled
    · split at stops <;> cases stops
      rfl
  | exit =>
    rcases call_error stops with disabled | ⟨self, _, stops⟩
    · exact disabled
    · split at stops <;> cases stops
      rfl
  | resume err =>
    simp only [step] at stops
    split at stops
    · exact (Except.error.inj stops).symm
    · rename_i live
      split at stops
      · rename_i self exec
        by_cases user : (s.actor self).frame = .user
        · unfold resume at stops
          rw [user] at stops
          exact (Except.error.inj stops).symm
        · have guarded := respected.guarded (Bool.eq_false_iff.mpr live)
          obtain ⟨t, resumed⟩ := guarded.resumes inv closed exec user err
          cases stops.symm.trans resumed
      · exact (Except.error.inj stops).symm
  | writeCb req status =>
    rcases onLoop_error stops with disabled | ⟨_, _, stops⟩
    · exact disabled
    · obtain rfl : status = 0 := met
      cases stops.symm.trans (writeCb_ok.mpr ⟨rfl, rfl⟩)
  | spawn | yield | recv | msgFree | fdTcp => exact call_disabled stops
  | schdule | uvReturn | listenCb | readCb | closeCb => exact onLoop_disabled stops

/-- Nothing is enabled once `sherry_exit` has returned. -/
theorem exited_disabled (ended : s.exited = true) (stops : step s e = .error fault) :
    fault = .disabled := by
  have idle : s.inUser = none := by simp [State.inUser, ended]
  have off : ∀ inUvRun, s.onScheduler inUvRun = false := by simp [State.onScheduler, ended]
  cases e <;> simp [step, call, fdCall, onLoop, idle, off, ended] at stops <;> exact stops.symm

/-- While the contract is kept, somebody can go on, and keeps it. -/
theorem Respected.goes_on (respected : Respected s) (inv : Inv s) (live : s.exited = false) :
    ∃ e t, Contract s e ∧ step s e = .ok t := by
  have guarded := respected.guarded live
  rcases guarded.control with owner | ⟨self, exec⟩
  · cases inside : s.polling with
    | false =>
      exact ⟨.schdule, _, trivial,
        onLoop_ok.mpr ⟨onScheduler_iff.mpr ⟨live, owner, inside⟩, trivial, rfl⟩⟩
    | true =>
      exact ⟨.uvReturn, _, trivial,
        onLoop_ok.mpr ⟨onScheduler_iff.mpr ⟨live, owner, inside⟩, trivial, rfl⟩⟩
  · by_cases user : (s.actor self).frame = .user
    · exact ⟨.yield, _, trivial, call_ok.mpr ⟨self, inUser_iff.mpr ⟨live, exec, user⟩, rfl⟩⟩
    · obtain ⟨t, resumed⟩ := guarded.resumes inv respected.closed exec user 0
      exact ⟨.resume 0, t, trivial, resume_step.mpr ⟨live, self, exec, resumed⟩⟩

/-- What holds under the contract holds in every state of a run that keeps it. -/
theorem run_respected {es : List (Event φ)}
    (met : Machine.Along step Contract (sherryInit : State Seqs φ) es)
    (ran : Machine.run step (sherryInit : State Seqs φ) es = .ok s) : Respected s :=
  run_along respected_sherryInit (fun inv respected met => respected.after inv met) met ran

/-- Actor 1 receives a message from main, reads from a connection and writes to it, closes it and
tells main. -/
def contractRun : List (Event Unit) :=
  connected ++ [.spawn (), .send 1 100 none, .recv, .schdule, .resume 0, .recv, .msgFree 0,
    .read 1 5 0, .schdule, .readCb 1 2 [65, 66] true, .uvReturn, .schdule, .resume 0,
    .write 1 2 0, .schdule, .writeCb ⟨1, 1⟩ 0, .uvReturn, .schdule, .resume 0, .close 1,
    .send 0 7 none, .ret, .schdule, .resume 0, .msgFree 1]

end Sherry
