import Sherry.Verif.Outcomes

/-!
# What one event does to one actor, and to the ready queue

An event leaves an actor alone, moves it on in its own code, suspends it, wakes it, gives it
the processor or makes it. The ready queue loses its head to `schdule` and otherwise only
grows at its tail. Both facts are read off the outcomes once.
-/

namespace Sherry

variable {φ : Type} {s t : State Seqs φ} {self a b : ActorRef} {e : Event φ}

/-- Why, with which status and in which call the executing actor suspends itself. -/
inductive Parking (s : State Seqs φ) : Event φ → ActorRef → Status → Frame → Prop
  | yields {self : ActorRef} : Parking s .yield self .ready .user
  | lingers {e : Event φ} {self : ActorRef} (enters : InExit s e self) :
      Parking s e self .ready .exit
  | awaits {self : ActorRef} (empty : s.mail.seq self = []) :
      Parking s .recv self .waitMsg (.recv self)
  | reads {e : Event φ} {self : ActorRef} {fd : FdRef} {count : Nat} {at_loop : State Seqs φ}
      (enters : InRead s e self fd count at_loop) (sound : (s.fd fd).rerror = 0) :
      Parking s e self .waitEv (.read fd count)
  | accepts {e : Event φ} {self : ActorRef} {server client : FdRef} {err : Int}
      (enters : InAccept s e self server client err) :
      Parking s e self .waitEv (.accept server client)
  | writes {self : ActorRef} {fd : FdRef} {count : Nat} {ret : Int} :
      Parking s (.write fd count ret) self .waitEv (.write fd count)
  | returns {self : ActorRef} : Parking s .ret self .running .returned

/-- Why a blocked actor becomes ready. -/
inductive Waking (s : State Seqs φ) : Event φ → ActorRef → Prop
  | sent {dst msgtype : Int} {payload : Sds} {a : ActorRef}
      (slot : s.slot dst.toNat = some a) (waiting : (s.actor a).status = .waitMsg) :
      Waking s (.send dst msgtype payload) a
  | connected {fd : FdRef} {status : Int} {a : ActorRef}
      (member : a ∈ s.waits.seq (.waitq fd .read)) : Waking s (.listenCb fd status) a
  | delivered {fd : FdRef} {nread : Int} {content : List UInt8} {allocated : Bool}
      {a : ActorRef} (some_read : 0 < nread) (member : a ∈ s.waits.seq (.waitq fd .read)) :
      Waking s (.readCb fd nread content allocated) a
  | written {req : UvWrite} {a : ActorRef} (pending : req ∈ s.writes) (data : req.data = a) :
      Waking s (.writeCb req 0) a

/-- What an event does to one actor. -/
inductive ActorChange (s t : State Seqs φ) (e : Event φ) (a : ActorRef) : Prop
  | kept (same : t.actor a = s.actor a)
  | proceeds (exec : s.executing = some a) (same : t.actor a = { s.actor a with frame := .user })
  | parked {status : Status} {frame : Frame} (exec : s.executing = some a)
      (parking : Parking s e a status frame)
      (same : t.actor a = { s.actor a with status, frame, ctx := s.cpu })
  | woken (waking : Waking s e a) (same : t.actor a = { s.actor a with status := .ready })
  | dispatched (schdule : e = .schdule) (first : (s.waits.seq .readyq).head? = some a)
      (same : t.actor a = { s.actor a with status := .running })
  | made (fresh : a = s.nactors) (ready : (t.actor a).status = .ready)
      (entry : (t.actor a).frame = .entry)

/-- Only the executing actor changes when it suspends itself. -/
theorem park_change {status : Status} {list : Option WaitRef} {frame : Frame}
    (exec : s.executing = some self) (parking : Parking s e self status frame)
    {base : State Seqs φ} (actor : base.actor = s.actor) (cpu : base.cpu = s.cpu)
    (a : ActorRef) : ActorChange s (park base self status list frame) e a := by
  by_cases same : a = self
  · subst same
    exact .parked exec parking (by simp [park, actor, cpu])
  · exact .kept (by simp [park, actor, same])

/-- Only the executing actor changes when it goes on in its own code. -/
theorem proceed_change (exec : s.executing = some self)
    (actor : t.actor = Function.update s.actor self { s.actor self with frame := .user })
    (a : ActorRef) : ActorChange s t e a := by
  by_cases same : a = self
  · subst same
    exact .proceeds exec (by simp [actor])
  · exact .kept (by simp [actor, same])

/-- An event changes every actor in one of six ways. -/
theorem Outcome.actor_change (outcome : Outcome s e t) (a : ActorRef) : ActorChange s t e a := by
  cases outcome with
  | computes => exact .kept rfl
  | spawns =>
    rw [sherrySpawn_eq]
    by_cases same : a = s.nactors
    · exact .made same (by simp [same]) (by simp [same])
    · exact .kept (by simp [same])
  | yields user => exact park_change (inUser_iff.mp user).2.1 .yields rfl rfl a
  | @sends self recver dst msgtype payload user inside slot =>
    unfold revoke
    split
    · rename_i waiting
      by_cases same : a = recver
      · subst same
        exact .woken (.sent slot waiting) (by simp [wake, deliver])
      · exact .kept (by simp [wake, deliver, same])
    · exact .kept rfl
  | awaits user empty => exact park_change (inUser_iff.mp user).2.1 (.awaits empty) rfl rfl a
  | receives exec => exact proceed_change exec rfl a
  | frees => exact .kept rfl
  | opens => exact .kept rfl
  | opensNone => exact .kept rfl
  | listens => exact .kept rfl
  | listensNot => exact .kept rfl
  | accepts exec => exact proceed_change exec rfl a
  | blocksAccept exec enters => exact park_change exec (.accepts enters) rfl rfl a
  | refused => exact .kept rfl
  | readError exec enters =>
    rcases enters with ⟨_, _, rfl⟩ | ⟨_, _, _, rfl⟩ <;> exact proceed_change exec rfl a
  | readBytes exec enters =>
    rcases enters with ⟨_, _, rfl⟩ | ⟨_, _, _, rfl⟩ <;> exact proceed_change exec rfl a
  | blocksRead exec enters live sound =>
    have parking := Parking.reads enters sound
    rcases enters with ⟨_, _, rfl⟩ | ⟨_, _, _, rfl⟩ <;>
      exact park_change exec parking (by rfl) (by rfl) a
  | submits user => exact park_change (inUser_iff.mp user).2.1 .writes (by rfl) (by rfl) a
  | closes => exact .kept rfl
  | returns user => exact park_change (inUser_iff.mp user).2.1 .returns (by rfl) (by rfl) a
  | lingers exec enters => exact park_change exec (.lingers enters) rfl rfl a
  | ends => exact .kept rfl
  | begins exec => exact proceed_change exec rfl a
  | wrote exec => exact proceed_change exec rfl a
  | @dispatches next rest owner outside first =>
    by_cases same : a = next
    · subst same
      exact .dispatched rfl (by simp [first]) (by simp [dispatch])
    · exact .kept (by simp [dispatch, same])
  | polls => exact .kept rfl
  | polled => exact .kept rfl
  | @connects fd status owner inside live =>
    by_cases member : a ∈ s.waits.seq (.waitq fd .read)
    · exact .woken (.connected member) (by simp [wakeAll, member])
    · exact .kept (by simp [wakeAll, member])
  | fails => exact .kept rfl
  | @delivers fd nread content allocated owner inside live some_read fits =>
    by_cases member : a ∈ s.waits.seq (.waitq fd .read)
    · exact .woken (.delivered some_read member) (by simp [wakeAll, receive, member])
    · exact .kept (by simp [wakeAll, receive, member])
  | @writes req owner inside pending =>
    by_cases same : a = req.data
    · subst same
      exact .woken (.written pending rfl) (by simp [wake, State.emit])
    · exact .kept (by simp [wake, State.emit, same])
  | closed => exact .kept rfl

/-- An actor that waits for an event after a step has not changed, or has just suspended itself. -/
theorem ActorChange.blocked (change : ActorChange s t e a) (inv : Inv s)
    (status : (t.actor a).status = .waitEv) :
    t.actor a = s.actor a ∨
      s.executing = some a ∧ Parking s e a .waitEv (t.actor a).frame := by
  cases change with
  | kept same => exact .inl same
  | proceeds exec same =>
    rw [same] at status
    cases (inv.placed.executing exec).2.1.symm.trans status
  | parked exec parking same =>
    rw [same] at status ⊢
    exact .inr ⟨exec, status ▸ parking⟩
  | woken _ same =>
    rw [same] at status
    cases status
  | dispatched _ _ same =>
    rw [same] at status
    cases status
  | made _ ready => cases ready.symm.trans status

/-- A registered actor that does not execute stays as it is, becomes ready or gets the
processor. -/
theorem ActorChange.passive (change : ActorChange s t e a) (inv : Inv s)
    (registered : Registered s a) (idle : s.executing ≠ some a) :
    t.actor a = s.actor a ∨
      (Waking s e a ∧ t.actor a = { s.actor a with status := .ready }) ∨
      (e = .schdule ∧ (s.waits.seq .readyq).head? = some a ∧
        t.actor a = { s.actor a with status := .running }) := by
  cases change with
  | kept same => exact .inl same
  | proceeds exec => exact absurd exec idle
  | parked exec => exact absurd exec idle
  | woken waking same => exact .inr (.inl ⟨waking, same⟩)
  | dispatched event first same => exact .inr (.inr ⟨event, first, same⟩)
  | made fresh => exact absurd fresh (Nat.ne_of_lt (inv.registry.allocated registered))

/-- `sherry_exit` returns to its caller, when no actor other than main is registered. -/
theorem Outcome.exits (outcome : Outcome s e t) (live : s.exited = false)
    (exited : t.exited = true) : ∃ self, s.executing = some self ∧ ¬s.curractors > 1 := by
  have goes_on : t.exited = s.exited → ∃ self, s.executing = some self ∧ ¬s.curractors > 1 := by
    intro same
    rw [same, live] at exited
    cases exited
  cases outcome with
  | spawns =>
    rw [sherrySpawn_eq] at goes_on
    exact goes_on rfl
  | sends =>
    unfold revoke at goes_on
    split at goes_on <;> exact goes_on rfl
  | readError _ enters => rcases enters with ⟨_, _, rfl⟩ | ⟨_, _, _, rfl⟩ <;> exact goes_on rfl
  | readBytes _ enters => rcases enters with ⟨_, _, rfl⟩ | ⟨_, _, _, rfl⟩ <;> exact goes_on rfl
  | blocksRead _ enters => rcases enters with ⟨_, _, rfl⟩ | ⟨_, _, _, rfl⟩ <;> exact goes_on rfl
  | ends exec _ alone => exact ⟨_, exec, alone⟩
  | _ => exact goes_on rfl

/-- `sherry_exit` does not return while an actor other than main is registered. -/
theorem Outcome.exited_kept (outcome : Outcome s e t) (shared : s.curractors > 1)
    (live : s.exited = false) : t.exited = false := by
  rw [Bool.eq_false_iff]
  intro exited
  obtain ⟨_, _, alone⟩ := outcome.exits live exited
  exact alone shared

/-- An event may free this: `close_cb` a closing descriptor, `sherry_msg_free` a message, and
nothing an actor. -/
def Frees (s : State Seqs φ) (e : Event φ) : Ptr → Prop
  | .fd fd => s.liveFd fd = true ∧ (s.fd fd).handle.closing = true
  | .msg m => e = .msgFree m
  | .actor _ => False
  | _ => True

/-- What is freed after an event was freed before or is freed by it. -/
theorem Outcome.freed (outcome : Outcome s e t) {p : Ptr} (gone : p ∈ t.freed) :
    p ∈ s.freed ∨ Frees s e p := by
  have same : t.freed = s.freed → p ∈ s.freed ∨ Frees s e p := fun same => .inl (same ▸ gone)
  cases outcome with
  | spawns => exact same (by rw [sherrySpawn_eq])
  | sends =>
    unfold revoke at same
    split at same <;> exact same rfl
  | @frees _ m =>
    have parts : p ∈ s.freed ∨ p = .payload (s.msg m).payload ∨ p = .msg m := by
      simpa [sherryMsgFree, State.srfree] using gone
    rcases parts with before | rfl | rfl
    · exact .inl before
    · exact .inr trivial
    · exact .inr rfl
  | readError _ enters => rcases enters with ⟨_, _, rfl⟩ | ⟨_, _, _, rfl⟩ <;> exact same rfl
  | readBytes _ enters => rcases enters with ⟨_, _, rfl⟩ | ⟨_, _, _, rfl⟩ <;> exact same rfl
  | blocksRead _ enters => rcases enters with ⟨_, _, rfl⟩ | ⟨_, _, _, rfl⟩ <;> exact same rfl
  | ends =>
    rcases List.mem_append.mp gone with before | last
    · exact .inl before
    · have heap : p = .actors ∨ p = .tmpstack ∨ p = .scheduler := by simpa using last
      rcases heap with rfl | rfl | rfl <;> exact .inr trivial
  | @fails _ _ _ allocated =>
    rcases List.mem_append.mp gone with before | last
    · exact .inl before
    · cases allocated with
      | false => cases last
      | true =>
        rw [List.mem_singleton.mp last]
        exact .inr trivial
  | @delivers fd =>
    rcases List.mem_append.mp gone with before | last
    · exact .inl before
    · obtain ⟨b, _, rfl⟩ := List.mem_map.mp last
      exact .inr trivial
  | @closed fd _ _ live closing =>
    rcases List.mem_append.mp gone with before | last
    · exact .inl before
    · rcases List.mem_append.mp last with buffer | last
      · obtain ⟨b, _, rfl⟩ := List.mem_map.mp buffer
        exact .inr trivial
      · rw [List.mem_singleton.mp last]
        exact .inr ⟨live, closing⟩
  | _ => exact same rfl

/-- What an event does to the requests that libuv holds. -/
inductive WritesChange (s t : State Seqs φ) (e : Event φ) : Prop
  | kept (same : t.writes = s.writes)
  | submitted {self : ActorRef} {fd : FdRef} {count : Nat} {ret : Int}
      (exec : s.executing = some self) (event : e = .write fd count ret)
      (same : t.writes = s.writes ++ if ret = 0 then [⟨fd, self⟩] else [])
  | completed {req : UvWrite} (event : e = .writeCb req 0) (pending : req ∈ s.writes)
      (same : t.writes = s.writes.erase req) (ready : (t.actor req.data).status = .ready)

/-- An event changes the pending requests in one of three ways. -/
theorem Outcome.writes_change (outcome : Outcome s e t) : WritesChange s t e := by
  cases outcome with
  | spawns => exact .kept (by rw [sherrySpawn_eq])
  | sends =>
    unfold revoke
    split <;> exact .kept rfl
  | readError exec enters =>
    rcases enters with ⟨_, _, rfl⟩ | ⟨_, _, _, rfl⟩ <;> exact .kept rfl
  | readBytes exec enters =>
    rcases enters with ⟨_, _, rfl⟩ | ⟨_, _, _, rfl⟩ <;> exact .kept rfl
  | blocksRead exec enters =>
    rcases enters with ⟨_, _, rfl⟩ | ⟨_, _, _, rfl⟩ <;> exact .kept rfl
  | submits user => exact .submitted (inUser_iff.mp user).2.1 rfl rfl
  | writes owner inside pending => exact .completed rfl pending rfl (by simp [wake, State.emit])
  | _ => exact .kept rfl

/-- `sherry_write` suspends its caller with a request that libuv has if it took it. -/
theorem step_write (inv : Inv s) {fd : FdRef} {count : Nat} {ret : Int}
    (taken : step s (.write fd count ret) = .ok t) :
    ∃ self, s.executing = some self ∧
      t = park { s with
        writes := s.writes ++ (if ret = 0 then [⟨fd, self⟩] else [])
        trace := s.trace ++ [.submitted self fd ret] } self .waitEv none (.write fd count) := by
  obtain ⟨self, user, _, done⟩ := fdCall_ok.mp taken
  cases done
  have exec := (inUser_iff.mp user).2.1
  exact ⟨self, exec, sherryWrite_eq (inv.placed.current self exec).1 fd count ret⟩

/-- What an event does to the ready queue. -/
inductive ReadyChange (s t : State Seqs φ) (e : Event φ) : Prop
  | grows (items : List ActorRef)
      (same : t.waits.seq .readyq = s.waits.seq .readyq ++ items)
      (idle : e = .schdule → s.waits.seq .readyq = [])
  | pops {next : ActorRef} (event : e = .schdule)
      (first : s.waits.seq .readyq = next :: t.waits.seq .readyq)

/-- `unblock_all` of a wait queue appends to the ready queue. -/
theorem wakeAll_readyq {fd : FdRef} {event : Ev} :
    (wakeAll s (.waitq fd event)).waits.seq .readyq =
      s.waits.seq .readyq ++ s.waits.seq (.waitq fd event) := by
  simp [wakeAll]

/-- The ready queue loses its head to `schdule`, or grows at its tail. -/
theorem Outcome.ready_change (outcome : Outcome s e t) : ReadyChange s t e := by
  have same : ∀ {u : State Seqs φ} {e : Event φ}, e ≠ .schdule →
      u.waits.seq .readyq = s.waits.seq .readyq → ReadyChange s u e := by
    intro u e other same
    exact .grows [] (by rw [same, List.append_nil]) fun event => absurd event other
  cases outcome with
  | spawns =>
    refine .grows [s.nactors] ?_ (by simp)
    rw [sherrySpawn_eq]
    simp [enlist]
  | @yields self => exact .grows [self] (by simp [park, enlist]) (by simp)
  | @sends self recver =>
    unfold revoke
    split
    · exact .grows [recver] (by simp [wake, enlist, deliver]) (by simp)
    · exact same (by simp) rfl
  | awaits => exact same (by simp) (by simp [park, enlist])
  | @receives e self exec enters =>
    rcases enters with ⟨rfl, _⟩ | ⟨_, rfl, _⟩ <;> exact same (by simp) rfl
  | accepts exec enters => rcases enters with ⟨rfl, _⟩ | ⟨rfl, _⟩ <;> exact same (by simp) rfl
  | blocksAccept exec enters =>
    rcases enters with ⟨rfl, _⟩ | ⟨rfl, _⟩ <;> exact same (by simp) (by simp [park, enlist])
  | readError exec enters =>
    rcases enters with ⟨rfl, _, rfl⟩ | ⟨_, rfl, _, rfl⟩ <;> exact same (by simp) rfl
  | readBytes exec enters =>
    rcases enters with ⟨rfl, _, rfl⟩ | ⟨_, rfl, _, rfl⟩ <;> exact same (by simp) rfl
  | blocksRead exec enters =>
    rcases enters with ⟨rfl, _, rfl⟩ | ⟨_, rfl, _, rfl⟩ <;>
      exact same (by simp) (by simp [park, enlist, started, State.setFd])
  | @lingers e self exec enters =>
    refine .grows [self] (by simp [park, enlist]) fun event => ?_
    rcases enters with ⟨rfl, _⟩ | ⟨_, rfl, _⟩ <;> cases event
  | ends exec enters => rcases enters with ⟨rfl, _⟩ | ⟨_, rfl, _⟩ <;> exact same (by simp) rfl
  | @dispatches next rest owner outside first =>
    have head : s.waits.seq .readyq = next :: (dispatch s next rest).waits.seq .readyq := by
      simp [first, dispatch]
    exact .pops rfl head
  | polls owner outside idle => exact .grows [] (by simp) fun _ => idle
  | connects => exact .grows _ wakeAll_readyq (by simp)
  | delivers => exact .grows _ wakeAll_readyq (by simp)
  | @writes req => exact .grows [req.data] (by simp [wake, enlist, State.emit]) (by simp)
  | _ => exact same (by simp) rfl

end Sherry
