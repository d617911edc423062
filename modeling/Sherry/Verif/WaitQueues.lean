import Sherry.Verif.Streams

/-!
# Wait queues

Actors wait in the `SHERRY_EV_READ` queue of a descriptor in two calls: in `sherry_read` until
there is something to return, and in `sherry_accept` until there is a connection. They leave the
queue all at once, when `read_cb` is handed data or `listen_cb` runs.
-/

namespace Sherry

variable {φ : Type} {s t : State Seqs φ} {self a : ActorRef} {e : Event φ} {fd : FdRef} {ev : Ev}

/-- The buffer of a descriptor has unread bytes. -/
def Unread (s : State Seqs φ) (fd : FdRef) : Prop :=
  (s.fd fd).rbuf.base.isSome ∧ (s.fd fd).roffset < (s.fd fd).rbuf.len

instance (s : State Seqs φ) (fd : FdRef) : Decidable (Unread s fd) :=
  inferInstanceAs (Decidable (_ ∧ _))

/-- The server and the result of `uv_accept` of the `sherry_accept` whose loop the event runs. -/
def acceptAt (s : State Seqs φ) : Event φ → Option (FdRef × Int)
  | .accept server _ err => some (server, err)
  | .resume err =>
    match s.executing with
    | some self =>
      match (s.actor self).frame with
      | .accept server _ => some (server, err)
      | _ => none
    | none => none
  | _ => none

/-- The descriptor on which the event blocks its actor: `sherry_read` finds no error and no
unread bytes, or `sherry_accept` no connection. -/
def blocksOn (s : State Seqs φ) (e : Event φ) : Option FdRef :=
  match readAt s e, acceptAt s e with
  | some (fd, _), _ => if (s.fd fd).rerror = 0 ∧ ¬Unread s fd then some fd else none
  | none, some (server, err) => if err = uvEagain then some server else none
  | none, none => none

/-- The loop of `sherry_accept` is the one the event runs. -/
theorem InAccept.acceptAt {server client : FdRef} {err : Int} (exec : s.executing = some self)
    (enters : InAccept s e self server client err) :
    readAt s e = none ∧ acceptAt s e = some (server, err) := by
  rcases enters with ⟨rfl, _⟩ | ⟨rfl, frame⟩
  · exact ⟨rfl, rfl⟩
  · simp [readAt, Sherry.acceptAt, exec, frame]

/-- A `sherry_read` that finds nothing blocks on its descriptor. -/
theorem InRead.blocksOn {count : Nat} {at_loop : State Seqs φ} (exec : s.executing = some self)
    (enters : InRead s e self fd count at_loop) (sound : (s.fd fd).rerror = 0)
    (nothing : ¬Unread s fd) : blocksOn s e = some fd := by
  simp [Sherry.blocksOn, enters.readAt exec, sound, nothing]

/-- The event runs the loop of `sherry_accept` once. -/
theorem acceptAt_loop {server : FdRef} {err : Int} (accepts : acceptAt s e = some (server, err))
    (happened : step s e = .ok t) :
    ∃ self client, s.executing = some self ∧ t = sherryAccept s self server client err := by
  cases e with
  | accept f client result =>
    cases accepts
    obtain ⟨self, user, _, done⟩ := fdCall_ok.mp happened
    obtain ⟨_, same⟩ := Machine.ite_ok.mp done
    exact ⟨self, client, (inUser_iff.mp user).2.1, (Except.ok.inj same).symm⟩
  | resume result =>
    obtain ⟨_, self, exec, resumed⟩ := resume_step.mp happened
    simp only [acceptAt, exec] at accepts
    split at accepts <;> cases accepts
    rename_i client frame
    rw [resume_ok, frame] at resumed
    exact ⟨self, client, exec, resumed.2⟩
  | _ => cases accepts

/-- `sherry_accept` touches the lists only when there is no connection. -/
theorem accept_waits {server : FdRef} {err : Int} (accepts : acceptAt s e = some (server, err))
    (happened : step s e = .ok t) : err = uvEagain ∨ t.waits = s.waits := by
  obtain ⟨self, client, _, rfl⟩ := acceptAt_loop accepts happened
  by_cases again : err = uvEagain
  · exact .inl again
  · exact .inr (by simp [sherryAccept, again, State.setFrame, State.setActor, State.emit])

/-- A `sherry_accept` without a connection suspends its actor in the wait queue of the server. -/
theorem accept_parks (inv : Inv s) {server : FdRef}
    (accepts : acceptAt s e = some (server, uvEagain)) (happened : step s e = .ok t) :
    ∃ self client, s.executing = some self ∧
      t = park s self .waitEv (some (.waitq server .read)) (.accept server client) := by
  obtain ⟨self, client, exec, rfl⟩ := acceptAt_loop accepts happened
  refine ⟨self, client, exec, ?_⟩
  rw [← blockFd_eq (inv.placed.current self exec).1]
  rfl

/-- What an event does to one wait queue of a descriptor. -/
inductive WaitqChange (s t : State Seqs φ) (e : Event φ) (fd : FdRef) (ev : Ev) : Prop
  | kept (same : t.waits.seq (.waitq fd ev) = s.waits.seq (.waitq fd ev))
  | grows {self : ActorRef} (exec : s.executing = some self)
      (blocks : blocksOn s e = some fd)
      (same : t.waits.seq (.waitq fd ev) = s.waits.seq (.waitq fd ev) ++ [self])
  | drains (live : s.openFd fd = true) (empty : t.waits.seq (.waitq fd ev) = [])

/-- Suspending the executing actor in a wait queue changes no other. -/
theorem park_waitq {base : State Seqs φ} {status : Status} {frame : Frame} {g : FdRef}
    (waits : base.waits = s.waits) (exec : s.executing = some self)
    (blocks : blocksOn s e = some g) :
    WaitqChange s (park base self status (some (.waitq g .read)) frame) e fd ev := by
  by_cases here : WaitRef.waitq fd ev = .waitq g .read
  · obtain ⟨rfl, rfl⟩ := WaitRef.waitq.inj here
    exact .grows exec blocks (by simp [park, enlist, waits])
  · exact .kept (by simp [park, enlist, waits, here])

/-- Waking everybody in a wait queue changes no other. -/
theorem wakeAll_waitq {base : State Seqs φ} {g : FdRef} (waits : base.waits = s.waits)
    (live : s.openFd g = true) :
    WaitqChange s (wakeAll base (.waitq g .read)) e fd ev := by
  by_cases here : WaitRef.waitq fd ev = .waitq g .read
  · obtain ⟨rfl, rfl⟩ := WaitRef.waitq.inj here
    exact .drains live (by simp [wakeAll])
  · exact .kept (by simp [wakeAll, waits, here])

/-- An event leaves a wait queue alone, lets the executing actor block in it, or wakes everybody
in it, the last only on an open descriptor. -/
theorem waitq_step (inv : Inv s) (happened : step s e = .ok t) : WaitqChange s t e fd ev := by
  cases step_outcome inv happened with
  | spawns => exact .kept (by simp [sherrySpawn_eq, enlist])
  | yields => exact .kept (by simp [park, enlist])
  | sends =>
    unfold revoke
    split
    · exact .kept (by simp [wake, enlist, deliver])
    · exact .kept rfl
  | awaits => exact .kept (by simp [park, enlist])
  | blocksAccept exec enters =>
    obtain ⟨other, accepts⟩ := enters.acceptAt exec
    rcases accept_waits accepts happened with rfl | same
    · exact park_waitq rfl exec (by simp [blocksOn, other, accepts])
    · exact .kept (by rw [same])
  | readError _ enters => rcases enters with ⟨_, _, rfl⟩ | ⟨_, _, _, rfl⟩ <;> exact .kept rfl
  | readBytes _ enters => rcases enters with ⟨_, _, rfl⟩ | ⟨_, _, _, rfl⟩ <;> exact .kept rfl
  | blocksRead exec enters _ sound nothing =>
    have blocks := enters.blocksOn exec sound nothing
    rcases enters with ⟨_, _, rfl⟩ | ⟨_, _, _, rfl⟩ <;> exact park_waitq (by rfl) exec blocks
  | lingers => exact .kept (by simp [park, enlist])
  | dispatches => exact .kept (by simp [dispatch])
  | connects _ _ live => exact wakeAll_waitq rfl live
  | delivers _ _ live => exact wakeAll_waitq rfl live
  | writes => exact .kept (by simp [wake, enlist, State.emit])
  | _ => exact .kept rfl

end Sherry
