import Sherry.Verif.Closing

/-!
# Waiters and what they wait for

libuv keeps which servers have a connection that nobody has accepted. It makes one pending only
in `uv_run`, immediately before `listen_cb`, and `uv_accept` fails with `UV_EAGAIN` exactly when
there is none. Both callbacks wake everybody in the wait queue, and a call blocks only after it
has looked; so nobody is blocked in `sherry_accept` while a connection is pending, and nobody in
`sherry_read` while bytes are unread. An actor that waits for the other thing on the same
descriptor may well be there.
-/

namespace Sherry

variable {φ : Type} {s t : State Seqs φ} {a : ActorRef} {e : Event φ} {fd : FdRef}

/-- The system, and the servers with a pending connection. -/
structure World (φ : Type) where
  /-- The system. -/
  state : State Seqs φ
  /-- The servers with a pending connection. -/
  pending : List FdRef

/-- The server whose `listen_cb` libuv calls. -/
def Event.connects : Event φ → Option FdRef
  | .listenCb fd _ => some fd
  | _ => none

/-- What libuv promises of an event and of the servers with a pending connection after it: a
connection becomes pending immediately before `listen_cb`, and `uv_accept` finds none exactly
when none is pending. -/
def Served (w : World φ) (e : Event φ) (pending : List FdRef) : Prop :=
  (∀ fd ∈ pending, fd ∈ w.pending ∨ e.connects = some fd) ∧
    ∀ call ∈ acceptAt w.state e, call.2 = uvEagain ↔ call.1 ∉ w.pending

instance (w : World φ) (e : Event φ) (pending : List FdRef) : Decidable (Served w e pending) :=
  inferInstanceAs (Decidable ((∀ fd ∈ pending, _) ∧ ∀ call ∈ acceptAt w.state e, _))

/-- One event, after which libuv has the given servers with a pending connection. -/
def worldStep (w : World φ) (next : Event φ × List FdRef) : Except Fault (World φ) :=
  if Served w next.1 next.2 then
    match step w.state next.1 with
    | .ok state => .ok { state, pending := next.2 }
    | .error fault => .error fault
  else .error .disabled

/-- The system at the call of `sherry_init`, without connections. -/
def worldInit : World φ := { state := sherryInit, pending := [] }

/-- An event that libuv allows is an event of the system. -/
theorem worldStep_ok {w w' : World φ} {next : Event φ × List FdRef} :
    worldStep w next = .ok w' ↔
      Served w next.1 next.2 ∧ step w.state next.1 = .ok w'.state ∧ w'.pending = next.2 := by
  unfold worldStep
  rw [Machine.ite_ok]
  refine and_congr_right fun _ => ?_
  cases step w.state next.1 with
  | error fault => simp
  | ok state =>
    obtain ⟨state', pending'⟩ := w'
    simp [eq_comm]

/-- The suspended call is the loop of `sherry_accept`. -/
def Frame.isAccept : Frame → Bool
  | .accept _ _ => true
  | _ => false

/-- The actors blocked in `sherry_accept` on a server, in the order of its wait queue. -/
def acceptors (s : State Seqs φ) (fd : FdRef) : List ActorRef :=
  (s.waits.seq (.waitq fd .read)).filter fun a => (s.actor a).frame.isAccept

/-- A blocked acceptor waits for an event, in `sherry_accept` on the server. -/
theorem mem_acceptors (inv : Inv s) :
    a ∈ acceptors s fd ↔
      (s.actor a).status = .waitEv ∧ ∃ client, (s.actor a).frame = .accept fd client := by
  unfold acceptors
  rw [List.mem_filter, inv.placed.mem_waitq]
  constructor
  · rintro ⟨⟨_, status, ⟨_, frame⟩ | frame⟩, accepts⟩
    · rw [frame] at accepts
      cases accepts
    · exact ⟨status, frame⟩
  · rintro ⟨status, client, frame⟩
    exact ⟨⟨rfl, status, .inr ⟨client, frame⟩⟩, by rw [frame]; rfl⟩

/-- An acceptor blocked after a step was blocked before it, or just found no connection. -/
theorem acceptor_step (inv : Inv s) (happened : step s e = .ok t) {client : FdRef}
    (status : (t.actor a).status = .waitEv) (frame : (t.actor a).frame = .accept fd client) :
    ((s.actor a).status = .waitEv ∧ (s.actor a).frame = .accept fd client) ∨
      s.executing = some a ∧ ∃ err, InAccept s e a fd client err := by
  rcases ((step_outcome inv happened).actor_change a).blocked inv status with same | ⟨exec, parking⟩
  · exact .inl ⟨same ▸ status, same ▸ frame⟩
  · rw [frame] at parking
    cases parking with
    | accepts enters => exact .inr ⟨exec, _, enters⟩

/-- An actor that has just entered a wait queue blocked in it. -/
theorem entered_blocks (inv : Inv s) (happened : step s e = .ok t) (exec : s.executing = some a)
    (member : a ∈ t.waits.seq (.waitq fd .read)) : blocksOn s e = some fd := by
  have absent := (inv.placed.executing exec).2.2 (.waitq fd .read)
  have change : WaitqChange s t e fd .read := waitq_step inv happened
  cases change with
  | kept same => exact absurd (same ▸ member) absent
  | grows _ blocks => exact blocks
  | drains _ empty =>
    rw [empty] at member
    cases member

/-- `listen_cb` and a delivery leave the wait queue empty. -/
theorem callback_drains (inv : Inv s) (happened : step s e = .ok t)
    (called : e.connects = some fd ∨ ∃ result ∈ e.readResult, result.1 = fd ∧ 0 < result.2) :
    t.waits.seq (.waitq fd .read) = [] := by
  rcases called with called | ⟨⟨g, nread⟩, called, rfl, some_read⟩
  · cases e with
    | listenCb g status =>
      cases called
      obtain ⟨_, _, done⟩ := onLoop_ok.mp happened
      cases done
      rw [listenCb, inv.unblockAll_eq (by simp)]
      simp [wakeAll]
    | _ => cases called
  · cases e with
    | readCb f n content allocated =>
      cases called
      rw [step_delivers inv some_read happened]
      simp [wakeAll]
    | _ => cases called

/-- No actor is blocked in `sherry_accept` on a server with a pending connection, and none in
`sherry_read` on a descriptor with unread bytes. -/
structure NoneMissed (w : World φ) : Prop where
  /-- A pending connection has no acceptor waiting. -/
  accepts : ∀ fd ∈ w.pending, acceptors w.state fd = []
  /-- Unread bytes have no reader waiting. -/
  reads : ∀ fd, Unread w.state fd → readers w.state fd = []

/-- A step that libuv allows leaves nobody blocked in `sherry_accept` on a pending connection. -/
theorem accepts_step {w w' : World φ} {next : Event φ × List FdRef} (inv : Inv w.state)
    (missed : NoneMissed w) (happened : worldStep w next = .ok w') (after : Inv w'.state) :
    ∀ fd ∈ w'.pending, acceptors w'.state fd = [] := by
  obtain ⟨⟨connects, answers⟩, taken, pending⟩ := worldStep_ok.mp happened
  intro fd member
  apply List.eq_nil_iff_forall_not_mem.mpr
  intro a waits
  obtain ⟨status, client, frame⟩ := (mem_acceptors after).mp waits
  have queued : a ∈ w'.state.waits.seq (.waitq fd .read) := (List.mem_filter.mp waits).1
  rcases connects fd (pending ▸ member) with before | called
  · rcases acceptor_step inv taken status frame with old | ⟨exec, err, enters⟩
    · have waited : a ∈ acceptors w.state fd := (mem_acceptors inv).mpr ⟨old.1, client, old.2⟩
      rw [missed.accepts fd before] at waited
      cases waited
    · obtain ⟨other, accepts⟩ := enters.acceptAt exec
      have blocks := entered_blocks inv taken exec queued
      have again : err = uvEagain := by
        by_contra done
        simp [blocksOn, other, accepts, done] at blocks
      exact (answers _ accepts).mp again before
  · rw [callback_drains inv taken (.inl called)] at queued
    cases queued

/-- A step leaves nobody blocked in `sherry_read` on unread bytes. -/
theorem reads_step (inv : Inv s) (buffered : Buffered s)
    (missed : ∀ fd, Unread s fd → readers s fd = []) (happened : step s e = .ok t)
    (after : Inv t) : ∀ fd, Unread t fd → readers t fd = [] := by
  intro fd unread
  apply List.eq_nil_iff_forall_not_mem.mpr
  intro a waits
  obtain ⟨status, count, frame⟩ := (mem_readers after).mp waits
  have queued : a ∈ t.waits.seq (.waitq fd .read) := (List.mem_filter.mp waits).1
  -- Bytes that were unread before had no reader waiting, and let none block.
  have still : ¬Unread s fd := by
    intro before
    have change := (step_outcome inv happened).actor_change a
    rcases change.blocked inv status with same | ⟨exec, parking⟩
    · have waited : a ∈ readers s fd :=
        (mem_readers inv).mpr ⟨same ▸ status, count, same ▸ frame⟩
      rw [missed fd before] at waited
      cases waited
    · have blocks := entered_blocks inv happened exec queued
      rw [frame] at parking
      cases parking with
      | reads enters sound => simp [blocksOn, enters.readAt exec, before] at blocks
  have buffered' := buffered_step inv buffered happened
  rw [buffered'.unread_iff] at unread
  apply still
  rw [buffered.unread_iff]
  cases (step_outcome inv happened).fd_change buffered fd with
  | kept rbuf roffset => rwa [← rbuf, ← roffset]
  | failed _ _ _ rbuf roffset => rwa [← rbuf, ← roffset]
  | @delivered nread _ _ event _ some_read =>
    have result : (fd, nread) ∈ e.readResult := by rw [event]; rfl
    rw [callback_drains inv happened (.inr ⟨_, result, rfl, some_read⟩)] at queued
    cases queued
  | took _ _ _ _ rbuf roffset =>
    rw [rbuf, roffset] at unread
    omega

/-- A run that libuv allows is a run of the system. -/
theorem world_run {w w' : World φ} {es : List (Event φ × List FdRef)}
    (ran : Machine.run worldStep w es = .ok w') :
    Machine.run step w.state (es.map Prod.fst) = .ok w'.state :=
  Machine.run_project (fun happened => (worldStep_ok.mp happened).2.1) ran

/-- In every state of a run nobody is blocked while what he waits for is there. -/
theorem world_missed {w : World φ} {es : List (Event φ × List FdRef)}
    (ran : Machine.run worldStep worldInit es = .ok w) (live : w.state.exited = false) :
    NoneMissed w := by
  have kept : ∀ {w : World φ} {next : Event φ × List FdRef} {w' : World φ},
      Sound w.state ∧ Buffered w.state ∧ (w.state.exited = false → NoneMissed w) →
        worldStep w next = .ok w' →
      Sound w'.state ∧ Buffered w'.state ∧ (w'.state.exited = false → NoneMissed w') := by
    rintro w next w' ⟨sound, buffered, missed⟩ happened
    obtain ⟨_, taken, _⟩ := worldStep_ok.mp happened
    obtain ⟨inv, _, after⟩ := step_sound sound taken
    have before := missed (step_live taken)
    refine ⟨after, buffered_step inv buffered taken, fun live => ⟨?_, ?_⟩⟩
    · exact accepts_step inv before happened (after live)
    · exact reads_step inv buffered before.reads taken (after live)
  have start : Sound (worldInit : World φ).state ∧ Buffered (worldInit : World φ).state ∧
      ((worldInit : World φ).state.exited = false → NoneMissed (worldInit : World φ)) := by
    refine ⟨fun _ => inv_sherryInit, buffered_sherryInit, fun _ => ⟨nofun, fun fd _ => ?_⟩⟩
    simp [worldInit, sherryInit_eq, readers]
  exact (Machine.run_keeps kept start ran).2.2 live

/-- In every run that libuv allows, nobody is blocked in `sherry_accept` on a server with a
pending connection, and nobody in `sherry_read` on a descriptor with unread bytes; so it is when
`schdule` calls `uv_run`, too. -/
theorem run_waiters {w : World φ} {es : List (Event φ × List FdRef)}
    (ran : Machine.run worldStep worldInit es = .ok w) (live : w.state.exited = false) :
    (∀ fd ∈ w.pending, acceptors w.state fd = []) ∧
      (∀ fd, Unread w.state fd → readers w.state fd = []) ∧
      ∀ w' pending, worldStep w (.schdule, pending) = .ok w' → w'.state.polling = true →
        ∀ a, (w'.state.actor a).status = .waitEv →
          (∀ fd client, (w'.state.actor a).frame = .accept fd client → fd ∉ w'.pending) ∧
            ∀ fd count, (w'.state.actor a).frame = .read fd count → ¬Unread w'.state fd := by
  have missed := world_missed ran live
  refine ⟨missed.accepts, missed.reads, ?_⟩
  intro w' pending polls _ a status
  have whole : Machine.run worldStep worldInit (es ++ [(.schdule, pending)]) = .ok w' :=
    Machine.run_snoc ran polls
  obtain ⟨_, taken, _⟩ := worldStep_ok.mp polls
  have inv := inv_run (world_run ran) live
  have live' : w'.state.exited = false := by
    rw [Bool.eq_false_iff]
    intro exited
    obtain ⟨_, exec, _⟩ := (step_outcome inv taken).exits live exited
    obtain ⟨on, _, _⟩ := onLoop_ok.mp taken
    rw [executing_none (onScheduler_iff.mp on).2.1] at exec
    cases exec
  have after := inv_run (world_run whole) live'
  have missed' := world_missed whole live'
  constructor
  · intro fd client frame member
    have waits : a ∈ acceptors w'.state fd := (mem_acceptors after).mpr ⟨status, client, frame⟩
    rw [missed'.accepts fd member] at waits
    cases waits
  · intro fd count frame unread
    have waits : a ∈ readers w'.state fd := (mem_readers after).mpr ⟨status, count, frame⟩
    rw [missed'.reads fd unread] at waits
    cases waits

/-- The same events with no connection pending after any of them. -/
def unconnected (es : List (Event Unit)) : List (Event Unit × List FdRef) := es.map (·, [])

/-- Main and actor 1 block in `sherry_accept` on one server, and a connection arrives. -/
def connectedRun : List (Event Unit × List FdRef) :=
  unconnected [.fdTcp true, .fdTcp true, .listen (some 0) 0, .spawn (), .accept 0 1 uvEagain,
    .schdule, .resume 0, .accept 0 1 uvEagain, .schdule] ++ [(.listenCb 0 0, [0])]

/-- Both acceptors have been woken. -/
theorem run_waiters_connected :
    ∃ w, Machine.run worldStep worldInit connectedRun = .ok w ∧ w.pending = [0] ∧
      acceptors w.state 0 = [] := by
  obtain ⟨w, ran, live, pending⟩ : ∃ w, Machine.run worldStep (worldInit : World Unit)
      connectedRun = .ok w ∧ w.state.exited = false ∧ w.pending = [0] := by
    decide +kernel
  exact ⟨w, ran, pending, (run_waiters ran live).1 0 (by simp [pending])⟩

/-- Main accepts a connection, reads one of two bytes from it and then calls `sherry_accept` on
it. -/
def crossedRun : List (Event Unit × List FdRef) :=
  unconnected [.fdTcp true, .listen (some 0) 0, .fdTcp true, .accept 0 1 uvEagain, .schdule] ++
    [(.listenCb 0 0, [0]), (.uvReturn, [0]), (.schdule, [0])] ++
      unconnected [.resume 0, .read 1 1 0, .schdule, .readCb 1 2 [65, 66] true, .uvReturn,
        .schdule, .resume 0, .fdTcp true, .accept 1 2 uvEagain]

/-- Main waits in the wait queue of a descriptor with an unread byte. -/
theorem acceptor_beside_bytes :
    ∃ w, Machine.run worldStep (worldInit : World Unit) crossedRun = .ok w ∧
      w.state.exited = false ∧ Unread w.state 1 ∧ w.state.waits.seq (.waitq 1 .read) = [0] := by
  decide +kernel

end Sherry
