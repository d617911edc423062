import Mathlib.Algebra.GroupWithZero.Nat
import Sherry.Verif.ReadOrder
import Sherry.Verif.Turns

/-!
# Reads from one buffer

Between two deliveries the calls of `sherry_read` on a descriptor share one buffer, whoever makes
them. Each takes the bytes behind those that the calls before it asked for, and blocks when these
asked for all. The calls that a delivery wakes are resumed in the order in which they blocked,
because the wait queue, `readyq` and the processor pass them on in order.
-/

namespace Sherry

variable {φ : Type} {s t : State Seqs φ} {self a : ActorRef} {e : Event φ} {fd : FdRef}
  {count : Nat}

/-- The `sherry_read` on a descriptor whose loop the event runs: its caller and its count. A call
that `uv_read_start` refuses does not come to the loop. -/
def callOn (fd : FdRef) (s : State Seqs φ) (e : Event φ) : Option (ActorRef × Nat) :=
  match s.executing, readAt s e with
  | some self, some (f, count) => if f = fd then some (self, count) else none
  | _, _ => none

/-- The calls that a run of events makes, in order. -/
def calls (fd : FdRef) (s : State Seqs φ) (es : List (Event φ)) : List (ActorRef × Nat) :=
  Machine.collect step (fun s e => (callOn fd s e).toList) s es

/-- The number of bytes that calls ask for. -/
def requested (cs : List (ActorRef × Nat)) : Nat := (cs.map Prod.snd).sum

/-- A call is a turn of the loop of `sherry_read` for the executing actor. -/
theorem callOn_iff :
    callOn fd s e = some (self, count) ↔
      s.executing = some self ∧ readAt s e = some (fd, count) := by
  unfold callOn
  cases s.executing with
  | none => simp
  | some b =>
    cases readAt s e with
    | none => simp
    | some call =>
      obtain ⟨f, n⟩ := call
      by_cases here : f = fd <;> simp [here]

/-- `sherry_read` returns bytes to its caller, which goes on. -/
structure Returned (s t : State Seqs φ) (a : ActorRef) (fd : FdRef) (bytes : List UInt8) :
    Prop where
  /-- The length and the bytes are returned. -/
  trace : t.trace = s.trace ++ [.read a fd bytes.length bytes]
  /-- The caller executes. -/
  executing : t.executing = some a
  /-- The caller is in its own code. -/
  frame : (t.actor a).frame = .user

/-- `sherry_read` blocks its caller and changes no buffer. -/
structure BlockedAt (s t : State Seqs φ) (a : ActorRef) (fd : FdRef) (count : Nat) : Prop where
  /-- The caller is the last in the wait queue, and every other list is the same. -/
  queue : t.waits = s.waits.set (.waitq fd .read) (s.waits.seq (.waitq fd .read) ++ [a])
  /-- The caller waits in the loop. -/
  waiting : (t.actor a).status = .waitEv ∧ (t.actor a).frame = .read fd count
  /-- Nobody executes. -/
  executing : t.executing = none
  /-- The buffer is the same. -/
  buffer : (t.fd fd).rbuf = (s.fd fd).rbuf ∧ (t.fd fd).roffset = (s.fd fd).roffset ∧ t.buf = s.buf
  /-- Nothing is returned. -/
  trace : t.trace = s.trace ++ [.swapped (.actor a) .scheduler s.cpu s.ctx]

/-- A call that blocks returns nothing. -/
theorem BlockedAt.silent {ret : Int} (blocked : BlockedAt s t self fd count) :
    ¬ReadReturns s t fd ret := by
  rintro ⟨b, bytes, trace⟩
  have last := List.append_cancel_left (trace.symm.trans blocked.trace)
  cases (List.cons.inj last).1

/-- The bytes of the window are those between the offset and the end of the buffer. -/
theorem Buffered.window_length (buffered : Buffered s) (fd : FdRef) :
    (window s fd).length = (s.fd fd).rbuf.len - (s.fd fd).roffset := by
  rw [window, List.length_drop, buffered.size]

/-- Without unread bytes the window is empty. -/
theorem Buffered.window_nil_iff (buffered : Buffered s) : window s fd = [] ↔ ¬Unread s fd := by
  rw [buffered.unread_iff, ← List.length_eq_zero_iff, buffered.window_length]
  omega

/-- `sherry_read` copies what it asks for, as far as the window has it. -/
theorem Buffered.copied_eq (buffered : Buffered s) :
    copied (s.fd fd) count = min count (window s fd).length := by
  rw [copied, buffered.window_length]

/-- What `sherry_read` copies is the part of the window that it asks for. -/
theorem Buffered.take_copied (buffered : Buffered s) :
    (window s fd).take (copied (s.fd fd) count) = (window s fd).take count := by
  rw [buffered.copied_eq, ← List.take_eq_take_min]

/-- The bytes behind those that `sherry_read` copies. -/
theorem Buffered.drop_copied (buffered : Buffered s) :
    (window s fd).drop (copied (s.fd fd) count) = (window s fd).drop count := by
  rw [buffered.copied_eq, ← List.drop_eq_drop_min]

/-- A call that finds unread bytes returns those it asks for. -/
theorem consume_returned {at_loop : State Seqs φ} (buffered : Buffered s)
    (exec : s.executing = some self) (enters : InRead s e self fd count at_loop) :
    Returned s (consume at_loop self fd count) self fd ((window s fd).take count) := by
  obtain ⟨_, _, cpu, _⟩ := enters.same_setting
  have length : ((window s fd).take count).length = copied (s.fd fd) count := by
    rw [List.length_take, buffered.copied_eq]
  constructor
  · rw [length, ← buffered.take_copied]
    exact enters.consume_trace
  · rw [executing_iff] at exec ⊢
    show at_loop.cpu.owner = _
    rw [cpu, exec]
  · simp [consume]

/-- A call that finds no unread byte blocks. -/
theorem park_blocked {at_loop : State Seqs φ} (inv : Inv s) (exec : s.executing = some self)
    (enters : InRead s e self fd count at_loop) :
    BlockedAt s (park at_loop self .waitEv (some (.waitq fd .read)) (.read fd count)) self fd
      count := by
  obtain ⟨waits, _, cpu, ctx⟩ := enters.same_setting
  obtain ⟨rbuf, roffset, _⟩ := enters.same_fds fd
  obtain ⟨buf, trace, _⟩ := enters.same_rest
  have scheduler : s.ctx.owner = some .scheduler := (inv.placed.current self exec).2
  constructor
  · simp [park, enlist, waits]
  · simp [park]
  · apply executing_none
    show at_loop.ctx.owner = _
    rw [ctx, scheduler]
  · exact ⟨rbuf, roffset, buf⟩
  · simp [park, trace, cpu, ctx]

/-- A call without a recorded error returns the bytes it asks for as far as there are any, and
blocks when there are none. -/
theorem call_step (inv : Inv s) (buffered : Buffered s) (sound : (s.fd fd).rerror = 0)
    (called : callOn fd s e = some (self, count)) (happened : step s e = .ok t) :
    (window s fd ≠ [] → Returned s t self fd ((window s fd).take count)) ∧
      (window s fd = [] → BlockedAt s t self fd count) := by
  obtain ⟨exec, reads⟩ := callOn_iff.mp called
  constructor
  · intro more
    have unread : Unread s fd := not_not.mp (buffered.window_nil_iff.not.mp more)
    obtain ⟨self', at_loop, exec', enters, _, rfl⟩ := read_consumes reads sound unread happened
    obtain rfl : self = self' := Option.some.inj (exec.symm.trans exec')
    exact consume_returned buffered exec enters
  · intro empty
    have nothing := buffered.window_nil_iff.mp empty
    obtain ⟨self', at_loop, exec', enters, rfl⟩ := read_parks inv reads sound nothing happened
    obtain rfl : self = self' := Option.some.inj (exec.symm.trans exec')
    exact park_blocked inv exec enters

/-- The number of bytes that the call of an event asks for. -/
theorem requested_call (called : callOn fd s e = some (self, count)) :
    requested (callOn fd s e).toList = count := by
  simp [requested, called]

/-- An event that does not report to `read_cb` for a descriptor takes what its call asks for from
the window, and returns it. -/
theorem window_step (inv : Inv s) (buffered : Buffered s) (sound : (s.fd fd).rerror = 0)
    (undelivered : ∀ result ∈ e.readResult, result.1 ≠ fd) (happened : step s e = .ok t) :
    (t.fd fd).rerror = 0 ∧
      window t fd = (window s fd).drop (requested (callOn fd s e).toList) ∧
      returnedBytes fd t.trace =
        returnedBytes fd s.trace ++ (window s fd).take (requested (callOn fd s e).toList) := by
  cases (step_outcome inv happened).fd_change buffered fd with
  | kept rbuf roffset rerror bytes _ same =>
    have still : window t fd = window s fd := by rw [window, rbuf, roffset, bytes, window]
    refine ⟨rerror.trans sound, ?_⟩
    cases called : callOn fd s e with
    | none => exact ⟨by simp [requested, still], by simp [requested, same]⟩
    | some call =>
      obtain ⟨self, count⟩ := call
      have amount : requested (some (self, count)).toList = count := by simp [requested]
      have answer := call_step inv buffered sound called happened
      have taken : (window s fd).take count = [] := by
        by_cases empty : window s fd = []
        · rw [empty, List.take_nil]
        · have more := congrArg (returnedBytes fd) (answer.1 empty).trace
          rw [same] at more
          simpa [returnedBytes, returnedIn] using more
      have rest : (window s fd).drop count = window s fd := by
        have whole := List.take_append_drop count (window s fd)
        rwa [taken, List.nil_append] at whole
      rw [amount, taken, rest, List.append_nil]
      exact ⟨still, same⟩
  | failed event => exact absurd rfl (undelivered (fd, _) (by rw [event]; rfl))
  | delivered event => exact absurd rfl (undelivered (fd, _) (by rw [event]; rfl))
  | @took self count at_loop exec enters _ _ rbuf roffset rerror bytes _ more =>
    have amount := requested_call (callOn_iff.mpr ⟨exec, enters.readAt exec⟩)
    refine ⟨rerror.trans sound, ?_, ?_⟩
    · rw [amount, ← buffered.drop_copied, window, rbuf, roffset, bytes, window, List.drop_drop]
    · rw [amount, more, buffered.take_copied]

/-- The `sherry_read` on a descriptor in whose loop an actor is suspended. -/
def retry (fd : FdRef) (s : State Seqs φ) (a : ActorRef) : Option (ActorRef × Nat) :=
  match (s.actor a).frame with
  | .read f count => if f = fd then some (a, count) else none
  | _ => none

/-- The calls blocked on a descriptor, in the order in which they blocked. -/
def blockedCalls (fd : FdRef) (s : State Seqs φ) : List (ActorRef × Nat) :=
  (s.waits.seq (.waitq fd .read)).filterMap (retry fd s)

/-- The calls on a descriptor that were woken and have not gone on: the one on the processor, and
those in `readyq`. -/
def wokenCalls (fd : FdRef) (s : State Seqs φ) : List (ActorRef × Nat) :=
  (s.executing.toList ++ s.waits.seq .readyq).filterMap (retry fd s)

/-- The calls on a descriptor that have not gone on, in the order of their turns. -/
def waitingCalls (fd : FdRef) (s : State Seqs φ) : List (ActorRef × Nat) :=
  wokenCalls fd s ++ blockedCalls fd s

/-- The call that an event blocks. -/
def blockedCall (fd : FdRef) (s : State Seqs φ) (e : Event φ) : Option (ActorRef × Nat) :=
  if window s fd = [] then callOn fd s e else none

/-- The woken call that goes on in an event. -/
def resumedCall (fd : FdRef) (s : State Seqs φ) : Event φ → Option (ActorRef × Nat)
  | .resume err => callOn fd s (.resume err)
  | _ => none

/-- A suspended call is seen in the frame of its actor. -/
theorem retry_iff :
    retry fd s a = some (self, count) ↔ a = self ∧ (s.actor a).frame = .read fd count := by
  unfold retry
  cases frame : (s.actor a).frame with
  | read f n => by_cases here : f = fd <;> simp [here]
  | _ => simp

/-- An actor that keeps its frame keeps its call. -/
theorem retry_congr (same : (t.actor a).frame = (s.actor a).frame) :
    retry fd t a = retry fd s a := by
  unfold retry
  rw [same]

/-- An actor in its own code is in no call. -/
theorem retry_user (user : (s.actor a).frame = .user) : retry fd s a = none := by
  unfold retry
  rw [user]

/-- A resumed actor goes on in the call in which it was suspended. -/
theorem resumedCall_resume {err : Int} :
    resumedCall fd s (.resume err) = s.executing.bind (retry fd s) := by
  unfold resumedCall callOn readAt
  cases exec : s.executing with
  | none => rfl
  | some self =>
    simp only [Option.bind_some, retry]
    cases (s.actor self).frame <;> rfl

/-- Actors that keep their frames keep their calls. -/
theorem filterMap_retry {items : List ActorRef}
    (same : ∀ a ∈ items, (t.actor a).frame = (s.actor a).frame) :
    items.filterMap (retry fd t) = items.filterMap (retry fd s) :=
  List.filterMap_congr fun a member => retry_congr (same a member)

/-- Waking an actor leaves every actor in its call. -/
theorem wake_frame : ((wake s a).actor self).frame = (s.actor self).frame := by
  by_cases here : self = a <;> simp [wake, here]

/-- Waking the actors of a list leaves every actor in its call. -/
theorem wakeAll_frame {list : WaitRef} :
    ((wakeAll s list).actor self).frame = (s.actor self).frame := by
  unfold wakeAll
  dsimp only
  split <;> rfl

/-- Revoking the receiver of a message leaves every actor in its call. -/
theorem revoke_frame : ((revoke s a).actor self).frame = (s.actor self).frame := by
  unfold revoke
  split
  · exact wake_frame
  · rfl

/-- The executing actor executed before, and is in the same call or in its own code. -/
structure Stays (s t : State Seqs φ) (a : ActorRef) : Prop where
  /-- It executed before. -/
  own : s.executing = some a
  /-- It is in the same call or in its own code. -/
  frame : (t.actor a).frame = (s.actor a).frame ∨ (t.actor a).frame = .user

/-- An event that moves neither the processor nor a frame lets the executing actor stay. -/
theorem Stays.still (owner : t.cpu.owner = s.cpu.owner)
    (frames : ∀ b, (t.actor b).frame = (s.actor b).frame) (exec : t.executing = some a) :
    Stays s t a := by
  refine ⟨?_, .inl (frames a)⟩
  rw [executing_iff, ← owner, ← executing_iff]
  exact exec

/-- A return to the code of the executing actor lets it stay. -/
theorem Stays.proceeds (own : s.executing = some self) (cpu : t.cpu = s.cpu)
    (user : (t.actor self).frame = .user) (exec : t.executing = some a) : Stays s t a := by
  rw [executing_iff, cpu, ← executing_iff] at exec
  obtain rfl : self = a := Option.some.inj (own.symm.trans exec)
  exact ⟨exec, .inr user⟩

/-- When the executing actor suspends itself nobody executes. -/
theorem Stays.parks (inv : Inv s) (own : s.executing = some self) (cpu : t.cpu = s.ctx)
    (exec : t.executing = some a) : Stays s t a := by
  rw [executing_iff, cpu, (inv.placed.current self own).2] at exec
  cases exec

/-- Outside of `schdule` no actor gets the processor, and the one that keeps it stays in its call
or is in its own code. -/
theorem Outcome.processor (inv : Inv s) (outcome : Outcome s e t) (other : e ≠ .schdule)
    (exec : t.executing = some a) : Stays s t a := by
  cases outcome with
  | computes _ owner => exact .still owner (fun _ => rfl) exec
  | spawns user =>
    rw [sherrySpawn_eq] at exec ⊢
    have own : s.executing = some a := exec
    have apart : a ≠ s.nactors := by
      rintro rfl
      have running := (inv.placed.executing own).2.1
      rw [inv.registry.fresh _ (Nat.le_refl _)] at running
      cases running
    exact ⟨own, .inl (by simp [apart])⟩
  | yields user => exact .parks inv (inUser_iff.mp user).2.1 rfl exec
  | sends =>
    refine .still ?_ (fun _ => revoke_frame) exec
    unfold revoke
    split <;> rfl
  | awaits user => exact .parks inv (inUser_iff.mp user).2.1 rfl exec
  | receives own => exact .proceeds own rfl (by simp [taken]) exec
  | accepts own =>
    exact .proceeds own rfl (by simp [State.setFrame, State.setActor, State.emit]) exec
  | blocksAccept own => exact .parks inv own rfl exec
  | readError own enters =>
    refine .proceeds own enters.same_setting.2.2.1 ?_ exec
    simp [State.setFrame, State.setActor, State.emit]
  | readBytes own enters => exact .proceeds own enters.same_setting.2.2.1 (by simp [consume]) exec
  | blocksRead own enters => exact .parks inv own enters.same_setting.2.2.2 exec
  | submits user => exact .parks inv (inUser_iff.mp user).2.1 rfl exec
  | returns user => exact .parks inv (inUser_iff.mp user).2.1 rfl exec
  | lingers own => exact .parks inv own rfl exec
  | begins own => exact .proceeds own rfl (by simp [State.setFrame, State.setActor]) exec
  | wrote own =>
    refine .proceeds own rfl ?_ exec
    simp [writeTail, State.setFrame, State.setActor, State.emit]
  | dispatches => exact absurd rfl other
  | connects => exact .still rfl (fun _ => wakeAll_frame) exec
  | delivers => exact .still rfl (fun _ => wakeAll_frame) exec
  | writes => exact .still rfl (fun _ => wake_frame) exec
  | _ => exact .still rfl (fun _ => rfl) exec

/-- Dispatching an actor leaves every actor in its call. -/
theorem dispatch_frame {next : ActorRef} {rest : List ActorRef} :
    ((dispatch s next rest).actor a).frame = (s.actor a).frame := by
  by_cases here : a = next <;> simp [dispatch, here]

/-- An iteration of `schdule` moves at most the first ready actor, to the processor, and leaves
every actor in its call. -/
theorem schdule_lists (inv : Inv s) (happened : step s .schdule = .ok t) :
    (∀ a, (t.actor a).frame = (s.actor a).frame) ∧
      (∀ l, l ≠ .readyq → t.waits.seq l = s.waits.seq l) ∧
      t.executing.toList ++ t.waits.seq .readyq = s.executing.toList ++ s.waits.seq .readyq := by
  obtain ⟨on, _, done⟩ := onLoop_ok.mp happened
  have same : schdule s = t := Except.ok.inj done
  have idle : s.executing = none := executing_none (onScheduler_iff.mp on).2.1
  cases queue : s.waits.seq .readyq with
  | nil =>
    rw [schdule_nil queue] at same
    subst same
    refine ⟨fun _ => rfl, fun _ _ => rfl, ?_⟩
    rw [← queue]
    rfl
  | cons next rest =>
    have exec := (ahead_zero inv ⟨[], rest, queue, rfl⟩ happened).1
    rw [schdule_cons queue] at same
    subst same
    refine ⟨fun _ => dispatch_frame, fun l other => by simp [dispatch, other], ?_⟩
    rw [exec, idle]
    simp [dispatch]

/-- An iteration of `schdule` keeps the waiting calls. -/
theorem waiting_schdule (inv : Inv s) (happened : step s .schdule = .ok t) :
    waitingCalls fd t = waitingCalls fd s := by
  obtain ⟨frames, others, turns⟩ := schdule_lists inv happened
  have queue : t.waits.seq (.waitq fd .read) = s.waits.seq (.waitq fd .read) :=
    others _ (by simp)
  unfold waitingCalls wokenCalls blockedCalls
  rw [turns, queue, filterMap_retry fun a _ => frames a, filterMap_retry fun a _ => frames a]

/-- Outside of `schdule` the woken call on the processor goes on, if there is one. -/
theorem processor_step (inv : Inv s) (buffered : Buffered s) (sound : (s.fd fd).rerror = 0)
    (other : e ≠ .schdule) (happened : step s e = .ok t) :
    s.executing.toList.filterMap (retry fd s) =
      (resumedCall fd s e).toList ++ t.executing.toList.filterMap (retry fd t) := by
  have outcome := step_outcome inv happened
  cases call : s.executing.bind (retry fd s) with
  | none =>
    have before : s.executing.toList.filterMap (retry fd s) = [] := by
      cases exec : s.executing with
      | none => rfl
      | some self =>
        rw [exec] at call
        exact List.filterMap_cons_none call
    have after : t.executing.toList.filterMap (retry fd t) = [] := by
      cases exec : t.executing with
      | none => rfl
      | some self =>
        obtain ⟨own, same | user⟩ := outcome.processor inv other exec
        · rw [own] at call
          exact List.filterMap_cons_none ((retry_congr same).trans call)
        · exact List.filterMap_cons_none (retry_user user)
    have quiet : resumedCall fd s e = none := by
      cases e with
      | resume err => rw [resumedCall_resume, call]
      | _ => rfl
    rw [before, after, quiet]
    rfl
  | some found =>
    obtain ⟨self, exec, retries⟩ := Option.bind_eq_some_iff.mp call
    obtain ⟨caller, count⟩ := found
    obtain ⟨rfl, frame⟩ := retry_iff.mp retries
    obtain ⟨err, rfl, _⟩ := step_resumed exec (by simp [frame]) happened
    have resumed : resumedCall fd s (.resume err) = some (self, count) := by
      rw [resumedCall_resume, call]
    obtain ⟨returns, blocks⟩ := call_step inv buffered sound resumed happened
    have after : t.executing.toList.filterMap (retry fd t) = [] := by
      by_cases empty : window s fd = []
      · rw [(blocks empty).executing]
        rfl
      · rw [(returns empty).executing]
        exact List.filterMap_cons_none (retry_user (returns empty).frame)
    rw [after, exec, resumed, List.append_nil]
    exact List.filterMap_cons_some retries

/-- An actor in a list stays in its call. -/
theorem listed_frame (inv : Inv s) (outcome : Outcome s e t) {l : WaitRef}
    (member : a ∈ s.waits.seq l) : (t.actor a).frame = (s.actor a).frame := by
  obtain ⟨_, registered, idle, _⟩ := inv.placed.member member
  have old := Nat.ne_of_lt (inv.registry.allocated registered)
  exact ((outcome.actor_change a).idle idle old).2

/-- What an event other than an iteration of `schdule` does to the calls in the ready queue and in
the wait queue of a descriptor. -/
inductive CallsChange (s t : State Seqs φ) (e : Event φ) (fd : FdRef) : Prop
  | kept (items more : List ActorRef)
      (front : t.waits.seq .readyq = s.waits.seq .readyq ++ items)
      (tail : t.waits.seq (.waitq fd .read) = s.waits.seq (.waitq fd .read) ++ more)
      (outside : ∀ b ∈ items ++ more, retry fd t b = none)
  | wakes
      (front : t.waits.seq .readyq = s.waits.seq .readyq ++ s.waits.seq (.waitq fd .read))
      (tail : t.waits.seq (.waitq fd .read) = [])
  | blocks {call : ActorRef × Nat} (blocks : blockedCall fd s e = some call)

/-- An event that leaves the lists alone keeps the calls. -/
theorem CallsChange.still (same : t.waits = s.waits) : CallsChange s t e fd :=
  .kept [] [] (by simp [same]) (by simp [same]) (by simp)

/-- An event that wakes everybody in a wait queue wakes the calls of its descriptor. -/
theorem CallsChange.drains (inv : Inv s) (outcome : Outcome s e t) {g : FdRef}
    (lists : t.waits = (s.waits.set (.waitq g .read) []).set .readyq
      (s.waits.seq .readyq ++ s.waits.seq (.waitq g .read))) : CallsChange s t e fd := by
  by_cases here : g = fd
  · subst here
    exact .wakes (by simp [lists]) (by simp [lists])
  · refine .kept (s.waits.seq (.waitq g .read)) [] (by simp [lists]) ?_ ?_
    · simp [lists, Ne.symm here]
    · intro b member
      rw [List.append_nil] at member
      rw [retry_congr (listed_frame inv outcome member)]
      obtain ⟨_, _, ⟨_, frame⟩ | ⟨_, frame⟩⟩ := inv.placed.mem_waitq.mp member
      · simp [retry, frame, here]
      · simp [retry, frame]

/-- Only a call that blocks and a callback on the descriptor move calls. -/
theorem Outcome.calls_change (inv : Inv s) (buffered : Buffered s) (outcome : Outcome s e t)
    (other : e ≠ .schdule) : CallsChange s t e fd := by
  have whole := outcome
  cases outcome with
  | spawns =>
    refine .kept [s.nactors] [] ?_ ?_ ?_
    · simp [sherrySpawn_eq, enlist]
    · simp [sherrySpawn_eq, enlist]
    · simp [sherrySpawn_eq, retry]
  | @yields self =>
    exact .kept [self] [] (by simp [park, enlist]) (by simp [park, enlist]) (by simp [park, retry])
  | @sends _ recver =>
    by_cases waiting : (s.actor recver).status = .waitMsg
    · have frame : (s.actor recver).frame = .recv recver := by
        have fits := inv.placed.fits recver
        rw [Fits, waiting] at fits
        exact fits.2.2.2
      refine .kept [recver] [] ?_ ?_ ?_
      · simp [revoke, deliver, waiting, wake, enlist]
      · simp [revoke, deliver, waiting, wake, enlist]
      · simp [revoke, deliver, waiting, wake, retry, frame]
    · exact .still (by simp [revoke, deliver, waiting])
  | awaits => exact .kept [] [] (by simp [park, enlist]) (by simp [park, enlist]) (by simp)
  | @blocksAccept _ self server =>
    by_cases here : server = fd
    · subst here
      exact .kept [] [self] (by simp [park, enlist]) (by simp [park, enlist])
        (by simp [park, retry])
    · exact .kept [] [] (by simp [park, enlist]) (by simp [park, enlist, Ne.symm here]) (by simp)
  | readError _ enters => exact .still enters.same_setting.1
  | readBytes _ enters => exact .still enters.same_setting.1
  | @blocksRead _ self f count _ exec enters _ _ nothing =>
    have waits := enters.same_setting.1
    by_cases here : f = fd
    · subst here
      have called := callOn_iff.mpr ⟨exec, enters.readAt exec⟩
      have blocks : blockedCall f s e = some (self, count) := by
        rw [blockedCall, if_pos (buffered.window_nil_iff.mpr nothing), called]
      exact .blocks blocks
    · refine .kept [] [] ?_ ?_ (by simp)
      · simp [park, enlist, waits]
      · simp [park, enlist, waits, Ne.symm here]
  | @lingers _ self =>
    exact .kept [self] [] (by simp [park, enlist]) (by simp [park, enlist]) (by simp [park, retry])
  | dispatches => exact absurd rfl other
  | connects => exact .drains inv whole rfl
  | delivers => exact .drains inv whole rfl
  | @writes req _ _ pending =>
    obtain ⟨_, count, frame⟩ := inv.placed.writes req pending
    refine .kept [req.data] [] ?_ ?_ ?_
    · simp [wake, enlist, State.emit]
    · simp [wake, enlist, State.emit]
    · simp [wake, retry, State.emit, frame]
  | _ => exact .still rfl

/-- Outside of `schdule` the ready queue and the wait queue of a descriptor keep their calls in
order, and the call that blocks is the last. -/
theorem queues_step (inv : Inv s) (buffered : Buffered s) (sound : (s.fd fd).rerror = 0)
    (other : e ≠ .schdule) (happened : step s e = .ok t) :
    (s.waits.seq .readyq).filterMap (retry fd s) ++ blockedCalls fd s ++
        (blockedCall fd s e).toList =
      (t.waits.seq .readyq).filterMap (retry fd t) ++ blockedCalls fd t := by
  have outcome := step_outcome inv happened
  have ready : (s.waits.seq .readyq).filterMap (retry fd t) =
      (s.waits.seq .readyq).filterMap (retry fd s) :=
    filterMap_retry fun _ member => listed_frame inv outcome member
  have blocked : (s.waits.seq (.waitq fd .read)).filterMap (retry fd t) = blockedCalls fd s :=
    filterMap_retry fun _ member => listed_frame inv outcome member
  cases blocks : blockedCall fd s e with
  | some call =>
    obtain ⟨self, count⟩ := call
    obtain ⟨empty, called⟩ := Option.ite_none_right_eq_some.mp blocks
    have parked := (call_step inv buffered sound called happened).2 empty
    have last : retry fd t self = some (self, count) := retry_iff.mpr ⟨rfl, parked.waiting.2⟩
    have front : t.waits.seq .readyq = s.waits.seq .readyq := by simp [parked.queue]
    have tail : blockedCalls fd t = blockedCalls fd s ++ [(self, count)] := by
      rw [blockedCalls, parked.queue, Seqs.set_seq_self, List.filterMap_append, blocked,
        List.filterMap_cons_some last]
      rfl
    rw [front, ready, tail, List.append_assoc]
    rfl
  | none =>
    rw [Option.toList_none, List.append_nil]
    have change : CallsChange s t e fd := outcome.calls_change inv buffered other
    cases change with
    | kept items more front tail outside =>
      have no_items : items.filterMap (retry fd t) = [] :=
        List.filterMap_eq_nil_iff.mpr fun b member => outside b (List.mem_append_left _ member)
      have no_more : more.filterMap (retry fd t) = [] :=
        List.filterMap_eq_nil_iff.mpr fun b member => outside b (List.mem_append_right _ member)
      have queue : blockedCalls fd t = blockedCalls fd s := by
        rw [blockedCalls, tail, List.filterMap_append, blocked, no_more, List.append_nil]
      rw [front, List.filterMap_append, ready, no_items, List.append_nil, queue]
    | wakes front tail =>
      have empty : blockedCalls fd t = [] := by rw [blockedCalls, tail, List.filterMap_nil]
      rw [front, List.filterMap_append, ready, blocked, empty, List.append_nil]
    | blocks call => exact absurd (call.symm.trans blocks) (Option.some_ne_none _)

/-- An event takes the woken call that it runs from the front of the waiting calls, and puts the
one that it blocks behind them. -/
theorem calls_step (inv : Inv s) (buffered : Buffered s) (sound : (s.fd fd).rerror = 0)
    (happened : step s e = .ok t) :
    waitingCalls fd s ++ (blockedCall fd s e).toList =
      (resumedCall fd s e).toList ++ waitingCalls fd t := by
  by_cases event : e = .schdule
  · subst event
    have quiet : callOn fd s (.schdule : Event φ) = none := by
      unfold callOn
      cases s.executing <;> rfl
    rw [blockedCall, quiet, ite_self, waiting_schdule inv happened]
    exact List.append_nil _
  · have processor := processor_step inv buffered sound event happened
    have queues := queues_step inv buffered sound event happened
    unfold waitingCalls wokenCalls
    rw [List.filterMap_append, List.filterMap_append, processor]
    simp only [List.append_assoc] at queues ⊢
    rw [queues]

/-- `read_cb` with data wakes the blocked calls in their order, behind those woken before. -/
theorem delivery_wakes (inv : Inv s) (buffered : Buffered s) {nread : Int} {content : List UInt8}
    {allocated : Bool} (some_read : 0 < nread)
    (happened : step s (.readCb fd nread content allocated) = .ok t) :
    wokenCalls fd t = wokenCalls fd s ++ blockedCalls fd s ∧ blockedCalls fd t = [] ∧
      window t fd = content := by
  have delivers := step_delivers inv some_read happened
  subst delivers
  have frames : ∀ a, ((wakeAll (receive s fd nread content) (.waitq fd .read)).actor a).frame =
      (s.actor a).frame := fun _ => wakeAll_frame
  refine ⟨?_, ?_, ?_⟩
  · unfold wokenCalls blockedCalls
    rw [wakeAll_readyq, filterMap_retry fun a _ => frames a, ← List.filterMap_append,
      List.append_assoc]
    rfl
  · simp [blockedCalls, wakeAll]
  · exact congrArg ChunkFlow.window (flow_receive buffered)

/-- A descriptor without a recorded error, in a state of a run. -/
structure Clear (fd : FdRef) (s : State Seqs φ) : Prop where
  /-- The state is sound. -/
  sound : Sound s
  /-- The buffers are in order. -/
  buffered : Buffered s
  /-- No error is recorded. -/
  rerror : (s.fd fd).rerror = 0

/-- The event does not report to `read_cb` for a descriptor. -/
def Undelivered (fd : FdRef) (e : Event φ) : Prop := ∀ result ∈ e.readResult, result.1 ≠ fd

/-- Without a report to `read_cb` a descriptor stays without a recorded error. -/
theorem Clear.step (clear : Clear fd s) (undelivered : Undelivered fd e)
    (happened : step s e = .ok t) : Clear fd t := by
  obtain ⟨sound, buffered, rerror⟩ := clear
  obtain ⟨inv, _, after⟩ := step_sound sound happened
  exact ⟨after, buffered_step inv buffered happened,
    (window_step inv buffered rerror undelivered happened).1⟩

/-- Calls one after the other ask for the sum. -/
theorem requested_append (before after : List (ActorRef × Nat)) :
    requested (before ++ after) = requested before + requested after := by
  simp [requested]

/-- Between two deliveries the calls share one buffer: its unread bytes are those behind all that
the calls asked for, and those before were returned. -/
theorem run_window {fs : List (Event φ)} (clear : Clear fd s)
    (undelivered : ∀ e ∈ fs, Undelivered fd e) (went : Machine.run step s fs = .ok t) :
    Clear fd t ∧ window t fd = (window s fd).drop (requested (calls fd s fs)) ∧
      returnedBytes fd t.trace =
        returnedBytes fd s.trace ++ (window s fd).take (requested (calls fd s fs)) := by
  let shared (cs : List (ActorRef × Nat)) (m : State Seqs φ) : Prop :=
    Clear fd m ∧ window m fd = (window s fd).drop (requested cs) ∧
      returnedBytes fd m.trace = returnedBytes fd s.trace ++ (window s fd).take (requested cs)
  have kept : ∀ {cs m e n}, shared cs m → Undelivered fd e → step m e = .ok n →
      shared (cs ++ (callOn fd m e).toList) n := by
    rintro cs m e n ⟨clear, rest, returned⟩ undelivered happened
    have inv := (step_sound clear.sound happened).1
    obtain ⟨_, moved, more⟩ := window_step inv clear.buffered clear.rerror undelivered happened
    refine ⟨clear.step undelivered happened, ?_, ?_⟩
    · rw [moved, rest, List.drop_drop, requested_append]
    · rw [more, returned, rest, List.append_assoc, requested_append, List.take_add]
  have start : shared [] s := by
    refine ⟨clear, rfl, ?_⟩
    simp [requested]
  exact Machine.run_keeps_collected kept start (.of_mem undelivered s) went

/-- The calls that a run blocks, in order. -/
def blockedIn (fd : FdRef) (s : State Seqs φ) (es : List (Event φ)) : List (ActorRef × Nat) :=
  Machine.collect step (fun s e => (blockedCall fd s e).toList) s es

/-- The woken calls that go on in a run, in order. -/
def resumedIn (fd : FdRef) (s : State Seqs φ) (es : List (Event φ)) : List (ActorRef × Nat) :=
  Machine.collect step (fun s e => (resumedCall fd s e).toList) s es

/-- The calls that wait at first, and behind them those that block, go on in this order. -/
theorem run_waiting {fs : List (Event φ)} (clear : Clear fd s)
    (undelivered : ∀ e ∈ fs, Undelivered fd e) (went : Machine.run step s fs = .ok t) :
    waitingCalls fd s ++ blockedIn fd s fs = resumedIn fd s fs ++ waitingCalls fd t := by
  have kept : ∀ {m : State Seqs φ} {e n}, Clear fd m → Undelivered fd e → step m e = .ok n →
      Clear fd n := Clear.step
  have passes : ∀ {m : State Seqs φ} {e n}, Clear fd m → step m e = .ok n →
      waitingCalls fd m ++ (blockedCall fd m e).toList =
        (resumedCall fd m e).toList ++ waitingCalls fd n := by
    intro m e n clear happened
    have inv := (step_sound clear.sound happened).1
    exact calls_step inv clear.buffered clear.rerror happened
  exact Machine.run_queue kept passes clear (.of_mem undelivered s) went

/-- A call returns the slice of the bytes between what was asked for before it and what is asked
for with it, and blocks when there are no such bytes. It does not return zero. -/
theorem call_slice {first : List (Event φ)} {m n : State Seqs φ} (clear : Clear fd s)
    (undelivered : ∀ e ∈ first, Undelivered fd e) (went : Machine.run step s first = .ok m)
    (happened : step m e = .ok n) (called : callOn fd m e = some (self, count))
    (positive : 0 < count) {i j : Nat}
    (before : i = min (requested (calls fd s first)) (window s fd).length)
    (behind : j = min (requested (calls fd s first) + count) (window s fd).length) :
    (i < j → Returned m n self fd (slice (window s fd) i j)) ∧
      (¬i < j → BlockedAt m n self fd count) ∧ ¬ReadReturns m n fd 0 := by
  obtain ⟨clear, rest, _⟩ := run_window clear undelivered went
  have inv := (step_sound clear.sound happened).1
  obtain ⟨returns, blocks⟩ := call_step inv clear.buffered clear.rerror called happened
  have bytes : (window m fd).take count = slice (window s fd) i j := by
    rw [rest, take_drop_slice, ← before, ← behind]
  have empty_iff : window m fd = [] ↔ ¬i < j := by
    rw [rest, List.drop_eq_nil_iff]
    omega
  refine ⟨fun more => ?_, fun done => blocks (empty_iff.mpr done), fun zero => ?_⟩
  · rw [← bytes]
    exact returns fun empty => empty_iff.mp empty more
  · by_cases empty : window m fd = []
    · exact (blocks empty).silent zero
    · have nothing := zero.unique (returns empty).trace
      have more : 0 < (window m fd).length := List.length_pos_of_ne_nil empty
      rw [List.length_take] at nothing
      omega

/-- Between two deliveries the calls of `sherry_read` on a descriptor without a recorded error take
consecutive slices of the bytes unread at first, whoever makes them: a call returns those between
what was asked for before it and what is asked for with it, and blocks at the tail of the wait queue
when there are none; it never returns zero. What was returned and what is left depends on the sum of
the counts alone. The calls that wait go on in the order in which they blocked, and `read_cb` with
data wakes all blocked ones in this order. -/
theorem run_slices {es fs : List (Event φ)}
    (ran : Machine.run step (sherryInit : State Seqs φ) es = .ok s)
    (rerror : (s.fd fd).rerror = 0) (undelivered : ∀ e ∈ fs, ∀ result ∈ e.readResult, result.1 ≠ fd)
    (went : Machine.run step s fs = .ok t) :
    (∀ first e rest m n self count, fs = first ++ e :: rest →
        Machine.run step s first = .ok m → step m e = .ok n →
        callOn fd m e = some (self, count) → 0 < count →
          ∀ i j, i = min (requested (calls fd s first)) (window s fd).length →
            j = min (requested (calls fd s first) + count) (window s fd).length →
              (i < j → Returned m n self fd (slice (window s fd) i j)) ∧
                (¬i < j → BlockedAt m n self fd count) ∧ ¬ReadReturns m n fd 0) ∧
      window t fd = (window s fd).drop (requested (calls fd s fs)) ∧
      returnedBytes fd t.trace =
        returnedBytes fd s.trace ++ (window s fd).take (requested (calls fd s fs)) ∧
      waitingCalls fd s ++ blockedIn fd s fs = resumedIn fd s fs ++ waitingCalls fd t ∧
      ∀ nread content allocated u, 0 < nread →
        step t (.readCb fd nread content allocated) = .ok u →
          wokenCalls fd u = wokenCalls fd t ++ blockedCalls fd t ∧ blockedCalls fd u = [] ∧
            window u fd = content := by
  have clear : Clear fd s :=
    ⟨run_sound (fun _ => inv_sherryInit) ran, run_buffered ran, rerror⟩
  obtain ⟨after, rest, returned⟩ := run_window clear undelivered went
  refine ⟨?_, rest, returned, run_waiting clear undelivered went, ?_⟩
  · intro first e others m n self count split begun happened called positive i j before behind
    have early : ∀ d ∈ first, Undelivered fd d := fun d member =>
      undelivered d (split ▸ List.mem_append_left _ member)
    exact call_slice clear early begun happened called positive before behind
  · intro nread content allocated u some_read happened
    exact delivery_wakes (step_sound after.sound happened).1 after.buffered some_read happened

/-- Main and actor 1 are blocked in `sherry_read` on a connection, for three bytes and for two, when
four arrive. -/
def twoReaders : List (Event Unit) :=
  connected ++ [.spawn (), .read 1 3 0, .schdule, .resume 0, .read 1 2 0, .schdule,
    .readCb 1 4 [65, 66, 67, 68] true]

/-- Both go on, and actor 1 reads again. -/
def bothRead : List (Event Unit) :=
  [.uvReturn, .schdule, .resume 0, .yield, .schdule, .resume 0, .read 1 1 0]

/-- Main gets three bytes, actor 1 the fourth, and then actor 1 blocks. -/
theorem run_slices_both :
    ∃ s t, Machine.run step (sherryInit : State Seqs Unit) twoReaders = .ok s ∧
      Machine.run step s bothRead = .ok t ∧ calls 1 s bothRead = [(0, 3), (1, 2), (1, 1)] ∧
        resumedIn 1 s bothRead ++ waitingCalls 1 t = [(0, 3), (1, 2), (1, 1)] ∧
          returnedBytes 1 t.trace = [65, 66, 67, 68] ∧ window t 1 = [] := by
  obtain ⟨s, ran, rerror, bytes, none, called, waiting, t, went, _⟩ :
      ∃ s, Machine.run step (sherryInit : State Seqs Unit) twoReaders = .ok s ∧
        (s.fd 1).rerror = 0 ∧ window s 1 = [65, 66, 67, 68] ∧ returnedBytes 1 s.trace = [] ∧
          calls 1 s bothRead = [(0, 3), (1, 2), (1, 1)] ∧
          waitingCalls 1 s ++ blockedIn 1 s bothRead = [(0, 3), (1, 2), (1, 1)] ∧
            ∃ t, Machine.run step s bothRead = .ok t ∧ True := by
    decide +kernel
  have undelivered : ∀ e ∈ bothRead, ∀ result ∈ e.readResult, result.1 ≠ 1 := by decide
  obtain ⟨_, rest, returned, turns, _⟩ := run_slices ran rerror undelivered went
  refine ⟨s, t, ran, went, called, turns ▸ waiting, ?_, ?_⟩
  · rw [returned, none, bytes, called]
    rfl
  · rw [rest, bytes, called]
    rfl

end Sherry
