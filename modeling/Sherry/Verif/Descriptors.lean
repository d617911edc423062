import Sherry.Library.Flows
import Sherry.Verif.Changes

/-!
# Read buffers

What one event does to the read buffer of one descriptor, and to what its readers were given.
A descriptor refines a flow: `read_cb` with data is a delivery into it, `sherry_read` is a
read from it, and everything else leaves it alone.
-/

namespace Sherry

variable {φ : Type} {s t : State Seqs φ} {self a : ActorRef} {e : Event φ} {fd : FdRef}

/-- The bytes that an entry delivers to a descriptor. -/
def delivery (fd : FdRef) : Obs → Option (List UInt8)
  | .delivered f bytes => if f = fd then some bytes else none
  | _ => none

/-- The deliveries to a descriptor, in order. -/
def deliveries (fd : FdRef) (trace : List Obs) : List (List UInt8) :=
  trace.filterMap (delivery fd)

/-- All bytes received for a descriptor. -/
def receivedBytes (fd : FdRef) (trace : List Obs) : List UInt8 := (deliveries fd trace).flatten

/-- The bytes of the last delivery, which are the start of the buffer. -/
def lastDelivery (fd : FdRef) (trace : List Obs) : List UInt8 := (deliveries fd trace).getLastD []

/-- The bytes that an entry returns from a descriptor. -/
def returnedIn (fd : FdRef) : Obs → List UInt8
  | .read _ f _ bytes => if f = fd then bytes else []
  | _ => []

/-- All bytes that `sherry_read` returned from a descriptor. -/
def returnedBytes (fd : FdRef) (trace : List Obs) : List UInt8 := trace.flatMap (returnedIn fd)

/-- The descriptor and the result that an event reports to `read_cb`. -/
def Event.readResult : Event φ → Option (FdRef × Int)
  | .readCb fd nread _ _ => some (fd, nread)
  | _ => none

/-- Every descriptor owns an allocated buffer of the recorded size and an offset inside it, or
no buffer and zeros. -/
structure Buffered (s : State Seqs φ) : Prop where
  /-- A buffer in use was allocated. -/
  owned : ∀ fd b, (s.fd fd).rbuf.base = some b → b < s.nbufs
  /-- A buffer has the size that is recorded with it. -/
  size : ∀ fd, (bytesOf s (s.fd fd).rbuf.base).length = (s.fd fd).rbuf.len
  /-- The offset is inside the buffer. -/
  within : ∀ fd, (s.fd fd).roffset ≤ (s.fd fd).rbuf.len
  /-- Without a buffer the size is zero. -/
  blank : ∀ fd, (s.fd fd).rbuf.base = none → (s.fd fd).rbuf.len = 0
  /-- A descriptor not yet allocated is blank. -/
  fresh : ∀ fd, s.nfds ≤ fd →
    (s.fd fd).rbuf = {} ∧ (s.fd fd).roffset = 0 ∧ (s.fd fd).rerror = 0

/-- Without a buffer the offset is zero. -/
theorem Buffered.zero (buffered : Buffered s) (base : (s.fd fd).rbuf.base = none) :
    (s.fd fd).roffset = 0 := by
  have within := buffered.within fd
  rw [buffered.blank fd base] at within
  exact Nat.le_zero.mp within

/-- What an event does to the buffer of a descriptor. -/
inductive FdChange (s t : State Seqs φ) (e : Event φ) (fd : FdRef) : Prop
  | kept (rbuf : (t.fd fd).rbuf = (s.fd fd).rbuf) (roffset : (t.fd fd).roffset = (s.fd fd).roffset)
      (rerror : (t.fd fd).rerror = (s.fd fd).rerror)
      (bytes : bytesOf t (s.fd fd).rbuf.base = bytesOf s (s.fd fd).rbuf.base)
      (quiet : deliveries fd t.trace = deliveries fd s.trace)
      (same : returnedBytes fd t.trace = returnedBytes fd s.trace)
  | failed {nread : Int} {content : List UInt8} {allocated : Bool}
      (event : e = .readCb fd nread content allocated) (below : fd < s.nfds) (nothing : nread ≤ 0)
      (rbuf : (t.fd fd).rbuf = (s.fd fd).rbuf) (roffset : (t.fd fd).roffset = (s.fd fd).roffset)
      (rerror : (t.fd fd).rerror = nread)
      (bytes : bytesOf t (s.fd fd).rbuf.base = bytesOf s (s.fd fd).rbuf.base)
      (quiet : deliveries fd t.trace = deliveries fd s.trace)
      (same : returnedBytes fd t.trace = returnedBytes fd s.trace)
  | delivered {nread : Int} {content : List UInt8} {allocated : Bool}
      (event : e = .readCb fd nread content allocated) (below : fd < s.nfds)
      (some_read : 0 < nread) (fits : nread ≤ content.length) (allocates : s.nbufs < t.nbufs)
      (rbuf : (t.fd fd).rbuf = { base := some s.nbufs, len := content.length })
      (roffset : (t.fd fd).roffset = 0) (rerror : (t.fd fd).rerror = (s.fd fd).rerror)
      (bytes : t.buf s.nbufs = content)
      (more : deliveries fd t.trace = deliveries fd s.trace ++ [content.take nread.toNat])
      (same : returnedBytes fd t.trace = returnedBytes fd s.trace)
  | took {self : ActorRef} {count : Nat} {at_loop : State Seqs φ} (exec : s.executing = some self)
      (enters : InRead s e self fd count at_loop) (sound : (s.fd fd).rerror = 0)
      (unread : (s.fd fd).roffset < (s.fd fd).rbuf.len)
      (rbuf : (t.fd fd).rbuf = (s.fd fd).rbuf)
      (roffset : (t.fd fd).roffset = (s.fd fd).roffset + copied (s.fd fd) count)
      (rerror : (t.fd fd).rerror = (s.fd fd).rerror)
      (bytes : bytesOf t (s.fd fd).rbuf.base = bytesOf s (s.fd fd).rbuf.base)
      (quiet : deliveries fd t.trace = deliveries fd s.trace)
      (more : returnedBytes fd t.trace =
        returnedBytes fd s.trace ++ (window s fd).take (copied (s.fd fd) count))

/-- The buffers, offsets and errors of all descriptors are those of another state. -/
def SameFds (s t : State Seqs φ) : Prop :=
  ∀ fd, (t.fd fd).rbuf = (s.fd fd).rbuf ∧ (t.fd fd).roffset = (s.fd fd).roffset ∧
    (t.fd fd).rerror = (s.fd fd).rerror

theorem SameFds.of_eq (same : t.fd = s.fd) : SameFds s t := fun fd => by
  rw [same]
  exact ⟨rfl, rfl, rfl⟩

/-- Changing a handle changes no buffer. -/
theorem SameFds.handle {g : FdRef} {handle : UvHandle}
    (same : t.fd = Function.update s.fd g { s.fd g with handle }) : SameFds s t := by
  intro fd
  rw [same]
  by_cases here : fd = g
  · subst here
    simp
  · simp [here]

/-- An event that changes no buffer, and whose entries of the history concern none. -/
theorem FdChange.silent (fds : SameFds s t) (buf : t.buf = s.buf) (extra : List Obs)
    (trace : t.trace = s.trace ++ extra)
    (quiet : ∀ o ∈ extra, delivery fd o = none ∧ returnedIn fd o = []) : FdChange s t e fd := by
  obtain ⟨rbuf, roffset, rerror⟩ := fds fd
  refine .kept rbuf roffset rerror (by unfold bytesOf; rw [buf]) ?_ ?_
  · have none_delivered : extra.filterMap (delivery fd) = [] :=
      List.filterMap_eq_nil_iff.mpr fun o member => (quiet o member).1
    simp [deliveries, trace, none_delivered]
  · have none_returned : extra.flatMap (returnedIn fd) = [] :=
      List.flatMap_eq_nil_iff.mpr fun o member => (quiet o member).2
    simp [returnedBytes, trace, none_returned]

/-- Allocating a buffer leaves the buffers in use alone. -/
theorem bytesOf_alloc (buffered : Buffered s) {content : List UInt8}
    (buf : t.buf = Function.update s.buf s.nbufs content) :
    bytesOf t (s.fd fd).rbuf.base = bytesOf s (s.fd fd).rbuf.base := by
  unfold bytesOf
  split
  · rename_i b base
    rw [buf, Function.update_of_ne (Nat.ne_of_lt (buffered.owned fd b base))]
  · rfl

/-- The loop of `sherry_read` sees the buffers of the state in which it was entered. -/
theorem InRead.same_fds {g : FdRef} {count : Nat} {at_loop : State Seqs φ}
    (enters : InRead s e self g count at_loop) : SameFds s at_loop := by
  rcases enters with ⟨_, _, rfl⟩ | ⟨_, _, _, rfl⟩
  · exact .handle (by rfl)
  · exact .of_eq rfl

/-- Starting to read changes nothing but a handle. -/
theorem InRead.same_rest {g : FdRef} {count : Nat} {at_loop : State Seqs φ}
    (enters : InRead s e self g count at_loop) :
    at_loop.buf = s.buf ∧ at_loop.trace = s.trace ∧ at_loop.nbufs = s.nbufs ∧
      at_loop.nfds = s.nfds := by
  rcases enters with ⟨_, _, rfl⟩ | ⟨_, _, _, rfl⟩ <;> exact ⟨rfl, rfl, rfl, rfl⟩

/-- Starting to read changes no actor, no list and no context. -/
theorem InRead.same_setting {count : Nat} {at_loop : State Seqs φ}
    (enters : InRead s e self fd count at_loop) :
    at_loop.waits = s.waits ∧ at_loop.running = s.running ∧ at_loop.cpu = s.cpu ∧
      at_loop.ctx = s.ctx := by
  rcases enters with ⟨_, _, rfl⟩ | ⟨_, _, _, rfl⟩ <;> exact ⟨rfl, rfl, rfl, rfl⟩

/-- The loop of `sherry_read` sees the unread bytes of the state in which it was entered. -/
theorem InRead.same_window {count : Nat} {at_loop : State Seqs φ}
    (enters : InRead s e self fd count at_loop) :
    copied (at_loop.fd fd) count = copied (s.fd fd) count ∧ window at_loop fd = window s fd := by
  obtain ⟨rbuf, roffset, _⟩ := enters.same_fds fd
  obtain ⟨buf, _⟩ := enters.same_rest
  simp only [copied, window, bytesOf, rbuf, roffset, buf, and_self]

/-- The loop of `sherry_read` returns unread bytes of the state in which it was entered. -/
theorem InRead.consume_trace {count : Nat} {at_loop : State Seqs φ}
    (enters : InRead s e self fd count at_loop) :
    (consume at_loop self fd count).trace = s.trace ++
      [.read self fd (copied (s.fd fd) count) ((window s fd).take (copied (s.fd fd) count))] := by
  obtain ⟨amount, bytes⟩ := enters.same_window
  rw [← amount, ← bytes, ← enters.same_rest.2.1]
  rfl

/-- A read from one descriptor. -/
theorem consume_change {g : FdRef} {count : Nat} {at_loop : State Seqs φ}
    (exec : s.executing = some self) (enters : InRead s e self g count at_loop)
    (sound : (s.fd g).rerror = 0) (unread : (s.fd g).roffset < (s.fd g).rbuf.len) (fd : FdRef) :
    FdChange s (consume at_loop self g count) e fd := by
  obtain ⟨rbuf, roffset, rerror⟩ := enters.same_fds fd
  obtain ⟨buf, trace, _⟩ := enters.same_rest
  have bytes : ∀ base, bytesOf at_loop base = bytesOf s base := fun base => by
    unfold bytesOf
    rw [buf]
  by_cases here : fd = g
  · subst here
    obtain ⟨amount, shown⟩ := enters.same_window
    refine .took exec enters sound unread ?_ ?_ ?_ (bytes _) ?_ ?_
    · simpa [consume] using rbuf
    · simp [consume, roffset, amount]
    · simpa [consume] using rerror
    · simp [consume, deliveries, delivery, trace]
    · simp [consume, returnedBytes, returnedIn, trace, amount, shown]
  · have other : g ≠ fd := Ne.symm here
    refine .kept ?_ ?_ ?_ (bytes _) ?_ ?_
    · simpa [consume, here] using rbuf
    · simpa [consume, here] using roffset
    · simpa [consume, here] using rerror
    · simp [consume, deliveries, delivery, trace]
    · simp [consume, returnedBytes, returnedIn, trace, other]

/-- A failed delivery to one descriptor. -/
theorem failRead_change (buffered : Buffered s) {g : FdRef} {nread : Int} {content : List UInt8}
    {allocated : Bool} (below : g < s.nfds) (nothing : nread ≤ 0) (fd : FdRef) :
    FdChange s (failRead s g nread content allocated) (.readCb g nread content allocated) fd := by
  have bytes : bytesOf (failRead s g nread content allocated) (s.fd fd).rbuf.base =
      bytesOf s (s.fd fd).rbuf.base := by
    cases allocated with
    | false => rfl
    | true => exact bytesOf_alloc buffered rfl
  by_cases here : fd = g
  · subst here
    exact .failed rfl below nothing (by simp [failRead]) (by simp [failRead]) (by simp [failRead])
      bytes rfl rfl
  · exact .kept (by simp [failRead, here]) (by simp [failRead, here]) (by simp [failRead, here])
      bytes rfl rfl

/-- A delivery to one descriptor. -/
theorem receive_change (buffered : Buffered s) {g : FdRef} {nread : Int} {content : List UInt8}
    {allocated : Bool} (below : g < s.nfds) (some_read : 0 < nread)
    (fits : nread ≤ content.length) (fd : FdRef) :
    FdChange s (wakeAll (receive s g nread content) (.waitq g .read))
      (.readCb g nread content allocated) fd := by
  by_cases here : fd = g
  · subst here
    refine .delivered rfl below some_read fits (Nat.lt_succ_self _) ?_ ?_ ?_ ?_ ?_ ?_
    · simp [wakeAll, receive]
    · cases base : (s.fd fd).rbuf.base with
      | none => simp [wakeAll, receive, base, buffered.zero base]
      | some b => simp [wakeAll, receive, base]
    · simp [wakeAll, receive]
    · simp [wakeAll, receive]
    · simp [wakeAll, receive, deliveries, delivery]
    · simp [wakeAll, receive, returnedBytes, returnedIn]
  · have other : g ≠ fd := Ne.symm here
    refine .kept ?_ ?_ ?_ (bytesOf_alloc buffered rfl) ?_ ?_
    · simp [wakeAll, receive, here]
    · simp [wakeAll, receive, here]
    · simp [wakeAll, receive, here]
    · simp [wakeAll, receive, deliveries, delivery, other]
    · simp [wakeAll, receive, returnedBytes, returnedIn]

/-- A new descriptor is as blank as the memory it is made from. -/
theorem openedFd_same (buffered : Buffered s) : SameFds s (openedFd s) := by
  intro fd
  by_cases new : fd = s.nfds
  · subst new
    obtain ⟨rbuf, roffset, rerror⟩ := buffered.fresh s.nfds (Nat.le_refl _)
    simp [openedFd, rbuf, roffset, rerror]
  · simp [openedFd, new]

/-- An open descriptor was allocated. -/
theorem openFd_below (opened : s.openFd fd = true) : fd < s.nfds := by
  simp only [State.openFd, Bool.and_eq_true] at opened
  exact (liveFd_iff.mp opened.1).1

/-- An event changes the buffer of a descriptor in one of four ways. -/
theorem Outcome.fd_change (buffered : Buffered s) (outcome : Outcome s e t) (fd : FdRef) :
    FdChange s t e fd := by
  cases outcome with
  | computes => exact .silent (.of_eq rfl) rfl [] (by simp) (by simp)
  | spawns =>
    rw [sherrySpawn_eq]
    exact .silent (.of_eq rfl) rfl _ rfl (by simp [delivery, returnedIn])
  | yields => exact .silent (.of_eq rfl) rfl _ rfl (by simp [delivery, returnedIn])
  | sends =>
    unfold revoke
    split <;> exact .silent (.of_eq rfl) rfl _ rfl (by simp [delivery, returnedIn])
  | awaits => exact .silent (.of_eq rfl) rfl _ rfl (by simp [delivery, returnedIn])
  | receives => exact .silent (.of_eq rfl) rfl _ rfl (by simp [delivery, returnedIn])
  | frees => exact .silent (.of_eq rfl) rfl [] (by simp [sherryMsgFree, State.srfree]) (by simp)
  | opens => exact .silent (openedFd_same buffered) rfl _ rfl (by simp [delivery, returnedIn])
  | opensNone => exact .silent (.of_eq rfl) rfl _ rfl (by simp [delivery, returnedIn])
  | listens => exact .silent (.handle (by rfl)) rfl _ rfl (by simp [delivery, returnedIn])
  | listensNot => exact .silent (.of_eq rfl) rfl _ rfl (by simp [delivery, returnedIn])
  | accepts => exact .silent (.of_eq rfl) rfl _ rfl (by simp [delivery, returnedIn])
  | blocksAccept => exact .silent (.of_eq rfl) rfl _ rfl (by simp [delivery, returnedIn])
  | refused => exact .silent (.of_eq rfl) rfl _ rfl (by simp [delivery, returnedIn])
  | readError _ enters =>
    obtain ⟨buf, trace, _⟩ := enters.same_rest
    refine .silent enters.same_fds buf _ (by rw [← trace]; rfl) (by simp [delivery, returnedIn])
  | readBytes exec enters sound _ unread => exact consume_change exec enters sound unread fd
  | blocksRead _ enters =>
    obtain ⟨buf, trace, _⟩ := enters.same_rest
    refine .silent enters.same_fds buf _ (by rw [← trace]; rfl) (by simp [delivery, returnedIn])
  | submits =>
    refine .silent (.of_eq rfl) rfl _ (by simp only [park, List.append_assoc]; rfl) ?_
    simp [delivery, returnedIn]
  | closes => exact .silent (.handle (by rfl)) rfl [] (by simp [State.setFd]) (by simp)
  | returns =>
    refine .silent (.of_eq rfl) rfl _ (by simp only [park, List.append_assoc]; rfl) ?_
    simp [delivery, returnedIn]
  | lingers => exact .silent (.of_eq rfl) rfl _ rfl (by simp [delivery, returnedIn])
  | ends => exact .silent (.of_eq rfl) rfl [] (by simp [ended]) (by simp)
  | begins =>
    exact .silent (.of_eq rfl) rfl [] (by simp [State.setFrame, State.setActor]) (by simp)
  | wrote => exact .silent (.of_eq rfl) rfl _ rfl (by simp [delivery, returnedIn])
  | dispatches => exact .silent (.of_eq rfl) rfl _ rfl (by simp [delivery, returnedIn])
  | polls => exact .silent (.of_eq rfl) rfl _ rfl (by simp [delivery, returnedIn])
  | polled => exact .silent (.of_eq rfl) rfl [] (by simp) (by simp)
  | connects => exact .silent (.of_eq rfl) rfl [] (by simp [wakeAll]) (by simp)
  | fails _ _ live nothing =>
    exact failRead_change buffered (openFd_below live) nothing fd
  | delivers _ _ live some_read fits =>
    exact receive_change buffered (openFd_below live) some_read fits fd
  | writes => exact .silent (.of_eq rfl) rfl _ rfl (by simp [delivery, returnedIn])
  | closed => exact .silent (.of_eq rfl) rfl [] (by simp [released]) (by simp)

/-- Every step keeps the invariant of the buffers. -/
theorem buffered_step (inv : Inv s) (buffered : Buffered s) (happened : step s e = .ok t) :
    Buffered t := by
  have outcome := step_outcome inv happened
  obtain ⟨_, nfds, nbufs⟩ := outcome.counts_le
  constructor
  · intro fd b base
    cases outcome.fd_change buffered fd with
    | kept rbuf => exact Nat.lt_of_lt_of_le (buffered.owned fd b (rbuf ▸ base)) nbufs
    | failed _ _ _ rbuf => exact Nat.lt_of_lt_of_le (buffered.owned fd b (rbuf ▸ base)) nbufs
    | delivered _ _ _ _ allocates rbuf =>
      rw [rbuf] at base
      exact Option.some.inj base ▸ allocates
    | took _ _ _ _ rbuf => exact Nat.lt_of_lt_of_le (buffered.owned fd b (rbuf ▸ base)) nbufs
  · intro fd
    cases outcome.fd_change buffered fd with
    | kept rbuf _ _ bytes => rw [rbuf, bytes, buffered.size]
    | failed _ _ _ rbuf _ _ bytes => rw [rbuf, bytes, buffered.size]
    | delivered _ _ _ _ _ rbuf _ _ bytes =>
      rw [rbuf]
      simp only [bytesOf, bytes]
    | took _ _ _ _ rbuf _ _ bytes => rw [rbuf, bytes, buffered.size]
  · intro fd
    have within := buffered.within fd
    cases outcome.fd_change buffered fd with
    | kept rbuf roffset => rwa [rbuf, roffset]
    | failed _ _ _ rbuf roffset => rwa [rbuf, roffset]
    | delivered _ _ _ _ _ rbuf roffset =>
      rw [roffset]
      exact Nat.zero_le _
    | took _ _ _ _ rbuf roffset =>
      rw [rbuf, roffset]
      unfold copied
      omega
  · intro fd base
    cases outcome.fd_change buffered fd with
    | kept rbuf =>
      rw [rbuf] at base ⊢
      exact buffered.blank fd base
    | failed _ _ _ rbuf =>
      rw [rbuf] at base ⊢
      exact buffered.blank fd base
    | delivered _ _ _ _ _ rbuf =>
      rw [rbuf] at base
      cases base
    | took _ _ _ _ rbuf =>
      rw [rbuf] at base ⊢
      exact buffered.blank fd base
  · intro fd above
    have before : s.nfds ≤ fd := Nat.le_trans nfds above
    have blank := buffered.fresh fd before
    cases outcome.fd_change buffered fd with
    | kept rbuf roffset rerror => rwa [rbuf, roffset, rerror]
    | failed _ below => exact absurd below (Nat.not_lt.mpr before)
    | delivered _ below => exact absurd below (Nat.not_lt.mpr before)
    | took _ _ _ unread =>
      rw [blank.1] at unread
      exact absurd unread (Nat.not_lt_zero _)

/-- `sherry_init` leaves no descriptor. -/
theorem buffered_sherryInit : Buffered (sherryInit : State Seqs φ) := by
  rw [sherryInit_eq]
  constructor <;> simp [bytesOf]

/-- Every step keeps the system and its buffers sound. -/
theorem sound_buffered_step (both : Sound s ∧ Buffered s) (happened : step s e = .ok t) :
    Sound t ∧ Buffered t := by
  obtain ⟨inv, _, after⟩ := step_sound both.1 happened
  exact ⟨after, buffered_step inv both.2 happened⟩

/-- The system and its buffers are sound after `sherry_init`. -/
theorem sound_buffered_sherryInit :
    Sound (sherryInit : State Seqs φ) ∧ Buffered (sherryInit : State Seqs φ) :=
  ⟨fun _ => inv_sherryInit, buffered_sherryInit⟩

/-- In every state of a run the invariant of the buffers holds. -/
theorem run_buffered {es : List (Event φ)}
    (ran : Machine.run step (sherryInit : State Seqs φ) es = .ok s) : Buffered s :=
  run_all buffered_sherryInit buffered_step ran

end Sherry
