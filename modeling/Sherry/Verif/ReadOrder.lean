import Sherry.Verif.ReadErrors

/-!
# Errors and unread bytes

The loop of `sherry_read` tests the recorded error before the buffer, so an error overtakes the
bytes that were delivered before it and are still unread. The two can meet only if `read_cb`
reports the error while bytes are unread, or delivers bytes after an error. In a run in which it
does neither, and replaces no buffer with unread bytes, every error is returned after the bytes.
-/

namespace Sherry

variable {φ : Type} {s t : State Seqs φ} {self a : ActorRef} {e : Event φ} {fd : FdRef}
  {count : Nat}

/-- An error that `read_cb` reports for the descriptor finds no unread bytes, and data no recorded
error. -/
def InOrder (fd : FdRef) (s : State Seqs φ) (e : Event φ) : Prop :=
  ∀ result ∈ e.readResult, result.1 = fd → (result.2 < 0 → ¬Unread s fd) ∧
    (0 < result.2 → (s.fd fd).rerror = 0)

instance (fd : FdRef) (s : State Seqs φ) (e : Event φ) : Decidable (InOrder fd s e) :=
  inferInstanceAs (Decidable (∀ result ∈ e.readResult, result.1 = fd → _ ∧ _))

/-- The descriptor does not have both an error and unread bytes. -/
def Ordered (fd : FdRef) (s : State Seqs φ) : Prop := (s.fd fd).rerror ≠ 0 → ¬Unread s fd

/-- The event returns from `sherry_read` with this value. -/
def ReadReturns (s t : State Seqs φ) (fd : FdRef) (ret : Int) : Prop :=
  ∃ a bytes, t.trace = s.trace ++ [.read a fd ret bytes]

/-- A buffer has unread bytes exactly when its offset is before its end. -/
theorem Buffered.unread_iff (buffered : Buffered s) :
    Unread s fd ↔ (s.fd fd).roffset < (s.fd fd).rbuf.len := by
  refine ⟨fun unread => unread.2, fun unread => ⟨?_, unread⟩⟩
  cases base : (s.fd fd).rbuf.base with
  | some b => rfl
  | none =>
    rw [buffered.blank fd base] at unread
    exact absurd unread (Nat.not_lt_zero _)

/-- A return from `sherry_read` has one descriptor and one value. -/
theorem ReadReturns.unique {ret other : Int} {bytes : List UInt8}
    (returns : ReadReturns s t fd ret) (trace : t.trace = s.trace ++ [.read a fd other bytes]) :
    ret = other := by
  obtain ⟨b, more, same⟩ := returns
  have last := List.append_cancel_left (same.symm.trans trace)
  exact (Obs.read.inj (List.cons.inj last).1).2.2.1

/-- The event runs the loop of `sherry_read` once, on a descriptor that was not freed. -/
theorem readAt_loop (reads : readAt s e = some (fd, count)) (happened : step s e = .ok t) :
    ∃ self at_loop, s.executing = some self ∧ InRead s e self fd count at_loop ∧
      s.liveFd fd = true ∧ t = readLoop at_loop self fd count := by
  cases e with
  | read f n err =>
    obtain ⟨self, user, live, done⟩ := fdCall_ok.mp happened
    obtain ⟨_, exec, frame⟩ := inUser_iff.mp user
    by_cases started : err = 0
    · subst started
      cases reads
      exact ⟨self, _, exec, .inl ⟨rfl, frame, rfl⟩, live, (Except.ok.inj done).symm⟩
    · simp [readAt, started] at reads
  | resume err =>
    obtain ⟨_, self, exec, resumed⟩ := resume_step.mp happened
    simp only [readAt, exec] at reads
    split at reads <;> cases reads
    rename_i frame
    rw [resume_ok, frame] at resumed
    exact ⟨self, s, exec, .inr ⟨err, rfl, frame, rfl⟩, resumed.1, resumed.2⟩
  | _ => exact (Option.some_ne_none _ reads.symm).elim

/-- A call with an error recorded returns it, whether or not there are unread bytes. -/
theorem read_error (reads : readAt s e = some (fd, count)) (error : (s.fd fd).rerror ≠ 0)
    (happened : step s e = .ok t) : ReadReturns s t fd (readReturn (s.fd fd).rerror) := by
  obtain ⟨self, at_loop, _, enters, _, rfl⟩ := readAt_loop reads happened
  have same : (at_loop.fd fd).rerror = (s.fd fd).rerror := (enters.same_fds fd).2.2
  have trace : at_loop.trace = s.trace := enters.same_rest.2.1
  rw [readLoop_error (by rw [same]; exact error), same]
  exact ⟨self, [], by rw [← trace]; rfl⟩

/-- A call that finds no error and unread bytes copies some of them and returns. -/
theorem read_consumes (reads : readAt s e = some (fd, count)) (sound : (s.fd fd).rerror = 0)
    (unread : Unread s fd) (happened : step s e = .ok t) :
    ∃ self at_loop, s.executing = some self ∧ InRead s e self fd count at_loop ∧
      s.liveFd fd = true ∧ t = consume at_loop self fd count := by
  obtain ⟨self, at_loop, exec, enters, live, rfl⟩ := readAt_loop reads happened
  obtain ⟨rbuf, roffset, rerror⟩ := enters.same_fds fd
  refine ⟨self, at_loop, exec, enters, live, ?_⟩
  apply readLoop_bytes
  · rw [rerror, sound]
  · rw [rbuf]
    exact unread.1
  · rw [rbuf, roffset]
    exact unread.2

/-- A call that finds neither an error nor an unread byte suspends its actor in the wait queue. -/
theorem read_parks (inv : Inv s) (reads : readAt s e = some (fd, count))
    (sound : (s.fd fd).rerror = 0) (nothing : ¬Unread s fd) (happened : step s e = .ok t) :
    ∃ self at_loop, s.executing = some self ∧ InRead s e self fd count at_loop ∧
      t = park at_loop self .waitEv (some (.waitq fd .read)) (.read fd count) := by
  obtain ⟨self, at_loop, exec, enters, _, rfl⟩ := readAt_loop reads happened
  obtain ⟨rbuf, roffset, rerror⟩ := enters.same_fds fd
  have current : at_loop.running = self :=
    enters.same_setting.2.1.trans (inv.placed.current self exec).1
  refine ⟨self, at_loop, exec, enters, ?_⟩
  rw [readLoop_empty (by rw [rerror, sound]) (by rw [rbuf, roffset]; exact nothing),
    blockFd_eq current]

/-- A call that finds no error and unread bytes returns some of them. -/
theorem read_bytes (reads : readAt s e = some (fd, count)) (some_asked : 0 < count)
    (sound : (s.fd fd).rerror = 0) (unread : Unread s fd) (happened : step s e = .ok t) :
    ∃ n : Nat, 0 < n ∧ ReadReturns s t fd n := by
  obtain ⟨self, at_loop, _, enters, _, rfl⟩ := read_consumes reads sound unread happened
  refine ⟨copied (s.fd fd) count, ?_, self, _, enters.consume_trace⟩
  have more := unread.2
  unfold copied
  omega

/-- A `sherry_read` returns zero or the recorded error only after all bytes, if and only if no
error is recorded while bytes are unread. -/
theorem read_overtakes (reads : readAt s e = some (fd, count)) (some_asked : 0 < count)
    (happened : step s e = .ok t) :
    (∀ ret, ReadReturns s t fd ret → ret = 0 ∨ ret = (s.fd fd).rerror → ¬Unread s fd) ↔
      (s.fd fd).rerror = 0 ∨ ¬Unread s fd := by
  by_cases unread : Unread s fd
  · by_cases sound : (s.fd fd).rerror = 0
    · refine iff_of_true (fun ret returns short => ?_) (.inl sound)
      obtain ⟨n, positive, a, bytes, trace⟩ := read_bytes reads some_asked sound unread happened
      have same := returns.unique trace
      rw [sound, or_self] at short
      omega
    · refine iff_of_false (fun ordered => ?_) (not_or.mpr ⟨sound, not_not.mpr unread⟩)
      apply ordered _ (read_error reads sound happened) _ unread
      unfold readReturn
      split
      · exact .inl rfl
      · exact .inr rfl
  · exact iff_of_true (fun _ _ _ => unread) (.inr unread)

/-- A delivery leaves the error alone, and unread bytes. -/
theorem readCb_fills (inv : Inv s) (buffered : Buffered s) {nread : Int} {content : List UInt8}
    {allocated : Bool} (some_read : 0 < nread)
    (happened : step s (.readCb fd nread content allocated) = .ok t) :
    (t.fd fd).rerror = (s.fd fd).rerror ∧ Unread t fd := by
  obtain ⟨_, ⟨_, _, fits, _⟩, _⟩ := onLoop_ok.mp happened
  have more : 0 < content.length := by omega
  rw [step_delivers inv some_read happened]
  have offset : (if (s.fd fd).rbuf.base.isSome then 0 else (s.fd fd).roffset) = 0 := by
    split
    · rfl
    · rename_i base
      exact buffered.zero (by simpa using base)
  simp [wakeAll, receive, Unread, offset, more]

/-- The next event keeps errors and unread bytes apart exactly when it is in order. -/
theorem ordered_step (inv : Inv s) (buffered : Buffered s) (ordered : Ordered fd s)
    (happened : step s e = .ok t) : InOrder fd s e ↔ Ordered fd t := by
  constructor
  · intro in_order error
    rw [(buffered_step inv buffered happened).unread_iff]
    have before : ¬Unread s fd → ¬(s.fd fd).roffset < (s.fd fd).rbuf.len :=
      buffered.unread_iff.not.mp
    cases (step_outcome inv happened).fd_change buffered fd with
    | kept rbuf roffset rerror =>
      rw [rbuf, roffset]
      exact before (ordered (rerror ▸ error))
    | @failed nread _ _ event _ nothing rbuf roffset rerror =>
      subst event
      rw [rerror] at error
      rw [rbuf, roffset]
      exact before ((in_order (fd, nread) rfl rfl).1 (by omega))
    | @delivered nread _ _ event _ some_read _ _ _ _ rerror =>
      subst event
      exact absurd ((in_order (fd, nread) rfl rfl).2 some_read) (rerror ▸ error)
    | took _ _ sound _ _ _ rerror => exact absurd sound (rerror ▸ error)
  · intro apart result event here
    cases e with
    | readCb f nread content allocated =>
      cases event
      subst here
      refine ⟨fun error unread => ?_, fun some_read => ?_⟩
      · obtain ⟨_, rerror, still⟩ := readCb_error error happened
        exact apart (rerror ▸ Int.ne_of_lt error) (still.mpr unread)
      · obtain ⟨rerror, unread⟩ := readCb_fills inv buffered some_read happened
        by_contra error
        exact apart (rerror ▸ error) unread
    | _ => cases event

/-- Without unread bytes a complete stream has returned all it received. -/
theorem complete_drained (buffered : Buffered s) (valid : (flow s fd).Valid)
    (complete : (flow s fd).Complete) (none : ¬Unread s fd) :
    (receivedBytes fd s.trace).Sublist (returnedBytes fd s.trace) := by
  have short : (s.fd fd).rbuf.len ≤ (s.fd fd).roffset :=
    Nat.not_lt.mp (buffered.unread_iff.not.mp none)
  have nothing : window s fd = [] :=
    List.drop_eq_nil_of_le (by rw [buffered.size]; exact short)
  have all := complete.received_sublist valid
  rw [show (flow s fd).window = window s fd from rfl, nothing, List.append_nil] at all
  exact all

/-- A `sherry_read` returns zero or the recorded error only after the unread bytes, exactly when
it does not find both. No state of a run has both exactly if its `read_cb` calls are in order. In
a run in which they are, and data finds no received byte unread, a `sherry_read` returns zero or
the recorded error only after all bytes received before. -/
theorem run_read_order {es : List (Event φ)}
    (ran : Machine.run step (sherryInit : State Seqs φ) es = .ok s) (fd : FdRef) :
    (∀ e t count, step s e = .ok t → readAt s e = some (fd, count) → 0 < count →
        ((∀ ret, ReadReturns s t fd ret → ret = 0 ∨ ret = (s.fd fd).rerror → ¬Unread s fd) ↔
          (s.fd fd).rerror = 0 ∨ ¬Unread s fd)) ∧
      (Machine.Along step (InOrder fd) (sherryInit : State Seqs φ) es ↔
        ∀ first rest m, es = first ++ rest →
          Machine.run step (sherryInit : State Seqs φ) first = .ok m →
            (m.fd fd).rerror ≠ 0 → ¬Unread m fd) ∧
      (Machine.Along step (fun s e => InOrder fd s e ∧ Drained fd s e)
          (sherryInit : State Seqs φ) es →
        ∀ e t count, step s e = .ok t → readAt s e = some (fd, count) → 0 < count →
          ∀ ret, ReadReturns s t fd ret → ret = 0 ∨ ret = (s.fd fd).rerror →
            ¬Unread s fd ∧ (receivedBytes fd s.trace).Sublist (returnedBytes fd s.trace)) := by
  have decides : ∀ {s : State Seqs φ} {e : Event φ} {t : State Seqs φ},
      Sound s ∧ Buffered s → Ordered fd s → step s e = .ok t →
        (InOrder fd s e ↔ Ordered fd t) := by
    rintro s e t ⟨sound, buffered⟩ ordered happened
    exact ordered_step (step_sound sound happened).1 buffered ordered happened
  have fine : Ordered fd (sherryInit : State Seqs φ) := by
    intro error
    rw [sherryInit_eq] at error
    exact absurd rfl error
  have exactly :=
    Machine.along_iff_good sound_buffered_step decides sound_buffered_sherryInit fine ran
  refine ⟨?_, exactly, ?_⟩
  · intro e t count happened reads some_asked
    exact read_overtakes reads some_asked happened
  · intro met e t count happened reads some_asked ret returns short
    have in_order := met.imp fun _ _ both => both.1
    have drained := met.imp fun _ _ both => both.2
    have ordered : Ordered fd s := exactly.mp in_order es [] s (List.append_nil es).symm ran
    have apart : (s.fd fd).rerror = 0 ∨ ¬Unread s fd := by
      by_cases sound : (s.fd fd).rerror = 0
      · exact .inl sound
      · exact .inr (ordered sound)
    have none := (read_overtakes reads some_asked happened).mpr apart ret returns short
    obtain ⟨valid, complete⟩ := run_complete drained ran
    exact ⟨none, complete_drained (run_buffered ran) valid complete none⟩

/-- Main reads two bytes from a connection and waits for another connection, which arrives with the
end of file of the first. -/
def orderedRun : List (Event Unit) :=
  connected ++ [.read 1 5 0, .schdule, .readCb 1 2 [65, 66] true, .uvReturn, .schdule, .resume 0,
    .fdTcp true, .accept 0 2 uvEagain, .schdule, .readCb 1 uvEof [] false, .listenCb 0 0,
    .uvReturn, .schdule, .resume 0]

/-- The next `sherry_read` of main returns zero, after the two bytes. -/
theorem run_read_order_eof :
    ∃ s t, Machine.run step (sherryInit : State Seqs Unit) orderedRun = .ok s ∧
      step s (.read 1 5 0) = .ok t ∧ t.trace = s.trace ++ [.read 0 1 0 []] ∧
        (receivedBytes 1 s.trace).Sublist (returnedBytes 1 s.trace) := by
  have met : Machine.Along step (fun s e => InOrder 1 s e ∧ Drained 1 s e)
      (sherryInit : State Seqs Unit) orderedRun := by
    decide +kernel
  obtain ⟨s, ran, t, happened, trace⟩ :
      ∃ s, Machine.run step (sherryInit : State Seqs Unit) orderedRun = .ok s ∧
        ∃ t, step s (.read 1 5 0) = .ok t ∧ t.trace = s.trace ++ [.read 0 1 0 []] := by
    decide +kernel
  have after := (run_read_order ran 1).2.2 met (.read 1 5 0) t 5 happened rfl (by decide) 0
    ⟨0, [], trace⟩ (.inl rfl)
  exact ⟨s, t, ran, happened, trace, after.2⟩

/-- Main blocks in `sherry_read` on a connection; bytes and the end of file arrive before it is
resumed. -/
def overtakenRun : List (Event Unit) :=
  connected ++ [.read 1 5 0, .schdule, .readCb 1 2 [65, 66] true, .readCb 1 uvEof [] false,
    .uvReturn, .schdule]

/-- Main returns zero from `sherry_read`, with two bytes unread in the buffer. -/
theorem eof_overtakes :
    ∃ s, Machine.run step (sherryInit : State Seqs Unit) overtakenRun = .ok s ∧
      readAt s (.resume 0) = some (1, 5) ∧ Unread s 1 ∧
        ∃ t, step s (.resume 0) = .ok t ∧ t.trace = s.trace ++ [.read 0 1 0 []] := by
  decide +kernel

end Sherry
