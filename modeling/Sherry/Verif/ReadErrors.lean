import Sherry.Verif.WaitQueues

/-!
# Read errors

`read_cb` records an error and returns without `unblock_all`. Who is in the wait queue when the
error arrives therefore stays there. Later calls of `sherry_read` see the error at once, but
`sherry_accept` blocks in the same queue without looking at it. So nobody waits on a descriptor
with an error exactly in the runs in which no error finds the queue occupied and no
`sherry_accept` joins it afterwards.
-/

namespace Sherry

variable {φ : Type} {s t : State Seqs φ} {a : ActorRef} {e : Event φ} {fd : FdRef}

/-- The suspended call is the loop of `sherry_read`. -/
def Frame.isRead : Frame → Bool
  | .read _ _ => true
  | _ => false

/-- The actors blocked in `sherry_read` on a descriptor, in the order of its wait queue. -/
def readers (s : State Seqs φ) (fd : FdRef) : List ActorRef :=
  (s.waits.seq (.waitq fd .read)).filter fun a => (s.actor a).frame.isRead

/-- An error reported for the descriptor finds its wait queue empty, and no `sherry_accept` blocks
on it while an error is recorded. -/
def Heard (fd : FdRef) (s : State Seqs φ) (e : Event φ) : Prop :=
  (∀ result ∈ e.readResult, result.1 = fd → result.2 < 0 → s.waits.seq (.waitq fd .read) = []) ∧
    ∀ call ∈ acceptAt s e, call.1 = fd → call.2 = uvEagain → (s.fd fd).rerror = 0

instance (fd : FdRef) (s : State Seqs φ) (e : Event φ) : Decidable (Heard fd s e) :=
  inferInstanceAs (Decidable
    ((∀ result ∈ e.readResult, result.1 = fd → result.2 < 0 → _) ∧
      ∀ call ∈ acceptAt s e, call.1 = fd → call.2 = uvEagain → _))

/-- Nobody waits on a descriptor with an error. -/
def Informed (fd : FdRef) (s : State Seqs φ) : Prop :=
  (s.fd fd).rerror ≠ 0 → s.waits.seq (.waitq fd .read) = []

/-- A blocked reader waits for an event, in `sherry_read` on the descriptor. -/
theorem mem_readers (inv : Inv s) :
    a ∈ readers s fd ↔
      (s.actor a).status = .waitEv ∧ ∃ count, (s.actor a).frame = .read fd count := by
  unfold readers
  rw [List.mem_filter, inv.placed.mem_waitq]
  constructor
  · rintro ⟨⟨_, status, frame | ⟨_, frame⟩⟩, reads⟩
    · exact ⟨status, frame⟩
    · rw [frame] at reads
      cases reads
  · rintro ⟨status, count, frame⟩
    exact ⟨⟨rfl, status, .inl ⟨count, frame⟩⟩, by rw [frame]; rfl⟩

/-- An error is recorded, and changes neither a list nor the buffer. -/
theorem readCb_error {nread : Int} {content : List UInt8} {allocated : Bool} (error : nread < 0)
    (happened : step s (.readCb fd nread content allocated) = .ok t) :
    t.waits = s.waits ∧ (t.fd fd).rerror = nread ∧ (Unread t fd ↔ Unread s fd) := by
  rw [step_fails (Int.le_of_lt error) happened]
  exact ⟨rfl, by simp [failRead], by simp [failRead, Unread]⟩

/-- Only `sherry_accept` blocks on a descriptor with an error. -/
theorem blocksOn_error (blocks : blocksOn s e = some fd) (error : (s.fd fd).rerror ≠ 0) :
    acceptAt s e = some (fd, uvEagain) := by
  unfold blocksOn at blocks
  split at blocks
  · split at blocks <;> cases blocks
    rename_i empty
    exact absurd empty.1 error
  · rename_i accepts
    split at blocks <;> cases blocks
    rename_i again
    rw [accepts, again]
  · cases blocks

/-- The next event leaves nobody waiting on an error exactly when it is heard. -/
theorem heard_iff (inv : Inv s) (buffered : Buffered s) (informed : Informed fd s)
    (happened : step s e = .ok t) : Heard fd s e ↔ Informed fd t := by
  constructor
  · rintro ⟨quiet, sound⟩ error
    have kept : (t.fd fd).rerror = (s.fd fd).rerror → t.waits.seq (.waitq fd .read) = [] := by
      intro rerror
      rw [rerror] at error
      have change : WaitqChange s t e fd .read := waitq_step inv happened
      cases change with
      | kept same => rw [same, informed error]
      | grows _ blocks => exact absurd (sound _ (blocksOn_error blocks error) rfl rfl) error
      | drains _ empty => exact empty
    cases (step_outcome inv happened).fd_change buffered fd with
    | kept _ _ rerror => exact kept rerror
    | @failed nread _ _ event _ nothing _ _ rerror =>
      subst event
      have negative : nread < 0 := Int.lt_iff_le_and_ne.mpr ⟨nothing, rerror ▸ error⟩
      rw [(readCb_error negative happened).1]
      exact quiet (fd, nread) rfl rfl negative
    | delivered _ _ _ _ _ _ _ rerror => exact kept rerror
    | took _ _ _ _ _ _ rerror => exact kept rerror
  · intro after
    constructor
    · intro result event here error
      cases e with
      | readCb f nread content allocated =>
        cases event
        subst here
        obtain ⟨waits, rerror, _⟩ := readCb_error error happened
        rw [← waits]
        exact after (rerror ▸ Int.ne_of_lt error)
      | _ => cases event
    · rintro ⟨server, err⟩ accepts rfl again
      subst again
      obtain ⟨self, client, _, rfl⟩ := accept_parks inv accepts happened
      by_contra error
      have queue := after error
      simp [park, enlist] at queue

/-- A resumed `sherry_read` returns a recorded error, zero for the end of the file. -/
theorem resume_error {count : Nat} {err : Int} (exec : s.executing = some a)
    (frame : (s.actor a).frame = .read fd count) (error : (s.fd fd).rerror ≠ 0)
    (happened : step s (.resume err) = .ok t) :
    t.trace = s.trace ++ [.read a fd (readReturn (s.fd fd).rerror) []] := by
  obtain ⟨_, self, exec', resumed⟩ := resume_step.mp happened
  obtain rfl : a = self := Option.some.inj (exec.symm.trans exec')
  rw [resume_ok, frame] at resumed
  rw [resumed.2, readLoop_error error]
  rfl

/-- An error wakes the actors blocked in `sherry_read` exactly when there are none; a `sherry_read`
resumed with an error recorded returns it; and nobody ever waits on a descriptor with an error
exactly in the runs in which every error finds its wait queue empty and no `sherry_accept` blocks
on it afterwards. -/
theorem run_read_error {es : List (Event φ)}
    (ran : Machine.run step (sherryInit : State Seqs φ) es = .ok s) (fd : FdRef) :
    (∀ nread content allocated t, nread < 0 →
      step s (.readCb fd nread content allocated) = .ok t →
        ((∀ a ∈ readers s fd,
            (t.actor a).status = .ready ∧ a ∉ t.waits.seq (.waitq fd .read)) ↔
          readers s fd = [])) ∧
      (∀ a count err t, s.executing = some a → (s.actor a).frame = .read fd count →
        (s.fd fd).rerror ≠ 0 → step s (.resume err) = .ok t →
          t.trace = s.trace ++ [.read a fd (readReturn (s.fd fd).rerror) []]) ∧
      (Machine.Along step (Heard fd) (sherryInit : State Seqs φ) es ↔
        ∀ first rest m, es = first ++ rest →
          Machine.run step (sherryInit : State Seqs φ) first = .ok m →
            (m.fd fd).rerror ≠ 0 → m.waits.seq (.waitq fd .read) = []) := by
  refine ⟨?_, fun a count err t => resume_error, ?_⟩
  · intro nread content allocated t error happened
    obtain ⟨waits, _⟩ := readCb_error error happened
    constructor
    · intro woken
      apply List.eq_nil_iff_forall_not_mem.mpr
      intro a member
      apply (woken a member).2
      rw [waits]
      exact (List.mem_filter.mp member).1
    · intro none a member
      rw [none] at member
      cases member
  · have decides : ∀ {s : State Seqs φ} {e : Event φ} {t : State Seqs φ},
        Sound s ∧ Buffered s → Informed fd s → step s e = .ok t →
          (Heard fd s e ↔ Informed fd t) := by
      rintro s e t ⟨sound, buffered⟩ informed happened
      exact heard_iff (step_sound sound happened).1 buffered informed happened
    have fine : Informed fd (sherryInit : State Seqs φ) := by
      intro error
      rw [sherryInit_eq] at error
      exact absurd rfl error
    exact Machine.along_iff_good sound_buffered_step decides sound_buffered_sherryInit fine ran

/-- Main is blocked in `sherry_read` on a connection, and `schdule` is in `uv_run`. -/
def blockedRun : List (Event Unit) := connected ++ [.read 1 5 0, .schdule]

/-- After the delivery that woke main an end of file finds nobody waiting. -/
def heardRun : List (Event Unit) := blockedRun ++ [.readCb 1 1 [65] true, .readCb 1 uvEof [] false]

/-- Nobody waits beside the end of file. -/
theorem run_read_error_heard :
    ∃ s, Machine.run step (sherryInit : State Seqs Unit) heardRun = .ok s ∧
      (s.fd 1).rerror = uvEof ∧ s.waits.seq (.waitq 1 .read) = [] := by
  have heard : Machine.Along step (Heard 1) (sherryInit : State Seqs Unit) heardRun := by
    decide +kernel
  obtain ⟨s, ran, rerror⟩ : ∃ s, Machine.run step (sherryInit : State Seqs Unit) heardRun = .ok s ∧
      (s.fd 1).rerror = uvEof := by
    decide +kernel
  have error : (s.fd 1).rerror ≠ 0 := by
    rw [rerror]
    decide
  exact ⟨s, ran, rerror,
    (run_read_error ran 1).2.2.mp heard heardRun [] s (List.append_nil _).symm ran error⟩

/-- An end of file leaves main blocked in `sherry_read`. -/
theorem eof_wakes_nobody :
    ∃ s, Machine.run step (sherryInit : State Seqs Unit)
        (blockedRun ++ [.readCb 1 uvEof [] false]) = .ok s ∧
      (s.fd 1).rerror = uvEof ∧ 0 ∈ s.waits.seq (.waitq 1 .read) ∧
        (s.actor 0).status = .waitEv := by
  decide +kernel

end Sherry
