import Sherry.Verif.ReadOrder

/-!
# Closing a descriptor

`close_cb` frees a descriptor with whatever is in its wait queues. libuv serves a closing handle
no more, so an actor that waits on one waits for good, in a queue of the freed descriptor once
`close_cb` has run. So closing strands nobody exactly when it finds nobody waiting and nobody
blocks on the descriptor afterwards.
-/

namespace Sherry

variable {φ : Type} {s t : State Seqs φ} {self a : ActorRef} {e : Event φ} {fd : FdRef} {ev : Ev}

/-- The descriptor that the event closes. -/
def Event.closes : Event φ → Option FdRef
  | .close fd => some fd
  | _ => none

/-- Starting to read closes no handle. -/
theorem InRead.same_closing {g : FdRef} {count : Nat} {at_loop : State Seqs φ}
    (enters : InRead s e self g count at_loop) (fd : FdRef) :
    (at_loop.fd fd).handle.closing = (s.fd fd).handle.closing := by
  rcases enters with ⟨_, _, rfl⟩ | ⟨_, _, _, rfl⟩
  · by_cases here : fd = g
    · subst here
      simp [started, State.setFd]
    · simp [started, State.setFd, here]
  · rfl

/-- Only `sherry_fd_close` closes a handle, and a new one is not closing. -/
theorem closing_step (inv : Inv s) (happened : step s e = .ok t) (fd : FdRef) :
    (t.fd fd).handle.closing = (s.fd fd).handle.closing ∨
      e = .close fd ∧ (t.fd fd).handle.closing = true ∨
      fd = s.nfds ∧ (t.fd fd).handle.closing = false := by
  cases step_outcome inv happened with
  | spawns => exact .inl (by rw [sherrySpawn_eq])
  | sends =>
    unfold revoke
    split <;> exact .inl rfl
  | opens =>
    by_cases new : fd = s.nfds
    · exact .inr (.inr ⟨new, by simp [openedFd, new]⟩)
    · exact .inl (by simp [openedFd, new])
  | @listens _ g =>
    by_cases here : fd = g
    · subst here
      exact .inl (by simp [State.setFd, State.emit])
    · exact .inl (by simp [State.setFd, State.emit, here])
  | readError _ enters => exact .inl (enters.same_closing fd)
  | @readBytes _ _ g _ _ _ enters =>
    refine .inl (Eq.trans ?_ (enters.same_closing fd))
    by_cases here : fd = g
    · subst here
      simp [consume]
    · simp [consume, here]
  | blocksRead _ enters => exact .inl (enters.same_closing fd)
  | @closes _ g =>
    by_cases here : fd = g
    · subst here
      exact .inr (.inl ⟨rfl, by simp [State.setFd]⟩)
    · exact .inl (by simp [State.setFd, here])
  | @fails g =>
    by_cases here : fd = g
    · subst here
      exact .inl (by simp [failRead])
    · exact .inl (by simp [failRead, here])
  | @delivers g =>
    by_cases here : fd = g
    · subst here
      exact .inl (by simp [wakeAll, receive])
    · exact .inl (by simp [wakeAll, receive, here])
  | _ => exact .inl rfl

/-- A handle that is closing stays so. -/
theorem closing_kept (inv : Inv s) (happened : step s e = .ok t) (below : fd < s.nfds)
    (closing : (s.fd fd).handle.closing = true) : (t.fd fd).handle.closing = true := by
  rcases closing_step inv happened fd with same | ⟨_, closes⟩ | ⟨new, _⟩
  · exact same.trans closing
  · exact closes
  · exact absurd new (Nat.ne_of_lt below)

/-- Freed descriptors were allocated and closed. -/
def FreedClosed (s : State Seqs φ) : Prop :=
  ∀ fd, .fd fd ∈ s.freed → fd < s.nfds ∧ (s.fd fd).handle.closing = true

/-- Every step frees closed descriptors only. -/
theorem freedClosed_step (inv : Inv s) (closed : FreedClosed s) (happened : step s e = .ok t) :
    FreedClosed t := by
  intro fd gone
  have both : fd < s.nfds ∧ (s.fd fd).handle.closing = true := by
    rcases (step_outcome inv happened).freed gone with before | ⟨live, closing⟩
    · exact closed fd before
    · exact ⟨(liveFd_iff.mp live).1, closing⟩
  refine ⟨Nat.lt_of_lt_of_le both.1 (step_outcome inv happened).counts_le.2.1, ?_⟩
  exact closing_kept inv happened both.1 both.2

/-- An actor that waits on a closing descriptor waits there for good. -/
theorem stranded_step (inv : Inv s) (below : fd < s.nfds)
    (closing : (s.fd fd).handle.closing = true) (member : a ∈ s.waits.seq (.waitq fd ev))
    (happened : step s e = .ok t) :
    fd < t.nfds ∧ (t.fd fd).handle.closing = true ∧ a ∈ t.waits.seq (.waitq fd ev) := by
  refine ⟨Nat.lt_of_lt_of_le below (step_outcome inv happened).counts_le.2.1,
    closing_kept inv happened below closing, ?_⟩
  have change : WaitqChange s t e fd ev := waitq_step inv happened
  cases change with
  | kept same => rwa [same]
  | grows _ _ same =>
    rw [same]
    exact List.mem_append_left _ member
  | drains live => simp [State.openFd, closing] at live

/-- No run gets an actor out of a wait queue of a closing descriptor. -/
theorem stranded_run {es : List (Event φ)} (sound : Sound s) (below : fd < s.nfds)
    (closing : (s.fd fd).handle.closing = true) (member : a ∈ s.waits.seq (.waitq fd ev))
    (ran : Machine.run step s es = .ok t) : a ∈ t.waits.seq (.waitq fd ev) := by
  have kept : ∀ {s : State Seqs φ} {e : Event φ} {t : State Seqs φ},
      Sound s ∧ fd < s.nfds ∧ (s.fd fd).handle.closing = true ∧ a ∈ s.waits.seq (.waitq fd ev) →
        step s e = .ok t →
      Sound t ∧ fd < t.nfds ∧ (t.fd fd).handle.closing = true ∧
        a ∈ t.waits.seq (.waitq fd ev) := by
    rintro s e t ⟨sound, below, closing, member⟩ happened
    obtain ⟨inv, _, after⟩ := step_sound sound happened
    exact ⟨after, stranded_step inv below closing member happened⟩
  exact (Machine.run_keeps kept ⟨sound, below, closing, member⟩ ran).2.2.2

/-- A descriptor is closed only when nobody waits on it, and nobody blocks on a closing one. -/
def ClosesIdle (s : State Seqs φ) (e : Event φ) : Prop :=
  (∀ fd ∈ e.closes, s.waits.seq (.waitq fd .read) = []) ∧
    ∀ fd ∈ blocksOn s e, (s.fd fd).handle.closing = false

instance (s : State Seqs φ) (e : Event φ) : Decidable (ClosesIdle s e) :=
  inferInstanceAs (Decidable ((∀ fd ∈ e.closes, _) ∧ ∀ fd ∈ blocksOn s e, _))

/-- Nobody waits on a closing descriptor. -/
def NoneStranded (s : State Seqs φ) : Prop :=
  ∀ fd, (s.fd fd).handle.closing = true → s.waits.seq (.waitq fd .read) = []

/-- An event that blocks its actor parks it in the wait queue, and closes nothing. -/
theorem blocks_parks (inv : Inv s) (blocks : blocksOn s e = some fd)
    (happened : step s e = .ok t) :
    (∃ self, t.waits.seq (.waitq fd .read) = s.waits.seq (.waitq fd .read) ++ [self]) ∧
      (t.fd fd).handle.closing = (s.fd fd).handle.closing := by
  unfold blocksOn at blocks
  split at blocks
  · rename_i g count reads
    split at blocks <;> cases blocks
    rename_i empty
    obtain ⟨self, at_loop, _, enters, rfl⟩ := read_parks inv reads empty.1 empty.2 happened
    have waits := enters.same_setting.1
    exact ⟨⟨self, by simp [park, enlist, waits]⟩, enters.same_closing fd⟩
  · rename_i server err other accepts
    split at blocks <;> cases blocks
    rename_i again
    subst again
    obtain ⟨self, client, _, rfl⟩ := accept_parks inv accepts happened
    exact ⟨⟨self, by simp [park, enlist]⟩, rfl⟩
  · cases blocks

/-- The next event strands nobody exactly when it closes idle descriptors and blocks nobody on a
closing one. -/
theorem noneStranded_step (inv : Inv s) (none : NoneStranded s) (happened : step s e = .ok t) :
    ClosesIdle s e ↔ NoneStranded t := by
  constructor
  · rintro ⟨idle, opened⟩ fd closing
    have before : s.waits.seq (.waitq fd .read) = [] := by
      rcases closing_step inv happened fd with same | ⟨event, _⟩ | ⟨_, opened'⟩
      · exact none fd (same ▸ closing)
      · exact idle fd (by rw [event]; rfl)
      · rw [opened'] at closing
        cases closing
    have change : WaitqChange s t e fd .read := waitq_step inv happened
    cases change with
    | kept same => rw [same, before]
    | grows _ blocks =>
      have still := opened fd blocks
      rcases closing_step inv happened fd with same | ⟨event, _⟩ | ⟨_, opened'⟩
      · rw [same, still] at closing
        cases closing
      · rw [event] at blocks
        cases blocks
      · rw [opened'] at closing
        cases closing
    | drains _ empty => exact empty
  · intro after
    constructor
    · intro fd event
      cases e with
      | close g =>
        cases event
        obtain ⟨self, user, _, done⟩ := fdCall_ok.mp happened
        unfold sherryFdClose at done
        split at done <;> cases done
        exact after fd (by simp [State.setFd])
      | _ => cases event
    · intro fd blocks
      obtain ⟨⟨self, queue⟩, same⟩ := blocks_parks inv blocks happened
      rw [← same, Bool.eq_false_iff]
      intro closing
      rw [after fd closing] at queue
      simp at queue

/-- Between `sherry_fd_close` and the end of `close_cb` nobody leaves the wait queue. -/
theorem close_keeps (inv : Inv s) {fs : List (Event φ)} {u v : State Seqs φ}
    (closes : step s (.close fd) = .ok t) (ran : Machine.run step t fs = .ok u)
    (frees : step u (.closeCb fd) = .ok v) (member : a ∈ s.waits.seq (.waitq fd .read)) :
    a ∈ v.waits.seq (.waitq fd .read) := by
  obtain ⟨_, after⟩ := (step_sound (fun _ => inv) closes).2
  obtain ⟨self, user, live, done⟩ := fdCall_ok.mp closes
  unfold sherryFdClose at done
  split at done <;> cases done
  have stays : a ∈ u.waits.seq (.waitq fd .read) :=
    stranded_run after (liveFd_iff.mp live).1 (by simp [State.setFd]) member ran
  obtain ⟨_, _, released⟩ := onLoop_ok.mp frees
  cases released
  rw [closeCb_eq]
  exact stays

/-- Closing a descriptor gets the actors blocked on it out of its wait queue, and ready, exactly
when there are none. Nobody ever waits on a closing descriptor exactly in the runs that close
idle descriptors only and let nobody block on a closing one; there nobody waits on a freed
descriptor. In every other run the stranded actor waits for good. -/
theorem run_close {es : List (Event φ)}
    (ran : Machine.run step (sherryInit : State Seqs φ) es = .ok s) :
    (∀ fd t fs u v, step s (.close fd) = .ok t → Machine.run step t fs = .ok u →
        step u (.closeCb fd) = .ok v →
          ((∀ a ∈ s.waits.seq (.waitq fd .read), a ∉ v.waits.seq (.waitq fd .read) ∧
              ∃ first rest m, fs = first ++ rest ∧ Machine.run step t first = .ok m ∧
                (m.actor a).status = .ready) ↔
            s.waits.seq (.waitq fd .read) = [])) ∧
      (Machine.Along step ClosesIdle (sherryInit : State Seqs φ) es ↔
        ∀ first rest m, es = first ++ rest →
          Machine.run step (sherryInit : State Seqs φ) first = .ok m → NoneStranded m) ∧
      (Machine.Along step ClosesIdle (sherryInit : State Seqs φ) es → s.exited = false →
        ∀ fd ev a, .fd fd ∈ s.freed → a ∉ s.waits.seq (.waitq fd ev)) ∧
      ∀ fd ev a, fd < s.nfds → (s.fd fd).handle.closing = true →
        a ∈ s.waits.seq (.waitq fd ev) → ∀ fs t, Machine.run step s fs = .ok t →
          a ∈ t.waits.seq (.waitq fd ev) := by
  have sound : Sound s := run_sound (fun _ => inv_sherryInit) ran
  have closed : FreedClosed s := by
    refine run_all (fun fd gone => ?_) freedClosed_step ran
    rw [sherryInit_eq] at gone
    cases gone
  have kept : ∀ {s : State Seqs φ} {e : Event φ} {t : State Seqs φ},
      Sound s → step s e = .ok t → Sound t := fun sound happened =>
    (step_sound sound happened).2.2
  have decides : ∀ {s : State Seqs φ} {e : Event φ} {t : State Seqs φ},
      Sound s → NoneStranded s → step s e = .ok t → (ClosesIdle s e ↔ NoneStranded t) :=
    fun sound none happened => noneStranded_step (step_sound sound happened).1 none happened
  have fine : NoneStranded (sherryInit : State Seqs φ) := by
    intro fd _
    rw [sherryInit_eq]
  have exactly := Machine.along_iff_good kept decides (fun _ => inv_sherryInit) fine ran
  refine ⟨?_, exactly, ?_, ?_⟩
  · intro fd t fs u v closes went frees
    constructor
    · intro left
      apply List.eq_nil_iff_forall_not_mem.mpr
      intro a member
      exact (left a member).1 (close_keeps (sound (step_live closes)) closes went frees member)
    · intro none a member
      rw [none] at member
      cases member
  · intro idle live fd ev a gone member
    obtain ⟨rfl, _⟩ := (sound live).placed.mem_waitq.mp member
    have none := exactly.mp idle es [] s (List.append_nil es).symm ran fd (closed fd gone).2
    rw [none] at member
    cases member
  · intro fd ev a below closing member fs t went
    exact stranded_run sound below closing member went

/-- Main accepts a connection and spawns an actor, which begins. -/
def openedRun : List (Event Unit) := connected ++ [.spawn (), .yield, .schdule, .resume 0]

/-- Actor 1 closes the connection that nobody waits on, returns, and main waits for a message
while `close_cb` runs. -/
def closedIdleRun : List (Event Unit) :=
  openedRun ++ [.close 1, .ret, .schdule, .recv, .schdule, .closeCb 1]

/-- Nobody waits on the freed descriptor. -/
theorem run_close_idle :
    ∃ s, Machine.run step (sherryInit : State Seqs Unit) closedIdleRun = .ok s ∧
      .fd 1 ∈ s.freed ∧ ∀ ev a, a ∉ s.waits.seq (.waitq 1 ev) := by
  have idle : Machine.Along step ClosesIdle (sherryInit : State Seqs Unit) closedIdleRun := by
    decide +kernel
  obtain ⟨s, ran, live, gone⟩ : ∃ s, Machine.run step (sherryInit : State Seqs Unit)
      closedIdleRun = .ok s ∧ s.exited = false ∧ .fd 1 ∈ s.freed := by
    decide +kernel
  exact ⟨s, ran, gone, fun ev a => (run_close ran).2.2.1 idle live 1 ev a gone⟩

/-- Actor 1 blocks in `sherry_read`; main closes the connection and waits for a message while
`close_cb` runs. -/
def closedBlockedRun : List (Event Unit) :=
  openedRun ++ [.read 1 5 0, .schdule, .close 1, .recv, .schdule, .closeCb 1]

/-- Actor 1 waits in a queue of the freed descriptor. -/
theorem close_strands :
    ∃ s, Machine.run step (sherryInit : State Seqs Unit) closedBlockedRun = .ok s ∧
      .fd 1 ∈ s.freed ∧ Registered s 1 ∧ (s.actor 1).status = .waitEv ∧
        1 ∈ s.waits.seq (.waitq 1 .read) := by
  decide +kernel

end Sherry
