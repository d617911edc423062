import Sherry.Verif.Mail

/-!
# What is released at exit

`free_actor` would free an actor with the messages left in its mailbox, but nothing calls it:
its call in `unreg_actor` is commented out. So no run frees an actor, and none frees a message
that nobody received.
-/

namespace Sherry

variable {φ : Type} {s t : State Seqs φ} {a : ActorRef} {m : MsgRef} {e : Event φ}

/-- Every message that was placed in a mailbox and not received was freed once, with its payload,
and every actor once. -/
structure Released (s : State Seqs φ) : Prop where
  /-- The messages left in the mailboxes were freed. -/
  messages : ∀ a, ∀ m ∈ s.mail.seq a,
    s.freed.count (.msg m) = 1 ∧ .payload (s.msg m).payload ∈ s.freed
  /-- The actors were freed. -/
  actors : ∀ a, a < s.nactors → s.freed.count (.actor a) = 1

/-- The message that the event gives to `sherry_msg_free`. -/
def Event.frees : Event φ → Option MsgRef
  | .msgFree m => some m
  | _ => none

/-- `sherry_msg_free` is called only on messages that were sent and received. -/
def FreesReceived (s : State Seqs φ) (e : Event φ) : Prop :=
  ∀ m ∈ e.frees, m < s.nmsgs ∧ ∀ a, a < s.nactors → m ∉ s.mail.seq a

instance (s : State Seqs φ) (e : Event φ) : Decidable (FreesReceived s e) :=
  inferInstanceAs (Decidable (∀ m ∈ e.frees, m < s.nmsgs ∧ ∀ a, a < s.nactors → m ∉ s.mail.seq a))

/-- Freed messages are in no mailbox, and never will be. -/
def Received (s : State Seqs φ) : Prop :=
  ∀ m, .msg m ∈ s.freed → m < s.nmsgs ∧ ∀ a, m ∉ s.mail.seq a

/-- No event frees an actor. -/
theorem actor_step (inv : Inv s) (kept : ∀ a, .actor a ∉ s.freed) (happened : step s e = .ok t) :
    ∀ a, .actor a ∉ t.freed := by
  intro a gone
  rcases (step_outcome inv happened).freed gone with before | now
  · exact kept a before
  · exact now

/-- An event that frees received messages only leaves the others alone. -/
theorem received_step (inv : Inv s) (both : Mailed s ∧ Received s) (frees : FreesReceived s e)
    (happened : step s e = .ok t) : Mailed t ∧ Received t := by
  obtain ⟨mailed, received⟩ := both
  have outcome := step_outcome inv happened
  have change := outcome.mail_change
  refine ⟨mailed_step inv mailed happened, fun m gone => ?_⟩
  have old : m < s.nmsgs ∧ ∀ a, m ∉ s.mail.seq a := by
    rcases outcome.freed gone with before | now
    · exact received m before
    · obtain ⟨sent, outside⟩ := frees m (by rw [show e = .msgFree m from now]; rfl)
      refine ⟨sent, fun a => ?_⟩
      by_cases made : a < s.nactors
      · exact outside a made
      · rw [mailed.fresh a (Nat.not_lt.mp made)]
        exact List.not_mem_nil
  refine ⟨Nat.lt_of_lt_of_le old.1 change.nmsgs_le, fun a => ?_⟩
  cases change.box a with
  | kept same => exact same ▸ old.2 a
  | fresh _ empty => simp [empty]
  | grew _ _ same => simp [same, old.2 a, Nat.ne_of_lt old.1]
  | shrank _ _ same =>
    rw [same]
    exact fun member => old.2 a (List.mem_of_mem_tail member)

/-- At the end of `sherry_exit` the actors are not released, in any run; and where
`sherry_msg_free` is called on received messages only, the messages left in the mailboxes are
released exactly when there are none. -/
theorem run_leaks {es : List (Event φ)}
    (ran : Machine.run step (sherryInit : State Seqs φ) es = .ok s) (_ : s.exited = true) :
    ¬Released s ∧ (∀ a, .actor a ∉ s.freed) ∧
      (Machine.Along step FreesReceived (sherryInit : State Seqs φ) es →
        ((∀ a, ∀ m ∈ s.mail.seq a,
            s.freed.count (.msg m) = 1 ∧ .payload (s.msg m).payload ∈ s.freed) ↔
          ∀ a, s.mail.seq a = [])) := by
  have kept : ∀ a, .actor a ∉ s.freed := by
    refine run_all (fun a gone => ?_) actor_step ran
    rw [sherryInit_eq] at gone
    cases gone
  have made : 0 < s.nactors := by
    have grows : ∀ {s : State Seqs φ} {e : Event φ} {t : State Seqs φ}, Inv s →
        0 < s.nactors → step s e = .ok t → 0 < t.nactors := fun inv made happened =>
      Nat.lt_of_lt_of_le made (step_outcome inv happened).counts_le.1
    exact run_all (by rw [sherryInit_eq]; exact Nat.one_pos) grows ran
  refine ⟨fun released => ?_, kept, fun frees => ?_⟩
  · have once := released.actors 0 made
    rw [List.count_eq_zero_of_not_mem (kept 0)] at once
    cases once
  · have start : Mailed (sherryInit : State Seqs φ) ∧ Received (sherryInit : State Seqs φ) := by
      refine ⟨mailed_sherryInit, fun m gone => ?_⟩
      rw [sherryInit_eq] at gone
      cases gone
    have received : Received s := (run_along start received_step frees ran).2
    constructor
    · intro messages a
      apply List.eq_nil_iff_forall_not_mem.mpr
      intro m member
      have once : .msg m ∈ s.freed :=
        List.count_pos_iff.mp (by rw [(messages a m member).1]; exact Nat.one_pos)
      exact (received m once).2 a member
    · intro empty a m member
      rw [empty a] at member
      cases member

/-- The run of `test_message`: actor 1 receives one of the two messages that actor 2 sends. -/
def messageRun : List (Event Unit) :=
  [.spawn (), .spawn (), .exit, .schdule, .resume 0, .recv, .schdule, .resume 0,
    .send 1 100 none, .send 1 100 none, .ret, .schdule, .resume 0, .schdule, .resume 0,
    .msgFree 0, .ret, .schdule, .resume 0]

/-- At the end of the run neither the actors nor the messages left in the mailboxes are released. -/
theorem run_leaks_message :
    ∃ s, Machine.run step (sherryInit : State Seqs Unit) messageRun = .ok s ∧ ¬Released s ∧
      ¬∀ a, ∀ m ∈ s.mail.seq a,
        s.freed.count (.msg m) = 1 ∧ .payload (s.msg m).payload ∈ s.freed := by
  obtain ⟨s, ran, exited, left⟩ :
      ∃ s, Machine.run step (sherryInit : State Seqs Unit) messageRun = .ok s ∧
        s.exited = true ∧ s.mail.seq 1 ≠ [] := by
    decide +kernel
  have frees : Machine.Along step FreesReceived (sherryInit : State Seqs Unit) messageRun := by
    decide +kernel
  obtain ⟨unreleased, _, messages⟩ := run_leaks ran exited
  exact ⟨s, ran, unreleased, fun freed => left ((messages frees).mp freed 1)⟩

/-- The second message and the three actors are not freed. -/
theorem message_leaks :
    ∃ s, Machine.run step (sherryInit : State Seqs Unit) messageRun = .ok s ∧
      s.exited = true ∧ 1 ∈ s.mail.seq 1 ∧ .msg 1 ∉ s.freed ∧ s.nactors = 3 ∧
        ∀ a, a < 3 → .actor a ∉ s.freed := by
  decide +kernel

end Sherry
