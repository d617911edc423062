import Sherry.Verif.Changes

/-!
# Where every actor is

An actor occupies the processor, a list, or a request that libuv holds. In a run in which
libuv accepts every write, each registered actor occupies exactly one of these, with the
status that belongs there. The part that `Placement` leaves open is the actor suspended in
`sherry_write`: it occupies its request, and nothing else knows of it.
-/

namespace Sherry

variable {φ : Type} {s t : State Seqs φ} {a : ActorRef} {e : Event φ}

/-- What can hold an actor. -/
inductive Place
  /-- The processor. -/
  | processor
  /-- A list. -/
  | queue (list : WaitRef)
  /-- A request. -/
  | request (req : UvWrite)
  deriving DecidableEq, Repr

/-- An actor is at a place. -/
def Occupies (s : State Seqs φ) (a : ActorRef) : Place → Prop
  | .processor => s.executing = some a
  | .queue list => a ∈ s.waits.seq list
  | .request req => req ∈ s.writes ∧ req.data = a

/-- What holds of an actor by the place where it is: its status, and that the place holds it
once. -/
def Settled (s : State Seqs φ) (a : ActorRef) : Place → Prop
  | .processor => s.running = a ∧ (s.actor a).status = .running
  | .queue .readyq => (s.actor a).status = .ready ∧ (s.waits.seq .readyq).count a = 1
  | .queue .waitingmsg => (s.actor a).status = .waitMsg ∧ (s.waits.seq .waitingmsg).count a = 1
  | .queue (.waitq fd event) =>
    (s.actor a).status = .waitEv ∧ (s.waits.seq (.waitq fd event)).count a = 1 ∧ fd < s.nfds
  | .request _ => (s.actor a).status = .waitEv ∧ (s.writes.map UvWrite.data).count a = 1

/-- libuv takes every write, and no descriptor is closed. -/
def Undisturbed (_ : State Seqs φ) : Event φ → Prop
  | .write _ _ ret => ret = 0
  | .close _ => False
  | _ => True

instance (s : State Seqs φ) (e : Event φ) : Decidable (Undisturbed s e) := by
  cases e <;> unfold Undisturbed <;> infer_instance

/-- Every actor suspended in `sherry_write` has a request. -/
def Requested (s : State Seqs φ) : Prop :=
  ∀ a fd count, (s.actor a).status = .waitEv → (s.actor a).frame = .write fd count →
    ∃ req ∈ s.writes, req.data = a

/-- A step in which libuv takes the write keeps a request for every writer. -/
theorem requested_step (inv : Inv s) (requested : Requested s) (accepted : Undisturbed s e)
    (taken : step s e = .ok t) : Requested t := by
  have outcome := step_outcome inv taken
  intro a fd count status frame
  cases outcome.actor_change a with
  | kept same =>
    rw [same] at status frame
    obtain ⟨req, pending, data⟩ := requested a fd count status frame
    cases outcome.writes_change with
    | kept writes => exact ⟨req, writes ▸ pending, data⟩
    | submitted _ _ writes => exact ⟨req, writes ▸ List.mem_append_left _ pending, data⟩
    | completed _ _ writes ready =>
      refine ⟨req, ?_, data⟩
      rw [writes]
      refine (List.mem_erase_of_ne ?_).mpr pending
      rintro rfl
      rw [data, same, status] at ready
      cases ready
  | proceeds exec same =>
    rw [same] at frame
    cases frame
  | @parked status' frame' exec parking same =>
    rw [same] at frame
    change frame' = _ at frame
    subst frame
    cases parking
    obtain ⟨self, exec', rfl⟩ := step_write inv taken
    obtain rfl : a = self := Option.some.inj (exec.symm.trans exec')
    have zero : _ = (0 : Int) := accepted
    exact ⟨⟨fd, a⟩, by simp [park, zero], rfl⟩
  | woken waking same =>
    rw [same] at status
    cases status
  | dispatched schdule first same =>
    rw [same] at status
    cases status
  | made fresh ready entry =>
    rw [ready] at status
    cases status

/-- A requesting actor waits for an event and belongs in no list. -/
theorem requesting (placed : Placement s) {req : UvWrite} (pending : req ∈ s.writes) :
    (s.actor req.data).status = .waitEv ∧ home s req.data = none := by
  obtain ⟨status, count, frame⟩ := placed.writes req pending
  exact ⟨status, by simp [home, homeOf, status, frame]⟩

/-- An actor is in at most one place. -/
theorem place_unique (placed : Placement s) {p q : Place} (first : Occupies s a p)
    (second : Occupies s a q) : p = q := by
  have apart : ∀ {l : WaitRef} {req : UvWrite}, a ∈ s.waits.seq l →
      ¬(req ∈ s.writes ∧ req.data = a) := by
    rintro l req inside ⟨pending, rfl⟩
    have at_home := (placed.homed.mem_iff l _).mp inside
    rw [(requesting placed pending).2] at at_home
    cases at_home
  have idle : ∀ {req : UvWrite}, s.executing = some a → ¬(req ∈ s.writes ∧ req.data = a) := by
    rintro req exec ⟨pending, rfl⟩
    have running := (placed.executing exec).2.1
    rw [(requesting placed pending).1] at running
    cases running
  cases p with
  | processor =>
    cases q with
    | processor => rfl
    | queue l => exact absurd second ((placed.executing first).2.2 l)
    | request req => exact absurd second (idle first)
  | queue l =>
    cases q with
    | processor => exact absurd first ((placed.executing second).2.2 l)
    | queue l' =>
      have left := (placed.homed.mem_iff l a).mp first
      have right := (placed.homed.mem_iff l' a).mp second
      rw [left] at right
      rw [Option.some.inj right]
    | request req => exact absurd second (apart first)
  | request req =>
    cases q with
    | processor => exact absurd first (idle second)
    | queue l => exact absurd first (apart second)
    | request req' =>
      have same : req.data = req'.data := first.2.trans second.2.symm
      rw [List.inj_on_of_nodup_map placed.oneWrite first.1 second.1 same]

/-- An actor is settled at the place where it is. -/
theorem settled (placed : Placement s) {p : Place} (occupies : Occupies s a p) :
    Settled s a p := by
  cases p with
  | processor => exact ⟨(placed.current a occupies).1, (placed.executing occupies).2.1⟩
  | queue l =>
    have once : (s.waits.seq l).count a = 1 :=
      placed.homed.count_eq_one ((placed.homed.mem_iff l a).mp occupies)
    cases l with
    | readyq => exact ⟨placed.mem_readyq.mp occupies, once⟩
    | waitingmsg => exact ⟨placed.mem_waitingmsg.mp occupies, once⟩
    | waitq fd event =>
      obtain ⟨_, status, waits⟩ := placed.mem_waitq.mp occupies
      refine ⟨status, once, placed.onFd a fd ?_⟩
      rcases waits with ⟨count, frame⟩ | ⟨client, frame⟩ <;> simp [frame, Frame.onFd]
  | request req =>
    obtain ⟨pending, rfl⟩ := occupies
    have member : req.data ∈ s.writes.map UvWrite.data := List.mem_map_of_mem pending
    exact ⟨(requesting placed pending).1, List.count_eq_one_of_mem placed.oneWrite member⟩

/-- What occupies a place is registered. -/
theorem occupies_registered (placed : Placement s) {p : Place} (occupies : Occupies s a p) :
    Registered s a := by
  cases p with
  | processor => exact (placed.executing occupies).1
  | queue l => exact (placed.member occupies).2.1
  | request req =>
    obtain ⟨pending, rfl⟩ := occupies
    have fits := placed.fits req.data
    simp only [Fits, (requesting placed pending).1] at fits
    exact fits.1

/-- A registered actor is in some place, when every writer has a request. -/
theorem exists_place (placed : Placement s) (requested : Requested s)
    (registered : Registered s a) : ∃ p, Occupies s a p := by
  have fits := placed.fits a
  unfold Fits at fits
  cases status : (s.actor a).status with
  | none =>
    simp only [status] at fits
    exact absurd registered fits.1
  | dead =>
    simp only [status] at fits
    exact absurd registered fits.1
  | ready => exact ⟨.queue .readyq, placed.mem_readyq.mpr status⟩
  | running =>
    simp only [status] at fits
    exact ⟨.processor, fits.mp registered⟩
  | waitMsg => exact ⟨.queue .waitingmsg, placed.mem_waitingmsg.mpr status⟩
  | waitEv =>
    simp only [status] at fits
    have blocks := fits.2.2.2
    cases frame : (s.actor a).frame with
    | accept server client =>
      exact ⟨.queue (.waitq server .read),
        placed.mem_waitq.mpr ⟨rfl, status, .inr ⟨client, frame⟩⟩⟩
    | read fd count =>
      exact ⟨.queue (.waitq fd .read), placed.mem_waitq.mpr ⟨rfl, status, .inl ⟨count, frame⟩⟩⟩
    | write fd count =>
      obtain ⟨req, pending, data⟩ := requested a fd count status frame
      exact ⟨.request req, pending, data⟩
    | _ =>
      rw [frame] at blocks
      cases blocks

/-- In every state of a run in which libuv takes every write and no descriptor is closed, each
registered actor is in exactly one place and is settled there, and nothing else is in any
place. -/
theorem run_placement {es : List (Event φ)}
    (accepted : Machine.Along step Undisturbed (sherryInit : State Seqs φ) es)
    (ran : Machine.run step sherryInit es = .ok s) (live : s.exited = false) (a : ActorRef) :
    (Registered s a → ∃ p, Occupies s a p ∧ Settled s a p ∧ ∀ q, Occupies s a q → q = p) ∧
      ∀ p, Occupies s a p → Registered s a := by
  have start : Requested (sherryInit : State Seqs φ) := by
    intro b fd count status
    rw [sherryInit_eq] at status
    by_cases main : b = 0 <;> simp [main] at status
  have requested : Requested s := run_along start requested_step accepted ran
  have inv := inv_run ran live
  refine ⟨fun registered => ?_, fun p occupies => occupies_registered inv.placed occupies⟩
  obtain ⟨p, occupies⟩ := exists_place inv.placed requested registered
  exact ⟨p, occupies, settled inv.placed occupies, fun q second =>
    place_unique inv.placed second occupies⟩

/-- Actor 1 is suspended in a write that libuv took, and main executes. -/
def writerRun : List (Event Unit) :=
  connected ++ [.spawn (), .yield, .schdule, .resume 0, .write 1 5 0, .schdule]

/-- The suspended writer is in exactly one place. -/
theorem run_placement_writer :
    ∃ s, Machine.run step (sherryInit : State Seqs Unit) writerRun = .ok s ∧
      ∃ p, Occupies s 1 p ∧ Settled s 1 p ∧ ∀ q, Occupies s 1 q → q = p := by
  have accepted : Machine.Along step Undisturbed (sherryInit : State Seqs Unit) writerRun := by
    decide +kernel
  obtain ⟨s, ran, live, registered⟩ :
      ∃ s, Machine.run step (sherryInit : State Seqs Unit) writerRun = .ok s ∧
        s.exited = false ∧ some 1 ∈ s.actors := by
    decide +kernel
  exact ⟨s, ran, (run_placement accepted ran live 1).1 registered⟩

end Sherry
