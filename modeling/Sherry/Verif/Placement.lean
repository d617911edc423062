import Sherry.Verif.Registry

/-!
# The placement invariant

`home` reads off an actor's status and its suspended call the list its node belongs in. The
invariant `Placement` says that the lists are exactly what the homes say, and what each
status means for an actor: registered or not, executing or not, and where its saved context
points. One lemma for each move shows that it keeps the invariant; the functions of the
source then keep it because they are moves.
-/

namespace Sherry

variable {φ : Type} {s t : State Seqs φ} {self a : ActorRef}

/-- The list in which an actor with this status waits when it is suspended in this frame.
An actor in `sherry_write` waits in no list. -/
def homeOf (status : Status) (frame : Frame) : Option WaitRef :=
  match status with
  | .ready => some .readyq
  | .waitMsg => some .waitingmsg
  | .waitEv =>
    match frame with
    | .read fd _ => some (.waitq fd .read)
    | .accept server _ => some (.waitq server .read)
    | _ => none
  | _ => none

/-- The list an actor's node belongs in. -/
def home (s : State Seqs φ) (a : ActorRef) : Option WaitRef :=
  homeOf (s.actor a).status (s.actor a).frame

/-- The descriptor on which a frame would block again, or writes. -/
def Frame.onFd : Frame → Option FdRef
  | .read fd _ => some fd
  | .accept server _ => some server
  | .write fd _ => some fd
  | _ => none

/-- What a status means for an actor. -/
def Fits (a : ActorRef) (actor : Actor φ) (registered executing : Prop) : Prop :=
  match actor.status with
  | .none | .dead => ¬registered ∧ ¬executing
  | .running => registered ↔ executing
  | .ready => registered ∧ ¬executing ∧ actor.ctx.owner = some (.actor a)
  | .waitMsg =>
    registered ∧ ¬executing ∧ actor.ctx.owner = some (.actor a) ∧ actor.frame = .recv a
  | .waitEv =>
    registered ∧ ¬executing ∧ actor.ctx.owner = some (.actor a) ∧ actor.frame.onFd.isSome

/-- Fitting depends on the actor and on the truth of the two propositions. -/
theorem Fits.congr {actor actor' : Actor φ} {r r' e e' : Prop} (fits : Fits a actor r e)
    (same : actor' = actor) (registered : r' ↔ r) (executing : e' ↔ e) : Fits a actor' r' e' := by
  rw [same, propext registered, propext executing]
  exact fits

/-- Every actor is where its status says, and the processor belongs to `sche->running`. -/
structure Placement (s : State Seqs φ) : Prop where
  /-- The lists hold exactly the actors whose homes they are. -/
  homed : s.waits.Homed (home s)
  /-- Every actor fits its status. -/
  fits : ∀ a, Fits a (s.actor a) (Registered s a) (s.executing = some a)
  /-- The executing actor is `sche->running`, and the scheduler's context is suspended. -/
  current : ∀ a, s.executing = some a → s.running = a ∧ s.ctx.owner = some .scheduler
  /-- The local of a suspended `sherry_msg_recv` is the actor itself. -/
  recvSelf : ∀ a b, (s.actor a).frame = .recv b → b = a
  /-- A descriptor an actor waits for was allocated. -/
  onFd : ∀ a fd, (s.actor a).frame.onFd = some fd → fd < s.nfds
  /-- A request libuv holds belongs to an actor suspended in `sherry_write` on its stream. -/
  writes : ∀ req ∈ s.writes,
    (s.actor req.data).status = .waitEv ∧ ∃ count, (s.actor req.data).frame = .write req.fd count
  /-- No actor has two requests. -/
  oneWrite : (s.writes.map UvWrite.data).Nodup

namespace Placement

/-- The executing actor is registered, has status `RUNNING` and is in no list. -/
theorem executing (placed : Placement s) (exec : s.executing = some self) :
    Registered s self ∧ (s.actor self).status = .running ∧ ∀ l, self ∉ s.waits.seq l := by
  have fits := placed.fits self
  unfold Fits at fits
  have running : (s.actor self).status = .running := by
    cases status : (s.actor self).status <;> simp_all
  simp only [running, exec, iff_true] at fits
  exact ⟨fits, running, placed.homed.not_mem (by simp [home, homeOf, running])⟩

/-- A member of a list is registered, does not execute, and its saved context is its own. -/
theorem member (placed : Placement s) {l : WaitRef} (inside : a ∈ s.waits.seq l) :
    home s a = some l ∧ Registered s a ∧ s.executing ≠ some a ∧
      (s.actor a).ctx.owner = some (.actor a) := by
  have at_home := (placed.homed.mem_iff l a).mp inside
  have fits := placed.fits a
  unfold Fits at fits
  unfold home homeOf at at_home
  refine ⟨at_home, ?_⟩
  cases status : (s.actor a).status <;> simp_all

/-- An actor that waits for an event is registered and does not execute. -/
theorem waiting (placed : Placement s) (status : (s.actor a).status = .waitEv) :
    Registered s a ∧ s.executing ≠ some a := by
  have fits := placed.fits a
  rw [Fits, status] at fits
  exact ⟨fits.1, fits.2.1⟩

/-- A ready actor is exactly one in `readyq`. -/
theorem mem_readyq (placed : Placement s) :
    a ∈ s.waits.seq .readyq ↔ (s.actor a).status = .ready := by
  rw [placed.homed.mem_iff]
  unfold home homeOf
  cases (s.actor a).status <;> simp
  cases (s.actor a).frame <;> simp

/-- An actor waiting for a message is exactly one in `waitingmsg`. -/
theorem mem_waitingmsg (placed : Placement s) :
    a ∈ s.waits.seq .waitingmsg ↔ (s.actor a).status = .waitMsg := by
  rw [placed.homed.mem_iff]
  unfold home homeOf
  cases (s.actor a).status <;> simp
  cases (s.actor a).frame <;> simp

/-- An actor in a wait queue of a descriptor waits there for an event, in `sherry_read` or
`sherry_accept`. -/
theorem mem_waitq (placed : Placement s) {fd : FdRef} {event : Ev} :
    a ∈ s.waits.seq (.waitq fd event) ↔
      event = .read ∧ (s.actor a).status = .waitEv ∧
        ((∃ count, (s.actor a).frame = .read fd count) ∨
          ∃ client, (s.actor a).frame = .accept fd client) := by
  rw [placed.homed.mem_iff]
  unfold home homeOf
  cases (s.actor a).status <;> simp
  cases (s.actor a).frame <;> simp [eq_comm, and_comm]

/-- The invariant depends only on the lists, the actors, who is registered, who executes, the
scheduler's context, and the requests libuv holds. -/
theorem congr (placed : Placement s) (waits : t.waits = s.waits) (actor : t.actor = s.actor)
    (actors : t.actors = s.actors) (owner : t.cpu.owner = s.cpu.owner)
    (running : t.running = s.running) (ctx : t.ctx = s.ctx) (nfds : s.nfds ≤ t.nfds)
    (writes : t.writes = s.writes) : Placement t := by
  have exec : t.executing = s.executing := by
    unfold State.executing
    rw [owner]
  constructor
  · rw [waits]
    exact placed.homed.congr fun a => by simp only [home, actor]
  · intro a
    rw [actor, exec]
    simpa only [Registered, actors] using placed.fits a
  · intro a
    rw [exec, running, ctx]
    exact placed.current a
  · rw [actor]
    exact placed.recvSelf
  · intro a fd on
    rw [actor] at on
    exact Nat.lt_of_lt_of_le (placed.onFd a fd on) nfds
  · rw [writes, actor]
    exact placed.writes
  · rw [writes]
    exact placed.oneWrite

/-- A step that changes one actor keeps the invariant when that actor fits its new status,
its list is its new home, and nobody else starts or stops to execute. -/
theorem change (placed : Placement s) (a : ActorRef) (others : ∀ b, b ≠ a → t.actor b = s.actor b)
    (registered : ∀ b, b ≠ a → (Registered t b ↔ Registered s b))
    (exec : ∀ b, b ≠ a → (t.executing = some b ↔ s.executing = some b))
    (homed : t.waits.Homed (Function.update (home s) a (home t a)))
    (fits : Fits a (t.actor a) (Registered t a) (t.executing = some a))
    (current : ∀ b, t.executing = some b → t.running = b ∧ t.ctx.owner = some .scheduler)
    (recvSelf : ∀ b, (t.actor a).frame = .recv b → b = a) (nfds : s.nfds ≤ t.nfds)
    (onFd : ∀ fd, (t.actor a).frame.onFd = some fd → fd < t.nfds)
    (kept : ∀ req ∈ t.writes, req.data ≠ a → req ∈ s.writes)
    (own : ∀ req ∈ t.writes, req.data = a →
      (t.actor a).status = .waitEv ∧ ∃ count, (t.actor a).frame = .write req.fd count)
    (oneWrite : (t.writes.map UvWrite.data).Nodup) : Placement t := by
  constructor
  · apply homed.congr
    intro b
    by_cases same : b = a
    · subst same
      simp
    · simp [home, others b same, same]
  · intro b
    by_cases same : b = a
    · subst same
      exact fits
    · exact (placed.fits b).congr (others b same) (registered b same) (exec b same)
  · exact current
  · intro b c frame
    by_cases same : b = a
    · subst same
      exact recvSelf c frame
    · rw [others b same] at frame
      exact placed.recvSelf b c frame
  · intro b fd on
    by_cases same : b = a
    · subst same
      exact onFd fd on
    · rw [others b same] at on
      exact Nat.lt_of_lt_of_le (placed.onFd b fd on) nfds
  · intro req member
    by_cases same : req.data = a
    · rw [same]
      exact own req member same
    · rw [others _ same]
      exact placed.writes req (kept req member same)
  · exact oneWrite

/-- libuv holds no request of an actor that is not suspended in `sherry_write`. -/
theorem no_write (placed : Placement s) (status : (s.actor a).status ≠ .waitEv) :
    ∀ req ∈ s.writes, req.data ≠ a := by
  rintro req member rfl
  exact status (placed.writes req member).1

end Placement

/-- The status and the frame with which an actor may suspend itself. -/
def Parks (self : ActorRef) (status : Status) (frame : Frame) : Prop :=
  (∀ b, frame = .recv b → b = self) ∧
    match status with
    | .ready => True
    | .waitMsg => frame = .recv self
    | .waitEv => frame.onFd.isSome
    | _ => False

namespace Placement

/-- Suspending the executing actor keeps the invariant, also when libuv takes a request of
an actor that suspends itself in `sherry_write`. -/
theorem park (placed : Placement s) (exec : s.executing = some self) {status : Status}
    {frame : Frame} (parks : Parks self status frame)
    (onFd : ∀ fd, frame.onFd = some fd → fd < s.nfds) {writes : List UvWrite}
    (taken : writes = s.writes ∨ ∃ fd count,
      writes = s.writes ++ [⟨fd, self⟩] ∧ status = .waitEv ∧ frame = .write fd count) :
    Placement { Sherry.park s self status (homeOf status frame) frame with writes } := by
  obtain ⟨registered, running, _⟩ := placed.executing exec
  have nowhere : home s self = none := by simp [home, homeOf, running]
  have self_idle : ∀ req ∈ s.writes, req.data ≠ self := placed.no_write (by simp [running])
  have idle : ∀ b, { Sherry.park s self status (homeOf status frame) frame with
      writes }.executing ≠ some b := by
    intro b
    rw [executing_none (by exact (placed.current self exec).2)]
    nofun
  have own : { Sherry.park s self status (homeOf status frame) frame with writes }.actor self =
      { s.actor self with status, frame, ctx := s.cpu } := by simp [Sherry.park]
  refine placed.change self ?others (fun _ _ => Iff.rfl) ?exec ?homed ?fits
    (fun b exec' => absurd exec' (idle b)) ?recvSelf (Nat.le_refl _) ?onFd ?kept ?own ?one
  case others =>
    intro b other
    simp [Sherry.park, other]
  case exec =>
    intro b other
    apply iff_of_false (idle b)
    rw [exec]
    exact fun equal => other (Option.some.inj equal).symm
  case homed =>
    rw [home, own]
    cases list : homeOf status frame with
    | none =>
      simp only
      rw [Function.update_eq_self_iff.mpr nowhere.symm]
      exact placed.homed
    | some l =>
      simp only
      exact placed.homed.append nowhere
  case fits =>
    rw [own]
    have cpu : s.cpu.owner = some (.actor self) := executing_iff.mp exec
    have idle := idle self
    cases status <;> simp_all [Parks, Fits] <;> exact registered
  case recvSelf =>
    rw [own]
    exact parks.1
  case onFd =>
    rw [own]
    exact onFd
  case kept =>
    intro req member other
    rcases taken with rfl | ⟨fd, count, rfl, _, _⟩
    · exact member
    · rcases List.mem_append.mp member with member | last
      · exact member
      · exact absurd (by rw [List.mem_singleton.mp last]) other
  case own =>
    intro req member same
    rw [own]
    rcases taken with rfl | ⟨fd, count, rfl, status', frame'⟩
    · exact absurd same (self_idle req member)
    · rcases List.mem_append.mp member with member | last
      · exact absurd same (self_idle req member)
      · rw [List.mem_singleton.mp last]
        exact ⟨status', count, frame'⟩
  case one =>
    rcases taken with rfl | ⟨fd, count, rfl, _, _⟩
    · exact placed.oneWrite
    · have fresh : self ∉ s.writes.map UvWrite.data := by
        intro member
        obtain ⟨req, inside, same⟩ := List.mem_map.mp member
        exact self_idle req inside same
      simpa [List.nodup_append, fresh] using ⟨placed.oneWrite, self_idle⟩

/-- Waking a blocked actor that was taken off its list, and whose request libuv gave up,
keeps the invariant. -/
theorem wake (placed : Placement s) (blocked : (s.actor a).status = .waitMsg ∨
      (s.actor a).status = .waitEv) {waits : Seqs WaitRef ActorRef} {writes : List UvWrite}
    (homed : waits.Homed (Function.update (home s) a none)) (kept : writes.Sublist s.writes)
    (dropped : ∀ req ∈ writes, req.data ≠ a) :
    Placement (Sherry.wake { s with waits, writes } a) := by
  have fitsOld := placed.fits a
  have own : (Sherry.wake { s with waits, writes } a).actor a =
      { s.actor a with status := .ready } := by simp [Sherry.wake]
  refine placed.change a ?others (fun _ _ => Iff.rfl) (fun _ _ => Iff.rfl) ?homed ?fits
    placed.current ?recvSelf (Nat.le_refl _) ?onFd (fun req member _ => kept.subset member)
    (fun req member same => absurd same (dropped req member))
    (placed.oneWrite.sublist (kept.map UvWrite.data))
  case others =>
    intro b other
    simp [Sherry.wake, other]
  case homed =>
    have homeless : Function.update (home s) a none a = none := by simp
    have appended : (waits.set .readyq (waits.seq .readyq ++ [a])).Homed _ :=
      homed.append homeless
    rw [Function.update_idem] at appended
    rw [home, own]
    exact appended
  case fits =>
    rw [own]
    rcases blocked with status | status <;>
      simp only [Fits, status] at fitsOld ⊢ <;> exact ⟨fitsOld.1, fitsOld.2.1, fitsOld.2.2.1⟩
  case recvSelf =>
    rw [own]
    exact placed.recvSelf a
  case onFd =>
    rw [own]
    exact placed.onFd a

/-- A member of a list other than `readyq` is blocked, and libuv holds no request of it. -/
theorem blocked_of_member (placed : Placement s) {l : WaitRef} (apart : l ≠ .readyq)
    (inside : a ∈ s.waits.seq l) :
    ((s.actor a).status = .waitMsg ∨ (s.actor a).status = .waitEv) ∧
      ∀ req ∈ s.writes, req.data ≠ a := by
  have at_home := (placed.homed.mem_iff l a).mp inside
  unfold home homeOf at at_home
  constructor
  · cases status : (s.actor a).status <;> simp_all
  · rintro req member rfl
    obtain ⟨status, count, frame⟩ := placed.writes req member
    simp [status, frame] at at_home

/-- Waking every actor of a wait queue keeps the invariant. -/
theorem wakeAll (placed : Placement s) {list : WaitRef} (apart : list ≠ .readyq) :
    Placement (Sherry.wakeAll s list) := by
  have inside : ∀ b, b ∈ s.waits.seq list →
      (Sherry.wakeAll s list).actor b = { s.actor b with status := .ready } := by
    intro b member
    simp [Sherry.wakeAll, member]
  have outside : ∀ b, b ∉ s.waits.seq list → (Sherry.wakeAll s list).actor b = s.actor b := by
    intro b absent
    simp [Sherry.wakeAll, absent]
  have frames : ∀ b, ((Sherry.wakeAll s list).actor b).frame = (s.actor b).frame := by
    intro b
    by_cases member : b ∈ s.waits.seq list
    · rw [inside b member]
    · rw [outside b member]
  constructor
  · apply (placed.homed.drain apart).congr
    intro b
    by_cases member : b ∈ s.waits.seq list
    · simp [home, homeOf, inside b member, member]
    · simp [home, outside b member, member]
  · intro b
    by_cases member : b ∈ s.waits.seq list
    · obtain ⟨_, registered, idle, own⟩ := placed.member member
      rw [inside b member]
      exact ⟨registered, idle, own⟩
    · exact (placed.fits b).congr (outside b member) Iff.rfl Iff.rfl
  · exact placed.current
  · intro b c frame'
    rw [frames] at frame'
    exact placed.recvSelf b c frame'
  · intro b fd on
    rw [frames] at on
    exact placed.onFd b fd on
  · intro req member
    have absent : req.data ∉ s.waits.seq list := fun waits =>
      (placed.blocked_of_member apart waits).2 req member rfl
    rw [outside _ absent]
    exact placed.writes req member
  · exact placed.oneWrite

/-- Giving the processor to the first ready actor keeps the invariant. -/
theorem dispatch (placed : Placement s) (owner : s.cpu.owner = some .scheduler)
    {rest : List ActorRef} (first : s.waits.seq .readyq = a :: rest) :
    Placement (Sherry.dispatch s a rest) := by
  have member : a ∈ s.waits.seq .readyq := by simp [first]
  obtain ⟨_, registered, _, saved⟩ := placed.member member
  have ready := placed.mem_readyq.mp member
  have unwritten : ∀ req ∈ s.writes, req.data ≠ a := placed.no_write (by simp [ready])
  have exec : (Sherry.dispatch s a rest).executing = some a := executing_iff.mpr saved
  have own : (Sherry.dispatch s a rest).actor a = { s.actor a with status := .running } := by
    simp [Sherry.dispatch]
  refine placed.change a ?others (fun _ _ => Iff.rfl) ?exec ?homed ?fits ?current
    ?recvSelf (Nat.le_refl _) ?onFd (fun req member _ => member)
    (fun req member same => absurd same (unwritten req member)) placed.oneWrite
  case others =>
    intro b other
    simp [Sherry.dispatch, other]
  case exec =>
    intro b other
    rw [exec, executing_none owner]
    exact iff_of_false (fun equal => other (Option.some.inj equal).symm) (by simp)
  case homed =>
    rw [home, own]
    exact placed.homed.pop first
  case fits =>
    rw [own]
    exact iff_of_true registered exec
  case current =>
    intro b exec'
    rw [exec] at exec'
    exact ⟨Option.some.inj exec', owner⟩
  case recvSelf =>
    rw [own]
    exact placed.recvSelf a
  case onFd =>
    rw [own]
    exact placed.onFd a

/-- Moving the executing actor on to its own code keeps the invariant. -/
theorem setFrame (placed : Placement s) (exec : s.executing = some self) :
    Placement (s.setFrame self .user) := by
  obtain ⟨registered, running, _⟩ := placed.executing exec
  have unwritten : ∀ req ∈ s.writes, req.data ≠ self := placed.no_write (by simp [running])
  have nowhere : home s self = none := by simp [home, homeOf, running]
  have own : (s.setFrame self .user).actor self = { s.actor self with frame := .user } := by
    simp [State.setFrame, State.setActor]
  refine placed.change self ?others (fun _ _ => Iff.rfl) (fun _ _ => Iff.rfl) ?homed ?fits
    placed.current ?recvSelf (Nat.le_refl _) ?onFd (fun req member _ => member)
    (fun req member same => absurd same (unwritten req member)) placed.oneWrite
  case others =>
    intro b other
    simp [State.setFrame, State.setActor, other]
  case homed =>
    have still : home (s.setFrame self .user) self = home s self := by
      simp [home, own, homeOf, running]
    rw [still, Function.update_eq_self]
    exact placed.homed
  case fits =>
    have fits := placed.fits self
    simp only [Fits, own, running] at fits ⊢
    exact fits
  case recvSelf =>
    rw [own]
    simp
  case onFd =>
    rw [own]
    simp [Frame.onFd]

end Placement

end Sherry
