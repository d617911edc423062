import Sherry.Model.Behaviours
import Sherry.Verif.Mail

/-!
# Sessions are pools that run in rounds

Actors that spawn, yield and send to main are the jobs of a pool, and main in the loop of
`sherry_exit` is what separates its rounds: the part of `readyq` before main still has a turn
in this round, and the part behind main waits for the next. Each operation that an actor
executes does to the session what the operation of the same kind does to the pool.
-/

namespace Sherry

open Rounds (Job Op Pool Entry)

variable {ρ : Type} {s t : State Seqs (Behaviour ρ)} {c : Session Seqs ρ} {p q : Pool (Act ρ)}
  {self a : ActorRef} {running : Option ActorRef} {e : Entry (Act ρ)}

/-- The actor of an entry is suspended where the entry says. -/
def Awaits (s : State Seqs (Behaviour ρ)) (code : ActorRef → Behaviour ρ) (e : Entry (Act ρ)) :
    Prop :=
  if e.fresh then (s.actor e.number).frame = .entry ∧ (s.actor e.number).fn = some e.job
  else (s.actor e.number).frame = .user ∧ code e.number = e.job

/-- The message that an entry of the log sent to main. -/
def sentBy (s : State Seqs (Behaviour ρ)) : ActorRef × Op (Act ρ) → Option SherryMsg
  | (a, .act (.send msgtype payload)) =>
    some { sender := (s.actor a).aid, recver := mainId, msgtype, payload }
  | _ => none

/-- A context switch from main to the scheduler. -/
def isMainYield : Obs → Bool
  | .swapped (.actor 0) .scheduler _ _ => true
  | _ => false

/-- How often main yielded. -/
def mainYields (s : State Seqs (Behaviour ρ)) : Nat := s.trace.countP isMainYield

/-- The pool keeps the books of a session. -/
structure Recorded (c : Session Seqs ρ) (p : Pool (Act ρ)) : Prop where
  /-- The next actor gets the next number. -/
  next : p.next = c.state.nactors
  /-- Every actor but main was made from a job. -/
  numbers : p.made.map Prod.fst = List.range' 1 (c.state.nactors - 1)
  /-- The job is the function that the actor was spawned with. -/
  made : ∀ x ∈ p.made, (c.state.actor x.1).fn = some x.2
  /-- The logs are equal. -/
  log : c.log = p.log
  /-- Only allocated actors did something. -/
  logged : ∀ x ∈ p.log, x.1 < c.state.nactors
  /-- All messages that were sent lie in main's mailbox. -/
  mail : mailbox c.state 0 = p.log.filterMap (sentBy c.state)
  /-- Main yielded once for every round. -/
  rounds : mainYields c.state = p.rounds

/-- A session whose running actor, if one runs, is in its own code, with main in the loop of
`sherry_exit` or running. -/
structure Tracks (c : Session Seqs ρ) (running : Option ActorRef) (p : Pool (Act ρ)) : Prop where
  /-- The session is a run of the system. -/
  ran : ∃ es, Machine.run step sherryInit es = .ok c.state
  /-- `sherry_exit` has not returned. -/
  live : c.state.exited = false
  /-- Nobody is in `uv_run`. -/
  outside : c.state.polling = false
  /-- Main is the first actor. -/
  main : c.state.main = 0
  /-- Who executes. -/
  owner : c.state.cpu.owner = some (running.elim .scheduler .actor)
  /-- Everybody else is ready. -/
  ready : ∀ a, Registered c.state a → running ≠ some a → (c.state.actor a).status = .ready
  /-- Main separates this round from the next. -/
  readyq : c.state.waits.seq .readyq =
    p.now.map Entry.number ++ (if running = some 0 then [] else [0]) ++ p.later.map Entry.number
  /-- Main waits in `sherry_exit`. -/
  keeper : running ≠ some 0 → (c.state.actor 0).frame = .exit
  /-- The other actors wait with what they still do. -/
  waiting : ∀ e ∈ p.queue, Awaits c.state c.code e
  /-- The pool keeps the books. -/
  recorded : Recorded c p

/-- The books depend on the numbers, functions and ids of the actors, main's mailbox, the
switches of main and the log. -/
theorem Recorded.congr {d : Session Seqs ρ} (recorded : Recorded c p)
    (nactors : d.state.nactors = c.state.nactors)
    (actor : ∀ a, (d.state.actor a).fn = (c.state.actor a).fn ∧
      (d.state.actor a).aid = (c.state.actor a).aid)
    (mail : mailbox d.state 0 = mailbox c.state 0) (log : d.log = c.log)
    (next : q.next = p.next) (made : q.made = p.made) (same : q.log = p.log)
    (rounds : mainYields d.state + p.rounds = mainYields c.state + q.rounds) : Recorded d q := by
  have sent : sentBy d.state = sentBy c.state := by
    funext x
    unfold sentBy
    split
    · rw [(actor _).2]
    · rfl
  constructor
  · rw [next, recorded.next, nactors]
  · rw [made, recorded.numbers, nactors]
  · intro x member
    rw [made] at member
    rw [(actor x.1).1]
    exact recorded.made x member
  · rw [log, recorded.log, same]
  · intro x member
    rw [same] at member
    rw [nactors]
    exact recorded.logged x member
  · rw [mail, recorded.mail, same, sent]
  · have before := recorded.rounds
    omega

/-- An actor that did not execute waits as before. -/
theorem Awaits.congr {code code' : ActorRef → Behaviour ρ} (awaits : Awaits s code e)
    (actor : t.actor e.number = s.actor e.number) (same : code' e.number = code e.number) :
    Awaits t code' e := by
  unfold Awaits at *
  rw [actor, same]
  exact awaits

namespace Tracks

/-- The invariant holds. -/
theorem inv (tracks : Tracks c running p) : Inv c.state := by
  obtain ⟨es, ran⟩ := tracks.ran
  exact inv_run ran tracks.live

/-- The invariant of the mailboxes holds. -/
theorem mailed (tracks : Tracks c running p) : Mailed c.state := by
  obtain ⟨es, ran⟩ := tracks.ran
  exact run_mailed ran

/-- A step extends the run. -/
theorem reaches (tracks : Tracks c running p) {f : Event (Behaviour ρ)}
    (happened : step c.state f = .ok t) : ∃ es, Machine.run step sherryInit es = .ok t := by
  obtain ⟨es, ran⟩ := tracks.ran
  exact ⟨es ++ [f], Machine.run_snoc ran happened⟩

/-- Main is registered. -/
theorem main_registered (tracks : Tracks c running p) : Registered c.state 0 := by
  rw [← tracks.main]
  exact tracks.inv.registry.main_registered

/-- An actor that waits is in `readyq`. -/
theorem queued (tracks : Tracks c running p) (member : e ∈ p.queue) :
    e.number ∈ c.state.waits.seq .readyq := by
  rw [tracks.readyq]
  cases List.mem_append.mp member with
  | inl now => simp [List.mem_map_of_mem (f := Entry.number) now]
  | inr later => simp [List.mem_map_of_mem (f := Entry.number) later]

/-- An actor that waits is allocated. -/
theorem queued_allocated (tracks : Tracks c running p) (member : e ∈ p.queue) :
    e.number < c.state.nactors :=
  tracks.inv.member_allocated (tracks.queued member)

/-- The running actor executes. -/
theorem executing (tracks : Tracks c (some self) p) : c.state.executing = some self :=
  executing_iff.mpr tracks.owner

/-- The running actor does not wait. -/
theorem queued_ne (tracks : Tracks c (some self) p) (member : e ∈ p.queue) : e.number ≠ self := by
  have absent := (tracks.inv.placed.executing tracks.executing).2.2 .readyq
  intro same
  exact absent (same ▸ tracks.queued member)

/-- The running actor is allocated. -/
theorem allocated (tracks : Tracks c (some self) p) : self < c.state.nactors :=
  tracks.inv.registry.allocated (tracks.inv.placed.executing tracks.executing).1

end Tracks

/-- Between two sessions at most one actor changed, and it kept its function and its id. -/
structure Touches (c d : Session Seqs ρ) (a : ActorRef) : Prop where
  /-- The others are unchanged. -/
  others : ∀ b, b ≠ a → d.state.actor b = c.state.actor b ∧ d.code b = c.code b
  /-- The actor keeps its function and its id. -/
  own : (d.state.actor a).fn = (c.state.actor a).fn ∧ (d.state.actor a).aid = (c.state.actor a).aid
  /-- Nobody is registered anew. -/
  registered : ∀ b, Registered d.state b → Registered c.state b
  /-- No actor was made, and the program goes on outside `uv_run`. -/
  setting : d.state.nactors = c.state.nactors ∧ d.state.main = c.state.main ∧
    d.state.polling = c.state.polling ∧ d.state.exited = c.state.exited
  /-- Main's mailbox is unchanged. -/
  mail : mailbox d.state 0 = mailbox c.state 0

/-- Nothing changed. -/
theorem Touches.refl (c : Session Seqs ρ) (a : ActorRef) : Touches c c a where
  others := fun _ _ => ⟨rfl, rfl⟩
  own := ⟨rfl, rfl⟩
  registered := fun _ registered => registered
  setting := ⟨rfl, rfl, rfl, rfl⟩
  mail := rfl

/-- An actor that suspends itself changes no other. -/
theorem Touches.park {d : Session Seqs ρ} (touches : Touches c d a) (status : Status)
    (list : Option WaitRef) (frame : Frame) :
    Touches c { d with state := park d.state a status list frame } a where
  others := by
    intro b apart
    refine ⟨?_, (touches.others b apart).2⟩
    show Function.update d.state.actor a _ b = _
    rw [Function.update_of_ne apart]
    exact (touches.others b apart).1
  own := by simpa [Sherry.park] using touches.own
  registered := touches.registered
  setting := touches.setting
  mail := touches.mail

/-- The books after one actor changed. -/
theorem Touches.recorded {d : Session Seqs ρ} (touches : Touches c d a) (recorded : Recorded c p)
    (log : d.log = c.log) (next : q.next = p.next) (made : q.made = p.made) (same : q.log = p.log)
    (rounds : mainYields d.state + p.rounds = mainYields c.state + q.rounds) : Recorded d q := by
  apply recorded.congr touches.setting.1 _ touches.mail log next made same rounds
  intro b
  by_cases here : b = a
  · rw [here]
    exact touches.own
  · rw [(touches.others b here).1]
    exact ⟨rfl, rfl⟩

/-- A session in which one actor changed is tracked by a pool that says where it is now. -/
theorem Touches.tracks {d : Session Seqs ρ} {running' : Option ActorRef}
    (touches : Touches c d a) (tracks : Tracks c running p)
    (turns : ∀ b, b ≠ a → running ≠ some b)
    (ran : ∃ es, Machine.run step sherryInit es = .ok d.state)
    (owner : d.state.cpu.owner = some (running'.elim .scheduler .actor))
    (ready : Registered d.state a → running' ≠ some a → (d.state.actor a).status = .ready)
    (readyq : d.state.waits.seq .readyq =
      q.now.map Entry.number ++ (if running' = some 0 then [] else [0]) ++
        q.later.map Entry.number)
    (keeper : running' ≠ some 0 → (d.state.actor 0).frame = .exit)
    (waits : ∀ e ∈ q.queue, e ∈ p.queue ∧ e.number ≠ a ∨ Awaits d.state d.code e)
    (recorded : Recorded d q) : Tracks d running' q where
  ran := ran
  live := touches.setting.2.2.2.trans tracks.live
  outside := touches.setting.2.2.1.trans tracks.outside
  main := touches.setting.2.1.trans tracks.main
  owner := owner
  ready := by
    intro b registered idle
    by_cases here : b = a
    · subst here
      exact ready registered idle
    · rw [(touches.others b here).1]
      exact tracks.ready b (touches.registered b registered) (turns b here)
  readyq := readyq
  keeper := keeper
  waiting := by
    intro e member
    cases waits e member with
    | inl old =>
      have same := touches.others e.number old.2
      exact (tracks.waiting e old.1).congr same.1 same.2
    | inr new => exact new
  recorded := recorded

/-- Main waits while another actor runs, whatever that one does to itself. -/
theorem Touches.keeper {d : Session Seqs ρ} (touches : Touches c d self)
    (tracks : Tracks c (some self) p) (other : self ≠ 0) : (d.state.actor 0).frame = .exit := by
  rw [(touches.others 0 other.symm).1]
  exact tracks.keeper (mt Option.some.inj other)

/-- An operation is noted after it was performed. -/
theorem issue_ok {op : Op (Act ρ)} (performed : perform c.state op = .ok t) :
    c.issue self op = .ok { c with state := t, log := c.log ++ [(self, op)] } := by
  rw [Session.issue, performed]

/-- What is not a message adds none to what was sent. -/
theorem sentBy_none {op : Op (Act ρ)}
    (silent : ∀ msgtype payload, op ≠ .act (.send msgtype payload)) :
    sentBy s (self, op) = none := by
  unfold sentBy
  split
  · rename_i same
    cases same
    exact absurd rfl (silent _ _)
  · rfl

/-- The books after an operation that sends nothing was noted. -/
theorem Recorded.note {op : Op (Act ρ)} (recorded : Recorded c p)
    (allocated : self < c.state.nactors)
    (silent : ∀ msgtype payload, op ≠ .act (.send msgtype payload)) :
    Recorded { c with log := c.log ++ [(self, op)] } (p.record self op) where
  next := recorded.next
  numbers := recorded.numbers
  made := recorded.made
  log := congrArg (· ++ [(self, op)]) recorded.log
  logged := by
    intro x member
    cases List.mem_append.mp member with
    | inl old => exact recorded.logged x old
    | inr new =>
      rw [List.mem_singleton.mp new]
      exact allocated
  mail := by
    show mailbox c.state 0 = (p.log ++ [(self, op)]).filterMap (sentBy c.state)
    rw [List.filterMap_append, ← recorded.mail]
    simp [sentBy_none silent]
  rounds := recorded.rounds

/-- A session after an operation that sends nothing was noted. -/
theorem Tracks.note {op : Op (Act ρ)} (tracks : Tracks c running p)
    (allocated : self < c.state.nactors)
    (silent : ∀ msgtype payload, op ≠ .act (.send msgtype payload)) :
    Tracks { c with log := c.log ++ [(self, op)] } running (p.record self op) :=
  { tracks with recorded := tracks.recorded.note allocated silent }

/-- An actor that starts enters its function. -/
theorem Tracks.starts (tracks : Tracks c (some self) p) (other : self ≠ 0)
    (frame : (c.state.actor self).frame = .entry) :
    c.issue self .start = .ok { c with
        state := c.state.setFrame self .user
        log := c.log ++ [(self, .start)] } ∧
      Tracks { c with
        state := c.state.setFrame self .user
        log := c.log ++ [(self, .start)] } (some self) (p.record self .start) := by
  have happened : step c.state (.resume 0) = .ok (c.state.setFrame self .user) :=
    resume_step.mpr ⟨tracks.live, self, tracks.executing, by rw [resume_ok, frame]⟩
  refine ⟨issue_ok happened, ?_⟩
  have touches : Touches c { c with state := c.state.setFrame self .user } self := by
    constructor
    · intro b apart
      exact ⟨by simp [State.setFrame, State.setActor, apart], rfl⟩
    · simp [State.setFrame, State.setActor]
    · exact fun b registered => registered
    · exact ⟨rfl, rfl, rfl, rfl⟩
    · rfl
  have entered : Tracks { c with state := c.state.setFrame self .user } (some self) p := by
    apply touches.tracks tracks
    · exact fun b apart same => apart (Option.some.inj same).symm
    · exact tracks.reaches happened
    · exact tracks.owner
    · exact fun _ idle => absurd rfl idle
    · exact tracks.readyq
    · exact fun _ => touches.keeper tracks other
    · exact fun e member => .inl ⟨member, tracks.queued_ne member⟩
    · exact touches.recorded tracks.recorded rfl rfl rfl rfl rfl
  exact entered.note tracks.allocated fun _ _ => by simp

/-- An actor that does something of its own changes only the log. -/
theorem Tracks.notes (tracks : Tracks c (some self) p) (event : ρ) :
    c.issue self (.act (.record event)) =
        .ok { c with log := c.log ++ [(self, .act (.record event))] } ∧
      Tracks { c with log := c.log ++ [(self, .act (.record event))] } (some self)
        (p.record self (.act (.record event))) :=
  ⟨rfl, tracks.note tracks.allocated fun _ _ => by simp⟩

/-- An actor other than main that suspends itself is no yield of main. -/
theorem mainYields_park {status : Status} {list : Option WaitRef} {frame : Frame}
    (other : self ≠ 0) : mainYields (park s self status list frame) = mainYields s := by
  have silent : isMainYield (Obs.swapped (.actor self) .scheduler s.cpu s.ctx) = false := by
    unfold isMainYield
    split
    · rename_i same
      cases same
      exact absurd rfl other
    · rfl
  simp [mainYields, park, List.countP_append, silent]

/-- An actor that yields waits for the next round. -/
theorem Tracks.yields (tracks : Tracks c (some self) p) (other : self ≠ 0)
    (frame : (c.state.actor self).frame = .user) (rest : Behaviour ρ) :
    ∃ d, { c with code := Function.update c.code self rest }.issue self .yield = .ok d ∧
      Tracks d none ((p.record self .yield).wait self rest) := by
  have exec := tracks.executing
  have placed := tracks.inv.placed
  have user : c.state.inUser = some self := inUser_iff.mpr ⟨tracks.live, exec, frame⟩
  have happened : step c.state .yield = .ok (park c.state self .ready (some .readyq) .user) := by
    rw [← sherryYield_eq (placed.current self exec).1 (placed.executing exec).2.1]
    exact call_ok.mpr ⟨self, user, rfl⟩
  refine ⟨_, issue_ok happened, ?_⟩
  have resumed : Touches c { c with code := Function.update c.code self rest } self :=
    { Touches.refl c self with others := fun b apart => ⟨rfl, Function.update_of_ne apart _ _⟩ }
  have touches := resumed.park .ready (some .readyq) .user
  have parked : Tracks { c with
      code := Function.update c.code self rest
      state := park c.state self .ready (some .readyq) .user } none (p.wait self rest) := by
    apply touches.tracks tracks
    · exact fun b apart same => apart (Option.some.inj same).symm
    · exact tracks.reaches happened
    · exact (placed.current self exec).2
    · exact fun _ _ => by simp [park]
    · have away : some self ≠ some 0 := fun same => other (Option.some.inj same)
      simp [park, enlist, tracks.readyq, Pool.wait, away]
    · exact fun _ => touches.keeper tracks other
    · intro e member
      cases List.mem_append.mp member with
      | inl now => exact .inl ⟨List.mem_append_left _ now,
          tracks.queued_ne (List.mem_append_left _ now)⟩
      | inr later =>
        cases List.mem_append.mp later with
        | inl old => exact .inl ⟨List.mem_append_right _ old,
            tracks.queued_ne (List.mem_append_right _ old)⟩
        | inr new =>
          rw [List.mem_singleton.mp new]
          exact .inr (by simp [Awaits, park])
    · refine touches.recorded (q := p.wait self rest) tracks.recorded rfl rfl rfl rfl ?_
      rw [mainYields_park other]
      rfl
  exact parked.note tracks.allocated fun _ _ => by simp

/-- An actor that returns does not wait. -/
theorem Tracks.returns (tracks : Tracks c (some self) p) (other : self ≠ 0)
    (frame : (c.state.actor self).frame = .user) :
    ∃ d, c.issue self .ret = .ok d ∧ Tracks d none (p.record self .ret) := by
  have exec := tracks.executing
  have placed := tracks.inv.placed
  have user : c.state.inUser = some self := inUser_iff.mpr ⟨tracks.live, exec, frame⟩
  have registered := (placed.executing exec).1
  obtain ⟨i, found, _⟩ := tracks.inv.registry.at_id registered
  have called : step c.state .ret = .ok (sherryMainReturn c.state self) :=
    call_ok.mpr ⟨self, user, if_neg (by rw [tracks.main]; exact other)⟩
  rw [sherryMainReturn_eq tracks.inv exec found] at called
  generalize returned : park _ self .running none .returned = t at called
  refine ⟨_, issue_ok called, ?_⟩
  have touches : Touches c { c with state := t } self := by
    rw [← returned]
    apply Touches.park (d := { c with state := _ })
    have stays : ∀ b, Registered { c.state with actors := c.state.actors.set i none } b →
        Registered c.state b := fun _ still =>
      ((tracks.inv.registry.registered_left found rfl).mp still).1
    exact { Touches.refl c self with registered := stays }
  have parked : Tracks { c with state := t } none p := by
    apply touches.tracks tracks
    · exact fun b apart same => apart (Option.some.inj same).symm
    · exact tracks.reaches called
    · subst returned
      exact (placed.current self exec).2
    · intro still
      subst returned
      exact absurd rfl ((tracks.inv.registry.registered_left found (by rfl)).mp still).2
    · have away : some self ≠ some 0 := fun same => other (Option.some.inj same)
      subst returned
      simp [park, enlist, tracks.readyq, away]
    · exact fun _ => touches.keeper tracks other
    · exact fun e member => .inl ⟨member, tracks.queued_ne member⟩
    · apply touches.recorded tracks.recorded rfl rfl rfl rfl
      subst returned
      rw [mainYields_park other]
      simp [mainYields, isMainYield]
  have allocated : self < t.nactors := by
    rw [touches.setting.1]
    exact tracks.allocated
  exact parked.note allocated fun _ _ => by simp

/-- The number of a job that was made is that of an allocated actor other than main. -/
theorem Recorded.made_range (recorded : Recorded c p) {x : Nat × Behaviour ρ}
    (member : x ∈ p.made) : 0 < x.1 ∧ x.1 < c.state.nactors := by
  have number := List.mem_map_of_mem (f := Prod.fst) member
  rw [recorded.numbers, List.mem_range'_1] at number
  omega

/-- The books after `sherry_spawn`. -/
theorem Recorded.spawned (recorded : Recorded c p) (allocated : 0 < c.state.nactors)
    (child : Behaviour ρ) :
    Recorded { c with state := sherrySpawn c.state child } (p.make child) := by
  have others : ∀ b, b < c.state.nactors →
      (sherrySpawn c.state child).actor b = c.state.actor b := by
    intro b below
    rw [sherrySpawn_eq]
    exact Function.update_of_ne (Nat.ne_of_lt below) _ _
  have nactors : (sherrySpawn c.state child).nactors = c.state.nactors + 1 := by
    rw [sherrySpawn_eq]
  constructor
  · show p.next + 1 = _
    rw [nactors, recorded.next]
  · show (p.made ++ [(p.next, child)]).map Prod.fst = _
    have more : c.state.nactors + 1 - 1 = c.state.nactors - 1 + 1 := by omega
    have last : 1 + (c.state.nactors - 1) = c.state.nactors := by omega
    rw [nactors, List.map_append, recorded.numbers, recorded.next, more, List.range'_1_concat, last]
    rfl
  · intro x member
    cases List.mem_append.mp member with
    | inl old =>
      show ((sherrySpawn c.state child).actor x.1).fn = _
      rw [others x.1 (recorded.made_range old).2]
      exact recorded.made x old
    | inr new =>
      rw [List.mem_singleton.mp new, recorded.next]
      simp [sherrySpawn_eq]
  · exact recorded.log
  · intro x member
    show x.1 < (sherrySpawn c.state child).nactors
    rw [nactors]
    exact Nat.lt_succ_of_lt (recorded.logged x member)
  · have box : mailbox (sherrySpawn c.state child) 0 = mailbox c.state 0 := by
      rw [sherrySpawn_eq]
      simp [mailbox, Nat.ne_of_lt allocated]
    have sent : ∀ x ∈ p.log, sentBy (sherrySpawn c.state child) x = sentBy c.state x := by
      intro x member
      unfold sentBy
      split
      · rw [others _ (recorded.logged _ member)]
      · rfl
    show mailbox (sherrySpawn c.state child) 0 = p.log.filterMap (sentBy _)
    rw [box, recorded.mail]
    exact (List.filterMap_congr sent).symm
  · have quiet : mainYields (sherrySpawn c.state child) = mainYields c.state := by
      rw [sherrySpawn_eq]
      simp [mainYields, isMainYield]
    exact quiet.trans recorded.rounds

/-- An actor that calls `sherry_spawn` makes a job that waits for the next round. -/
theorem Tracks.spawned (tracks : Tracks c (some self) p)
    (frame : (c.state.actor self).frame = .user) (child : Behaviour ρ) :
    step c.state (.spawn child) = .ok (sherrySpawn c.state child) ∧
      Tracks { c with state := sherrySpawn c.state child } (some self) (p.make child) := by
  have exec := tracks.executing
  have user : c.state.inUser = some self := inUser_iff.mpr ⟨tracks.live, exec, frame⟩
  have happened : step c.state (.spawn child) = .ok (sherrySpawn c.state child) :=
    call_ok.mpr ⟨self, user, rfl⟩
  have main_allocated := tracks.inv.registry.allocated tracks.main_registered
  have others : ∀ b, b ≠ c.state.nactors →
      (sherrySpawn c.state child).actor b = c.state.actor b := by
    intro b other
    rw [sherrySpawn_eq]
    exact Function.update_of_ne other _ _
  have own : ((sherrySpawn c.state child).actor c.state.nactors).frame = .entry ∧
      ((sherrySpawn c.state child).actor c.state.nactors).fn = some child ∧
      ((sherrySpawn c.state child).actor c.state.nactors).status = .ready := by
    rw [sherrySpawn_eq]
    simp
  have registered : ∀ b, Registered (sherrySpawn c.state child) b →
      b = c.state.nactors ∨ Registered c.state b := by
    intro b there
    exact (tracks.inv.registry.registered_entered (by rw [sherrySpawn_eq])).mp there
  refine ⟨happened, ?_⟩
  constructor
  · exact tracks.reaches happened
  · show (sherrySpawn c.state child).exited = false
    rw [sherrySpawn_eq]
    exact tracks.live
  · show (sherrySpawn c.state child).polling = false
    rw [sherrySpawn_eq]
    exact tracks.outside
  · show (sherrySpawn c.state child).main = 0
    rw [sherrySpawn_eq]
    exact tracks.main
  · show (sherrySpawn c.state child).cpu.owner = _
    rw [sherrySpawn_eq]
    exact tracks.owner
  · intro b there idle
    by_cases new : b = c.state.nactors
    · rw [new]
      exact own.2.2
    · show ((sherrySpawn c.state child).actor b).status = .ready
      rw [others b new]
      exact tracks.ready b ((registered b there).resolve_left new) idle
  · show (sherrySpawn c.state child).waits.seq .readyq = _
    rw [sherrySpawn_eq]
    simp [enlist, tracks.readyq, Pool.make, tracks.recorded.next]
  · intro away
    show ((sherrySpawn c.state child).actor 0).frame = .exit
    rw [others 0 (Nat.ne_of_lt main_allocated)]
    exact tracks.keeper away
  · intro e member
    have either : e ∈ p.queue ∨ e = ⟨p.next, true, child⟩ := by
      simpa [Pool.queue, Pool.make, or_assoc] using member
    cases either with
    | inl old =>
      have below := tracks.queued_allocated old
      exact (tracks.waiting e old).congr (others e.number (Nat.ne_of_lt below)) rfl
    | inr new =>
      rw [new, tracks.recorded.next]
      exact ⟨own.1, own.2.1⟩
  · exact tracks.recorded.spawned main_allocated child

/-- An actor other than main that calls `sherry_spawn` notes it. -/
theorem Tracks.spawns (tracks : Tracks c (some self) p)
    (frame : (c.state.actor self).frame = .user) (child : Behaviour ρ) :
    ∃ d, c.issue self (.spawn child) = .ok d ∧ (d.state.actor self).frame = .user ∧
      Tracks d (some self) ((p.record self (.spawn child)).make child) := by
  obtain ⟨happened, spawned⟩ := tracks.spawned frame child
  refine ⟨_, issue_ok happened, ?_, ?_⟩
  · have other : self ≠ c.state.nactors := Nat.ne_of_lt tracks.allocated
    show ((sherrySpawn c.state child).actor self).frame = .user
    rw [sherrySpawn_eq]
    simp only [Function.update_of_ne other]
    exact frame
  · exact spawned.note spawned.allocated fun _ _ => by simp

/-- The message that an actor sends to main. -/
theorem msgFor_main (tracks : Tracks c (some self) p) (msgtype : Int) (payload : Sds) :
    msgFor c.state 0 msgtype payload =
      { sender := (c.state.actor self).aid, recver := mainId, msgtype, payload } := by
  have running := (tracks.inv.placed.current self tracks.executing).1
  have slot : c.state.actors[0]? = some (some 0) := by
    have first := tracks.inv.registry.main
    rw [tracks.main] at first
    exact first
  have id : (c.state.actor 0).aid = 0 := (tracks.inv.registry.slots 0 0 slot).2
  rw [msgFor, running, id]
  rfl

/-- A message that an actor sends to main lies in main's mailbox. -/
theorem Recorded.delivered (recorded : Recorded c p) (mailed : Mailed c.state)
    (allocated : self < c.state.nactors) {msg : SherryMsg} {msgtype : Int} {payload : Sds}
    (sent : msg = { sender := (c.state.actor self).aid, recver := mainId, msgtype, payload }) :
    Recorded { c with
        state := deliver c.state self 0 msg
        log := c.log ++ [(self, .act (.send msgtype payload))] }
      (p.record self (.act (.send msgtype payload))) where
  next := recorded.next
  numbers := recorded.numbers
  made := recorded.made
  log := congrArg (· ++ [_]) recorded.log
  logged := by
    intro x member
    cases List.mem_append.mp member with
    | inl old => exact recorded.logged x old
    | inr new =>
      rw [List.mem_singleton.mp new]
      exact allocated
  mail := by
    have earlier : (c.state.mail.seq 0).map (deliver c.state self 0 msg).msg =
        mailbox c.state 0 := by
      apply List.map_congr_left
      intro m member
      have below := mailed.below 0 m member
      exact Function.update_of_ne (Nat.ne_of_lt below) _ _
    have box : mailbox (deliver c.state self 0 msg) 0 = mailbox c.state 0 ++ [msg] := by
      rw [← earlier]
      simp [mailbox, deliver]
    show mailbox (deliver c.state self 0 msg) 0 =
      (p.log ++ [(self, Op.act (Act.send msgtype payload))]).filterMap (sentBy _)
    rw [box, recorded.mail, List.filterMap_append, sent]
    rfl
  rounds := by
    show mainYields (deliver c.state self 0 msg) = p.rounds
    rw [← recorded.rounds]
    simp [mainYields, deliver, isMainYield]

/-- An actor that calls `sherry_msg_send` goes on, and main, which does not wait for a message,
stays where it is. -/
theorem Tracks.sends (tracks : Tracks c (some self) p) (other : self ≠ 0)
    (frame : (c.state.actor self).frame = .user) (msgtype : Int) (payload : Sds) :
    ∃ d, c.issue self (.act (.send msgtype payload)) = .ok d ∧
      (d.state.actor self).frame = .user ∧
      Tracks d (some self) (p.record self (.act (.send msgtype payload))) := by
  have user : c.state.inUser = some self :=
    inUser_iff.mpr ⟨tracks.live, tracks.executing, frame⟩
  have slot : c.state.slot 0 = some 0 := by
    rw [Registry.slot_iff, tracks.inv.registry.main, tracks.main]
  have away : some self ≠ some 0 := fun same => other (Option.some.inj same)
  have ready : (c.state.actor 0).status = .ready :=
    tracks.ready 0 tracks.main_registered away
  have happened : step c.state (.send mainId msgtype payload) =
      .ok (deliver c.state self 0 (msgFor c.state 0 msgtype payload)) := by
    refine call_ok.mpr ⟨self, user, sherryMsgSend_ok.mpr ⟨Int.le_refl 0, ?_, 0, slot, ?_⟩⟩
    · have positive := tracks.inv.registry.positive
      rw [← tracks.inv.registry.size] at positive
      exact Int.ofNat_lt.mpr positive
    · simp [revoke, deliver, ready]
  refine ⟨_, issue_ok happened, frame, ?_⟩
  constructor
  · exact tracks.reaches happened
  · exact tracks.live
  · exact tracks.outside
  · exact tracks.main
  · exact tracks.owner
  · exact tracks.ready
  · exact tracks.readyq
  · exact tracks.keeper
  · exact tracks.waiting
  · exact tracks.recorded.delivered tracks.mailed tracks.allocated (msgFor_main tracks _ _)

/-- An actor that executes its code up to its next yield or to its return does to the session
what a job that goes on does to the pool. -/
theorem Tracks.runs {j : Behaviour ρ} (tracks : Tracks c (some self) p) (other : self ≠ 0)
    (frame : (c.state.actor self).frame = .user) :
    ∃ d, runBehaviour self j c = .ok d ∧ Tracks d none (Pool.run self j p) := by
  induction j generalizing c p with
  | ret => exact tracks.returns other frame
  | yield rest _ => exact tracks.yields other frame rest
  | act a rest ih =>
    have issued : ∃ d, c.issue self (.act a) = .ok d ∧ (d.state.actor self).frame = .user ∧
        Tracks d (some self) (p.record self (.act a)) := by
      cases a with
      | send msgtype payload => exact tracks.sends other frame msgtype payload
      | record event => exact ⟨_, (tracks.notes event).1, frame, (tracks.notes event).2⟩
    obtain ⟨m, issued, goes, later⟩ := issued
    obtain ⟨d, ran, last⟩ := ih later goes
    refine ⟨d, ?_, last⟩
    rw [runBehaviour, issued]
    exact ran
  | spawn child rest _ ih =>
    obtain ⟨m, issued, goes, later⟩ := tracks.spawns frame child
    obtain ⟨d, ran, last⟩ := ih later goes
    refine ⟨d, ?_, last⟩
    rw [runBehaviour, issued]
    exact ran

end Sherry
