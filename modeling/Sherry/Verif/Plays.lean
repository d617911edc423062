import Sherry.Verif.Sessions

/-!
# Finite trees of actors and loops

The loop of `schdule` runs the actors that main spawned as a pool runs its jobs, one turn for
each iteration, and main in `sherry_exit` begins the next round or, when no other actor is
registered any more, ends the program. So what holds of every pool holds of the program: it
ends, every actor of the trees executes its program once, and loops go on in rounds.
-/

namespace Sherry

open Rounds (Job Op Pool Entry)

variable {ρ : Type} {s t : State Seqs (Behaviour ρ)} {c : Session Seqs ρ} {p q : Pool (Act ρ)}
  {self a : ActorRef} {running : Option ActorRef} {e : Entry (Act ρ)}

/-- An iteration in which `schdule` resumes an actor is the turn of that actor. -/
theorem session_turn (happened : step c.state .schdule = .ok s)
    (executing : s.executing = some self) :
    c.iteration = takeTurn self { c with state := s } := by
  rw [Session.iteration, happened]
  simp only [bind, Except.bind, executing]

/-- `schdule` resumes the first actor of `readyq`, which then waits no longer. -/
theorem Tracks.dispatches (tracks : Tracks c none p) {next : ActorRef} {tail : List ActorRef}
    (first : c.state.waits.seq .readyq = next :: tail)
    (readyq : tail = q.now.map Entry.number ++ (if some next = some 0 then [] else [0]) ++
      q.later.map Entry.number)
    (waits : ∀ e ∈ q.queue, e ∈ p.queue) (counter : q.next = p.next) (made : q.made = p.made)
    (log : q.log = p.log) (rounds : q.rounds = p.rounds) :
    step c.state .schdule = .ok (dispatch c.state next tail) ∧
      Tracks { c with state := dispatch c.state next tail } (some next) q := by
  have inside : next ∈ c.state.waits.seq .readyq := by
    rw [first]
    exact List.mem_cons_self
  have member := tracks.inv.placed.member inside
  have happened : step c.state .schdule = .ok (dispatch c.state next tail) := by
    rw [← schdule_cons first]
    exact onLoop_ok.mpr ⟨onScheduler_iff.mpr ⟨tracks.live, tracks.owner, tracks.outside⟩,
      trivial, rfl⟩
  have touches : Touches c { c with state := dispatch c.state next tail } next := by
    constructor
    · exact fun b apart => ⟨by simp [dispatch, apart], rfl⟩
    · simp [dispatch]
    · exact fun b registered => registered
    · exact ⟨rfl, rfl, rfl, rfl⟩
    · rfl
  have once : next ∉ tail := by
    have nodup := tracks.inv.placed.homed.nodup .readyq
    rw [first] at nodup
    exact (List.nodup_cons.mp nodup).1
  refine ⟨happened, touches.tracks tracks ?_ ?_ ?_ ?_ ?_ ?_ ?_ ?_⟩
  · exact fun b _ => (Option.some_ne_none b).symm
  · exact tracks.reaches happened
  · exact member.2.2.2
  · exact fun _ idle => absurd rfl idle
  · simp [dispatch, readyq]
  · intro away
    have other : (0 : ActorRef) ≠ next := fun same => away (congrArg some same.symm)
    simp only [dispatch, Function.update_of_ne other]
    exact tracks.keeper (by simp)
  · intro e there
    refine .inl ⟨waits e there, fun same => once ?_⟩
    rw [readyq, ← same]
    cases List.mem_append.mp there with
    | inl now => simp [List.mem_map_of_mem (f := Entry.number) now]
    | inr later => simp [List.mem_map_of_mem (f := Entry.number) later]
  · apply touches.recorded tracks.recorded rfl counter made log
    rw [rounds]
    simp [mainYields, dispatch, isMainYield]

/-- A turn of an actor other than main, from where it waited. -/
theorem Tracks.takes (tracks : Tracks c (some e.number) p) (other : e.number ≠ 0)
    (awaits : Awaits c.state c.code e) :
    ∃ d, takeTurn e.number c = .ok d ∧ Tracks d none (p.exec e) := by
  cases fresh : e.fresh with
  | true =>
    simp only [Awaits, fresh, ↓reduceIte] at awaits
    obtain ⟨issued, started⟩ := tracks.starts other awaits.1
    have frame : ((c.state.setFrame e.number .user).actor e.number).frame = .user := by
      simp [State.setFrame, State.setActor]
    obtain ⟨d, ran, last⟩ := started.runs (j := e.job) other frame
    refine ⟨d, ?_, ?_⟩
    · simp only [takeTurn, awaits.1, awaits.2, issued, Option.getD_some]
      exact ran
    · simp only [Pool.exec, Pool.start, fresh, ↓reduceIte]
      exact last
  | false =>
    simp only [Awaits, fresh, Bool.false_eq_true, ↓reduceIte] at awaits
    obtain ⟨d, ran, last⟩ := tracks.runs (j := e.job) other awaits.1
    refine ⟨d, ?_, ?_⟩
    · simp only [takeTurn, awaits.1, awaits.2]
      exact ran
    · simp only [Pool.exec, Pool.start, fresh, Bool.false_eq_true, ↓reduceIte]
      exact last

/-- An iteration with a turn of an actor other than main is a turn of its job. -/
theorem Tracks.iterates {es : List (Entry (Act ρ))} (tracks : Tracks c none p)
    (now : p.now = e :: es) :
    ∃ d, c.iteration = .ok d ∧ Tracks d none (({ p with now := es } : Pool (Act ρ)).exec e) := by
  have first : c.state.waits.seq .readyq =
      e.number :: (es.map Entry.number ++ [0] ++ p.later.map Entry.number) := by
    rw [tracks.readyq, now]
    rfl
  have other : e.number ≠ 0 := by
    have nodup := tracks.inv.placed.homed.nodup .readyq
    rw [first] at nodup
    intro same
    exact (List.nodup_cons.mp nodup).1 (by simp [same])
  have away : some e.number ≠ some 0 := fun same => other (Option.some.inj same)
  have front : p.queue = e :: (es ++ p.later) := by rw [Pool.queue, now, List.cons_append]
  have waits : ∀ d ∈ ({ p with now := es } : Pool (Act ρ)).queue, d ∈ p.queue := by
    intro d member
    rw [front]
    exact List.mem_cons_of_mem e member
  obtain ⟨happened, entered⟩ := tracks.dispatches (q := { p with now := es }) first
    (by rw [if_neg away]) waits rfl rfl rfl rfl
  have awaits : Awaits (dispatch c.state e.number
      (es.map Entry.number ++ [0] ++ p.later.map Entry.number)) c.code e := by
    have before := tracks.waiting e (by rw [front]; exact List.mem_cons_self)
    simpa [Awaits, dispatch] using before
  obtain ⟨d, taken, last⟩ := entered.takes other awaits
  refine ⟨d, ?_, last⟩
  rw [session_turn happened entered.executing]
  exact taken

/-- Other actors are registered exactly while one waits for the next round. -/
theorem Tracks.shared_iff (tracks : Tracks c (some 0) p) (now : p.now = []) :
    c.state.curractors > 1 ↔ p.later ≠ [] := by
  have queue : c.state.waits.seq .readyq = p.later.map Entry.number := by
    rw [tracks.readyq, now]
    rfl
  rw [tracks.inv.registry.shared_iff, tracks.main]
  constructor
  · rintro ⟨a, registered, other⟩ nobody
    have ready := tracks.ready a registered fun same => other (Option.some.inj same).symm
    have inside := tracks.inv.placed.mem_readyq.mpr ready
    rw [queue, nobody] at inside
    cases inside
  · intro some
    obtain ⟨e, member⟩ := List.exists_mem_of_ne_nil p.later some
    have waits : e ∈ p.queue := List.mem_append_right _ member
    exact ⟨e.number, (tracks.inv.placed.member (tracks.queued waits)).2.1,
      tracks.queued_ne waits⟩

/-- Main goes back to `readyq` while others wait, and a round begins. -/
theorem Tracks.lingers {f : Event (Behaviour ρ)} (tracks : Tracks c (some 0) p)
    (now : p.now = []) (later : p.later ≠ [])
    (happened : step c.state f = .ok (sherryExit c.state 0)) :
    Tracks { c with state := sherryExit c.state 0 } none
      { p with now := p.later, later := [], rounds := p.rounds + 1 } := by
  have exec := tracks.executing
  have placed := tracks.inv.placed
  have shared := (tracks.shared_iff now).mpr later
  have parked : sherryExit c.state 0 = park c.state 0 .ready (some .readyq) .exit := by
    rw [← sherryYield_eq (placed.current 0 exec).1 (placed.executing exec).2.1]
    simp only [sherryExit, shared, ↓reduceIte]
  rw [parked] at happened ⊢
  have touches := (Touches.refl c 0).park .ready (some .readyq) .exit
  apply touches.tracks tracks
  · exact fun b apart same => apart (Option.some.inj same).symm
  · exact tracks.reaches happened
  · exact (placed.current 0 exec).2
  · exact fun _ _ => by simp [park]
  · simp [park, enlist, tracks.readyq, now]
  · exact fun _ => by simp [park]
  · intro e member
    have waits : e ∈ p.queue := by
      rw [Pool.queue, now]
      simpa [Pool.queue] using member
    exact .inl ⟨waits, tracks.queued_ne waits⟩
  · refine touches.recorded tracks.recorded rfl rfl rfl rfl ?_
    have counted : mainYields (park c.state 0 .ready (some .readyq) .exit) =
        mainYields c.state + 1 := by
      simp [mainYields, park, isMainYield]
    show mainYields (park c.state 0 .ready (some .readyq) .exit) + _ = _
    rw [counted]
    show _ = mainYields c.state + (p.rounds + 1)
    omega

/-- What holds where `sherry_exit` leaves its loop. -/
structure Alone (s : State Seqs (Behaviour ρ)) : Prop where
  /-- Main executes. -/
  main : s.executing = some s.main
  /-- No other actor is registered. -/
  curractors : s.curractors = 1
  /-- Nobody is ready. -/
  readyq : s.waits.seq .readyq = []
  /-- Nobody waits for a message. -/
  waitingmsg : s.waits.seq .waitingmsg = []

/-- When nobody waits main is alone, and `sherry_exit` returns. -/
theorem Tracks.leaves (tracks : Tracks c (some 0) p) (now : p.now = []) (later : p.later = []) :
    Alone c.state ∧ (sherryExit c.state 0).exited = true ∧
      Recorded { c with state := sherryExit c.state 0 } p := by
  have alone : ¬c.state.curractors > 1 := fun shared =>
    (tracks.shared_iff now).mp shared later
  refine ⟨⟨?_, ?_, ?_, ?_⟩, ?_, ?_⟩
  · rw [tracks.main]
    exact tracks.executing
  · have one : 0 < c.state.actors.countP Option.isSome :=
      List.countP_pos_iff.mpr ⟨some 0, tracks.main_registered, rfl⟩
    have count := tracks.inv.registry.count
    omega
  · rw [tracks.readyq, now, later]
    rfl
  · apply List.eq_nil_iff_forall_not_mem.mpr
    intro a member
    have status := tracks.inv.placed.mem_waitingmsg.mp member
    have registered := (tracks.inv.placed.member member)
    by_cases main : a = 0
    · rw [main] at registered
      exact registered.2.2.1 tracks.executing
    · rw [tracks.ready a registered.2.1 fun same => main (Option.some.inj same).symm] at status
      cases status
  · simp only [sherryExit, alone, ↓reduceIte]
  · rw [sherryExit, if_neg alone, tracks.inv.registry.unregActor_eq tracks.inv.registry.main]
    exact tracks.recorded.congr rfl (fun _ => ⟨rfl, rfl⟩) rfl rfl rfl rfl rfl rfl

/-- Main gets its turn when everybody had one. -/
theorem Tracks.returns_to_main (tracks : Tracks c none p) (now : p.now = []) :
    ∃ s, step c.state .schdule = .ok s ∧ Tracks { c with state := s } (some 0) p ∧
      step s (.resume 0) = .ok (sherryExit s 0) ∧
      ∀ {t}, sherryExit s 0 = t → c.iteration = .ok { c with state := t } := by
  have first : c.state.waits.seq .readyq = 0 :: p.later.map Entry.number := by
    rw [tracks.readyq, now]
    rfl
  obtain ⟨happened, entered⟩ := tracks.dispatches (q := p) first (by simp [now])
    (fun _ member => member) rfl rfl rfl rfl
  have frame : ((dispatch c.state 0 (p.later.map Entry.number)).actor 0).frame = .exit := by
    have before := tracks.keeper (by simp)
    simpa [dispatch] using before
  have exits : step (dispatch c.state 0 (p.later.map Entry.number)) (.resume 0) =
      .ok (sherryExit (dispatch c.state 0 (p.later.map Entry.number)) 0) :=
    resume_step.mpr ⟨entered.live, 0, entered.executing, by rw [resume_ok, frame]⟩
  refine ⟨_, happened, entered, exits, ?_⟩
  intro t after
  rw [session_turn happened entered.executing, takeTurn, frame]
  show (step (dispatch c.state 0 _) (.resume 0) >>= _) = _
  rw [exits, after]
  rfl

/-- An iteration is a turn of the pool. -/
theorem Tracks.turn (tracks : Tracks c none p) (turned : p.turn = some q) :
    ∃ d, c.iteration = .ok d ∧ Tracks d none q := by
  cases Pool.turn_cases turned with
  | inl job =>
    obtain ⟨e, es, now, rfl⟩ := job
    exact tracks.iterates now
  | inr round =>
    obtain ⟨now, later, rfl⟩ := round
    obtain ⟨s, _, entered, exits, iterates⟩ := tracks.returns_to_main now
    exact ⟨_, iterates rfl, entered.lingers now later exits⟩

/-- The iterations of a session are the turns of its pool. -/
theorem Tracks.run (tracks : Tracks c none p) (reaches : Pool.Reaches p q) :
    ∃ n d, Session.iterate n c = .ok d ∧ Tracks d none q := by
  induction reaches using Relation.ReflTransGen.head_induction_on generalizing c with
  | refl => exact ⟨0, c, rfl, tracks⟩
  | head turned _ ih =>
    obtain ⟨m, iterated, next⟩ := tracks.turn turned
    obtain ⟨n, d, later, last⟩ := ih next
    refine ⟨n + 1, d, ?_, last⟩
    rw [Session.iterate, iterated]
    exact later

/-- After `sherry_init` main executes, and no job was made. -/
theorem tracks_sherryInit :
    Tracks ({ state := sherryInit, code := fun _ => .ret, log := [] } : Session Seqs ρ) (some 0)
      (Pool.empty 1) := by
  constructor
  · exact ⟨[], rfl⟩
  · rw [sherryInit_eq]
  · rw [sherryInit_eq]
  · rw [sherryInit_eq]
  · rw [sherryInit_eq]
    rfl
  · intro a registered idle
    have below := inv_sherryInit.registry.allocated registered
    rw [sherryInit_eq] at below
    have main : a = 0 := Nat.lt_one_iff.mp below
    exact absurd (congrArg some main.symm) idle
  · rw [sherryInit_eq]
    rfl
  · exact fun away => absurd rfl away
  · exact fun e member => absurd member List.not_mem_nil
  · constructor
    · rw [sherryInit_eq]
      rfl
    · rw [sherryInit_eq]
      rfl
    · exact fun x member => absurd member List.not_mem_nil
    · rfl
    · exact fun x member => absurd member List.not_mem_nil
    · rw [sherryInit_eq]
      rfl
    · rw [sherryInit_eq]
      rfl

/-- Every `sherry_spawn` of main makes a job. -/
theorem Tracks.spawnAll (tracks : Tracks c (some 0) p) (frame : (c.state.actor 0).frame = .user)
    (roots : List (Behaviour ρ)) :
    ∃ t, spawnAll roots c.state = .ok t ∧ (t.actor 0).frame = .user ∧
      Tracks { c with state := t } (some 0) (roots.foldl Pool.make p) := by
  induction roots generalizing c p with
  | nil => exact ⟨c.state, rfl, frame, tracks⟩
  | cons root roots ih =>
    obtain ⟨happened, spawned⟩ := tracks.spawned frame root
    have goes : ((sherrySpawn c.state root).actor 0).frame = .user := by
      have other : (0 : ActorRef) ≠ c.state.nactors := Nat.ne_of_lt tracks.allocated
      rw [sherrySpawn_eq]
      simp only [Function.update_of_ne other]
      exact frame
    obtain ⟨t, later, last⟩ := ih spawned goes
    refine ⟨t, ?_, last⟩
    rw [Sherry.spawnAll, happened]
    exact later

/-- One more iteration. -/
theorem iterate_succ {d f : Session Seqs ρ} {n : Nat} (ran : Session.iterate n c = .ok d)
    (last : d.iteration = .ok f) : Session.iterate (n + 1) c = .ok f := by
  induction n generalizing c with
  | zero =>
    cases ran
    rw [Session.iterate, last]
    rfl
  | succ n ih =>
    rw [Session.iterate] at ran ⊢
    cases first : c.iteration with
    | error fault =>
      rw [first] at ran
      cases ran
    | ok m =>
      rw [first] at ran
      exact ih ran

/-- How the program ends. -/
structure Ended (c : Session Seqs ρ) (q : Pool (Act ρ)) : Prop where
  /-- `sherry_exit` returned. -/
  exited : c.state.exited = true
  /-- It left its loop in a state of the run in which main was alone. -/
  alone : ∃ es s, Machine.run step sherryInit es = .ok s ∧ Alone s ∧ c.state = sherryExit s 0
  /-- The pool keeps the books. -/
  recorded : Recorded c q

/-- Main alone in `sherry_exit` ends the program. -/
theorem Tracks.ended (tracks : Tracks c (some 0) p) (finished : p.turn = none) :
    Ended { c with state := sherryExit c.state 0 } p := by
  obtain ⟨now, later⟩ := Pool.turn_none_iff.mp finished
  obtain ⟨alone, exited, recorded⟩ := tracks.leaves now later
  obtain ⟨es, ran⟩ := tracks.ran
  exact ⟨exited, ⟨es, c.state, ran, alone, rfl⟩, recorded⟩

/-- The program ends as the pool of its jobs finishes. -/
theorem play_ended {roots : List (Behaviour ρ)} (reaches : Pool.Reaches (Pool.initial 1 roots) q)
    (finished : q.turn = none) :
    ∃ n, ∃ c : Session Seqs ρ, play roots n = .ok c ∧ Ended c q := by
  have init : ((sherryInit : State Seqs (Behaviour ρ)).actor 0).frame = .user := by
    rw [sherryInit_eq]
    rfl
  obtain ⟨t, spawned, frame, tracks⟩ := tracks_sherryInit.spawnAll init roots
  have now : (Pool.initial 1 roots).now = [] := (Pool.makes_rest (Pool.empty 1) roots).1
  have exits : step t .exit = .ok (sherryExit t 0) := by
    refine call_ok.mpr ⟨0, inUser_iff.mpr ⟨tracks.live, tracks.executing, frame⟩, ?_⟩
    exact if_pos tracks.main.symm
  have played : ∀ n, (play roots n : Except Fault (Session Seqs ρ)) =
      Session.iterate n { state := sherryExit t 0, code := fun _ => .ret, log := [] } := by
    intro n
    show (spawnAll roots sherryInit >>= _) = _
    rw [spawned]
    show (step t .exit >>= _) = _
    rw [exits]
    rfl
  cases reaches.cases_head with
  | inl same =>
    subst same
    exact ⟨0, _, played 0, tracks.ended finished⟩
  | inr further =>
    obtain ⟨m, turned, rest⟩ := further
    have round : Tracks { state := sherryExit t 0, code := fun _ => .ret, log := [] } none m := by
      cases Pool.turn_cases turned with
      | inl job =>
        obtain ⟨e, es, some, _⟩ := job
        rw [now] at some
        cases some
      | inr round =>
        obtain ⟨_, later, rfl⟩ := round
        exact tracks.lingers now later exits
    obtain ⟨n, d, iterated, last⟩ := round.run rest
    obtain ⟨s, _, entered, _, ends⟩ := last.returns_to_main (Pool.turn_none_iff.mp finished).1
    refine ⟨n + 1, _, ?_, entered.ended finished⟩
    rw [played]
    exact iterate_succ iterated (ends rfl)

/-- What one actor did, in order. -/
def did (c : Session Seqs ρ) (a : ActorRef) : List (Op (Act ρ)) :=
  (c.log.filter (·.1 = a)).map Prod.snd

/-- The functions that the actors other than main were spawned with. -/
def functions (s : State Seqs (Behaviour ρ)) : List (Option (Behaviour ρ)) :=
  (List.range' 1 (s.nactors - 1)).map fun a => (s.actor a).fn

/-- The books list the functions of the actors. -/
theorem Recorded.functions (recorded : Recorded c p) :
    functions c.state = (p.made.map Prod.snd).map some := by
  rw [Sherry.functions, ← recorded.numbers, List.map_map, List.map_map]
  exact List.map_congr_left fun x member => recorded.made x member

/-- Main spawns finite trees of actors that yield, spawn and send to main, and calls
`sherry_exit`: the program ends; the actors are the nodes of the trees, one for each; every
actor starts once, executes its program in order and returns once; `sherry_exit` leaves its loop
where main is alone; and every message that was sent lies in main's mailbox. -/
theorem play_completes (roots : List (Behaviour ρ)) :
    ∃ n, ∃ c : Session Seqs ρ, play roots n = .ok c ∧ c.state.exited = true ∧
      (∃ es s, Machine.run step sherryInit es = .ok s ∧ Alone s ∧ c.state = sherryExit s 0) ∧
      (functions c.state).Perm ((roots.flatMap Job.nodes).map some) ∧
      (∀ a, 0 < a → a < c.state.nactors →
        ∃ j, (c.state.actor a).fn = some j ∧ did c a = .start :: j.ops) ∧
      mailbox c.state 0 = c.log.filterMap (sentBy c.state) := by
  obtain ⟨q, reaches, finished⟩ := (Pool.initial 1 roots).finishes
  obtain ⟨n, c, played, ended⟩ := play_ended reaches finished
  obtain ⟨made, program⟩ := Pool.finished_accounted reaches finished
  have recorded := ended.recorded
  refine ⟨n, c, played, ended.exited, ended.alone, ?_, ?_, ?_⟩
  · rw [recorded.functions]
    exact made.map some
  · intro a positive below
    have number : a ∈ q.made.map Prod.fst := by
      rw [recorded.numbers, List.mem_range'_1]
      exact ⟨positive, Nat.lt_of_lt_of_le below (by omega)⟩
    obtain ⟨x, member, rfl⟩ := List.mem_map.mp number
    refine ⟨x.2, recorded.made x member, ?_⟩
    rw [did, recorded.log]
    exact program x member
  · rw [recorded.mail, recorded.log]

/-- The function that records an event and yields, so many times. -/
def testf (round : Nat) : Behaviour Nat := Job.loop Act.record 1 round

/-- The recorded events, each with the actor that recorded it. -/
def events (c : Session Seqs Nat) : List (Nat × ActorRef) :=
  c.log.filterMap fun
    | (a, .act (.record round)) => some (round, a)
    | _ => none

/-- An action that is the record of an event. -/
def recordOf : ActorRef × Act Nat → Option (Nat × ActorRef)
  | (a, .record round) => some (round, a)
  | _ => none

/-- Main spawns loops that record an event and yield, and calls `sherry_exit`: in every round
the loops that have rounds left record an event, in the order in which they were spawned, and
main yields once more than the longest of them. -/
theorem play_rounds {ks : List Nat} (nonempty : ks ≠ []) :
    ∃ n, ∃ c : Session Seqs Nat, play (ks.map testf) n = .ok c ∧ c.state.exited = true ∧
      (∀ x ∈ ks.zipIdx 1, (c.state.actor x.2).fn = some (testf x.1)) ∧
      events c = (List.range' 1 (ks.foldr max 0)).flatMap (fun r =>
        ((ks.zipIdx 1).filter (r ≤ ·.1)).map fun x => (r, x.2)) ∧
      mainYields c.state = ks.foldr max 0 + 1 := by
  obtain ⟨q, reaches, finished, rounds, actions⟩ := Pool.loops_finish Act.record 1 nonempty
  obtain ⟨n, c, played, ended⟩ := play_ended reaches finished
  have recorded := ended.recorded
  refine ⟨n, c, played, ended.exited, ?_, ?_, ?_⟩
  · intro x member
    have made := (Pool.makes_rest (Pool.empty 1) (ks.map testf)).2.2.2.1
    have first : (x.2, testf x.1) ∈ (Pool.initial 1 (ks.map testf)).made := by
      rw [Pool.initial, made, List.zipIdx_map, List.map_map]
      exact List.mem_map.mpr ⟨x, member, rfl⟩
    exact recorded.made _ ((Pool.reaches_made reaches).subset first)
  · have same : events c = q.actions.filterMap recordOf := by
      rw [events, recorded.log, Pool.actions, List.filterMap_filterMap]
      apply List.filterMap_congr
      intro x _
      obtain ⟨a, op⟩ := x
      cases op with
      | act act => cases act <;> rfl
      | start | yield | spawn child | ret => rfl
    rw [same, actions, List.filterMap_flatMap]
    apply List.flatMap_congr
    intro r _
    rw [Pool.acting, List.filterMap_map]
    exact congrFun (List.filterMap_eq_map (f := fun x : Nat × Nat => (r, x.2))) _
  · rw [recorded.rounds, rounds]

/-- Three loops, one of which never records an event. -/
theorem play_rounds_three :
    ∃ n, ∃ c : Session Seqs Nat, play ([1, 0, 2].map testf) n = .ok c ∧ c.state.exited = true ∧
      events c = [(1, 1), (1, 3), (2, 3)] ∧ mainYields c.state = 3 := by
  obtain ⟨n, c, played, exited, _, recorded, yields⟩ :=
    play_rounds (show [1, 0, 2] ≠ [] by decide)
  exact ⟨n, c, played, exited, recorded.trans (by decide), yields.trans (by decide)⟩

end Sherry
