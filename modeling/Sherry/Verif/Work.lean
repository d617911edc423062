import Sherry.Library.RoundRobin
import Sherry.Verif.Programs
import Sherry.Verif.Descriptors
import Sherry.Verif.Identity

/-!
# The turns of actors that yield, read and write

What such an actor can do without a callback depends on what the descriptors offer. `budget` is
what they offer, and `spend` takes one call off it. A turn makes the calls up to the next yield
or to the end of the program if they can be paid, and blocks in the first that cannot.
-/

namespace Sherry

open RoundRobin

variable {φ : Type} {s m t : State Seqs φ} {self a : ActorRef} {e : Event φ} {fd : FdRef}
  {count : Nat} {err : Int} {p r : List (Event φ)} {c d : Config Seqs φ}
  {libuv : State Seqs φ → List (Event φ)}

/-- The calls that a program makes here: yields, reads and writes of live descriptors. -/
def Work (s : State Seqs φ) : Event φ → Prop
  | .yield => True
  | .read fd _ _ | .write fd _ _ => s.liveFd fd = true
  | _ => False

/-- The calls in which an actor with such a program is suspended. -/
def Frame.works : Frame → Prop
  | .entry | .user | .read _ _ | .write _ _ => True
  | _ => False

/-- A call that ends a turn. -/
def isYield : Event φ → Bool
  | .yield => true
  | _ => false

/-- A suspended `sherry_read` reads as if it were called again; any other call is over. -/
def pendingCall : Frame → List (Event φ)
  | .read fd count => [.read fd count 0]
  | _ => []

/-- The calls an actor still makes, with the one it is suspended in. -/
def remaining (c : Config Seqs φ) (a : ActorRef) : List (Event φ) :=
  pendingCall (c.state.actor a).frame ++ c.rest a

/-- The programs of the ready actors other than main, in their order. -/
def programs (c : Config Seqs φ) : List (List (Event φ)) :=
  ((c.state.waits.seq .readyq).filter (· ≠ c.state.main)).map (remaining c)

/-- What `sherry_read` can return of each descriptor without a callback: any number of errors,
or the number of unread bytes. -/
def budget (s : State Seqs φ) (fd : FdRef) : Option Nat :=
  if (s.fd fd).rerror = 0 then
    if (s.fd fd).rbuf.base.isSome then some ((s.fd fd).rbuf.len - (s.fd fd).roffset) else some 0
  else none

/-- What is left after a call, or nothing if the call blocks. -/
def spend (offered : FdRef → Option Nat) : Event φ → Option (FdRef → Option Nat)
  | .read fd count err =>
    if err ≠ 0 then some offered
    else if offered fd = some 0 then none
    else some (Function.update offered fd ((offered fd).map (· - count)))
  | .write _ _ _ => none
  | _ => some offered

/-- The part of a state that no call of such a program changes. -/
structure Setting where
  /-- `sche->main`. -/
  main : ActorRef
  /-- The number of descriptors made. -/
  nfds : Nat
  /-- What was freed. -/
  freed : List Ptr
  /-- `schdule` is in `uv_run`. -/
  polling : Bool
  /-- `sherry_exit` has returned. -/
  exited : Bool

/-- The setting of a state. -/
def State.setting (s : State Seqs φ) : Setting where
  main := s.main
  nfds := s.nfds
  freed := s.freed
  polling := s.polling
  exited := s.exited

/-- Between two states only the turn of one actor happened. -/
structure Apart (s t : State Seqs φ) (a : ActorRef) : Prop where
  /-- The setting is the same. -/
  setting : t.setting = s.setting
  /-- Other actors are unchanged. -/
  actor : ∀ b, b ≠ a → t.actor b = s.actor b
  /-- Other actors stay registered or not. -/
  registered : ∀ b, b ≠ a → (Registered t b ↔ Registered s b)

namespace Apart

/-- What two turns of one actor change, one after the other. -/
theorem trans (first : Apart s m self) (second : Apart m t self) : Apart s t self where
  setting := second.setting.trans first.setting
  actor b other := (second.actor b other).trans (first.actor b other)
  registered b other := (second.registered b other).trans (first.registered b other)

/-- Main is the same actor. -/
theorem main (apart : Apart s t self) : t.main = s.main := congrArg Setting.main apart.setting

/-- The same descriptors are live, so the same calls are work. -/
theorem work (apart : Apart s t self) (work : Work s e) : Work t e := by
  have nfds : t.nfds = s.nfds := congrArg Setting.nfds apart.setting
  have freed : t.freed = s.freed := congrArg Setting.freed apart.setting
  have live : ∀ fd, t.liveFd fd = s.liveFd fd := fun fd => by simp [State.liveFd, nfds, freed]
  cases e with
  | read fd count err => exact (live fd).trans work
  | write fd count ret => exact (live fd).trans work
  | _ => exact work

end Apart

/-- A call returned to the code of its caller. -/
structure Proceeds (s t : State Seqs φ) (a : ActorRef) : Prop where
  /-- The invariant holds. -/
  inv : Inv t
  /-- The caller executes its own code. -/
  user : t.inUser = some a
  /-- Nothing else changed. -/
  apart : Apart s t a
  /-- The lists are unchanged. -/
  waits : t.waits = s.waits

/-- How a turn ends, with the calls made in it and what they consume. -/
inductive TurnEnd (s t : State Seqs φ) (a : ActorRef) (p r : List (Event φ)) : Prop
  | yields (paid : (firstTurn isYield p).1.foldlM spend (budget s) = some (budget t))
      (rest : (firstTurn isYield p).2 = some r) (frame : (t.actor a).frame = .user)
      (status : (t.actor a).status = .ready)
      (readyq : t.waits.seq .readyq = s.waits.seq .readyq ++ [a])
  | returns (paid : (firstTurn isYield p).1.foldlM spend (budget s) = some (budget t))
      (rest : (firstTurn isYield p).2 = none) (gone : ¬Registered t a)
      (readyq : t.waits.seq .readyq = s.waits.seq .readyq)
  | blocks (unpaid : (firstTurn isYield p).1.foldlM spend (budget s) = none)
      (registered : Registered t a) (status : (t.actor a).status = .waitEv)

/-- A call suspended its caller. -/
structure Suspends (s t : State Seqs φ) (a : ActorRef) : Prop where
  /-- The invariant holds. -/
  inv : Inv t
  /-- `sherry_exit` has not returned. -/
  live : t.exited = false
  /-- The scheduler executes. -/
  owner : t.cpu.owner = some .scheduler
  /-- Nothing else changed. -/
  apart : Apart s t a

/-- A turn of an actor that has a program left, which leaves another. -/
structure Turned (s t : State Seqs φ) (a : ActorRef) (p r : List (Event φ)) : Prop where
  /-- The turn ended in a suspension. -/
  suspends : Suspends s t a
  /-- What is left is a later part of the program. -/
  suffix : r <:+ p
  /-- How the turn ended. -/
  ending : TurnEnd s t a p r

/-- A call that returned at once, and then one that suspended its caller. -/
theorem Suspends.after (suspends : Suspends m t self) (proceeds : Proceeds s m self) :
    Suspends s t self :=
  ⟨suspends.inv, suspends.live, suspends.owner, proceeds.apart.trans suspends.apart⟩

/-- A turn goes on after a call that returned at once. -/
theorem Turned.cons (proceeds : Proceeds s m self) (going : isYield e = false)
    (paid : spend (budget s) e = some (budget m)) (turned : Turned m t self p r) :
    Turned s t self (e :: p) r := by
  have first : firstTurn isYield (e :: p) =
      (e :: (firstTurn isYield p).1, (firstTurn isYield p).2) := by
    simp [firstTurn, going]
  have spent : (e :: (firstTurn isYield p).1).foldlM spend (budget s) =
      (firstTurn isYield p).1.foldlM spend (budget m) := by
    simp [List.foldlM_cons, paid]
  refine ⟨turned.suspends.after proceeds, turned.suffix.trans (List.suffix_cons e p), ?_⟩
  cases turned.ending with
  | yields paid rest frame status readyq =>
    exact .yields (by rw [first, spent, paid]) (by rw [first, rest]) frame status
      (by rw [readyq, proceeds.waits])
  | returns paid rest gone readyq =>
    exact .returns (by rw [first, spent, paid]) (by rw [first, rest]) gone
      (by rw [readyq, proceeds.waits])
  | blocks unpaid registered status =>
    exact .blocks (by rw [first, spent, unpaid]) registered status

/-- A resumed call that returned at once does not count. -/
theorem Turned.resumed (proceeds : Proceeds s m self) (same : budget m = budget s)
    (turned : Turned m t self p r) : Turned s t self p r := by
  refine ⟨turned.suspends.after proceeds, turned.suffix, ?_⟩
  cases turned.ending with
  | yields paid rest frame status readyq =>
    exact .yields (same ▸ paid) rest frame status (by rw [readyq, proceeds.waits])
  | returns paid rest gone readyq =>
    exact .returns (same ▸ paid) rest gone (by rw [readyq, proceeds.waits])
  | blocks unpaid registered status => exact .blocks (same ▸ unpaid) registered status

/-- A call that only moves its caller on in its own code. -/
theorem proceeds_of (inv : Inv s) (live : s.exited = false) (exec : s.executing = some self)
    (happened : step s e = .ok t)
    (actor : t.actor = Function.update s.actor self { s.actor self with frame := .user })
    (cpu : t.cpu = s.cpu) (waits : t.waits = s.waits) (actors : t.actors = s.actors)
    (setting : t.setting = s.setting) : Proceeds s t self := by
  have still : t.exited = false := (congrArg Setting.exited setting).trans live
  have user : t.inUser = some self := by
    refine inUser_iff.mpr ⟨still, ?_, by simp [actor]⟩
    rw [executing_iff, cpu, ← executing_iff, exec]
  have apart : Apart s t self :=
    ⟨setting, fun b other => by simp [actor, other], fun b _ => by simp [Registered, actors]⟩
  exact ⟨inv.step happened still, user, apart, waits⟩

/-- In its own code an actor has the frame of its own code. -/
theorem user_actor (frame : (s.actor self).frame = .user) :
    s.actor = Function.update s.actor self { s.actor self with frame := .user } := by
  rw [← frame, Function.update_eq_self]

/-- The loop of `sherry_read` runs where an actor calls `sherry_read` or is resumed in it. -/
theorem read_step {at_loop : State Seqs φ} (live : s.exited = false)
    (exec : s.executing = some self) (opened : s.liveFd fd = true)
    (enters : InRead s e self fd count at_loop) :
    step s e = .ok (readLoop at_loop self fd count) := by
  rcases enters with ⟨rfl, frame, rfl⟩ | ⟨err, rfl, frame, rfl⟩
  · exact fdCall_ok.mpr ⟨self, inUser_iff.mpr ⟨live, exec, frame⟩, opened, rfl⟩
  · refine resume_step.mpr ⟨live, self, exec, ?_⟩
    rw [resume_ok, frame]
    exact ⟨opened, rfl⟩

/-- What the descriptors offer depends on them alone. -/
theorem budget_congr (same : t.fd = s.fd) : budget t = budget s := by
  funext g
  simp only [budget, same]

/-- `uv_read_start` does not change what the descriptors offer. -/
theorem InRead.same_budget {at_loop : State Seqs φ}
    (enters : InRead s e self fd count at_loop) : budget at_loop = budget s := by
  funext g
  obtain ⟨rbuf, roffset, rerror⟩ := enters.same_fds g
  simp only [budget, rerror, rbuf, roffset]

/-- Copied bytes are taken off what the descriptor offers. -/
theorem budget_consume (sound : (s.fd fd).rerror = 0) (buffer : (s.fd fd).rbuf.base.isSome) :
    budget (consume s self fd count) =
      Function.update (budget s) fd ((budget s fd).map (· - count)) := by
  funext g
  by_cases same : g = fd
  · subst same
    simp [budget, consume, copied, sound, buffer]
    omega
  · simp [budget, consume, same]

/-- A descriptor without a recorded error offers the bytes its buffer still holds. -/
theorem budget_zero_iff : budget s fd = some 0 ↔ (s.fd fd).rerror = 0 ∧
    ¬((s.fd fd).rbuf.base.isSome ∧ (s.fd fd).roffset < (s.fd fd).rbuf.len) := by
  unfold budget
  by_cases sound : (s.fd fd).rerror = 0
  · by_cases buffer : (s.fd fd).rbuf.base.isSome
    · simp [sound, buffer]
      omega
    · simp [sound, buffer]
  · simp [sound]

/-- `sherry_read` returns at once if the descriptor offers anything. -/
theorem read_returns {at_loop : State Seqs φ} (inv : Inv s) (live : s.exited = false)
    (exec : s.executing = some self) (opened : s.liveFd fd = true)
    (enters : InRead s e self fd count at_loop) (offered : budget s fd ≠ some 0) :
    ∃ t, step s e = .ok t ∧ Proceeds s t self ∧
      budget t = Function.update (budget s) fd ((budget s fd).map (· - count)) := by
  have happened := read_step live exec opened enters
  rw [← enters.same_budget] at offered ⊢
  by_cases error : (at_loop.fd fd).rerror = 0
  · have more : (at_loop.fd fd).rbuf.base.isSome ∧
        (at_loop.fd fd).roffset < (at_loop.fd fd).rbuf.len := by
      by_contra nothing
      exact offered (budget_zero_iff.mpr ⟨error, nothing⟩)
    rw [readLoop_bytes error more.1 more.2] at happened
    refine ⟨_, happened, ?_, budget_consume error more.1⟩
    rcases enters with ⟨_, _, rfl⟩ | ⟨_, _, _, rfl⟩ <;>
      exact proceeds_of inv live exec happened rfl rfl rfl rfl rfl
  · rw [readLoop_error error] at happened
    refine ⟨_, happened, ?_, ?_⟩
    · rcases enters with ⟨_, _, rfl⟩ | ⟨_, _, _, rfl⟩ <;>
        exact proceeds_of inv live exec happened rfl rfl rfl rfl rfl
    · have unlimited : budget at_loop fd = none := by simp [budget, error]
      rw [unlimited, Option.map_none, ← unlimited, Function.update_eq_self]
      exact budget_congr rfl

/-- A call that parks its caller. -/
theorem suspends_of {base : State Seqs φ} {status : Status} {list : Option WaitRef}
    {frame : Frame} (inv : Inv s) (live : s.exited = false) (exec : s.executing = some self)
    (happened : step s e = .ok (park base self status list frame))
    (registered : ∀ b, b ≠ self → (Registered base b ↔ Registered s b))
    (actor : base.actor = s.actor) (ctx : base.ctx = s.ctx)
    (setting : base.setting = s.setting) :
    Suspends s (park base self status list frame) self := by
  have still : base.exited = false := (congrArg Setting.exited setting).trans live
  have scheduler : base.ctx.owner = some .scheduler := by
    rw [ctx]
    exact (inv.placed.current self exec).2
  have apart : Apart s (park base self status list frame) self :=
    ⟨setting, fun b other => by simp [park, actor, other], registered⟩
  exact ⟨inv.step happened still, still, scheduler, apart⟩

/-- A suspended caller is not in its own code. -/
theorem Suspends.off (suspends : Suspends s t self) : t.inUser ≠ some self := by
  intro user
  have exec := (inUser_iff.mp user).2.1
  rw [executing_none suspends.owner] at exec
  cases exec

/-- `sherry_read` blocks if the descriptor offers nothing. -/
theorem read_blocks {at_loop : State Seqs φ} (inv : Inv s) (live : s.exited = false)
    (exec : s.executing = some self) (opened : s.liveFd fd = true)
    (enters : InRead s e self fd count at_loop) (nothing : budget s fd = some 0) :
    ∃ t, step s e = .ok t ∧ Suspends s t self ∧ Registered t self ∧
      (t.actor self).status = .waitEv := by
  have happened := read_step live exec opened enters
  have registered := (inv.placed.executing exec).1
  rw [← enters.same_budget] at nothing
  obtain ⟨sound, empty⟩ := budget_zero_iff.mp nothing
  have running : at_loop.running = self :=
    enters.same_setting.2.1.trans (inv.placed.current self exec).1
  rw [readLoop_empty sound empty, blockFd_eq running] at happened
  refine ⟨_, happened, ?_, ?_, by simp [park]⟩
  · rcases enters with ⟨_, _, rfl⟩ | ⟨_, _, _, rfl⟩ <;>
      exact suspends_of inv live exec happened (fun _ _ => Iff.rfl) rfl rfl rfl
  · rcases enters with ⟨_, _, rfl⟩ | ⟨_, _, _, rfl⟩ <;> exact registered

/-- `sherry_write` always blocks. -/
theorem write_blocks {ret : Int} (inv : Inv s) (user : s.inUser = some self)
    (opened : s.liveFd fd = true) :
    ∃ t, step s (.write fd count ret) = .ok t ∧ Suspends s t self ∧ Registered t self ∧
      (t.actor self).status = .waitEv := by
  obtain ⟨live, exec, _⟩ := inUser_iff.mp user
  have happened : step s (.write fd count ret) = .ok (sherryWrite s self fd count ret) :=
    fdCall_ok.mpr ⟨self, user, opened, rfl⟩
  rw [sherryWrite_eq (inv.placed.current self exec).1] at happened
  refine ⟨_, happened, ?_, (inv.placed.executing exec).1, by simp [park]⟩
  exact suspends_of inv live exec happened (fun _ _ => Iff.rfl) rfl rfl rfl

/-- `sherry_yield` ends a turn with its caller at the tail of `readyq`. -/
theorem yield_turned (inv : Inv s) (user : s.inUser = some self) :
    ∃ t, step s .yield = .ok t ∧ Turned s t self (.yield :: p) p := by
  obtain ⟨live, exec, _⟩ := inUser_iff.mp user
  have happened : step s .yield = .ok (sherryYield s self .user) :=
    call_ok.mpr ⟨self, user, rfl⟩
  rw [sherryYield_eq (inv.placed.current self exec).1 (inv.placed.executing exec).2.1] at happened
  refine ⟨_, happened, ?_, List.suffix_cons _ p, ?_⟩
  · exact suspends_of inv live exec happened (fun _ _ => Iff.rfl) rfl rfl rfl
  · refine .yields ?_ (by simp [firstTurn, isYield]) (by simp [park]) (by simp [park])
      (by simp [park, enlist])
    simp only [firstTurn, isYield, ↓reduceIte, List.foldlM_cons, List.foldlM_nil, spend]
    exact congrArg some (budget_congr rfl).symm

/-- The return of its function ends the last turn of an actor. -/
theorem ret_turned (inv : Inv s) (user : s.inUser = some self) (other : self ≠ s.main) :
    ∃ t, step s .ret = .ok t ∧ Turned s t self [] [] := by
  obtain ⟨live, exec, _⟩ := inUser_iff.mp user
  have registered := (inv.placed.executing exec).1
  obtain ⟨i, found, _⟩ := inv.registry.at_id registered
  have happened : step s .ret = .ok (sherryMainReturn s self) :=
    call_ok.mpr ⟨self, user, if_neg other⟩
  rw [sherryMainReturn_eq inv exec found] at happened
  refine ⟨_, happened, ?_, List.suffix_refl _, ?_⟩
  · refine suspends_of inv live exec happened (fun b apart => ?_) rfl rfl rfl
    exact (inv.registry.registered_left found rfl).trans (and_iff_left apart)
  · refine .returns ?_ rfl (fun still => ?_) (by simp [park, enlist])
    · exact congrArg some (budget_congr rfl).symm
    · exact ((inv.registry.registered_left found (by rfl)).mp still).2 rfl

/-- The calls of a turn, from the actor's own code. -/
theorem runCalls_turned (inv : Inv s) (user : s.inUser = some self) (other : self ≠ s.main)
    (work : ∀ e ∈ p, Work s e) :
    ∃ t r, runCalls self p s = .ok (t, r) ∧ Turned s t self p r := by
  induction p generalizing s with
  | nil =>
    obtain ⟨t, happened, turned⟩ := ret_turned inv user other
    exact ⟨t, [], by simp [runCalls, happened], turned⟩
  | cons e p ih =>
    obtain ⟨live, exec, frame⟩ := inUser_iff.mp user
    have going : ∀ {m}, step s e = .ok m → Proceeds s m self → isYield e = false →
        spend (budget s) e = some (budget m) →
        ∃ t r, runCalls self (e :: p) s = .ok (t, r) ∧ Turned s t self (e :: p) r := by
      intro m happened proceeds stays paid
      have later : ∀ f ∈ p, Work m f := fun f member =>
        proceeds.apart.work (work f (List.mem_cons_of_mem e member))
      obtain ⟨t, r, ran, turned⟩ :=
        ih proceeds.inv proceeds.user (by rw [proceeds.apart.main]; exact other) later
      exact ⟨t, r, by simp [runCalls, happened, proceeds.user, ran],
        turned.cons proceeds stays paid⟩
    have stuck : ∀ {t}, step s e = .ok t → Suspends s t self → Registered t self →
        (t.actor self).status = .waitEv → isYield e = false → spend (budget s) e = none →
        ∃ t r, runCalls self (e :: p) s = .ok (t, r) ∧ Turned s t self (e :: p) r := by
      intro t happened suspends registered status stays unpaid
      refine ⟨t, p, by simp [runCalls, happened, suspends.off], suspends, List.suffix_cons e p,
        .blocks ?_ registered status⟩
      simp [firstTurn, stays, List.foldlM_cons, unpaid]
    have own := work e List.mem_cons_self
    cases e with
    | yield =>
      obtain ⟨t, happened, turned⟩ := yield_turned (p := p) inv user
      exact ⟨t, p, by simp [runCalls, happened, turned.suspends.off], turned⟩
    | read fd count err =>
      by_cases failed : err = 0
      · subst failed
        have enters : InRead s (.read fd count 0) self fd count (started s fd) :=
          .inl ⟨rfl, frame, rfl⟩
        by_cases nothing : budget s fd = some 0
        · obtain ⟨t, happened, suspends, registered, status⟩ :=
            read_blocks inv live exec own enters nothing
          exact stuck happened suspends registered status rfl (by simp [spend, nothing])
        · obtain ⟨m, happened, proceeds, paid⟩ := read_returns inv live exec own enters nothing
          exact going happened proceeds rfl (by simp [spend, nothing, paid])
      · have happened : step s (.read fd count err) = .ok (s.emit (.read self fd err [])) :=
          fdCall_ok.mpr ⟨self, user, own, by simp [sherryRead, failed]⟩
        have proceeds : Proceeds s (s.emit (.read self fd err [])) self :=
          proceeds_of inv live exec happened (user_actor frame) rfl rfl rfl rfl
        have same : budget (s.emit (.read self fd err [])) = budget s := budget_congr rfl
        exact going happened proceeds rfl (by simp [spend, failed, same])
    | write fd count ret =>
      obtain ⟨t, happened, suspends, registered, status⟩ := write_blocks inv user own
      exact stuck happened suspends registered status rfl rfl
    | _ => exact own.elim

/-- A turn of an actor that was suspended in one of its calls. -/
theorem turn_turned (inv : Inv s) (live : s.exited = false) (exec : s.executing = some self)
    (other : self ≠ s.main) (works : (s.actor self).frame.works)
    (work : ∀ e ∈ pendingCall (s.actor self).frame ++ p, Work s e) :
    ∃ t r, turn s self p = .ok (t, r) ∧
      Turned s t self (pendingCall (s.actor self).frame ++ p) r := by
  -- The calls after one that returned at once.
  have going : ∀ {m}, Proceeds s m self → (∀ e ∈ p, Work s e) →
      ∃ t r, runCalls self p m = .ok (t, r) ∧ Turned m t self p r := by
    intro m proceeds own
    have apart := proceeds.apart
    exact runCalls_turned proceeds.inv proceeds.user (by rw [apart.main]; exact other)
      fun f member => apart.work (own f member)
  cases frame : (s.actor self).frame with
  | user =>
    have own : ∀ e ∈ p, Work s e := by
      rw [frame] at work
      exact work
    obtain ⟨t, r, ran, turned⟩ :=
      runCalls_turned inv (inUser_iff.mpr ⟨live, exec, frame⟩) other own
    exact ⟨t, r, by simp [turn, frame, ran], turned⟩
  | entry =>
    rw [frame] at work
    have happened : step s (.resume 0) = .ok (s.setFrame self .user) :=
      resume_step.mpr ⟨live, self, exec, by rw [resume_ok, frame]⟩
    have proceeds : Proceeds s (s.setFrame self .user) self :=
      proceeds_of inv live exec happened rfl rfl rfl rfl rfl
    obtain ⟨t, r, ran, turned⟩ := going proceeds work
    exact ⟨t, r, by simp [turn, frame, happened, proceeds.user, ran],
      turned.resumed proceeds (budget_congr rfl)⟩
  | write fd count =>
    rw [frame] at work
    have happened : step s (.resume 0) = .ok (writeTail s self fd count) :=
      resume_step.mpr ⟨live, self, exec, by rw [resume_ok, frame]⟩
    have proceeds : Proceeds s (writeTail s self fd count) self :=
      proceeds_of inv live exec happened rfl rfl rfl rfl rfl
    obtain ⟨t, r, ran, turned⟩ := going proceeds work
    exact ⟨t, r, by simp [turn, frame, happened, proceeds.user, ran],
      turned.resumed proceeds (budget_congr rfl)⟩
  | read fd count =>
    rw [frame] at work
    have opened : s.liveFd fd = true := work (.read fd count 0) List.mem_cons_self
    have enters : InRead s (.resume 0) self fd count s := .inr ⟨0, rfl, frame, rfl⟩
    by_cases nothing : budget s fd = some 0
    · obtain ⟨t, happened, suspends, registered, status⟩ :=
        read_blocks inv live exec opened enters nothing
      refine ⟨t, p, by simp [turn, frame, happened, suspends.off], suspends,
        List.suffix_cons _ p, .blocks ?_ registered status⟩
      simp [pendingCall, firstTurn, isYield, List.foldlM_cons, spend, nothing]
    · obtain ⟨m, happened, proceeds, paid⟩ := read_returns inv live exec opened enters nothing
      obtain ⟨t, r, ran, turned⟩ :=
        going proceeds fun e member => work e (List.mem_cons_of_mem _ member)
      refine ⟨t, r, by simp [turn, frame, happened, proceeds.user, ran], ?_⟩
      exact turned.cons proceeds rfl (by simp [spend, nothing, paid])
  | _ =>
    rw [frame] at works
    exact works.elim

end Sherry
