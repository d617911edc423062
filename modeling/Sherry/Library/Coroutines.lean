import Mathlib.Logic.Function.Basic
import Sherry.Library.Machine

/-!
# One-shot coroutines

A family of coroutines of which one runs. A switch saves what the running coroutine needs to go
on and takes back what another one saved; what is taken back is gone, so it is used at most
once. A coroutine is created once, entered once, and after it has finished its last switch
saves nothing. The machine below refuses every other switch, so a history that it accepts is
one in which no saved state is used twice, lost to another coroutine, or used after the end.
-/

/-- How far a coroutine is. -/
inductive Coroutine (κ : Type)
  /-- It was not created. -/
  | unborn
  /-- It was created and not entered. -/
  | created (k : κ)
  /-- It gave up the processor and can go on. -/
  | suspended (k : κ)
  /-- It runs. -/
  | running
  /-- It runs and has finished. -/
  | finishing
  /-- It has finished and given up the processor. -/
  | finished
  deriving DecidableEq, Repr

namespace Coroutine

variable {κ : Type}

/-- What a switch to the coroutine loads. -/
def saved : Coroutine κ → Option κ
  | created k | suspended k => some k
  | _ => none

/-- The coroutine after a switch away from it. -/
def save (k : κ) : Coroutine κ → Coroutine κ
  | running => suspended k
  | _ => finished

/-- The coroutine was created and not entered, or not even created. -/
def isNew : Coroutine κ → Bool
  | unborn | created _ => true
  | _ => false

/-- The coroutine is over. -/
def isOver : Coroutine κ → Bool
  | finishing | finished => true
  | _ => false

/-- A switch makes nothing new. -/
theorem isNew_save {k : κ} {state : Coroutine κ} : (state.save k).isNew = false := by
  cases state <;> rfl

/-- What is switched to is not over. -/
theorem isOver_saved {k : κ} {state : Coroutine κ} (saved : state.saved = some k) :
    state.isOver = false := by
  cases state <;> first | rfl | cases saved

end Coroutine

/-- One entry of the history of a family of coroutines. -/
inductive Switch (ι κ : Type)
  /-- A coroutine is created. -/
  | create (i : ι) (k : κ)
  /-- The running coroutine finishes. -/
  | finish (i : ι)
  /-- The running coroutine `i` stores what it needs, and `j` goes on from what is loaded. -/
  | switch (i j : ι) (stored loaded : κ)

/-- The coroutines, and the one that runs. -/
structure Coroutines (ι κ : Type) where
  /-- The coroutine that runs. -/
  current : ι
  /-- How far each coroutine is. -/
  state : ι → Coroutine κ

namespace Coroutines

variable {ι κ : Type} {c d : Coroutines ι κ} {i : ι} {e : Switch ι κ} {es : List (Switch ι κ)}

/-- The coroutine that an entry enters for the first time. -/
def entered (c : Coroutines ι κ) : Switch ι κ → List ι
  | .switch _ j _ _ => if (c.state j).isNew then [j] else []
  | _ => []

/-- The coroutine that an entry switches to. -/
def resumed : Switch ι κ → Option ι
  | .switch _ j _ _ => some j
  | _ => none

/-- A coroutine that an entry enters is new before it. -/
theorem entered_new (member : i ∈ entered c e) : (c.state i).isNew = true := by
  cases e with
  | switch j k stored loaded =>
    simp only [entered] at member
    split at member
    · rename_i new
      rwa [List.mem_singleton.mp member]
    · cases member
  | _ => cases member

/-- An entry enters at most one coroutine. -/
theorem entered_once [DecidableEq ι] : (entered c e).count i ≤ 1 := by
  cases e with
  | switch j k stored loaded =>
    simp only [entered]
    split
    · exact List.count_le_length
    · exact Nat.zero_le _
  | _ => exact Nat.zero_le _

variable [DecidableEq ι] [DecidableEq κ]

/-- One entry of a history, if the coroutines allow it. -/
def step (c : Coroutines ι κ) : Switch ι κ → Except Unit (Coroutines ι κ)
  | .create i k =>
    if c.state i = .unborn then .ok { c with state := Function.update c.state i (.created k) }
    else .error ()
  | .finish i =>
    if c.current = i ∧ c.state i = .running then
      .ok { c with state := Function.update c.state i .finishing }
    else .error ()
  | .switch i j stored loaded =>
    if c.current = i ∧ (c.state j).saved = some loaded then
      .ok
        { current := j
          state := Function.update (Function.update c.state i ((c.state i).save stored)) j
            .running }
    else .error ()

/-- What the coroutines allow, and what becomes of them. -/
theorem step_ok :
    step c e = .ok d ↔
      match e with
      | .create i k =>
        c.state i = .unborn ∧ d = { c with state := Function.update c.state i (.created k) }
      | .finish i =>
        (c.current = i ∧ c.state i = .running) ∧
          d = { c with state := Function.update c.state i .finishing }
      | .switch i j stored loaded =>
        (c.current = i ∧ (c.state j).saved = some loaded) ∧
          d =
            { current := j
              state := Function.update (Function.update c.state i ((c.state i).save stored)) j
                .running } := by
  cases e <;> simp only [step, Machine.ite_ok, Except.ok.injEq] <;>
    exact and_congr_right fun _ => eq_comm

/-- A coroutine becomes new only when it is created, and was new before. -/
theorem new_step (happened : step c e = .ok d) (new : (d.state i).isNew = true) :
    (c.state i).isNew = true ∧ i ∉ entered c e := by
  cases e with
  | create j k =>
    obtain ⟨unborn, rfl⟩ := step_ok.mp happened
    refine ⟨?_, List.not_mem_nil⟩
    by_cases same : i = j
    · rw [same, unborn]
      rfl
    · simpa [same] using new
  | finish j =>
    obtain ⟨_, rfl⟩ := step_ok.mp happened
    refine ⟨?_, List.not_mem_nil⟩
    by_cases same : i = j
    · simp [same, Coroutine.isNew] at new
    · simpa [same] using new
  | switch j k stored loaded =>
    obtain ⟨_, rfl⟩ := step_ok.mp happened
    by_cases target : i = k
    · simp [target, Coroutine.isNew] at new
    · by_cases source : i = j
      · simp [← source, target, Coroutine.isNew_save] at new
      · refine ⟨by simpa [target, source] using new, ?_⟩
        simp only [entered]
        split <;> simp [target]

/-- A coroutine that is not new is not entered any more. -/
theorem entered_never (ran : Machine.run step c es = .ok d) (old : (c.state i).isNew = false) :
    i ∉ Machine.collect step entered c es := by
  induction es generalizing c with
  | nil => exact List.not_mem_nil
  | cons e es ih =>
    obtain ⟨m, happened, rest⟩ := Machine.run_cons.mp ran
    have still : (m.state i).isNew = false := by
      rw [Bool.eq_false_iff]
      intro new
      rw [(new_step happened new).1] at old
      cases old
    have now : i ∉ entered c e := by
      intro member
      rw [entered_new member] at old
      cases old
    simp only [Machine.collect, happened, List.mem_append, not_or]
    exact ⟨now, ih rest still⟩

/-- In every history a coroutine is entered at most once. -/
theorem entered_run (ran : Machine.run step c es = .ok d) :
    (Machine.collect step entered c es).count i ≤ 1 := by
  induction es generalizing c with
  | nil => exact Nat.zero_le _
  | cons e es ih =>
    obtain ⟨m, happened, rest⟩ := Machine.run_cons.mp ran
    simp only [Machine.collect, happened, List.count_append]
    by_cases member : i ∈ entered c e
    · have old : (m.state i).isNew = false := by
        rw [Bool.eq_false_iff]
        exact fun new => (new_step happened new).2 member
      have never := entered_never rest old
      rw [List.count_eq_zero_of_not_mem never]
      exact entered_once
    · rw [List.count_eq_zero_of_not_mem member, Nat.zero_add]
      exact ih rest

/-- A coroutine that is over stays over and is not switched to. -/
theorem over_step (happened : step c e = .ok d) (done : (c.state i).isOver = true) :
    (d.state i).isOver = true ∧ resumed e ≠ some i := by
  cases e with
  | create j k =>
    obtain ⟨unborn, rfl⟩ := step_ok.mp happened
    have other : i ≠ j := by
      rintro rfl
      rw [unborn] at done
      cases done
    exact ⟨by simpa [other] using done, nofun⟩
  | finish j =>
    obtain ⟨_, rfl⟩ := step_ok.mp happened
    refine ⟨?_, nofun⟩
    by_cases same : i = j
    · simp [same, Coroutine.isOver]
    · simpa [same] using done
  | switch j k stored loaded =>
    obtain ⟨⟨_, saved⟩, rfl⟩ := step_ok.mp happened
    have target : i ≠ k := by
      rintro rfl
      rw [Coroutine.isOver_saved saved] at done
      cases done
    refine ⟨?_, fun same => target (Option.some.inj same).symm⟩
    by_cases source : i = j
    · subst source
      simp only [Function.update_of_ne target, Function.update_self]
      cases state : c.state i <;> simp_all [Coroutine.save, Coroutine.isOver]
    · simpa [target, source] using done

/-- No history switches to a coroutine that is over. -/
theorem over_run (ran : Machine.run step c es = .ok d) (done : (c.state i).isOver = true) :
    i ∉ es.filterMap resumed := by
  induction es generalizing c with
  | nil => exact List.not_mem_nil
  | cons e es ih =>
    obtain ⟨m, happened, rest⟩ := Machine.run_cons.mp ran
    obtain ⟨still, other⟩ := over_step happened done
    intro member
    rw [List.filterMap_cons] at member
    cases target : resumed e with
    | none =>
      rw [target] at member
      exact ih rest still member
    | some j =>
      rw [target] at member other
      rcases List.mem_cons.mp member with same | later
      · exact other (congrArg some same.symm)
      · exact ih rest still later

end Coroutines
