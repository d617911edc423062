import Mathlib.Data.List.Basic

/-!
# Executable machines and their runs

A machine is a step function that takes a state and an event to the next state or to a
fault. A run folds the step over a list of events and stops at the first fault. The two
induction rules below carry every invariant of a run: one for a property that every step
keeps, and one for a property that only the steps meeting a condition keep.
-/

namespace Machine

variable {σ ε δ : Type} {step : σ → ε → Except δ σ}

/-- Fold the step over the events; the first fault ends the run. -/
def run (step : σ → ε → Except δ σ) : σ → List ε → Except δ σ
  | s, [] => .ok s
  | s, e :: es =>
    match step s e with
    | .ok t => run step t es
    | .error fault => .error fault

/-- Every step that the run takes meets the condition, in the state before the step. -/
def Along (step : σ → ε → Except δ σ) (condition : σ → ε → Prop) : σ → List ε → Prop
  | _, [] => True
  | s, e :: es =>
    condition s e ∧
      match step s e with
      | .ok t => Along step condition t es
      | .error _ => True

instance decidableAlong (condition : σ → ε → Prop) [∀ s e, Decidable (condition s e)] :
    ∀ (s : σ) (es : List ε), Decidable (Along step condition s es)
  | _, [] => inferInstanceAs (Decidable True)
  | s, e :: es =>
    have : Decidable (match step s e with
        | .ok t => Along step condition t es
        | .error _ => True) :=
      match step s e with
      | .ok t => decidableAlong condition t es
      | .error _ => inferInstanceAs (Decidable True)
    inferInstanceAs (Decidable (condition s e ∧ _))

/-- A conditional that succeeds took the branch that can. -/
theorem ite_ok {allowed : Prop} [Decidable allowed] {body : Except δ σ} {fault : δ} {t : σ} :
    (if allowed then body else .error fault) = .ok t ↔ allowed ∧ body = .ok t := by
  split <;> rename_i holds <;> simp [holds]

/-- A run of a first event and further events takes that step and runs on. -/
theorem run_cons {s t : σ} {e : ε} {es : List ε} :
    run step s (e :: es) = .ok t ↔ ∃ m, step s e = .ok m ∧ run step m es = .ok t := by
  cases taken : step s e with
  | ok m => simp [run, taken]
  | error fault => simp [run, taken]

/-- A run of two lists of events passes through the state after the first. -/
theorem run_append {s t : σ} {es fs : List ε} :
    run step s (es ++ fs) = .ok t ↔ ∃ m, run step s es = .ok m ∧ run step m fs = .ok t := by
  induction es generalizing s with
  | nil => simp [run]
  | cons e es ih =>
    simp only [List.cons_append, run_cons, ih]
    constructor
    · rintro ⟨m, first, n, rest, last⟩
      exact ⟨n, ⟨m, first, rest⟩, last⟩
    · rintro ⟨n, ⟨m, first, rest⟩, last⟩
      exact ⟨m, first, n, rest, last⟩

/-- A run extended by one step. -/
theorem run_snoc {s m t : σ} {es : List ε} {e : ε} (ran : run step s es = .ok m)
    (taken : step m e = .ok t) : run step s (es ++ [e]) = .ok t :=
  run_append.mpr ⟨m, ran, run_cons.mpr ⟨t, taken, rfl⟩⟩

/-- A machine whose steps are steps of another, seen through two projections, has only runs that
are runs of the other. -/
theorem run_project {σ' ε' : Type} {step' : σ' → ε' → Except δ σ'} {state : σ' → σ}
    {event : ε' → ε}
    (commutes : ∀ {x y z}, step' x y = .ok z → step (state x) (event y) = .ok (state z))
    {x z : σ'} {ys : List ε'} (ran : run step' x ys = .ok z) :
    run step (state x) (ys.map event) = .ok (state z) := by
  induction ys generalizing x with
  | nil =>
    cases ran
    rfl
  | cons y ys ih =>
    obtain ⟨m, taken, rest⟩ := run_cons.mp ran
    exact run_cons.mpr ⟨state m, commutes taken, ih rest⟩

/-- A property that every step keeps holds at the end of every run it starts. -/
theorem run_keeps {invariant : σ → Prop}
    (kept : ∀ {s e t}, invariant s → step s e = .ok t → invariant t) {s t : σ} {es : List ε}
    (start : invariant s) (ran : run step s es = .ok t) : invariant t := by
  induction es generalizing s with
  | nil =>
    cases ran
    exact start
  | cons e es ih =>
    obtain ⟨m, taken, rest⟩ := run_cons.mp ran
    exact ih (kept start taken) rest

/-- A property that the steps meeting a condition keep holds at the end of every run whose
steps all meet it. -/
theorem run_keeps_along {invariant : σ → Prop} {condition : σ → ε → Prop}
    (kept : ∀ {s e t}, invariant s → condition s e → step s e = .ok t → invariant t)
    {s t : σ} {es : List ε} (start : invariant s) (met : Along step condition s es)
    (ran : run step s es = .ok t) : invariant t := by
  induction es generalizing s with
  | nil =>
    cases ran
    exact start
  | cons e es ih =>
    obtain ⟨m, taken, rest⟩ := run_cons.mp ran
    simp only [Along, taken] at met
    exact ih (kept start met.1 taken) met.2 rest

/-- A condition that holds of every step holds along every run. -/
theorem Along.all {condition : σ → ε → Prop} (always : ∀ s e, condition s e) (s : σ)
    (es : List ε) : Along step condition s es := by
  induction es generalizing s with
  | nil => trivial
  | cons e es ih =>
    refine ⟨always s e, ?_⟩
    split
    · exact ih _
    · trivial

/-- A condition on the event alone holds along a run when it holds of every event. -/
theorem Along.of_mem {condition : ε → Prop} {es : List ε} (every : ∀ e ∈ es, condition e) (s : σ) :
    Along step (fun _ e => condition e) s es := by
  induction es generalizing s with
  | nil => trivial
  | cons e es ih =>
    refine ⟨every e List.mem_cons_self, ?_⟩
    split
    · exact ih (fun f member => every f (List.mem_cons_of_mem e member)) _
    · trivial

/-- A condition that implies another holds along a run only where the other does. -/
theorem Along.imp {condition other : σ → ε → Prop} (implies : ∀ s e, condition s e → other s e)
    {s : σ} {es : List ε} (met : Along step condition s es) : Along step other s es := by
  induction es generalizing s with
  | nil => trivial
  | cons e es ih =>
    obtain ⟨now, later⟩ := met
    refine ⟨implies s e now, ?_⟩
    cases taken : step s e with
    | ok t =>
      rw [taken] at later
      exact ih later
    | error fault => trivial

/-- Where a condition on a step decides whether the next state is good, it holds along a run whose
steps keep the invariant exactly when every state that the run passes through is good. -/
theorem along_iff_good_along {invariant good : σ → Prop} {side condition : σ → ε → Prop}
    (kept : ∀ {s e t}, invariant s → side s e → step s e = .ok t → invariant t)
    (decides : ∀ {s e t}, invariant s → good s → step s e = .ok t → (condition s e ↔ good t))
    {s t : σ} {es : List ε} (start : invariant s) (fine : good s) (met : Along step side s es)
    (ran : run step s es = .ok t) :
    Along step condition s es ↔
      ∀ first rest m, es = first ++ rest → run step s first = .ok m → good m := by
  induction es generalizing s with
  | nil =>
    refine iff_of_true trivial fun first rest m split went => ?_
    obtain ⟨rfl, rfl⟩ := List.append_eq_nil_iff.mp split.symm
    cases went
    exact fine
  | cons e es ih =>
    obtain ⟨n, taken, later⟩ := run_cons.mp ran
    simp only [Along, taken] at met
    have next := decides start fine taken
    have holds := kept start met.1 taken
    simp only [Along, taken]
    constructor
    · rintro ⟨now, along⟩ first rest m split went
      have good_next := next.mp now
      cases first with
      | nil =>
        cases went
        exact fine
      | cons d ds =>
        obtain ⟨rfl, parts⟩ := List.cons.inj split
        obtain ⟨n', taken', went⟩ := run_cons.mp went
        cases taken.symm.trans taken'
        exact (ih holds good_next met.2 later).mp along ds rest m parts went
    · intro always
      have good_next : good n := always [e] es n rfl (run_cons.mpr ⟨n, taken, rfl⟩)
      refine ⟨next.mpr good_next, (ih holds good_next met.2 later).mpr ?_⟩
      intro first rest m split went
      exact always (e :: first) rest m (by rw [split]; rfl) (run_cons.mpr ⟨n, taken, went⟩)

/-- Where a condition on a step decides whether the next state is good, it holds along a run
exactly when every state that the run passes through is good. -/
theorem along_iff_good {invariant good : σ → Prop} {condition : σ → ε → Prop}
    (kept : ∀ {s e t}, invariant s → step s e = .ok t → invariant t)
    (decides : ∀ {s e t}, invariant s → good s → step s e = .ok t → (condition s e ↔ good t))
    {s t : σ} {es : List ε} (start : invariant s) (fine : good s)
    (ran : run step s es = .ok t) :
    Along step condition s es ↔
      ∀ first rest m, es = first ++ rest → run step s first = .ok m → good m :=
  along_iff_good_along (fun start _ => kept start) decides start fine
    (Along.all (fun _ _ => trivial) s es) ran

/-- Whether a step or a run succeeds with a decidable property is decided by taking it. -/
instance decidableOk {result : Except δ σ} {p : σ → Prop} [DecidablePred p] :
    Decidable (∃ t, result = .ok t ∧ p t) :=
  match result with
  | .ok t => decidable_of_iff (p t) (by simp)
  | .error _ => isFalse (by simp)

/-- Whether a step or a run ends in a fault is decided by taking it. -/
instance decidableError [DecidableEq δ] {result : Except δ σ} {fault : δ} :
    Decidable (result = .error fault) :=
  match result with
  | .ok _ => isFalse nofun
  | .error other => decidable_of_iff (other = fault) (by simp)

/-- What the steps of a run contribute, one after the other. -/
def collect {β : Type} (step : σ → ε → Except δ σ) (output : σ → ε → List β) :
    σ → List ε → List β
  | _, [] => []
  | s, e :: es =>
    match step s e with
    | .ok t => output s e ++ collect step output t es
    | .error _ => []

/-- Mapping what a run contributes maps what each step contributes. -/
theorem collect_map {β γ : Type} (f : β → γ) (output : σ → ε → List β) (s : σ) (es : List ε) :
    (collect step output s es).map f = collect step (fun s e => (output s e).map f) s es := by
  induction es generalizing s with
  | nil => rfl
  | cons e es ih =>
    simp only [collect]
    split
    · rw [List.map_append, ih]
    · rfl

/-- A property of the state and of what was contributed so far that the steps meeting a condition
keep holds at the end of every run whose steps all meet it. -/
theorem run_keeps_collected {β : Type} {output : σ → ε → List β} {invariant : List β → σ → Prop}
    {condition : σ → ε → Prop}
    (kept : ∀ {bs s e t}, invariant bs s → condition s e → step s e = .ok t →
      invariant (bs ++ output s e) t)
    {bs : List β} {s t : σ} {es : List ε} (start : invariant bs s)
    (met : Along step condition s es) (ran : run step s es = .ok t) :
    invariant (bs ++ collect step output s es) t := by
  induction es generalizing bs s with
  | nil =>
    cases ran
    simpa [collect] using start
  | cons e es ih =>
    obtain ⟨m, taken, rest⟩ := run_cons.mp ran
    simp only [Along, taken] at met
    have next := ih (kept start met.1 taken) met.2 rest
    rw [List.append_assoc] at next
    simpa only [collect, taken] using next

/-- A history that every step extends by its output has collected the outputs of the run. -/
theorem run_collects {β : Type} {output : σ → ε → List β} {history : σ → List β}
    {invariant : σ → Prop} (kept : ∀ {s e t}, invariant s → step s e = .ok t → invariant t)
    (extends_by : ∀ {s e t}, invariant s → step s e = .ok t → history t = history s ++ output s e)
    {s t : σ} {es : List ε} (start : invariant s) (ran : run step s es = .ok t) :
    history t = history s ++ collect step output s es := by
  let grown (bs : List β) (m : σ) : Prop := invariant m ∧ history m = history s ++ bs
  have both : ∀ {bs m e n}, grown bs m → True → step m e = .ok n → grown (bs ++ output m e) n := by
    rintro bs m e n ⟨inv, same⟩ _ taken
    exact ⟨kept inv taken, by rw [extends_by inv taken, same, List.append_assoc]⟩
  have first : grown [] s := ⟨start, (List.append_nil _).symm⟩
  have always : Along step (fun _ _ => True) s es := .all (fun _ _ => trivial) s es
  exact (run_keeps_collected both first always ran).2

/-- A queue through which every step passes items first in, first out, does so over a run whose
steps all meet a condition. -/
theorem run_queue {β : Type} {put got : σ → ε → List β} {queue : σ → List β}
    {invariant : σ → Prop} {condition : σ → ε → Prop}
    (kept : ∀ {s e t}, invariant s → condition s e → step s e = .ok t → invariant t)
    (passes : ∀ {s e t}, invariant s → step s e = .ok t → queue s ++ put s e = got s e ++ queue t)
    {s t : σ} {es : List ε} (start : invariant s) (met : Along step condition s es)
    (ran : run step s es = .ok t) :
    queue s ++ collect step put s es = collect step got s es ++ queue t := by
  induction es generalizing s with
  | nil =>
    cases ran
    exact List.append_nil _
  | cons e es ih =>
    obtain ⟨m, taken, rest⟩ := run_cons.mp ran
    simp only [Along, taken] at met
    have first := passes start taken
    have later := ih (kept start met.1 taken) met.2 rest
    simp only [collect, taken]
    calc queue s ++ (put s e ++ collect step put m es)
        = got s e ++ (queue m ++ collect step put m es) := by
          rw [← List.append_assoc, first, List.append_assoc]
      _ = got s e ++ collect step got m es ++ queue t := by rw [later, List.append_assoc]

/-! ## Two machines -/

section Matching

variable {σ' : Type} {step' : σ' → ε → Except δ σ'} {related : σ → σ' → Prop}

/-- Two results that are related states or one fault. -/
inductive Matches (related : σ → σ' → Prop) : Except δ σ → Except δ σ' → Prop
  | ok {s : σ} {t : σ'} (same : related s t) : Matches related (.ok s) (.ok t)
  | error (fault : δ) : Matches related (.error fault) (.error fault)

/-- Matching results match in every relation that holds of related states. -/
theorem Matches.imp {related' : σ → σ' → Prop} {result : Except δ σ} {result' : Except δ σ'}
    (matched : Matches related result result')
    (stronger : ∀ {s t}, result' = .ok t → related s t → related' s t) :
    Matches related' result result' := by
  cases matched with
  | ok same => exact .ok (stronger rfl same)
  | error fault => exact .error fault

/-- Conditionals match when their branches do. -/
theorem Matches.ite {p : Prop} [Decidable p] {first second : Except δ σ}
    {first' second' : Except δ σ'} (left : p → Matches related first first')
    (right : ¬p → Matches related second second') :
    Matches related (if p then first else second) (if p then first' else second') := by
  split
  · rename_i holds
    exact left holds
  · rename_i fails
    exact right fails

/-- Machines whose steps match in states that are related, where the second one keeps an
invariant, have matching runs. -/
theorem run_matches {invariant : σ' → Prop}
    (kept : ∀ {t e t'}, invariant t → step' t e = .ok t' → invariant t')
    (matched : ∀ {s t} e, related s t → invariant t → Matches related (step s e) (step' t e))
    {s : σ} {t : σ'} (same : related s t) (inv : invariant t) (es : List ε) :
    Matches related (run step s es) (run step' t es) := by
  induction es generalizing s t with
  | nil => exact .ok same
  | cons e es ih =>
    have first := matched e same inv
    unfold run
    generalize taken : step' t e = after' at first ⊢
    generalize step s e = after at first ⊢
    cases first with
    | ok next => exact ih next (kept inv taken)
    | error fault => exact .error fault

end Matching

end Machine
