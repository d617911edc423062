import Sherry.Model.Programs

/-!
# Programs are runs

A turn of an actor and an iteration of the loop of `schdule` are runs of the system, over the
calls of the program, the resumption before them and the return after them. So everything
proved of runs holds of programs.
-/

namespace Sherry

variable {φ : Type} {s t : State Seqs φ} {self a : ActorRef} {e : Event φ}
  {p r : List (Event φ)} {c d : Config Seqs φ} {libuv : State Seqs φ → List (Event φ)}

/-- The calls of a program are a run, and leave a later part of the program. -/
theorem runCalls_run (ran : runCalls self p s = .ok (t, r)) :
    r <:+ p ∧ ∃ es, Machine.run step s es = .ok t ∧ ∀ e ∈ es, e ∈ p ∨ e = .ret := by
  induction p generalizing s with
  | nil =>
    cases happened : step s .ret with
    | error fault => simp [runCalls, happened] at ran
    | ok m =>
      simp only [runCalls, happened, Except.ok.injEq, Prod.mk.injEq] at ran
      obtain ⟨rfl, rfl⟩ := ran
      exact ⟨List.suffix_refl _, [.ret], Machine.run_cons.mpr ⟨m, happened, rfl⟩, by simp⟩
  | cons e p ih =>
    cases happened : step s e with
    | error fault => simp [runCalls, happened] at ran
    | ok m =>
      simp only [runCalls, happened] at ran
      split at ran
      · obtain ⟨suffix, es, later, from_p⟩ := ih ran
        refine ⟨suffix.trans (List.suffix_cons e p), e :: es,
          Machine.run_cons.mpr ⟨m, happened, later⟩, ?_⟩
        intro f member
        rcases List.mem_cons.mp member with rfl | member
        · exact .inl List.mem_cons_self
        · exact (from_p f member).imp_left (List.mem_cons_of_mem e)
      · simp only [Except.ok.injEq, Prod.mk.injEq] at ran
        obtain ⟨rfl, rfl⟩ := ran
        exact ⟨List.suffix_cons e p, [e], Machine.run_cons.mpr ⟨m, happened, rfl⟩, by simp⟩

/-- A turn is a run. -/
theorem turn_run (ran : turn s self p = .ok (t, r)) :
    r <:+ p ∧ ∃ es, Machine.run step s es = .ok t ∧
      ∀ e ∈ es, e ∈ p ∨ e = .ret ∨ e = .resume 0 := by
  unfold turn at ran
  split at ran
  · obtain ⟨suffix, es, later, from_p⟩ := runCalls_run ran
    exact ⟨suffix, es, later, fun e member => (from_p e member).imp_right .inl⟩
  · cases happened : step s (.resume 0) with
    | error fault => simp [happened] at ran
    | ok m =>
      simp only [happened] at ran
      split at ran
      · obtain ⟨suffix, es, later, from_p⟩ := runCalls_run ran
        refine ⟨suffix, .resume 0 :: es, Machine.run_cons.mpr ⟨m, happened, later⟩, ?_⟩
        intro f member
        rcases List.mem_cons.mp member with rfl | member
        · exact .inr (.inr rfl)
        · exact (from_p f member).imp_right .inl
      · simp only [Except.ok.injEq, Prod.mk.injEq] at ran
        obtain ⟨rfl, rfl⟩ := ran
        exact ⟨List.suffix_refl _, [.resume 0], Machine.run_cons.mpr ⟨m, happened, rfl⟩, by simp⟩

/-- An iteration takes the first ready actor off the queue and gives it a turn. -/
theorem iteration_turn (happened : step c.state .schdule = .ok s) (exec : s.executing = some self)
    (turned : turn s self (c.rest self) = .ok (t, r)) :
    iteration libuv c = .ok { state := t, rest := Function.update c.rest self r } := by
  simp only [iteration, happened, exec, turned]

/-- An iteration that succeeds is a turn of the actor that `schdule` resumed, or `uv_run`. -/
theorem iteration_cases (ran : iteration libuv c = .ok d) :
    ∃ s, step c.state .schdule = .ok s ∧
      ((∃ self r, s.executing = some self ∧ turn s self (c.rest self) = .ok (d.state, r) ∧
        d.rest = Function.update c.rest self r) ∨
      (s.executing = none ∧ Machine.run step s (libuv s ++ [.uvReturn]) = .ok d.state ∧
        d.rest = c.rest)) := by
  cases happened : step c.state .schdule with
  | error fault => simp [iteration, happened] at ran
  | ok s =>
    refine ⟨s, rfl, ?_⟩
    cases exec : s.executing with
    | some self =>
      cases turned : turn s self (c.rest self) with
      | error fault => simp [iteration, happened, exec, turned] at ran
      | ok result =>
        simp only [iteration, happened, exec, turned, Except.ok.injEq] at ran
        subst ran
        exact .inl ⟨self, result.2, rfl, turned, rfl⟩
    | none =>
      cases polled : Machine.run step s (libuv s ++ [.uvReturn]) with
      | error fault => simp [iteration, happened, exec, polled] at ran
      | ok t =>
        simp only [iteration, happened, exec, polled, Except.ok.injEq] at ran
        subst ran
        exact .inr ⟨rfl, rfl, rfl⟩

/-- After some number of iterations `sherry_exit` has returned. -/
def Ends (libuv : State Seqs φ → List (Event φ)) (c : Config Seqs φ) : Prop :=
  ∃ n d, iterate libuv n c = .ok d ∧ d.state.exited = true

/-- An iteration is one step towards the end. -/
theorem ends_iteration (live : c.state.exited = false) (ran : iteration libuv c = .ok d) :
    Ends libuv c ↔ Ends libuv d := by
  constructor
  · rintro ⟨n, f, later, done⟩
    cases n with
    | zero =>
      cases later
      cases live.symm.trans done
    | succ n =>
      simp only [iterate, ran] at later
      exact ⟨n, f, later, done⟩
  · rintro ⟨n, f, later, done⟩
    exact ⟨n + 1, f, by simp only [iterate, ran, later], done⟩

end Sherry
