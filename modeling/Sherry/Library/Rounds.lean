import Mathlib.Algebra.GroupWithZero.Nat
import Mathlib.Data.List.Flatten
import Mathlib.Data.List.MinMax
import Mathlib.Data.List.Nodup
import Mathlib.Logic.Relation

/-!
# Jobs that run in rounds

A job is a finite program that acts, yields, makes other jobs and returns. A pool runs its jobs
in rounds: every job of a round has one turn, in which it goes on to its next yield or to its
return, and the jobs that yielded in a round and those that were made in it are the jobs of the
next round, in the order in which they joined. Jobs are numbered in the order in which they are
made. The pool is finished when a round ends and no job waits for another.

The load of a pool is the size of what its jobs still do, with the jobs they still make. Every
turn takes some of it, so every pool finishes; and what a job has done, followed by what it
still does, is its program.
-/

namespace Rounds

/-- A finite program. -/
inductive Job (α : Type)
  | ret
  | act (a : α) (rest : Job α)
  | yield (rest : Job α)
  | spawn (child rest : Job α)

/-- What a job does. -/
inductive Op (α : Type)
  | start
  | act (a : α)
  | yield
  | spawn (child : Job α)
  | ret

variable {α : Type} {i : Nat} {j child : Job α}

namespace Job

/-- What a job does after its start, in order. -/
def ops : Job α → List (Op α)
  | .ret => [.ret]
  | .act a rest => .act a :: rest.ops
  | .yield rest => .yield :: rest.ops
  | .spawn child rest => .spawn child :: rest.ops

/-- The size of a job with the jobs it makes. -/
def size : Job α → Nat
  | .ret => 1
  | .act _ rest => rest.size + 1
  | .yield rest => rest.size + 1
  | .spawn child rest => child.size + rest.size + 1

/-- The jobs that a job makes, and those that they make. -/
def descendants : Job α → List (Job α)
  | .ret => []
  | .act _ rest => rest.descendants
  | .yield rest => rest.descendants
  | .spawn child rest => child :: (child.descendants ++ rest.descendants)

/-- The nodes of the tree of a job. -/
def nodes (j : Job α) : List (Job α) := j :: j.descendants

/-- The loop that acts and yields, from a round on and for a number of rounds. -/
def loop (action : Nat → α) : Nat → Nat → Job α
  | _, 0 => .ret
  | round, k + 1 => .act (action round) (.yield (loop action (round + 1) k))

end Job

/-- A job that waits for a turn. -/
structure Entry (α : Type) where
  /-- Its number. -/
  number : Nat
  /-- It has not started. -/
  fresh : Bool
  /-- What it still does. -/
  job : Job α

/-- What a waiting job still does. -/
def Entry.ops (e : Entry α) : List (Op α) := if e.fresh then .start :: e.job.ops else e.job.ops

/-- Jobs that run in rounds. -/
structure Pool (α : Type) where
  /-- Who still has a turn in this round. -/
  now : List (Entry α)
  /-- Who waits for the next round. -/
  later : List (Entry α)
  /-- The number of the next job. -/
  next : Nat
  /-- The jobs made so far, with their numbers. -/
  made : List (Nat × Job α)
  /-- What was done, and by whom, in order. -/
  log : List (Nat × Op α)
  /-- How many rounds have begun. -/
  rounds : Nat

namespace Pool

/-- A pool without jobs. -/
def empty (first : Nat) : Pool α := ⟨[], [], first, [], [], 0⟩

/-- Note what a job did. -/
def record (p : Pool α) (i : Nat) (op : Op α) : Pool α := { p with log := p.log ++ [(i, op)] }

/-- A job that yielded waits for the next round. -/
def wait (p : Pool α) (i : Nat) (j : Job α) : Pool α :=
  { p with later := p.later ++ [⟨i, false, j⟩] }

/-- A new job waits for the next round. -/
def make (p : Pool α) (j : Job α) : Pool α :=
  { p with
    next := p.next + 1
    made := p.made ++ [(p.next, j)]
    later := p.later ++ [⟨p.next, true, j⟩] }

/-- A job goes on to its next yield or to its return. -/
def run (i : Nat) : Job α → Pool α → Pool α
  | .ret, p => p.record i .ret
  | .act a rest, p => run i rest (p.record i (.act a))
  | .yield rest, p => (p.record i .yield).wait i rest
  | .spawn child rest, p => run i rest ((p.record i (.spawn child)).make child)

/-- A job that has not started does so. -/
def start (p : Pool α) (e : Entry α) : Pool α :=
  if e.fresh then p.record e.number .start else p

/-- The turn of a job. -/
def exec (p : Pool α) (e : Entry α) : Pool α := run e.number e.job (p.start e)

/-- The next turn, or the next round when everybody had a turn. -/
def turn (p : Pool α) : Option (Pool α) :=
  match p.now, p.later with
  | e :: es, _ => some (exec { p with now := es } e)
  | [], [] => none
  | [], _ :: _ => some { p with now := p.later, later := [], rounds := p.rounds + 1 }

/-- A number of turns leads from one pool to another. -/
abbrev Reaches : Pool α → Pool α → Prop := Relation.ReflTransGen fun p q => p.turn = some q

/-- Who waits for a turn. -/
def queue (p : Pool α) : List (Entry α) := p.now ++ p.later

/-- What one job did, in order. -/
def history (p : Pool α) (i : Nat) : List (Op α) := (p.log.filter (·.1 = i)).map Prod.snd

variable {p q : Pool α} {e : Entry α} {es es' : List (Entry α)}

/-- The size of what is still done. -/
def load (p : Pool α) : Nat := (p.queue.map (·.job.size)).sum

/-- A turn takes some of the load that it began with. -/
theorem run_load (i : Nat) (j : Job α) (p : Pool α) : (run i j p).load < j.size + p.load := by
  induction j generalizing p with
  | ret => simp [run, record, load, queue, Job.size]
  | act a rest ih =>
    have later := ih (p.record i (.act a))
    have same : (p.record i (.act a)).load = p.load := rfl
    rw [run, Job.size]
    omega
  | yield rest _ =>
    have waits : ((p.record i .yield).wait i rest).load = p.load + rest.size := by
      simp [wait, record, load, queue, Nat.add_assoc]
    rw [run, Job.size]
    omega
  | spawn child rest _ ih =>
    have later := ih ((p.record i (.spawn child)).make child)
    have waits : ((p.record i (.spawn child)).make child).load = p.load + child.size := by
      simp [make, record, load, queue, Nat.add_assoc]
    rw [run, Job.size]
    omega

/-- The load, and the beginning of a round. -/
def weight (p : Pool α) : Nat := 2 * p.load + if p.now = [] then 1 else 0

/-- A turn is one of a job, or the beginning of a round. -/
theorem turn_cases (turned : p.turn = some q) :
    (∃ e es, p.now = e :: es ∧ q = ({ p with now := es } : Pool α).exec e) ∨
      p.now = [] ∧ p.later ≠ [] ∧
        q = { p with now := p.later, later := [], rounds := p.rounds + 1 } := by
  cases now : p.now with
  | cons e es =>
    simp only [turn, now] at turned
    exact .inl ⟨e, es, rfl, (Option.some.inj turned).symm⟩
  | nil =>
    cases later : p.later with
    | nil =>
      simp only [turn, now, later] at turned
      cases turned
    | cons e es =>
      simp only [turn, now, later] at turned
      exact .inr ⟨rfl, List.cons_ne_nil e es, (Option.some.inj turned).symm⟩

/-- The start of a job only extends the log. -/
theorem start_rest : (p.start e).now = p.now ∧ (p.start e).later = p.later ∧
    (p.start e).made = p.made ∧ (p.start e).rounds = p.rounds := by
  unfold start
  split <;> exact ⟨rfl, rfl, rfl, rfl⟩

/-- A pool is finished exactly when nobody waits. -/
theorem turn_none_iff : p.turn = none ↔ p.now = [] ∧ p.later = [] := by
  unfold turn
  split <;> simp_all

/-- Every turn takes some of the weight. -/
theorem turn_weight (turned : p.turn = some q) : q.weight < p.weight := by
  cases turn_cases turned with
  | inl job =>
    obtain ⟨e, es, now, rfl⟩ := job
    have taken := run_load e.number e.job (({ p with now := es } : Pool α).start e)
    have rest : (({ p with now := es } : Pool α).start e).load + e.job.size = p.load := by
      unfold start
      split <;> simp [record, load, queue, now, Nat.add_comm]
    have less : (({ p with now := es } : Pool α).exec e).load < p.load := by
      unfold exec
      omega
    simp only [weight, now]
    split <;> simp <;> omega
  | inr round =>
    obtain ⟨now, waiting, rfl⟩ := round
    have same : ({ p with now := p.later, later := [], rounds := p.rounds + 1 } : Pool α).load =
        p.load := by
      simp [load, queue, now]
    simp [weight, same, waiting, now]

/-- Every pool finishes. -/
theorem finishes (p : Pool α) : ∃ q, Reaches p q ∧ q.turn = none := by
  induction weighed : p.weight using Nat.strongRecOn generalizing p with
  | ind n ih =>
    cases turned : p.turn with
    | none => exact ⟨p, .refl, turned⟩
    | some m =>
      have less : m.weight < n := weighed ▸ turn_weight turned
      obtain ⟨q, reaches, last⟩ := ih m.weight less m rfl
      exact ⟨q, .head turned reaches, last⟩

/-- The history after something was done. -/
theorem history_record {op : Op α} {k : Nat} :
    (p.record i op).history k = p.history k ++ if i = k then [op] else [] := by
  by_cases own : i = k <;> simp [history, record, own]

/-- What the jobs did and what the waiting ones still do make up their programs. -/
structure Accounted (p : Pool α) (waiting : List (Entry α)) : Prop where
  /-- The next number was not given to a job. -/
  made : ∀ x ∈ p.made, x.1 < p.next
  /-- Only jobs that were made did something. -/
  logged : ∀ x ∈ p.log, x.1 < p.next
  /-- Only jobs that were made wait. -/
  queued : ∀ e ∈ waiting, e.number < p.next
  /-- A job waits for one turn at most. -/
  single : (waiting.map Entry.number).Nodup
  /-- What a waiting job did and what it still does are its program. -/
  going : ∀ e ∈ waiting, ∀ x ∈ p.made, x.1 = e.number →
    p.history x.1 ++ e.ops = .start :: x.2.ops
  /-- A job that does not wait did its program. -/
  returned : ∀ x ∈ p.made, x.1 ∉ waiting.map Entry.number → p.history x.1 = .start :: x.2.ops

/-- Only the jobs made and the log matter. -/
theorem Accounted.congr (accounted : p.Accounted es) (made : q.made = p.made)
    (log : q.log = p.log) (next : q.next = p.next) : q.Accounted es := by
  have history : ∀ k, q.history k = p.history k := fun k => by rw [Pool.history, log]; rfl
  constructor
  · exact fun x member => next ▸ accounted.made x (made ▸ member)
  · exact fun x member => next ▸ accounted.logged x (log ▸ member)
  · exact fun e member => next ▸ accounted.queued e member
  · exact accounted.single
  · exact fun e member x old => history x.1 ▸ accounted.going e member x (made ▸ old)
  · exact fun x old => history x.1 ▸ accounted.returned x (made ▸ old)

/-- The order in which jobs wait does not matter. -/
theorem Accounted.perm (accounted : p.Accounted es) (same : es.Perm es') : p.Accounted es' where
  made := accounted.made
  logged := accounted.logged
  queued e member := accounted.queued e (same.mem_iff.mpr member)
  single := (same.map Entry.number).nodup_iff.mp accounted.single
  going e member := accounted.going e (same.mem_iff.mpr member)
  returned x member apart :=
    accounted.returned x member fun waits => apart ((same.map Entry.number).mem_iff.mp waits)

/-- A job does the next thing of its program. -/
theorem Accounted.did (accounted : p.Accounted (e :: es)) (op : Op α) (e' : Entry α)
    (did : e.ops = op :: e'.ops) (same : e'.number = e.number) :
    (p.record e.number op).Accounted (e' :: es) := by
  have own := List.nodup_cons.mp accounted.single
  constructor
  · exact accounted.made
  · intro x member
    cases List.mem_append.mp member with
    | inl earlier => exact accounted.logged x earlier
    | inr last =>
      rw [List.mem_singleton.mp last]
      exact accounted.queued e List.mem_cons_self
  · intro d member
    cases List.mem_cons.mp member with
    | inl here =>
      rw [here, same]
      exact accounted.queued e List.mem_cons_self
    | inr rest => exact accounted.queued d (List.mem_cons_of_mem e rest)
  · rw [List.map_cons, same]
    exact accounted.single
  · intro d member x made number
    rw [history_record]
    cases List.mem_cons.mp member with
    | inl here =>
      rw [here, same] at number
      have before := accounted.going e List.mem_cons_self x made number
      rw [if_pos number.symm, List.append_assoc, ← before, did, here]
      rfl
    | inr rest =>
      have apart : e.number ≠ x.1 := fun here =>
        own.1 (List.mem_map.mpr ⟨d, rest, number ▸ here.symm⟩)
      rw [if_neg apart, List.append_nil]
      exact accounted.going d (List.mem_cons_of_mem e rest) x made number
  · intro x made apart
    rw [List.map_cons, same] at apart
    have other : e.number ≠ x.1 := fun here => apart (here ▸ List.mem_cons_self)
    rw [history_record, if_neg other, List.append_nil]
    exact accounted.returned x made apart

/-- A job returns. -/
theorem Accounted.ret (accounted : p.Accounted (⟨i, false, .ret⟩ :: es)) :
    (p.record i .ret).Accounted es := by
  have own := List.nodup_cons.mp accounted.single
  constructor
  · exact accounted.made
  · intro x member
    cases List.mem_append.mp member with
    | inl earlier => exact accounted.logged x earlier
    | inr last =>
      rw [List.mem_singleton.mp last]
      exact accounted.queued _ List.mem_cons_self
  · exact fun d member => accounted.queued d (List.mem_cons_of_mem _ member)
  · exact own.2
  · intro d member x made number
    have apart : i ≠ x.1 := fun here => own.1 (List.mem_map.mpr ⟨d, member, number ▸ here.symm⟩)
    rw [history_record, if_neg apart, List.append_nil]
    exact accounted.going d (List.mem_cons_of_mem _ member) x made number
  · intro x made apart
    rw [history_record]
    by_cases here : i = x.1
    · rw [if_pos here]
      exact accounted.going _ List.mem_cons_self x made here.symm
    · rw [if_neg here, List.append_nil]
      refine accounted.returned x made fun waits => ?_
      cases List.mem_cons.mp waits with
      | inl same => exact here same.symm
      | inr rest => exact apart rest

/-- A new job waits. -/
theorem Accounted.make (accounted : p.Accounted es) :
    (p.make j).Accounted (es ++ [⟨p.next, true, j⟩]) := by
  have unborn : p.history p.next = [] := by
    have nothing : p.log.filter (·.1 = p.next) = [] := by
      rw [List.filter_eq_nil_iff]
      intro x member
      have below := accounted.logged x member
      simp only [decide_eq_true_eq]
      omega
    rw [history, nothing, List.map_nil]
  constructor
  · intro x member
    show x.1 < p.next + 1
    cases List.mem_append.mp member with
    | inl old => exact Nat.lt_succ_of_lt (accounted.made x old)
    | inr new =>
      rw [List.mem_singleton.mp new]
      exact Nat.lt_succ_self p.next
  · exact fun x member => Nat.lt_succ_of_lt (accounted.logged x member)
  · intro e member
    show e.number < p.next + 1
    cases List.mem_append.mp member with
    | inl old => exact Nat.lt_succ_of_lt (accounted.queued e old)
    | inr new =>
      rw [List.mem_singleton.mp new]
      exact Nat.lt_succ_self p.next
  · rw [List.map_append, List.nodup_append]
    refine ⟨accounted.single, List.nodup_singleton _, fun k old l new same => ?_⟩
    have number : l = p.next := List.mem_singleton.mp new
    obtain ⟨e, member, rfl⟩ := List.mem_map.mp old
    have below := accounted.queued e member
    omega
  · intro e member x made number
    show p.history x.1 ++ e.ops = _
    cases List.mem_append.mp made with
    | inl old =>
      cases List.mem_append.mp member with
      | inl waits => exact accounted.going e waits x old number
      | inr new =>
        rw [List.mem_singleton.mp new] at number
        exact absurd number (Nat.ne_of_lt (accounted.made x old))
    | inr last =>
      rw [List.mem_singleton.mp last] at number ⊢
      cases List.mem_append.mp member with
      | inl waits => exact absurd number.symm (Nat.ne_of_lt (accounted.queued e waits))
      | inr new =>
        rw [List.mem_singleton.mp new, unborn]
        rfl
  · intro x made apart
    rw [List.map_append, List.mem_append, not_or] at apart
    cases List.mem_append.mp made with
    | inl old => exact accounted.returned x old apart.1
    | inr last =>
      rw [List.mem_singleton.mp last] at apart
      exact absurd List.mem_cons_self apart.2

/-- A job that goes on keeps the accounts. -/
theorem Accounted.run (accounted : p.Accounted (⟨i, false, j⟩ :: p.queue)) :
    (run i j p).Accounted (run i j p).queue := by
  induction j generalizing p with
  | ret => exact accounted.ret
  | act a rest ih => exact ih (accounted.did (.act a) ⟨i, false, rest⟩ rfl rfl)
  | yield rest _ =>
    have waits := (accounted.did .yield ⟨i, false, rest⟩ rfl rfl).congr
      (q := (p.record i .yield).wait i rest) rfl rfl rfl
    apply waits.perm
    show (⟨i, false, rest⟩ :: (p.now ++ p.later)).Perm (p.now ++ (p.later ++ [⟨i, false, rest⟩]))
    rw [← List.append_assoc]
    exact (List.perm_append_singleton _ _).symm
  | spawn child rest _ ih =>
    have waits := accounted.did (.spawn child) ⟨i, false, rest⟩ rfl rfl
    have born := waits.make (j := child)
    apply ih
    show Accounted _ (⟨i, false, rest⟩ :: (p.now ++ (p.later ++ [⟨p.next, true, child⟩])))
    rw [← List.append_assoc]
    exact born

/-- A turn keeps the accounts. -/
theorem Accounted.turn (accounted : p.Accounted p.queue) (turned : p.turn = some q) :
    q.Accounted q.queue := by
  cases turn_cases turned with
  | inl job =>
    obtain ⟨e, es, now, rfl⟩ := job
    have front : p.queue = e :: (es ++ p.later) := by rw [queue, now, List.cons_append]
    rw [front] at accounted
    have dropped := accounted.congr (q := { p with now := es }) rfl rfl rfl
    unfold exec start
    cases fresh : e.fresh with
    | true =>
      have ops : e.ops = .start :: e.job.ops := by simp [Entry.ops, fresh]
      exact (dropped.did .start ⟨e.number, false, e.job⟩ ops rfl).run
    | false =>
      have same : e = ⟨e.number, false, e.job⟩ := by rw [← fresh]
      rw [same] at dropped
      exact dropped.run
  | inr round =>
    obtain ⟨now, _, rfl⟩ := round
    rw [queue, now] at accounted
    show Accounted _ (p.later ++ [])
    rw [List.append_nil]
    exact accounted.congr rfl rfl rfl

/-- The jobs made so far, and those that the waiting ones still make. -/
def family (p : Pool α) : List (Job α) :=
  p.made.map Prod.snd ++ p.queue.flatMap (·.job.descendants)

/-- A new job brings the nodes of its tree. -/
theorem make_family (p : Pool α) (j : Job α) : (p.make j).family.Perm (p.family ++ j.nodes) := by
  have made : (p.make j).family =
      p.made.map Prod.snd ++ j :: (p.queue.flatMap (·.job.descendants) ++ j.descendants) := by
    simp [family, make, queue]
  rw [made, family, Job.nodes, List.append_assoc]
  exact List.perm_middle.symm.append_left _

/-- A job that goes on makes its descendants. -/
theorem run_family (i : Nat) (j : Job α) (p : Pool α) :
    (run i j p).family.Perm (p.family ++ j.descendants) := by
  induction j generalizing p with
  | ret =>
    rw [Job.descendants, List.append_nil]
    exact .refl _
  | act a rest ih => exact ih (p.record i (.act a))
  | yield rest _ =>
    have waits : (run i (.yield rest) p).family = p.family ++ rest.descendants := by
      simp [run, family, wait, record, queue]
    rw [waits]
    exact .refl _
  | spawn child rest _ ih =>
    have later := ih ((p.record i (.spawn child)).make child)
    have born := make_family (p.record i (.spawn child)) child
    have all := later.trans (born.append_right rest.descendants)
    rw [List.append_assoc] at all
    exact all

/-- A turn makes no job that was not to be made. -/
theorem turn_family (turned : p.turn = some q) : q.family.Perm p.family := by
  cases turn_cases turned with
  | inl job =>
    obtain ⟨e, es, now, rfl⟩ := job
    have started : (({ p with now := es } : Pool α).start e).family =
        ({ p with now := es } : Pool α).family := by
      unfold start
      split <;> rfl
    have made := run_family e.number e.job (({ p with now := es } : Pool α).start e)
    rw [started] at made
    refine made.trans ?_
    have front : p.family = p.made.map Prod.snd ++
        (e.job.descendants ++ (es ++ p.later).flatMap (·.job.descendants)) := by
      rw [family, queue, now]
      rfl
    rw [front, family, List.append_assoc]
    exact List.perm_append_comm.append_left _
  | inr round =>
    obtain ⟨now, _, rfl⟩ := round
    simp [family, queue, now]

/-- Jobs that wait for the first round. -/
def initial (first : Nat) (roots : List (Job α)) : Pool α := roots.foldl make (empty first)

/-- Further jobs keep the accounts. -/
theorem Accounted.makes (accounted : p.Accounted p.queue) (roots : List (Job α)) :
    (roots.foldl Pool.make p).Accounted (roots.foldl Pool.make p).queue := by
  induction roots generalizing p with
  | nil => exact accounted
  | cons j roots ih =>
    apply ih
    show Accounted _ (p.now ++ (p.later ++ [⟨p.next, true, j⟩]))
    rw [← List.append_assoc]
    exact accounted.make

/-- Further jobs bring the nodes of their trees. -/
theorem makes_family (p : Pool α) (roots : List (Job α)) :
    (roots.foldl make p).family.Perm (p.family ++ roots.flatMap Job.nodes) := by
  induction roots generalizing p with
  | nil => simp
  | cons j roots ih =>
    have later := (ih (p.make j)).trans ((make_family p j).append_right _)
    rw [List.append_assoc] at later
    exact later

/-- A job that goes on takes no number away. -/
theorem run_made (i : Nat) (j : Job α) (p : Pool α) : p.made <+: (run i j p).made := by
  induction j generalizing p with
  | ret => exact List.prefix_refl _
  | act a rest ih => exact ih (p.record i (.act a))
  | yield rest _ => exact List.prefix_refl _
  | spawn child rest _ ih =>
    have later := ih ((p.record i (.spawn child)).make child)
    exact (List.prefix_append p.made [(p.next, child)]).trans later

/-- Jobs keep their numbers. -/
theorem reaches_made (reaches : Reaches p q) : p.made <+: q.made := by
  induction reaches with
  | refl => exact List.prefix_refl _
  | @tail m _ _ turned ih =>
    apply ih.trans
    cases turn_cases turned with
    | inl job =>
      obtain ⟨e, es, _, rfl⟩ := job
      have made := run_made e.number e.job (({ m with now := es } : Pool α).start e)
      rw [start_rest.2.2.1] at made
      exact made
    | inr round =>
      obtain ⟨_, _, rfl⟩ := round
      exact List.prefix_refl _

/-- What holds of a pool that is reached from the start. -/
theorem reaches_accounted {first : Nat} {roots : List (Job α)}
    (reaches : Reaches (initial first roots) p) :
    p.Accounted p.queue ∧ p.family.Perm (roots.flatMap Job.nodes) := by
  induction reaches with
  | refl =>
    have blank : (empty first : Pool α).Accounted (empty first).queue := by
      constructor <;> simp [empty, queue]
    exact ⟨blank.makes roots, makes_family (empty first) roots⟩
  | tail _ turned ih => exact ⟨ih.1.turn turned, (turn_family turned).trans ih.2⟩

/-- A pool that is finished made the nodes of all trees, each once, and every job did its
program, once and in order. -/
theorem finished_accounted {first : Nat} {roots : List (Job α)}
    (reaches : Reaches (initial first roots) p) (finished : p.turn = none) :
    (p.made.map Prod.snd).Perm (roots.flatMap Job.nodes) ∧
      ∀ x ∈ p.made, p.history x.1 = .start :: x.2.ops := by
  have all := reaches_accounted reaches
  have nobody : p.queue = [] := by
    rw [queue, (turn_none_iff.mp finished).1, (turn_none_iff.mp finished).2]
    rfl
  rw [family, nobody] at all
  constructor
  · simpa using all.2
  · intro x made
    exact all.1.returned x made (by simp)

/-- The actions of a log, with who acted. -/
def actions (p : Pool α) : List (Nat × α) :=
  p.log.filterMap fun
    | (i, .act a) => some (i, a)
    | _ => none

/-- The loops that are left after some rounds, of loops with their lengths and numbers. -/
def loops (action : Nat → α) (round : Nat) (ks : List (Nat × Nat)) : List (Entry α) :=
  (ks.filter (round ≤ ·.1)).map fun x =>
    ⟨x.2, round = 0, .loop action (round + 1) (x.1 - round)⟩

/-- Who acts in a round. -/
def acting (action : Nat → α) (ks : List (Nat × Nat)) (round : Nat) : List (Nat × α) :=
  (ks.filter (round ≤ ·.1)).map fun x => (x.2, action round)

variable {action : Nat → α} {round k top : Nat} {ks : List (Nat × Nat)}

/-- A loop of enough rounds is left before the others. -/
theorem loops_left {x : Nat × Nat} (left : round ≤ x.1) :
    loops action round (x :: ks) =
      ⟨x.2, round = 0, .loop action (round + 1) (x.1 - round)⟩ :: loops action round ks := by
  unfold loops
  rw [List.filter_cons_of_pos (by simpa only [decide_eq_true_eq] using left), List.map_cons]

/-- A loop of fewer rounds is not left. -/
theorem loops_ended {x : Nat × Nat} (ended : ¬round ≤ x.1) :
    loops action round (x :: ks) = loops action round ks := by
  unfold loops
  rw [List.filter_cons_of_neg (by simpa only [decide_eq_true_eq] using ended)]

/-- A loop of enough rounds acts before the others. -/
theorem acting_left {x : Nat × Nat} (left : round ≤ x.1) :
    acting action (x :: ks) round = (x.2, action round) :: acting action ks round := by
  unfold acting
  rw [List.filter_cons_of_pos (by simpa only [decide_eq_true_eq] using left), List.map_cons]

/-- A loop of fewer rounds does not act. -/
theorem acting_ended {x : Nat × Nat} (ended : ¬round ≤ x.1) :
    acting action (x :: ks) round = acting action ks round := by
  unfold acting
  rw [List.filter_cons_of_neg (by simpa only [decide_eq_true_eq] using ended)]

/-- Only an action is seen among the actions. -/
theorem actions_record {op : Op α} (other : ∀ a, op ≠ .act a) :
    (p.record i op).actions = p.actions := by
  cases op with
  | act a => exact absurd rfl (other a)
  | _ => simp [actions, record]

/-- The start of a job is not seen among the actions. -/
theorem actions_start : (p.start e).actions = p.actions := by
  unfold start
  split
  · exact actions_record fun a => by simp
  · rfl

/-- The last turn of a loop. -/
theorem exec_loop_zero (p : Pool α) (i : Nat) (fresh : Bool) (action : Nat → α) (round : Nat) :
    (p.exec ⟨i, fresh, .loop action round 0⟩).now = p.now ∧
      (p.exec ⟨i, fresh, .loop action round 0⟩).later = p.later ∧
      (p.exec ⟨i, fresh, .loop action round 0⟩).actions = p.actions ∧
      (p.exec ⟨i, fresh, .loop action round 0⟩).rounds = p.rounds := by
  have rest := start_rest (p := p) (e := ⟨i, fresh, .loop action round 0⟩)
  refine ⟨rest.1, rest.2.1, ?_, rest.2.2.2⟩
  exact (actions_record fun a => by simp).trans actions_start

/-- Every other turn of a loop. -/
theorem exec_loop_succ (p : Pool α) (i : Nat) (fresh : Bool) (action : Nat → α) (round k : Nat) :
    (p.exec ⟨i, fresh, .loop action round (k + 1)⟩).now = p.now ∧
      (p.exec ⟨i, fresh, .loop action round (k + 1)⟩).later =
        p.later ++ [⟨i, false, .loop action (round + 1) k⟩] ∧
      (p.exec ⟨i, fresh, .loop action round (k + 1)⟩).actions =
        p.actions ++ [(i, action round)] ∧
      (p.exec ⟨i, fresh, .loop action round (k + 1)⟩).rounds = p.rounds := by
  have rest := start_rest (p := p) (e := ⟨i, fresh, .loop action round (k + 1)⟩)
  have same := actions_start (p := p) (e := ⟨i, fresh, .loop action round (k + 1)⟩)
  refine ⟨rest.1, ?_, ?_, rest.2.2.2⟩
  · show (start p _).later ++ _ = _
    rw [rest.2.1]
  · rw [← same]
    simp [exec, run, wait, record, actions, Job.loop]

/-- In a round every loop that is left acts once, and those that have rounds left wait. -/
theorem loops_round (now : p.now = loops action round ks) :
    ∃ q, Reaches p q ∧ q.now = [] ∧ q.later = p.later ++ loops action (round + 1) ks ∧
      q.actions = p.actions ++ acting action ks (round + 1) ∧ q.rounds = p.rounds := by
  induction ks generalizing p with
  | nil => exact ⟨p, .refl, now, by simp [loops], by simp [acting], rfl⟩
  | cons x ks ih =>
    by_cases left : round ≤ x.1
    · have first : p.now = ⟨x.2, round = 0, .loop action (round + 1) (x.1 - round)⟩ ::
          loops action round ks := by
        rw [now, loops_left left]
      have turned : p.turn = some (({ p with now := loops action round ks } : Pool α).exec
          ⟨x.2, round = 0, .loop action (round + 1) (x.1 - round)⟩) := by
        simp [turn, first]
      cases remaining : x.1 - round with
      | zero =>
        have ends : ¬round + 1 ≤ x.1 := by omega
        rw [remaining] at turned
        have last := exec_loop_zero { p with now := loops action round ks } x.2 (round = 0) action
          (round + 1)
        obtain ⟨q, reaches, done, later, acted, rounds⟩ := ih last.1
        refine ⟨q, .head turned reaches, done, ?_, ?_, rounds.trans last.2.2.2⟩
        · rw [later, last.2.1, loops_ended ends]
        · rw [acted, last.2.2.1, acting_ended ends]
          rfl
      | succ k =>
        have goes : round + 1 ≤ x.1 := by omega
        have fewer : x.1 - (round + 1) = k := by omega
        rw [remaining] at turned
        have more := exec_loop_succ { p with now := loops action round ks } x.2 (round = 0) action
          (round + 1) k
        obtain ⟨q, reaches, done, later, acted, rounds⟩ := ih more.1
        refine ⟨q, .head turned reaches, done, ?_, ?_, rounds.trans more.2.2.2⟩
        · rw [later, more.2.1, loops_left goes, fewer]
          simp
        · rw [acted, more.2.2.1, acting_left goes]
          simp [actions]
    · have ended : ¬round + 1 ≤ x.1 := by omega
      have rest : p.now = loops action round ks := by
        rw [now, loops_ended left]
      obtain ⟨q, reaches, done, later, acted, rounds⟩ := ih rest
      refine ⟨q, reaches, done, ?_, ?_, rounds⟩
      · rw [later, loops_ended ended]
      · rw [acted, acting_ended ended]

/-- Loops finish after one round more than the longest of them has. -/
theorem loops_reach (bounded : ∀ x ∈ ks, x.1 ≤ top) (longest : ∃ x ∈ ks, x.1 = top)
    (started : round ≤ top + 1) (now : p.now = []) (later : p.later = loops action round ks) :
    ∃ q, Reaches p q ∧ q.turn = none ∧ q.rounds = p.rounds + (top + 1 - round) ∧
      q.actions = p.actions ++
        (List.range' (round + 1) (top + 1 - round)).flatMap (acting action ks) := by
  induction left : top + 1 - round generalizing p round with
  | zero =>
    have nobody : loops action round ks = [] := by
      have ended : ks.filter (round ≤ ·.1) = [] := by
        rw [List.filter_eq_nil_iff]
        intro x member
        have short := bounded x member
        simp only [decide_eq_true_eq]
        omega
      rw [loops, ended, List.map_nil]
    exact ⟨p, .refl, turn_none_iff.mpr ⟨now, later.trans nobody⟩, rfl, by simp⟩
  | succ m ih =>
    have waits : p.later ≠ [] := by
      obtain ⟨x, member, same⟩ := longest
      have goes : x ∈ ks.filter (round ≤ ·.1) := by
        rw [List.mem_filter]
        simp only [decide_eq_true_eq]
        exact ⟨member, by omega⟩
      rw [later, loops]
      exact fun none => absurd (List.map_eq_nil_iff.mp none) (List.ne_nil_of_mem goes)
    have turned : p.turn =
        some { p with now := p.later, later := [], rounds := p.rounds + 1 } := by
      unfold turn
      split
      · rename_i first
        rw [now] at first
        cases first
      · rename_i nobody
        exact absurd nobody waits
      · rfl
    obtain ⟨m', first, ended, rest, acted, counted⟩ := loops_round
      (p := { p with now := p.later, later := [], rounds := p.rounds + 1 }) later
    obtain ⟨q, reaches, last, rounds, actions⟩ := ih (by omega) ended rest (by omega)
    refine ⟨q, .head turned (first.trans reaches), last, ?_, ?_⟩
    · rw [rounds, counted]
      show p.rounds + 1 + m = _
      omega
    · rw [actions, acted, List.range'_succ, List.flatMap_cons, ← List.append_assoc]
      rfl

/-- Jobs that are made wait in their order. -/
theorem makes_rest (p : Pool α) (roots : List (Job α)) :
    (roots.foldl make p).now = p.now ∧ (roots.foldl make p).log = p.log ∧
      (roots.foldl make p).rounds = p.rounds ∧
      (roots.foldl make p).made = p.made ++ (roots.zipIdx p.next).map Prod.swap ∧
      (roots.foldl make p).later =
        p.later ++ (roots.zipIdx p.next).map fun x => ⟨x.2, true, x.1⟩ := by
  induction roots generalizing p with
  | nil => simp
  | cons j roots ih =>
    obtain ⟨now, log, rounds, made, later⟩ := ih (p.make j)
    refine ⟨now, log, rounds, made.trans ?_, later.trans ?_⟩
    · simp [make]
    · simp [make]

/-- The longest of some loops is one of them. -/
theorem longest_mem {ks : List Nat} (nonempty : ks ≠ []) : ks.foldr max 0 ∈ ks := by
  induction ks with
  | nil => exact absurd rfl nonempty
  | cons k ks ih =>
    rw [List.foldr_cons]
    by_cases alone : ks = []
    · simp [alone]
    · have inside := ih alone
      rcases Nat.le_total (ks.foldr max 0) k with shorter | longer
      · rw [Nat.max_eq_left shorter]
        exact List.mem_cons_self
      · rw [Nat.max_eq_right longer]
        exact List.mem_cons_of_mem k inside

/-- Before the first round all loops wait and nothing was done. -/
theorem initial_loops (action : Nat → α) (first : Nat) (ks : List Nat) :
    (initial first (ks.map (Job.loop action 1))).now = [] ∧
      (initial first (ks.map (Job.loop action 1))).later = loops action 0 (ks.zipIdx first) ∧
      (initial first (ks.map (Job.loop action 1))).actions = [] ∧
      (initial first (ks.map (Job.loop action 1))).rounds = 0 := by
  obtain ⟨now, log, rounds, _, later⟩ := makes_rest (empty first) (ks.map (Job.loop action 1))
  unfold initial
  refine ⟨now, ?_, ?_, rounds⟩
  · rw [later, List.zipIdx_map, List.map_map]
    simp [empty, loops]
  · rw [actions, log]
    rfl

/-- Loops act once in every round that they have, in the order in which they were made, and the
pool takes one round more than the longest of them. -/
theorem loops_finish (action : Nat → α) (first : Nat) {ks : List Nat} (nonempty : ks ≠ []) :
    ∃ q, Reaches (initial first (ks.map (Job.loop action 1))) q ∧ q.turn = none ∧
      q.rounds = ks.foldr max 0 + 1 ∧
      q.actions = (List.range' 1 (ks.foldr max 0)).flatMap (acting action (ks.zipIdx first)) := by
  obtain ⟨now, later, nothing, began⟩ := initial_loops action first ks
  have bounded : ∀ x ∈ ks.zipIdx first, x.1 ≤ ks.foldr max 0 := fun x member =>
    List.le_max_of_le' 0 (List.fst_mem_of_mem_zipIdx member) (Nat.le_refl _)
  have longest : ∃ x ∈ ks.zipIdx first, x.1 = ks.foldr max 0 := by
    have inside : ks.foldr max 0 ∈ (ks.zipIdx first).map Prod.fst := by
      rw [List.zipIdx_map_fst]
      exact longest_mem nonempty
    exact List.mem_map.mp inside
  obtain ⟨q, reaches, last, counted, acted⟩ :=
    loops_reach bounded longest (Nat.zero_le _) now later
  have silent : acting action (ks.zipIdx first) (ks.foldr max 0 + 1) = [] := by
    have ended : (ks.zipIdx first).filter (ks.foldr max 0 + 1 ≤ ·.1) = [] := by
      rw [List.filter_eq_nil_iff]
      intro x member
      have short := bounded x member
      simp only [decide_eq_true_eq]
      omega
    rw [acting, ended, List.map_nil]
  refine ⟨q, reaches, last, ?_, ?_⟩
  · rw [counted, began]
    omega
  · rw [acted, nothing, Nat.sub_zero, List.range'_1_concat, List.flatMap_append,
      List.flatMap_singleton, Nat.add_comm 1, silent, List.append_nil, List.nil_append]

end Pool

end Rounds
