import Sherry.Verif.Changes

/-!
# What an id names

An id is a slot of the registry. It is handed out by `sherry_spawn`, freed when the actor
returns, and handed out again by a later spawn. The invariant `Named` ties the registry to the
history of spawns and returns: a spawned actor is registered until it returns, and when two
actors were given one id, the first had returned before the second was spawned. So a send
reaches the one actor that was given the id and has not returned, if there is one.
-/

namespace Sherry

variable {φ : Type} {s t : State Seqs φ} {self a b : ActorRef} {e : Event φ} {d : Int}

/-- The entry is a spawn or a return. -/
def Obs.isLife : Obs → Bool
  | .spawned _ _ => true
  | .returned _ => true
  | _ => false

/-- The spawns and returns of a history. -/
def lives (trace : List Obs) : List Obs := trace.filter Obs.isLife

theorem mem_lives {o : Obs} {trace : List Obs} : o ∈ lives trace ↔ o ∈ trace ∧ o.isLife = true :=
  List.mem_filter

/-- What an event does to the registry, and what the history says of it. -/
inductive LifeChange (s t : State Seqs φ) (e : Event φ) : Prop
  | kept (actors : t.actors = s.actors) (main : t.main = s.main)
      (history : lives t.trace = lives s.trace)
  | spawned {fn : φ} (event : e = .spawn fn)
      (actors : t.actors = (regTable s).set (regId s) (some s.nactors)) (main : t.main = s.main)
      (own : (t.actor s.nactors).aid = regId s) (nactors : t.nactors = s.nactors + 1)
      (history : lives t.trace = lives s.trace ++ [.spawned s.nactors (regId s)])
  | returned {self : ActorRef} {i : Nat} (exec : s.executing = some self) (other : self ≠ s.main)
      (found : s.actors[i]? = some (some self)) (actors : t.actors = s.actors.set i none)
      (main : t.main = s.main) (history : lives t.trace = lives s.trace ++ [.returned self])
  | ended (exited : t.exited = true) (alone : ¬s.curractors > 1)

/-- An event changes the registry in one of four ways. -/
theorem Outcome.life_change (outcome : Outcome s e t) : LifeChange s t e := by
  cases outcome with
  | computes => exact .kept rfl rfl rfl
  | spawns =>
    rw [sherrySpawn_eq]
    exact .spawned rfl rfl rfl (by simp) rfl (by simp [lives, Obs.isLife])
  | yields => exact .kept rfl rfl (by simp [park, lives, Obs.isLife])
  | sends =>
    unfold revoke
    split <;> exact .kept rfl rfl (by simp [wake, deliver, lives, Obs.isLife])
  | awaits => exact .kept rfl rfl (by simp [park, lives, Obs.isLife])
  | receives => exact .kept rfl rfl (by simp [taken, lives, Obs.isLife])
  | frees => exact .kept rfl rfl rfl
  | opens => exact .kept rfl rfl (by simp [openedFd, lives, Obs.isLife])
  | opensNone => exact .kept rfl rfl (by simp [State.emit, lives, Obs.isLife])
  | listens => exact .kept rfl rfl (by simp [State.setFd, State.emit, lives, Obs.isLife])
  | listensNot => exact .kept rfl rfl (by simp [State.emit, lives, Obs.isLife])
  | accepts =>
    exact .kept rfl rfl (by simp [State.setFrame, State.setActor, State.emit, lives, Obs.isLife])
  | blocksAccept => exact .kept rfl rfl (by simp [park, lives, Obs.isLife])
  | refused => exact .kept rfl rfl (by simp [State.emit, lives, Obs.isLife])
  | readError _ enters =>
    rcases enters with ⟨_, _, rfl⟩ | ⟨_, _, _, rfl⟩ <;>
      exact .kept rfl rfl (by simp [started, State.setFd, State.setFrame, State.setActor,
        State.emit, lives, Obs.isLife])
  | readBytes _ enters =>
    rcases enters with ⟨_, _, rfl⟩ | ⟨_, _, _, rfl⟩ <;>
      exact .kept rfl rfl (by simp [started, State.setFd, consume, lives, Obs.isLife])
  | blocksRead _ enters =>
    rcases enters with ⟨_, _, rfl⟩ | ⟨_, _, _, rfl⟩ <;>
      exact .kept rfl rfl (by simp [started, State.setFd, park, lives, Obs.isLife])
  | submits => exact .kept rfl rfl (by simp [park, lives, Obs.isLife])
  | closes => exact .kept rfl rfl rfl
  | returns user other found =>
    exact .returned (inUser_iff.mp user).2.1 other found rfl rfl
      (by simp [park, lives, List.filter_cons, Obs.isLife])
  | lingers => exact .kept rfl rfl (by simp [park, lives, Obs.isLife])
  | ends _ _ alone => exact .ended rfl alone
  | begins => exact .kept rfl rfl rfl
  | wrote =>
    exact .kept rfl rfl (by simp [writeTail, State.setFrame, State.setActor, State.emit, lives,
      Obs.isLife])
  | dispatches => exact .kept rfl rfl (by simp [dispatch, lives, Obs.isLife])
  | polls => exact .kept rfl rfl (by simp [lives, Obs.isLife])
  | polled => exact .kept rfl rfl rfl
  | connects => exact .kept rfl rfl rfl
  | fails => exact .kept rfl rfl rfl
  | delivers => exact .kept rfl rfl (by simp [wakeAll, receive, lives, Obs.isLife])
  | writes => exact .kept rfl rfl (by simp [wake, State.emit, lives, Obs.isLife])
  | closed => exact .kept rfl rfl rfl

/-- An id that was given is never changed. -/
theorem Outcome.aid_kept (outcome : Outcome s e t) (old : a ≠ s.nactors) :
    (t.actor a).aid = (s.actor a).aid := by
  cases outcome.actor_change a with
  | kept same => rw [same]
  | proceeds _ same => rw [same]
  | parked _ _ same => rw [same]
  | woken _ same => rw [same]
  | dispatched _ _ same => rw [same]
  | made fresh => exact absurd fresh old

/-- The registry and the history of spawns and returns agree. -/
structure Named (s : State Seqs φ) : Prop where
  /-- Every registered actor but main was spawned under its id. -/
  known : ∀ a, Registered s a → a ≠ s.main → .spawned a (s.actor a).aid ∈ lives s.trace
  /-- A spawned actor has the id it was given, and is not main. -/
  given : ∀ (a : ActorRef) (d : Int), .spawned a d ∈ lives s.trace →
    (s.actor a).aid = d ∧ a < s.nactors ∧ a ≠ s.main
  /-- An id that was given is a slot of the table, and not main's. -/
  inside : ∀ (a : ActorRef) (d : Int), .spawned a d ∈ lives s.trace →
    mainId < d ∧ d < s.actors.length
  /-- A spawned actor is registered until it returns. -/
  gone : ∀ (a : ActorRef) (d : Int), .spawned a d ∈ lives s.trace →
    (.returned a ∈ lives s.trace ↔ ¬Registered s a)
  /-- Only allocated actors returned. -/
  past : ∀ a, .returned a ∈ lives s.trace → a < s.nactors
  /-- An actor whose id is registered to another returned before the other was spawned. -/
  order : ∀ (a b : ActorRef) (d : Int), .spawned a d ∈ lives s.trace →
    .spawned b d ∈ lives s.trace → Registered s b → a ≠ b →
      [.returned a, .spawned b d].Sublist (lives s.trace)

/-- A step that spawns and returns nobody keeps the invariant. -/
theorem named_kept (named : Named s) (outcome : Outcome s e t) (inv : Inv s)
    (actors : t.actors = s.actors) (main : t.main = s.main)
    (history : lives t.trace = lives s.trace) : Named t := by
  have registered : ∀ a, Registered t a ↔ Registered s a := fun a => by
    simp only [Registered, actors]
  constructor
  · intro a held other
    have before := (registered a).mp held
    rw [history, outcome.aid_kept (Nat.ne_of_lt (inv.registry.allocated before))]
    exact named.known a before (main ▸ other)
  · intro a d spawned
    obtain ⟨aid, old, apart⟩ := named.given a d (history ▸ spawned)
    rw [outcome.aid_kept (Nat.ne_of_lt old), main]
    exact ⟨aid, Nat.lt_of_lt_of_le old outcome.counts_le.1, apart⟩
  · intro a d spawned
    rw [actors]
    exact named.inside a d (history ▸ spawned)
  · intro a d spawned
    rw [history, registered]
    exact named.gone a d (history ▸ spawned)
  · intro a returned
    exact Nat.lt_of_lt_of_le (named.past a (history ▸ returned)) outcome.counts_le.1
  · intro a b d first second held apart
    rw [history]
    exact named.order a b d (history ▸ first) (history ▸ second) ((registered b).mp held) apart

/-- The slot that a spawn takes holds no registered actor. -/
theorem regId_free (registry : Registry s) (held : Registered s a) : (s.actor a).aid ≠ regId s := by
  intro same
  obtain ⟨i, found, aid, _⟩ := registry.at_id held
  have slot : i = regId s := by omega
  subst slot
  have free := registry.regTable_free
  rw [registry.regTable_some.mpr found] at free
  cases free

/-- Spawning an actor keeps the invariant. -/
theorem named_spawned (named : Named s) (outcome : Outcome s e t) (inv : Inv s)
    (actors : t.actors = (regTable s).set (regId s) (some s.nactors)) (main : t.main = s.main)
    (own : (t.actor s.nactors).aid = regId s) (nactors : t.nactors = s.nactors + 1)
    (history : lives t.trace = lives s.trace ++ [.spawned s.nactors (regId s)]) : Named t := by
  have registered : ∀ b, Registered t b ↔ b = s.nactors ∨ Registered s b := fun _ =>
    inv.registry.registered_entered actors
  have taken : regId s < (regTable s).length :=
    (List.getElem?_eq_some_iff.mp inv.registry.regTable_free).1
  have grown : s.actors.length ≤ (regTable s).length := by
    rw [inv.registry.regTable_length, inv.registry.size]
    split <;> omega
  have length : t.actors.length = (regTable s).length := by rw [actors, List.length_set]
  have spawns : ∀ (a : ActorRef) (d : Int), .spawned a d ∈ lives t.trace →
      .spawned a d ∈ lives s.trace ∨ a = s.nactors ∧ d = regId s := by
    intro a d spawned
    rw [history] at spawned
    simpa using spawned
  have returns : ∀ a, .returned a ∈ lives t.trace ↔ .returned a ∈ lives s.trace := by
    intro a
    simp [history]
  have old : ∀ {a d}, .spawned a d ∈ lives s.trace → a ≠ s.nactors := fun spawned =>
    Nat.ne_of_lt (named.given _ _ spawned).2.1
  constructor
  · intro a held other
    rw [history]
    by_cases new : a = s.nactors
    · subst new
      rw [own]
      exact List.mem_append_right _ List.mem_cons_self
    · have before : Registered s a := ((registered a).mp held).resolve_left new
      rw [outcome.aid_kept new]
      exact List.mem_append_left _ (named.known a before (main ▸ other))
  · intro a d spawned
    rw [main, nactors]
    rcases spawns a d spawned with before | ⟨rfl, rfl⟩
    · obtain ⟨aid, below, apart⟩ := named.given a d before
      rw [outcome.aid_kept (old before)]
      exact ⟨aid, Nat.lt_succ_of_lt below, apart⟩
    · have below := inv.registry.allocated inv.registry.main_registered
      exact ⟨own, Nat.lt_succ_self _, Nat.ne_of_gt below⟩
  · intro a d spawned
    rw [length]
    rcases spawns a d spawned with before | ⟨rfl, rfl⟩
    · have inside := named.inside a d before
      omega
    · have main : (s.actor s.main).aid = 0 := (inv.registry.slots 0 _ inv.registry.main).2
      have free := regId_free inv.registry inv.registry.main_registered
      unfold mainId
      omega
  · intro a d spawned
    rw [returns, registered]
    rcases spawns a d spawned with before | ⟨rfl, rfl⟩
    · rw [named.gone a d before, or_iff_right (old before)]
    · refine iff_of_false (fun returned => ?_) (not_not_intro (.inl rfl))
      exact Nat.lt_irrefl _ (named.past _ returned)
  · intro a returned
    rw [nactors]
    exact Nat.lt_succ_of_lt (named.past a ((returns a).mp returned))
  · intro a b d first second held apart
    have unregistered : ∀ {c}, .spawned c (regId s) ∈ lives s.trace → ¬Registered s c :=
      fun spawned holds => regId_free inv.registry holds (named.given _ _ spawned).1
    rw [history]
    rcases spawns b d second with before | ⟨rfl, rfl⟩
    · have holds : Registered s b := ((registered b).mp held).resolve_left (old before)
      rcases spawns a d first with earlier | ⟨rfl, rfl⟩
      · exact (named.order a b d earlier before holds apart).trans (List.sublist_append_left _ _)
      · exact absurd holds (unregistered before)
    · rcases spawns a _ first with earlier | ⟨rfl, _⟩
      · have returned := (named.gone a _ earlier).mpr (unregistered earlier)
        exact (List.singleton_sublist.mpr returned).append (List.Sublist.refl _)
      · exact absurd rfl apart

/-- The return of an actor keeps the invariant. -/
theorem named_returned (named : Named s) (outcome : Outcome s e t) (inv : Inv s) {i : Nat}
    (found : s.actors[i]? = some (some self)) (actors : t.actors = s.actors.set i none)
    (main : t.main = s.main) (history : lives t.trace = lives s.trace ++ [.returned self]) :
    Named t := by
  have leaving : Registered s self := List.mem_of_getElem? found
  have registered : ∀ b, Registered t b ↔ Registered s b ∧ b ≠ self := fun _ =>
    inv.registry.registered_left found actors
  have spawns : ∀ a d, .spawned a d ∈ lives t.trace ↔ .spawned a d ∈ lives s.trace := by
    intro a d
    simp [history]
  have returns : ∀ a, .returned a ∈ lives t.trace ↔ .returned a ∈ lives s.trace ∨ a = self := by
    intro a
    simp [history]
  constructor
  · intro a held other
    obtain ⟨before, _⟩ := (registered a).mp held
    rw [outcome.aid_kept (Nat.ne_of_lt (inv.registry.allocated before)), spawns]
    exact named.known a before (main ▸ other)
  · intro a d spawned
    obtain ⟨aid, below, apart⟩ := named.given a d ((spawns a d).mp spawned)
    rw [outcome.aid_kept (Nat.ne_of_lt below), main]
    exact ⟨aid, Nat.lt_of_lt_of_le below outcome.counts_le.1, apart⟩
  · intro a d spawned
    rw [actors, List.length_set]
    exact named.inside a d ((spawns a d).mp spawned)
  · intro a d spawned
    rw [returns, registered, named.gone a d ((spawns a d).mp spawned), not_and_or, not_ne_iff]
  · intro a returned
    refine Nat.lt_of_lt_of_le ?_ outcome.counts_le.1
    rcases (returns a).mp returned with before | rfl
    · exact named.past a before
    · exact inv.registry.allocated leaving
  · intro a b d first second held apart
    rw [history]
    have before := ((registered b).mp held).1
    exact (named.order a b d ((spawns a d).mp first) ((spawns b d).mp second) before apart).trans
      (List.sublist_append_left _ _)

/-- Every step before the end keeps the invariant. -/
theorem named_step (inv : Inv s) (named : Named s) (happened : step s e = .ok t)
    (live : t.exited = false) : Named t := by
  have outcome := step_outcome inv happened
  cases outcome.life_change with
  | kept actors main history => exact named_kept named outcome inv actors main history
  | spawned _ actors main own nactors history =>
    exact named_spawned named outcome inv actors main own nactors history
  | returned _ _ found actors main history =>
    exact named_returned named outcome inv found actors main history
  | ended exited _ => cases live.symm.trans exited

/-- In every state of a run before its end the invariant holds. -/
theorem run_named {es : List (Event φ)}
    (ran : Machine.run step (sherryInit : State Seqs φ) es = .ok s) (live : s.exited = false) :
    Named s := by
  have start : (sherryInit : State Seqs φ).exited = false → Named (sherryInit : State Seqs φ) := by
    intro _
    have registered : ∀ b, Registered (sherryInit : State Seqs φ) b → b = 0 := by
      intro b held
      obtain ⟨i, found⟩ := List.mem_iff_getElem?.mp held
      rw [sherryInit_eq, List.getElem?_set] at found
      split at found
      · have here : 0 < initialSize ∧ b = 0 := by simpa [eq_comm] using found
        exact here.2
      · simp [List.getElem?_replicate] at found
    have main : (sherryInit : State Seqs φ).main = 0 := by rw [sherryInit_eq]
    have history : lives (sherryInit : State Seqs φ).trace = [] := by
      rw [sherryInit_eq]
      simp [lives, Obs.isLife]
    constructor
    · exact fun a held other => absurd ((registered a held).trans main.symm) other
    all_goals simp [history]
  have kept : ∀ {s : State Seqs φ} {e : Event φ} {t : State Seqs φ}, Inv s →
      (s.exited = false → Named s) → step s e = .ok t → t.exited = false → Named t :=
    fun inv named happened live => named_step inv (named (step_live happened)) happened live
  have finish : s.exited = false → Named s := run_all start kept ran
  exact finish live

/-- A registered actor was spawned under its id and has not returned, or is main. -/
theorem slot_holder (inv : Inv s) (named : Named s) (inside : 0 ≤ d)
    (slot : s.slot d.toNat = some a) :
    a = s.main ∧ d = mainId ∨ .spawned a d ∈ s.trace ∧ .returned a ∉ s.trace := by
  have found := Registry.slot_iff.mp slot
  have held : Registered s a := List.mem_of_getElem? found
  have aid : (s.actor a).aid = d := by
    rw [(inv.registry.slots _ a found).2]
    omega
  by_cases main : a = s.main
  · refine .inl ⟨main, ?_⟩
    rw [← aid, main]
    exact (inv.registry.slots 0 _ inv.registry.main).2
  · have spawned := named.known a held main
    rw [aid] at spawned
    refine .inr ⟨(mem_lives.mp spawned).1, fun returned => ?_⟩
    exact (named.gone a d spawned).mp (mem_lives.mpr ⟨returned, rfl⟩) held

/-- An actor that was spawned under an id and has not returned holds its slot. -/
theorem holder_slot (inv : Inv s) (named : Named s) (spawned : .spawned a d ∈ s.trace)
    (stays : .returned a ∉ s.trace) : s.slot d.toNat = some a := by
  have spawned' : .spawned a d ∈ lives s.trace := mem_lives.mpr ⟨spawned, rfl⟩
  have held : Registered s a := by
    by_contra gone
    exact stays (mem_lives.mp ((named.gone a d spawned').mpr gone)).1
  obtain ⟨i, found, aid, _⟩ := inv.registry.at_id held
  have slot : d.toNat = i := by
    have given := (named.given a d spawned').1
    omega
  rw [slot]
  exact Registry.slot_iff.mpr found

/-- A message sent to an id that a spawn returned for an actor goes to that actor's mailbox and
no other while the actor has not returned. Afterwards it goes to another actor's mailbox only,
one that a spawn after that return was given the same id for. -/
theorem send_identity {es : List (Event φ)} {msgtype : Int} {payload : Sds}
    (ran : Machine.run step (sherryInit : State Seqs φ) es = .ok s)
    (spawned : .spawned a d ∈ s.trace) (sent : step s (.send d msgtype payload) = .ok t) :
    ∃ recver,
      (∀ b, t.mail.seq b = s.mail.seq b ++ if b = recver then [s.nmsgs] else []) ∧
        (.returned a ∉ s.trace → recver = a) ∧
        (.returned a ∈ s.trace →
          recver ≠ a ∧ [.returned a, .spawned recver d].Sublist s.trace) := by
  have live := step_live sent
  have inv := inv_run ran live
  have named := run_named ran live
  have spawned' : .spawned a d ∈ lives s.trace := mem_lives.mpr ⟨spawned, rfl⟩
  obtain ⟨self, _, done⟩ := call_ok.mp sent
  obtain ⟨inside, _, recver, slot, rfl⟩ := sherryMsgSend_ok.mp done
  have apart : recver = s.main → d ≠ mainId := fun _ same => by
    have above := (named.inside a d spawned').1
    omega
  have holder := (slot_holder inv named inside slot).resolve_left fun both =>
    apart both.1 both.2
  refine ⟨recver, fun b => ?_, fun stays => ?_, fun returned => ?_⟩
  · have mail : (revoke (deliver s self recver (msgFor s recver msgtype payload)) recver).mail =
        s.mail.set recver (s.mail.seq recver ++ [s.nmsgs]) := by
      unfold revoke
      split <;> rfl
    rw [mail, Seqs.set_seq]
    split
    · rename_i here
      rw [here]
    · simp
  · have own := holder_slot inv named spawned stays
    exact Option.some.inj (slot.symm.trans own)
  · have other : recver ≠ a := fun same => holder.2 (same ▸ returned)
    have held : Registered s recver := List.mem_of_getElem? (Registry.slot_iff.mp slot)
    refine ⟨other, ?_⟩
    exact (named.order a recver d spawned' (mem_lives.mpr ⟨holder.1, rfl⟩) held
      other.symm).trans List.filter_sublist

/-- Actor 1 has returned, and main executes. -/
def goneRun : List (Event Unit) := [.spawn (), .yield, .schdule, .resume 0, .ret, .schdule]

/-- After another spawn the id of actor 1 names the new actor. -/
theorem send_identity_reused :
    ∃ s t, Machine.run step (sherryInit : State Seqs Unit) (goneRun ++ [.spawn ()]) = .ok s ∧
      step s (.send 1 5 none) = .ok t ∧
        ∃ recver, (∀ b, t.mail.seq b = s.mail.seq b ++ if b = recver then [s.nmsgs] else []) ∧
          recver ≠ 1 ∧ [.returned 1, .spawned recver 1].Sublist s.trace := by
  obtain ⟨s, ran, ⟨spawned, returned⟩, t, sent, _⟩ :
      ∃ s, Machine.run step (sherryInit : State Seqs Unit) (goneRun ++ [.spawn ()]) = .ok s ∧
        (.spawned 1 1 ∈ s.trace ∧ .returned 1 ∈ s.trace) ∧
          ∃ t, step s (.send 1 5 none) = .ok t ∧ True := by
    decide +kernel
  obtain ⟨recver, mail, _, reused⟩ := send_identity ran spawned sent
  exact ⟨s, t, ran, sent, recver, mail, reused returned⟩

/-- A message to the id that was returned for actor 1 reaches the mailbox of actor 2. -/
theorem reused_id_misdelivers :
    ∃ s, Machine.run step (sherryInit : State Seqs Unit) (goneRun ++ [.spawn ()]) = .ok s ∧
      .spawned 1 1 ∈ s.trace ∧
        ∃ t, step s (.send 1 5 none) = .ok t ∧ s.mail.seq 2 = [] ∧ t.mail.seq 2 = [0] := by
  decide +kernel

/-- A send to any id handed out reads a slot of the table, and it dereferences no `NULL`
exactly when the id is main's or some actor that was given it has not returned. -/
theorem send_safe_iff {es : List (Event φ)} {msgtype : Int} {payload : Sds}
    (ran : Machine.run step (sherryInit : State Seqs φ) es = .ok s)
    (user : s.inUser = some self)
    (handed : d = mainId ∨ ∃ a, .spawned a d ∈ s.trace) :
    step s (.send d msgtype payload) ≠ .error .outOfBounds ∧
      (step s (.send d msgtype payload) ≠ .error .nullDeref ↔
        d = mainId ∨ ∃ a, .spawned a d ∈ s.trace ∧ .returned a ∉ s.trace) := by
  have live := (inUser_iff.mp user).1
  have inv := inv_run ran live
  have named := run_named ran live
  have calls : step s (.send d msgtype payload) = sherryMsgSend s self d msgtype payload := by
    simp [step, call, user]
  have inside : 0 ≤ d ∧ d < s.actors.length := by
    rcases handed with rfl | ⟨b, spawned⟩
    · have positive := inv.registry.positive
      have size := inv.registry.size
      unfold mainId
      omega
    · have slot := named.inside b d (mem_lives.mpr ⟨spawned, rfl⟩)
      unfold mainId at slot
      omega
  have within : ¬(d < 0 ∨ d ≥ s.actors.length) := by omega
  have safe : (s.slot d.toNat).isSome ↔
      d = mainId ∨ ∃ a, .spawned a d ∈ s.trace ∧ .returned a ∉ s.trace := by
    constructor
    · intro held
      obtain ⟨b, slot⟩ := Option.isSome_iff_exists.mp held
      rcases slot_holder inv named inside.1 slot with ⟨_, main⟩ | holder
      · exact .inl main
      · exact .inr ⟨b, holder⟩
    · rintro (rfl | ⟨b, spawned, stays⟩)
      · have slot : s.slot 0 = some s.main := Registry.slot_iff.mpr inv.registry.main
        simp [mainId, slot]
      · rw [holder_slot inv named spawned stays]
        rfl
  rw [calls, ← safe]
  unfold sherryMsgSend
  rw [if_neg within]
  cases s.slot d.toNat with
  | none => simp
  | some recver =>
    simp only [Option.isSome_some, iff_true]
    split <;> simp

/-- A send to the id of actor 1 is safe again once another spawn has been given it. -/
theorem send_safe_respawned :
    ∃ s, Machine.run step (sherryInit : State Seqs Unit) (goneRun ++ [.spawn ()]) = .ok s ∧
      step s (.send 1 5 none) ≠ .error .outOfBounds ∧
        step s (.send 1 5 none) ≠ .error .nullDeref := by
  obtain ⟨s, ran, user, first, second, stays⟩ :
      ∃ s, Machine.run step (sherryInit : State Seqs Unit) (goneRun ++ [.spawn ()]) = .ok s ∧
        s.inUser = some 0 ∧ .spawned 1 1 ∈ s.trace ∧ .spawned 2 1 ∈ s.trace ∧
          .returned 2 ∉ s.trace := by
    decide +kernel
  have safe : step s (.send 1 5 none) ≠ .error .outOfBounds ∧
      (step s (.send 1 5 none) ≠ .error .nullDeref ↔ _) :=
    send_safe_iff ran user (.inr ⟨1, first⟩)
  exact ⟨s, ran, safe.1, safe.2.mpr (.inr ⟨2, second, stays⟩)⟩

/-- A send to the id of an actor that has returned dereferences `NULL`. -/
theorem gone_id_dereferences :
    ∃ s, Machine.run step (sherryInit : State Seqs Unit) goneRun = .ok s ∧
      .spawned 1 1 ∈ s.trace ∧ s.inUser = some 0 ∧
        step s (.send 1 5 none) = .error .nullDeref := by
  decide +kernel

end Sherry
