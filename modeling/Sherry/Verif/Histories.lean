import Sherry.Library.ActorMachine
import Sherry.Verif.Identity
import Sherry.Verif.Mail

/-!
# The library as a system of actors

What the callers of `sherry_spawn`, `sherry_msg_send` and `sherry_msg_recv` see of a run is a
history of actors with mailboxes. Below it are a table of slots that is searched and doubled,
intrusive lists, statuses and context switches; here is the statement that none of it shows.
-/

namespace Sherry

variable {φ : Type} {s t : State Seqs φ} {self a : ActorRef} {e : Event φ}

/-- A message as a letter. -/
def letterOf (msg : SherryMsg) : Letter Int (Int × Sds) where
  source := msg.sender
  target := msg.recver
  body := (msg.msgtype, msg.payload)

/-- An entry of the history as something that an actor does. -/
def actionOf : Obs → Option (ActorStep ActorRef Int (Int × Sds))
  | .spawned a id => some (.spawn a id)
  | .returned a => some (.finish a)
  | .sent self recver msg => some (.send self recver (letterOf msg))
  | .received a (some msg) => some (.receive a (letterOf msg))
  | _ => none

/-- What the actors do in a history. -/
def actions (trace : List Obs) : List (ActorStep ActorRef Int (Int × Sds)) :=
  trace.filterMap actionOf

/-- The actors of a system are those of the state: the registered ones live under their ids, and
what waits for each is its mailbox. -/
structure Portrays (s : State Seqs φ) (w : Actors ActorRef Int (Int × Sds)) : Prop where
  /-- The registered actors live. -/
  named : ∀ a, Registered s a → w.id a = some (s.actor a).aid
  /-- The others do not. -/
  gone : ∀ a, ¬Registered s a → w.id a = none
  /-- Every structure was made for an actor that was born. -/
  born : ∀ a, a ∈ w.born ↔ a < s.nactors
  /-- What waits is what is in the mailboxes. -/
  boxes : ∀ a, w.box a = (mailbox s a).map letterOf

/-- What an event adds to the history of the actors, and what it does to the actors themselves. -/
inductive ActChange (s t : State Seqs φ) (e : Event φ) : Prop
  | quiet (actors : t.actors = s.actors) (nactors : t.nactors = s.nactors)
      (mail : t.mail = s.mail) (msg : t.msg = s.msg) (same : actions t.trace = actions s.trace)
  | spawned (registered : ∀ b, Registered t b ↔ b = s.nactors ∨ Registered s b)
      (own : (t.actor s.nactors).aid = regId s) (nactors : t.nactors = s.nactors + 1)
      (mail : t.mail = s.mail.set s.nactors []) (msg : t.msg = s.msg)
      (more : actions t.trace = actions s.trace ++ [.spawn s.nactors (regId s)])
  | returned {self : ActorRef} (exec : s.executing = some self)
      (registered : ∀ b, Registered t b ↔ Registered s b ∧ b ≠ self)
      (nactors : t.nactors = s.nactors) (mail : t.mail = s.mail) (msg : t.msg = s.msg)
      (more : actions t.trace = actions s.trace ++ [.finish self])
  | sent {self recver : ActorRef} {msg : SherryMsg} (exec : s.executing = some self)
      (slot : Registered s recver) (sender : msg.sender = (s.actor self).aid)
      (receiver : msg.recver = (s.actor recver).aid) (actors : t.actors = s.actors)
      (nactors : t.nactors = s.nactors)
      (mail : t.mail = s.mail.set recver (s.mail.seq recver ++ [s.nmsgs]))
      (msgs : t.msg = Function.update s.msg s.nmsgs msg)
      (more : actions t.trace = actions s.trace ++ [.send self recver (letterOf msg)])
  | received {self : ActorRef} {m : MsgRef} {rest : List MsgRef} (exec : s.executing = some self)
      (box : s.mail.seq self = m :: rest) (actors : t.actors = s.actors)
      (nactors : t.nactors = s.nactors) (mail : t.mail = s.mail.set self rest)
      (msg : t.msg = s.msg)
      (more : actions t.trace = actions s.trace ++ [.receive self (letterOf (s.msg m))])
  | ended (exited : t.exited = true) (same : actions t.trace = actions s.trace)

/-- An event does one of these things. -/
theorem Outcome.act_change (outcome : Outcome s e t) (inv : Inv s) (mailed : Mailed s) :
    ActChange s t e := by
  cases outcome with
  | computes => exact .quiet rfl rfl rfl rfl rfl
  | spawns =>
    rw [sherrySpawn_eq]
    have more : ∀ owner ctx, actions (s.trace ++ [.made owner ctx, .spawned s.nactors (regId s)]) =
        actions s.trace ++ [.spawn s.nactors (regId s)] := fun _ _ => List.filterMap_append
    exact .spawned (fun _ => inv.registry.registered_entered rfl) (by simp) rfl rfl rfl (more _ _)
  | yields => exact .quiet rfl rfl rfl rfl (by simp [park, actions, actionOf])
  | @sends self recver dst msgtype payload user _ slot =>
    have exec := (inUser_iff.mp user).2.1
    have current := (inv.placed.current self exec).1
    have held : Registered s recver := List.mem_of_getElem? (Registry.slot_iff.mp slot)
    have sender : (msgFor s recver msgtype payload).sender = (s.actor self).aid := by
      rw [msgFor, current]
    unfold revoke
    split <;>
      exact .sent exec held sender rfl rfl rfl rfl rfl (by simp [wake, deliver, actions, actionOf])
  | awaits => exact .quiet rfl rfl rfl rfl (by simp [park, actions, actionOf])
  | @receives e self exec enters =>
    have either : (e = .recv ∧ s.mail.seq self ≠ []) ∨
        ∃ err, e = .resume err ∧ (s.actor self).frame = .recv self := by
      rcases enters with ⟨event, _, filled⟩ | resumed
      · exact .inl ⟨event, filled⟩
      · exact .inr resumed
    obtain ⟨m, rest, box⟩ := List.exists_cons_of_ne_nil (taken_filled inv mailed exec either)
    exact .received exec box rfl rfl (by simp [taken, box]) rfl
      (by simp [taken, box, actions, actionOf])
  | frees => exact .quiet rfl rfl rfl rfl rfl
  | opens => exact .quiet rfl rfl rfl rfl (by simp [openedFd, actions, actionOf])
  | opensNone => exact .quiet rfl rfl rfl rfl (by simp [State.emit, actions, actionOf])
  | listens =>
    exact .quiet rfl rfl rfl rfl (by simp [State.setFd, State.emit, actions, actionOf])
  | listensNot => exact .quiet rfl rfl rfl rfl (by simp [State.emit, actions, actionOf])
  | accepts =>
    exact .quiet rfl rfl rfl rfl
      (by simp [State.setFrame, State.setActor, State.emit, actions, actionOf])
  | blocksAccept => exact .quiet rfl rfl rfl rfl (by simp [park, actions, actionOf])
  | refused => exact .quiet rfl rfl rfl rfl (by simp [State.emit, actions, actionOf])
  | readError _ enters =>
    rcases enters with ⟨_, _, rfl⟩ | ⟨_, _, _, rfl⟩ <;>
      exact .quiet rfl rfl rfl rfl (by simp [started, State.setFd, State.setFrame, State.setActor,
        State.emit, actions, actionOf])
  | readBytes _ enters =>
    rcases enters with ⟨_, _, rfl⟩ | ⟨_, _, _, rfl⟩ <;>
      exact .quiet rfl rfl rfl rfl (by simp [started, State.setFd, consume, actions, actionOf])
  | blocksRead _ enters =>
    rcases enters with ⟨_, _, rfl⟩ | ⟨_, _, _, rfl⟩ <;>
      exact .quiet rfl rfl rfl rfl (by simp [started, State.setFd, park, actions, actionOf])
  | submits => exact .quiet rfl rfl rfl rfl (by simp [park, actions, actionOf])
  | closes => exact .quiet rfl rfl rfl rfl rfl
  | @returns self i user _ found =>
    exact .returned (inUser_iff.mp user).2.1 (fun _ => inv.registry.registered_left found rfl) rfl
      rfl rfl (by simp [park, actions, actionOf])
  | lingers => exact .quiet rfl rfl rfl rfl (by simp [park, actions, actionOf])
  | ends => exact .ended rfl rfl
  | begins => exact .quiet rfl rfl rfl rfl rfl
  | wrote =>
    exact .quiet rfl rfl rfl rfl (by simp [writeTail, State.setFrame, State.setActor, State.emit,
      actions, actionOf])
  | dispatches => exact .quiet rfl rfl rfl rfl (by simp [dispatch, actions, actionOf])
  | polls => exact .quiet rfl rfl rfl rfl (by simp [actions, actionOf])
  | polled => exact .quiet rfl rfl rfl rfl rfl
  | connects => exact .quiet rfl rfl rfl rfl rfl
  | fails => exact .quiet rfl rfl rfl rfl rfl
  | delivers => exact .quiet rfl rfl rfl rfl (by simp [wakeAll, receive, actions, actionOf])
  | writes => exact .quiet rfl rfl rfl rfl (by simp [wake, State.emit, actions, actionOf])
  | closed => exact .quiet rfl rfl rfl rfl rfl

namespace Portrays

variable {w : Actors ActorRef Int (Int × Sds)}

/-- The executing actor lives. -/
theorem executing (portrays : Portrays s w) (inv : Inv s) (exec : s.executing = some self) :
    w.id self = some (s.actor self).aid :=
  portrays.named self (inv.placed.executing exec).1

/-- Actors that stay as they are registered keep their ids. -/
theorem keeps (portrays : Portrays s w) (outcome : Outcome s e t) (inv : Inv s)
    (held : Registered s a) : w.id a = some (t.actor a).aid := by
  rw [outcome.aid_kept (Nat.ne_of_lt (inv.registry.allocated held))]
  exact portrays.named a held

/-- A step that the actors do not see. -/
theorem quiet (portrays : Portrays s w) (outcome : Outcome s e t) (inv : Inv s)
    (actors : t.actors = s.actors) (nactors : t.nactors = s.nactors) (mail : t.mail = s.mail)
    (msg : t.msg = s.msg) : Portrays t w := by
  have registered : ∀ b, Registered t b ↔ Registered s b := fun b => by
    simp only [Registered, actors]
  refine ⟨fun a held => ?_, fun a out => ?_, fun a => ?_, fun a => ?_⟩
  · exact portrays.keeps outcome inv ((registered a).mp held)
  · exact portrays.gone a fun held => out ((registered a).mpr held)
  · rw [nactors]
    exact portrays.born a
  · rw [mailbox, mail, msg]
    exact portrays.boxes a

/-- An actor is spawned. -/
theorem spawned (portrays : Portrays s w) (outcome : Outcome s e t) (inv : Inv s)
    (registered : ∀ b, Registered t b ↔ b = s.nactors ∨ Registered s b)
    (own : (t.actor s.nactors).aid = regId s) (nactors : t.nactors = s.nactors + 1)
    (mail : t.mail = s.mail.set s.nactors []) (msg : t.msg = s.msg) (mailed : Mailed s) :
    ∃ v, Actors.step w (.spawn s.nactors (regId s)) = .ok v ∧ Portrays t v := by
  have new : s.nactors ∉ w.born := fun old => Nat.lt_irrefl _ ((portrays.born _).mp old)
  have free : ∀ b ∈ w.born, w.id b ≠ some (regId s : Int) := by
    intro b _ named
    by_cases held : Registered s b
    · rw [portrays.named b held] at named
      exact regId_free inv.registry held (Option.some.inj named)
    · rw [portrays.gone b held] at named
      cases named
  refine ⟨_, Actors.step_ok.mpr ⟨⟨new, free⟩, rfl⟩, fun a held => ?_, fun a out => ?_, fun a => ?_,
    fun a => ?_⟩
  · by_cases here : a = s.nactors
    · subst here
      simp only [Function.update_self, own]
    · simp only [Function.update_of_ne here]
      exact portrays.keeps outcome inv (((registered a).mp held).resolve_left here)
  · have other : a ≠ s.nactors := fun here => out ((registered a).mpr (.inl here))
    simp only [Function.update_of_ne other]
    exact portrays.gone a fun held => out ((registered a).mpr (.inr held))
  · rw [List.mem_cons, portrays.born a, nactors]
    exact or_comm.trans Nat.lt_succ_iff_lt_or_eq.symm
  · have same : t.mail.seq a = s.mail.seq a := by
      by_cases here : a = s.nactors
      · simp [mail, here, mailed.fresh s.nactors (Nat.le_refl _)]
      · simp [mail, here]
    rw [mailbox, same, msg]
    exact portrays.boxes a

/-- The function of an actor returns. -/
theorem returned (portrays : Portrays s w) (outcome : Outcome s e t) (inv : Inv s)
    (exec : s.executing = some self)
    (registered : ∀ b, Registered t b ↔ Registered s b ∧ b ≠ self)
    (nactors : t.nactors = s.nactors) (mail : t.mail = s.mail) (msg : t.msg = s.msg) :
    ∃ v, Actors.step w (.finish self) = .ok v ∧ Portrays t v := by
  have alive : w.id self ≠ none := by
    rw [portrays.executing inv exec]
    nofun
  refine ⟨_, Actors.step_ok.mpr ⟨alive, rfl⟩, fun a held => ?_, fun a out => ?_, fun a => ?_,
    fun a => ?_⟩
  · obtain ⟨before, other⟩ := (registered a).mp held
    simp only [Function.update_of_ne other]
    exact portrays.keeps outcome inv before
  · by_cases here : a = self
    · subst here
      simp only [Function.update_self]
    · simp only [Function.update_of_ne here]
      exact portrays.gone a fun held => out ((registered a).mpr ⟨held, here⟩)
  · rw [nactors]
    exact portrays.born a
  · rw [mailbox, mail, msg]
    exact portrays.boxes a

/-- A message is sent. -/
theorem sent {recver : ActorRef} {m : SherryMsg} (portrays : Portrays s w)
    (outcome : Outcome s e t) (inv : Inv s) (mailed : Mailed s) (exec : s.executing = some self)
    (held : Registered s recver) (sender : m.sender = (s.actor self).aid)
    (receiver : m.recver = (s.actor recver).aid) (actors : t.actors = s.actors)
    (nactors : t.nactors = s.nactors)
    (mail : t.mail = s.mail.set recver (s.mail.seq recver ++ [s.nmsgs]))
    (msgs : t.msg = Function.update s.msg s.nmsgs m) :
    ∃ v, Actors.step w (.send self recver (letterOf m)) = .ok v ∧ Portrays t v := by
  have source : w.id self = some (letterOf m).source := by
    rw [portrays.executing inv exec, ← sender]
    rfl
  have target : w.id recver = some (letterOf m).target := by
    rw [portrays.named recver held, ← receiver]
    rfl
  have old : ∀ a, (s.mail.seq a).map t.msg = mailbox s a := by
    intro a
    refine List.map_congr_left fun n member => ?_
    have below := mailed.below a n member
    simp [msgs, Nat.ne_of_lt below]
  have registered : ∀ b, Registered t b ↔ Registered s b := fun b => by
    simp only [Registered, actors]
  refine ⟨_, Actors.step_ok.mpr ⟨⟨source, target⟩, rfl⟩, fun a held => ?_, fun a out => ?_,
    fun a => ?_, fun a => ?_⟩
  · exact portrays.keeps outcome inv ((registered a).mp held)
  · exact portrays.gone a fun held => out ((registered a).mpr held)
  · rw [nactors]
    exact portrays.born a
  · by_cases here : a = recver
    · subst here
      simp only [Function.update_self, mailbox, mail, Seqs.set_seq_self, List.map_append, old]
      rw [portrays.boxes a]
      simp [mailbox, msgs]
    · simp only [Function.update_of_ne here]
      rw [mailbox, mail, Seqs.set_seq_of_ne _ _ here, old]
      exact portrays.boxes a

/-- A message is received. -/
theorem received {m : MsgRef} {rest : List MsgRef} (portrays : Portrays s w)
    (outcome : Outcome s e t) (inv : Inv s) (exec : s.executing = some self)
    (box : s.mail.seq self = m :: rest) (actors : t.actors = s.actors)
    (nactors : t.nactors = s.nactors) (mail : t.mail = s.mail.set self rest)
    (msg : t.msg = s.msg) :
    ∃ v, Actors.step w (.receive self (letterOf (s.msg m))) = .ok v ∧ Portrays t v := by
  have alive : w.id self ≠ none := by
    rw [portrays.executing inv exec]
    nofun
  have waits : w.box self = letterOf (s.msg m) :: rest.map (letterOf ∘ s.msg) := by
    rw [portrays.boxes, mailbox, box]
    simp
  have registered : ∀ b, Registered t b ↔ Registered s b := fun b => by
    simp only [Registered, actors]
  refine ⟨_, Actors.step_ok.mpr ⟨⟨alive, by rw [waits]; rfl⟩, rfl⟩, fun a held => ?_,
    fun a out => ?_, fun a => ?_, fun a => ?_⟩
  · exact portrays.keeps outcome inv ((registered a).mp held)
  · exact portrays.gone a fun held => out ((registered a).mpr held)
  · rw [nactors]
    exact portrays.born a
  · by_cases here : a = self
    · subst here
      simp [waits, mailbox, mail, msg]
    · simp only [Function.update_of_ne here]
      rw [mailbox, mail, Seqs.set_seq_of_ne _ _ here, msg]
      exact portrays.boxes a

end Portrays

/-- The history is one of the actors that the state shows, and the mailboxes are sound. -/
structure Portrayed (s : State Seqs φ) : Prop where
  /-- The mailboxes are sound. -/
  mailed : Mailed s
  /-- The actors allow the history. -/
  history : ∃ w, Machine.run Actors.step (Actors.alone 0 mainId) (actions s.trace) = .ok w ∧
    (s.exited = false → Portrays s w)

/-- `sherry_init` makes the first actor. -/
theorem portrays_sherryInit : Portrays (sherryInit : State Seqs φ) (Actors.alone 0 mainId) := by
  have registered : ∀ a, Registered (sherryInit : State Seqs φ) a ↔ a = 0 := by
    intro a
    constructor
    · intro held
      have old := inv_sherryInit.registry.allocated held
      rw [sherryInit_eq] at old
      exact Nat.lt_one_iff.mp old
    · rintro rfl
      have held := (inv_sherryInit (φ := φ)).registry.main_registered
      rwa [show (sherryInit : State Seqs φ).main = 0 by rw [sherryInit_eq]] at held
  refine ⟨fun a held => ?_, fun a out => ?_, fun a => ?_, fun a => ?_⟩
  · rw [(registered a).mp held, sherryInit_eq]
    rfl
  · have other : a ≠ 0 := fun main => out ((registered a).mpr main)
    simp [Actors.alone, other]
  · rw [sherryInit_eq]
    simp [Actors.alone]
  · rw [mailbox, sherryInit_eq]
    rfl

/-- The history after `sherry_init` is empty. -/
theorem portrayed_sherryInit : Portrayed (sherryInit : State Seqs φ) := by
  refine ⟨mailed_sherryInit, _, ?_, fun _ => portrays_sherryInit⟩
  rw [sherryInit_eq]
  rfl

/-- Every step adds to the history what the actors allow. -/
theorem portrayed_step (inv : Inv s) (portrayed : Portrayed s) (happened : step s e = .ok t) :
    Portrayed t := by
  obtain ⟨mailed, w, ran, shows⟩ := portrayed
  have portrays := shows (step_live happened)
  have outcome := step_outcome inv happened
  refine ⟨mailed_step inv mailed happened, ?_⟩
  have grows : ∀ {act v}, actions t.trace = actions s.trace ++ [act] →
      Actors.step w act = .ok v ∧ Portrays t v →
        ∃ v, Machine.run Actors.step (Actors.alone 0 mainId) (actions t.trace) = .ok v ∧
          (t.exited = false → Portrays t v) := by
    rintro act v more ⟨taken, after⟩
    exact ⟨v, by rw [more]; exact Machine.run_snoc ran taken, fun _ => after⟩
  cases outcome.act_change inv mailed with
  | quiet actors nactors mail msg same =>
    exact ⟨w, by rw [same]; exact ran, fun _ => portrays.quiet outcome inv actors nactors mail msg⟩
  | spawned registered own nactors mail msg more =>
    obtain ⟨v, after⟩ := portrays.spawned outcome inv registered own nactors mail msg mailed
    exact grows more after
  | returned exec registered nactors mail msg more =>
    obtain ⟨v, after⟩ := portrays.returned outcome inv exec registered nactors mail msg
    exact grows more after
  | sent exec held sender receiver actors nactors mail msgs more =>
    obtain ⟨v, after⟩ :=
      portrays.sent outcome inv mailed exec held sender receiver actors nactors mail msgs
    exact grows more after
  | received exec box actors nactors mail msg more =>
    obtain ⟨v, after⟩ := portrays.received outcome inv exec box actors nactors mail msg
    exact grows more after
  | ended exited same =>
    refine ⟨w, by rw [same]; exact ran, fun live => ?_⟩
    cases live.symm.trans exited

/-- The history of every run is one of actors with mailboxes: ids of living actors are their own,
every letter is sent and received by the living and names them, and each actor receives what is
sent to it in order, with the rest in its mailbox. Nobody who waits for a message has one,
nobody received `NULL`, and an actor whose function has returned does nothing more and is sent
nothing more, also when its id is given to another. -/
theorem run_history {es : List (Event φ)}
    (ran : Machine.run step (sherryInit : State Seqs φ) es = .ok s) :
    (∃ w, Machine.run Actors.step (Actors.alone 0 mainId) (actions s.trace) = .ok w ∧ w.Sound ∧
        (s.exited = false → Portrays s w) ∧
        ∀ a, (actions s.trace).filterMap (Actors.sentTo a) =
          (actions s.trace).filterMap (Actors.receivedBy a) ++ w.box a) ∧
      (∀ a, (s.actor a).status = .waitMsg → s.mail.seq a = []) ∧
      (∀ a, .received a none ∉ s.trace) ∧
      ∀ before after a, s.trace = before ++ .returned a :: after →
        ∀ act ∈ actions after, ¬Actors.involves a act := by
  have portrayed : Portrayed s := run_all portrayed_sherryInit portrayed_step ran
  obtain ⟨mailed, w, replayed, shows⟩ := portrayed
  have sound := Actors.sound_run (Actors.sound_alone 0 mainId) replayed
  refine ⟨⟨w, replayed, sound, shows, fun a => Actors.letters_run replayed a⟩, mailed.waiting, ?_,
    ?_⟩
  · intro a null
    have returned : none ∈ receipts a s.trace :=
      List.mem_filterMap.mpr ⟨_, null, by simp [receipt]⟩
    have member : none ∈ mailHistory a s := List.mem_append_left _ returned
    rw [mailHistory_run ran] at member
    simp at member
  · intro before after a trace
    have parts : actions s.trace = actions before ++ .finish a :: actions after := by
      rw [trace, actions, List.filterMap_append]
      rfl
    rw [parts] at replayed
    obtain ⟨m, first, rest⟩ := Machine.run_append.mp replayed
    obtain ⟨n, taken, last⟩ := Machine.run_cons.mp rest
    obtain ⟨alive, rfl⟩ := Actors.step_ok.mp taken
    have sound := Actors.sound_run (Actors.sound_alone 0 mainId) first
    refine Actors.ended_run ?_ ?_ last
    · exact Function.update_self a none m.id
    · exact sound.alive a alive

/-- Main spawns actor 1 and waits for its answer; then it spawns actor 2 under the same id. -/
def historyRun : List (Event Unit) :=
  [.spawn (), .send 1 100 none, .recv, .schdule, .resume 0, .recv, .send 0 7 none, .ret, .schdule,
    .resume 0, .spawn ()]

/-- Seven things happen, and both actors had id 1. -/
theorem run_history_reuse :
    ∃ s, Machine.run step (sherryInit : State Seqs Unit) historyRun = .ok s ∧
      actions s.trace = [.spawn 1 1, .send 0 1 ⟨0, 1, 100, none⟩, .receive 1 ⟨0, 1, 100, none⟩,
        .send 1 0 ⟨1, 0, 7, none⟩, .finish 1, .receive 0 ⟨1, 0, 7, none⟩, .spawn 2 1] ∧
      ∃ w, Machine.run Actors.step (Actors.alone 0 mainId) (actions s.trace) = .ok w ∧
        w.Sound := by
  obtain ⟨s, ran, same⟩ : ∃ s,
      Machine.run step (sherryInit : State Seqs Unit) historyRun = .ok s ∧
        actions s.trace = [.spawn 1 1, .send 0 1 ⟨0, 1, 100, none⟩,
          .receive 1 ⟨0, 1, 100, none⟩, .send 1 0 ⟨1, 0, 7, none⟩, .finish 1,
          .receive 0 ⟨1, 0, 7, none⟩, .spawn 2 1] := by
    decide +kernel
  obtain ⟨w, replayed, sound, _⟩ := (run_history ran).1
  exact ⟨s, ran, same, w, replayed, sound⟩

end Sherry
