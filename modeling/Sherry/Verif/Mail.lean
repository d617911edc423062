import Sherry.Verif.Changes

/-!
# Messages

Every message placed for an actor is received once, in order and unaltered, and an actor that
waits for a message has none. The history of an actor's mail is what its `sherry_msg_recv`
calls returned followed by its mailbox; each step extends that history by the message it
places for the actor, if any, so after a run the history is what the run's sends placed.
-/

namespace Sherry

variable {φ : Type} {s t : State Seqs φ} {self a : ActorRef} {e : Event φ}

/-- The return of an actor's `sherry_msg_recv`, nothing inside for `NULL`. -/
def receipt (a : ActorRef) : Obs → Option (Option SherryMsg)
  | .received b msg => if b = a then some msg else none
  | _ => none

/-- What an actor's `sherry_msg_recv` calls returned, in order. -/
def receipts (a : ActorRef) (trace : List Obs) : List (Option SherryMsg) :=
  trace.filterMap (receipt a)

/-- The messages in an actor's mailbox. -/
def mailbox (s : State Seqs φ) (a : ActorRef) : List SherryMsg := (s.mail.seq a).map s.msg

/-- The message that an event places for an actor: a send whose `dst` resolves to it, with the
sender's arguments, the id of the actor that executes the send and the receiver's id. -/
def placed (a : ActorRef) (s : State Seqs φ) (e : Event φ) : List SherryMsg :=
  match e, s.executing with
  | .send dst msgtype payload, some self =>
    if s.slot dst.toNat = some a then
      [{ sender := (s.actor self).aid, recver := (s.actor a).aid, msgtype, payload }]
    else []
  | _, _ => []

/-- Only a send places a message. -/
theorem placed_nil (other : ∀ dst msgtype payload, e ≠ .send dst msgtype payload) :
    placed a s e = [] := by
  unfold placed
  split
  · exact absurd rfl (other _ _ _)
  · rfl

/-- What an event does to the mailboxes. -/
inductive MailChange (s t : State Seqs φ) (e : Event φ) : Prop
  | kept (mail : t.mail = s.mail) (msg : t.msg = s.msg) (nmsgs : t.nmsgs = s.nmsgs)
      (quiet : ∀ a, receipts a t.trace = receipts a s.trace)
      (other : ∀ dst msgtype payload, e ≠ .send dst msgtype payload)
  | made {fn : φ} (event : e = .spawn fn) (mail : t.mail = s.mail.set s.nactors [])
      (msg : t.msg = s.msg) (nmsgs : t.nmsgs = s.nmsgs)
      (quiet : ∀ a, receipts a t.trace = receipts a s.trace)
  | sent {self recver : ActorRef} {dst msgtype : Int} {payload : Sds}
      (event : e = .send dst msgtype payload) (exec : s.executing = some self)
      (slot : s.slot dst.toNat = some recver)
      (mail : t.mail = s.mail.set recver (s.mail.seq recver ++ [s.nmsgs]))
      (msg : t.msg = Function.update s.msg s.nmsgs (msgFor s recver msgtype payload))
      (nmsgs : t.nmsgs = s.nmsgs + 1) (revoked : (t.actor recver).status ≠ .waitMsg)
      (quiet : ∀ a, receipts a t.trace = receipts a s.trace)
  | taken {self : ActorRef} (exec : s.executing = some self)
      (enters : (e = .recv ∧ s.mail.seq self ≠ []) ∨
        ∃ err, e = .resume err ∧ (s.actor self).frame = .recv self)
      (mail : t.mail = s.mail.set self (s.mail.seq self).tail)
      (msg : t.msg = s.msg) (nmsgs : t.nmsgs = s.nmsgs) (frame : (t.actor self).frame = .user)
      (returns : ∀ a, receipts a t.trace =
        receipts a s.trace ++ if self = a then [(s.mail.seq self).head?.map s.msg] else [])

/-- An event changes the mailboxes in one of four ways. -/
theorem Outcome.mail_change (outcome : Outcome s e t) : MailChange s t e := by
  cases outcome with
  | computes => exact .kept rfl rfl rfl (fun _ => rfl) (by simp)
  | spawns =>
    rw [sherrySpawn_eq]
    exact .made rfl rfl rfl rfl fun b => by simp [receipts, receipt]
  | yields => exact .kept rfl rfl rfl (fun b => by simp [park, receipts, receipt]) (by simp)
  | @sends self recver dst msgtype payload user inside slot =>
    have exec := (inUser_iff.mp user).2.1
    unfold revoke
    split
    · exact .sent rfl exec slot rfl rfl rfl (by simp [wake]) fun b => by
        simp [wake, deliver, receipts, receipt]
    · rename_i waits
      exact .sent rfl exec slot rfl rfl rfl waits fun b => by
        simp [deliver, receipts, receipt]
  | awaits => exact .kept rfl rfl rfl (fun b => by simp [park, receipts, receipt]) (by simp)
  | @receives e self exec enters =>
    refine .taken exec ?_ rfl rfl rfl (by simp [taken]) fun b => ?_
    · rcases enters with ⟨event, _, filled⟩ | resumed
      · exact .inl ⟨event, filled⟩
      · exact .inr resumed
    · by_cases same : self = b <;> simp [taken, receipts, receipt, same]
  | frees => exact .kept rfl rfl rfl (fun b => rfl) (by simp)
  | opens => exact .kept rfl rfl rfl (fun b => by simp [openedFd, receipts, receipt]) (by simp)
  | opensNone =>
    exact .kept rfl rfl rfl (fun b => by simp [State.emit, receipts, receipt]) (by simp)
  | listens =>
    exact .kept rfl rfl rfl (fun b => by simp [State.setFd, State.emit, receipts, receipt])
      (by simp)
  | listensNot =>
    exact .kept rfl rfl rfl (fun b => by simp [State.emit, receipts, receipt]) (by simp)
  | accepts exec enters =>
    rcases enters with ⟨rfl, _⟩ | ⟨rfl, _⟩ <;>
      exact .kept rfl rfl rfl
        (fun b => by simp [State.setFrame, State.setActor, State.emit, receipts, receipt]) (by simp)
  | blocksAccept exec enters =>
    rcases enters with ⟨rfl, _⟩ | ⟨rfl, _⟩ <;>
      exact .kept rfl rfl rfl (fun b => by simp [park, receipts, receipt]) (by simp)
  | refused => exact .kept rfl rfl rfl (fun b => by simp [State.emit, receipts, receipt]) (by simp)
  | readError exec enters =>
    rcases enters with ⟨rfl, _, rfl⟩ | ⟨_, rfl, _, rfl⟩ <;>
      exact .kept rfl rfl rfl
        (fun b => by simp [started, State.setFd, State.setFrame, State.setActor, State.emit,
          receipts, receipt]) (by simp)
  | readBytes exec enters =>
    rcases enters with ⟨rfl, _, rfl⟩ | ⟨_, rfl, _, rfl⟩ <;>
      exact .kept rfl rfl rfl
        (fun b => by simp [started, consume, State.setFd, receipts, receipt]) (by simp)
  | blocksRead exec enters =>
    rcases enters with ⟨rfl, _, rfl⟩ | ⟨_, rfl, _, rfl⟩ <;>
      exact .kept rfl rfl rfl
        (fun b => by simp [started, park, State.setFd, receipts, receipt]) (by simp)
  | submits => exact .kept rfl rfl rfl (fun b => by simp [park, receipts, receipt]) (by simp)
  | closes => exact .kept rfl rfl rfl (fun b => rfl) (by simp)
  | returns => exact .kept rfl rfl rfl (fun b => by simp [park, receipts, receipt]) (by simp)
  | lingers exec enters =>
    rcases enters with ⟨rfl, _⟩ | ⟨_, rfl, _⟩ <;>
      exact .kept rfl rfl rfl (fun b => by simp [park, receipts, receipt]) (by simp)
  | ends exec enters =>
    rcases enters with ⟨rfl, _⟩ | ⟨_, rfl, _⟩ <;>
      exact .kept rfl rfl rfl (fun b => rfl) (by simp)
  | begins => exact .kept rfl rfl rfl (fun b => rfl) (by simp)
  | wrote =>
    exact .kept rfl rfl rfl
      (fun b => by simp [writeTail, State.setFrame, State.setActor, State.emit, receipts,
        receipt]) (by simp)
  | dispatches => exact .kept rfl rfl rfl (fun b => by simp [dispatch, receipts, receipt]) (by simp)
  | polls => exact .kept rfl rfl rfl (fun b => by simp [receipts, receipt]) (by simp)
  | polled => exact .kept rfl rfl rfl (fun b => rfl) (by simp)
  | connects => exact .kept rfl rfl rfl (fun b => rfl) (by simp)
  | fails => exact .kept rfl rfl rfl (fun b => rfl) (by simp)
  | delivers =>
    exact .kept rfl rfl rfl (fun b => by simp [wakeAll, receive, receipts, receipt]) (by simp)
  | writes =>
    exact .kept rfl rfl rfl (fun b => by simp [wake, State.emit, receipts, receipt]) (by simp)
  | closed => exact .kept rfl rfl rfl (fun b => rfl) (by simp)

/-- Mailboxes hold allocated messages, an actor that waits for a message has none, and one that
was woken from that wait has some. -/
structure Mailed (s : State Seqs φ) : Prop where
  /-- A queued message was allocated. -/
  below : ∀ a, ∀ m ∈ s.mail.seq a, m < s.nmsgs
  /-- Memory that holds no actor yet has no mailbox. -/
  fresh : ∀ a, s.nactors ≤ a → s.mail.seq a = []
  /-- An actor that waits for a message has an empty mailbox. -/
  waiting : ∀ a, (s.actor a).status = .waitMsg → s.mail.seq a = []
  /-- An actor that left this wait and has not yet resumed has a message. -/
  woken : ∀ a b, (s.actor a).frame = .recv b → (s.actor a).status ≠ .waitMsg →
    s.mail.seq a ≠ []

/-- The mailbox of one actor after an event. -/
inductive BoxChange (s t : State Seqs φ) (e : Event φ) (a : ActorRef) : Prop
  | kept (same : t.mail.seq a = s.mail.seq a)
      (other : ∀ dst msgtype payload, e = .send dst msgtype payload →
        s.slot dst.toNat ≠ some a)
  | fresh (new : a = s.nactors) (empty : t.mail.seq a = [])
  | grew {dst msgtype : Int} {payload : Sds} (event : e = .send dst msgtype payload)
      (slot : s.slot dst.toNat = some a) (same : t.mail.seq a = s.mail.seq a ++ [s.nmsgs])
      (allocates : s.nmsgs < t.nmsgs) (revoked : (t.actor a).status ≠ .waitMsg)
  | shrank (exec : s.executing = some a)
      (enters : (e = .recv ∧ s.mail.seq a ≠ []) ∨
        ∃ err, e = .resume err ∧ (s.actor a).frame = .recv a)
      (same : t.mail.seq a = (s.mail.seq a).tail) (frame : (t.actor a).frame = .user)

/-- Each mailbox is kept, emptied for a new actor, extended by a send or read by its owner. -/
theorem MailChange.box (change : MailChange s t e) (a : ActorRef) : BoxChange s t e a := by
  cases change with
  | kept mail _ _ _ other =>
    exact .kept (by rw [mail]) fun _ _ _ sends => absurd sends (other _ _ _)
  | made event mail =>
    by_cases same : a = s.nactors
    · exact .fresh same (by simp [mail, same])
    · exact .kept (by simp [mail, same]) fun _ _ _ sends => by cases event.symm.trans sends
  | @sent self recver dst msgtype payload event exec slot mail _ nmsgs revoked =>
    by_cases same : a = recver
    · subst same
      exact .grew event slot (by simp [mail]) (nmsgs ▸ Nat.lt_succ_self _) revoked
    · refine .kept (by simp [mail, same]) fun _ _ _ sends => ?_
      cases event.symm.trans sends
      rw [slot]
      exact fun found => same (Option.some.inj found).symm
  | @taken self exec enters mail _ _ frame =>
    by_cases same : a = self
    · subst same
      exact .shrank exec enters (by simp [mail]) frame
    · refine .kept (by simp [mail, same]) fun _ _ _ sends => ?_
      rcases enters with ⟨event, _⟩ | ⟨_, event, _⟩ <;> cases event.symm.trans sends

/-- Messages are never unallocated. -/
theorem MailChange.nmsgs_le (change : MailChange s t e) : s.nmsgs ≤ t.nmsgs := by
  cases change with
  | kept _ _ nmsgs => exact Nat.le_of_eq nmsgs.symm
  | made _ _ _ nmsgs => exact Nat.le_of_eq nmsgs.symm
  | sent _ _ _ _ _ nmsgs => exact nmsgs ▸ Nat.le_succ _
  | taken _ _ _ _ nmsgs => exact Nat.le_of_eq nmsgs.symm

/-- An actor that waits for a message after a step has none. -/
theorem waiting_step (inv : Inv s) (mailed : Mailed s) (happened : step s e = .ok t)
    (status : (t.actor a).status = .waitMsg) : t.mail.seq a = [] := by
  have outcome := step_outcome inv happened
  have box := outcome.mail_change.box a
  cases outcome.actor_change a with
  | kept same =>
    have before : (s.actor a).status = .waitMsg := same ▸ status
    cases box with
    | kept boxes => rw [boxes, mailed.waiting a before]
    | fresh _ empty => exact empty
    | grew _ _ _ _ revoked => exact absurd status revoked
    | shrank exec =>
      rw [(inv.placed.executing exec).2.1] at before
      cases before
  | proceeds exec same =>
    rw [same] at status
    change (s.actor a).status = _ at status
    rw [(inv.placed.executing exec).2.1] at status
    cases status
  | parked exec parking same =>
    rw [same] at status
    cases parking with
    | awaits empty =>
      cases box with
      | kept boxes => rw [boxes, empty]
      | fresh _ none => exact none
      | grew event => cases event
      | shrank _ enters =>
        rcases enters with ⟨_, filled⟩ | ⟨_, event, _⟩
        · exact absurd empty filled
        · cases event
    | _ => cases status
  | woken _ same =>
    rw [same] at status
    cases status
  | dispatched _ _ same =>
    rw [same] at status
    cases status
  | made _ ready =>
    rw [ready] at status
    cases status

/-- An actor woken from the wait for a message is not in a wait queue or in `sherry_write`. -/
theorem waking_recv (inv : Inv s) {b : ActorRef} (frame : (s.actor a).frame = .recv b)
    (waking : Waking s e a) :
    ∃ dst msgtype payload, e = .send dst msgtype payload ∧ s.slot dst.toNat = some a ∧
      (s.actor a).status = .waitMsg := by
  cases waking with
  | sent slot waiting => exact ⟨_, _, _, rfl, slot, waiting⟩
  | connected member =>
    obtain ⟨_, _, ⟨_, other⟩ | ⟨_, other⟩⟩ := inv.placed.mem_waitq.mp member <;>
      cases frame.symm.trans other
  | delivered _ member =>
    obtain ⟨_, _, ⟨_, other⟩ | ⟨_, other⟩⟩ := inv.placed.mem_waitq.mp member <;>
      cases frame.symm.trans other
  | written pending data =>
    subst data
    obtain ⟨_, _, other⟩ := inv.placed.writes _ pending
    cases frame.symm.trans other

/-- An actor that left the wait for a message and has not resumed has one after a step. -/
theorem woken_step (inv : Inv s) (mailed : Mailed s) (happened : step s e = .ok t)
    {b : ActorRef} (frame : (t.actor a).frame = .recv b)
    (status : (t.actor a).status ≠ .waitMsg) : t.mail.seq a ≠ [] := by
  have outcome := step_outcome inv happened
  have box := outcome.mail_change.box a
  have new : ∀ c, (s.actor s.nactors).frame ≠ .recv c := by
    rw [inv.registry.fresh _ (Nat.le_refl _)]
    nofun
  have still : (s.actor a).frame = .recv b → (s.actor a).status ≠ .waitMsg →
      t.mail.seq a ≠ [] := by
    intro frame' status'
    have filled := mailed.woken a b frame' status'
    cases box with
    | kept boxes => rwa [boxes]
    | fresh fresh => exact absurd (fresh ▸ frame') (new b)
    | grew _ _ boxes => simp [boxes]
    | shrank _ _ _ user => cases frame.symm.trans user
  cases outcome.actor_change a with
  | kept same => exact still (same ▸ frame) (same ▸ status)
  | proceeds exec same =>
    rw [same] at frame
    cases frame
  | parked exec parking same =>
    rw [same] at frame status
    cases parking with
    | awaits => exact absurd rfl status
    | _ => cases frame
  | woken waking same =>
    rw [same] at frame
    obtain ⟨dst, msgtype, payload, event, slot, _⟩ := waking_recv inv frame waking
    cases box with
    | kept _ other => exact absurd slot (other _ _ _ event)
    | fresh fresh => exact absurd (fresh ▸ frame) (new b)
    | grew _ _ boxes => simp [boxes]
    | shrank _ enters =>
      rcases enters with ⟨other, _⟩ | ⟨_, other, _⟩ <;> cases event.symm.trans other
  | dispatched schdule first same =>
    rw [same] at frame
    have member : a ∈ s.waits.seq .readyq := List.mem_of_mem_head? first
    have ready := inv.placed.mem_readyq.mp member
    exact still frame (by rw [ready]; nofun)
  | made _ _ entry => cases frame.symm.trans entry

/-- Every step keeps the invariant of the mailboxes. -/
theorem mailed_step (inv : Inv s) (mailed : Mailed s) (happened : step s e = .ok t) :
    Mailed t := by
  have outcome := step_outcome inv happened
  have change := outcome.mail_change
  have allocated : ∀ {b}, s.executing = some b → b < s.nactors := fun exec =>
    inv.registry.allocated (inv.placed.executing exec).1
  constructor
  · intro b m member
    cases change.box b with
    | kept same => exact Nat.lt_of_lt_of_le (mailed.below b m (same ▸ member)) change.nmsgs_le
    | fresh _ empty =>
      rw [empty] at member
      cases member
    | grew _ _ same allocates =>
      rw [same] at member
      rcases List.mem_append.mp member with old | last
      · exact Nat.lt_of_lt_of_le (mailed.below b m old) change.nmsgs_le
      · exact List.mem_singleton.mp last ▸ allocates
    | shrank _ _ same =>
      rw [same] at member
      exact Nat.lt_of_lt_of_le (mailed.below b m (List.mem_of_mem_tail member)) change.nmsgs_le
  · intro b above
    have before : s.nactors ≤ b := Nat.le_trans outcome.counts_le.1 above
    cases change.box b with
    | kept same => rw [same, mailed.fresh b before]
    | fresh _ empty => exact empty
    | grew _ slot =>
      have registered : Registered s b :=
        List.mem_of_getElem? (Registry.slot_iff.mp slot)
      exact absurd (inv.registry.allocated registered) (Nat.not_lt.mpr before)
    | shrank exec => exact absurd (allocated exec) (Nat.not_lt.mpr before)
  · intro b status
    exact waiting_step inv mailed happened status
  · intro b c frame status
    exact woken_step inv mailed happened frame status

/-- `sherry_init` leaves every mailbox empty and nobody in `sherry_msg_recv`. -/
theorem mailed_sherryInit : Mailed (sherryInit : State Seqs φ) := by
  rw [sherryInit_eq]
  constructor
  · simp
  · simp
  · simp
  · intro b c
    by_cases main : b = 0 <;> simp [main]

/-- In every state of a run the invariant of the mailboxes holds. -/
theorem run_mailed {es : List (Event φ)}
    (ran : Machine.run step (sherryInit : State Seqs φ) es = .ok s) : Mailed s :=
  run_all mailed_sherryInit mailed_step ran

/-- An actor whose `sherry_msg_recv` is about to take a message has one. -/
theorem taken_filled (inv : Inv s) (mailed : Mailed s) (exec : s.executing = some self)
    (enters : (e = .recv ∧ s.mail.seq self ≠ []) ∨
      ∃ err, e = .resume err ∧ (s.actor self).frame = .recv self) : s.mail.seq self ≠ [] := by
  rcases enters with ⟨_, filled⟩ | ⟨_, _, frame⟩
  · exact filled
  · apply mailed.woken self self frame
    rw [(inv.placed.executing exec).2.1]
    nofun

/-- What an actor received, followed by its mailbox. -/
def mailHistory (a : ActorRef) (s : State Seqs φ) : List (Option SherryMsg) :=
  receipts a s.trace ++ (mailbox s a).map some

/-- A step extends the mail of an actor by the message it places for the actor, if any. -/
theorem mailHistory_step (inv : Inv s) (mailed : Mailed s) (happened : step s e = .ok t) :
    mailHistory a t = mailHistory a s ++ (placed a s e).map some := by
  have outcome := step_outcome inv happened
  cases outcome.mail_change with
  | kept mail msg _ quiet other =>
    simp [mailHistory, mailbox, mail, msg, quiet, placed_nil other]
  | made event mail msg _ quiet =>
    have nothing : placed a s e = [] := placed_nil (by simp [event])
    have same : t.mail.seq a = s.mail.seq a := by
      rw [mail, Seqs.set_seq]
      split
      · rename_i new
        rw [new, mailed.fresh _ (Nat.le_refl _)]
      · rfl
    simp [mailHistory, mailbox, same, msg, quiet, nothing]
  | @sent self recver dst msgtype payload event exec slot mail msg _ _ quiet =>
    subst event
    have current := (inv.placed.current self exec).1
    have old : (s.mail.seq a).map t.msg = (s.mail.seq a).map s.msg := by
      apply List.map_congr_left
      intro m member
      have apart : m ≠ s.nmsgs := Nat.ne_of_lt (mailed.below a m member)
      rw [msg, Function.update_of_ne apart]
    by_cases here : a = recver
    · subst here
      have new : t.msg s.nmsgs = msgFor s a msgtype payload := by simp [msg]
      simp [mailHistory, mailbox, mail, old, new, quiet, placed, exec, slot, msgFor, current]
    · have elsewhere : some recver ≠ some a := fun same => here (Option.some.inj same).symm
      simp [mailHistory, mailbox, mail, here, old, quiet, placed, exec, slot, elsewhere]
  | @taken self exec enters mail msg _ _ returns =>
    have nothing : placed a s e = [] := placed_nil (by
      rcases enters with ⟨event, _⟩ | ⟨_, event, _⟩ <;> simp [event])
    obtain ⟨m, rest, box⟩ := List.exists_cons_of_ne_nil (taken_filled inv mailed exec enters)
    by_cases here : self = a
    · subst here
      simp [mailHistory, mailbox, mail, msg, returns, box, nothing]
    · simp [mailHistory, mailbox, mail, msg, returns, here, Ne.symm here, nothing]

/-- The mail of an actor at the end of a run is what the run placed for it. -/
theorem mailHistory_run {es : List (Event φ)}
    (ran : Machine.run step (sherryInit : State Seqs φ) es = .ok s) :
    mailHistory a s = (Machine.collect step (placed a) sherryInit es).map some := by
  have kept : ∀ {s : State Seqs φ} {e : Event φ} {t : State Seqs φ},
      Sound s ∧ Mailed s → step s e = .ok t → Sound t ∧ Mailed t := by
    rintro s e t ⟨sound, mailed⟩ happened
    obtain ⟨inv, _, after⟩ := step_sound sound happened
    exact ⟨after, mailed_step inv mailed happened⟩
  have extended : ∀ {s : State Seqs φ} {e : Event φ} {t : State Seqs φ},
      Sound s ∧ Mailed s → step s e = .ok t →
        mailHistory a t = mailHistory a s ++ (placed a s e).map some := by
    rintro s e t ⟨sound, mailed⟩ happened
    exact mailHistory_step (step_sound sound happened).1 mailed happened
  have start : Sound (sherryInit : State Seqs φ) ∧ Mailed (sherryInit : State Seqs φ) :=
    ⟨fun _ => inv_sherryInit, mailed_sherryInit⟩
  have blank : mailHistory a (sherryInit : State Seqs φ) = [] := by
    rw [sherryInit_eq]
    simp [mailHistory, mailbox, receipts, receipt]
  rw [Machine.run_collects kept extended start ran, blank, List.nil_append,
    Machine.collect_map]

/-- The messages that an actor's `sherry_msg_recv` calls returned, followed by its mailbox, are
at every point of every run the messages that the run's sends placed for it, in their order. -/
theorem run_delivery {es : List (Event φ)}
    (ran : Machine.run step (sherryInit : State Seqs φ) es = .ok s) (a : ActorRef) :
    receipts a s.trace ++ (mailbox s a).map some =
      (Machine.collect step (placed a) sherryInit es).map some :=
  mailHistory_run ran

/-- Main waits for a message, actor 1 sends it two, and main is resumed. -/
def pingRun : List (Event Unit) :=
  [.spawn (), .recv, .schdule, .resume 0, .send 0 5 (some 7), .send 0 6 none, .ret, .schdule,
    .resume 0]

/-- Main has the first message and finds the second in its mailbox. -/
theorem run_delivery_ping :
    ∃ s, Machine.run step (sherryInit : State Seqs Unit) pingRun = .ok s ∧
      receipts 0 s.trace ++ (mailbox s 0).map some =
        [some ⟨1, 0, 5, some 7⟩, some ⟨1, 0, 6, none⟩] := by
  obtain ⟨s, ran, _⟩ :
      ∃ s, Machine.run step (sherryInit : State Seqs Unit) pingRun = .ok s ∧ True := by
    decide +kernel
  have sent : Machine.collect step (placed 0) (sherryInit : State Seqs Unit) pingRun =
      [⟨1, 0, 5, some 7⟩, ⟨1, 0, 6, none⟩] := by
    decide +kernel
  refine ⟨s, ran, ?_⟩
  rw [run_delivery ran 0, sent]
  rfl

/-- An actor stops waiting for a message only by a send to it. -/
theorem waitMsg_step (inv : Inv s) (happened : step s e = .ok t)
    (waiting : (s.actor a).status = .waitMsg) :
    (t.actor a).status = .waitMsg ∨ (t.actor a).status = .ready ∧
      ∃ dst msgtype payload, e = .send dst msgtype payload ∧ s.slot dst.toNat = some a := by
  obtain ⟨_, registered, idle, _⟩ :=
    inv.placed.member (inv.placed.mem_waitingmsg.mpr waiting)
  have frame : (s.actor a).frame = .recv a := by
    have fits := inv.placed.fits a
    simp only [Fits, waiting] at fits
    exact fits.2.2.2
  rcases ((step_outcome inv happened).actor_change a).passive inv registered idle with
    same | ⟨waking, same⟩ | ⟨_, first, _⟩
  · exact .inl (same ▸ waiting)
  · obtain ⟨dst, msgtype, payload, event, slot, _⟩ := waking_recv inv frame waking
    exact .inr ⟨by rw [same], dst, msgtype, payload, event, slot⟩
  · cases waiting.symm.trans (inv.placed.mem_readyq.mp (List.mem_of_mem_head? first))

/-- In every reachable state an actor that waits for a message has none, an actor resumed in
`sherry_msg_recv` has one in the mailbox it takes from, no `sherry_msg_recv` has returned
`NULL`, and the next event ends the wait of an actor only if it is a send to that actor. -/
theorem reachable_wakeup {es : List (Event φ)}
    (ran : Machine.run step (sherryInit : State Seqs φ) es = .ok s) (a : ActorRef) :
    ((s.actor a).status = .waitMsg → s.mail.seq a = []) ∧
      (∀ b, s.exited = false → s.executing = some a → (s.actor a).frame = .recv b →
        s.mail.seq b ≠ []) ∧
      .received a none ∉ s.trace ∧
      ∀ e t, step s e = .ok t → (s.actor a).status = .waitMsg →
        (t.actor a).status = .waitMsg ∨ (t.actor a).status = .ready ∧
          ∃ dst msgtype payload, e = .send dst msgtype payload ∧ s.slot dst.toNat = some a := by
  have mailed := run_mailed ran
  refine ⟨mailed.waiting a, fun b live exec frame => ?_, fun null => ?_, fun e t happened => ?_⟩
  · have placed := (inv_run ran live).placed
    obtain rfl : b = a := placed.recvSelf a b frame
    apply mailed.woken b b frame
    rw [(placed.executing exec).2.1]
    nofun
  · have returned : none ∈ receipts a s.trace :=
      List.mem_filterMap.mpr ⟨_, null, by simp [receipt]⟩
    have member : none ∈ mailHistory a s := List.mem_append_left _ returned
    rw [mailHistory_run ran] at member
    simp at member
  · exact waitMsg_step (inv_run ran (step_live happened)) happened

/-- Main got a message when it was resumed. -/
theorem reachable_wakeup_ping :
    ∃ s, Machine.run step (sherryInit : State Seqs Unit) pingRun = .ok s ∧
      .received 0 none ∉ s.trace := by
  obtain ⟨s, ran, _⟩ :
      ∃ s, Machine.run step (sherryInit : State Seqs Unit) pingRun = .ok s ∧ True := by
    decide +kernel
  exact ⟨s, ran, (reachable_wakeup ran 0).2.2.1⟩

end Sherry
