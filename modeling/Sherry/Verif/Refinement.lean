import Sherry.Verif.Queues
import Sherry.Verif.Mail
import Sherry.Verif.Places

/-!
# The scheduler on linked lists refines the scheduler on sequences

A state of the program with linked lists shadows a state with sequences when the two agree in
everything but the lists, and the lists hold the sequences. Each function of the source keeps
that relation, and takes the same branches in both states, because all it asks of a list is its
first node. An insertion needs that its node is in no list and an erasure that it is in its list:
there the invariant of the state with sequences says which list an actor is in.
-/

namespace Sherry

variable {φ : Type}

/-- A state with other lists. -/
def State.withLists {Q Q' : Type → Type → Type} (t : State Q φ) (waits : Q' WaitRef ActorRef)
    (mail : Q' ActorRef MsgRef) : State Q' φ :=
  { t with waits, mail }

@[simp] theorem State.withLists_waits {Q Q' : Type → Type → Type} (t : State Q φ)
    (waits : Q' WaitRef ActorRef) (mail : Q' ActorRef MsgRef) :
    (t.withLists waits mail).waits = waits := rfl

@[simp] theorem State.withLists_mail {Q Q' : Type → Type → Type} (t : State Q φ)
    (waits : Q' WaitRef ActorRef) (mail : Q' ActorRef MsgRef) :
    (t.withLists waits mail).mail = mail := rfl

/-- A state with linked lists agrees with a state with sequences. -/
def Shadows (s : State LinkedLists φ) (t : State Seqs φ) : Prop :=
  ∃ waits mail, s = t.withLists waits mail ∧ waits.Holds t.waits ∧ mail.Holds t.mail

namespace Shadows

variable {s s' : State LinkedLists φ} {t t' : State Seqs φ} {self a : ActorRef}

/-- The actors agree. -/
theorem actor (shadows : Shadows s t) : s.actor = t.actor := by
  obtain ⟨w, m, rfl, _⟩ := shadows
  rfl

/-- The same actor runs. -/
theorem running (shadows : Shadows s t) : s.running = t.running := by
  obtain ⟨w, m, rfl, _⟩ := shadows
  rfl

theorem setActor (shadows : Shadows s t) (a : ActorRef) (change : Actor φ → Actor φ) :
    Shadows (s.setActor a change) (t.setActor a change) := by
  obtain ⟨w, m, rfl, waits, mail⟩ := shadows
  exact ⟨w, m, rfl, waits, mail⟩

theorem setStatus (shadows : Shadows s t) (a : ActorRef) (status : Status) :
    Shadows (s.setStatus a status) (t.setStatus a status) :=
  shadows.setActor a fun actor => { actor with status }

theorem setFd (shadows : Shadows s t) (fd : FdRef) (change : SherryFd → SherryFd) :
    Shadows (s.setFd fd change) (t.setFd fd change) := by
  obtain ⟨w, m, rfl, waits, mail⟩ := shadows
  exact ⟨w, m, rfl, waits, mail⟩

theorem emit (shadows : Shadows s t) {o o' : Obs} (same : o = o') :
    Shadows (s.emit o) (t.emit o') := by
  obtain ⟨w, m, rfl, waits, mail⟩ := shadows
  exact ⟨w, m, by rw [same]; rfl, waits, mail⟩

theorem srfree (shadows : Shadows s t) (p : Ptr) : Shadows (s.srfree p) (t.srfree p) := by
  obtain ⟨w, m, rfl, waits, mail⟩ := shadows
  exact ⟨w, m, rfl, waits, mail⟩

theorem setrunning (shadows : Shadows s t) (a : ActorRef) :
    Shadows (setrunning s a) (setrunning t a) := by
  obtain ⟨w, m, rfl, waits, mail⟩ := shadows
  exact ⟨w, m, rfl, waits, mail⟩

/-- `sherry_exit` returns. -/
theorem ends (shadows : Shadows s t) :
    Shadows { s with exited := true } { t with exited := true } := by
  obtain ⟨w, m, rfl, waits, mail⟩ := shadows
  exact ⟨w, m, rfl, waits, mail⟩

theorem ite {p : Prop} [Decidable p] (first : p → Shadows s t) (second : ¬p → Shadows s' t') :
    Shadows (if p then s else s') (if p then t else t') := by
  split
  · rename_i holds
    exact first holds
  · rename_i fails
    exact second fails

theorem makecontext (shadows : Shadows s t) (owner : Owner) (stacksz : Nat) :
    Shadows (makecontext s owner stacksz) (makecontext t owner stacksz) := by
  obtain ⟨w, m, rfl, waits, mail⟩ := shadows
  cases owner <;> exact ⟨w, m, rfl, waits, mail⟩

theorem regActor (shadows : Shadows s t) (a : ActorRef) :
    Shadows (regActor s a) (regActor t a) := by
  obtain ⟨w, m, rfl, waits, mail⟩ := shadows
  have same : freeSlot (t.withLists w m) = freeSlot t := rfl
  unfold Sherry.regActor
  rw [same]
  cases freeSlot t <;> exact ⟨w, m, rfl, waits, mail⟩

theorem unregActor (shadows : Shadows s t) (id : Int) :
    Shadows (unregActor s id) (unregActor t id) := by
  obtain ⟨w, m, rfl, waits, mail⟩ := shadows
  apply ite <;> exact fun _ => ⟨w, m, rfl, waits, mail⟩

theorem yield (shadows : Shadows s t) (self : ActorRef) (frame : Frame) :
    Shadows (yield s self frame) (yield t self frame) := by
  obtain ⟨w, m, rfl, waits, mail⟩ := shadows
  exact ⟨w, m, rfl, waits, mail⟩

theorem sherryMainReturn (shadows : Shadows s t) (self : ActorRef) :
    Shadows (sherryMainReturn s self) (sherryMainReturn t self) := by
  obtain ⟨w, m, rfl, waits, mail⟩ := shadows
  have emitted : Shadows ((t.withLists w m).emit (.returned self)) (t.emit (.returned self)) :=
    ⟨w, m, rfl, waits, mail⟩
  exact (emitted.unregActor _).yield self .returned

/-- `sherry_init` empties the lists. -/
theorem initLists (shadows : Shadows s t) :
    Shadows { s with waits := listInit (listInit s.waits .readyq) .waitingmsg }
      { t with waits := listInit (listInit t.waits .readyq) .waitingmsg } := by
  obtain ⟨w, m, rfl, waits, mail⟩ := shadows
  exact ⟨_, m, rfl, listInit_holds (listInit_holds waits), mail⟩

/-- An actor that is in no list enters one. -/
theorem enlist (shadows : Shadows s t) (list : WaitRef) (outside : ∀ l, a ∉ t.waits.seq l) :
    Shadows { s with waits := listEnqueue s.waits list a }
      { t with waits := listEnqueue t.waits list a } := by
  obtain ⟨w, m, rfl, waits, mail⟩ := shadows
  exact ⟨_, m, rfl, listEnqueue_holds waits outside, mail⟩

theorem setready (shadows : Shadows s t)
    (outside : (t.actor a).status ≠ .ready → ∀ l, a ∉ t.waits.seq l) :
    Shadows (setready s a) (setready t a) := by
  unfold Sherry.setready
  rw [shadows.actor]
  apply ite
  · exact fun blocked => (shadows.setStatus a .ready).enlist .readyq (outside blocked)
  · exact fun _ => shadows

theorem unblockLoop (shadows : Shadows s t) (list : WaitRef) (fuel : Nat) :
    Shadows (unblockLoop list fuel s) (unblockLoop list fuel t) := by
  induction fuel generalizing s t with
  | zero => exact shadows
  | succ fuel ih =>
    obtain ⟨w, m, rfl, waits, mail⟩ := shadows
    rw [Sherry.unblockLoop, Sherry.unblockLoop, State.withLists_waits]
    rcases listDequeue_holds waits list with ⟨here, there⟩ | ⟨v, q, a, here, there, held, outside⟩
    · rw [here, there]
      exact ⟨w, m, rfl, waits, mail⟩
    · rw [here, there]
      have popped : Shadows (t.withLists v m) { t with waits := q } := ⟨v, m, rfl, held, mail⟩
      exact ih (popped.setready fun _ => outside)

theorem unblockAll (shadows : Shadows s t) (list : WaitRef) :
    Shadows (unblockAll s list) (unblockAll t list) := by
  have bound : s.nactors = t.nactors := by
    obtain ⟨w, m, rfl, _⟩ := shadows
    rfl
  unfold Sherry.unblockAll
  rw [bound]
  exact shadows.unblockLoop list t.nactors

theorem schdule (shadows : Shadows s t) : Shadows (schdule s) (schdule t) := by
  obtain ⟨w, m, rfl, waits, mail⟩ := shadows
  rw [Sherry.schdule, Sherry.schdule, State.withLists_waits]
  rcases listDequeue_holds waits .readyq with ⟨here, there⟩ | ⟨v, q, a, here, there, held, _⟩
  · rw [here, there]
    exact ⟨w, m, rfl, waits, mail⟩
  · rw [here, there]
    exact ⟨v, m, rfl, held, mail⟩

theorem sherryYield (shadows : Shadows s t) (inv : Inv t) (exec : t.executing = some self)
    (frame : Frame) : Shadows (sherryYield s self frame) (sherryYield t self frame) := by
  obtain ⟨current, _⟩ := inv.placed.current self exec
  obtain ⟨_, _, outside⟩ := inv.placed.executing exec
  unfold Sherry.sherryYield
  rw [shadows.running, current]
  exact (shadows.setready fun _ => outside).yield self frame

theorem sherrySpawn (shadows : Shadows s t) (inv : Inv t) (fn : φ) :
    Shadows (sherrySpawn s fn) (sherrySpawn t fn) := by
  obtain ⟨w, m, rfl, waits, mail⟩ := shadows
  have made : Shadows (newActor (t.withLists w m) (some fn)).1 (newActor t (some fn)).1 :=
    ⟨w, _, rfl, waits, listInit_holds mail⟩
  have outside :
      ∀ l, t.nactors ∉ (Sherry.regActor (newActor t (some fn)).1 t.nactors).waits.seq l := by
    rw [regActor_eq]
    exact fun l inside => Nat.lt_irrefl _ (inv.member_allocated inside)
  have ready := (made.regActor t.nactors).setready fun _ => outside
  have done := ready.makecontext (.actor t.nactors) stackSize
  exact done.emit (congrArg (fun actors : ActorRef → Actor φ =>
    Obs.spawned t.nactors (actors t.nactors).aid) done.actor)

theorem sherryMsgSend (shadows : Shadows s t) (inv : Inv t) (mailed : Mailed t) (self : ActorRef)
    (dst msgtype : Int) (payload : Sds) :
    Machine.Matches Shadows (sherryMsgSend s self dst msgtype payload)
      (sherryMsgSend t self dst msgtype payload) := by
  obtain ⟨w, m, rfl, waits, mail⟩ := shadows
  apply Machine.Matches.ite
  · exact fun _ => .error _
  · intro _
    have same : (t.withLists w m).slot dst.toNat = t.slot dst.toNat := rfl
    rw [same]
    cases t.slot dst.toNat with
    | none => exact .error _
    | some recver =>
      have fresh : ∀ a, t.nmsgs ∉ t.mail.seq a := fun a inside =>
        Nat.lt_irrefl _ (mailed.below a _ inside)
      have delivered := listEnqueue_holds (l := recver) mail fresh
      apply Machine.Matches.ite
      · intro waiting
        have member : recver ∈ t.waits.seq .waitingmsg := inv.placed.mem_waitingmsg.mpr waiting
        have left := listErase_member waits member
        exact .ok (setready ⟨_, _, rfl, left, delivered⟩ fun _ => erase_outside waits member)
      · exact fun _ => .ok ⟨w, _, rfl, waits, delivered⟩

theorem msgRecvTail (shadows : Shadows s t) (self a : ActorRef) :
    Shadows (msgRecvTail s self a) (msgRecvTail t self a) := by
  obtain ⟨w, m, rfl, waits, mail⟩ := shadows
  rw [Sherry.msgRecvTail, Sherry.msgRecvTail, State.withLists_mail]
  rcases listDequeue_holds mail a with ⟨here, there⟩ | ⟨v, q, node, here, there, held, _⟩
  · rw [here, there]
    exact ⟨w, m, rfl, waits, mail⟩
  · rw [here, there]
    exact ⟨w, v, rfl, waits, held⟩

theorem sherryMsgRecv (shadows : Shadows s t) (inv : Inv t) (exec : t.executing = some self) :
    Shadows (sherryMsgRecv s self) (sherryMsgRecv t self) := by
  obtain ⟨current, _⟩ := inv.placed.current self exec
  obtain ⟨_, _, outside⟩ := inv.placed.executing exec
  have running := shadows.running
  have empty : listEmpty s.mail t.running = listEmpty t.mail t.running := by
    obtain ⟨w, m, rfl, _, mail⟩ := shadows
    exact listEmpty_holds mail
  subst current
  simp only [Sherry.sherryMsgRecv, running, empty]
  apply ite
  · intro _
    have waiting := (shadows.setStatus t.running .waitMsg).enlist .waitingmsg outside
    exact waiting.yield t.running (.recv t.running)
  · exact fun _ => shadows.msgRecvTail t.running t.running

theorem sherryMsgFree (shadows : Shadows s t) (node : MsgRef) :
    Shadows (sherryMsgFree s node) (sherryMsgFree t node) := by
  obtain ⟨w, m, rfl, waits, mail⟩ := shadows
  exact ⟨w, m, rfl, waits, mail⟩

theorem sherryFdTcp (shadows : Shadows s t) (allocated : Bool) :
    Shadows (sherryFdTcp s allocated) (sherryFdTcp t allocated) := by
  obtain ⟨w, m, rfl, waits, mail⟩ := shadows
  cases allocated with
  | false => exact ⟨w, m, rfl, waits, mail⟩
  | true => exact ⟨_, m, rfl, listInit_holds (listInit_holds waits), mail⟩

theorem freeBase (shadows : Shadows s t) (base : Option BufRef) :
    Shadows (freeBase s base) (freeBase t base) := by
  cases base with
  | none => exact shadows
  | some b => exact shadows.srfree (.buf b)

theorem closeCb (shadows : Shadows s t) (fd : FdRef) : Shadows (closeCb s fd) (closeCb t fd) := by
  obtain ⟨w, m, rfl, waits, mail⟩ := shadows
  have same : (t.withLists w m).fd = t.fd := rfl
  rw [Sherry.closeCb, Sherry.closeCb, fdfree, fdfree, same]
  cases (t.fd fd).rbuf.base <;> exact ⟨w, m, rfl, waits, mail⟩

theorem sherryFdClose (shadows : Shadows s t) (fd : FdRef) :
    Machine.Matches Shadows (sherryFdClose s fd) (sherryFdClose t fd) := by
  obtain ⟨w, m, rfl, waits, mail⟩ := shadows
  apply Machine.Matches.ite
  · exact fun _ => .error _
  · exact fun _ => .ok ⟨w, m, rfl, waits, mail⟩

theorem blockFd (shadows : Shadows s t) (inv : Inv t) (exec : t.executing = some self)
    (fd : FdRef) (event : Ev) (frame : Frame) :
    Shadows (blockFd s self fd event frame) (blockFd t self fd event frame) := by
  obtain ⟨current, _⟩ := inv.placed.current self exec
  obtain ⟨_, _, outside⟩ := inv.placed.executing exec
  have running := shadows.running
  subst current
  unfold Sherry.blockFd
  rw [running]
  have waiting := (shadows.setStatus t.running .waitEv).enlist (.waitq fd event) outside
  exact waiting.yield t.running frame

theorem sherryListen (shadows : Shadows s t) (fd : Option FdRef) (ret : Int) :
    Shadows (sherryListen s fd ret) (sherryListen t fd ret) := by
  obtain ⟨w, m, rfl, waits, mail⟩ := shadows
  cases fd with
  | none => exact ⟨w, m, rfl, waits, mail⟩
  | some f =>
    apply ite
    · exact fun _ => ⟨w, m, rfl, waits, mail⟩
    · intro _
      by_cases fine : ret = 0
      · simp only [fine, ↓reduceIte]
        exact ⟨w, m, rfl, waits, mail⟩
      · simp only [fine, ↓reduceIte]
        exact ⟨w, m, rfl, waits, mail⟩

theorem sherryAccept (shadows : Shadows s t) (inv : Inv t) (exec : t.executing = some self)
    (server client : FdRef) (err : Int) :
    Shadows (sherryAccept s self server client err) (sherryAccept t self server client err) := by
  apply ite
  · exact fun _ => (shadows.setActor self _).emit rfl
  · exact fun _ => shadows.blockFd inv exec server .read (.accept server client)

theorem readCb (shadows : Shadows s t) (fd : FdRef) (nread : Int) (buf : UvBuf) :
    Shadows (readCb s fd nread buf) (readCb t fd nread buf) := by
  apply ite
  · exact fun _ => (shadows.setFd fd _).freeBase buf.base
  · intro _
    obtain ⟨w, m, rfl, waits, mail⟩ := shadows
    have delivered : Shadows
        ((t.withLists w m).emit (.delivered fd ((bytesOf t buf.base).take nread.toNat)))
        (t.emit (.delivered fd ((bytesOf t buf.base).take nread.toNat))) :=
      ⟨w, m, rfl, waits, mail⟩
    refine unblockAll (setFd (ite ?_ ?_) fd _) (.waitq fd .read)
    · exact fun _ => (delivered.freeBase (t.fd fd).rbuf.base).setFd fd _
    · exact fun _ => delivered

theorem readLoop (shadows : Shadows s t) (inv : Inv t) (exec : t.executing = some self)
    (fd : FdRef) (count : Nat) :
    Shadows (readLoop s self fd count) (readLoop t self fd count) := by
  have same : s.fd = t.fd := by
    obtain ⟨w, m, rfl, _⟩ := shadows
    rfl
  have contents : s.buf = t.buf := by
    obtain ⟨w, m, rfl, _⟩ := shadows
    rfl
  simp only [Sherry.readLoop, same]
  apply ite
  · exact fun _ => (shadows.setActor self _).emit rfl
  · intro _
    apply ite
    · intro _
      have bytes : bytesOf s = bytesOf t := by
        funext base
        simp only [bytesOf, contents]
      rw [bytes]
      exact ((shadows.setFd fd _).setActor self _).emit rfl
    · exact fun _ => shadows.blockFd inv exec fd .read (.read fd count)

theorem sherryRead (shadows : Shadows s t) (inv : Inv t) (exec : t.executing = some self)
    (fd : FdRef) (count : Nat) (err : Int) :
    Shadows (sherryRead s self fd count err) (sherryRead t self fd count err) := by
  apply ite
  · exact fun _ => shadows.emit rfl
  · exact fun _ => (shadows.setFd fd _).readLoop (inv.setFd fd _) exec fd count

theorem writeCb (shadows : Shadows s t) {req : UvWrite}
    (outside : ∀ l, req.data ∉ t.waits.seq l) (status : Int) :
    Machine.Matches Shadows (writeCb s req status) (writeCb t req status) := by
  apply Machine.Matches.ite
  · exact fun _ => .ok ((shadows.setready fun _ => outside).emit rfl)
  · exact fun _ => .error _

theorem sherryWrite (shadows : Shadows s t) (self : ActorRef) (fd : FdRef) (count : Nat)
    (ret : Int) : Shadows (sherryWrite s self fd count ret) (sherryWrite t self fd count ret) := by
  obtain ⟨w, m, rfl, waits, mail⟩ := shadows
  unfold Sherry.sherryWrite
  by_cases taken : ret = 0
  · have submitted : Shadows
        { (t.withLists w m).emit (.submitted self fd ret) with
          writes := t.writes ++ [⟨fd, t.running⟩] }
        { t.emit (.submitted self fd ret) with writes := t.writes ++ [⟨fd, t.running⟩] } :=
      ⟨w, m, rfl, waits, mail⟩
    simp only [taken, ↓reduceIte] at submitted ⊢
    exact (submitted.setStatus t.running .waitEv).yield self (.write fd count)
  · have submitted : Shadows ((t.withLists w m).emit (.submitted self fd ret))
        (t.emit (.submitted self fd ret)) := ⟨w, m, rfl, waits, mail⟩
    simp only [taken, ↓reduceIte]
    exact (submitted.setStatus t.running .waitEv).yield self (.write fd count)

theorem sherryExit (shadows : Shadows s t) (inv : Inv t) (exec : t.executing = some self) :
    Shadows (sherryExit s self) (sherryExit t self) := by
  have yields := shadows.sherryYield inv exec .exit
  obtain ⟨w, m, rfl, waits, mail⟩ := shadows
  have same : Shadows (t.withLists w m) t := ⟨w, m, rfl, waits, mail⟩
  apply ite
  · exact fun _ => yields
  · intro _
    have left := same.unregActor (t.actor t.main).aid
    exact (((left.srfree .actors).srfree .tmpstack).srfree .scheduler).ends

theorem resume (shadows : Shadows s t) (inv : Inv t) (exec : t.executing = some self) (err : Int) :
    Machine.Matches Shadows (resume s self err) (resume t self err) := by
  have live : ∀ fd, s.liveFd fd = t.liveFd fd := by
    obtain ⟨w, m, rfl, _⟩ := shadows
    exact fun _ => rfl
  simp only [Sherry.resume, shadows.actor, live]
  cases (t.actor self).frame with
  | user => exact .error _
  | entry => exact .ok (shadows.setActor self _)
  | recv a => exact .ok (shadows.msgRecvTail self a)
  | accept server client =>
    apply Machine.Matches.ite
    · exact fun _ => .ok (shadows.sherryAccept inv exec server client err)
    · exact fun _ => .error _
  | read fd count =>
    apply Machine.Matches.ite
    · exact fun _ => .ok (shadows.readLoop inv exec fd count)
    · exact fun _ => .error _
  | write fd count => exact .ok ((shadows.setActor self _).emit rfl)
  | exit => exact .ok (shadows.sherryExit inv exec)
  | returned => exact .error _

/-- Calls match when their bodies do, in the actor that executes its own code. -/
theorem call (shadows : Shadows s t) {body : ActorRef → Except Fault (State LinkedLists φ)}
    {body' : ActorRef → Except Fault (State Seqs φ)}
    (bodies : ∀ self, t.inUser = some self → Machine.Matches Shadows (body self) (body' self)) :
    Machine.Matches Shadows (call s body) (call t body') := by
  have same : s.inUser = t.inUser := by
    obtain ⟨w, m, rfl, _⟩ := shadows
    rfl
  unfold Sherry.call
  rw [same]
  cases user : t.inUser with
  | none => exact .error _
  | some self => exact bodies self user

/-- Code of the scheduler's stack matches when it does under its condition. -/
theorem onLoop (shadows : Shadows s t) {inUvRun : Bool} {allowed : Prop} [Decidable allowed]
    {body : Except Fault (State LinkedLists φ)} {body' : Except Fault (State Seqs φ)}
    (bodies : t.onScheduler inUvRun = true → allowed → Machine.Matches Shadows body body') :
    Machine.Matches Shadows (onLoop s inUvRun allowed body) (onLoop t inUvRun allowed body') := by
  obtain ⟨w, m, rfl, waits, mail⟩ := shadows
  apply Machine.Matches.ite
  · exact fun enabled => bodies enabled.1 enabled.2
  · exact fun _ => .error _

/-- A call on a descriptor matches when its body does. -/
theorem fdCall (shadows : Shadows s t) {fd : FdRef}
    {body : ActorRef → Except Fault (State LinkedLists φ)}
    {body' : ActorRef → Except Fault (State Seqs φ)}
    (bodies : ∀ self, t.inUser = some self → Machine.Matches Shadows (body self) (body' self)) :
    Machine.Matches Shadows (fdCall s fd body) (fdCall t fd body') := by
  obtain ⟨w, m, rfl, waits, mail⟩ := shadows
  apply call ⟨w, m, rfl, waits, mail⟩
  intro self user
  apply Machine.Matches.ite
  · exact fun _ => bodies self user
  · exact fun _ => .error _

/-- One event does the same to both states. -/
theorem step (shadows : Shadows s t) (sound : Sound t) (mailed : Mailed t) (e : Event φ) :
    Machine.Matches Shadows (step s e) (step t e) := by
  have executes : ∀ {self}, t.inUser = some self → Inv t ∧ t.executing = some self := by
    intro self user
    obtain ⟨live, exec, _⟩ := inUser_iff.mp user
    exact ⟨sound live, exec⟩
  obtain ⟨w, m, rfl, waits, mail⟩ := shadows
  have same : Shadows (t.withLists w m) t := ⟨w, m, rfl, waits, mail⟩
  cases e with
  | compute ctx =>
    apply same.call
    intro self user
    apply Machine.Matches.ite
    · exact fun _ => .ok ⟨w, m, rfl, waits, mail⟩
    · exact fun _ => .error _
  | spawn fn => exact same.call fun self user => .ok (same.sherrySpawn (executes user).1 fn)
  | yield =>
    apply same.call
    intro self user
    obtain ⟨inv, exec⟩ := executes user
    exact .ok (same.sherryYield inv exec .user)
  | send dst msgtype payload =>
    apply same.call
    intro self user
    obtain ⟨inv, _⟩ := executes user
    exact same.sherryMsgSend inv mailed self dst msgtype payload
  | recv =>
    apply same.call
    intro self user
    obtain ⟨inv, exec⟩ := executes user
    exact .ok (same.sherryMsgRecv inv exec)
  | msgFree node => exact same.call fun self user => .ok (same.sherryMsgFree node)
  | fdTcp allocated => exact same.call fun self user => .ok (same.sherryFdTcp allocated)
  | listen fd ret =>
    apply same.call
    intro self user
    apply Machine.Matches.ite
    · exact fun _ => .ok (same.sherryListen fd ret)
    · exact fun _ => .error _
  | accept server client err =>
    apply same.fdCall
    intro self user
    obtain ⟨inv, exec⟩ := executes user
    apply Machine.Matches.ite
    · exact fun _ => .ok (same.sherryAccept inv exec server client err)
    · exact fun _ => .error _
  | read fd count err =>
    apply same.fdCall
    intro self user
    obtain ⟨inv, exec⟩ := executes user
    exact .ok (same.sherryRead inv exec fd count err)
  | write fd count ret =>
    exact same.fdCall fun self user => .ok (same.sherryWrite self fd count ret)
  | close fd => exact same.fdCall fun self user => same.sherryFdClose fd
  | ret =>
    apply same.call
    intro self user
    apply Machine.Matches.ite
    · exact fun _ => .error _
    · exact fun _ => .ok (same.sherryMainReturn self)
  | exit =>
    apply same.call
    intro self user
    obtain ⟨inv, exec⟩ := executes user
    apply Machine.Matches.ite
    · exact fun _ => .ok (same.sherryExit inv exec)
    · exact fun _ => .error _
  | resume err =>
    apply Machine.Matches.ite
    · exact fun _ => .error _
    · intro live
      have ended : t.exited = false := Bool.eq_false_iff.mpr live
      have exec : (t.withLists w m).executing = t.executing := rfl
      rw [exec]
      cases exec : t.executing with
      | none => exact .error _
      | some self => exact same.resume (sound ended) exec err
  | schdule => exact same.onLoop fun _ _ => .ok same.schdule
  | uvReturn => exact same.onLoop fun _ _ => .ok ⟨w, m, rfl, waits, mail⟩
  | listenCb fd status => exact same.onLoop fun _ _ => .ok (same.unblockAll (.waitq fd .read))
  | readCb fd nread content allocated =>
    apply same.onLoop
    intro _ _
    cases allocated with
    | false => exact .ok (same.readCb fd nread _)
    | true =>
      have filled : Shadows (rbufAlloc (t.withLists w m) content true).1
          (rbufAlloc t content true).1 := ⟨w, m, rfl, waits, mail⟩
      exact .ok (filled.readCb fd nread _)
  | writeCb req status =>
    apply same.onLoop
    intro on pending
    have placed := (sound (onScheduler_iff.mp on).1).placed
    have outside := placed.homed.not_mem (requesting placed pending).2
    have called : Shadows { t.withLists w m with writes := t.writes.erase req }
        { t with writes := t.writes.erase req } := ⟨w, m, rfl, waits, mail⟩
    exact called.writeCb outside status
  | closeCb fd => exact same.onLoop fun _ _ => .ok (same.closeCb fd)

end Shadows

/-- `sherry_init` starts with empty lists. -/
theorem shadows_sherryInit :
    Shadows (sherryInit : State LinkedLists φ) (sherryInit : State Seqs φ) := by
  have waits : (ListStore.blank : LinkedLists WaitRef ActorRef).Holds ListStore.blank :=
    LinkedLists.Holds.empty (fun _ => rfl) fun _ => rfl
  have mail : (ListStore.blank : LinkedLists ActorRef MsgRef).Holds ListStore.blank :=
    LinkedLists.Holds.empty (fun _ => rfl) fun _ => rfl
  have made : Shadows (newActor (processStart : State LinkedLists φ) none).1
      (newActor (processStart : State Seqs φ) none).1 :=
    ⟨_, _, rfl, waits, listInit_holds mail⟩
  have registered := made.regActor 0
  have running := registered.setrunning 0
  exact running.initLists.makecontext .scheduler stackSize

/-- A run on linked lists and the same run on sequences pass through states that agree. -/
theorem run_shadows (es : List (Event φ)) :
    Machine.Matches Shadows (Machine.run step (sherryInit : State LinkedLists φ) es)
      (Machine.run step (sherryInit : State Seqs φ) es) := by
  have kept : ∀ {t : State Seqs φ} {e : Event φ} {t' : State Seqs φ},
      Sound t ∧ Mailed t → step t e = .ok t' → Sound t' ∧ Mailed t' := by
    rintro t e t' ⟨sound, mailed⟩ taken
    obtain ⟨inv, _, after⟩ := step_sound sound taken
    exact ⟨after, mailed_step inv mailed taken⟩
  exact Machine.run_matches kept (fun e shadows inv => shadows.step inv.1 inv.2 e)
    shadows_sherryInit ⟨fun _ => inv_sherryInit, mailed_sherryInit⟩ es

/-- What is seen of the links of a state that agrees with a state with sequences. -/
structure Linked (s : State LinkedLists φ) (t : State Seqs φ) : Prop where
  /-- All but the lists is equal. -/
  rest : s = t.withLists s.waits s.mail
  /-- `readyq`, `waitingmsg` and every wait queue, walked both ways. -/
  waits : ∀ l, s.waits.Walks l (t.waits.seq l)
  /-- Every mailbox, walked both ways. -/
  mail : ∀ a, s.mail.Walks a (t.mail.seq a)
  /-- An actor is in one list at most, and there once. -/
  waitsApart : (∀ l, (t.waits.seq l).Nodup) ∧
    ∀ l m a, a ∈ t.waits.seq l → a ∈ t.waits.seq m → l = m
  /-- A message is in one mailbox at most, and there once. -/
  mailApart : (∀ a, (t.mail.seq a).Nodup) ∧
    ∀ a b m, m ∈ t.mail.seq a → m ∈ t.mail.seq b → a = b
  /-- The next actor. -/
  picks : (schdule s).running = (schdule t).running ∧ (schdule s).executing = (schdule t).executing

/-- The links are those of the sequences. -/
theorem Shadows.linked {s : State LinkedLists φ} {t : State Seqs φ} (shadows : Shadows s t) :
    Linked s t := by
  have next := shadows.schdule
  obtain ⟨w, m, rfl, waits, mail⟩ := shadows
  constructor
  · rfl
  · exact fun l => (waits.lists l).walks
  · exact fun a => (mail.lists a).walks
  · exact ⟨waits.nodup, waits.disjoint⟩
  · exact ⟨mail.nodup, mail.disjoint⟩
  · refine ⟨next.running, ?_⟩
    obtain ⟨v, n, same, _⟩ := next
    rw [same]
    rfl

/-- Every run of the program on linked lists is the run on sequences: it faults where that one
does, and otherwise every list is its sequence in both directions, the lists share no node, all
the rest of the state is equal, and the same actor is next. -/
theorem run_linked (es : List (Event φ)) :
    Machine.Matches Linked (Machine.run step (sherryInit : State LinkedLists φ) es)
      (Machine.run step (sherryInit : State Seqs φ) es) :=
  (run_shadows es).imp fun _ shadows => shadows.linked

end Sherry
