import Sherry.Library.Ledger
import Sherry.Verif.ReadOrder

/-!
# Who owns a read buffer

A read buffer passes from `rbuf_alloc` to `read_cb`, which frees it at once or stores it in the
descriptor and frees the one it replaces, and `fdfree` frees the last. So the descriptors and
their buffers are a ledger, in which `rbuf.base` is the slot of a descriptor, and in every state
of a run that ledger is balanced.
-/

namespace Sherry

variable {φ : Type} {s t : State Seqs φ} {e : Event φ} {fd : FdRef} {b : BufRef}

/-- The buffer that an event allocates, with the descriptor it is for. -/
def allocates (s : State Seqs φ) : Event φ → List (FdRef × BufRef)
  | .readCb fd _ _ true => [(fd, s.nbufs)]
  | _ => []

/-- The read buffer behind a pointer. -/
def Ptr.buffer : Ptr → Option BufRef
  | .buf b => some b
  | _ => none

/-- The descriptor behind a pointer. -/
def Ptr.descriptor : Ptr → Option FdRef
  | .fd fd => some fd
  | _ => none

/-- The read buffers of a state as resources of the descriptors. -/
def ledger (drawn : List (FdRef × BufRef)) (s : State Seqs φ) : Ledger FdRef BufRef where
  drawn := drawn
  returned := s.freed.filterMap Ptr.buffer
  slot fd := (s.fd fd).rbuf.base
  left := s.freed.filterMap Ptr.descriptor

/-- A pointer to a buffer is one to it alone. -/
theorem Ptr.buffer_iff {p : Ptr} : p.buffer = some b ↔ p = .buf b := by
  cases p <;> simp [Ptr.buffer]

/-- A pointer to a descriptor is one to it alone. -/
theorem Ptr.descriptor_iff {p : Ptr} : p.descriptor = some fd ↔ p = .fd fd := by
  cases p <;> simp [Ptr.descriptor]

/-- A buffer was given back when it was freed. -/
theorem mem_returned {drawn : List (FdRef × BufRef)} :
    b ∈ (ledger drawn s).returned ↔ .buf b ∈ s.freed := by
  simp only [ledger, List.mem_filterMap, Ptr.buffer_iff, exists_eq_right]

/-- A descriptor has left when it was freed. -/
theorem mem_left {drawn : List (FdRef × BufRef)} :
    fd ∈ (ledger drawn s).left ↔ .fd fd ∈ s.freed := by
  simp only [ledger, List.mem_filterMap, Ptr.descriptor_iff, exists_eq_right]

/-- A buffer was given back as often as it was freed. -/
theorem count_returned {drawn : List (FdRef × BufRef)} :
    (ledger drawn s).returned.count b = s.freed.count (.buf b) := by
  rw [ledger, List.count_filterMap, List.count_eq_countP]
  apply List.countP_congr
  intro p _
  simp only [beq_iff_eq, Ptr.buffer_iff]

/-- What an event does to the ledger. -/
inductive LedgerChange (s t : State Seqs φ) (e : Event φ) : Prop
  | kept (draws : allocates s e = []) (nbufs : t.nbufs = s.nbufs)
      (same : ∀ drawn, ledger drawn t = ledger drawn s)
  | rejected {fd : FdRef} (draws : allocates s e = [(fd, s.nbufs)]) (nbufs : t.nbufs = s.nbufs + 1)
      (same : ∀ drawn, ledger (drawn ++ [(fd, s.nbufs)]) t = (ledger drawn s).reject fd s.nbufs)
  | stored {fd : FdRef} (draws : allocates s e = [(fd, s.nbufs)]) (nbufs : t.nbufs = s.nbufs + 1)
      (live : .fd fd ∉ s.freed)
      (same : ∀ drawn, ledger (drawn ++ [(fd, s.nbufs)]) t = (ledger drawn s).keep fd s.nbufs)
  | released {fd : FdRef} (draws : allocates s e = []) (nbufs : t.nbufs = s.nbufs)
      (live : .fd fd ∉ s.freed) (same : ∀ drawn, ledger drawn t = (ledger drawn s).leave fd)

/-- An event that stores no buffer and frees neither a buffer nor a descriptor. -/
theorem LedgerChange.silent (draws : allocates s e = []) (nbufs : t.nbufs = s.nbufs)
    (base : ∀ fd, (t.fd fd).rbuf.base = (s.fd fd).rbuf.base) (more : List Ptr)
    (freed : t.freed = s.freed ++ more)
    (other : ∀ p ∈ more, p.buffer = none ∧ p.descriptor = none) : LedgerChange s t e := by
  refine .kept draws nbufs fun drawn => ?_
  have no_buffer : more.filterMap Ptr.buffer = [] :=
    List.filterMap_eq_nil_iff.mpr fun p member => (other p member).1
  have no_descriptor : more.filterMap Ptr.descriptor = [] :=
    List.filterMap_eq_nil_iff.mpr fun p member => (other p member).2
  have slot : (fun fd => (t.fd fd).rbuf.base) = fun fd => (s.fd fd).rbuf.base := funext base
  simp [ledger, freed, no_buffer, no_descriptor, slot]

/-- An event of the loop of `sherry_read` allocates nothing. -/
theorem InRead.allocates {self : ActorRef} {count : Nat} {at_loop : State Seqs φ}
    (enters : InRead s e self fd count at_loop) : allocates s e = [] := by
  rcases enters with ⟨rfl, _⟩ | ⟨_, rfl, _⟩ <;> rfl

/-- An event of the loop of `sherry_read` stores and frees nothing. -/
theorem InRead.ledger {self : ActorRef} {count : Nat} {at_loop : State Seqs φ}
    (enters : InRead s e self fd count at_loop) (nbufs : t.nbufs = at_loop.nbufs)
    (base : ∀ fd, (t.fd fd).rbuf.base = (at_loop.fd fd).rbuf.base)
    (freed : t.freed = at_loop.freed) : LedgerChange s t e := by
  have same : at_loop.freed = s.freed := by
    rcases enters with ⟨_, _, rfl⟩ | ⟨_, _, _, rfl⟩ <;> rfl
  refine .silent enters.allocates (nbufs.trans enters.same_rest.2.2.1) ?_ [] ?_ (by simp)
  · exact fun g => (base g).trans (congrArg UvBuf.base (enters.same_fds g).1)
  · rw [freed, same, List.append_nil]

/-- `read_cb` with an error or with nothing read frees the buffer it was given. -/
theorem failRead_ledger {nread : Int} {content : List UInt8} {allocated : Bool} :
    LedgerChange s (failRead s fd nread content allocated)
      (.readCb fd nread content allocated) := by
  have base : ∀ g, ((failRead s fd nread content allocated).fd g).rbuf.base =
      (s.fd g).rbuf.base := by
    intro g
    by_cases here : g = fd
    · simp [failRead, here]
    · simp [failRead, here]
  cases allocated with
  | false => exact .silent rfl rfl base [] rfl (by simp)
  | true =>
    refine .rejected rfl rfl fun drawn => ?_
    ext1
    · rfl
    · simp [ledger, failRead, Ledger.reject, Ptr.buffer]
    · exact funext base
    · simp [ledger, failRead, Ledger.reject, Ptr.descriptor]

/-- `read_cb` with data stores its buffer and frees the one before. -/
theorem receive_ledger {nread : Int} {content : List UInt8} {list : WaitRef}
    (live : .fd fd ∉ s.freed) :
    LedgerChange s (wakeAll (receive s fd nread content) list) (.readCb fd nread content true) := by
  refine .stored rfl rfl live fun drawn => ?_
  ext1
  · rfl
  · cases base : (s.fd fd).rbuf.base <;>
      simp [ledger, wakeAll, receive, Ledger.keep, Ptr.buffer, base]
  · funext g
    by_cases here : g = fd
    · subst here
      simp [ledger, wakeAll, receive, Ledger.keep]
    · simp [ledger, wakeAll, receive, Ledger.keep, here]
  · cases base : (s.fd fd).rbuf.base <;>
      simp [ledger, wakeAll, receive, Ledger.keep, Ptr.descriptor, base]

/-- `close_cb` frees the buffer of its descriptor and the descriptor. -/
theorem released_ledger (live : .fd fd ∉ s.freed) :
    LedgerChange s (released s fd) (.closeCb fd) := by
  refine .released rfl rfl live fun drawn => ?_
  ext1
  · rfl
  · cases base : (s.fd fd).rbuf.base <;> simp [ledger, released, Ledger.leave, Ptr.buffer, base]
  · rfl
  · cases base : (s.fd fd).rbuf.base <;>
      simp [ledger, released, Ledger.leave, List.filterMap_cons, Ptr.descriptor, base]

/-- An event does one of four things to the ledger. -/
theorem Outcome.ledger_change (buffered : Buffered s) (outcome : Outcome s e t)
    (happened : step s e = .ok t) : LedgerChange s t e := by
  have idle : ∀ {u : State Seqs φ} {e : Event φ}, allocates s e = [] → u.nbufs = s.nbufs →
      u.fd = s.fd → u.freed = s.freed → LedgerChange s u e := fun draws nbufs fd freed =>
    .silent draws nbufs (by simp [fd]) [] (by simp [freed]) (by simp)
  have handled : ∀ {u : State Seqs φ} {e : Event φ}, allocates s e = [] → u.nbufs = s.nbufs →
      SameFds s u → u.freed = s.freed → LedgerChange s u e := fun draws nbufs fds freed =>
    .silent draws nbufs (fun g => congrArg UvBuf.base (fds g).1) [] (by simp [freed]) (by simp)
  cases outcome with
  | spawns =>
    rw [sherrySpawn_eq]
    exact idle rfl rfl rfl rfl
  | sends =>
    unfold revoke
    split <;> exact idle rfl rfl rfl rfl
  | receives _ enters => rcases enters with ⟨rfl, _⟩ | ⟨_, rfl, _⟩ <;> exact idle rfl rfl rfl rfl
  | @frees _ m =>
    refine .silent rfl rfl (fun _ => rfl) [.payload (s.msg m).payload, .msg m] ?_ ?_
    · simp [sherryMsgFree, State.srfree]
    · simp [Ptr.buffer, Ptr.descriptor]
  | opens => exact handled rfl rfl (openedFd_same buffered) rfl
  | listens => exact handled rfl rfl (.handle (by rfl)) rfl
  | accepts _ enters => rcases enters with ⟨rfl, _⟩ | ⟨rfl, _⟩ <;> exact idle rfl rfl rfl rfl
  | blocksAccept _ enters =>
    rcases enters with ⟨rfl, _⟩ | ⟨rfl, _⟩ <;> exact idle rfl rfl rfl rfl
  | readError _ enters => exact enters.ledger rfl (fun _ => rfl) rfl
  | @readBytes _ _ f _ at_loop _ enters =>
    refine enters.ledger rfl (fun g => ?_) rfl
    by_cases here : g = f
    · simp [consume, here]
    · simp [consume, here]
  | blocksRead _ enters => exact enters.ledger rfl (fun _ => rfl) rfl
  | closes => exact handled rfl rfl (.handle (by rfl)) rfl
  | lingers _ enters => rcases enters with ⟨rfl, _⟩ | ⟨_, rfl, _⟩ <;> exact idle rfl rfl rfl rfl
  | ends _ enters =>
    have freed : (ended s).freed = s.freed ++ [.actors, .tmpstack, .scheduler] := rfl
    rcases enters with ⟨rfl, _⟩ | ⟨_, rfl, _⟩ <;>
      exact .silent rfl rfl (fun _ => rfl) _ freed (by simp [Ptr.buffer, Ptr.descriptor])
  | fails => exact failRead_ledger
  | delivers _ _ live some_read =>
    obtain ⟨_, ⟨_, _, _, allocates⟩, _⟩ := onLoop_ok.mp happened
    obtain rfl := allocates some_read
    simp only [State.openFd, Bool.and_eq_true] at live
    exact receive_ledger (liveFd_iff.mp live.1).2
  | closed _ _ live => exact released_ledger (liveFd_iff.mp live).2
  | _ => exact idle rfl rfl rfl rfl

/-- The buffers that were allocated, each with its descriptor, balance with those that were freed
and those in use. -/
structure Accounts (drawn : List (FdRef × BufRef)) (s : State Seqs φ) : Prop where
  /-- Every allocated buffer is listed once. -/
  numbers : drawn.map Prod.snd = List.range s.nbufs
  /-- The ledger is balanced. -/
  balanced : (ledger drawn s).Balanced

/-- A buffer that is allocated next was never drawn. -/
theorem Accounts.fresh {drawn : List (FdRef × BufRef)} (accounts : Accounts drawn s) :
    s.nbufs ∉ (ledger drawn s).drawn.map Prod.snd := by
  show s.nbufs ∉ drawn.map Prod.snd
  rw [accounts.numbers]
  exact List.not_mem_range_self

/-- The list grows by the buffer that an event allocates. -/
theorem Accounts.draw {drawn : List (FdRef × BufRef)} (accounts : Accounts drawn s)
    (nbufs : t.nbufs = s.nbufs + 1) :
    (drawn ++ [(fd, s.nbufs)]).map Prod.snd = List.range t.nbufs := by
  rw [nbufs, List.range_succ, ← accounts.numbers, List.map_append]
  rfl

/-- Every event keeps the accounts. -/
theorem accounts_step {drawn : List (FdRef × BufRef)} (accounts : Accounts drawn s)
    (change : LedgerChange s t e) : Accounts (drawn ++ allocates s e) t := by
  have balanced := accounts.balanced
  cases change with
  | kept draws nbufs same =>
    rw [draws, List.append_nil]
    exact ⟨nbufs ▸ accounts.numbers, same drawn ▸ balanced⟩
  | rejected draws nbufs same =>
    rw [draws]
    exact ⟨accounts.draw nbufs, same drawn ▸ balanced.reject accounts.fresh⟩
  | stored draws nbufs live same =>
    rw [draws]
    exact ⟨accounts.draw nbufs, same drawn ▸ balanced.keep accounts.fresh (mem_left.not.mpr live)⟩
  | released draws nbufs live same =>
    rw [draws, List.append_nil]
    exact ⟨nbufs ▸ accounts.numbers, same drawn ▸ balanced.leave (mem_left.not.mpr live)⟩

/-- The buffers that a run allocates, each with its descriptor. -/
def allocated (es : List (Event φ)) : List (FdRef × BufRef) :=
  Machine.collect step allocates (sherryInit : State Seqs φ) es

/-- Every run keeps the accounts. -/
theorem run_accounts {es : List (Event φ)}
    (ran : Machine.run step (sherryInit : State Seqs φ) es = .ok s) :
    Accounts (allocated es) s := by
  let books (drawn : List (FdRef × BufRef)) (s : State Seqs φ) : Prop :=
    Sound s ∧ Buffered s ∧ Accounts drawn s
  have kept : ∀ {drawn s e t}, books drawn s → True → step s e = .ok t →
      books (drawn ++ allocates s e) t := by
    rintro drawn s e t ⟨sound, buffered, accounts⟩ _ happened
    obtain ⟨inv, outcome, after⟩ := step_sound sound happened
    exact ⟨after, buffered_step inv buffered happened,
      accounts_step accounts (outcome.ledger_change buffered happened)⟩
  have start : books [] (sherryInit : State Seqs φ) := by
    refine ⟨fun _ => inv_sherryInit, buffered_sherryInit, ?_⟩
    rw [sherryInit_eq]
    exact ⟨rfl, .empty fun _ => rfl⟩
  have always : Machine.Along step (fun _ _ => True) (sherryInit : State Seqs φ) es :=
    .all (fun _ _ => trivial) _ es
  exact (Machine.run_keeps_collected kept start always ran).2.2

/-- A `sherry_read` that finds no error and unread bytes copies them out of the buffer of its
descriptor, which was not freed, from the offset on and not beyond the end. -/
theorem read_copies {count : Nat} (buffered : Buffered s) (reads : readAt s e = some (fd, count))
    (sound : (s.fd fd).rerror = 0) (unread : Unread s fd) (happened : step s e = .ok t) :
    .fd fd ∉ s.freed ∧ ∃ b self, (s.fd fd).rbuf.base = some b ∧
      (s.fd fd).roffset + copied (s.fd fd) count ≤ (s.buf b).length ∧
      t.trace = s.trace ++ [.read self fd (copied (s.fd fd) count)
        (((s.buf b).drop (s.fd fd).roffset).take (copied (s.fd fd) count))] := by
  obtain ⟨b, base⟩ := Option.isSome_iff_exists.mp unread.1
  have size : (s.buf b).length = (s.fd fd).rbuf.len := by
    have same := buffered.size fd
    rwa [base] at same
  have bytes : window s fd = (s.buf b).drop (s.fd fd).roffset := by
    rw [window, base]
    rfl
  obtain ⟨self, at_loop, _, enters, live, rfl⟩ := read_consumes reads sound unread happened
  refine ⟨(liveFd_iff.mp live).2, b, self, base, ?_, bytes ▸ enters.consume_trace⟩
  have more := unread.2
  unfold copied
  omega

/-- Main blocks in `sherry_read` on a connection; a buffer arrives, then another one, and then the
end of file with a third. -/
def replacedRun : List (Event Unit) :=
  connected ++ [.read 1 5 0, .schdule, .readCb 1 2 [65, 66] true, .readCb 1 1 [67] true,
    .readCb 1 uvEof [0] true]

end Sherry
