import Sherry.Verif.Descriptors

/-!
# Streams

Each descriptor is a flow. `read_cb` stores the size of the allocation as the size of the
buffer, so a read may run past the received chunk, and it replaces a buffer without looking at
the offset, so a delivery may drop unread bytes. The two conditions below say when neither
happens: `Within` for what is returned, `Drained` for what is kept.
-/

namespace Sherry

variable {φ : Type} {s t : State Seqs φ} {self a : ActorRef} {e : Event φ} {fd : FdRef}

/-- The stream of a descriptor: what it received and returned, and its buffer. -/
def flow (s : State Seqs φ) (fd : FdRef) : ChunkFlow UInt8 where
  received := receivedBytes fd s.trace
  returned := returnedBytes fd s.trace
  chunk := lastDelivery fd s.trace
  buffer := bytesOf s (s.fd fd).rbuf.base
  offset := (s.fd fd).roffset

/-- What an event does to a stream. -/
inductive FlowChange (s t : State Seqs φ) (e : Event φ) (fd : FdRef) : Prop
  | kept (same : flow t fd = flow s fd)
  | delivered {nread : Int} {content : List UInt8} {allocated : Bool}
      (event : e = .readCb fd nread content allocated) (some_read : 0 < nread)
      (same : flow t fd = (flow s fd).deliver (content.take nread.toNat) content)
  | took {self : ActorRef} {count : Nat} {at_loop : State Seqs φ} (exec : s.executing = some self)
      (enters : InRead s e self fd count at_loop) (sound : (s.fd fd).rerror = 0)
      (unread : (s.fd fd).roffset < (s.fd fd).rbuf.len)
      (same : flow t fd = (flow s fd).take (copied (s.fd fd) count))

/-- Every event is a step of the flow of each descriptor: a delivery, a read or nothing. -/
theorem FdChange.flow (change : FdChange s t e fd) : FlowChange s t e fd := by
  cases change with
  | kept rbuf roffset _ bytes quiet same =>
    refine .kept ?_
    simp only [Sherry.flow, receivedBytes, lastDelivery, rbuf, roffset, bytes, quiet, same]
  | failed _ _ _ rbuf roffset _ bytes quiet same =>
    refine .kept ?_
    simp only [Sherry.flow, receivedBytes, lastDelivery, rbuf, roffset, bytes, quiet, same]
  | delivered event _ some_read _ _ rbuf roffset _ bytes more same =>
    refine .delivered event some_read ?_
    simp [Sherry.flow, ChunkFlow.deliver, receivedBytes, lastDelivery, rbuf, roffset, bytesOf,
      bytes, more, same]
  | took exec enters sound unread rbuf roffset _ bytes quiet more =>
    refine .took exec enters sound unread ?_
    simp only [Sherry.flow, ChunkFlow.take, ChunkFlow.window, receivedBytes, lastDelivery, rbuf,
      roffset, bytes, quiet, more, window]

/-- `read_cb` with data is a delivery. -/
theorem flow_receive (buffered : Buffered s) {nread : Int} {content : List UInt8} :
    flow (wakeAll (receive s fd nread content) (.waitq fd .read)) fd =
      (flow s fd).deliver (content.take nread.toNat) content := by
  cases base : (s.fd fd).rbuf.base with
  | none =>
    simp [flow, ChunkFlow.deliver, wakeAll, receive, receivedBytes, lastDelivery, deliveries,
      delivery, returnedBytes, returnedIn, bytesOf, base, buffered.zero base]
  | some b =>
    simp [flow, ChunkFlow.deliver, wakeAll, receive, receivedBytes, lastDelivery, deliveries,
      delivery, returnedBytes, returnedIn, bytesOf, base]

/-- A flow's chunk is the start of its buffer. -/
theorem valid_step (change : FlowChange s t e fd) (valid : (flow s fd).Valid) :
    (flow t fd).Valid := by
  cases change with
  | kept same => rwa [same]
  | delivered _ _ same =>
    rw [same]
    exact ChunkFlow.valid_deliver (List.take_prefix _ _)
  | took _ _ _ _ same =>
    rw [same]
    exact ChunkFlow.valid_take valid

/-- The streams after `sherry_init` have passed nothing. -/
theorem flow_sherryInit : flow (sherryInit : State Seqs φ) fd = ⟨[], [], [], [], 0⟩ := by
  rw [sherryInit_eq]
  simp [flow, receivedBytes, lastDelivery, deliveries, delivery, returnedBytes, returnedIn,
    bytesOf]

/-- A property of valid streams that the steps meeting a condition keep holds of every stream at
the end of every run whose steps all meet it. -/
theorem run_flow {property : ChunkFlow UInt8 → Prop} {condition : State Seqs φ → Event φ → Prop}
    (start : property ⟨[], [], [], [], 0⟩)
    (kept : ∀ {s e t}, condition s e → FlowChange s t e fd → (flow s fd).Valid →
      property (flow s fd) → property (flow t fd))
    {es : List (Event φ)} (met : Machine.Along step condition sherryInit es)
    (ran : Machine.run step sherryInit es = .ok s) : (flow s fd).Valid ∧ property (flow s fd) := by
  have keeps : ∀ {s : State Seqs φ} {e : Event φ} {t : State Seqs φ}, Inv s →
      Buffered s ∧ (flow s fd).Valid ∧ property (flow s fd) → condition s e → step s e = .ok t →
        Buffered t ∧ (flow t fd).Valid ∧ property (flow t fd) := by
    rintro s e t inv ⟨buffered, valid, holds⟩ met happened
    have change := ((step_outcome inv happened).fd_change buffered fd).flow
    exact ⟨buffered_step inv buffered happened, valid_step change valid,
      kept met change valid holds⟩
  have first : Buffered (sherryInit : State Seqs φ) ∧ (flow (sherryInit : State Seqs φ) fd).Valid ∧
      property (flow (sherryInit : State Seqs φ) fd) := by
    rw [flow_sherryInit]
    exact ⟨buffered_sherryInit, List.nil_prefix, start⟩
  exact (run_along first keeps met ran).2

/-- The descriptor and the count of the `sherry_read` whose loop the event runs. -/
def readAt (s : State Seqs φ) : Event φ → Option (FdRef × Nat)
  | .read fd count 0 => some (fd, count)
  | .resume _ =>
    match s.executing with
    | some self =>
      match (s.actor self).frame with
      | .read fd count => some (fd, count)
      | _ => none
    | none => none
  | _ => none

/-- A `sherry_read` that copies bytes stops before the received part of the buffer ends. -/
def ReadsReceived (s : State Seqs φ) (fd : FdRef) (count : Nat) : Prop :=
  (s.fd fd).rerror = 0 → (s.fd fd).roffset < (s.fd fd).rbuf.len →
    (s.fd fd).roffset + min count ((s.fd fd).rbuf.len - (s.fd fd).roffset) ≤
      (lastDelivery fd s.trace).length

instance (s : State Seqs φ) (fd : FdRef) (count : Nat) : Decidable (ReadsReceived s fd count) :=
  inferInstanceAs (Decidable (_ → _ → _))

/-- A `sherry_read` on the descriptor whose loop the event runs reads received bytes only. -/
def Within (fd : FdRef) (s : State Seqs φ) (e : Event φ) : Prop :=
  ∀ call ∈ readAt s e, call.1 = fd → ReadsReceived s fd call.2

instance (fd : FdRef) (s : State Seqs φ) (e : Event φ) : Decidable (Within fd s e) :=
  inferInstanceAs (Decidable (∀ call ∈ readAt s e, call.1 = fd → ReadsReceived s fd call.2))

/-- The loop of `sherry_read` is the one the event runs. -/
theorem InRead.readAt {count : Nat} {at_loop : State Seqs φ} (exec : s.executing = some self)
    (enters : InRead s e self fd count at_loop) : readAt s e = some (fd, count) := by
  rcases enters with ⟨rfl, _, _⟩ | ⟨_, rfl, frame, _⟩
  · rfl
  · simp [Sherry.readAt, exec, frame]

/-- A step that reads within the received bytes keeps a stream honest. -/
theorem honest_step (within : Within fd s e) (change : FlowChange s t e fd)
    (valid : (flow s fd).Valid) (honest : (flow s fd).Honest) : (flow t fd).Honest := by
  cases change with
  | kept same => rwa [same]
  | delivered _ _ same =>
    rw [same]
    exact ChunkFlow.honest_deliver honest
  | took exec enters sound unread same =>
    rw [same]
    have received := within _ (enters.readAt exec) rfl
    exact ChunkFlow.honest_take valid honest (received sound unread)

/-- In a run whose reads of a descriptor stay within the received bytes its stream is honest. -/
theorem run_honest {es : List (Event φ)}
    (within : Machine.Along step (Within fd) (sherryInit : State Seqs φ) es)
    (ran : Machine.run step sherryInit es = .ok s) : (flow s fd).Valid ∧ (flow s fd).Honest :=
  run_flow (List.Sublist.refl _) honest_step within ran

/-- In a run whose reads of a descriptor stay within the received bytes, the bytes that
`sherry_read` returned from it are a subsequence of the bytes received for it. -/
theorem run_returned_sublist {es : List (Event φ)}
    (within : Machine.Along step (Within fd) (sherryInit : State Seqs φ) es)
    (ran : Machine.run step sherryInit es = .ok s) :
    (returnedBytes fd s.trace).Sublist (receivedBytes fd s.trace) :=
  (run_honest within ran).2.returned_sublist

/-- Main blocks in `sherry_read` on a connection, a delivery of some bytes arrives in a buffer of
three, and main reads. -/
def deliveryRun (nread : Int) : List (Event Unit) :=
  connected ++ [.read 1 5 0, .schdule, .readCb 1 nread [65, 66, 67] true, .uvReturn, .schdule,
    .resume 0]

/-- A delivery that fills its buffer is read as it was received. -/
theorem run_returned_sublist_full :
    ∃ s, Machine.run step (sherryInit : State Seqs Unit) (deliveryRun 3) = .ok s ∧
      (returnedBytes 1 s.trace).Sublist (receivedBytes 1 s.trace) := by
  have within : Machine.Along step (Within 1) (sherryInit : State Seqs Unit) (deliveryRun 3) := by
    decide +kernel
  obtain ⟨s, ran, _⟩ :
      ∃ s, Machine.run step (sherryInit : State Seqs Unit) (deliveryRun 3) = .ok s ∧ True := by
    decide +kernel
  exact ⟨s, ran, run_returned_sublist within ran⟩

/-- A delivery of one byte is read with the two bytes behind it, which nobody sent. -/
theorem short_delivery_fabricates :
    ∃ s, Machine.run step (sherryInit : State Seqs Unit) (deliveryRun 1) = .ok s ∧
      ¬(returnedBytes 1 s.trace).Sublist (receivedBytes 1 s.trace) := by
  decide +kernel

/-- Data that `read_cb` is handed for the descriptor finds no received byte unread. -/
def Drained (fd : FdRef) (s : State Seqs φ) (e : Event φ) : Prop :=
  ∀ result ∈ e.readResult, result.1 = fd → 0 < result.2 →
    (lastDelivery fd s.trace).drop (s.fd fd).roffset = []

instance (fd : FdRef) (s : State Seqs φ) (e : Event φ) : Decidable (Drained fd s e) :=
  inferInstanceAs (Decidable (∀ result ∈ e.readResult, result.1 = fd → 0 < result.2 → _))

/-- `read_cb` reports no error for the descriptor. -/
def Unfailing (fd : FdRef) (e : Event φ) : Prop :=
  ∀ result ∈ e.readResult, result.1 = fd → 0 ≤ result.2

/-- A step whose delivery finds nothing unread keeps a stream complete. -/
theorem complete_step (drained : Drained fd s e) (change : FlowChange s t e fd)
    (valid : (flow s fd).Valid) (complete : (flow s fd).Complete) : (flow t fd).Complete := by
  cases change with
  | kept same => rwa [same]
  | delivered event some_read same =>
    subst event
    rw [same]
    exact ChunkFlow.complete_deliver complete (drained (fd, _) rfl rfl some_read)
  | took _ _ _ _ same =>
    rw [same]
    exact ChunkFlow.complete_take valid complete

/-- In a run whose deliveries to a descriptor find nothing unread its stream is complete. -/
theorem run_complete {es : List (Event φ)}
    (drained : Machine.Along step (Drained fd) (sherryInit : State Seqs φ) es)
    (ran : Machine.run step sherryInit es = .ok s) : (flow s fd).Valid ∧ (flow s fd).Complete :=
  run_flow (List.Sublist.refl _) complete_step drained ran

/-- The next step of an honest stream keeps it complete exactly when a delivery finds nothing
unread. -/
theorem drained_iff (inv : Inv s) (buffered : Buffered s) (happened : step s e = .ok t)
    (valid : (flow s fd).Valid) (honest : (flow s fd).Honest) (complete : (flow s fd).Complete) :
    Drained fd s e ↔ (flow t fd).Complete := by
  have change := ((step_outcome inv happened).fd_change buffered fd).flow
  refine ⟨fun drained => complete_step drained change valid complete, fun after => ?_⟩
  intro result event here some_read
  cases e with
  | readCb f nread content allocated =>
    cases event
    subst here
    rw [step_delivers inv some_read happened, flow_receive buffered] at after
    exact (ChunkFlow.complete_deliver_iff honest complete).mp after
  | _ => cases event

/-- A step that reports no error leaves a descriptor without error. -/
theorem rerror_step (unfailing : Unfailing fd e) (change : FdChange s t e fd)
    (sound : (s.fd fd).rerror = 0) : (t.fd fd).rerror = 0 := by
  cases change with
  | kept _ _ rerror => rw [rerror, sound]
  | failed event _ nothing _ _ rerror =>
    subst event
    rw [rerror]
    exact Int.le_antisymm nothing (unfailing (fd, _) rfl rfl)
  | delivered _ _ _ _ _ _ _ rerror => rw [rerror, sound]
  | took _ _ _ _ _ _ rerror => rw [rerror, sound]

/-- In a run without errors for a descriptor none is recorded. -/
theorem run_unfailing {es : List (Event φ)} (unfailing : ∀ e ∈ es, Unfailing fd e)
    (ran : Machine.run step (sherryInit : State Seqs φ) es = .ok s) : (s.fd fd).rerror = 0 := by
  have keeps : ∀ {s : State Seqs φ} {e t}, Inv s → Buffered s ∧ (s.fd fd).rerror = 0 →
      Unfailing fd e → step s e = .ok t → Buffered t ∧ (t.fd fd).rerror = 0 := by
    rintro s e t inv ⟨buffered, sound⟩ none happened
    have change := (step_outcome inv happened).fd_change buffered fd
    exact ⟨buffered_step inv buffered happened, rerror_step none change sound⟩
  have start : ((sherryInit : State Seqs φ).fd fd).rerror = 0 := by rw [sherryInit_eq]
  have along : Machine.Along step (fun _ e => Unfailing fd e) (sherryInit : State Seqs φ) es :=
    Machine.Along.of_mem unfailing _
  exact (run_along ⟨buffered_sherryInit, start⟩ keeps along ran).2

/-- In a run whose deliveries to a descriptor find no received byte unread, every byte received for
it was returned or is in the buffer beyond the offset, where `sherry_read` copies from; without a
reported error there is none that keeps `sherry_read` from it. If all reads stayed within the
received bytes, every state of the run keeps them all only in such a run. -/
theorem run_received_sublist {es : List (Event φ)}
    (ran : Machine.run step (sherryInit : State Seqs φ) es = .ok s) (fd : FdRef) :
    (Machine.Along step (Drained fd) (sherryInit : State Seqs φ) es →
        (receivedBytes fd s.trace).Sublist (returnedBytes fd s.trace ++ window s fd)) ∧
      ((∀ e ∈ es, Unfailing fd e) → (s.fd fd).rerror = 0) ∧
      (Machine.Along step (Within fd) (sherryInit : State Seqs φ) es →
        (Machine.Along step (Drained fd) (sherryInit : State Seqs φ) es ↔
          ∀ first rest m, es = first ++ rest →
            Machine.run step (sherryInit : State Seqs φ) first = .ok m →
              (receivedBytes fd m.trace).Sublist (returnedBytes fd m.trace ++
                (lastDelivery fd m.trace).drop (m.fd fd).roffset))) := by
  refine ⟨fun drained => ?_, fun unfailing => run_unfailing unfailing ran, fun within => ?_⟩
  · obtain ⟨valid, complete⟩ := run_complete drained ran
    exact complete.received_sublist valid
  · have kept : ∀ {s : State Seqs φ} {e : Event φ} {t : State Seqs φ},
        Sound s ∧ Buffered s ∧ (flow s fd).Valid ∧ (flow s fd).Honest → Within fd s e →
          step s e = .ok t → Sound t ∧ Buffered t ∧ (flow t fd).Valid ∧ (flow t fd).Honest := by
      rintro s e t ⟨sound, buffered, valid, honest⟩ within happened
      obtain ⟨after, still⟩ := sound_buffered_step ⟨sound, buffered⟩ happened
      have inv := sound (step_live happened)
      have change := ((step_outcome inv happened).fd_change buffered fd).flow
      exact ⟨after, still, valid_step change valid, honest_step within change valid honest⟩
    have decides : ∀ {s : State Seqs φ} {e : Event φ} {t : State Seqs φ},
        Sound s ∧ Buffered s ∧ (flow s fd).Valid ∧ (flow s fd).Honest → (flow s fd).Complete →
          step s e = .ok t → (Drained fd s e ↔ (flow t fd).Complete) := by
      rintro s e t ⟨sound, buffered, valid, honest⟩ complete happened
      exact drained_iff (step_sound sound happened).1 buffered happened valid honest complete
    have start : Sound (sherryInit : State Seqs φ) ∧ Buffered (sherryInit : State Seqs φ) ∧
        (flow (sherryInit : State Seqs φ) fd).Valid ∧
          (flow (sherryInit : State Seqs φ) fd).Honest := by
      rw [flow_sherryInit]
      exact ⟨fun _ => inv_sherryInit, buffered_sherryInit, List.nil_prefix, List.Sublist.refl _⟩
    have fine : (flow (sherryInit : State Seqs φ) fd).Complete := by
      rw [flow_sherryInit]
      exact List.Sublist.refl _
    exact Machine.along_iff_good_along kept decides start fine within ran

/-- A delivery that nobody read before is still unread. -/
theorem run_received_sublist_first :
    ∃ s, Machine.run step (sherryInit : State Seqs Unit) (deliveryRun 3) = .ok s ∧
      (receivedBytes 1 s.trace).Sublist (returnedBytes 1 s.trace ++ window s 1) := by
  have drained : Machine.Along step (Drained 1) (sherryInit : State Seqs Unit) (deliveryRun 3) := by
    decide +kernel
  obtain ⟨s, ran, _⟩ :
      ∃ s, Machine.run step (sherryInit : State Seqs Unit) (deliveryRun 3) = .ok s ∧ True := by
    decide +kernel
  exact ⟨s, ran, (run_received_sublist ran 1).1 drained⟩

/-- Main blocks in `sherry_read` on a connection, and two deliveries that fill their buffers
arrive. -/
def burstRun : List (Event Unit) :=
  connected ++ [.read 1 5 0, .schdule, .readCb 1 2 [65, 66] true, .readCb 1 1 [67] true]

/-- The second delivery discards the first. -/
theorem second_delivery_discards :
    ∃ s, Machine.run step (sherryInit : State Seqs Unit) burstRun = .ok s ∧
      65 ∈ receivedBytes 1 s.trace ∧ 65 ∉ returnedBytes 1 s.trace ∧ 65 ∉ window s 1 := by
  decide +kernel

end Sherry
