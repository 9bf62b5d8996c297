/-
Module: HftEngine.Proofs.RingQueue
Layer: Proofs
Purpose: The ring is a lossless bounded FIFO under every interleaving of its
  endpoints. The invariant counts positions that are never reset; a cached
  cursor stands at an earlier position of the peer.
Imports: HftEngine.Core.Ring, HftEngine.Lib.Transition
Trusted boundary: none (fully proved)
Main exports: RingInv, step_ringInv, intoInner_eq, ring_lossless_fifo
-/
import HftEngine.Core.Ring
import HftEngine.Lib.Transition

namespace HftEngine

open Cursor Transition

variable {α : Type} {w N k : Nat} {start : BitVec w} {ring ring' : Ring α w N} {queue : SpscQueue α w N}
  {accepted popped : List α} {seen known : Nat} {action : RingAction α} {event : RingEvent α}

/-! ### Events -/

/-- The value a completed push published. -/
def RingEvent.published : RingEvent α → Option α
  | .pushed value => some value
  | _ => none

/-- The value a completed pop returned. -/
def RingEvent.taken : RingEvent α → Option α
  | .popped value => some value
  | _ => none

/-! ### Slots -/

section Slots

variable (hN : N = 2 ^ k) (hk : k < w)
include hN hk

/-- Every cursor points into the ring. -/
theorem slotIndex_lt (position : Nat) : slotIndex N (cursorAt start position) < N := by
  rw [slotIndex_cursorAt hN hk.le]
  exact Nat.mod_lt _ (by rw [hN]; exact Nat.two_pow_pos k)

/-- A write reaches one position and leaves those less than a capacity before
it. -/
theorem write_spec (start : BitVec w) (queue : SpscQueue α w N) (position : Nat) (value : α) :
    ∃ queue', queue.write (cursorAt start position) value = some queue' ∧ queue'.head = queue.head ∧
      queue'.tail = queue.tail ∧ queue'.read (cursorAt start position) = some value ∧
      ∀ j, j < position → position - j < N → queue'.read (cursorAt start j) = queue.read (cursorAt start j) := by
  have hlt : slotIndex N (cursorAt start position) < N := slotIndex_lt hN hk position
  refine ⟨{ queue with slots := queue.slots.set (slotIndex N (cursorAt start position)) (some value) }, ?_, rfl, rfl,
    ?_, ?_⟩
  · rw [SpscQueue.write, dif_pos hlt]
  · simp [SpscQueue.read, hlt]
  · intro j hj hdistance
    have hne : slotIndex N (cursorAt start position) ≠ slotIndex N (cursorAt start j) := by
      rw [slotIndex_cursorAt hN hk.le, slotIndex_cursorAt hN hk.le]
      exact (slot_ne hj hdistance).symm
    simp only [SpscQueue.read]
    rw [Vector.getElem?_set_ne _ hne]

end Slots

/-! ### The invariant -/

/-- The producer stands at the end of what it published, or one past it while a
tail store is pending; from the head it has seen it knows that the next slot is
free wherever it is about to write. -/
def ProducerInv (start : BitVec w) (accepted : List α) (seen : Nat) (ring : Ring α w N) : Prop :=
  match ring.producer.stage with
  | .writeSlot _ =>
      ring.producer.tail = cursorAt start accepted.length ∧ accepted.length < seen + N
  | .storeTail value =>
      ring.producer.tail = cursorAt start (accepted.length + 1) ∧ accepted.length < seen + N ∧
        ring.queue.read (cursorAt start accepted.length) = some value
  | _ => ring.producer.tail = cursorAt start accepted.length ∧ accepted.length ≤ seen + N

/-- The consumer stands at the first value it did not return, or one past it
while a head store is pending. -/
def ConsumerInv (start : BitVec w) (accepted popped : List α) (known : Nat) (ring : Ring α w N) : Prop :=
  match ring.consumer.stage with
  | .readSlot => ring.consumer.head = cursorAt start popped.length ∧ popped.length < known
  | .storeHead value =>
      ring.consumer.head = cursorAt start (popped.length + 1) ∧ popped.length < known ∧
        accepted[popped.length]? = some value
  | _ => ring.consumer.head = cursorAt start popped.length

/-- Both shared cursors stand at the number of completed calls; the slots
between them hold what was accepted and not yet popped; each cached cursor
stands at an earlier position of the peer. -/
structure RingInv (start : BitVec w) (accepted popped : List α) (seen known : Nat) (ring : Ring α w N) : Prop where
  head : ring.queue.head = cursorAt start popped.length
  tail : ring.queue.tail = cursorAt start accepted.length
  inOrder : popped <+: accepted
  slots : ∀ j value, popped.length ≤ j → accepted[j]? = some value → ring.queue.read (cursorAt start j) = some value
  cachedHead : ring.producer.cachedHead = cursorAt start seen
  seen_le : seen ≤ popped.length
  producer : ProducerInv start accepted seen ring
  cachedTail : ring.consumer.cachedTail = cursorAt start known
  known_le : known ≤ accepted.length
  le_known : popped.length ≤ known
  consumer : ConsumerInv start accepted popped known ring

namespace RingInv

/-- No more values were popped than were accepted. -/
theorem popped_le (h : RingInv start accepted popped seen known ring) : popped.length ≤ accepted.length :=
  h.inOrder.length_le

/-- The producer is never more than `N` ahead of what it has seen popped. -/
theorem accepted_le (h : RingInv start accepted popped seen known ring) : accepted.length ≤ seen + N := by
  have hproducer := h.producer
  unfold ProducerInv at hproducer
  split at hproducer <;> omega

/-- Outside a pending tail store the producer's own cursor is the published
one. -/
theorem producer_tail (h : RingInv start accepted popped seen known ring)
    (hstage : ∀ value, ring.producer.stage ≠ .storeTail value) :
    ring.producer.tail = cursorAt start accepted.length := by
  have hproducer := h.producer
  unfold ProducerInv at hproducer
  split at hproducer
  · exact hproducer.1
  · rename_i value hstore
    exact absurd hstore (hstage value)
  · exact hproducer.1

/-- Outside a pending head store the consumer's own cursor is the published
one. -/
theorem consumer_head (h : RingInv start accepted popped seen known ring)
    (hstage : ∀ value, ring.consumer.stage ≠ .storeHead value) :
    ring.consumer.head = cursorAt start popped.length := by
  have hconsumer := h.consumer
  unfold ConsumerInv at hconsumer
  split at hconsumer
  · exact hconsumer.1
  · rename_i value hstore
    exact absurd hstore (hstage value)
  · exact hconsumer

end RingInv

/-- The invariant of a ring that is split into its two ends, whatever it
holds. -/
theorem ringInv_split (hhead : queue.head = cursorAt start popped.length)
    (htail : queue.tail = cursorAt start accepted.length) (hinOrder : popped <+: accepted)
    (hslots : ∀ j value, popped.length ≤ j → accepted[j]? = some value → queue.read (cursorAt start j) = some value)
    (hroom : accepted.length ≤ popped.length + N) :
    RingInv start accepted popped popped.length accepted.length (Ring.split queue) :=
  ⟨hhead, htail, hinOrder, hslots, hhead, le_rfl, ⟨htail, hroom⟩, htail, le_rfl, hinOrder.length_le, hhead⟩

/-- The invariant of a new ring, wherever its cursors start. -/
theorem ringInv_new (start : BitVec w) : RingInv start [] [] 0 0 (Ring.new start : Ring α w N) :=
  ringInv_split (by simp [SpscQueue.new]) (by simp [SpscQueue.new]) ⟨[], rfl⟩ (by simp) (by simp)

/-! ### Local checks -/

section Checks

variable (hN : N = 2 ^ k) (hk : k < w)
include hN hk

/-- The cursors can tell a full ring from an empty one. -/
theorem capacity_lt : N < 2 ^ w := by
  rw [hN]
  exact Nat.pow_lt_pow_right (by decide) hk

/-- The full check compares the published end with a head that was current
once. -/
theorem looksFull_iff {producer : Producer α w} (htail : producer.tail = cursorAt start accepted.length)
    (hcached : producer.cachedHead = cursorAt start seen) (hseen : seen ≤ accepted.length)
    (hroom : accepted.length ≤ seen + N) :
    Ring.looksFull N producer = true ↔ accepted.length = seen + N := by
  have hlt := capacity_lt hN hk
  rw [Ring.looksFull, decide_eq_true_eq, htail, hcached, cursorAt_sub_eq_iff hseen (by omega) hlt]
  omega

/-- The empty check compares the first value not returned with a tail that was
current once. -/
theorem looksEmpty_iff (consumer : Consumer α w) (hhead : consumer.head = cursorAt start popped.length)
    (hcached : consumer.cachedTail = cursorAt start known) (hknown : popped.length ≤ known)
    (hroom : known ≤ popped.length + N) :
    Ring.looksEmpty consumer = true ↔ popped.length = known := by
  have hlt := capacity_lt hN hk
  rw [Ring.looksEmpty, decide_eq_true_eq, hhead, hcached, cursorAt_inj hknown (by omega)]

end Checks

/-! ### Steps -/

/-- What a step shows of the positions before it: a refusal, an empty answer
and a capacity answer are true of the state in which the peer's cursor was
loaded. -/
def EventSound (N : Nat) (accepted popped : List α) : RingEvent α → Prop
  | .refused _ => accepted.length = popped.length + N
  | .capacity available => available = true → accepted.length < popped.length + N
  | .empty => popped.length = accepted.length
  | _ => True

/-- Loading the shared head replaces the seen position by the current one. -/
theorem loadHead_ringInv (h : RingInv start accepted popped seen known ring) (stage : PushStage α)
    (hstage : ∀ value, ring.producer.stage ≠ .storeTail value)
    (hnext : ∀ value, stage ≠ .storeTail value)
    (hwrite : ∀ value, stage = .writeSlot value → accepted.length < popped.length + N) :
    RingInv start accepted popped popped.length known
      (ring.setProducer { ring.producer with cachedHead := ring.queue.head, stage := stage }) := by
  have htail := h.producer_tail hstage
  have hroom := h.accepted_le
  have hseen := h.seen_le
  refine ⟨h.head, h.tail, h.inOrder, h.slots, h.head, le_rfl, ?_, h.cachedTail, h.known_le, h.le_known,
    h.consumer⟩
  unfold ProducerInv Ring.setProducer
  split
  · rename_i value heq
    exact ⟨htail, hwrite value heq⟩
  · rename_i value heq
    exact absurd heq (hnext value)
  · exact ⟨htail, by omega⟩

/-- Loading the shared tail replaces the known position by the current one. -/
theorem loadTail_ringInv (h : RingInv start accepted popped seen known ring) (stage : PopStage α)
    (hstage : ∀ value, ring.consumer.stage ≠ .storeHead value) (hnext : ∀ value, stage ≠ .storeHead value)
    (hread : stage = .readSlot → popped.length < accepted.length) :
    RingInv start accepted popped seen accepted.length
      (ring.setConsumer { ring.consumer with cachedTail := ring.queue.tail, stage := stage }) := by
  have hhead := h.consumer_head hstage
  refine ⟨h.head, h.tail, h.inOrder, h.slots, h.cachedHead, h.seen_le, h.producer, h.tail, le_rfl, h.popped_le, ?_⟩
  unfold ConsumerInv Ring.setConsumer
  split
  · rename_i heq
    exact ⟨hhead, hread heq⟩
  · rename_i value heq
    exact absurd heq (hnext value)
  · exact hhead

/-- The consumer's accesses leave the producer alone and answer only its own
calls. -/
theorem consumerStep_frame (hstep : ring.consumerStep = some (event, ring')) :
    ring'.producer = ring.producer ∧ event.published = none ∧ ∀ available, event ≠ .capacity available := by
  unfold Ring.consumerStep at hstep
  simp only at hstep
  split at hstep
  · cases hstep
  · split at hstep <;> cases hstep <;> exact ⟨rfl, rfl, by simp⟩
  · obtain ⟨_, _, hvalue⟩ := Option.map_eq_some_iff.mp hstep
    cases hvalue
    exact ⟨rfl, rfl, by simp⟩
  · cases hstep
    exact ⟨rfl, rfl, by simp⟩

/-- The tail store publishes the written slot. -/
theorem storeTail_ringInv (h : RingInv start accepted popped seen known ring) {value : α}
    (hstage : ring.producer.stage = .storeTail value) :
    RingInv start (accepted ++ [value]) popped seen known { ring with
      queue := { ring.queue with tail := ring.producer.tail }
      producer := { ring.producer with stage := .idle } } := by
  have hproducer := h.producer
  simp only [ProducerInv, hstage] at hproducer
  obtain ⟨htail, hroom, hread⟩ := hproducer
  have hlength : (accepted ++ [value]).length = accepted.length + 1 := by simp
  have hknown := h.known_le
  refine ⟨h.head, htail.trans (by rw [hlength]), h.inOrder.trans (⟨[value], rfl⟩), ?_, h.cachedHead,
    h.seen_le, ⟨by rw [hlength]; exact htail, by rw [hlength]; omega⟩, h.cachedTail, by rw [hlength]; omega, h.le_known, ?_⟩
  · intro j other hj hget
    by_cases hlt : j < accepted.length
    · rw [List.getElem?_append_left hlt] at hget
      exact h.slots j other hj hget
    · obtain ⟨hle, _⟩ := List.getElem?_eq_some_iff.mp hget
      obtain rfl : j = accepted.length := by omega
      rw [List.getElem?_concat_length] at hget
      cases hget
      exact hread
  · have hconsumer := h.consumer
    unfold ConsumerInv at hconsumer ⊢
    cases hpop : ring.consumer.stage with
    | storeHead taken =>
        simp only [hpop] at hconsumer ⊢
        obtain ⟨hhead, hlt, hget⟩ := hconsumer
        exact ⟨hhead, hlt, by rwa [List.getElem?_append_left (by omega)]⟩
    | idle => simpa only [hpop] using hconsumer
    | loadTail => simpa only [hpop] using hconsumer
    | readSlot => simpa only [hpop] using hconsumer

/-- The consumer reads the first value not yet popped. -/
theorem readSlot_ringInv (h : RingInv start accepted popped seen known ring)
    (hstage : ring.consumer.stage = .readSlot) :
    ∃ value, ring.queue.read ring.consumer.head = some value ∧
      RingInv start accepted popped seen known (ring.setConsumer
        { ring.consumer with head := ring.consumer.head + 1, stage := .storeHead value }) := by
  have hconsumer := h.consumer
  simp only [ConsumerInv, hstage] at hconsumer
  obtain ⟨hhead, hlt⟩ := hconsumer
  have hknown := h.known_le
  have hget : accepted[popped.length]? = some accepted[popped.length] := List.getElem?_eq_getElem _
  refine ⟨accepted[popped.length], ?_, ?_⟩
  · rw [hhead]
    exact h.slots _ _ le_rfl hget
  · rw [hhead, cursorAt_succ]
    exact ⟨h.head, h.tail, h.inOrder, h.slots, h.cachedHead, h.seen_le, h.producer, h.cachedTail, h.known_le,
      h.le_known, ⟨rfl, hlt, hget⟩⟩

/-- The head store completes the pop. -/
theorem storeHead_ringInv (h : RingInv start accepted popped seen known ring) {value : α}
    (hstage : ring.consumer.stage = .storeHead value) :
    RingInv start accepted (popped ++ [value]) seen known { ring with
      queue := { ring.queue with head := ring.consumer.head }
      consumer := { ring.consumer with stage := .idle } } := by
  have hconsumer := h.consumer
  simp only [ConsumerInv, hstage] at hconsumer
  obtain ⟨hhead, hlt, hget⟩ := hconsumer
  have hlength : (popped ++ [value]).length = popped.length + 1 := by simp
  have hseen := h.seen_le
  refine ⟨hhead.trans (by rw [hlength]), h.tail, ?_, ?_, h.cachedHead, by rw [hlength]; omega, h.producer, h.cachedTail,
    h.known_le, by rw [hlength]; omega, by rw [ConsumerInv, hlength]; exact hhead⟩
  · obtain ⟨rest, hrest⟩ := h.inOrder
    rw [← hrest, List.getElem?_append_right le_rfl, Nat.sub_self] at hget
    obtain ⟨tail, rfl⟩ : ∃ tail, rest = value :: tail := by
      cases rest with
      | nil => cases hget
      | cons first tail =>
          cases hget
          exact ⟨tail, rfl⟩
    exact ⟨tail, by rw [← hrest]; simp⟩
  · intro j other hj hother
    exact h.slots j other (by omega) hother

/-- Draining from a position takes everything accepted from there on. -/
theorem drain_eq (h : RingInv start accepted popped seen known ring) (count position : Nat)
    (hposition : popped.length ≤ position) (hcount : position + count = accepted.length) :
    ring.queue.drain count (cursorAt start position) = some (accepted.drop position) := by
  induction count generalizing position with
  | zero => rw [List.drop_of_length_le (by omega), SpscQueue.drain]
  | succ count ih =>
      have hlt : position < accepted.length := by omega
      have hread := h.slots position _ hposition (List.getElem?_eq_getElem hlt)
      rw [SpscQueue.drain, hread, cursorAt_succ, List.drop_eq_getElem_cons hlt]
      simp only [Option.bind_eq_bind, Option.bind_some, ih (position + 1) (by omega) (by omega)]
      rfl

section Steps

variable (hN : N = 2 ^ k) (hk : k < w)
include hN hk

/-- The first step of a push, which decides from the cached cursors, keeps the
invariant. -/
theorem tryPush_ringInv (h : RingInv start accepted popped seen known ring) (value : α)
    (hidle : ring.producer.stage = .idle) :
    RingInv start accepted popped seen known (ring.setProducer { ring.producer with
      stage := if Ring.looksFull N ring.producer then .loadHead value else .writeSlot value }) := by
  have htail := h.producer_tail (by simp [hidle])
  have hroom := h.accepted_le
  have hfull := looksFull_iff hN hk htail h.cachedHead (h.seen_le.trans h.popped_le) hroom
  refine ⟨h.head, h.tail, h.inOrder, h.slots, h.cachedHead, h.seen_le, ?_, h.cachedTail, h.known_le, h.le_known,
    h.consumer⟩
  unfold ProducerInv Ring.setProducer
  split
  · rename_i hstage
    refine ⟨htail, ?_⟩
    by_cases hlooks : Ring.looksFull N ring.producer = true
    · simp [hlooks] at hstage
    · have hnot : accepted.length ≠ seen + N := fun heq => hlooks (hfull.mpr heq)
      omega
  · rename_i hstage
    split at hstage <;> cases hstage
  · exact ⟨htail, hroom⟩

/-- The first step of a pop, which decides from the cached cursors, keeps the
invariant. -/
theorem tryPop_ringInv (h : RingInv start accepted popped seen known ring) (hidle : ring.consumer.stage = .idle) :
    RingInv start accepted popped seen known (ring.setConsumer { ring.consumer with
      stage := if Ring.looksEmpty ring.consumer then .loadTail else .readSlot }) := by
  have hhead := h.consumer_head (by simp [hidle])
  have hle := h.known_le
  have hroom := h.accepted_le
  have hseen := h.seen_le
  have hknown := h.le_known
  have hempty := looksEmpty_iff hN hk _ hhead h.cachedTail hknown (by omega)
  refine ⟨h.head, h.tail, h.inOrder, h.slots, h.cachedHead, h.seen_le, h.producer, h.cachedTail, h.known_le,
    h.le_known, ?_⟩
  unfold ConsumerInv Ring.setConsumer
  split
  · rename_i hstage
    refine ⟨hhead, ?_⟩
    by_cases hlooks : Ring.looksEmpty ring.consumer = true
    · simp [hlooks] at hstage
    · have hnot : popped.length ≠ known := fun heq => hlooks (hempty.mpr heq)
      omega
  · rename_i hstage
    split at hstage <;> cases hstage
  · exact hhead

/-- Whether the queue looks full after the shared head was loaded. -/
theorem looksFull_loaded (h : RingInv start accepted popped seen known ring)
    (hstage : ∀ value, ring.producer.stage ≠ .storeTail value) :
    Ring.looksFull N { ring.producer with cachedHead := ring.queue.head } = true ↔
      accepted.length = popped.length + N := by
  have hroom := h.accepted_le
  have hseen := h.seen_le
  exact looksFull_iff hN hk (h.producer_tail hstage) h.head h.popped_le (by omega)

/-- The slot a push writes to is unused, and writing it keeps the invariant. -/
theorem writeSlot_ringInv (h : RingInv start accepted popped seen known ring) {value : α}
    (hstage : ring.producer.stage = .writeSlot value) :
    ∃ queue', ring.queue.write ring.producer.tail value = some queue' ∧
      RingInv start accepted popped seen known { ring with
        queue := queue'
        producer := { ring.producer with tail := ring.producer.tail + 1, stage := .storeTail value } } := by
  have hproducer := h.producer
  simp only [ProducerInv, hstage] at hproducer
  obtain ⟨htail, hroom⟩ := hproducer
  have hseen := h.seen_le
  obtain ⟨queue', hwrite, hhead', htail', hread, hframe⟩ :=
    write_spec hN hk start ring.queue accepted.length value
  rw [htail, cursorAt_succ]
  refine ⟨queue', hwrite, hhead'.trans h.head, htail'.trans h.tail, h.inOrder, ?_, h.cachedHead, h.seen_le,
    ⟨rfl, hroom, hread⟩, h.cachedTail, h.known_le, h.le_known, h.consumer⟩
  intro j other hj hget
  obtain ⟨hlt, _⟩ := List.getElem?_eq_some_iff.mp hget
  exact (hframe j hlt (by omega)).trans (h.slots j other hj hget)

/-- The producer's accesses keep the invariant, and what they return is
true. -/
theorem producerStep_ringInv (h : RingInv start accepted popped seen known ring)
    (hstep : ring.producerStep = some (event, ring')) :
    EventSound N accepted popped event ∧
      ∃ seen', RingInv start (accepted ++ event.published.toList) (popped ++ event.taken.toList) seen' known ring' := by
  have hroom := h.accepted_le
  have hseen := h.seen_le
  unfold Ring.producerStep at hstep
  simp only at hstep
  split at hstep
  · cases hstep
  · rename_i value hstage
    have hnot : ∀ value, ring.producer.stage ≠ .storeTail value := by simp [hstage]
    have hfull := looksFull_loaded hN hk h hnot
    split at hstep
    · rename_i hlooks
      cases hstep
      have hinv := loadHead_ringInv h .idle hnot (by simp) (by simp)
      exact ⟨hfull.mp hlooks, popped.length, by simpa [RingEvent.published, RingEvent.taken] using hinv⟩
    · rename_i hlooks
      cases hstep
      have hne : accepted.length ≠ popped.length + N := fun heq => hlooks (hfull.mpr heq)
      have hinv := loadHead_ringInv h (.writeSlot value) hnot (by simp) (fun _ _ => by omega)
      exact ⟨trivial, popped.length, by simpa [RingEvent.published, RingEvent.taken] using hinv⟩
  · rename_i value hstage
    obtain ⟨queue', hwrite, hinv⟩ := writeSlot_ringInv hN hk h hstage
    rw [hwrite] at hstep
    cases hstep
    exact ⟨trivial, seen, by simpa [RingEvent.published, RingEvent.taken] using hinv⟩
  · rename_i value hstage
    cases hstep
    refine ⟨trivial, seen, ?_⟩
    simp only [RingEvent.published, RingEvent.taken, Option.toList_some, Option.toList_none, List.append_nil]
    exact storeTail_ringInv h hstage
  · rename_i hstage
    have hnot : ∀ value, ring.producer.stage ≠ .storeTail value := by simp [hstage]
    have hfull := looksFull_loaded hN hk h hnot
    cases hstep
    refine ⟨fun havailable => ?_, popped.length, ?_⟩
    · have hne : accepted.length ≠ popped.length + N := by
        intro heq
        rw [hfull.mpr heq] at havailable
        cases havailable
      omega
    · simpa [RingEvent.published, RingEvent.taken] using loadHead_ringInv h .idle hnot (by simp) (by simp)

/-- The consumer's accesses keep the invariant, and what they return is
true. -/
theorem consumerStep_ringInv (h : RingInv start accepted popped seen known ring)
    (hstep : ring.consumerStep = some (event, ring')) :
    EventSound N accepted popped event ∧
      ∃ known', RingInv start (accepted ++ event.published.toList) (popped ++ event.taken.toList) seen known' ring' := by
  have hroom := h.accepted_le
  have hseen := h.seen_le
  unfold Ring.consumerStep at hstep
  simp only at hstep
  split at hstep
  · cases hstep
  · rename_i hstage
    have hhead := h.consumer_head (by simp [hstage])
    have hempty := looksEmpty_iff hN hk { ring.consumer with cachedTail := ring.queue.tail } hhead h.tail
      h.popped_le (by omega)
    split at hstep
    · rename_i hlooks
      cases hstep
      refine ⟨hempty.mp hlooks, accepted.length, ?_⟩
      simpa [RingEvent.published, RingEvent.taken] using loadTail_ringInv h .idle (by simp [hstage]) (by simp) (by simp)
    · rename_i hlooks
      cases hstep
      have hne : popped.length ≠ accepted.length := fun heq => hlooks (hempty.mpr heq)
      have hle := h.popped_le
      refine ⟨trivial, accepted.length, ?_⟩
      simpa [RingEvent.published, RingEvent.taken] using loadTail_ringInv h .readSlot (by simp [hstage]) (by simp)
        (fun _ => by omega)
  · rename_i hstage
    obtain ⟨value, hread, hinv⟩ := readSlot_ringInv h hstage
    rw [hread] at hstep
    cases hstep
    exact ⟨trivial, known, by simpa [RingEvent.published, RingEvent.taken] using hinv⟩
  · rename_i value hstage
    cases hstep
    refine ⟨trivial, known, ?_⟩
    simp only [RingEvent.published, RingEvent.taken, Option.toList_some, Option.toList_none, List.append_nil]
    exact storeHead_ringInv h hstage

/-- Every step keeps the invariant for the values published and popped so far,
and what it returns is true. -/
theorem step_ringInv (h : RingInv start accepted popped seen known ring)
    (hstep : ring.step action = some (event, ring')) :
    EventSound N accepted popped event ∧ ∃ seen' known',
      RingInv start (accepted ++ event.published.toList) (popped ++ event.taken.toList) seen' known' ring' := by
  have hquiet : ∀ {seen known} {ring : Ring α w N}, RingInv start accepted popped seen known ring → ∃ seen' known',
      RingInv start (accepted ++ (RingEvent.quiet : RingEvent α).published.toList)
        (popped ++ (RingEvent.quiet : RingEvent α).taken.toList) seen' known' ring := by
    intro seen known ring hinv
    exact ⟨seen, known, by simpa [RingEvent.published, RingEvent.taken] using hinv⟩
  have hroom := h.accepted_le
  have hseen := h.seen_le
  cases action with
  | tryPush value =>
      simp only [Ring.step] at hstep
      split at hstep
      · rename_i hidle
        cases hstep
        exact ⟨trivial, hquiet (tryPush_ringInv hN hk h value hidle)⟩
      · cases hstep
  | hasCapacity =>
      simp only [Ring.step] at hstep
      split at hstep
      · rename_i hidle
        have htail := h.producer_tail (by simp [hidle])
        have hfull := looksFull_iff hN hk htail h.cachedHead (h.seen_le.trans h.popped_le) hroom
        split at hstep
        · cases hstep
          have hprobe : RingInv start accepted popped seen known
              (ring.setProducer { ring.producer with stage := .probeHead }) :=
            ⟨h.head, h.tail, h.inOrder, h.slots, h.cachedHead, h.seen_le, ⟨htail, hroom⟩, h.cachedTail,
              h.known_le, h.le_known, h.consumer⟩
          exact ⟨trivial, hquiet hprobe⟩
        · rename_i hlooks
          cases hstep
          have hne : accepted.length ≠ seen + N := fun heq => hlooks (hfull.mpr heq)
          refine ⟨fun _ => by omega, seen, known, ?_⟩
          simpa [RingEvent.published, RingEvent.taken] using h
      · cases hstep
  | tryPop =>
      simp only [Ring.step] at hstep
      split at hstep
      · rename_i hidle
        cases hstep
        exact ⟨trivial, hquiet (tryPop_ringInv hN hk h hidle)⟩
      · cases hstep
  | producer =>
      obtain ⟨hsound, seen', hinv⟩ := producerStep_ringInv hN hk h hstep
      exact ⟨hsound, seen', known, hinv⟩
  | consumer =>
      obtain ⟨hsound, known', hinv⟩ := consumerStep_ringInv hN hk h hstep
      exact ⟨hsound, seen, known', hinv⟩
  | split =>
      simp only [Ring.step] at hstep
      split at hstep
      · cases hstep
        exact ⟨trivial, hquiet (ringInv_split h.head h.tail h.inOrder h.slots (by omega))⟩
      · cases hstep

/-- Along a run the invariant holds for all values published and popped. -/
theorem run_ringInv {actions : List (RingAction α)} {events : List (RingEvent α)}
    (h : RingInv start accepted popped seen known ring) (hrun : run Ring.step ring actions = some (events, ring')) :
    ∃ seen' known', RingInv start (accepted ++ events.filterMap RingEvent.published)
      (popped ++ events.filterMap RingEvent.taken) seen' known' ring' := by
  induction actions generalizing accepted popped seen known ring events with
  | nil =>
      cases hrun
      exact ⟨seen, known, by simpa using h⟩
  | cons action rest ih =>
      obtain ⟨event, others, middle, hstep, hrest, rfl⟩ := run_cons.mp hrun
      obtain ⟨_, seen', known', hinv⟩ := step_ringInv hN hk h hstep
      obtain ⟨seen'', known'', hlast⟩ := ih hinv hrest
      refine ⟨seen'', known'', ?_⟩
      have hcons : ∀ f : RingEvent α → Option α, (f event).toList ++ others.filterMap f = (event :: others).filterMap f := by
        intro f
        rw [List.filterMap_cons]
        cases f event <;> rfl
      rwa [List.append_assoc, List.append_assoc, hcons, hcons] at hlast

/-! ### Values still stored -/

/-- What is still stored is what was accepted and not popped. -/
theorem intoInner_eq (h : RingInv start accepted popped seen known ring) :
    ring.queue.intoInner = some (accepted.drop popped.length) := by
  have hlt := capacity_lt hN hk
  have hle := h.popped_le
  have hroom := h.accepted_le
  have hseen := h.seen_le
  rw [SpscQueue.intoInner, h.head, h.tail, toNat_cursorAt_sub hle (by omega)]
  exact drain_eq h _ _ le_rfl (by omega)

/-! ### Capacity -/

/-- The producer is idle and knows of a free slot. -/
def RoomKnown (N : Nat) (accepted : List α) (seen : Nat) (producer : Producer α w) : Prop :=
  producer.stage = .idle ∧ accepted.length < seen + N

/-- Known room lasts until the next push. -/
theorem step_roomKnown (h : RingInv start accepted popped seen known ring)
    (hroom : RoomKnown N accepted seen ring.producer) (hpush : ∀ value, action ≠ .tryPush value)
    (hstep : ring.step action = some (event, ring')) :
    ∃ popped' seen' known', RingInv start accepted popped' seen' known' ring' ∧
      RoomKnown N accepted seen' ring'.producer := by
  have hseen := h.seen_le
  obtain ⟨hidle, hlt⟩ := hroom
  cases action with
  | tryPush value => exact absurd rfl (hpush value)
  | hasCapacity =>
      simp only [Ring.step, hidle] at hstep
      have htail := h.producer_tail (by simp [hidle])
      have hfull := looksFull_iff hN hk htail h.cachedHead (h.seen_le.trans h.popped_le) hlt.le
      rw [if_neg (fun hlooks => by have := hfull.mp hlooks; omega)] at hstep
      cases hstep
      exact ⟨popped, seen, known, h, hidle, hlt⟩
  | tryPop =>
      simp only [Ring.step] at hstep
      split at hstep
      · rename_i hstage
        cases hstep
        exact ⟨popped, seen, known, tryPop_ringInv hN hk h hstage, hidle, hlt⟩
      · cases hstep
  | producer =>
      simp only [Ring.step, Ring.producerStep, hidle] at hstep
      cases hstep
  | consumer =>
      obtain ⟨hproducer, hpublished, _⟩ := consumerStep_frame hstep
      obtain ⟨_, known', hinv⟩ := consumerStep_ringInv hN hk h hstep
      rw [hpublished, Option.toList_none, List.append_nil] at hinv
      exact ⟨_, seen, known', hinv, by rw [hproducer]; exact ⟨hidle, hlt⟩⟩
  | split =>
      simp only [Ring.step] at hstep
      split at hstep
      · cases hstep
        exact ⟨popped, popped.length, accepted.length,
          ringInv_split h.head h.tail h.inOrder h.slots (by omega), rfl, by omega⟩
      · cases hstep

/-- Known room lasts through any run without a push. -/
theorem run_roomKnown {actions : List (RingAction α)} {events : List (RingEvent α)}
    (h : RingInv start accepted popped seen known ring) (hroom : RoomKnown N accepted seen ring.producer)
    (hpush : ∀ action ∈ actions, ∀ value, action ≠ .tryPush value)
    (hrun : run Ring.step ring actions = some (events, ring')) :
    ∃ popped' seen' known', RingInv start accepted popped' seen' known' ring' ∧
      RoomKnown N accepted seen' ring'.producer := by
  induction actions generalizing popped seen known ring events with
  | nil =>
      cases hrun
      exact ⟨popped, seen, known, h, hroom⟩
  | cons action rest ih =>
      obtain ⟨event, others, middle, hstep, hrest, _⟩ := run_cons.mp hrun
      obtain ⟨popped', seen', known', hinv, hroom'⟩ := step_roomKnown hN hk h hroom (hpush action (by simp)) hstep
      exact ih hinv hroom' (fun other hother => hpush other (List.mem_cons_of_mem _ hother)) hrest

/-- A capacity answer leaves the producer idle and aware of the free slot. -/
theorem roomKnown_of_capacity (h : RingInv start accepted popped seen known ring)
    (hstep : ring.step action = some (.capacity true, ring')) :
    ∃ seen', RingInv start accepted popped seen' known ring' ∧ RoomKnown N accepted seen' ring'.producer := by
  have hroom := h.accepted_le
  cases action with
  | hasCapacity =>
      simp only [Ring.step] at hstep
      split at hstep
      · rename_i hidle
        have htail := h.producer_tail (by simp [hidle])
        have hfull := looksFull_iff hN hk htail h.cachedHead (h.seen_le.trans h.popped_le) hroom
        split at hstep
        · cases hstep
        · rename_i hlooks
          cases hstep
          have hne : accepted.length ≠ seen + N := fun heq => hlooks (hfull.mpr heq)
          exact ⟨seen, h, hidle, by omega⟩
      · cases hstep
  | producer =>
      have hsound := (producerStep_ringInv hN hk h hstep).1 rfl
      simp only [Ring.step, Ring.producerStep] at hstep
      split at hstep
      · cases hstep
      · split at hstep <;> cases hstep
      · obtain ⟨_, _, hvalue⟩ := Option.map_eq_some_iff.mp hstep
        cases hvalue
      · cases hstep
      · rename_i hstage
        injection hstep with hpair
        injection hpair with _ hring
        subst hring
        exact ⟨popped.length, loadHead_ringInv h .idle (by simp [hstage]) (by simp) (by simp), rfl, hsound⟩
  | tryPush value =>
      simp only [Ring.step] at hstep
      split at hstep <;> cases hstep
  | tryPop =>
      simp only [Ring.step] at hstep
      split at hstep <;> cases hstep
  | consumer => exact absurd rfl ((consumerStep_frame hstep).2.2 true)
  | split =>
      simp only [Ring.step] at hstep
      split at hstep <;> cases hstep

/-! ### The ring as a queue -/

/-- What holds of a ring in which `stored` is unread: how every step answers,
and what every slot access meets. -/
structure QueueSound (ring : Ring α w N) (stored : List α) : Prop where
  /-- At most `N` values are unread. -/
  bounded : stored.length ≤ N
  /-- A push is refused only when `N` values were unread at its load of the head. -/
  refused : ∀ action value ring', ring.step action = some (.refused value, ring') → stored.length = N
  /-- A pop finds nothing only when nothing was unread at its load of the tail. -/
  empty : ∀ action ring', ring.step action = some (.empty, ring') → stored = []
  /-- A capacity answer lasts until the next push, which then passes its check without a load. -/
  capacity : ∀ action ring', ring.step action = some (.capacity true, ring') → ∀ more events ring'',
    (∀ action ∈ more, ∀ value, action ≠ .tryPush value) → run Ring.step ring' more = some (events, ring'') →
    ∀ value, ∃ last, ring''.step (.tryPush value) = some (.quiet, last) ∧ last.producer.stage = .writeSlot value
  /-- The slot about to be written holds no unread value. -/
  written : ∀ value, ring.producer.stage = .writeSlot value → ∀ j < stored.length,
    slotIndex N (ring.queue.head + BitVec.ofNat w j) ≠ slotIndex N ring.producer.tail
  /-- The slot about to be read holds the first unread value, which was published. -/
  read : ring.consumer.stage = .readSlot → ∃ value rest, stored = value :: rest ∧
    ring.queue.read ring.consumer.head = some value
  /-- No access is out of bounds or meets a slot that was never written. -/
  progress : (ring.producer.stage ≠ .idle → ∃ event ring', ring.step .producer = some (event, ring')) ∧
    (ring.consumer.stage ≠ .idle → ∃ event ring', ring.step .consumer = some (event, ring'))

/-- The invariant gives what callers of the ring rely on. -/
theorem queueSound_of_ringInv (h : RingInv start accepted popped seen known ring) :
    QueueSound ring (accepted.drop popped.length) := by
  have hle := h.popped_le
  have hroom := h.accepted_le
  have hseen := h.seen_le
  have hknown := h.known_le
  have hlength : (accepted.drop popped.length).length = accepted.length - popped.length := List.length_drop
  refine ⟨by omega, ?_, ?_, ?_, ?_, ?_, ?_⟩
  · intro action value ring' hstep
    have hsound := (step_ringInv hN hk h hstep).1
    simp only [EventSound] at hsound
    omega
  · intro action ring' hstep
    have hsound := (step_ringInv hN hk h hstep).1
    simp only [EventSound] at hsound
    exact List.drop_of_length_le hsound.ge
  · intro action ring' hstep more events ring'' hmore hrun value
    obtain ⟨seen', hinv, hknownRoom⟩ := roomKnown_of_capacity hN hk h hstep
    obtain ⟨popped', seen'', known', hinv', hidle, hlt⟩ := run_roomKnown hN hk hinv hknownRoom hmore hrun
    have hfull := looksFull_iff hN hk (hinv'.producer_tail (by simp [hidle])) hinv'.cachedHead
      (hinv'.seen_le.trans hinv'.popped_le) hlt.le
    refine ⟨_, by simp only [Ring.step, hidle]; rfl, ?_⟩
    simp only [Ring.setProducer]
    rw [if_neg (fun hlooks => by have := hfull.mp hlooks; omega)]
  · intro value hstage j hj
    have hproducer := h.producer
    simp only [ProducerInv, hstage] at hproducer
    have hposition : ring.queue.head + BitVec.ofNat w j = cursorAt start (popped.length + j) := by
      rw [h.head, cursorAt, cursorAt, BitVec.ofNat_add, BitVec.add_assoc]
    rw [hposition, hproducer.1, slotIndex_cursorAt hN hk.le, slotIndex_cursorAt hN hk.le]
    exact slot_ne (by omega) (by omega)
  · intro hstage
    have hconsumer := h.consumer
    simp only [ConsumerInv, hstage] at hconsumer
    have hlt : popped.length < accepted.length := by omega
    refine ⟨accepted[popped.length], accepted.drop (popped.length + 1), List.drop_eq_getElem_cons hlt, ?_⟩
    rw [hconsumer.1]
    exact h.slots _ _ le_rfl (List.getElem?_eq_getElem hlt)
  · constructor
    · intro hbusy
      cases hstage : ring.producer.stage with
      | idle => exact absurd hstage hbusy
      | loadHead value =>
          simp only [Ring.step, Ring.producerStep, hstage]
          split <;> exact ⟨_, _, rfl⟩
      | writeSlot value =>
          obtain ⟨queue', hwrite, _⟩ := writeSlot_ringInv hN hk h hstage
          simp only [Ring.step, Ring.producerStep, hstage, hwrite, Option.map_some]
          exact ⟨_, _, rfl⟩
      | storeTail value => exact ⟨_, _, by simp only [Ring.step, Ring.producerStep, hstage]; rfl⟩
      | probeHead => exact ⟨_, _, by simp only [Ring.step, Ring.producerStep, hstage]; rfl⟩
    · intro hbusy
      cases hstage : ring.consumer.stage with
      | idle => exact absurd hstage hbusy
      | loadTail =>
          simp only [Ring.step, Ring.consumerStep, hstage]
          split <;> exact ⟨_, _, rfl⟩
      | readSlot =>
          obtain ⟨value, hread, _⟩ := readSlot_ringInv h hstage
          simp only [Ring.step, Ring.consumerStep, hstage, hread, Option.map_some]
          exact ⟨_, _, rfl⟩
      | storeHead value => exact ⟨_, _, by simp only [Ring.step, Ring.consumerStep, hstage]; rfl⟩

/-- For every power-of-two capacity that the cursors can count, every common
start of the cursors and every interleaving of the endpoints, with any number
of splits: what was popped, followed by what is still stored, is what was
accepted, in order, and the ring answers as a queue that holds the stored
values. -/
theorem ring_lossless_fifo (start : BitVec w) {actions : List (RingAction α)} {events : List (RingEvent α)}
    (hrun : run Ring.step (Ring.new start : Ring α w N) actions = some (events, ring)) :
    ∃ stored, ring.queue.intoInner = some stored ∧
      events.filterMap RingEvent.taken ++ stored = events.filterMap RingEvent.published ∧ QueueSound ring stored := by
  obtain ⟨seen, known, hinv⟩ := run_ringInv hN hk (ringInv_new start) hrun
  rw [List.nil_append, List.nil_append] at hinv
  refine ⟨_, intoInner_eq hN hk hinv, ?_, queueSound_of_ringInv hN hk hinv⟩
  obtain ⟨rest, hrest⟩ := hinv.inOrder
  rw [← hrest, List.drop_left]

end Steps

/-- One value goes through a ring with one slot and one-bit cursors. -/
theorem ring_lossless_fifo_sample : ∃ events ring stored,
    run Ring.step (Ring.new 1 : Ring Nat 1 1)
      [.tryPush 5, .producer, .producer, .tryPush 6, .tryPop, .consumer, .producer, .consumer, .consumer]
      = some (events, ring) ∧ ring.queue.intoInner = some stored ∧
    events.filterMap RingEvent.taken ++ stored = events.filterMap RingEvent.published := by
  obtain ⟨⟨events, ring⟩, hrun⟩ : ∃ result, run Ring.step (Ring.new 1 : Ring Nat 1 1)
      [.tryPush 5, .producer, .producer, .tryPush 6, .tryPop, .consumer, .producer, .consumer, .consumer]
      = some result := ⟨_, rfl⟩
  obtain ⟨stored, hstored, hvalues, _⟩ := ring_lossless_fifo (show 1 = 2 ^ 0 from rfl) Nat.zero_lt_one 1 hrun
  exact ⟨events, ring, stored, hrun, hstored, hvalues⟩

end HftEngine
