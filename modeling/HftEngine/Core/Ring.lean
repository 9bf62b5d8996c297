/-
Module: HftEngine.Core.Ring
Layer: Core
Purpose: The bounded single-producer single-consumer ring at the grain of its
  shared accesses. The endpoints keep a private cursor and a cached copy of the
  peer's; every load of a shared cursor, every access to a slot and every store
  of a cursor is one step, and steps of the two endpoints interleave freely.
Imports: HftEngine.Lib.Cursor
Trusted boundary: translates the queue, the producer and the consumer of the
  crate `hft-spsc`, with sequentially consistent shared accesses
Main exports: SpscQueue, Producer, Consumer, Ring, RingAction, RingEvent,
  Ring.step, SpscQueue.intoInner
-/
import HftEngine.Lib.Cursor

namespace HftEngine

open Cursor

/-- The shared part: two `w`-bit cursors and `N` slots. A slot that was never
written is `none`; reading a slot copies its value out and leaves the memory as
it is. -/
structure SpscQueue (α : Type) (w N : Nat) where
  head : BitVec w
  tail : BitVec w
  slots : Vector (Option α) N

/-- Where the producer stands in `try_push` or `has_capacity`. A pending tail
store carries the value that it publishes. -/
inductive PushStage (α : Type) where
  | idle
  | loadHead (value : α)
  | writeSlot (value : α)
  | storeTail (value : α)
  | probeHead

/-- Where the consumer stands in `try_pop`. -/
inductive PopStage (α : Type) where
  | idle
  | loadTail
  | readSlot
  | storeHead (value : α)

/-- The writing end: its own cursor, its last reading of the other end's,
and where it stands in a call. -/
structure Producer (α : Type) (w : Nat) where
  tail : BitVec w
  cachedHead : BitVec w
  stage : PushStage α

/-- The reading end, with a cursor and a reading of its own. -/
structure Consumer (α : Type) (w : Nat) where
  head : BitVec w
  cachedTail : BitVec w
  stage : PopStage α

/-- A ring with both ends out, as `split` leaves it. -/
structure Ring (α : Type) (w N : Nat) where
  queue : SpscQueue α w N
  producer : Producer α w
  consumer : Consumer α w

/-- Calls of the two endpoints, their next shared access, and the owner's
`split`. -/
inductive RingAction (α : Type) where
  | tryPush (value : α)
  | hasCapacity
  | tryPop
  | producer
  | consumer
  | split

/-- What a step returns to a caller, if it completes a call. -/
inductive RingEvent (α : Type) where
  | quiet
  | pushed (value : α)
  | refused (value : α)
  | capacity (available : Bool)
  | popped (value : α)
  | empty
deriving DecidableEq, Repr

namespace SpscQueue

variable {α : Type} {w N : Nat}

/-- Both cursors at a common value, no slot written. -/
def new (start : BitVec w) : SpscQueue α w N := ⟨start, start, Vector.replicate N none⟩

/-- The slot of a cursor; `none` when it is out of bounds or was never
written. -/
def read (queue : SpscQueue α w N) (cursor : BitVec w) : Option α := queue.slots[slotIndex N cursor]?.join

/-- Writes the slot of a cursor; `none` when it is out of bounds. -/
def write (queue : SpscQueue α w N) (cursor : BitVec w) (value : α) : Option (SpscQueue α w N) :=
  if h : slotIndex N cursor < N then some { queue with slots := queue.slots.set (slotIndex N cursor) (some value) }
  else none

/-- The values from a cursor on, over a number of positions. -/
def drain (queue : SpscQueue α w N) : Nat → BitVec w → Option (List α)
  | 0, _ => some []
  | count + 1, position => do
      let value ← queue.read position
      let rest ← queue.drain count (position + 1)
      pure (value :: rest)

/-- Takes every published value that was not consumed. The loop runs until the
position meets the tail, which is after as many turns as their wrapping
distance. -/
def intoInner (queue : SpscQueue α w N) : Option (List α) :=
  queue.drain (queue.tail - queue.head).toNat queue.head

end SpscQueue

namespace Ring

variable {α : Type} {w N : Nat}

/-- Fresh endpoints with exact copies of both cursors. -/
def split (queue : SpscQueue α w N) : Ring α w N where
  queue := queue
  producer := { tail := queue.tail, cachedHead := queue.head, stage := .idle }
  consumer := { head := queue.head, cachedTail := queue.tail, stage := .idle }

def new (start : BitVec w) : Ring α w N := split (SpscQueue.new start)

/-- `tail.wrapping_sub(cached_head) == N`. -/
def looksFull (N : Nat) (producer : Producer α w) : Bool :=
  decide (producer.tail - producer.cachedHead = BitVec.ofNat w N)

/-- Whether the consumer sees nothing without loading the shared cursor
again. -/
def looksEmpty (consumer : Consumer α w) : Bool := decide (consumer.head = consumer.cachedTail)

def setProducer (ring : Ring α w N) (producer : Producer α w) : Ring α w N := { ring with producer := producer }

def setConsumer (ring : Ring α w N) (consumer : Consumer α w) : Ring α w N := { ring with consumer := consumer }

/-- The producer's next shared access. -/
def producerStep (ring : Ring α w N) : Option (RingEvent α × Ring α w N) :=
  let producer := ring.producer
  match producer.stage with
  | .idle => none
  | .loadHead value =>
      let loaded := { producer with cachedHead := ring.queue.head }
      if looksFull N loaded then some (.refused value, ring.setProducer { loaded with stage := .idle })
      else some (.quiet, ring.setProducer { loaded with stage := .writeSlot value })
  | .writeSlot value =>
      (ring.queue.write producer.tail value).map fun queue =>
        (.quiet, { ring with
          queue := queue
          producer := { producer with tail := producer.tail + 1, stage := .storeTail value } })
  | .storeTail value =>
      some (.pushed value, { ring with
        queue := { ring.queue with tail := producer.tail }
        producer := { producer with stage := .idle } })
  | .probeHead =>
      let loaded := { producer with cachedHead := ring.queue.head }
      some (.capacity (!looksFull N loaded), ring.setProducer { loaded with stage := .idle })

/-- The consumer's next shared access. -/
def consumerStep (ring : Ring α w N) : Option (RingEvent α × Ring α w N) :=
  let consumer := ring.consumer
  match consumer.stage with
  | .idle => none
  | .loadTail =>
      let loaded := { consumer with cachedTail := ring.queue.tail }
      if looksEmpty loaded then some (.empty, ring.setConsumer { loaded with stage := .idle })
      else some (.quiet, ring.setConsumer { loaded with stage := .readSlot })
  | .readSlot =>
      (ring.queue.read consumer.head).map fun value =>
        (.quiet, ring.setConsumer { consumer with head := consumer.head + 1, stage := .storeHead value })
  | .storeHead value =>
      some (.popped value, { ring with
        queue := { ring.queue with head := consumer.head }
        consumer := { consumer with stage := .idle } })

/-- One step of any party. A call starts only at an idle endpoint, with
its local check against the cached cursor; `split` needs both endpoints gone, so
neither is inside a call. -/
def step (ring : Ring α w N) : RingAction α → Option (RingEvent α × Ring α w N)
  | .tryPush value =>
      match ring.producer.stage with
      | .idle =>
          let stage := if looksFull N ring.producer then .loadHead value else .writeSlot value
          some (.quiet, ring.setProducer { ring.producer with stage := stage })
      | _ => none
  | .hasCapacity =>
      match ring.producer.stage with
      | .idle =>
          if looksFull N ring.producer then
            some (.quiet, ring.setProducer { ring.producer with stage := .probeHead })
          else some (.capacity true, ring)
      | _ => none
  | .tryPop =>
      match ring.consumer.stage with
      | .idle =>
          let stage := if looksEmpty ring.consumer then .loadTail else .readSlot
          some (.quiet, ring.setConsumer { ring.consumer with stage := stage })
      | _ => none
  | .producer => ring.producerStep
  | .consumer => ring.consumerStep
  | .split =>
      match ring.producer.stage, ring.consumer.stage with
      | .idle, .idle => some (.quiet, split ring.queue)
      | _, _ => none

end Ring

end HftEngine
