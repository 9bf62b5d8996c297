/-
Module: HftEngine.Core.SoakEvents
Layer: Core
Purpose: How the soak runner judges one batch of the event stream of a shard:
  what the batch is made of, who the events are addressed to and in which order
  they stand, how they are counted, and the words that enter the hash of the
  stream.
Imports: HftEngine.Core.Digest, HftEngine.Core.Events
Trusted boundary: translates the module `events` of the crate `hft-soak`
Main exports: EventSummary, EventValidationError, eventWords, hashEvent,
  BatchShape, checkEvent, validateBatch
-/
import HftEngine.Core.Digest
import HftEngine.Core.Events

namespace HftEngine.Soak

open Machine

/-! ### Event batches -/

/-- The counts of one batch and a fingerprint of its events. -/
structure EventSummary where
  events : Nat
  terminals : Nat
  accepted : Nat
  rejected : Nat
  cancelled : Nat
  replaced : Nat
  trades : Nat
  topOfBook : Nat
  fingerprint : U64
deriving DecidableEq, Repr

namespace EventSummary

def zero : EventSummary := ⟨0, 0, 0, 0, 0, 0, 0, 0, 0⟩

end EventSummary

/-- What is wrong with a batch; the first event that does not fit decides. -/
inductive EventValidationError where
  | emptyBatch
  | wrongInstrument
  | wrongSequence
  | wrongOrdinal
  | terminalNotFirst
  | terminalCount
  | duplicateTopOfBook
  | topOfBookNotLast
  | unexpectedTrade
  | unexpectedTopOfBook
deriving DecidableEq, Repr

/-- The instrument an event is about. -/
def eventInstrument : Event → InstrumentId
  | .accepted event => event.instrumentId
  | .rejected event => event.instrumentId
  | .trade event => event.instrumentId
  | .cancelled event => event.instrumentId
  | .replaced event => event.instrumentId
  | .topOfBook event => event.instrumentId

/-- Whether an event says what became of its command. -/
def isTerminal : Event → Bool
  | .accepted _ | .rejected _ | .cancelled _ | .replaced _ => true
  | .trade _ | .topOfBook _ => false

/-- Folds a word into the hash of a stream. The constants are those of the soak
runner, not those of the stable digests. -/
def mix (hash value : U64) : U64 :=
  ((rotateLeft hash 9 + 0x9e3779b97f4a7c15) * 0xbf58476d1ce4e5b9) ^^^ (value * 0x94d049bb133111eb)

/-- The word of a rejection reason. -/
def rejectReason : RejectReason → U64
  | .invalidInstrument => 1
  | .invalidPrice => 2
  | .invalidQuantity => 3
  | .quantityLimit => 4
  | .notionalLimit => 5
  | .positionLimit => 6
  | .openOrderLimit => 7
  | .priceCollar => 8
  | .duplicateOrderId => 9
  | .unknownOrder => 10
  | .notOrderOwner => 11
  | .killSwitch => 12
  | .unknownAccount => 13
  | .arithmeticOverflow => 14
  | .orderCapacity => 15
  | .priceLevelCapacity => 16
  | .priceLevelOrderCapacity => 17
  | .reportCapacity => 18
  | .insufficientLiquidity => 19
  | .postOnlyWouldTrade => 20
  | .replaceWouldCross => 21

/-- The word of an order state. -/
def orderState : OrderState → U64
  | .accepted => 1
  | .partiallyFilled => 2
  | .filled => 3
  | .rejected reason => 0x100 ||| rejectReason reason

/-- The discriminant of a command kind. -/
def commandWord : CommandKind → U64
  | .newOrder => 0
  | .cancel => 1
  | .replace => 2

/-- The words one side of the top of the book adds. -/
def topWords : Option TopLevel → List U64
  | none => [0]
  | some top =>
      [1, Bytes.wordOfBe _ (Bytes.signedBe 8 top.price), Fin.ofNat _ (top.aggregateQuantity / 2 ^ 64),
        Fin.ofNat _ top.aggregateQuantity, Fin.ofNat _ top.orderCount]

/-- The words of an event's payload. -/
def payloadWords : Event → List U64
  | .accepted event =>
      [1, event.orderId, widen u32_le_u64 event.accountId, orderState event.state, event.filledQuantity,
        event.restingQuantity, event.discardedQuantity]
  | .rejected event =>
      [2, event.orderId, widen u32_le_u64 event.accountId, commandWord event.command, rejectReason event.reason]
  | .trade event =>
      [3, event.makerOrderId, event.takerOrderId, Bytes.wordOfBe _ (Bytes.signedBe 8 event.price), event.quantity]
  | .cancelled event => [4, event.orderId, widen u32_le_u64 event.accountId, event.quantity]
  | .replaced event =>
      [5, event.orderId, widen u32_le_u64 event.accountId, event.oldQuantity, event.newQuantity,
        Bytes.wordOfBe _ (Bytes.signedBe 8 event.price), boolWord event.priorityLost]
  | .topOfBook event => 6 :: (topWords event.bid ++ topWords event.ask)

/-- The words of an event, in the order they are mixed. -/
def eventWords (event : Event) : List U64 :=
  event.id.commandSequence :: widen u16_le_u64 event.id.ordinal :: widen u32_le_u64 (eventInstrument event) ::
    payloadWords event

/-- Folds the words of an event into the hash of a stream. -/
def hashEvent (hash : U64) (event : Event) : U64 := (eventWords event).foldl mix hash

/-- The summary with one event counted. -/
def EventSummary.count (summary : EventSummary) (event : Event) : EventSummary :=
  let counted :=
    match event with
    | .accepted _ => { summary with accepted := summary.accepted + 1 }
    | .rejected _ => { summary with rejected := summary.rejected + 1 }
    | .trade _ => { summary with trades := summary.trades + 1 }
    | .cancelled _ => { summary with cancelled := summary.cancelled + 1 }
    | .replaced _ => { summary with replaced := summary.replaced + 1 }
    | .topOfBook _ => { summary with topOfBook := summary.topOfBook + 1 }
  { counted with events := counted.events + 1, fingerprint := hashEvent counted.fingerprint event }

/-- What the first event allows to follow, and where the batch ends. -/
structure BatchShape where
  accepted : Bool
  rejected : Bool
  len : Nat

/-- The checks of one event at its place in the batch, after `topCount`
top-of-book events. -/
def checkEvent (instrument : InstrumentId) (sequence : SequenceNumber) (shape : BatchShape) (index topCount : Nat)
    (event : Event) : Except EventValidationError Unit :=
  if eventInstrument event ≠ instrument then .error .wrongInstrument
  else if event.id.commandSequence ≠ sequence then .error .wrongSequence
  else if event.id.ordinal.val ≠ index then .error .wrongOrdinal
  else if isTerminal event ∧ index ≠ 0 then .error .terminalNotFirst
  else
    match event with
    | .trade _ => if shape.accepted then .ok () else .error .unexpectedTrade
    | .topOfBook _ =>
        if shape.rejected then .error .unexpectedTopOfBook
        else if topCount ≠ 0 then .error .duplicateTopOfBook
        else if index + 1 ≠ shape.len then .error .topOfBookNotLast
        else .ok ()
    | .accepted _ | .rejected _ | .cancelled _ | .replaced _ => .ok ()

/-- The loop over the events from `index` on, with the terminal events counted
so far. -/
def checkEvents (instrument : InstrumentId) (sequence : SequenceNumber) (shape : BatchShape) :
    (index terminals : Nat) → EventSummary → List Event → Except EventValidationError (Nat × EventSummary)
  | _, terminals, summary, [] => .ok (terminals, summary)
  | index, terminals, summary, event :: rest =>
      match checkEvent instrument sequence shape index summary.topOfBook event with
      | .error error => .error error
      | .ok () =>
          checkEvents instrument sequence shape (index + 1) (if isTerminal event then terminals + 1 else terminals)
            (summary.count event) rest

def isAccepted : Event → Bool
  | .accepted _ => true
  | .rejected _ | .trade _ | .cancelled _ | .replaced _ | .topOfBook _ => false

def isRejected : Event → Bool
  | .rejected _ => true
  | .accepted _ | .trade _ | .cancelled _ | .replaced _ | .topOfBook _ => false

/-- Checks event identity and ordering within one command batch. -/
def validateBatch {B : Nat} (batch : EventBatch B) (instrument : InstrumentId) (sequence : SequenceNumber) :
    Except EventValidationError EventSummary :=
  match batch.events with
  | [] => .error .emptyBatch
  | first :: rest =>
      let shape : BatchShape := ⟨isAccepted first, isRejected first, batch.events.length⟩
      match checkEvents instrument sequence shape 0 0 .zero (first :: rest) with
      | .error error => .error error
      | .ok (terminals, summary) =>
          if terminals ≠ 1 then .error .terminalCount else .ok { summary with terminals := terminals }

end HftEngine.Soak
