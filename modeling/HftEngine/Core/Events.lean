/-
Module: HftEngine.Core.Events
Layer: Core
Purpose: The bounded event engine: every processed command publishes one batch
  of events. Room in the event queue is checked before the gateway advances, so
  publication cannot fail afterwards. The event queue is seen at the grain of
  completed calls: the consumer only frees room, so a pop inside a call can be
  moved before it.
Imports: HftEngine.Core.Gateway, HftEngine.Lib.BoundedQueue
Trusted boundary: translates `BoundedEventEngine` of the crate `hft-events` and
  `OrderBook::top_level` of `hft-book`
Main exports: TopLevel, Event, EventBatch, EventEngineError, CommandIdentity,
  BoundedEventEngine, BoundedEventEngine.tryNew,
  BoundedEventEngine.processCommand, BoundedEventEngine.processFrame
-/
import HftEngine.Core.Gateway
import HftEngine.Lib.BoundedQueue

namespace HftEngine

open Machine

/-- What the market sees of a best level. The aggregate is the total the level
maintains, not a sum over its orders. -/
structure TopLevel where
  price : PriceTicks
  aggregateQuantity : Nat
  orderCount : Nat
deriving DecidableEq, Repr

/-- The best level of a side and its maintained quantity total. -/
def OrderBook.topLevel {L O : Nat} (book : OrderBook L O) (side : Side) : Option TopLevel := do
  let (price, levelIndex) ← (book.sideIndex side).entries.head?
  let level ← book.getLevel side levelIndex
  pure ⟨price, level.aggregateQuantity, level.len⟩

/-- The best level of a side of the gateway's book. -/
def Gateway.topLevel {A R L O : Nat} (gateway : Gateway A R L O) (side : Side) : Option TopLevel :=
  gateway.book.topLevel side

/-- Where an event belongs: the command that caused it and its place in the
batch of that command. -/
structure EventId where
  commandSequence : SequenceNumber
  ordinal : U16
deriving DecidableEq, Repr

/-- The kind of the command behind an event, for events that are the same for
all three. -/
inductive CommandKind where
  | newOrder
  | cancel
  | replace
deriving DecidableEq, Repr

/-! ### Event payloads -/

namespace Events

/-- A new order was taken in. The three quantities are those of the match
summary. -/
structure Accepted where
  id : EventId
  orderId : OrderId
  accountId : AccountId
  instrumentId : InstrumentId
  state : OrderState
  filledQuantity : Quantity
  restingQuantity : Quantity
  discardedQuantity : Quantity
deriving DecidableEq, Repr

/-- A command was refused by the risk engine or by the book; the reason is the
one the gateway returned. -/
structure Rejected where
  id : EventId
  command : CommandKind
  orderId : OrderId
  accountId : AccountId
  instrumentId : InstrumentId
  reason : RejectReason
deriving DecidableEq, Repr

/-- One fill, published from the side of the taker: its batch belongs to the
taker's command. -/
structure Trade where
  id : EventId
  makerOrderId : OrderId
  takerOrderId : OrderId
  instrumentId : InstrumentId
  price : PriceTicks
  quantity : Quantity
deriving DecidableEq, Repr

/-- An order was taken off the book on request, with the quantity that was left
of it. -/
structure Cancelled where
  id : EventId
  orderId : OrderId
  accountId : AccountId
  instrumentId : InstrumentId
  quantity : Quantity
deriving DecidableEq, Repr

/-- A resting order was amended. `priorityLost` says whether it went to the
tail of its level. -/
structure Replaced where
  id : EventId
  orderId : OrderId
  accountId : AccountId
  instrumentId : InstrumentId
  oldQuantity : Quantity
  newQuantity : Quantity
  price : PriceTicks
  priorityLost : Bool
deriving DecidableEq, Repr

/-- The best levels after a command, published only when the command changed
one of them. -/
structure TopOfBook where
  id : EventId
  instrumentId : InstrumentId
  bid : Option TopLevel
  ask : Option TopLevel
deriving DecidableEq, Repr

end Events

/-- The events of a batch: one terminal event for the command, then its trades,
and last the top of the book. -/
inductive Event where
  | accepted (event : Events.Accepted)
  | rejected (event : Events.Rejected)
  | trade (event : Events.Trade)
  | cancelled (event : Events.Cancelled)
  | replaced (event : Events.Replaced)
  | topOfBook (event : Events.TopOfBook)
deriving DecidableEq, Repr

/-- The identity of an event, whatever its payload. -/
def Event.id : Event → EventId
  | .accepted event => event.id
  | .rejected event => event.id
  | .trade event => event.id
  | .cancelled event => event.id
  | .replaced event => event.id
  | .topOfBook event => event.id

/-- The events in use of a batch with room for `B`. -/
structure EventBatch (B : Nat) where
  events : List Event
  bounded : events.length ≤ B
deriving DecidableEq, Repr

namespace EventBatch

variable {B : Nat}

def new : EventBatch B := ⟨[], Nat.zero_le B⟩

/-- `none` is the source's `BatchFull`. -/
def tryPush (batch : EventBatch B) (event : Event) : Option (EventBatch B) :=
  if h : batch.events.length < B then some ⟨batch.events ++ [event], by simpa using h⟩ else none

end EventBatch

/-- Why an event engine was not built: a batch must hold the largest result of
a command, and ordinals are words of sixteen bits. -/
inductive EventEngineConfigError where
  | batchTooSmall
  | tooManyEvents
deriving DecidableEq, Repr

/-- Why a call published nothing. The two invariant errors stand for states
that the checks before the command exclude. -/
inductive EventEngineError where
  | backpressured
  | gateway (error : GatewayError)
  | eventCapacityInvariant
  | publicationInvariant
deriving DecidableEq, Repr

/-! ### Events of a command -/

/-- What the events of a command repeat from it. -/
structure CommandIdentity where
  kind : CommandKind
  orderId : OrderId
  accountId : AccountId
  instrumentId : InstrumentId
deriving DecidableEq, Repr

namespace CommandIdentity

/-- The identity of a frame's command, read from the borrowed message before
the gateway sees the frame. -/
def fromMessage : BorrowedMessage → CommandIdentity
  | .newOrder bytes =>
      let order := newOrderToOwned bytes
      ⟨.newOrder, order.orderId, order.accountId, order.instrumentId⟩
  | .cancelOrder bytes =>
      let cancel := cancelOrderToOwned bytes
      ⟨.cancel, cancel.orderId, cancel.accountId, cancel.instrumentId⟩
  | .replaceOrder bytes =>
      let replace := replaceOrderToOwned bytes
      ⟨.replace, replace.orderId, replace.accountId, replace.instrumentId⟩

/-- The identity of a command that is already owned. -/
def fromCommand : Command → CommandIdentity
  | .newOrder order => ⟨.newOrder, order.orderId, order.accountId, order.instrumentId⟩
  | .cancelOrder cancel => ⟨.cancel, cancel.orderId, cancel.accountId, cancel.instrumentId⟩
  | .replaceOrder replace => ⟨.replace, replace.orderId, replace.accountId, replace.instrumentId⟩

end CommandIdentity

/-- The first event of a batch of an accepted command. The identifiers of a
cancel and an amend come from the outcome, those of a new order from the
command. -/
def terminalEvent (outcome : GatewayOutcome) (command : CommandIdentity) (sequence : SequenceNumber) (ordinal : U16) :
    Event :=
  let id : EventId := ⟨sequence, ordinal⟩
  match outcome with
  | .newOrder summary => .accepted
      { id := id
        orderId := command.orderId
        accountId := command.accountId
        instrumentId := command.instrumentId
        state := summary.state
        filledQuantity := summary.filledQuantity
        restingQuantity := summary.restingQuantity
        discardedQuantity := summary.discardedQuantity }
  | .cancelled cancelled => .cancelled
      { id := id
        orderId := cancelled.orderId
        accountId := cancelled.accountId
        instrumentId := command.instrumentId
        quantity := cancelled.quantity }
  | .replaced replaced => .replaced
      { id := id
        orderId := replaced.orderId
        accountId := replaced.accountId
        instrumentId := command.instrumentId
        oldQuantity := replaced.oldQuantity
        newQuantity := replaced.newQuantity
        price := replaced.price
        priorityLost := replaced.priorityLost }

/-- Appends an event to a batch that was sized for it beforehand; the error is
the invariant that this sizing keeps. -/
def pushPreflighted {B : Nat} (batch : EventBatch B) (event : Event) : Except EventEngineError (EventBatch B) :=
  match batch.tryPush event with
  | none => .error .eventCapacityInvariant
  | some batch => .ok batch

/-- The event of one report of the match. -/
def tradeEvent (sequence : SequenceNumber) (ordinal : U16) (report : ExecutionReport) : Event :=
  .trade
    { id := ⟨sequence, ordinal⟩
      makerOrderId := report.makerOrderId
      takerOrderId := report.takerOrderId
      instrumentId := report.instrumentId
      price := report.price
      quantity := report.quantity }

/-- One trade event per report, from an ordinal on; `none` where the ordinal
would overflow. -/
def pushTrades {B : Nat} (sequence : SequenceNumber) :
    List ExecutionReport → EventBatch B → U16 → Option (Except EventEngineError (EventBatch B × U16))
  | [], batch, ordinal => some (.ok (batch, ordinal))
  | report :: rest, batch, ordinal =>
      match pushPreflighted batch (tradeEvent sequence ordinal report) with
      | .error error => some (.error error)
      | .ok batch =>
          match checkedAdd ordinal 1 with
          | none => none
          | some ordinal => pushTrades sequence rest batch ordinal

/-- The best levels of both sides. -/
abbrev Tops := Option TopLevel × Option TopLevel

/-- The batch of a command that changed the state or was refused by risk or
book. -/
def buildBatch {B N : Nat} (command : CommandIdentity) (sequence : SequenceNumber) (before after : Tops)
    (reports : ReportBuffer N) : Except GatewayError GatewayOutcome → Option (Except EventEngineError (EventBatch B))
  | .ok outcome =>
      match pushPreflighted EventBatch.new (terminalEvent outcome command sequence 0) with
      | .error error => some (.error error)
      | .ok batch =>
          match pushTrades sequence reports.entries batch 1 with
          | none => none
          | some (.error error) => some (.error error)
          | some (.ok (batch, ordinal)) =>
              if before ≠ after then
                some (pushPreflighted batch (.topOfBook
                  ⟨⟨sequence, ordinal⟩, command.instrumentId, after.1, after.2⟩))
              else some (.ok batch)
  | .error (.risk reason) | .error (.book reason) =>
      some (pushPreflighted EventBatch.new (.rejected
        ⟨⟨sequence, 0⟩, command.kind, command.orderId, command.accountId, command.instrumentId, reason⟩))
  | .error error => some (.error (.gateway error))

/-! ### The engine -/

/-- A gateway with room for `N` reports a command, batches of `B` events and a
queue of `Q` batches. -/
structure BoundedEventEngine (A R L O N B Q : Nat) where
  gateway : Gateway A R L O
  queue : BoundedQueue (EventBatch B) Q
deriving DecidableEq

namespace BoundedEventEngine

variable {A R L O N B Q : Nat}

/-- Builds an engine when one batch can hold the largest command result. -/
def tryNew (gateway : Gateway A R L O) (queue : BoundedQueue (EventBatch B) Q) :
    Except EventEngineConfigError (BoundedEventEngine A R L O N B Q) :=
  if 2 ^ 16 - 1 - 1 < N then .error .tooManyEvents
  else if B < N + 2 then .error .batchTooSmall
  else .ok ⟨gateway, queue⟩

/-- The best levels of both sides now; a call compares them before and after
the command. -/
def tops (engine : BoundedEventEngine A R L O N B Q) : Tops :=
  (engine.gateway.topLevel .buy, engine.gateway.topLevel .sell)

/-- Sequence and event capacity, before anything changes. -/
def preflight (engine : BoundedEventEngine A R L O N B Q) (sequence : SequenceNumber) :
    Except EventEngineError Unit :=
  match engine.gateway.checkSequence sequence with
  | .error error => .error (.gateway error)
  | .ok () => if engine.queue.hasCapacity then .ok () else .error .backpressured

/-- Publishes the batch of a processed command. -/
def publishResult (engine : BoundedEventEngine A R L O N B Q) (command : CommandIdentity)
    (sequence : SequenceNumber) (before after : Tops) (reports : ReportBuffer N)
    (result : Except GatewayError GatewayOutcome) :
    Option (Except EventEngineError Unit × BoundedEventEngine A R L O N B Q) :=
  match (buildBatch command sequence before after reports result :
      Option (Except EventEngineError (EventBatch B))) with
  | none => none
  | some (.error error) => some (.error error, engine)
  | some (.ok batch) =>
      match engine.queue.tryPush batch with
      | none => some (.error .publicationInvariant, engine)
      | some queue => some (.ok (), { engine with queue := queue })

/-- Applies a command that passed the preflight and publishes its batch. -/
def applyAdmittedCommand (engine : BoundedEventEngine A R L O N B Q) (command : Command) :
    Option (Except EventEngineError Unit × BoundedEventEngine A R L O N B Q) :=
  match engine.gateway.processCommand command (ReportBuffer.empty : ReportBuffer N) with
  | none => none
  | some (result, gateway, reports) =>
      let applied := { engine with gateway := gateway }
      applied.publishResult (CommandIdentity.fromCommand command) command.sequence engine.tops applied.tops reports
        result

/-- Processes one normalized command: admission, then application. -/
def processCommand (engine : BoundedEventEngine A R L O N B Q) (command : Command) :
    Option (Except EventEngineError Unit × BoundedEventEngine A R L O N B Q) :=
  match engine.preflight command.sequence with
  | .error error => some (.error error, engine)
  | .ok () => engine.applyAdmittedCommand command

/-- Processes one frame. -/
def processFrame (engine : BoundedEventEngine A R L O N B Q) (frame : List U8) :
    Option (Except EventEngineError Unit × BoundedEventEngine A R L O N B Q) :=
  match parseMessage frame with
  | .error error => some (.error (.gateway (.parse error)), engine)
  | .ok message =>
      match engine.preflight message.sequence with
      | .error error => some (.error error, engine)
      | .ok () =>
          match engine.gateway.processFrame frame (ReportBuffer.empty : ReportBuffer N) with
          | none => none
          | some (result, gateway, reports) =>
              let applied := { engine with gateway := gateway }
              applied.publishResult (CommandIdentity.fromMessage message) message.sequence engine.tops applied.tops
                reports result

end BoundedEventEngine

end HftEngine
