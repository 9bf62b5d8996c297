/-
Module: HftEngine.Core.Gateway
Layer: Core
Purpose: The matching shard's gateway: sequence admission, order-id watermark,
  and the three command handlers that keep the risk engine and the book in
  step; export and validated restore of the combined state. `none` stands for a
  panic inside the book or the risk engine.
Imports: HftEngine.Core.BookState, HftEngine.Core.RiskState,
  HftEngine.Core.Wire
Trusted boundary: translates `Gateway` and `GatewayState` of the crate
  `hft-gateway`
Main exports: GatewayError, GatewayOutcome, Gateway, Gateway.processCommand,
  Gateway.processFrame, GatewayState, Gateway.exportState, Gateway.fromState
-/
import HftEngine.Core.BookState
import HftEngine.Core.RiskState
import HftEngine.Core.Wire

namespace HftEngine

open Machine

/-- Why a command was not executed. `risk` and `book` are refusals; `riskState`
reports that the ledger and the book disagree, or that the sequence numbers are
used up. -/
inductive GatewayError where
  | parse (error : ParseError)
  | sequence (expected received : SequenceNumber)
  | risk (reason : RejectReason)
  | book (reason : RejectReason)
  | riskState (reason : RejectReason)
deriving DecidableEq, Repr

/-- What an executed command did, by its kind. -/
inductive GatewayOutcome where
  | newOrder (summary : MatchSummary)
  | cancelled (cancelled : CancelledOrder)
  | replaced (replaced : ReplacedOrder)
deriving DecidableEq, Repr

/-- One shard: a risk engine and a book kept in step, the next sequence number,
and the largest order id a new order was received with. -/
structure Gateway (A R L O : Nat) where
  risk : RiskEngine A R
  book : OrderBook L O
  expectedSequence : SequenceNumber
  maximumReceivedOrderId : Option OrderId
deriving DecidableEq

namespace Gateway

variable {A R L O N : Nat}

/-- A gateway with an empty book. Sequence numbers start at one. -/
def new (risk : RiskEngine A R) (instrument : InstrumentId) : Gateway A R L O :=
  ⟨risk, OrderBook.new instrument, 1, none⟩

/-- Checks sequence admission without changing gateway state. -/
def checkSequence (gateway : Gateway A R L O) (received : SequenceNumber) : Except GatewayError Unit :=
  if received ≠ gateway.expectedSequence then .error (.sequence gateway.expectedSequence received)
  else
    match checkedAdd gateway.expectedSequence 1 with
    | none => .error (.riskState .arithmeticOverflow)
    | some _ => .ok ()

/-- Takes the sequence number of a command. It stays taken whatever becomes of
the command afterwards. -/
def acceptSequence (gateway : Gateway A R L O) (received : SequenceNumber) :
    Except GatewayError (Gateway A R L O) := do
  gateway.checkSequence received
  match checkedAdd gateway.expectedSequence 1 with
  | none => .error (.riskState .arithmeticOverflow)
  | some next => .ok { gateway with expectedSequence := next }

/-- Books every report of a match with the risk engine, maker first. -/
def recordFills : List ExecutionReport → RiskEngine A R →
    Option (Except RejectReason Unit × RiskEngine A R)
  | [], risk => some (.ok (), risk)
  | report :: rest, risk =>
      match risk.recordFill report.makerOrderId report.quantity with
      | none => none
      | some (.error reason, risk) => some (.error reason, risk)
      | some (.ok (), risk) =>
          match risk.recordFill report.takerOrderId report.quantity with
          | none => none
          | some (.error reason, risk) => some (.error reason, risk)
          | some (.ok (), risk) => recordFills rest risk

/-- After the book accepted an order: fills are recorded, and a remainder
behind which nothing rests is released exactly like a full cancel. -/
def settleSubmitted (gateway : Gateway A R L O) (order : NewOrder) (summary : MatchSummary)
    (reports : ReportBuffer N) :
    Option (Except GatewayError GatewayOutcome × Gateway A R L O × ReportBuffer N) :=
  match recordFills reports.entries gateway.risk with
  | none => none
  | some (.error reason, risk) =>
      some (.error (.riskState reason), { gateway with risk := risk }, reports)
  | some (.ok (), risk) =>
      if summary.restingQuantity.val = 0 ∧ summary.filledQuantity.val < order.quantity.val then
        match risk.settle order.orderId 0 with
        | none => none
        | some (.error reason, risk) =>
            some (.error (.riskState reason), { gateway with risk := risk }, reports)
        | some (.ok (), risk) =>
            some (.ok (.newOrder summary), { gateway with risk := risk }, reports)
      else some (.ok (.newOrder summary), { gateway with risk := risk }, reports)

/-- Submits a reserved order. Book rejection rolls back the taker's risk
reservation. -/
def submitReserved (gateway : Gateway A R L O) (order : NewOrder) (reports : ReportBuffer N) :
    Option (Except GatewayError GatewayOutcome × Gateway A R L O × ReportBuffer N) :=
  match gateway.book.submit order reports with
  | none => none
  | some (.ok summary, book, reports) =>
      { gateway with book := book }.settleSubmitted order summary reports
  | some (.error error, book, reports) =>
      match gateway.risk.settle order.orderId 0 with
      | none => none
      | some (.error reason, risk) =>
          some (.error (.riskState reason), { gateway with book := book, risk := risk }, reports)
      | some (.ok (), risk) =>
          some (.error (.book error), { gateway with book := book, risk := risk }, reports)

/-- A new order: its id has to be above every id received before, the risk
engine reserves the whole quantity, then the book matches it. The id counts as
received even when a limit refuses the order. -/
def processNewOrder (gateway : Gateway A R L O) (order : NewOrder) (reports : ReportBuffer N) :
    Option (Except GatewayError GatewayOutcome × Gateway A R L O × ReportBuffer N) :=
  if gateway.maximumReceivedOrderId.any fun maximum => order.orderId.val ≤ maximum.val then
    some (.error (.risk .duplicateOrderId), gateway, reports)
  else
    let gateway := { gateway with maximumReceivedOrderId := some order.orderId }
    match gateway.risk.checkAndReserve order with
    | none => none
    | some (.error reason, risk) => some (.error (.risk reason), { gateway with risk := risk }, reports)
    | some (.ok (), risk) => { gateway with risk := risk }.submitReserved order reports

/-- Owned amend: the reservation adjusts first, then the book mutates; a book
rejection restores the prior reservation total. -/
def processReplace (gateway : Gateway A R L O) (replace : ReplaceOrder) :
    Option (Except GatewayError GatewayOutcome × Gateway A R L O) :=
  match gateway.risk.adjustReservation replace.orderId replace.accountId replace.price
    replace.quantity with
  | none => none
  | some (.error reason, risk) => some (.error (.risk reason), { gateway with risk := risk })
  | some (.ok (_, priorRemaining), risk) =>
      match gateway.book.replace replace with
      | none => none
      | some (.ok replaced, book) =>
          some (.ok (.replaced replaced), { gateway with risk := risk, book := book })
      | some (.error error, book) =>
          match risk.restoreReservation replace.orderId replace.accountId priorRemaining with
          | none => none
          | some (.error reason, risk) =>
              some (.error (.riskState reason), { gateway with risk := risk, book := book })
          | some (.ok (), risk) =>
              some (.error (.book error), { gateway with risk := risk, book := book })

/-- An owned cancel. The book is asked only when the risk engine knows the
reservation and its owner, and the quantity it took off has to be the quantity
reserved. -/
def processCancel (gateway : Gateway A R L O) (cancel : CancelOrder) :
    Option (Except GatewayError GatewayOutcome × Gateway A R L O) :=
  match gateway.risk.canCancel cancel.orderId cancel.accountId with
  | .error reason => some (.error (.risk reason), gateway)
  | .ok () =>
      match gateway.book.cancel cancel with
      | none => none
      | some (.error reason, book) => some (.error (.book reason), { gateway with book := book })
      | some (.ok cancelled, book) =>
          match gateway.risk.cancelReservation cancel.orderId cancel.accountId with
          | none => none
          | some (.error reason, risk) =>
              some (.error (.riskState reason), { gateway with risk := risk, book := book })
          | some (.ok released, risk) =>
              let gateway := { gateway with risk := risk, book := book }
              if released ≠ cancelled.quantity then
                some (.error (.riskState .arithmeticOverflow), gateway)
              else some (.ok (.cancelled cancelled), gateway)

/-- The handler of each command kind, after sequence admission. -/
def dispatch (gateway : Gateway A R L O) (command : Command) (reports : ReportBuffer N) :
    Option (Except GatewayError GatewayOutcome × Gateway A R L O × ReportBuffer N) :=
  match command with
  | .newOrder order => gateway.processNewOrder order reports
  | .cancelOrder cancel => (gateway.processCancel cancel).map fun (result, gateway) =>
      (result, gateway, reports)
  | .replaceOrder replace => (gateway.processReplace replace).map fun (result, gateway) =>
      (result, gateway, reports)

/-- Processes one normalized command received by a matching shard. -/
def processCommand (gateway : Gateway A R L O) (command : Command) (reports : ReportBuffer N) :
    Option (Except GatewayError GatewayOutcome × Gateway A R L O × ReportBuffer N) :=
  let reports := reports.clear
  match gateway.acceptSequence command.sequence with
  | .error error => some (.error error, gateway, reports)
  | .ok gateway => gateway.dispatch command reports

/-- Parses a received frame, then handles the owned message. -/
def processFrame (gateway : Gateway A R L O) (frame : List U8) (reports : ReportBuffer N) :
    Option (Except GatewayError GatewayOutcome × Gateway A R L O × ReportBuffer N) :=
  let reports := reports.clear
  match parseMessage frame with
  | .error error => some (.error (.parse error), gateway, reports)
  | .ok message =>
      match gateway.acceptSequence message.sequence with
      | .error error => some (.error error, gateway, reports)
      | .ok gateway => gateway.dispatch message.toCommand reports

end Gateway

/-! ### Logical state -/

/-- The state of a gateway as data: the book, the ledger and the two counters
of the gateway itself. -/
structure GatewayState (L O : Nat) where
  instrument : InstrumentId
  book : BookState L O
  risk : RiskEngineState
  expectedSequence : SequenceNumber
  maximumReceivedOrderId : Option OrderId
deriving DecidableEq, Repr

/-- Why a combined state is refused: a component refused its own part, or the
two parts do not belong together. -/
inductive GatewayStateError where
  | book (error : BookStateError)
  | risk (error : RiskStateError)
  | expectedSequence
  | orderSequence
  | orderWatermark
  | riskWatermark
  | missingReservation
  | reservationMismatch
  | orderLimit
  | orphanReservation
deriving DecidableEq, Repr

namespace Gateway

variable {A R L O : Nat}

/-- The state of a gateway, with the instrument taken from its book. -/
def exportState (gateway : Gateway A R L O) : GatewayState L O where
  instrument := gateway.book.exportState.instrument
  book := gateway.book.exportState
  risk := gateway.risk.exportState
  expectedSequence := gateway.expectedSequence
  maximumReceivedOrderId := gateway.maximumReceivedOrderId

/-- `Option`'s derived order puts `none` below every id. -/
def watermarkExceeds (first second : Option OrderId) : Bool :=
  match first, second with
  | none, _ => false
  | some _, none => true
  | some first, some second => decide (second.val < first.val)

/-- Price times quantity of a stored order, refused when the price is negative
or the product leaves 128 bits. -/
def orderNotional (order : BookOrderState) : Option U128 := do
  let price ← unsignedOf (2 ^ 128) order.price
  checkedMul price (u128OfU64 order.quantity)

/-- The per-order limits of an account, as a stored order is held to them. -/
def withinOrderLimits (limits : RiskLimits) (order : BookOrderState) : Bool :=
  match orderNotional order with
  | none => false
  | some notional =>
      decide (order.quantity.val ≤ limits.maxQuantity.val) &&
        decide (limits.minimumPrice.val ≤ order.price.val) &&
        decide (order.price.val ≤ limits.maximumPrice.val) &&
        decide (notional.val ≤ limits.maxNotional.val)

/-- The checks made for one stored order. -/
def validateBookOrder (state : GatewayState L O) (order : BookOrderState) :
    Except GatewayStateError Unit :=
  if state.expectedSequence.val ≤ order.sequence.val then .error .orderSequence
  else if aboveWatermark state.maximumReceivedOrderId order.orderId then .error .orderWatermark
  else
    match state.risk.reservations.find? fun reservation => reservation.orderId = order.orderId with
    | none => .error .missingReservation
    | some reservation =>
        if reservation.accountId ≠ order.accountId ∨ reservation.side ≠ order.side ∨
            reservation.quantity ≠ order.quantity then .error .reservationMismatch
        else
          match state.risk.accounts.find? fun account => account.id = order.accountId with
          | none => .error .reservationMismatch
          | some account =>
              if withinOrderLimits account.limits order then .ok () else .error .orderLimit

/-- The checks of every resting order, in the order of the book state. -/
def validateBookOrders (state : GatewayState L O) :
    List BookOrderState → Except GatewayStateError Unit
  | [] => .ok ()
  | order :: rest => do
      validateBookOrder state order
      validateBookOrders state rest

/-- What the two components have to agree on: watermarks, one reservation for
every resting order with the same owner, side and quantity, and every order
within its account's limits. -/
def validateCrossComponentState (state : GatewayState L O) : Except GatewayStateError Unit :=
  if state.expectedSequence.val = 0 then .error .expectedSequence
  else if watermarkExceeds state.risk.maximumOrderId state.maximumReceivedOrderId then
    .error .riskWatermark
  else do
    validateBookOrders state state.book.orders
    if state.book.orders.length ≠ state.risk.reservations.length then .error .orphanReservation
    else .ok ()

/-- Rebuilds a gateway from validated logical state. -/
def fromState (state : GatewayState L O) : Except GatewayStateError (Gateway A R L O) :=
  match OrderBook.fromState state.instrument state.book with
  | .error error => .error (.book error)
  | .ok book =>
      match (RiskEngine.fromState state.risk : Except RiskStateError (RiskEngine A R)) with
      | .error error => .error (.risk error)
      | .ok risk => do
          validateCrossComponentState state
          pure ⟨risk, book, state.expectedSequence, state.maximumReceivedOrderId⟩

end Gateway

end HftEngine
