/-
Module: HftEngine.Spec.LogicalGateway
Layer: Spec
Purpose: What a matching shard is for, without storage: the risk ledger and the
  logical book, advanced together by each command. The capacities enter only
  where a refusal depends on them.
Imports: HftEngine.Core.Gateway, HftEngine.Spec.LogicalBook,
  HftEngine.Spec.LogicalRisk
Trusted boundary: none (specification; connected to the code by
  `Proofs.GatewayRefinement`)
Main exports: GatewayAnswer, LogicalGateway, LogicalGateway.processCommand
-/
import HftEngine.Core.Gateway
import HftEngine.Spec.LogicalBook
import HftEngine.Spec.LogicalRisk

namespace HftEngine

open Machine

/-- What a caller sees of one call: the outcome and the reports in the
buffer. -/
@[ext]
structure GatewayAnswer where
  result : Except GatewayError GatewayOutcome
  reports : List ExecutionReport
deriving DecidableEq

/-- The content of a gateway. -/
@[ext]
structure LogicalGateway where
  risk : RiskEngineState
  book : LogicalBook
  expectedSequence : SequenceNumber
  maximumReceivedOrderId : Option OrderId

/-- Books every report with the ledger, maker first. -/
def RiskEngineState.recordFills : List ExecutionReport → RiskEngineState →
    Except RejectReason Unit × RiskEngineState
  | [], risk => (.ok (), risk)
  | report :: rest, risk =>
      match risk.recordFill report.makerOrderId report.quantity with
      | (.error reason, risk) => (.error reason, risk)
      | (.ok (), risk) =>
          match risk.recordFill report.takerOrderId report.quantity with
          | (.error reason, risk) => (.error reason, risk)
          | (.ok (), risk) => recordFills rest risk

namespace LogicalGateway

variable (R L O N : Nat)

/-- An answer without reports. -/
def silent (result : Except GatewayError GatewayOutcome) (gateway : LogicalGateway) :
    GatewayAnswer × LogicalGateway :=
  (⟨result, []⟩, gateway)

/-- Books the fills of an accepted order and releases a remainder that does not
rest. -/
def settleSubmitted (gateway : LogicalGateway) (order : NewOrder) (summary : MatchSummary)
    (reports : List ExecutionReport) : GatewayAnswer × LogicalGateway :=
  match gateway.risk.recordFills reports with
  | (.error reason, risk) => (⟨.error (.riskState reason), reports⟩, { gateway with risk := risk })
  | (.ok (), risk) =>
      if summary.restingQuantity.val = 0 ∧ summary.filledQuantity.val < order.quantity.val then
        match risk.settle order.orderId 0 with
        | (.error reason, risk) => (⟨.error (.riskState reason), reports⟩, { gateway with risk := risk })
        | (.ok (), risk) => (⟨.ok (.newOrder summary), reports⟩, { gateway with risk := risk })
      else (⟨.ok (.newOrder summary), reports⟩, { gateway with risk := risk })

/-- Submits a reserved order; a refusal of the book releases the
reservation. -/
noncomputable def submitReserved (gateway : LogicalGateway) (order : NewOrder) :
    Option (GatewayAnswer × LogicalGateway) :=
  match gateway.book.submit L O order N with
  | none => none
  | some (.ok (summary, fills), book) =>
      some ({ gateway with book := book }.settleSubmitted order summary (fills.map (reportOf order)))
  | some (.error error, book) =>
      match gateway.risk.settle order.orderId 0 with
      | (.error reason, risk) =>
          some (silent (.error (.riskState reason)) { gateway with book := book, risk := risk })
      | (.ok (), risk) => some (silent (.error (.book error)) { gateway with book := book, risk := risk })

/-- A new order: watermark, reservation, match, and the settlement of its
fills. -/
noncomputable def processNewOrder (gateway : LogicalGateway) (order : NewOrder) :
    Option (GatewayAnswer × LogicalGateway) :=
  if gateway.maximumReceivedOrderId.any fun maximum => order.orderId.val ≤ maximum.val then
    some (silent (.error (.risk .duplicateOrderId)) gateway)
  else
    match gateway.risk.checkAndReserve R order with
    | (.error reason, risk) => some (silent (.error (.risk reason))
        { gateway with maximumReceivedOrderId := some order.orderId, risk := risk })
    | (.ok (), risk) =>
        { gateway with maximumReceivedOrderId := some order.orderId, risk := risk }.submitReserved L O N order

/-- Adjusts the reservation, then amends the book; a refusal of the book undoes
the adjustment. -/
def processReplace (gateway : LogicalGateway) (replace : ReplaceOrder) : GatewayAnswer × LogicalGateway :=
  match gateway.risk.adjustReservation replace.orderId replace.accountId replace.price replace.quantity with
  | (.error reason, risk) => silent (.error (.risk reason)) { gateway with risk := risk }
  | (.ok (_, priorRemaining), risk) =>
      match gateway.book.replace L O replace with
      | (.ok replaced, book) => silent (.ok (.replaced replaced)) { gateway with risk := risk, book := book }
      | (.error error, book) =>
          match risk.restoreReservation replace.orderId replace.accountId priorRemaining with
          | (.error reason, risk) =>
              silent (.error (.riskState reason)) { gateway with risk := risk, book := book }
          | (.ok (), risk) => silent (.error (.book error)) { gateway with risk := risk, book := book }

/-- An owned cancel of a resting order, in ledger and book. -/
def processCancel (gateway : LogicalGateway) (cancel : CancelOrder) : GatewayAnswer × LogicalGateway :=
  match gateway.risk.canCancel cancel.orderId cancel.accountId with
  | .error reason => silent (.error (.risk reason)) gateway
  | .ok () =>
      match gateway.book.cancel cancel with
      | (.error reason, book) => silent (.error (.book reason)) { gateway with book := book }
      | (.ok cancelled, book) =>
          match gateway.risk.cancelReservation cancel.orderId cancel.accountId with
          | (.error reason, risk) =>
              silent (.error (.riskState reason)) { gateway with risk := risk, book := book }
          | (.ok released, risk) =>
              if released ≠ cancelled.quantity then
                silent (.error (.riskState .arithmeticOverflow)) { gateway with risk := risk, book := book }
              else silent (.ok (.cancelled cancelled)) { gateway with risk := risk, book := book }

noncomputable def dispatch (gateway : LogicalGateway) :
    Command → Option (GatewayAnswer × LogicalGateway)
  | .newOrder order => gateway.processNewOrder R L O N order
  | .cancelOrder cancel => some (gateway.processCancel cancel)
  | .replaceOrder replace => some (gateway.processReplace L O replace)

/-- The sequence that follows, when the received one is admitted. -/
def nextSequence (gateway : LogicalGateway) (received : SequenceNumber) : Except GatewayError SequenceNumber :=
  if received ≠ gateway.expectedSequence then .error (.sequence gateway.expectedSequence received)
  else
    match checkedAdd gateway.expectedSequence 1 with
    | none => .error (.riskState .arithmeticOverflow)
    | some next => .ok next

/-- Advances the gateway by one command, for report buffers of `N` entries. -/
noncomputable def processCommand (gateway : LogicalGateway) (command : Command) :
    Option (GatewayAnswer × LogicalGateway) :=
  match gateway.nextSequence command.sequence with
  | .error error => some (silent (.error error) gateway)
  | .ok next => { gateway with expectedSequence := next }.dispatch R L O N command

/-- Advances the gateway by one received frame. -/
noncomputable def processFrame (gateway : LogicalGateway) (frame : List U8) :
    Option (GatewayAnswer × LogicalGateway) :=
  match parseMessage frame with
  | .error error => some (silent (.error (.parse error)) gateway)
  | .ok message => gateway.processCommand R L O N message.toCommand

end LogicalGateway

end HftEngine
