/-
Module: HftEngine.Proofs.GatewayRefinement
Layer: Proofs
Purpose: Every call of the gateway answers as the logical gateway answers and
  keeps representing it, so two gateways with the same content cannot be told
  apart by any sequence of calls.
Imports: HftEngine.Lib.Transition, HftEngine.Spec.LogicalGateway,
  HftEngine.Proofs.MatchRefinement, HftEngine.Proofs.RiskRefinement
Trusted boundary: none (fully proved)
Main exports: GatewayCall, Gateway.call, LogicalGateway.call, GatewayRep,
  call_refines, run_refines
-/
import HftEngine.Lib.Transition
import HftEngine.Spec.LogicalGateway
import HftEngine.Proofs.MatchRefinement
import HftEngine.Proofs.RiskRefinement

namespace HftEngine

open Machine Transition

variable {A R L O N : Nat} {gateway : Gateway A R L O} {logical : LogicalGateway}

/-! ### Calls -/

/-- One call of the public interface, with the caller's report buffer. -/
inductive GatewayCall where
  | command {N : Nat} (command : Command) (reports : ReportBuffer N)
  | frame {N : Nat} (frame : List U8) (reports : ReportBuffer N)

/-- The answer of a storage step. -/
def answerOf (step : Except GatewayError GatewayOutcome × Gateway A R L O × ReportBuffer N) :
    GatewayAnswer × Gateway A R L O :=
  (⟨step.1, step.2.2.entries⟩, step.2.1)

/-- A call of the gateway as one step, with its answer and the reports it left
in the caller's buffer. -/
def Gateway.call (gateway : Gateway A R L O) : GatewayCall → Option (GatewayAnswer × Gateway A R L O)
  | .command command reports => (gateway.processCommand command reports).map answerOf
  | .frame frame reports => (gateway.processFrame frame reports).map answerOf

/-- The logical gateway's side of a call. -/
noncomputable def LogicalGateway.call (R L O : Nat) (gateway : LogicalGateway) :
    GatewayCall → Option (GatewayAnswer × LogicalGateway)
  | @GatewayCall.command N command _ => gateway.processCommand R L O N command
  | @GatewayCall.frame N frame _ => gateway.processFrame R L O N frame

/-! ### Representation -/

/-- The gateway stores exactly the logical gateway. -/
structure GatewayRep (gateway : Gateway A R L O) (logical : LogicalGateway) : Prop where
  risk : RiskRep gateway.risk logical.risk
  book : Represents gateway.book logical.book
  expectedSequence : gateway.expectedSequence = logical.expectedSequence
  maximumReceivedOrderId : gateway.maximumReceivedOrderId = logical.maximumReceivedOrderId

namespace GatewayRep

/-- The representation is component by component, so exchanging one component
needs only its own representation. -/
theorem withRisk (rep : GatewayRep gateway logical) {risk : RiskEngine A R} {state : RiskEngineState}
    (riskRep : RiskRep risk state) :
    GatewayRep { gateway with risk := risk } { logical with risk := state } :=
  ⟨riskRep, rep.book, rep.expectedSequence, rep.maximumReceivedOrderId⟩

theorem withBook (rep : GatewayRep gateway logical) {book : OrderBook L O} {content : LogicalBook}
    (bookRep : Represents book content) :
    GatewayRep { gateway with book := book } { logical with book := content } :=
  ⟨rep.risk, bookRep, rep.expectedSequence, rep.maximumReceivedOrderId⟩

theorem withSequence (rep : GatewayRep gateway logical) (next : SequenceNumber) :
    GatewayRep { gateway with expectedSequence := next } { logical with expectedSequence := next } :=
  ⟨rep.risk, rep.book, rfl, rep.maximumReceivedOrderId⟩

theorem withWatermark (rep : GatewayRep gateway logical) (maximum : Option OrderId) :
    GatewayRep { gateway with maximumReceivedOrderId := maximum }
      { logical with maximumReceivedOrderId := maximum } :=
  ⟨rep.risk, rep.book, rep.expectedSequence, rfl⟩

end GatewayRep

/-- A storage step answers as the logical step does, or panics with it. -/
def GatewayRefines (result : Option (Except GatewayError GatewayOutcome × Gateway A R L O × ReportBuffer N))
    (step : Option (GatewayAnswer × LogicalGateway)) : Prop :=
  Option.Rel (fun answer step => answer.1 = step.1 ∧ GatewayRep answer.2 step.2) (result.map answerOf) step

/-- An answer that leaves both gateways as they are. -/
theorem GatewayRep.answer (rep : GatewayRep gateway logical) {result : Except GatewayError GatewayOutcome}
    {reports : ReportBuffer N} {entries : List ExecutionReport} (hentries : reports.entries = entries) :
    GatewayRefines (some (result, gateway, reports)) (some (⟨result, entries⟩, logical)) := by
  subst hentries
  exact .some ⟨rfl, rep⟩

/-- Sequence admission reads and writes one counter, which both levels have. -/
theorem GatewayRep.acceptSequence_eq (rep : GatewayRep gateway logical) (received : SequenceNumber) :
    gateway.acceptSequence received = (logical.nextSequence received).map fun next =>
      { gateway with expectedSequence := next } := by
  unfold Gateway.acceptSequence Gateway.checkSequence LogicalGateway.nextSequence
  rw [rep.expectedSequence]
  by_cases hsame : received = logical.expectedSequence
  · rw [if_neg (by simpa using hsame), if_neg (by simpa using hsame)]
    cases hadd : checkedAdd logical.expectedSequence 1 with
    | none => rfl
    | some next => rfl
  · rw [if_pos hsame, if_pos hsame]
    rfl

/-! ### Handlers -/

/-- Booking the reports of a match, maker and taker of each in turn. -/
theorem recordFills_refines {risk : RiskEngine A R} {state : RiskEngineState} (rep : RiskRep risk state)
    (reports : List ExecutionReport) :
    RiskRefines (Gateway.recordFills reports risk) (state.recordFills reports) := by
  induction reports generalizing risk state with
  | nil => exact ⟨risk, rfl, rep⟩
  | cons report rest ih =>
      unfold Gateway.recordFills RiskEngineState.recordFills
      obtain ⟨risk₁, hmaker, rep₁⟩ := recordFill_refines rep report.makerOrderId report.quantity
      rw [hmaker]
      generalize state.recordFill report.makerOrderId report.quantity = maker at rep₁
      obtain ⟨result, state₁⟩ := maker
      cases result with
      | error reason => exact ⟨risk₁, rfl, rep₁⟩
      | ok _ =>
          obtain ⟨risk₂, htaker, rep₂⟩ := recordFill_refines rep₁ report.takerOrderId report.quantity
          simp only [htaker]
          generalize state₁.recordFill report.takerOrderId report.quantity = taker at rep₂
          obtain ⟨result, state₂⟩ := taker
          cases result with
          | error reason => exact ⟨risk₂, rfl, rep₂⟩
          | ok _ => exact ih rep₂

/-- After the match: the fills are booked, and what neither traded nor rests is
released. -/
theorem settleSubmitted_refines (rep : GatewayRep gateway logical) (order : NewOrder) (summary : MatchSummary)
    {reports : ReportBuffer N} {entries : List ExecutionReport} (hentries : reports.entries = entries) :
    GatewayRefines (gateway.settleSubmitted order summary reports)
      (some (logical.settleSubmitted order summary entries)) := by
  unfold Gateway.settleSubmitted LogicalGateway.settleSubmitted
  obtain ⟨risk, hrecord, riskRep⟩ := recordFills_refines rep.risk reports.entries
  rw [hrecord, hentries]
  rw [hentries] at riskRep
  generalize logical.risk.recordFills entries = recorded at riskRep
  obtain ⟨result, state⟩ := recorded
  cases result with
  | error reason => exact (rep.withRisk riskRep).answer hentries
  | ok _ =>
      simp only
      split
      · obtain ⟨risk', hsettle, riskRep'⟩ := settle_refines riskRep order.orderId 0
        rw [hsettle]
        generalize state.settle order.orderId 0 = settled at riskRep'
        obtain ⟨result, state'⟩ := settled
        cases result with
        | error reason => exact (rep.withRisk riskRep').answer hentries
        | ok _ => exact (rep.withRisk riskRep').answer hentries
      · exact (rep.withRisk riskRep).answer hentries

/-- The match of a reserved order, or the release of its reservation when the
book refuses it. -/
theorem submitReserved_refines (rep : GatewayRep gateway logical) (order : NewOrder) :
    GatewayRefines (gateway.submitReserved order (ReportBuffer.empty : ReportBuffer N))
      (logical.submitReserved L O N order) := by
  unfold Gateway.submitReserved LogicalGateway.submitReserved
  have hsubmit := submit_refines rep.book order (ReportBuffer.empty : ReportBuffer N)
  have hcapacity : (ReportBuffer.empty : ReportBuffer N).remainingCapacity = N := rfl
  rw [hcapacity] at hsubmit
  generalize logical.book.submit L O order N = submitted at hsubmit
  match submitted, hsubmit with
  | none, hsubmit =>
      rw [show gateway.book.submit order ReportBuffer.empty = none from hsubmit]
      exact .none
  | some (.error reason, after), hsubmit =>
      obtain ⟨hresult, rfl⟩ := hsubmit
      rw [hresult]
      obtain ⟨risk, hsettle, riskRep⟩ := settle_refines rep.risk order.orderId 0
      simp only [hsettle]
      generalize logical.risk.settle order.orderId 0 = settled at riskRep
      obtain ⟨result, state⟩ := settled
      cases result with
      | error reason => exact (rep.withRisk riskRep).answer rfl
      | ok _ => exact (rep.withRisk riskRep).answer rfl
  | some (.ok (summary, fills), after), hsubmit =>
      obtain ⟨book, reports, hresult, bookRep, hentries, _⟩ := hsubmit
      rw [hresult]
      exact settleSubmitted_refines (rep.withBook bookRep) order summary hentries

/-- A new order from the watermark to its settlement. -/
theorem processNewOrder_refines (rep : GatewayRep gateway logical) (order : NewOrder) :
    GatewayRefines (gateway.processNewOrder order (ReportBuffer.empty : ReportBuffer N))
      (logical.processNewOrder R L O N order) := by
  unfold Gateway.processNewOrder LogicalGateway.processNewOrder
  rw [rep.maximumReceivedOrderId]
  split
  · exact rep.answer rfl
  · obtain ⟨risk, hreserve, riskRep⟩ := checkAndReserve_refines rep.risk order
    simp only [hreserve]
    generalize logical.risk.checkAndReserve R order = reserved at riskRep
    obtain ⟨result, state⟩ := reserved
    cases result with
    | error reason => exact ((rep.withWatermark (some order.orderId)).withRisk riskRep).answer rfl
    | ok _ => exact submitReserved_refines ((rep.withWatermark (some order.orderId)).withRisk riskRep) order

/-- An amend: the reservation first, then the book, and back again when the
book refuses. -/
theorem processReplace_refines (rep : GatewayRep gateway logical) (replace : ReplaceOrder) :
    ∃ gateway', gateway.processReplace replace = some ((logical.processReplace L O replace).1.result, gateway') ∧
      (logical.processReplace L O replace).1.reports = [] ∧
      GatewayRep gateway' (logical.processReplace L O replace).2 := by
  unfold Gateway.processReplace LogicalGateway.processReplace
  obtain ⟨risk, hadjust, riskRep⟩ := adjustReservation_refines rep.risk replace.orderId replace.accountId
    replace.price replace.quantity
  rw [hadjust]
  generalize logical.risk.adjustReservation replace.orderId replace.accountId replace.price
    replace.quantity = adjusted at riskRep
  obtain ⟨result, state⟩ := adjusted
  cases result with
  | error reason => exact ⟨_, rfl, rfl, rep.withRisk riskRep⟩
  | ok prior =>
      obtain ⟨book, hreplace, bookRep, _⟩ := replace_refines rep.book replace
      simp only [hreplace]
      generalize logical.book.replace L O replace = replaced at bookRep
      obtain ⟨result, book'⟩ := replaced
      cases result with
      | ok replaced => exact ⟨_, rfl, rfl, (rep.withRisk riskRep).withBook bookRep⟩
      | error error =>
          obtain ⟨risk', hrestore, riskRep'⟩ := restoreReservation_refines riskRep replace.orderId
            replace.accountId prior.2
          simp only [hrestore]
          generalize state.restoreReservation replace.orderId replace.accountId prior.2 = restored at riskRep'
          obtain ⟨result, state'⟩ := restored
          cases result with
          | error reason => exact ⟨_, rfl, rfl, (rep.withRisk riskRep').withBook bookRep⟩
          | ok _ => exact ⟨_, rfl, rfl, (rep.withRisk riskRep').withBook bookRep⟩

/-- A cancel: asked of the ledger, executed in the book, released in the
ledger. -/
theorem processCancel_refines (rep : GatewayRep gateway logical) (cancel : CancelOrder) :
    ∃ gateway', gateway.processCancel cancel = some ((logical.processCancel cancel).1.result, gateway') ∧
      (logical.processCancel cancel).1.reports = [] ∧ GatewayRep gateway' (logical.processCancel cancel).2 := by
  unfold Gateway.processCancel LogicalGateway.processCancel
  rw [canCancel_refines rep.risk]
  cases logical.risk.canCancel cancel.orderId cancel.accountId with
  | error reason => exact ⟨_, rfl, rfl, rep⟩
  | ok _ =>
      obtain ⟨book, hcancel, bookRep, _⟩ := cancel_refines rep.book cancel
      simp only [hcancel]
      generalize logical.book.cancel cancel = cancelled at bookRep
      obtain ⟨result, book'⟩ := cancelled
      cases result with
      | error reason => exact ⟨_, rfl, rfl, rep.withBook bookRep⟩
      | ok cancelled =>
          obtain ⟨risk, hrelease, riskRep⟩ := cancelReservation_refines rep.risk cancel.orderId cancel.accountId
          simp only [hrelease]
          generalize logical.risk.cancelReservation cancel.orderId cancel.accountId = released at riskRep
          obtain ⟨result, state⟩ := released
          cases result with
          | error reason => exact ⟨_, rfl, rfl, (rep.withRisk riskRep).withBook bookRep⟩
          | ok released =>
              simp only
              split
              · exact ⟨_, rfl, rfl, (rep.withRisk riskRep).withBook bookRep⟩
              · exact ⟨_, rfl, rfl, (rep.withRisk riskRep).withBook bookRep⟩

/-! ### Steps and runs -/

/-- One command after its sequence number was taken. -/
theorem dispatch_refines (rep : GatewayRep gateway logical) (command : Command) :
    GatewayRefines (gateway.dispatch command (ReportBuffer.empty : ReportBuffer N))
      (logical.dispatch R L O N command) := by
  cases command with
  | newOrder order => exact processNewOrder_refines rep order
  | cancelOrder cancel =>
      obtain ⟨gateway', hresult, hreports, rep'⟩ := processCancel_refines rep cancel
      simp only [Gateway.dispatch, hresult]
      exact .some ⟨GatewayAnswer.ext rfl hreports.symm, rep'⟩
  | replaceOrder replace =>
      obtain ⟨gateway', hresult, hreports, rep'⟩ := processReplace_refines rep replace
      simp only [Gateway.dispatch, hresult]
      exact .some ⟨GatewayAnswer.ext rfl hreports.symm, rep'⟩

/-- A parsed message carries the sequence of its command. -/
theorem sequence_toCommand (message : BorrowedMessage) : message.toCommand.sequence = message.sequence := by
  cases message <;> rfl

/-- One command with its sequence number. -/
theorem processCommand_refines (rep : GatewayRep gateway logical) (command : Command)
    (reports : ReportBuffer N) :
    GatewayRefines (gateway.processCommand command reports) (logical.processCommand R L O N command) := by
  unfold Gateway.processCommand LogicalGateway.processCommand
  rw [rep.acceptSequence_eq]
  cases logical.nextSequence command.sequence with
  | error error => exact rep.answer rfl
  | ok next => exact dispatch_refines (rep.withSequence next) command

/-- A frame is its command once it parses. -/
theorem processFrame_eq (frame : List U8) (reports : ReportBuffer N) :
    gateway.processFrame frame reports = match parseMessage frame with
      | .error error => some (.error (.parse error), gateway, reports.clear)
      | .ok message => gateway.processCommand message.toCommand reports := by
  unfold Gateway.processFrame Gateway.processCommand
  cases parseMessage frame with
  | error error => rfl
  | ok message => simp only [sequence_toCommand]

/-- One frame. Both levels parse it with the same parser. -/
theorem processFrame_refines (rep : GatewayRep gateway logical) (frame : List U8) (reports : ReportBuffer N) :
    GatewayRefines (gateway.processFrame frame reports) (logical.processFrame R L O N frame) := by
  rw [processFrame_eq]
  unfold LogicalGateway.processFrame
  cases parseMessage frame with
  | error error => exact rep.answer rfl
  | ok message => exact processCommand_refines rep message.toCommand reports

/-- One call: the gateway answers as its content does, and keeps its
content. -/
theorem call_refines (rep : GatewayRep gateway logical) (call : GatewayCall) :
    Option.Rel (fun answer step => answer.1 = step.1 ∧ GatewayRep answer.2 step.2) (gateway.call call)
      (logical.call R L O call) := by
  cases call with
  | command command reports => exact processCommand_refines rep command reports
  | frame frame reports => exact processFrame_refines rep frame reports

/-- Any sequence of calls. -/
theorem run_refines (rep : GatewayRep gateway logical) (calls : List GatewayCall) :
    Option.Rel (fun answer step => answer.1 = step.1 ∧ GatewayRep answer.2 step.2)
      (run Gateway.call gateway calls) (run (LogicalGateway.call R L O) logical calls) :=
  run_rel (R := GatewayRep) (fun call rep => call_refines rep call) calls rep

end HftEngine
