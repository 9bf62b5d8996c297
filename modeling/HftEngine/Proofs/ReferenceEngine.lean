/-
Module: HftEngine.Proofs.ReferenceEngine
Layer: Proofs
Purpose: The gateway against the reference engine over whole runs. Fed the same
  commands in lockstep both give the same verdicts and show the same accounts,
  for as long as no owner asks for an increase beyond its account's limits: the
  reference engine keeps such an increase in the account that it refuses it
  for.
Imports: HftEngine.Core.EngineSystem, HftEngine.Proofs.GatewayInvariant,
  HftEngine.Proofs.ReferenceLedger
Trusted boundary: none (fully proved)
Main exports: Verdict, EngineObservation, gatewayStep, referenceStep,
  SequencedCalls, Affordable, Permitted, LogicalGateway.reference,
  reference_answer, gateway_follows_reference
-/
import HftEngine.Core.EngineSystem
import HftEngine.Proofs.GatewayInvariant
import HftEngine.Proofs.ReferenceLedger

namespace HftEngine

open Machine Transition

variable {A R L O N : Nat} {gateway gateway' : LogicalGateway} {book : ModelBook} {answer : GatewayAnswer}
  {engine : ModelEngine} {risk risk' : RiskEngineState} {order : NewOrder} {fills : List ModelFill}
  {next : SequenceNumber}

/-! ### What both engines show -/

/-- The verdict on a command, in the words of the reference engine. The
reference engine gives no `failed`. -/
inductive Verdict where
  | submitted (outcome : ModelNewOutcome)
  | cancelled (outcome : ModelCancelled)
  | replaced (outcome : ModelReplaced)
  | rejected (rejection : ModelRejection)
  | failed (error : GatewayError)
deriving DecidableEq

/-- A verdict and the projected position and open orders of every account
afterwards. -/
structure EngineObservation where
  verdict : Verdict
  views : AccountId → Option (I128 × U32)

/-- What the reference records of a fill: maker, price and quantity. -/
def fillOf (report : ExecutionReport) : ModelFill := ⟨report.makerOrderId, report.price, report.quantity⟩

/-- The verdict in an answer of the gateway. -/
def GatewayAnswer.verdict (answer : GatewayAnswer) : Verdict :=
  match answer.result with
  | .ok (.newOrder summary) => .submitted ⟨summary.filledQuantity, summary.restingQuantity,
      summary.discardedQuantity, answer.reports.map fillOf⟩
  | .ok (.cancelled found) => .cancelled ⟨found.orderId, found.accountId, found.quantity⟩
  | .ok (.replaced found) => .replaced ⟨found.orderId, found.accountId, found.oldQuantity, found.newQuantity,
      found.price, found.priorityLost⟩
  | .error (.risk reason) => .rejected (.risk reason)
  | .error (.book reason) => .rejected (.book reason)
  | .error (.parse error) => .failed (.parse error)
  | .error (.sequence expected received) => .failed (.sequence expected received)
  | .error (.riskState reason) => .failed (.riskState reason)

/-- The verdict in a result of the reference engine. -/
def verdictOf {α : Type} (accepted : α → Verdict) : Except ModelRejection α → Verdict
  | .ok outcome => accepted outcome
  | .error rejection => .rejected rejection

/-- The reference engine's handler of each command kind, with room for
`capacity` fills. -/
def ModelEngine.apply (engine : ModelEngine) (capacity : Nat) : Command → Option (Verdict × ModelEngine)
  | .newOrder order => (engine.applyNew order capacity).map fun (result, engine) =>
      (verdictOf .submitted result, engine)
  | .cancelOrder cancel => (engine.applyCancel cancel).map fun (result, engine) =>
      (verdictOf .cancelled result, engine)
  | .replaceOrder replace => (engine.applyReplace replace).map fun (result, engine) =>
      (verdictOf .replaced result, engine)

/-- One call of the gateway, observed. -/
def gatewayStep (gateway : Gateway A R L O) (call : GatewayCall) : Option (EngineObservation × Gateway A R L O) :=
  (gateway.call call).map fun (answer, gateway) => (⟨answer.verdict, gateway.risk.accountSnapshot⟩, gateway)

/-- The command of a call given to the reference engine, observed. -/
def referenceStep (engine : ModelEngine) (call : GatewayCall) : Option (EngineObservation × ModelEngine) := do
  let command ← call.command?
  let (verdict, engine) ← engine.apply call.capacity command
  pure (⟨verdict, engine.accountView⟩, engine)

/-- Registers the accounts in order; a duplicate panics. -/
def ModelEngine.registerAll : List (AccountId × RiskLimits) → ModelEngine → Option ModelEngine
  | [], engine => some engine
  | (id, limits) :: rest, engine => do
      let engine ← engine.registerAccount id (.of limits)
      registerAll rest engine

/-! ### The commands compared -/

/-- The commands of a comparison: they carry the instrument and positive prices
and quantities. -/
def Command.WellFormed (instrument : InstrumentId) : Command → Prop
  | .newOrder order => order.instrumentId = instrument ∧ 0 < order.price.val ∧ 0 < order.quantity.val
  | .cancelOrder request => request.instrumentId = instrument
  | .replaceOrder request => request.instrumentId = instrument ∧ 0 < request.price.val ∧ 0 < request.quantity.val

/-- Calls that carry well-formed commands, numbered consecutively. -/
def SequencedCalls (instrument : InstrumentId) : Nat → List GatewayCall → Prop
  | _, [] => True
  | first, call :: rest =>
      (∃ command, call.command? = some command ∧ command.sequence.val = first ∧ command.WellFormed instrument) ∧
        SequencedCalls instrument (first + 1) rest

/-- The increase of a reservation is within the notional and position limits of
its account. -/
def Affordable (account : AccountState) (side : Side) (current : Quantity) (price : PriceTicks)
    (quantity : Quantity) : Prop :=
  price.val * quantity.val ≤ account.limits.maxNotional.val ∧
    side.sign * account.settledPosition.val + (account.reserved side).val + (quantity.val - current.val : Int)
      ≤ account.limits.maxAbsPosition.val

instance (account : AccountState) (side : Side) (current : Quantity) (price : PriceTicks) (quantity : Quantity) :
    Decidable (Affordable account side current price quantity) := inferInstanceAs (Decidable (_ ∧ _))

/-- An amend is no owner's increase beyond the limits of its account. -/
def Gateway.Affords (gateway : Gateway A R L O) : Command → Prop
  | .newOrder _ | .cancelOrder _ => True
  | .replaceOrder request => ∀ reservation ∈ gateway.risk.liveReservations,
      reservation.orderId = request.orderId → reservation.accountId = request.accountId →
      reservation.quantity.val < request.quantity.val →
      ∀ account ∈ gateway.risk.registeredAccounts, account.id = request.accountId →
        Affordable account reservation.side reservation.quantity request.price request.quantity

instance (gateway : Gateway A R L O) : (command : Command) → Decidable (gateway.Affords command)
  | .newOrder _ | .cancelOrder _ => .isTrue trivial
  | .replaceOrder _ => inferInstanceAs (Decidable (∀ reservation ∈ gateway.risk.liveReservations, _))

/-- A command below the last sequence number that is no owner's increase beyond
its account's limits. -/
def Gateway.Permits (gateway : Gateway A R L O) (command : Command) : Prop :=
  command.sequence.val + 1 < 2 ^ 64 ∧ gateway.Affords command

instance (gateway : Gateway A R L O) (command : Command) : Decidable (gateway.Permits command) :=
  inferInstanceAs (Decidable (_ ∧ _))

/-- Every command of a run is permitted in the state it is given to. -/
def Permitted : Gateway A R L O → List GatewayCall → Prop
  | _, [] => True
  | gateway, call :: rest => (∀ command ∈ call.command?, gateway.Permits command) ∧
      match gateway.call call with
      | none => True
      | some (_, next) => Permitted next rest

instance decidablePermitted : (gateway : Gateway A R L O) → (calls : List GatewayCall) → Decidable (Permitted gateway calls)
  | _, [] => .isTrue trivial
  | gateway, call :: rest =>
      match hcall : gateway.call call with
      | none => decidable_of_iff (∀ command ∈ call.command?, gateway.Permits command) (by simp [Permitted, hcall])
      | some (_, next) =>
          have := decidablePermitted next rest
          decidable_of_iff ((∀ command ∈ call.command?, gateway.Permits command) ∧ Permitted next rest)
            (by simp [Permitted, hcall])

/-! ### The reference engine of a gateway -/

/-- The reference engine that holds a gateway's content, over a reference
book. -/
def LogicalGateway.reference (L O : Nat) (gateway : LogicalGateway) (book : ModelBook) : ModelEngine where
  instrument := gateway.book.instrument
  levelCap := L
  orderCap := O
  book := book
  accounts := fun id => (gateway.risk.account id).map .of
  reservations := fun id => (gateway.risk.reservation id).map .of
  maximumReceivedOrderId := gateway.maximumReceivedOrderId
  nextSequence := gateway.expectedSequence

variable (engine) in
/-- The reference books the fills of an order onto its accounts and
reservations as the risk engine does. -/
theorem recordFills_holding (h : risk.recordFills (fills.map (reportOf order)) = (.ok (), risk')) :
    ModelEngine.recordFills order.orderId fills (engine.holding risk) = some (engine.holding risk') := by
  induction fills generalizing risk with
  | nil =>
      cases h
      rfl
  | cons fill fills ih =>
      simp only [List.map_cons, RiskEngineState.recordFills, reportOf] at h
      cases hmaker : risk.recordFill fill.makerOrderId fill.quantity with
      | mk first risk₁ =>
          rw [hmaker] at h
          cases first with
          | error reason => cases h
          | ok =>
              cases htaker : risk₁.recordFill order.orderId fill.quantity with
              | mk second risk₂ =>
                  simp only [htaker] at h
                  cases second with
                  | error reason => cases h
                  | ok =>
                      have hrest := ih h
                      simp only [ModelEngine.recordFills, ModelEngine.recordFill_holding hmaker,
                        ModelEngine.recordFill_holding htaker, Option.bind_eq_bind, Option.bind_some, hrest]

variable (L O book) in
/-- The fills of an accepted order, and the release of a remainder that does
not rest. -/
theorem settleSubmitted_reference {summary : MatchSummary} {outcome : GatewayOutcome} {reports : List ExecutionReport}
    (h : gateway.settleSubmitted order summary (fills.map (reportOf order)) = (⟨.ok outcome, reports⟩, gateway')) :
    ∃ engine, ModelEngine.recordFills order.orderId fills (gateway.reference L O book) = some engine ∧
      (if summary.restingQuantity.val = 0 ∧ summary.filledQuantity.val < order.quantity.val then
        engine.release order.orderId else some engine) = some (gateway'.reference L O book) ∧
      gateway'.book = gateway.book := by
  unfold LogicalGateway.settleSubmitted at h
  cases hrecord : gateway.risk.recordFills (fills.map (reportOf order)) with
  | mk result booked =>
      rw [hrecord] at h
      cases result with
      | error reason => cases h
      | ok =>
          refine ⟨_, recordFills_holding (gateway.reference L O book) hrecord, ?_⟩
          simp only at h
          by_cases hreleases : summary.restingQuantity.val = 0 ∧ summary.filledQuantity.val < order.quantity.val
          · rw [if_pos hreleases] at h ⊢
            cases hsettle : booked.settle order.orderId 0 with
            | mk result released =>
                rw [hsettle] at h
                cases result with
                | error reason => cases h
                | ok =>
                    cases h
                    exact ⟨ModelEngine.release_holding _ hsettle, rfl⟩
          · rw [if_neg hreleases] at h ⊢
            cases h
            exact ⟨rfl, rfl⟩

/-! ### What the reference engine does with a command -/

namespace ModelEngine

variable {account : ModelAccount} {engine₁ engine₂ : ModelEngine} {book' : ModelBook} {capacity : Nat}

/-- The engine after a command of the expected sequence number was taken up. -/
def advanced (engine : ModelEngine) : ModelEngine := { engine with nextSequence := engine.nextSequence + 1 }

/-- The engine after an order of an unused id was taken up. -/
def received (engine : ModelEngine) (order : NewOrder) : ModelEngine :=
  { engine.advanced with maximumReceivedOrderId := some order.orderId }

section New

variable (hsequence : order.sequence = engine.nextSequence)
include hsequence

/-- The reference refuses an id that is not above every id it has received,
before it looks at anything else. -/
theorem applyNew_duplicate
    (hused : (engine.maximumReceivedOrderId.any fun maximum => decide (order.orderId.val ≤ maximum.val)) = true) :
    engine.applyNew order capacity = some (.error (.risk .duplicateOrderId), engine.advanced) := by
  unfold applyNew
  rw [if_neg (not_not.mpr hsequence)]
  exact if_pos hused

variable (hunused : ¬(engine.maximumReceivedOrderId.any fun maximum => decide (order.orderId.val ≤ maximum.val)) = true)
include hunused

/-- An order for an account the reference does not know counts as received all
the same. -/
theorem applyNew_unknownAccount (haccount : engine.accounts order.accountId = none) :
    engine.applyNew order capacity = some (.error (.risk .unknownAccount), engine.received order) := by
  unfold applyNew
  rw [if_neg (not_not.mpr hsequence)]
  refine (if_neg hunused).trans ?_
  simp only [haccount]
  rfl

variable (haccount : engine.accounts order.accountId = some account)
include haccount

/-- An order beyond a limit of its account is received and refused for the
reason of the limit. -/
theorem applyNew_limit {reason : RejectReason} (hlimits : account.evaluateLimits order = .error reason) :
    engine.applyNew order capacity = some (.error (.risk reason), engine.received order) := by
  unfold applyNew
  rw [if_neg (not_not.mpr hsequence)]
  refine (if_neg hunused).trans ?_
  simp only [haccount, hlimits]
  rfl

variable (hlimits : account.evaluateLimits order = .ok ()) (hinstrument : order.instrumentId = engine.instrument)
include hlimits hinstrument

/-- When the book refuses, the reference gives back the reservation it had
made. -/
theorem applyNew_refused {reason : RejectReason}
    (hsubmit : engine.book.submit order capacity engine.levelCap engine.orderCap = some (.error reason, book'))
    (hrelease : { (engine.received order).reserve order account with book := book' }.release order.orderId
      = some engine₁) :
    engine.applyNew order capacity = some (.error (.book reason), engine₁) := by
  unfold applyNew
  rw [if_neg (not_not.mpr hsequence)]
  refine (if_neg hunused).trans ?_
  simp only [haccount, hlimits]
  refine (if_neg (not_not.mpr hinstrument)).trans ?_
  refine Option.bind_eq_some_iff.mpr ⟨_, hsubmit, ?_⟩
  exact Option.bind_eq_some_iff.mpr ⟨_, hrelease, rfl⟩

/-- When the book accepts, the reference books the fills and keeps the
reservation of the rest. -/
theorem applyNew_accepted {summary : ModelSummary}
    (hsubmit : engine.book.submit order capacity engine.levelCap engine.orderCap = some (.ok summary, book'))
    (hfills : recordFills order.orderId summary.fills { (engine.received order).reserve order account with book := book' }
      = some engine₁)
    (hsettle : (if summary.resting.val = 0 ∧ summary.filled.val < order.quantity.val then
      engine₁.release order.orderId else some engine₁) = some engine₂) :
    engine.applyNew order capacity
      = some (.ok ⟨summary.filled, summary.resting, summary.discarded, summary.fills⟩, engine₂) := by
  unfold applyNew
  rw [if_neg (not_not.mpr hsequence)]
  refine (if_neg hunused).trans ?_
  simp only [haccount, hlimits]
  refine (if_neg (not_not.mpr hinstrument)).trans ?_
  refine Option.bind_eq_some_iff.mpr ⟨_, hsubmit, ?_⟩
  refine Option.bind_eq_some_iff.mpr ⟨_, hfills, ?_⟩
  by_cases hreleases : summary.resting.val = 0 ∧ summary.filled.val < order.quantity.val
  · rw [if_pos hreleases] at hsettle ⊢
    exact Option.bind_eq_some_iff.mpr ⟨_, hsettle, rfl⟩
  · rw [if_neg hreleases] at hsettle ⊢
    cases hsettle
    rfl

end New

section Cancel

variable {request : CancelOrder} {reservation : ModelReservation} (hsequence : request.sequence = engine.nextSequence)
  (hinstrument : request.instrumentId = engine.instrument)
include hsequence hinstrument

/-- A cancel of an id without a reservation is refused before the book is
asked. -/
theorem applyCancel_unknown (hfind : engine.reservations request.orderId = none) :
    engine.applyCancel request = some (.error (.risk .unknownOrder), engine.advanced) := by
  unfold applyCancel
  rw [if_neg (not_not.mpr hsequence)]
  refine (if_neg (not_not.mpr hinstrument)).trans ?_
  simp only [hfind]
  rfl

variable (hfind : engine.reservations request.orderId = some reservation)
include hfind

/-- A cancel of an order of another account is refused before the book is
asked. -/
theorem applyCancel_foreign (howner : reservation.accountId ≠ request.accountId) :
    engine.applyCancel request = some (.error (.risk .notOrderOwner), engine.advanced) := by
  unfold applyCancel
  rw [if_neg (not_not.mpr hsequence)]
  refine (if_neg (not_not.mpr hinstrument)).trans ?_
  simp only [hfind]
  exact if_pos howner

variable (howner : reservation.accountId = request.accountId)
include howner

/-- A cancel that the book refuses touches no reservation. -/
theorem applyCancel_refused {reason : RejectReason} (hcancel : engine.book.cancel request = (.error reason, book')) :
    engine.applyCancel request = some (.error (.book reason), { engine.advanced with book := book' }) := by
  unfold applyCancel
  rw [if_neg (not_not.mpr hsequence)]
  refine (if_neg (not_not.mpr hinstrument)).trans ?_
  simp only [hfind, hcancel]
  exact if_neg (not_not.mpr howner)

/-- A cancel that the book accepts releases the reservation. -/
theorem applyCancel_accepted {cancelled : U64 × U32 × U64}
    (hcancel : engine.book.cancel request = (.ok cancelled, book'))
    (hrelease : { engine.advanced with book := book' }.release request.orderId = some engine₁) :
    engine.applyCancel request
      = some (.ok ⟨request.orderId, request.accountId, cancelled.2.2⟩, engine₁) := by
  unfold applyCancel
  rw [if_neg (not_not.mpr hsequence)]
  refine (if_neg (not_not.mpr hinstrument)).trans ?_
  simp only [hfind, hcancel]
  refine (if_neg (not_not.mpr howner)).trans ?_
  exact Option.bind_eq_some_iff.mpr ⟨_, hrelease, rfl⟩

end Cancel

section Replace

variable {request : ReplaceOrder} {reservation : ModelReservation} (hsequence : request.sequence = engine.nextSequence)
include hsequence

/-- An amend of an id without a reservation is refused before the book is
asked. -/
theorem applyReplace_unknown (hfind : engine.reservations request.orderId = none) :
    engine.applyReplace request = some (.error (.risk .unknownOrder), engine.advanced) := by
  unfold applyReplace
  rw [if_neg (not_not.mpr hsequence)]
  simp only [hfind]
  rfl

variable (hfind : engine.reservations request.orderId = some reservation)
include hfind

/-- An amend of an order of another account is refused before the book is
asked, and before anything is adjusted. -/
theorem applyReplace_foreign (howner : reservation.accountId ≠ request.accountId) :
    engine.applyReplace request = some (.error (.risk .notOrderOwner), engine.advanced) := by
  unfold applyReplace
  rw [if_neg (not_not.mpr hsequence)]
  simp only [hfind]
  exact if_pos howner

variable (howner : reservation.accountId = request.accountId) {amounts : U64 × U64}
include howner

variable (hadjust : engine.advanced.adjustReservation request = some (.ok amounts, engine₁))
  (hinstrument : request.instrumentId = engine₁.instrument)
include hadjust hinstrument

/-- An amend that the book refuses puts the reservation back to its former
amount. -/
theorem applyReplace_refused {reason : RejectReason}
    (hreplace : engine₁.book.replace request engine₁.levelCap engine₁.orderCap = some (.error reason, book'))
    (hrestore : { engine₁ with book := book' }.restoreReservation request.orderId amounts.2 = some engine₂) :
    engine.applyReplace request = some (.error (.book reason), engine₂) := by
  unfold applyReplace
  rw [if_neg (not_not.mpr hsequence)]
  simp only [hfind]
  refine (if_neg (not_not.mpr howner)).trans ?_
  rw [show ({ engine with nextSequence := engine.nextSequence + 1 } : ModelEngine) = engine.advanced from rfl, hadjust]
  refine (if_neg (not_not.mpr hinstrument)).trans ?_
  refine Option.bind_eq_some_iff.mpr ⟨_, hreplace, ?_⟩
  exact Option.bind_eq_some_iff.mpr ⟨_, hrestore, rfl⟩

/-- An amend that the book accepts leaves the reservation at the new amount. -/
theorem applyReplace_accepted {replaced : U64 × Bool}
    (hreplace : engine₁.book.replace request engine₁.levelCap engine₁.orderCap = some (.ok replaced, book')) :
    engine.applyReplace request = some (.ok ⟨request.orderId, request.accountId, replaced.1, request.quantity,
      request.price, replaced.2⟩, { engine₁ with book := book' }) := by
  unfold applyReplace
  rw [if_neg (not_not.mpr hsequence)]
  simp only [hfind]
  refine (if_neg (not_not.mpr howner)).trans ?_
  rw [show ({ engine with nextSequence := engine.nextSequence + 1 } : ModelEngine) = engine.advanced from rfl, hadjust]
  refine (if_neg (not_not.mpr hinstrument)).trans ?_
  exact Option.bind_eq_some_iff.mpr ⟨_, hreplace, rfl⟩

end Replace

end ModelEngine

/-! ### Handlers -/

/-- The reference engine gives the verdict of the gateway and holds the same
content afterwards. -/
def AnswersAlike (L O : Nat) (result : Option (Verdict × ModelEngine)) (answer : GatewayAnswer)
    (gateway' : LogicalGateway) : Prop :=
  ∃ book', result = some (answer.verdict, gateway'.reference L O book') ∧ Mirrors book' gateway'.book

/-- Reporting a fill loses nothing of what the reference records. -/
theorem map_fillOf_reportOf (fills : List ModelFill) : (fills.map (reportOf order)).map fillOf = fills := by
  rw [List.map_map]
  exact List.map_id' fills

section Reserving

variable (hkilled : risk.killed = false) (hquantity : order.quantity.val ≠ 0)
  (hnew : ∀ maximum ∈ risk.maximumOrderId, maximum.val < order.orderId.val) (hroom : risk.reservations.length < R)
include hkilled hquantity hnew hroom

/-- The risk engine refuses an order for an account it does not hold. -/
theorem checkAndReserve_unknownAccount (haccount : risk.account order.accountId = none) :
    risk.checkAndReserve R order = (.error .unknownAccount, risk) := by
  unfold RiskEngineState.checkAndReserve
  rw [if_neg (by simp [hkilled]), if_neg hquantity, if_neg (not_any_le_iff.mpr hnew), if_neg (by omega), haccount]

variable {account : AccountState} (haccount : risk.account order.accountId = some account)
include haccount

/-- The risk engine refuses an order beyond a limit of its account and keeps
its state. -/
theorem checkAndReserve_limit {reason : RejectReason} (hlimits : evaluateLimits account order = .error reason) :
    risk.checkAndReserve R order = (.error reason, risk) := by
  unfold RiskEngineState.checkAndReserve
  rw [if_neg (by simp [hkilled]), if_neg hquantity, if_neg (not_any_le_iff.mpr hnew), if_neg (by omega), haccount]
  simp only [hlimits]

/-- With room for a reservation an order within the limits of its account is
reserved. -/
theorem checkAndReserve_reserved {buys sells : U128} {openOrders : U32}
    (hlimits : evaluateLimits account order = .ok (buys, sells, openOrders))
    (hfits : FitsReservations R fun id => id = order.orderId ∨ (risk.reservation id).isSome) :
    risk.checkAndReserve R order = (.ok (), (risk.setAccount { account with
      reservedBuys := buys
      reservedSells := sells
      openOrders := openOrders }).reserve ⟨order.orderId, order.accountId, order.side, order.quantity⟩) := by
  unfold RiskEngineState.checkAndReserve
  rw [if_neg (by simp [hkilled]), if_neg hquantity, if_neg (not_any_le_iff.mpr hnew), if_neg (by omega), haccount]
  simp only [hlimits, if_pos hfits]

end Reserving

/-- A cancelled reservation is a settled one. -/
theorem settle_of_cancelReservation {orderId : OrderId} {accountId : AccountId} {released : Quantity}
    (h : risk.cancelReservation orderId accountId = (.ok released, risk')) :
    risk.settle orderId 0 = (.ok (), risk') := by
  unfold RiskEngineState.cancelReservation at h
  unfold RiskEngineState.settle
  cases hfind : risk.reservation orderId with
  | none =>
      simp only [hfind] at h
      cases h
  | some reservation =>
      simp only [hfind] at h ⊢
      rw [if_neg (by simp)]
      by_cases howner : reservation.accountId = accountId
      · rw [if_neg (not_not.mpr howner)] at h
        cases hsettle : risk.settleReservation reservation 0 with
        | mk result settled =>
            rw [hsettle] at h
            cases result with
            | error reason => cases h
            | ok =>
                cases h
                rfl
      · rw [if_pos howner] at h
        cases h

section Handlers

variable (sound : gateway.Sound) (wf : gateway.book.WellFormed) (mirrors : Mirrors book gateway.book)
include sound wf mirrors

/-- An order that was reserved: the book refuses it and the reservation goes,
or its fills are booked. -/
theorem applyNew_reserved_follows (hwatermark : gateway.risk.Watermarked)
    (hinstrument : order.instrumentId = gateway.book.instrument) (hquantity : order.quantity.val ≠ 0)
    (hindex : ∀ ids : OrderId → Prop, (∀ id, ids id → id = order.orderId ∨ gateway.book.Holds id) →
      FitsIndex L O ids)
    (hsequence : order.sequence = gateway.expectedSequence)
    (hunused : ¬(gateway.maximumReceivedOrderId.any fun maximum => decide (order.orderId.val ≤ maximum.val)) = true)
    (hnew : ∀ maximum ∈ gateway.risk.maximumOrderId, maximum.val < order.orderId.val)
    {account : AccountState} {reserved : RiskEngineState}
    (haccount : gateway.risk.account order.accountId = some account)
    (hevaluated : (ModelAccount.of account).evaluateLimits order = .ok ())
    (hchecked : gateway.risk.checkAndReserve R order = (.ok (), reserved))
    (hreserve : ∀ engine : ModelEngine, (engine.holding gateway.risk).reserve order (.of account) = engine.holding reserved)
    (h : LogicalGateway.submitReserved L O N
        ⟨reserved, gateway.book, gateway.expectedSequence + 1, some order.orderId⟩ order = some (answer, gateway')) :
    AnswersAlike L O ((gateway.reference L O book).apply N (.newOrder order)) answer gateway' := by
  have hknown : (gateway.reference L O book).accounts order.accountId = some (.of account) := by
    simp [LogicalGateway.reference, haccount]
  obtain ⟨result, after, book', hsubmit, hmodel, hmirrors⟩ := model_submit_eq wf mirrors order hinstrument hindex N
  have hheld := hreserve { (gateway.reference L O book).received order with book := book' }
  simp only [LogicalGateway.submitReserved, hsubmit] at h
  cases result with
  | error reason =>
      have hsettle := settle_refused sound.risk hwatermark hnew hchecked
      have hrelease := ModelEngine.release_holding
        { (gateway.reference L O book).received order with book := book' } hsettle
      rw [← hheld] at hrelease
      simp only [hsettle] at h
      cases h
      obtain rfl := submit_refused hsubmit
      refine ⟨book', ?_, hmirrors⟩
      rw [ModelEngine.apply, ModelEngine.applyNew_refused hsequence hunused hknown hevaluated hinstrument hmodel
        hrelease]
      rfl
  | ok matched =>
      obtain ⟨summary, fills⟩ := matched
      obtain ⟨resting, discarded, hsubmitted⟩ := submit_effect wf hsubmit
      rcases checkAndReserve_exchange sound.risk R order hwatermark with
        ⟨reason, herror⟩ | ⟨reserved', _, hok, hexchange, _⟩
      · cases hchecked.symm.trans herror
      obtain rfl : reserved = reserved' := (Prod.mk.injEq .. ▸ hchecked.symm.trans hok).2
      have hledger := hexchange.reservations _ sound.ledger
      rw [show [⟨order.orderId, order.accountId, order.side, order.quantity⟩] = takerClaims order order.quantity from
        (if_neg hquantity).symm] at hledger
      obtain ⟨risk', hsettled, _⟩ := settleSubmitted_booked
        ⟨reserved, after, gateway.expectedSequence + 1, some order.orderId⟩
        hexchange.consistent wf sound.book hsubmitted hledger
      simp only [hsettled] at h
      cases h
      obtain ⟨filled, hfills, hreleased, _⟩ := settleSubmitted_reference L O book' hsettled
      have hcontent : LogicalGateway.reference L O
            ⟨reserved, after, gateway.expectedSequence + 1, some order.orderId⟩ book'
          = { (gateway.reference L O book).received order with book := book' }.holding reserved := by
        unfold LogicalGateway.reference
        rw [hsubmitted.instrument_eq]
        rfl
      rw [hcontent, ← hheld] at hfills
      refine ⟨book', ?_, hmirrors⟩
      rw [ModelEngine.apply, ModelEngine.applyNew_accepted hsequence hunused hknown hevaluated hinstrument hmodel
        hfills hreleased]
      simp only [Option.map_some, verdictOf, GatewayAnswer.verdict, map_fillOf_reportOf]
      rfl

/-- A new order has the same verdict in the gateway and in the reference, and
leaves both holding the same accounts and reservations. The premises are what a
permitted run gives before each order. -/
theorem applyNew_follows (hwatermark : gateway.risk.Watermarked) (hkilled : gateway.risk.killed = false)
    (hvalid : (Command.newOrder order).WellFormed gateway.book.instrument)
    (hroom : gateway.risk.reservations.length < R)
    (hfits : FitsReservations R fun id => id = order.orderId ∨ (gateway.risk.reservation id).isSome)
    (hindex : ∀ ids : OrderId → Prop, (∀ id, ids id → id = order.orderId ∨ gateway.book.Holds id) →
      FitsIndex L O ids)
    (hsequence : order.sequence = gateway.expectedSequence) (hnext : gateway.expectedSequence + 1 = next)
    (h : ({ gateway with expectedSequence := next } : LogicalGateway).processNewOrder R L O N order
      = some (answer, gateway')) :
    AnswersAlike L O ((gateway.reference L O book).apply N (.newOrder order)) answer gateway' := by
  obtain ⟨hinstrument, hprice, hquantity⟩ := hvalid
  unfold LogicalGateway.processNewOrder at h
  split at h
  · rename_i hduplicate
    cases h
    refine ⟨book, ?_, mirrors⟩
    rw [ModelEngine.apply, ModelEngine.applyNew_duplicate hsequence hduplicate]
    subst hnext
    rfl
  rename_i hunused
  have hreceived := not_any_le_iff.mp hunused
  have hnew : ∀ maximum ∈ gateway.risk.maximumOrderId, maximum.val < order.orderId.val := by
    intro maximum hmaximum
    obtain ⟨received, hmem, hle⟩ := sound.marks maximum hmaximum
    exact hle.trans_lt (hreceived received hmem)
  have hunreserved : gateway.risk.reservation order.orderId = none := by
    have habsent := not_reserved_of_mark hwatermark (not_any_le_iff.mpr hnew)
    cases hfind : gateway.risk.reservation order.orderId with
    | none => rfl
    | some found =>
        obtain ⟨hmem, hid⟩ := reservation_eq_some hfind
        exact absurd (List.mem_map.mpr ⟨found, hmem, hid⟩) habsent
  have hpositive : order.quantity.val ≠ 0 := by omega
  cases haccount : gateway.risk.account order.accountId with
  | none =>
      simp only [checkAndReserve_unknownAccount hkilled hpositive hnew hroom haccount] at h
      cases h
      have hunknown : (gateway.reference L O book).accounts order.accountId = none := by
        simp [LogicalGateway.reference, haccount]
      refine ⟨book, ?_, mirrors⟩
      rw [ModelEngine.apply, ModelEngine.applyNew_unknownAccount hsequence hunused hunknown]
      subst hnext
      rfl
  | some account =>
      cases hlimits : evaluateLimits account order with
      | error reason =>
          have hevaluated := evaluateLimits_of account order
          rw [hlimits] at hevaluated
          have hknown : (gateway.reference L O book).accounts order.accountId = some (.of account) := by
            simp [LogicalGateway.reference, haccount]
          simp only [checkAndReserve_limit hkilled hpositive hnew hroom haccount hlimits] at h
          cases h
          refine ⟨book, ?_, mirrors⟩
          rw [ModelEngine.apply, ModelEngine.applyNew_limit hsequence hunused hknown hevaluated]
          subst hnext
          rfl
      | ok totals =>
          obtain ⟨buys, sells, openOrders⟩ := totals
          have hevaluated := evaluateLimits_of account order
          rw [hlimits] at hevaluated
          have hchecked := checkAndReserve_reserved hkilled hpositive hnew hroom haccount hlimits hfits
          simp only [hchecked] at h
          subst hnext
          exact applyNew_reserved_follows sound wf mirrors hwatermark hinstrument hpositive hindex hsequence
            hunused hnew haccount hevaluated hchecked
            (fun engine => ModelEngine.reserve_holding haccount hunreserved hlimits) h

/-- A cancel has the same verdict in both and leaves both holding the same. -/
theorem applyCancel_follows {request : CancelOrder}
    (hvalid : (Command.cancelOrder request).WellFormed gateway.book.instrument)
    (hsequence : request.sequence = gateway.expectedSequence) (hnext : gateway.expectedSequence + 1 = next)
    (h : ({ gateway with expectedSequence := next } : LogicalGateway).processCancel request = (answer, gateway')) :
    AnswersAlike L O ((gateway.reference L O book).apply N (.cancelOrder request)) answer gateway' := by
  have hinstrument : request.instrumentId = gateway.book.instrument := hvalid
  obtain ⟨hresult, hmirrors⟩ := model_cancel_eq wf mirrors request hinstrument
  subst hnext
  unfold LogicalGateway.processCancel RiskEngineState.canCancel at h
  cases hfind : gateway.risk.reservation request.orderId with
  | none =>
      simp only [hfind] at h
      cases h
      have hunknown : (gateway.reference L O book).reservations request.orderId = none := by
        simp [LogicalGateway.reference, hfind]
      refine ⟨book, ?_, mirrors⟩
      rw [ModelEngine.apply, ModelEngine.applyCancel_unknown hsequence hinstrument hunknown]
      rfl
  | some reservation =>
      have hknown : (gateway.reference L O book).reservations request.orderId = some (.of reservation) := by
        simp [LogicalGateway.reference, hfind]
      by_cases howner : reservation.accountId = request.accountId
      · simp only [hfind, howner, ne_eq, not_true_eq_false, if_false] at h
        cases hmodel : book.cancel request with
        | mk found book' =>
        cases hcancel : gateway.book.cancel request with
        | mk outcome after =>
            rw [hmodel, hcancel] at hresult hmirrors
            rw [hcancel] at h
            cases outcome with
            | error reason =>
                obtain rfl : found = .error reason := hresult
                cases h
                obtain rfl := cancel_refused hcancel
                refine ⟨book', ?_, hmirrors⟩
                rw [ModelEngine.apply, ModelEngine.applyCancel_refused hsequence hinstrument hknown howner hmodel]
                rfl
            | ok cancelled =>
                obtain rfl : found = .ok (cancelled.orderId, cancelled.accountId, cancelled.quantity) := hresult
                obtain ⟨side, price, resting, hfound, haccount, rfl, _, hsame⟩ := cancel_effect wf hcancel
                obtain ⟨hentry, hid⟩ := mem_of_find hfound
                obtain rfl : reservation = claimOf (side, price, resting) := by
                  have hclaim := sound.reservation_of_mem hentry
                  rw [hid, hfind] at hclaim
                  exact Option.some.inj hclaim
                obtain ⟨risk', hcancelled, _⟩ := cancelReservation_exchange sound.risk hfind
                rw [howner] at hcancelled
                have hrelease := ModelEngine.release_holding
                  { (gateway.reference L O book).advanced with book := book' }
                  (settle_of_cancelReservation hcancelled)
                simp only [hcancelled, claimOf, not_true_eq_false, if_false] at h
                cases h
                refine ⟨book', ?_, hmirrors⟩
                rw [ModelEngine.apply, ModelEngine.applyCancel_accepted hsequence hinstrument hknown howner hmodel
                  hrelease]
                simp only [Option.map_some, verdictOf, GatewayAnswer.verdict, haccount,
                  show resting.id = request.orderId from hid]
                refine congrArg some (congrArg₂ Prod.mk rfl ?_)
                unfold LogicalGateway.reference
                rw [hsame]
                rfl
      · simp only [hfind, howner, ne_eq, not_false_eq_true, if_true] at h
        cases h
        refine ⟨book, ?_, mirrors⟩
        rw [ModelEngine.apply, ModelEngine.applyCancel_foreign hsequence hinstrument hknown howner]
        rfl

/-- Amends follow too, as long as the limits do not refuse an owner's
increase. -/
theorem applyReplace_follows {request : ReplaceOrder}
    (hvalid : (Command.replaceOrder request).WellFormed gateway.book.instrument)
    (hadjusts : ∀ reservation, gateway.risk.reservation request.orderId = some reservation →
      reservation.accountId = request.accountId → ∀ reason, gateway.risk.adjustReservation request.orderId
        request.accountId request.price request.quantity ≠ (.error reason, gateway.risk))
    (hsequence : request.sequence = gateway.expectedSequence) (hnext : gateway.expectedSequence + 1 = next)
    (h : ({ gateway with expectedSequence := next } : LogicalGateway).processReplace L O request = (answer, gateway')) :
    AnswersAlike L O ((gateway.reference L O book).apply N (.replaceOrder request)) answer gateway' := by
  obtain ⟨hinstrument, hprice, hquantity⟩ := hvalid
  subst hnext
  unfold LogicalGateway.processReplace at h
  cases hfind : gateway.risk.reservation request.orderId with
  | none =>
      simp only [RiskEngineState.adjustReservation, hfind] at h
      cases h
      have hunknown : (gateway.reference L O book).reservations request.orderId = none := by
        simp [LogicalGateway.reference, hfind]
      refine ⟨book, ?_, mirrors⟩
      rw [ModelEngine.apply, ModelEngine.applyReplace_unknown hsequence hunknown]
      rfl
  | some reservation =>
      have hknown : (gateway.reference L O book).reservations request.orderId = some (.of reservation) := by
        simp [LogicalGateway.reference, hfind]
      by_cases howner : reservation.accountId = request.accountId
      · rcases adjustReservation_exchange sound.risk request.orderId request.accountId request.price
          request.quantity with ⟨reason, herror⟩ | ⟨found, released, adjusted, hfound, _, hadjust, hexchange, hrestore⟩
        · exact absurd herror (hadjusts reservation hfind howner reason)
        obtain ⟨book', hmodel, hmirrors⟩ := model_replace_eq wf mirrors request hinstrument hprice hquantity
        have hadjusted := ModelEngine.adjustReservation_holding
          (gateway.reference L O book).advanced hadjust
        simp only [hadjust] at h
        cases hreplace : gateway.book.replace L O request with
        | mk outcome after =>
            rw [hreplace] at hmodel hmirrors
            simp only [hreplace] at h
            cases outcome with
            | error reason =>
                simp only [hrestore] at h
                cases h
                obtain rfl := replace_refused hreplace
                have hrestored := ModelEngine.restoreReservation_holding
                  { (gateway.reference L O book).advanced with book := book' }
                  hexchange.consistent sound.risk hrestore
                refine ⟨book', ?_, hmirrors⟩
                rw [ModelEngine.apply, ModelEngine.applyReplace_refused hsequence hknown howner hadjusted hinstrument
                  hmodel hrestored]
                rfl
            | ok replaced =>
                cases h
                obtain ⟨side, price, old, sequence, hamended⟩ := replace_effect wf hreplace
                obtain ⟨lost, rfl⟩ := hamended.replaced_eq
                refine ⟨book', ?_, hmirrors⟩
                rw [ModelEngine.apply, ModelEngine.applyReplace_accepted hsequence hknown howner hadjusted hinstrument
                  hmodel]
                simp only [Option.map_some, verdictOf, GatewayAnswer.verdict]
                refine congrArg some (congrArg₂ Prod.mk rfl ?_)
                unfold LogicalGateway.reference
                rw [hamended.instrument_eq]
                rfl
      · simp only [RiskEngineState.adjustReservation, hfind, ne_eq, howner, not_false_eq_true, if_true] at h
        cases h
        refine ⟨book, ?_, mirrors⟩
        rw [ModelEngine.apply, ModelEngine.applyReplace_foreign hsequence hknown howner]
        rfl

end Handlers

/-! ### Increases -/

/-- The notional of a positive price. -/
theorem notionalOf_of_pos {price : PriceTicks} (hprice : 0 < price.val) (quantity : Quantity) :
    ∃ notional, notionalOf price quantity = .ok notional ∧ (notional.val : Int) = price.val * quantity.val := by
  have hupper := price.upper
  have habsolute : |price.val| = price.val := abs_of_pos hprice
  obtain ⟨word, hword⟩ : ∃ word : U64, price.val = word.val :=
    ⟨⟨price.val.toNat, by norm_num at hupper; omega⟩, by simp only; omega⟩
  have hbound : word.val * quantity.val < 2 ^ 128 := by
    calc word.val * quantity.val < 2 ^ 64 * 2 ^ 64 := Nat.mul_lt_mul'' word.isLt quantity.isLt
      _ ≤ 2 ^ 128 := by norm_num
  refine ⟨⟨word.val * quantity.val, hbound⟩, ?_, ?_⟩
  · simp only [notionalOf, bind_eq_ok, orOverflow_eq_ok, checkedAbs, signedOf_eq_some, unsignedOf_eq_some,
      checkedMul_eq_some, u128OfU64_val]
    exact ⟨price, habsolute.symm, word, hword, rfl⟩
  · rw [hword]
    push_cast
    rfl

/-- Totals that stay below the 128-bit limit can be raised. -/
theorem addReserved_of_lt (account : AccountState) (side : Side) {quantity : Quantity}
    (h : (account.reserved side).val + quantity.val < 2 ^ 128) :
    ∃ buys sells, addReserved account side quantity = .ok (buys, sells) := by
  cases side with
  | buy =>
      refine ⟨⟨(account.reserved .buy).val + quantity.val, h⟩, account.reservedSells, ?_⟩
      exact addReserved_ok_iff.mpr (forall_side.mpr ⟨by simp [reservedOn], by simp [reservedOn, AccountState.reserved]⟩)
  | sell =>
      refine ⟨account.reservedBuys, ⟨(account.reserved .sell).val + quantity.val, h⟩, ?_⟩
      exact addReserved_ok_iff.mpr (forall_side.mpr ⟨by simp [reservedOn, AccountState.reserved], by simp [reservedOn]⟩)

/-- Worst cases within the position limit are accepted. -/
theorem checkPosition_of_within {account : AccountState} {buys sells : U128}
    (h : ∀ side : Side, side.sign * account.settledPosition.val + (reservedOn buys sells side).val
      ≤ account.limits.maxAbsPosition.val) : checkPosition account buys sells = .ok () := by
  have hlong := h .buy
  have hshort := h .sell
  simp only [Side.sign, reservedOn] at hlong hshort
  have hlimit := account.limits.maxAbsPosition.isLt
  obtain ⟨long, hbuys, hlongVal⟩ := signedOf_isSome (2 ^ 127) buys.val (by norm_num) (by norm_num; omega)
  obtain ⟨worstLong, hworstLong, hworstLongVal⟩ := signedOf_isSome (2 ^ 127) (account.settledPosition.val + long.val)
    (by norm_num; omega) (by norm_num; omega)
  obtain ⟨short, hsells, hshortVal⟩ := signedOf_isSome (2 ^ 127) sells.val (by norm_num) (by norm_num; omega)
  obtain ⟨worstShort, hworstShort, hworstShortVal⟩ := signedOf_isSome (2 ^ 127)
    (account.settledPosition.val - short.val) (by norm_num; omega) (by norm_num; omega)
  simp only [checkPosition, bind_eq_ok, orOverflow_eq_ok]
  refine ⟨long, hbuys, worstLong, hworstLong, short, hsells, worstShort, hworstShort, ?_⟩
  rw [if_neg]
  omega

/-- An affordable increase of a balanced account's reservation is granted. -/
theorem amendedTotals_of_affordable {account : AccountState} {reservations : List ReservationRiskState} {side : Side}
    {current : Quantity} {price : PriceTicks} {quantity : Quantity} (hbalanced : Balanced account reservations)
    (hprice : 0 < price.val) (hgrows : current.val < quantity.val)
    (h : Affordable account side current price quantity) :
    ∃ totals, RiskEngine.amendedTotals account side current price quantity = .ok totals := by
  obtain ⟨notional, hnotional, hvalue⟩ := notionalOf_of_pos hprice quantity
  have hreserved := hbalanced.reserved_lt side
  have hquantity := quantity.isLt
  have hroom : (account.reserved side).val + (satSub quantity current).val < 2 ^ 128 := by
    rw [satSub_val]
    norm_num
    omega
  obtain ⟨buys, sells, hadd⟩ := addReserved_of_lt account side hroom
  have hposition : checkPosition account buys sells = .ok () := by
    refine checkPosition_of_within fun other => ?_
    have htotal := addReserved_ok_iff.mp hadd other
    have hother := hbalanced.exposed other
    rw [satSub_val] at htotal
    split at htotal
    · rename_i hsame
      subst hsame
      have hwithin := h.2
      omega
    · omega
  refine ⟨(buys, sells), ?_⟩
  unfold RiskEngine.amendedTotals
  rw [if_pos hgrows]
  simp only [bind_eq_ok]
  refine ⟨(buys, sells), hadd, notional, hnotional, ?_⟩
  have hmost := h.1
  rw [if_neg (by omega), hposition]
  rfl

/-- An owner's amendment that is no unaffordable increase is granted. -/
theorem adjustReservation_granted {orderId : OrderId} {accountId : AccountId} {price : PriceTicks} {quantity : Quantity}
    (hconsistent : risk.Consistent) (hprice : 0 < price.val) {reservation : ReservationRiskState}
    (hfind : risk.reservation orderId = some reservation) (howner : reservation.accountId = accountId)
    (hincrease : reservation.quantity.val < quantity.val → ∀ account, risk.account accountId = some account →
      Affordable account reservation.side reservation.quantity price quantity) (reason : RejectReason) :
    risk.adjustReservation orderId accountId price quantity ≠ (.error reason, risk) := by
  intro herror
  have hmem := (reservation_eq_some hfind).1
  obtain ⟨account, howned, _⟩ := hconsistent.owner hmem
  have haccount : risk.account accountId = some account := howner ▸ howned
  have hbalanced := hconsistent.balanced account (account_eq_some haccount).1
  obtain ⟨totals, htotals⟩ : ∃ totals, RiskEngine.amendedTotals account reservation.side reservation.quantity price
      quantity = .ok totals := by
    by_cases hgrows : reservation.quantity.val < quantity.val
    · exact amendedTotals_of_affordable hbalanced hprice hgrows (hincrease hgrows account haccount)
    · have hcovered := (hconsistent.quantity_le hmem howned).1
      have hless : (satSub reservation.quantity quantity).val ≤ (account.reserved reservation.side).val := by
        rw [satSub_val]
        omega
      obtain ⟨buys, sells, hsub⟩ := subReserved_of_le hless
      exact ⟨(buys, sells), (if_neg hgrows).trans hsub⟩
  unfold RiskEngineState.adjustReservation at herror
  simp only [hfind, howner, ne_eq, not_true_eq_false, if_false, haccount, htotals] at herror
  split at herror
  · cases herror
  · cases herror

/-! ### One call -/

/-- A represented book holds at most a full level for every level. -/
theorem LogicalBook.Bounded.orders_length {book : LogicalBook} (h : book.Bounded L O) :
    book.orders.length ≤ 2 * L * O := by
  have hside : ∀ side : Side, ((book.levels side).map fun level => level.2.length).sum ≤ L * O := by
    intro side
    have hsum := List.sum_le_card_nsmul ((book.levels side).map fun level => level.2.length) O (by
      intro length hlength
      obtain ⟨level, hlevel, rfl⟩ := List.mem_map.mp hlength
      exact h.queues side level hlevel)
    rw [List.length_map, smul_eq_mul] at hsum
    exact hsum.trans (Nat.mul_le_mul_right O (h.levels side))
  have hbids := hside .buy
  have hasks := hside .sell
  simp only [LogicalBook.levels] at hbids hasks
  simp only [LogicalBook.orders, List.length_append, List.length_flatMap, List.length_map]
  rw [Nat.mul_assoc, Nat.two_mul]
  exact Nat.add_le_add hbids hasks

/-- With room for one more, every set of reserved ids and one more can be
indexed. -/
theorem fitsReservations_of_room (hroom : risk.reservations.length < R) (hreservations : 2 * R ≤ 2 ^ 32)
    (id : OrderId) :
    FitsReservations R fun other => other = id ∨ (risk.reservation other).isSome := by
  classical
  let keys : Finset OrderId := insert id (risk.reservations.map ReservationRiskState.orderId).toFinset
  have hcells : R * indexPlanes = 2 * R := Nat.mul_comm R 2
  have hcard : (insert id (risk.reservations.map ReservationRiskState.orderId).toFinset).card ≤ R * indexPlanes := by
    have hinsert := Finset.card_insert_le id (risk.reservations.map ReservationRiskState.orderId).toFinset
    have hids := List.toFinset_card_le (risk.reservations.map ReservationRiskState.orderId)
    rw [List.length_map] at hids
    omega
  have hfits : FitsReservations R (· ∈ keys) := OpenAddressing.fits_of_card (fun key => probeStart_lt key)
    (by rw [hcells]; exact hreservations) keys hcard
  have hsame : (· ∈ keys) = fun other => other = id ∨ (risk.reservation other).isSome := by
    funext other
    simp only [keys, Finset.mem_insert, List.mem_toFinset, List.mem_map, RiskEngineState.reservation,
      List.find?_isSome, decide_eq_true_eq]
  rwa [hsame] at hfits

/-- The view the reference shows of an account is the snapshot of the risk
engine. -/
theorem accountView_eq {account : AccountState} {buys sells long projected : I128} (id : AccountId)
    (haccount : gateway.risk.account id = some account) (hbuys : i128OfU128 account.reservedBuys = some buys)
    (hsells : i128OfU128 account.reservedSells = some sells)
    (hlong : checkedAddSigned account.settledPosition buys = some long)
    (hprojected : checkedSubSigned long sells = some projected) :
    (gateway.reference L O book).accountView id = some (projected, account.openOrders) := by
  have hstored : (gateway.reference L O book).accounts id = some (.of account) := by
    simp [LogicalGateway.reference, haccount]
  unfold ModelEngine.accountView
  refine Option.bind_eq_some_iff.mpr ⟨.of account, hstored, Option.bind_eq_some_iff.mpr ⟨buys, hbuys, ?_⟩⟩
  refine Option.bind_eq_some_iff.mpr ⟨long, hlong, Option.bind_eq_some_iff.mpr ⟨sells, hsells, ?_⟩⟩
  exact Option.bind_eq_some_iff.mpr ⟨projected, hprojected, rfl⟩

variable (L O book) in
/-- The account views of the engine and of the reference engine that holds its
ledger. -/
theorem accountSnapshot_reference {riskEngine : RiskEngine A R} (rep : RiskRep riskEngine gateway.risk)
    (hconsistent : gateway.risk.Consistent) :
    riskEngine.accountSnapshot = (gateway.reference L O book).accountView := by
  funext id
  rcases rep.findAccount_spec id with ⟨slot, account, hfind, hat, hid, hledger⟩ | ⟨hfind, hledger⟩
  · obtain ⟨buys, sells, long, projected, hbuys, hsells, hlong, hprojected⟩ :=
      exists_projected (hconsistent.balanced account (account_eq_some hledger).1)
    rw [accountView_eq id hledger hbuys hsells hlong hprojected]
    unfold RiskEngine.accountSnapshot
    refine Option.bind_eq_some_iff.mpr ⟨slot, accountSlot_of_findAccount hfind, ?_⟩
    refine Option.bind_eq_some_iff.mpr ⟨account, hat, Option.bind_eq_some_iff.mpr ⟨buys, hbuys, ?_⟩⟩
    refine Option.bind_eq_some_iff.mpr ⟨sells, hsells, Option.bind_eq_some_iff.mpr ⟨long, hlong, ?_⟩⟩
    exact Option.bind_eq_some_iff.mpr ⟨projected, hprojected, rfl⟩
  · have hunknown : (gateway.reference L O book).accounts id = none := by
      simp [LogicalGateway.reference, hledger]
    have hview : (gateway.reference L O book).accountView id = none := by
      unfold ModelEngine.accountView
      rw [hunknown]
      rfl
    rw [hview]
    unfold RiskEngine.findAccount at hfind
    unfold RiskEngine.accountSnapshot
    cases hslot : riskEngine.accountSlot id with
    | none => rfl
    | some slot =>
        rw [hslot] at hfind
        simp only at hfind
        split at hfind
        · cases hfind
        · rename_i hvacant
          rw [Option.bind_eq_bind, Option.bind_some, hvacant]
          rfl
        · cases hfind

/-- No call changes the instrument or the kill switch. -/
theorem Moves.kept {command : Option Command} (h : Moves N gateway command answer gateway') :
    gateway'.book.instrument = gateway.book.instrument ∧ gateway'.risk.killed = gateway.risk.killed := by
  cases h with
  | malformed => exact ⟨rfl, rfl⟩
  | unsequenced => exact ⟨rfl, rfl⟩
  | exhausted => exact ⟨rfl, rfl⟩
  | refused => exact ⟨rfl, rfl⟩
  | accepted _ _ haccepted => exact ⟨haccepted.submitted.instrument_eq, haccepted.booked.killed⟩
  | cancelled _ _ hcancelled => exact ⟨hcancelled.instrument_eq, hcancelled.rearranged.booked.killed⟩
  | replaced _ _ hreplaced => exact ⟨hreplaced.amended.instrument_eq, hreplaced.rearranged.booked.killed⟩

/-- An admitted command moves the expected sequence number on. -/
theorem Moves.expected {command : Command} (h : Moves N gateway (some command) answer gateway')
    (hsequence : command.sequence = gateway.expectedSequence) (hlast : command.sequence.val + 1 < 2 ^ 64) :
    gateway'.expectedSequence.val = command.sequence.val + 1 := by
  cases h with
  | unsequenced _ hwrong => exact absurd hsequence hwrong
  | exhausted _ _ hexhausted =>
      rw [hsequence] at hlast
      omega
  | refused _ hnext => exact hsequence ▸ hnext
  | accepted _ hnext _ => exact hsequence ▸ hnext
  | cancelled _ hnext _ => exact hsequence ▸ hnext
  | replaced _ hnext _ => exact hsequence ▸ hnext

/-- A call that carries a command processes it. -/
theorem call_eq_processCommand {call : GatewayCall} {command : Command} (h : call.command? = some command) :
    gateway.call R L O call = gateway.processCommand R L O call.capacity command := by
  cases call with
  | command carried reports =>
      cases h
      rfl
  | frame bytes reports =>
      simp only [GatewayCall.command?] at h
      unfold LogicalGateway.call LogicalGateway.processFrame
      cases hparse : parseMessage bytes with
      | error error =>
          rw [hparse] at h
          cases h
      | ok message =>
          rw [hparse] at h
          cases h
          simp only [hparse]
          rfl

/-- A represented gateway and the reference engine of its content, for one
instrument and the next sequence number. -/
structure Paired (instrument : InstrumentId) (first : Nat) (real : Gateway A R L O) (engine : ModelEngine)
    (gateway : LogicalGateway) (book : ModelBook) : Prop where
  rep : GatewayRep real gateway
  sound : gateway.Sound
  alive : gateway.risk.killed = false
  mirrors : Mirrors book gateway.book
  engine_eq : engine = gateway.reference L O book
  instrument_eq : gateway.book.instrument = instrument
  sequence : gateway.expectedSequence.val = first

section Step

variable {instrument : InstrumentId} {first : Nat} {real : Gateway A R L O} {call : GatewayCall} {command : Command}

/-- The reference engine follows a permitted command of its gateway. -/
theorem processCommand_follows (paired : Paired instrument first real engine gateway book) (hL : 1 ≤ L) (hO : 1 ≤ O)
    (hroom : 2 * L * O + 1 ≤ R) (hindex : 4 * L * O ≤ 2 ^ 32) (hreservations : 2 * R ≤ 2 ^ 32)
    (hfirst : command.sequence.val = first) (hvalid : command.WellFormed instrument) (hpermits : real.Permits command)
    (h : gateway.processCommand R L O N command = some (answer, gateway')) :
    AnswersAlike L O (engine.apply N command) answer gateway' := by
  obtain ⟨rep, sound, alive, mirrors, rfl, rfl, hsequence⟩ := paired
  obtain ⟨hlast, hincrease⟩ := hpermits
  have wf := rep.book.wellFormed
  have hexpected : command.sequence = gateway.expectedSequence := Fin.ext (by omega)
  have hadd : checkedAdd gateway.expectedSequence 1 = some (gateway.expectedSequence + 1) := by
    refine checkedAdd_eq_some.mpr ?_
    rw [Fin.val_add_one_of_lt' (by omega)]
    rfl
  unfold LogicalGateway.processCommand LogicalGateway.nextSequence at h
  rw [if_neg (not_not.mpr hexpected), hadd] at h
  cases command with
  | newOrder order =>
      have hheld : gateway.risk.reservations.length ≤ 2 * L * O := by
        rw [sound.ledger.length_eq, List.length_map]
        exact rep.book.bounded.orders_length
      have hshort : gateway.risk.reservations.length < R := by omega
      exact applyNew_follows sound wf mirrors rep.risk.watermark alive hvalid hshort
        (fitsReservations_of_room hshort hreservations order.orderId)
        (fun ids hids => fitsIndex_of_represents rep.book hL hO hindex ids hids) hexpected rfl h
  | cancelOrder request => exact applyCancel_follows sound wf mirrors hvalid hexpected rfl (Option.some.inj h)
  | replaceOrder request =>
      refine applyReplace_follows sound wf mirrors hvalid ?_ hexpected rfl (Option.some.inj h)
      intro reservation hfind howner
      refine adjustReservation_granted sound.risk hvalid.2.1 hfind howner ?_
      intro hgrows account haccount
      obtain ⟨hmem, hid⟩ := reservation_eq_some hfind
      obtain ⟨hstored, hname⟩ := account_eq_some haccount
      obtain ⟨live, hlive, rfl⟩ := List.mem_map.mp ((liveReservations_perm rep.risk).symm.subset hmem)
      exact hincrease live hlive hid howner hgrows account ((mem_registeredAccounts rep.risk).mpr hstored) hname

/-- One permitted call: the same observation, and both engines are paired for
the next one. -/
theorem step_follows (paired : Paired instrument first real engine gateway book) (hL : 1 ≤ L) (hO : 1 ≤ O)
    (hroom : 2 * L * O + 1 ≤ R) (hindex : 4 * L * O ≤ 2 ^ 32) (hreservations : 2 * R ≤ 2 ^ 32)
    (hcommand : call.command? = some command) (hfirst : command.sequence.val = first)
    (hvalid : command.WellFormed instrument) (hpermits : real.Permits command) :
    ∃ answer observed real' engine' gateway' book', real.call call = some (answer, real') ∧
      gatewayStep real call = some (observed, real') ∧ referenceStep engine call = some (observed, engine') ∧
      Paired instrument (first + 1) real' engine' gateway' book' := by
  obtain ⟨answer, real', hcall, _⟩ := call_total hL hO hindex ⟨gateway, paired.rep⟩ call
  obtain ⟨gateway', hlogical, rep'⟩ := call_logical paired.rep hcall
  have hmoves := moves_of_call paired.sound paired.rep.book.wellFormed paired.rep.risk.watermark hlogical
  rw [call_eq_processCommand hcommand] at hlogical
  rw [hcommand] at hmoves
  obtain ⟨book', happly, hmirrors⟩ := processCommand_follows paired hL hO hroom hindex hreservations hfirst hvalid
    hpermits hlogical
  obtain ⟨hinstrument, hkilled⟩ := hmoves.kept
  have sound' := paired.sound.moves paired.rep.book.wellFormed hmoves
  have hexpected : command.sequence = gateway.expectedSequence := Fin.ext (hfirst.trans paired.sequence.symm)
  have hnext := hmoves.expected hexpected hpermits.1
  have hviews := accountSnapshot_reference L O book' rep'.risk sound'.risk
  refine ⟨answer, ⟨answer.verdict, real'.risk.accountSnapshot⟩, real', gateway'.reference L O book', gateway', book',
    hcall, ?_, ?_, ?_⟩
  · rw [gatewayStep, hcall]
    rfl
  · rw [hviews]
    exact Option.bind_eq_some_iff.mpr ⟨command, hcommand, Option.bind_eq_some_iff.mpr ⟨_, happly, rfl⟩⟩
  · exact ⟨rep', sound', hkilled.trans paired.alive, hmirrors, rfl, hinstrument.trans paired.instrument_eq,
      hnext.trans (congrArg (· + 1) hfirst)⟩

/-- A run of permitted calls: the same observations throughout. -/
theorem run_follows {calls : List GatewayCall} (paired : Paired instrument first real engine gateway book) (hL : 1 ≤ L)
    (hO : 1 ≤ O) (hroom : 2 * L * O + 1 ≤ R) (hindex : 4 * L * O ≤ 2 ^ 32) (hreservations : 2 * R ≤ 2 ^ 32)
    (hsequenced : SequencedCalls instrument first calls) (hpermitted : Permitted real calls) :
    ∃ observed real' engine', run gatewayStep real calls = some (observed, real') ∧
      run referenceStep engine calls = some (observed, engine') := by
  induction calls generalizing first real engine gateway book with
  | nil => exact ⟨[], real, engine, rfl, rfl⟩
  | cons call rest ih =>
      obtain ⟨⟨command, hcommand, hfirst, hvalid⟩, hsequenced⟩ := hsequenced
      obtain ⟨hpermits, hpermitted⟩ := hpermitted
      obtain ⟨answer, observed, real', engine', gateway', book', hcall, hreal, hengine, hpaired⟩ :=
        step_follows paired hL hO hroom hindex hreservations hcommand hfirst hvalid (hpermits command hcommand)
      rw [hcall] at hpermitted
      obtain ⟨more, last, last', hrest, hrest'⟩ := ih hpaired hsequenced hpermitted
      exact ⟨observed :: more, last, last', run_cons.mpr ⟨observed, more, real', hreal, hrest, rfl⟩,
        run_cons.mpr ⟨observed, more, engine', hengine, hrest', rfl⟩⟩

end Step

/-! ### The start -/

section Start

variable {riskEngine riskEngine' : RiskEngine A R} {accounts : List (AccountId × RiskLimits)}

/-- Registering an account in both engines alike. -/
theorem account_register {id : AccountId} {limits : RiskLimits} {stored : List AccountState}
    (hconsistent : ({ risk with accounts := stored } : RiskEngineState).Consistent)
    (hperm : (registeredAccount id limits :: risk.accounts).Perm stored) (hold : risk.Consistent) (other : AccountId) :
    ({ risk with accounts := stored } : RiskEngineState).account other
      = if other = id then some (registeredAccount id limits) else risk.account other := by
  split
  · rename_i hsame
    subst hsame
    exact hconsistent.account_iff.mpr ⟨hperm.subset (by simp), rfl⟩
  · rename_i hne
    ext account
    rw [hconsistent.account_iff, hold.account_iff, ← hperm.mem_iff, List.mem_cons]
    constructor
    · rintro ⟨rfl | hmem, hid⟩
      · exact absurd hid.symm hne
      · exact ⟨hmem, hid⟩
    · rintro ⟨hmem, hid⟩
      exact ⟨.inr hmem, hid⟩

variable (engine) in
/-- Registration leaves both sides with the same accounts and nothing
reserved. -/
theorem registerAll_reference (rep : RiskRep riskEngine risk) (fresh : risk.Fresh) (halive : risk.killed = false)
    (hheld : engine.accounts = fun id => (risk.account id).map .of)
    (hregister : EngineBuilder.registerAll accounts riskEngine = .ok riskEngine') :
    ∃ risk', RiskRep riskEngine' risk' ∧ risk'.Fresh ∧ risk'.killed = false ∧
      ModelEngine.registerAll accounts engine
        = some { engine with accounts := fun id => (risk'.account id).map .of } := by
  induction accounts generalizing riskEngine risk engine with
  | nil =>
      cases hregister
      refine ⟨risk, rep, fresh, halive, ?_⟩
      rw [← hheld]
      rfl
  | cons entry rest ih =>
      obtain ⟨id, limits⟩ := entry
      unfold EngineBuilder.registerAll at hregister
      rcases registerAccount_cases rep id limits with
        ⟨error, hrefused⟩ | ⟨registered, stored, haccepted, hunused, habsent, hperm, rep'⟩
      · rw [hrefused] at hregister
        cases hregister
      rw [haccepted] at hregister
      have fresh' : ({ risk with accounts := stored } : RiskEngineState).Fresh := by
        refine ⟨?_, fresh.reservations, fresh.maximumOrderId⟩
        intro account hmem
        rcases List.mem_cons.mp (hperm.symm.subset hmem) with rfl | hold
        · exact hunused
        · exact fresh.accounts account hold
      have hlookup := account_register (fresh'.consistent rep') hperm (fresh.consistent rep)
      have hmodel : engine.registerAccount id (.of limits)
          = some (engine.setAccount id (.of (registeredAccount id limits))) := by
        unfold ModelEngine.registerAccount
        rw [if_neg (by simp [hheld, habsent])]
        rfl
      have hstored : (engine.setAccount id (.of (registeredAccount id limits))).accounts
          = fun other => (({ risk with accounts := stored } : RiskEngineState).account other).map .of := by
        funext other
        rw [hlookup]
        unfold ModelEngine.setAccount
        simp only [Function.update_apply, hheld]
        split <;> rfl
      obtain ⟨risk', rep'', fresh'', halive', hrest⟩ := ih _ rep' fresh' halive hstored hregister
      refine ⟨risk', rep'', fresh'', halive', ?_⟩
      rw [ModelEngine.registerAll, hmodel]
      exact hrest

/-- A new gateway and a new reference engine with the same accounts are
paired. -/
theorem paired_new (hregister : EngineBuilder.registerAll accounts RiskEngine.new = .ok riskEngine)
    (instrument : InstrumentId) (L O : Nat) :
    ∃ engine gateway, ModelEngine.registerAll accounts (ModelEngine.new instrument L O) = some engine ∧
      Paired instrument 1 (Gateway.new riskEngine instrument : Gateway A R L O) engine gateway ModelBook.empty := by
  obtain ⟨risk, rep, fresh, halive, hmodel⟩ := registerAll_reference (ModelEngine.new instrument L O)
    riskRep_new ⟨by simp, rfl, rfl⟩ rfl rfl hregister
  have hreservations : (fun id => (risk.reservation id).map ModelReservation.of) = fun _ => none := by
    funext id
    simp [RiskEngineState.reservation, fresh.reservations]
  have hmirrors : Mirrors ModelBook.empty (LogicalBook.new instrument) := by
    intro side
    cases side <;> exact List.Perm.refl _
  refine ⟨_, LogicalGateway.new risk instrument, hmodel, gatewayRep_new rep instrument,
    sound_new_gateway rep fresh instrument, halive, hmirrors, ?_, rfl, rfl⟩
  unfold LogicalGateway.reference LogicalGateway.new
  rw [hreservations]
  rfl

/-- The gateway and its reference engine over whole runs: with the same
accounts and limits registered, every run of well-formed commands numbered from
1 in which no owner asks for an increase beyond its account's limits gives the
same verdict and the same view of every account after every command. -/
theorem gateway_follows_reference (hL : 1 ≤ L) (hO : 1 ≤ O) (hroom : 2 * L * O + 1 ≤ R) (hindex : 4 * L * O ≤ 2 ^ 32)
    (hreservations : 2 * R ≤ 2 ^ 32) (instrument : InstrumentId) (accounts : List (AccountId × RiskLimits))
    (riskEngine : RiskEngine A R) (hregister : EngineBuilder.registerAll accounts RiskEngine.new = .ok riskEngine)
    (calls : List GatewayCall) (hsequenced : SequencedCalls instrument 1 calls)
    (hpermitted : Permitted (Gateway.new riskEngine instrument : Gateway A R L O) calls) :
    ∃ engine observed gateway' engine',
      ModelEngine.registerAll accounts (ModelEngine.new instrument L O) = some engine ∧
      run gatewayStep (Gateway.new riskEngine instrument : Gateway A R L O) calls = some (observed, gateway') ∧
      run referenceStep engine calls = some (observed, engine') := by
  obtain ⟨engine, gateway, hmodel, hpaired⟩ := paired_new hregister instrument L O
  obtain ⟨observed, gateway', engine', hreal, hengine⟩ :=
    run_follows hpaired hL hO hroom hindex hreservations hsequenced hpermitted
  exact ⟨engine, observed, gateway', engine', hmodel, hreal, hengine⟩

/-- One account with room for a notional of 1000, and a book of one level a
side. -/
def smallLimits : RiskLimits := ⟨100, 1000, 1000, 10, i64 1, i64 1000⟩

def smallRisk : RiskEngine 1 4 := (RiskEngine.new.registerAccount 1 smallLimits).2

theorem registerAll_smallRisk : EngineBuilder.registerAll [(1, smallLimits)] RiskEngine.new = .ok smallRisk := by
  decide +kernel

/-- A resting offer, an increase of it within the limits and a cancel. -/
def increaseCalls : List GatewayCall :=
  [.command (.newOrder ⟨1, 1, 7, i64 10, 5, 1, .sell, .gtc⟩) (ReportBuffer.empty : ReportBuffer 2),
    .command (.replaceOrder ⟨1, 1, 7, 2, i64 10, 8⟩) (ReportBuffer.empty : ReportBuffer 2),
    .command (.cancelOrder ⟨1, 1, 7, 3⟩) (ReportBuffer.empty : ReportBuffer 2)]

/-- The sample run stays within the condition. -/
theorem increaseCalls_permitted : Permitted (Gateway.new smallRisk 7 : Gateway 1 4 1 1) increaseCalls := by
  decide +kernel

/-- The calls of the sample carry the sequence numbers a gateway expects. -/
theorem increaseCalls_sequenced : SequencedCalls 7 1 increaseCalls := by
  refine ⟨⟨_, rfl, rfl, ?_⟩, ⟨_, rfl, rfl, ?_⟩, ⟨_, rfl, rfl, ?_⟩, trivial⟩
  · exact ⟨rfl, by decide, by decide⟩
  · exact ⟨rfl, by decide, by decide⟩
  · exact rfl

/-- The increase within the limits is followed. -/
theorem gateway_follows_reference_sample : ∃ engine observed gateway' engine',
    ModelEngine.registerAll [(1, smallLimits)] (ModelEngine.new 7 1 1) = some engine ∧
    run gatewayStep (Gateway.new smallRisk 7 : Gateway 1 4 1 1) increaseCalls = some (observed, gateway') ∧
    run referenceStep engine increaseCalls = some (observed, engine') :=
  gateway_follows_reference (by decide) (by decide) (by decide) (by decide) (by decide) 7 [(1, smallLimits)] smallRisk
    registerAll_smallRisk increaseCalls increaseCalls_sequenced increaseCalls_permitted

/-- The same offer and an increase of it to twice the notional limit. -/
def refusedCalls : List GatewayCall :=
  [.command (.newOrder ⟨1, 1, 7, i64 10, 5, 1, .sell, .gtc⟩) (ReportBuffer.empty : ReportBuffer 2),
    .command (.replaceOrder ⟨1, 1, 7, 2, i64 10, 200⟩) (ReportBuffer.empty : ReportBuffer 2)]

/-- The position of one account after every command. -/
def viewsOf (id : AccountId) (observed : List EngineObservation) : List (Option (I128 × U32)) :=
  observed.map fun observation => observation.views id

/-- Both engines refuse the increase, and the reference engine goes on counting
it. -/
theorem refused_increase_diverges :
    EngineBuilder.registerAll [(1, smallLimits)] RiskEngine.new = .ok smallRisk ∧ SequencedCalls 7 1 refusedCalls ∧
    ¬∃ engine observed gateway' engine',
      ModelEngine.registerAll [(1, smallLimits)] (ModelEngine.new 7 1 1) = some engine ∧
      run gatewayStep (Gateway.new smallRisk 7 : Gateway 1 4 1 1) refusedCalls = some (observed, gateway') ∧
      run referenceStep engine refusedCalls = some (observed, engine') := by
  refine ⟨registerAll_smallRisk, ?_, ?_⟩
  · refine ⟨⟨_, rfl, rfl, ?_⟩, ⟨_, rfl, rfl, ?_⟩, trivial⟩
    · exact ⟨rfl, by decide, by decide⟩
    · exact ⟨rfl, by decide, by decide⟩
  rintro ⟨engine, observed, gateway', engine', hregister, hreal, hengine⟩
  have hviews : (run gatewayStep (Gateway.new smallRisk 7 : Gateway 1 4 1 1) refusedCalls).map (viewsOf 1 ∘ Prod.fst)
      = some (viewsOf 1 observed) := by
    rw [hreal]
    rfl
  have hviews' : ((ModelEngine.registerAll [(1, smallLimits)] (ModelEngine.new 7 1 1)).bind fun engine =>
      (run referenceStep engine refusedCalls).map (viewsOf 1 ∘ Prod.fst)) = some (viewsOf 1 observed) := by
    rw [hregister, Option.bind_some, hengine]
    rfl
  have hdiffer : (run gatewayStep (Gateway.new smallRisk 7 : Gateway 1 4 1 1) refusedCalls).map (viewsOf 1 ∘ Prod.fst)
      ≠ (ModelEngine.registerAll [(1, smallLimits)] (ModelEngine.new 7 1 1)).bind fun engine =>
          (run referenceStep engine refusedCalls).map (viewsOf 1 ∘ Prod.fst) := by
    decide +kernel
  exact hdiffer (hviews.trans hviews'.symm)

end Start

end HftEngine
