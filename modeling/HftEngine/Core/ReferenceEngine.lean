/-
Module: HftEngine.Core.ReferenceEngine
Layer: Core
Purpose: The reference engine of the property tests: sequencing, the order-id
  watermark, accounts and reservations in maps, and the reference book, for
  well-formed commands. `none` stands for a panic.
Imports: HftEngine.Core.Reference, HftEngine.Core.Risk
Trusted boundary: translates `ModelEngine` of the crate `hft-model`
Main exports: ModelLimits, ModelRejection, ModelOutcome, ModelEngine,
  ModelEngine.registerAccount, ModelEngine.applyNew, ModelEngine.applyCancel,
  ModelEngine.applyReplace, ModelEngine.accountView
-/
import HftEngine.Core.Reference
import HftEngine.Core.Risk

namespace HftEngine

open Machine

/-- Mirror of the engine's per-account limits for generated sessions. -/
structure ModelLimits where
  maxQuantity : U64
  maxNotional : U128
  maxAbsPosition : I128
  maxOpenOrders : U32
  minimumPrice : I64
  maximumPrice : I64
deriving DecidableEq, Repr

/-- Which layer rejected a mirrored command. -/
inductive ModelRejection where
  | risk (reason : RejectReason)
  | book (reason : RejectReason)
deriving DecidableEq, Repr

/-- Outcome of an accepted new order, with the fills the reference book
made. -/
structure ModelNewOutcome where
  filled : Quantity
  rested : Quantity
  discarded : Quantity
  fills : List ModelFill
deriving DecidableEq, Repr

/-- Outcome of an owned replace. -/
structure ModelReplaced where
  orderId : OrderId
  accountId : AccountId
  oldQuantity : Quantity
  newQuantity : Quantity
  price : PriceTicks
  priorityLost : Bool
deriving DecidableEq, Repr

/-- Outcome of an owned cancel. -/
structure ModelCancelled where
  orderId : OrderId
  accountId : AccountId
  quantity : Quantity
deriving DecidableEq, Repr

/-- An account of the reference engine: its limits, position and totals, all as
the risk engine keeps them. -/
structure ModelAccount where
  limits : ModelLimits
  settledPosition : I128
  reservedBuys : U128
  reservedSells : U128
  openOrders : U32
  killed : Bool
deriving DecidableEq, Repr

/-- What is still open of an order. -/
structure ModelReservation where
  accountId : AccountId
  side : Side
  remaining : U64
deriving DecidableEq, Repr

/-- The reference engine. The two ordered maps of the source are read by key
only, so they are functions. -/
structure ModelEngine where
  instrument : InstrumentId
  levelCap : Nat
  orderCap : Nat
  book : ModelBook
  accounts : U32 → Option ModelAccount
  reservations : U64 → Option ModelReservation
  maximumReceivedOrderId : Option U64
  nextSequence : U64

namespace ModelAccount

/-- The reserved total of one side replaced. -/
def setReserved (account : ModelAccount) (side : Side) (total : U128) : ModelAccount :=
  match side with
  | .buy => { account with reservedBuys := total }
  | .sell => { account with reservedSells := total }

/-- The reserved total of a side. -/
def reserved (account : ModelAccount) : Side → U128
  | .buy => account.reservedBuys
  | .sell => account.reservedSells

/-- The settled position after a trade on one side. -/
def positionAfter (account : ModelAccount) (side : Side) (traded : U64) : Option I128 :=
  match side with
  | .buy => checkedAddSigned account.settledPosition (i128OfU64 traded)
  | .sell => checkedSubSigned account.settledPosition (i128OfU64 traded)

/-- Absolute price times quantity, in 128 bits. -/
def notional (price : I64) (quantity : U64) : Except RejectReason U128 := do
  let absolutePrice ← orOverflow (checkedAbs price)
  let absolutePrice ← orOverflow (unsignedOf (2 ^ 64) absolutePrice)
  orOverflow (checkedMul (u128OfU64 absolutePrice) (u128OfU64 quantity))

/-- Pure limit evaluation, with the error precedence and checked widths of the
risk engine. -/
def evaluateLimits (account : ModelAccount) (order : NewOrder) : Except RejectReason Unit :=
  if account.killed then .error .killSwitch
  else if account.limits.maxQuantity.val < order.quantity.val then .error .quantityLimit
  else if order.price.val < account.limits.minimumPrice.val ∨
      account.limits.maximumPrice.val < order.price.val then .error .priceCollar
  else do
    let notional ← notional order.price order.quantity
    if account.limits.maxNotional.val < notional.val then .error .notionalLimit
    else
      let (reservedBuys, reservedSells) ← match order.side with
        | .buy => do
            let buys ← orOverflow (checkedAdd account.reservedBuys (u128OfU64 order.quantity))
            pure (buys, account.reservedSells)
        | .sell => do
            let sells ← orOverflow (checkedAdd account.reservedSells (u128OfU64 order.quantity))
            pure (account.reservedBuys, sells)
      let maximumPosition : Int := account.limits.maxAbsPosition.val
      let buys ← orOverflow (i128OfU128 reservedBuys)
      let worstLong ← orOverflow (checkedAddSigned account.settledPosition buys)
      let sells ← orOverflow (i128OfU128 reservedSells)
      let worstShort ← orOverflow (checkedSubSigned account.settledPosition sells)
      if worstLong.val > maximumPosition ∨ worstShort.val < -maximumPosition then .error .positionLimit
      else
        let openOrders ← orOverflow (checkedAdd account.openOrders 1)
        if account.limits.maxOpenOrders.val < openOrders.val then .error .openOrderLimit
        else .ok ()

/-- `i128::try_from(total).unwrap_or(i128::MAX)`. -/
def saturated (total : U128) : I128 :=
  (i128OfU128 total).getD ⟨2 ^ 127 - 1, by norm_num, by norm_num⟩

/-- The limit checks of an increase, made on an account that already holds the
increased total. -/
def checkIncrease (account : ModelAccount) (price : I64) (newTotal : U64) : Except RejectReason Unit := do
  let notional ← notional price newTotal
  if account.limits.maxNotional.val < notional.val then .error .notionalLimit
  else
    let maximumPosition : Int := account.limits.maxAbsPosition.val
    let worstLong ← orOverflow (checkedAddSigned account.settledPosition (saturated account.reservedBuys))
    let worstShort ← orOverflow (checkedSubSigned account.settledPosition (saturated account.reservedSells))
    if worstLong.val > maximumPosition ∨ worstShort.val < -maximumPosition then .error .positionLimit
    else .ok ()

end ModelAccount

namespace ModelEngine

/-- An engine without accounts. It expects the sequence number one. -/
def new (instrument : InstrumentId) (levelCap orderCap : Nat) : ModelEngine where
  instrument := instrument
  levelCap := levelCap
  orderCap := orderCap
  book := ModelBook.empty
  accounts := fun _ => none
  reservations := fun _ => none
  maximumReceivedOrderId := none
  nextSequence := 1

/-- The engine with one account entered or replaced. -/
def setAccount (engine : ModelEngine) (id : AccountId) (account : ModelAccount) : ModelEngine :=
  { engine with accounts := Function.update engine.accounts id (some account) }

/-- The engine with one reservation entered, replaced or taken out. -/
def setReservation (engine : ModelEngine) (id : U64) (reservation : Option ModelReservation) : ModelEngine :=
  { engine with reservations := Function.update engine.reservations id reservation }

/-- Registers an account with its limits; a duplicate registration panics. -/
def registerAccount (engine : ModelEngine) (id : AccountId) (limits : ModelLimits) : Option ModelEngine :=
  if (engine.accounts id).isSome then none
  else some (engine.setAccount id
    { limits := limits
      settledPosition := i128Zero
      reservedBuys := 0
      reservedSells := 0
      openOrders := 0
      killed := false })

/-- Releases a reservation completely without a position change. -/
def release (engine : ModelEngine) (orderId : U64) : Option ModelEngine := do
  let reservation ← engine.reservations orderId
  let engine := engine.setReservation orderId none
  let account ← engine.accounts reservation.accountId
  let total ← checkedSub (account.reserved reservation.side) (u128OfU64 reservation.remaining)
  let openOrders ← checkedSub account.openOrders 1
  pure (engine.setAccount reservation.accountId
    { account.setReserved reservation.side total with openOrders := openOrders })

/-- The traded amount leaves the reserved total and becomes signed position; an
emptied reservation closes its order. -/
def recordFill (engine : ModelEngine) (orderId : OrderId) (traded : U64) : Option ModelEngine :=
  if traded.val = 0 then none
  else do
    let reservation ← engine.reservations orderId
    -- `traded <= reservation.remaining` is asserted
    let remaining ← checkedSub reservation.remaining traded
    let engine := engine.setReservation orderId (some { reservation with remaining := remaining })
    let account ← engine.accounts reservation.accountId
    let settledPosition ← account.positionAfter reservation.side traded
    let total ← checkedSub (account.reserved reservation.side) (u128OfU64 traded)
    let account := { account.setReserved reservation.side total with settledPosition := settledPosition }
    if remaining.val = 0 then
      let openOrders ← checkedSub account.openOrders 1
      pure ((engine.setAccount reservation.accountId { account with openOrders := openOrders }).setReservation
        orderId none)
    else pure (engine.setAccount reservation.accountId account)

/-- Records every fill of a match, maker first. -/
def recordFills (taker : OrderId) : List ModelFill → ModelEngine → Option ModelEngine
  | [], engine => some engine
  | fill :: rest, engine => do
      let engine ← engine.recordFill fill.makerOrderId fill.quantity
      let engine ← engine.recordFill taker fill.quantity
      recordFills taker rest engine

/-- Reserves the exposure of an order that passed its account's limits. -/
def reserve (engine : ModelEngine) (order : NewOrder) (account : ModelAccount) : ModelEngine :=
  (engine.setAccount order.accountId
    { account.setReserved order.side (account.reserved order.side + u128OfU64 order.quantity) with
      openOrders := account.openOrders + 1 }).setReservation order.orderId
    (some ⟨order.accountId, order.side, order.quantity⟩)

/-- Mirrors the gateway path for a new-order frame. -/
def applyNew (engine : ModelEngine) (order : NewOrder) (reportCapacity : Nat) :
    Option (Except ModelRejection ModelNewOutcome × ModelEngine) :=
  if order.sequence ≠ engine.nextSequence then none
  else
    let engine := { engine with nextSequence := engine.nextSequence + 1 }
    -- burned ids stay rejected, and the maximum moves even when a later risk check rejects the command
    if engine.maximumReceivedOrderId.any fun maximum => order.orderId.val ≤ maximum.val then
      some (.error (.risk .duplicateOrderId), engine)
    else
      let engine := { engine with maximumReceivedOrderId := some order.orderId }
      match engine.accounts order.accountId with
      | none => some (.error (.risk .unknownAccount), engine)
      | some account =>
          match account.evaluateLimits order with
          | .error reason => some (.error (.risk reason), engine)
          | .ok () =>
              let engine := engine.reserve order account
              if order.instrumentId ≠ engine.instrument then do
                let engine ← engine.release order.orderId
                pure (.error (.book .invalidInstrument), engine)
              else do
                let (planned, book) ← engine.book.submit order reportCapacity engine.levelCap engine.orderCap
                let engine := { engine with book := book }
                match planned with
                | .error reason =>
                    let engine ← engine.release order.orderId
                    pure (.error (.book reason), engine)
                | .ok summary =>
                    let engine ← recordFills order.orderId summary.fills engine
                    let outcome : ModelNewOutcome :=
                      ⟨summary.filled, summary.resting, summary.discarded, summary.fills⟩
                    if summary.resting.val = 0 ∧ summary.filled.val < order.quantity.val then
                      let engine ← engine.release order.orderId
                      pure (.ok outcome, engine)
                    else pure (.ok outcome, engine)

/-- Mirrors the gateway path for a cancel frame. -/
def applyCancel (engine : ModelEngine) (cancel : CancelOrder) :
    Option (Except ModelRejection ModelCancelled × ModelEngine) :=
  if cancel.sequence ≠ engine.nextSequence then none
  else
    let engine := { engine with nextSequence := engine.nextSequence + 1 }
    if cancel.instrumentId ≠ engine.instrument then some (.error (.book .invalidInstrument), engine)
    else
      match engine.reservations cancel.orderId with
      | none => some (.error (.risk .unknownOrder), engine)
      | some reservation =>
          if reservation.accountId ≠ cancel.accountId then some (.error (.risk .notOrderOwner), engine)
          else
            match engine.book.cancel cancel with
            | (.error reason, book) => some (.error (.book reason), { engine with book := book })
            | (.ok cancelled, book) => do
                let engine ← { engine with book := book }.release cancel.orderId
                pure (.ok ⟨cancel.orderId, cancel.accountId, cancelled.2.2⟩, engine)

/-- Limit-checked increase or immediate decrease of one reservation's total.
Returns the released amount and the prior total. An increase is added to the
account before it is checked, and stays there when a check refuses it. -/
def adjustReservation (engine : ModelEngine) (replace : ReplaceOrder) :
    Option (Except RejectReason (U64 × U64) × ModelEngine) :=
  match engine.reservations replace.orderId with
  | none => some (.error .unknownOrder, engine)
  | some reservation =>
      let remaining := reservation.remaining
      let newTotal := replace.quantity
      if newTotal = remaining then some (.ok (0, remaining), engine)
      else do
        let account ← engine.accounts reservation.accountId
        let resized := fun (engine : ModelEngine) =>
          engine.setReservation replace.orderId (some { reservation with remaining := newTotal })
        if remaining.val < newTotal.val then
          match checkedAdd (account.reserved reservation.side) (u128OfU64 (satSub newTotal remaining)) with
          | none => pure (.error .arithmeticOverflow, engine)
          | some total =>
              let account := account.setReserved reservation.side total
              let engine := engine.setAccount reservation.accountId account
              match account.checkIncrease replace.price newTotal with
              | .error reason => pure (.error reason, engine)
              | .ok () => pure (.ok (satSub remaining newTotal, remaining), resized engine)
        else
          let total ← checkedSub (account.reserved reservation.side) (u128OfU64 (satSub remaining newTotal))
          let engine := engine.setAccount reservation.accountId (account.setReserved reservation.side total)
          pure (.ok (satSub remaining newTotal, remaining), resized engine)

/-- Restores a reservation total after a rolled-back book mutation. -/
def restoreReservation (engine : ModelEngine) (orderId : U64) (priorRemaining : U64) : Option ModelEngine :=
  let current := (engine.reservations orderId).elim priorRemaining ModelReservation.remaining
  -- the difference of two 64-bit values cannot leave 128 bits
  let delta : Int := priorRemaining.val - current.val
  if delta = 0 then some engine
  else do
    let reservation ← engine.reservations orderId
    let account ← engine.accounts reservation.accountId
    let total ← i128OfU128 (account.reserved reservation.side)
    let total ← signedOf (2 ^ 127) (total.val + delta)
    let engine := engine.setAccount reservation.accountId
      (account.setReserved reservation.side (unsignedAbs total))
    pure (engine.setReservation orderId (some { reservation with remaining := priorRemaining }))

/-- Mirrors the gateway path for a replace frame. -/
def applyReplace (engine : ModelEngine) (replace : ReplaceOrder) :
    Option (Except ModelRejection ModelReplaced × ModelEngine) :=
  if replace.sequence ≠ engine.nextSequence then none
  else
    let engine := { engine with nextSequence := engine.nextSequence + 1 }
    match engine.reservations replace.orderId with
    | none => some (.error (.risk .unknownOrder), engine)
    | some reservation =>
        if reservation.accountId ≠ replace.accountId then some (.error (.risk .notOrderOwner), engine)
        else
          match engine.adjustReservation replace with
          | none => none
          | some (.error reason, engine) => some (.error (.risk reason), engine)
          | some (.ok (_, priorRemaining), engine) =>
              if replace.instrumentId ≠ engine.instrument then do
                let engine ← engine.restoreReservation replace.orderId priorRemaining
                pure (.error (.book .invalidInstrument), engine)
              else do
                let (result, book) ← engine.book.replace replace engine.levelCap engine.orderCap
                let engine := { engine with book := book }
                match result with
                | .ok (oldQuantity, priorityLost) =>
                    pure (.ok ⟨replace.orderId, replace.accountId, oldQuantity, replace.quantity, replace.price,
                      priorityLost⟩, engine)
                | .error reason =>
                    let engine ← engine.restoreReservation replace.orderId priorRemaining
                    pure (.error (.book reason), engine)

/-- Projected position and open-order count, mirroring `account_snapshot`. -/
def accountView (engine : ModelEngine) (id : AccountId) : Option (I128 × U32) := do
  let account ← engine.accounts id
  let buys ← i128OfU128 account.reservedBuys
  let long ← checkedAddSigned account.settledPosition buys
  let sells ← i128OfU128 account.reservedSells
  let projected ← checkedSubSigned long sells
  pure (projected, account.openOrders)

end ModelEngine

end HftEngine
