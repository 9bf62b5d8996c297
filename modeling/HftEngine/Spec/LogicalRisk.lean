/-
Module: HftEngine.Spec.LogicalRisk
Layer: Spec
Purpose: What the risk engine is for, without storage: a ledger of accounts and
  reservations in key order, with every operation a function of that ledger.
  The only trace of the implementation is `FitsReservations`: whether a set of
  order ids can be indexed with 32-bit cell numbers.
Imports: HftEngine.Core.RiskState, HftEngine.Lib.TrackedTable
Trusted boundary: none (specification; connected to the code by
  `Proofs.RiskRefinement`)
Main exports: RiskEngineState.checkAndReserve, RiskEngineState.settle,
  RiskEngineState.recordFill, RiskEngineState.adjustReservation,
  RiskEngineState.restoreReservation, RiskEngineState.cancelReservation
-/
import HftEngine.Core.RiskState
import HftEngine.Lib.TrackedTable

namespace HftEngine

open Machine

/-- Whether a set of order ids can be indexed by an engine with room for `R`
reservations. -/
def FitsReservations (R : Nat) (ids : OrderId → Prop) : Prop :=
  OpenAddressing.Fits (probeStart (R * indexPlanes)) indexLimit Nat (R * indexPlanes) ids

namespace RiskEngineState

/-- The account of an id. -/
def account (state : RiskEngineState) (id : AccountId) : Option AccountState :=
  state.accounts.find? fun account => account.id = id

/-- The open reservation of an order. -/
def reservation (state : RiskEngineState) (orderId : OrderId) : Option ReservationRiskState :=
  state.reservations.find? fun reservation => reservation.orderId = orderId

/-- The ledger with one account record replaced. -/
def setAccount (state : RiskEngineState) (account : AccountState) : RiskEngineState :=
  { state with accounts := state.accounts.map fun other => if other.id = account.id then account else other }

/-- The ledger with one reservation resized. -/
def resize (state : RiskEngineState) (orderId : OrderId) (quantity : Quantity) : RiskEngineState :=
  { state with reservations := state.reservations.map fun reservation =>
      if reservation.orderId = orderId then { reservation with quantity := quantity } else reservation }

/-- The ledger without one reservation. -/
def release (state : RiskEngineState) (orderId : OrderId) : RiskEngineState :=
  { state with reservations := state.reservations.filter fun reservation => reservation.orderId ≠ orderId }

/-- The ledger with a new reservation, whose id becomes the watermark. -/
def reserve (state : RiskEngineState) (reservation : ReservationRiskState) : RiskEngineState :=
  { state with
    reservations := state.reservations ++ [reservation]
    maximumOrderId := some reservation.orderId }

open Classical in
/-- Checks an order against the limits of its account and reserves its
exposure. -/
noncomputable def checkAndReserve (R : Nat) (state : RiskEngineState) (order : NewOrder) :
    Except RejectReason Unit × RiskEngineState :=
  if state.killed then (.error .killSwitch, state)
  else if order.quantity.val = 0 then (.error .invalidQuantity, state)
  else if state.maximumOrderId.any fun maximum => order.orderId.val ≤ maximum.val then
    (.error .duplicateOrderId, state)
  else if R ≤ state.reservations.length then (.error .orderCapacity, state)
  else
    match state.account order.accountId with
    | none => (.error .unknownAccount, state)
    | some account =>
        match evaluateLimits account order with
        | .error reason => (.error reason, state)
        | .ok (reservedBuys, reservedSells, openOrders) =>
            if FitsReservations R fun id => id = order.orderId ∨ (state.reservation id).isSome then
              (.ok (), (state.setAccount { account with
                reservedBuys := reservedBuys
                reservedSells := reservedSells
                openOrders := openOrders }).reserve
                  ⟨order.orderId, order.accountId, order.side, order.quantity⟩)
            else (.error .orderCapacity, state)

/-- Closes a reservation: `filled` becomes settled position, the rest is
released. -/
def settleReservation (state : RiskEngineState) (reservation : ReservationRiskState) (filled : Quantity) :
    Except RejectReason Unit × RiskEngineState :=
  match state.account reservation.accountId with
  | none => (.error .unknownAccount, state)
  | some account =>
      match exposureAfterFill account reservation.side filled reservation.quantity with
      | .error reason => (.error reason, state)
      | .ok (settledPosition, reservedBuys, reservedSells) =>
          match checkedSub account.openOrders 1 with
          | none => (.error .arithmeticOverflow, state)
          | some openOrders =>
              (.ok (), (state.setAccount { account with
                settledPosition := settledPosition
                reservedBuys := reservedBuys
                reservedSells := reservedSells
                openOrders := openOrders }).release reservation.orderId)

/-- Ends a reservation: the filled part moves into the settled position, the
rest is released. -/
def settle (state : RiskEngineState) (orderId : OrderId) (filled : Quantity) :
    Except RejectReason Unit × RiskEngineState :=
  match state.reservation orderId with
  | none => (.error .unknownOrder, state)
  | some reservation =>
      if reservation.quantity.val < filled.val then (.error .invalidQuantity, state)
      else state.settleReservation reservation filled

/-- Books a fill: reserved quantity becomes position, and a fully filled
reservation is closed. -/
def recordFill (state : RiskEngineState) (orderId : OrderId) (filled : Quantity) :
    Except RejectReason Unit × RiskEngineState :=
  if filled.val = 0 then (.error .invalidQuantity, state)
  else
    match state.reservation orderId with
    | none => (.error .unknownOrder, state)
    | some reservation =>
        match checkedSub reservation.quantity filled with
        | none => (.error .invalidQuantity, state)
        | some left =>
            match state.account reservation.accountId with
            | none => (.error .unknownAccount, state)
            | some account =>
                match exposureAfterFill account reservation.side filled filled with
                | .error reason => (.error reason, state)
                | .ok (settledPosition, reservedBuys, reservedSells) =>
                    match RiskEngine.openOrdersAfter account left with
                    | .error reason => (.error reason, state)
                    | .ok openOrders =>
                        let state := state.setAccount { account with
                          settledPosition := settledPosition
                          reservedBuys := reservedBuys
                          reservedSells := reservedSells
                          openOrders := openOrders }
                        (.ok (), if left.val = 0 then state.release orderId else state.resize orderId left)

/-- Resizes an owned reservation; growth is held to notional and position
limits. -/
def adjustReservation (state : RiskEngineState) (orderId : OrderId) (accountId : AccountId)
    (price : PriceTicks) (quantity : Quantity) : Except RejectReason (Quantity × Quantity) × RiskEngineState :=
  match state.reservation orderId with
  | none => (.error .unknownOrder, state)
  | some reservation =>
      if reservation.accountId ≠ accountId then (.error .notOrderOwner, state)
      else if quantity = reservation.quantity then (.ok (0, reservation.quantity), state)
      else
        match state.account accountId with
        | none => (.error .unknownAccount, state)
        | some account =>
            match RiskEngine.amendedTotals account reservation.side reservation.quantity price quantity with
            | .error reason => (.error reason, state)
            | .ok (reservedBuys, reservedSells) =>
                (.ok (satSub reservation.quantity quantity, reservation.quantity),
                  (state.setAccount { account with
                    reservedBuys := reservedBuys, reservedSells := reservedSells }).resize orderId quantity)

/-- Resizes an owned reservation back, without limit checks. -/
def restoreReservation (state : RiskEngineState) (orderId : OrderId) (accountId : AccountId)
    (quantity : Quantity) : Except RejectReason Unit × RiskEngineState :=
  match state.reservation orderId with
  | none => (.error .unknownOrder, state)
  | some reservation =>
      if reservation.accountId ≠ accountId then (.error .notOrderOwner, state)
      else if reservation.quantity = quantity then (.ok (), state)
      else
        match state.account accountId with
        | none => (.error .unknownAccount, state)
        | some account =>
            match RiskEngine.restoredTotals account reservation.side reservation.quantity quantity with
            | .error reason => (.error reason, state)
            | .ok (reservedBuys, reservedSells) =>
                (.ok (), (state.setAccount { account with
                  reservedBuys := reservedBuys, reservedSells := reservedSells }).resize orderId quantity)

/-- Whether an account may cancel an order: the reservation is open and its
own. -/
def canCancel (state : RiskEngineState) (orderId : OrderId) (accountId : AccountId) :
    Except RejectReason Unit :=
  match state.reservation orderId with
  | none => .error .unknownOrder
  | some reservation => if reservation.accountId ≠ accountId then .error .notOrderOwner else .ok ()

/-- Closes an owned reservation without a fill and returns what was
released. -/
def cancelReservation (state : RiskEngineState) (orderId : OrderId) (accountId : AccountId) :
    Except RejectReason Quantity × RiskEngineState :=
  match state.reservation orderId with
  | none => (.error .unknownOrder, state)
  | some reservation =>
      if reservation.accountId ≠ accountId then (.error .notOrderOwner, state)
      else
        match state.settleReservation reservation 0 with
        | (.error reason, state) => (.error reason, state)
        | (.ok (), state) => (.ok reservation.quantity, state)

end RiskEngineState

end HftEngine
