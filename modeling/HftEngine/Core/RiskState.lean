/-
Module: HftEngine.Core.RiskState
Layer: Core
Purpose: The canonical logical state of the risk engine: accounts and
  reservations in increasing key order, its validation, and rebuilding an
  engine from it.
Imports: HftEngine.Core.Risk
Trusted boundary: translates `RiskEngine::export_state` and `from_state` of the
  crate `hft-risk`
Main exports: ReservationRiskState, RiskEngineState, RiskStateError,
  RiskEngine.exportState, validateRiskState, RiskEngine.fromState
-/
import HftEngine.Core.Risk

namespace HftEngine

open Machine SlotArena

/-- A reservation as data, without its back-pointer. -/
structure ReservationRiskState where
  orderId : OrderId
  accountId : AccountId
  side : Side
  quantity : Quantity
deriving DecidableEq, Repr

/-- The exported account record has the fields of the engine's own. -/
abbrev AccountRiskState := AccountState

/-- The ledger as data. Both lists are in increasing order of their keys, so
that equal ledgers have equal states. -/
structure RiskEngineState where
  accounts : List AccountRiskState
  reservations : List ReservationRiskState
  maximumOrderId : Option OrderId
  killed : Bool
deriving DecidableEq, Repr

/-- Why a state is not the state of a ledger. -/
inductive RiskStateError where
  | accountCapacity
  | reservationCapacity
  | duplicateAccount
  | duplicateOrder
  | nonCanonical
  | invalidLimits
  | unknownAccount
  | invalidWatermark
  | exposureMismatch
  | openOrderMismatch
  | positionLimit
  | arithmeticOverflow
  | invalidQuantity
deriving DecidableEq, Repr

/-- `sort_unstable_by_key` for a numeric key. The callers' keys are distinct,
so stability is moot. -/
def sortByKey {α : Type} (key : α → Nat) (items : List α) : List α :=
  items.insertionSort fun first second => key first ≤ key second

/-! ### Validation -/

/-- Neighbouring keys must increase: an equal pair is a duplicate, a decreasing
one is not canonical. -/
def validateAscending {α : Type} (key : α → Nat) (duplicate : RiskStateError) :
    List α → Except RiskStateError Unit
  | first :: second :: rest =>
      if key first = key second then .error duplicate
      else if key second < key first then .error .nonCanonical
      else validateAscending key duplicate (second :: rest)
  | _ => .ok ()

/-- `ok_or(RiskStateError::ArithmeticOverflow)`. -/
def orStateOverflow {α : Type} : Option α → Except RiskStateError α
  | some value => .ok value
  | none => .error .arithmeticOverflow

/-- Buy total, sell total and number of the given reservations. -/
def tallyReservations : List ReservationRiskState → U128 → U128 → U32 →
    Except RiskStateError (U128 × U128 × U32)
  | [], buys, sells, openOrders => .ok (buys, sells, openOrders)
  | reservation :: rest, buys, sells, openOrders => do
      let (buys, sells) ← match reservation.side with
        | .buy => do
            let buys ← orStateOverflow (checkedAdd buys (u128OfU64 reservation.quantity))
            pure (buys, sells)
        | .sell => do
            let sells ← orStateOverflow (checkedAdd sells (u128OfU64 reservation.quantity))
            pure (buys, sells)
      let openOrders ← orStateOverflow (checkedAdd openOrders 1)
      tallyReservations rest buys sells openOrders

/-- One account against the reservations that name it: its totals and its count
have to be theirs, and its worst position within its limit. -/
def validateAccountState (account : AccountRiskState) (reservations : List ReservationRiskState) :
    Except RiskStateError Unit := do
  let (reservedBuys, reservedSells, openOrders) ←
    tallyReservations (reservations.filter (·.accountId = account.id)) 0 0 0
  if reservedBuys ≠ account.reservedBuys ∨ reservedSells ≠ account.reservedSells then
    .error .exposureMismatch
  else if openOrders ≠ account.openOrders ∨ account.limits.maxOpenOrders.val < openOrders.val then
    .error .openOrderMismatch
  else
    let buys ← orStateOverflow (i128OfU128 reservedBuys)
    let sells ← orStateOverflow (i128OfU128 reservedSells)
    let worstLong ← orStateOverflow (checkedAddSigned account.settledPosition buys)
    let worstShort ← orStateOverflow (checkedSubSigned account.settledPosition sells)
    let maximum : Int := account.limits.maxAbsPosition.val
    if worstLong.val > maximum ∨ worstShort.val < -maximum then .error .positionLimit else .ok ()

def validateAccounts (reservations : List ReservationRiskState) :
    List AccountRiskState → Except RiskStateError Unit
  | [] => .ok ()
  | account :: rest => do
      validateAccountState account reservations
      validateAccounts reservations rest

/-- Whether an order id lies above a watermark. -/
def aboveWatermark (maximum : Option OrderId) (orderId : OrderId) : Bool :=
  match maximum with
  | none => true
  | some maximum => decide (maximum.val < orderId.val)

/-- Validation of a risk state for `A` accounts and `R` reservations. The
binary search of the sorted accounts is a membership test. -/
def validateRiskState (A R : Nat) (state : RiskEngineState) : Except RiskStateError Unit :=
  if A < state.accounts.length then .error .accountCapacity
  else if R < state.reservations.length then .error .reservationCapacity
  else do
    validateAscending (fun account => account.id.val) .duplicateAccount state.accounts
    if state.accounts.any fun account => RiskEngine.invalidLimits account.limits then
      .error .invalidLimits
    else
      validateAscending (fun reservation => reservation.orderId.val) .duplicateOrder state.reservations
      if state.reservations.any fun reservation => reservation.quantity.val = 0 then
        .error .invalidQuantity
      else if state.reservations.getLast?.any fun reservation =>
          aboveWatermark state.maximumOrderId reservation.orderId then .error .invalidWatermark
      else if state.reservations.any fun reservation =>
          !(state.accounts.any fun account => account.id = reservation.accountId) then
        .error .unknownAccount
      else validateAccounts state.reservations state.accounts

namespace RiskEngine

variable {A R : Nat}

/-! ### Export -/

/-- A reservation without its back-pointer. -/
def exportReservation (reservation : Reservation) : ReservationRiskState :=
  ⟨reservation.orderId, reservation.accountId, reservation.side, reservation.quantity⟩

/-- The state of an engine: its occupied records, sorted by key. -/
def exportState (engine : RiskEngine A R) : RiskEngineState where
  accounts := sortByKey (fun account => account.id.val) engine.registeredAccounts
  reservations := sortByKey (fun reservation => reservation.orderId.val)
    (engine.liveReservations.map exportReservation)
  maximumOrderId := engine.maximumOrderId
  killed := engine.killed

/-! ### Restore -/

/-- Stores the accounts from `slot` on and indexes them. -/
def restoreAccounts : List AccountRiskState → (slot : Nat) → RiskEngine A R →
    Except RiskStateError (RiskEngine A R)
  | [], _, engine => .ok engine
  | account :: rest, slot, engine =>
      match engine.accountIndex.insert (accountKey account.id) slot with
      | .error .full => .error .accountCapacity
      | .error .duplicate => .error .duplicateAccount
      | .ok (_, index) =>
          restoreAccounts rest (slot + 1) ({ engine with accountIndex := index }.setAccount slot account)

/-- Stores the reservations from `slot` on and indexes them. -/
def restoreReservations : List ReservationRiskState → (slot : Nat) → RiskEngine A R →
    Except RiskStateError (RiskEngine A R)
  | [], _, engine => .ok engine
  | reservation :: rest, slot, engine =>
      match engine.reservationIndex.insert reservation.orderId slot with
      | .error .full => .error .reservationCapacity
      | .error .duplicate => .error .duplicateOrder
      | .ok (indexSlot, index) =>
          restoreReservations rest (slot + 1)
            ({ engine with reservationIndex := index }.setReservation slot
              { orderId := reservation.orderId
                accountId := reservation.accountId
                indexSlot := indexSlot
                side := reservation.side
                quantity := reservation.quantity })

/-- Rewrites the slots from `first` on as the free list. -/
def restoreFree (engine : RiskEngine A R) (first : Nat) : RiskEngine A R :=
  { engine with
    reservationFreeHead := if first = R then none else some first
    reservations := (List.range' first (R - first)).foldl
      (fun slots slot => setSlot slots slot (.free (if slot + 1 < R then some (slot + 1) else none)))
      engine.reservations }

/-- Rebuilds risk state from logical records without retaining storage slots or
index positions. -/
def fromState (state : RiskEngineState) : Except RiskStateError (RiskEngine A R) := do
  validateRiskState A R state
  let engine : RiskEngine A R :=
    { RiskEngine.new with killed := state.killed, maximumOrderId := state.maximumOrderId }
  let engine ← restoreAccounts state.accounts 0 engine
  let engine ← restoreReservations state.reservations 0 engine
  pure (engine.restoreFree state.reservations.length)

end RiskEngine

end HftEngine
