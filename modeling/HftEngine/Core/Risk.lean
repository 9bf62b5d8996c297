/-
Module: HftEngine.Core.Risk
Layer: Core
Purpose: The pre-trade risk engine: accounts with limits, exposure totals and
  kill switches, and one reservation per open order in stable slots behind an
  open-addressed index. Operations pass the engine state explicitly and return
  it with their result; `none` stands for a panic of the source.
Imports: HftEngine.Core.Level
Trusted boundary: translates `RiskEngine` of the crate `hft-risk`, its state
  export and digest apart
Main exports: RiskLimits, AccountState, Reservation, RiskEngine,
  evaluateLimits, exposureAfterFill, RiskEngine.checkAndReserve,
  RiskEngine.settle, RiskEngine.recordFill, RiskEngine.adjustReservation,
  RiskEngine.restoreReservation, RiskEngine.cancelReservation
-/
import HftEngine.Core.Level

namespace HftEngine

open Machine SlotArena

/-- What one account may do: the size of an order, its notional, the worst
position, the number of open orders, and the price collar. -/
structure RiskLimits where
  maxQuantity : Quantity
  maxNotional : U128
  maxAbsPosition : Quantity
  maxOpenOrders : U32
  minimumPrice : PriceTicks
  maximumPrice : PriceTicks
deriving DecidableEq, Repr

/-- Why an account was not registered. -/
inductive RegistrationError where
  | duplicateAccount
  | accountCapacity
  | invalidLimits
deriving DecidableEq, Repr

/-- One account record. The engine's record and its exported form have the same
fields. -/
structure AccountState where
  id : AccountId
  limits : RiskLimits
  settledPosition : I128
  reservedBuys : U128
  reservedSells : U128
  openOrders : U32
  killed : Bool
deriving DecidableEq, Repr

/-- What is still open of an order, in the ledger. `indexSlot` is the
back-pointer to the cell of the order index. -/
structure Reservation where
  orderId : OrderId
  accountId : AccountId
  indexSlot : U32
  side : Side
  quantity : Quantity
deriving DecidableEq, Repr

/-! ### Open-addressed indices of the risk engine -/

/-- Each index has twice as many cells as there are records. -/
def indexPlanes : Nat := 2

/-- Two planes per index keep the load factor at or below one half. Stored
handles are `slot + 1`. -/
abbrev ProbeIndex (plane planes : Nat) := OpenAddressing.Table U64 Nat (plane * planes)

namespace ProbeIndex

variable {plane planes : Nat}

/-- An index nobody is in. -/
def new : ProbeIndex plane planes := OpenAddressing.emptyTable

/-- The record a key was stored with. Handles are stored one up, so that zero
stays free for a cell without a record. -/
def lookup (index : ProbeIndex plane planes) (key : U64) : Option Nat :=
  (OpenAddressing.lookup (probeStart (plane * planes)) index key).map (· - 1)

/-- Stores the position of a record under a key and says in which cell. -/
def insert (index : ProbeIndex plane planes) (key : U64) (value : Nat) :
    Except OpenAddressing.InsertError (U32 × ProbeIndex plane planes) :=
  OpenAddressing.insert (probeStart (plane * planes)) indexLimit index key (value + 1)

/-- `insert` of an arbitrary word. The engine stores positions of its arrays,
whose successor is always a word; the successor of the largest word is
refused. -/
def insertWord (index : ProbeIndex plane planes) (key : U64) (value : Nat) :
    Except OpenAddressing.InsertError (U32 × ProbeIndex plane planes) :=
  if value + 1 < 2 ^ 64 then index.insert key value else .error .full

/-- Empties the cell a back-pointer names, closes the gap behind it, and says
which entries moved. -/
def removeAt (index : ProbeIndex plane planes) (flatIndex : U32) (key : U64) :
    Option (Option Nat × ProbeIndex plane planes × List (OpenAddressing.Move U64 Nat indexLimit)) :=
  OpenAddressing.removeAt (probeStart (plane * planes)) indexLimit (fun value => some (value - 1)) index
    flatIndex key

end ProbeIndex

/-! ### Limit evaluation -/

/-- `ok_or(RejectReason::ArithmeticOverflow)`. -/
def orOverflow {α : Type} : Option α → Except RejectReason α
  | some value => .ok value
  | none => .error .arithmeticOverflow

/-- Absolute price times quantity, in 128 bits. -/
def notionalOf (price : PriceTicks) (quantity : Quantity) : Except RejectReason U128 := do
  let absolute ← orOverflow (checkedAbs price)
  let absolute ← orOverflow (unsignedOf (2 ^ 64) absolute)
  orOverflow (checkedMul (u128OfU64 absolute) (u128OfU64 quantity))

/-- The reserved totals of an account with `added` more on one side. -/
def addReserved (account : AccountState) (side : Side) (added : Quantity) :
    Except RejectReason (U128 × U128) :=
  match side with
  | .buy => do
      let buys ← orOverflow (checkedAdd account.reservedBuys (u128OfU64 added))
      pure (buys, account.reservedSells)
  | .sell => do
      let sells ← orOverflow (checkedAdd account.reservedSells (u128OfU64 added))
      pure (account.reservedBuys, sells)

/-- The reserved totals of an account with `released` less on one side. -/
def subReserved (account : AccountState) (side : Side) (released : Quantity) :
    Except RejectReason (U128 × U128) :=
  match side with
  | .buy => do
      let buys ← orOverflow (checkedSub account.reservedBuys (u128OfU64 released))
      pure (buys, account.reservedSells)
  | .sell => do
      let sells ← orOverflow (checkedSub account.reservedSells (u128OfU64 released))
      pure (account.reservedBuys, sells)

/-- Worst-case long and short positions must stay within the account's
limit. -/
def checkPosition (account : AccountState) (reservedBuys reservedSells : U128) :
    Except RejectReason Unit := do
  let buys ← orOverflow (i128OfU128 reservedBuys)
  let worstLong ← orOverflow (checkedAddSigned account.settledPosition buys)
  let sells ← orOverflow (i128OfU128 reservedSells)
  let worstShort ← orOverflow (checkedSubSigned account.settledPosition sells)
  let maximum : Int := account.limits.maxAbsPosition.val
  if worstLong.val > maximum ∨ worstShort.val < -maximum then .error .positionLimit else .ok ()

/-- Pure limit evaluation for one order against one account. Returns the
post-reservation totals. -/
def evaluateLimits (account : AccountState) (order : NewOrder) :
    Except RejectReason (U128 × U128 × U32) :=
  if account.killed then .error .killSwitch
  else if account.limits.maxQuantity.val < order.quantity.val then .error .quantityLimit
  else if order.price.val < account.limits.minimumPrice.val ∨
      account.limits.maximumPrice.val < order.price.val then .error .priceCollar
  else do
    let notional ← notionalOf order.price order.quantity
    if account.limits.maxNotional.val < notional.val then .error .notionalLimit
    else
      let (reservedBuys, reservedSells) ← addReserved account order.side order.quantity
      checkPosition account reservedBuys reservedSells
      let openOrders ← orOverflow (checkedAdd account.openOrders 1)
      if account.limits.maxOpenOrders.val < openOrders.val then .error .openOrderLimit
      else .ok (reservedBuys, reservedSells, openOrders)

/-- Post-fill account totals for one reservation side: `filled` becomes settled
position and `released` leaves the reserved total. -/
def exposureAfterFill (account : AccountState) (side : Side) (filled released : Quantity) :
    Except RejectReason (I128 × U128 × U128) := do
  let settledPosition ← orOverflow (match side with
    | .buy => checkedAddSigned account.settledPosition (i128OfU64 filled)
    | .sell => checkedSubSigned account.settledPosition (i128OfU64 filled))
  let (reservedBuys, reservedSells) ← subReserved account side released
  pure (settledPosition, reservedBuys, reservedSells)

/-! ### The engine -/

/-- Fixed-capacity risk state for `A` accounts and `R` open orders. -/
structure RiskEngine (A R : Nat) where
  accounts : Vector (Option AccountState) A
  accountIndex : ProbeIndex A indexPlanes
  reservations : Vector (Slot Reservation) R
  reservationFreeHead : Option Nat
  reservationIndex : ProbeIndex R indexPlanes
  maximumOrderId : Option OrderId
  killed : Bool
deriving DecidableEq

namespace RiskEngine

variable {A R : Nat}

/-- An engine without accounts and reservations. No kill switch is set. -/
def new : RiskEngine A R where
  accounts := Vector.replicate A none
  accountIndex := ProbeIndex.new
  reservations := freshSlots R
  reservationFreeHead := if 0 < R then some 0 else none
  reservationIndex := ProbeIndex.new
  maximumOrderId := none
  killed := false

def accountKey (id : AccountId) : U64 := widen u32_le_u64 id

/-- The array position of an account. -/
def accountSlot (engine : RiskEngine A R) (id : AccountId) : Option Nat :=
  engine.accountIndex.lookup (accountKey id)

/-- An indexed account with its storage slot. -/
def findAccount (engine : RiskEngine A R) (id : AccountId) :
    Option (Except RejectReason (Nat × AccountState)) :=
  match engine.accountSlot id with
  | none => some (.error .unknownAccount)
  | some slot =>
      match engine.accounts[slot]? with
      | none => none
      | some none => some (.error .unknownAccount)
      | some (some account) => some (.ok (slot, account))

/-- The reservation of an order with the slot it stands in. -/
def liveReservation (engine : RiskEngine A R) (orderId : OrderId) : Option (Nat × Reservation) := do
  let slot ← engine.reservationIndex.lookup orderId
  let reservation ← liveAt engine.reservations slot
  if reservation.orderId ≠ orderId then none else pure (slot, reservation)

/-- Writes one account record; the index is left alone. -/
def setAccount (engine : RiskEngine A R) (slot : Nat) (account : AccountState) : RiskEngine A R :=
  { engine with accounts := engine.accounts.setIfInBounds slot (some account) }

/-- Writes one reservation record in place; the free list and the index are
left alone. -/
def setReservation (engine : RiskEngine A R) (slot : Nat) (reservation : Reservation) :
    RiskEngine A R :=
  { engine with reservations := setSlot engine.reservations slot (.live reservation) }

/-- The callback of an index removal: stores the new index slot of a relocated
reservation. -/
def updateMoved (reservations : Vector (Slot Reservation) R)
    (move : OpenAddressing.Move U64 Nat indexLimit) : Vector (Slot Reservation) R :=
  match liveAt reservations move.value with
  | none => reservations
  | some moved =>
      if moved.orderId ≠ move.key then reservations
      else setSlot reservations move.value (.live { moved with indexSlot := move.slot })

/-- Removes a live reservation from the index and returns its slot to the free
list. -/
def releaseReservation (engine : RiskEngine A R) (slot : Nat) (reservation : Reservation) :
    Option (RiskEngine A R) := do
  let (_, index, moves) ← engine.reservationIndex.removeAt reservation.indexSlot reservation.orderId
  pure { engine with
    reservationIndex := index
    reservations :=
      setSlot (moves.foldl updateMoved engine.reservations) slot (.free engine.reservationFreeHead)
    reservationFreeHead := some slot }

/-- Limits that no account may be registered with. -/
def invalidLimits (limits : RiskLimits) : Bool :=
  limits.maxQuantity.val = 0 || limits.maxOpenOrders.val = 0 ||
    limits.maximumPrice.val < limits.minimumPrice.val

/-- Enters an account once. The limits have to be consistent in themselves. -/
def registerAccount (engine : RiskEngine A R) (id : AccountId) (limits : RiskLimits) :
    Except RegistrationError Unit × RiskEngine A R :=
  if invalidLimits limits then (.error .invalidLimits, engine)
  else if (engine.accountSlot id).isSome then (.error .duplicateAccount, engine)
  else
    match engine.accounts.toList.findIdx? Option.isNone with
    | none => (.error .accountCapacity, engine)
    | some slot =>
        match engine.accountIndex.insert (accountKey id) slot with
        | .error .full => (.error .accountCapacity, engine)
        | .error .duplicate => (.error .duplicateAccount, engine)
        | .ok (_, index) =>
            (.ok (), { engine with accountIndex := index }.setAccount slot
              { id := id
                limits := limits
                settledPosition := i128Zero
                reservedBuys := 0
                reservedSells := 0
                openOrders := 0
                killed := false })

/-- Sets or clears the switch that stops every new order. -/
def setKillSwitch (engine : RiskEngine A R) (killed : Bool) : RiskEngine A R :=
  { engine with killed := killed }

/-- Sets or clears the switch of one account. -/
def setAccountKillSwitch (engine : RiskEngine A R) (accountId : AccountId) (killed : Bool) :
    Option (Except RejectReason Unit × RiskEngine A R) :=
  match engine.findAccount accountId with
  | none => none
  | some (.error reason) => some (.error reason, engine)
  | some (.ok (slot, account)) => some (.ok (), engine.setAccount slot { account with killed := killed })

/-- Admits a new order: the kill switches, the limits of the account, then a
reservation of the whole quantity. A refusal leaves the engine as it was. -/
def checkAndReserve (engine : RiskEngine A R) (order : NewOrder) :
    Option (Except RejectReason Unit × RiskEngine A R) :=
  if engine.killed then some (.error .killSwitch, engine)
  else if order.quantity.val = 0 then some (.error .invalidQuantity, engine)
  else if engine.maximumOrderId.any fun maximum => order.orderId.val ≤ maximum.val then
    some (.error .duplicateOrderId, engine)
  else
    match engine.reservationFreeHead with
    | none => some (.error .orderCapacity, engine)
    | some slot =>
        match engine.findAccount order.accountId with
        | none => none
        | some (.error reason) => some (.error reason, engine)
        | some (.ok (accountSlot, account)) =>
            match evaluateLimits account order with
            | .error reason => some (.error reason, engine)
            | .ok (reservedBuys, reservedSells, openOrders) =>
                match freeAt engine.reservations slot with
                | none => some (.error .arithmeticOverflow, engine)
                | some nextFree =>
                    match engine.reservationIndex.insert order.orderId slot with
                    | .error .full => some (.error .orderCapacity, engine)
                    | .error .duplicate => some (.error .arithmeticOverflow, engine)
                    | .ok (indexSlot, index) =>
                        let engine := engine.setAccount accountSlot
                          { account with
                            reservedBuys := reservedBuys
                            reservedSells := reservedSells
                            openOrders := openOrders }
                        let engine := engine.setReservation slot
                          { orderId := order.orderId
                            accountId := order.accountId
                            indexSlot := indexSlot
                            side := order.side
                            quantity := order.quantity }
                        some (.ok (), { engine with
                          reservationFreeHead := nextFree
                          reservationIndex := index
                          maximumOrderId := some order.orderId })

/-- Settles a located reservation: the filled quantity becomes settled position
and the full remaining reservation is released. -/
def settleReservation (engine : RiskEngine A R) (slot : Nat) (reservation : Reservation)
    (filledQuantity : Quantity) : Option (Except RejectReason Unit × RiskEngine A R) :=
  match engine.findAccount reservation.accountId with
  | none => none
  | some (.error reason) => some (.error reason, engine)
  | some (.ok (accountSlot, account)) =>
      match exposureAfterFill account reservation.side filledQuantity reservation.quantity with
      | .error reason => some (.error reason, engine)
      | .ok (settledPosition, reservedBuys, reservedSells) =>
          match checkedSub account.openOrders 1 with
          | none => some (.error .arithmeticOverflow, engine)
          | some openOrders => do
              let engine ← (engine.setAccount accountSlot
                { account with
                  settledPosition := settledPosition
                  reservedBuys := reservedBuys
                  reservedSells := reservedSells
                  openOrders := openOrders }).releaseReservation slot reservation
              pure (.ok (), engine)

/-- Ends a reservation with some of it filled and the rest released, in one
step. -/
def settle (engine : RiskEngine A R) (orderId : OrderId) (filledQuantity : Quantity) :
    Option (Except RejectReason Unit × RiskEngine A R) :=
  match engine.liveReservation orderId with
  | none => some (.error .unknownOrder, engine)
  | some (slot, reservation) =>
      if reservation.quantity.val < filledQuantity.val then some (.error .invalidQuantity, engine)
      else engine.settleReservation slot reservation filledQuantity

/-- Open orders after a fill that leaves `left` of the reservation. -/
def openOrdersAfter (account : AccountState) (left : Quantity) : Except RejectReason U32 :=
  if left.val = 0 then orOverflow (checkedSub account.openOrders 1) else .ok account.openOrders

/-- Applies a fill: reserved quantity becomes position, and a fully filled
reservation is closed. -/
def recordFill (engine : RiskEngine A R) (orderId : OrderId) (filledQuantity : Quantity) :
    Option (Except RejectReason Unit × RiskEngine A R) :=
  if filledQuantity.val = 0 then some (.error .invalidQuantity, engine)
  else
    match engine.liveReservation orderId with
    | none => some (.error .unknownOrder, engine)
    | some (slot, reservation) =>
        match checkedSub reservation.quantity filledQuantity with
        | none => some (.error .invalidQuantity, engine)
        | some left =>
            match engine.findAccount reservation.accountId with
            | none => none
            | some (.error reason) => some (.error reason, engine)
            | some (.ok (accountSlot, account)) =>
                match exposureAfterFill account reservation.side filledQuantity filledQuantity with
                | .error reason => some (.error reason, engine)
                | .ok (settledPosition, reservedBuys, reservedSells) =>
                    match openOrdersAfter account left with
                    | .error reason => some (.error reason, engine)
                    | .ok openOrders =>
                        let engine := engine.setAccount accountSlot
                          { account with
                            settledPosition := settledPosition
                            reservedBuys := reservedBuys
                            reservedSells := reservedSells
                            openOrders := openOrders }
                        if left.val = 0 then do
                          let engine ← engine.releaseReservation slot { reservation with quantity := left }
                          pure (.ok (), engine)
                        else
                          some (.ok (), engine.setReservation slot { reservation with quantity := left })

/-- The reserved totals of an account whose reservation of `current` is
amended. Increases re-check notional and position at the new total; decreases
release exposure. -/
def amendedTotals (account : AccountState) (side : Side) (current : Quantity) (price : PriceTicks)
    (newQuantity : Quantity) : Except RejectReason (U128 × U128) :=
  if current.val < newQuantity.val then do
    let (reservedBuys, reservedSells) ← addReserved account side (satSub newQuantity current)
    let notional ← notionalOf price newQuantity
    if account.limits.maxNotional.val < notional.val then .error .notionalLimit
    else
      checkPosition account reservedBuys reservedSells
      pure (reservedBuys, reservedSells)
  else subReserved account side (satSub current newQuantity)

/-- Amends an owned reservation's total quantity. Returns the released amount
and the prior quantity. -/
def adjustReservation (engine : RiskEngine A R) (orderId : OrderId) (accountId : AccountId)
    (price : PriceTicks) (newQuantity : Quantity) :
    Option (Except RejectReason (Quantity × Quantity) × RiskEngine A R) :=
  match engine.liveReservation orderId with
  | none => some (.error .unknownOrder, engine)
  | some (slot, reservation) =>
      if reservation.accountId ≠ accountId then some (.error .notOrderOwner, engine)
      else if newQuantity = reservation.quantity then some (.ok (0, reservation.quantity), engine)
      else
        match engine.findAccount accountId with
        | none => none
        | some (.error reason) => some (.error reason, engine)
        | some (.ok (accountSlot, account)) =>
            match amendedTotals account reservation.side reservation.quantity price newQuantity with
            | .error reason => some (.error reason, engine)
            | .ok (reservedBuys, reservedSells) =>
                let engine := engine.setAccount accountSlot
                  { account with reservedBuys := reservedBuys, reservedSells := reservedSells }
                some (.ok (satSub reservation.quantity newQuantity, reservation.quantity),
                  engine.setReservation slot { reservation with quantity := newQuantity })

/-- The reserved totals of an account whose reservation of `current` returns to
`priorQuantity`. -/
def restoredTotals (account : AccountState) (side : Side) (current priorQuantity : Quantity) :
    Except RejectReason (U128 × U128) :=
  if current.val < priorQuantity.val then addReserved account side (satSub priorQuantity current)
  else subReserved account side (satSub current priorQuantity)

/-- Restores a reservation's total quantity unconditionally after a rolled-back
book mutation. -/
def restoreReservation (engine : RiskEngine A R) (orderId : OrderId) (accountId : AccountId)
    (priorQuantity : Quantity) : Option (Except RejectReason Unit × RiskEngine A R) :=
  match engine.liveReservation orderId with
  | none => some (.error .unknownOrder, engine)
  | some (slot, reservation) =>
      if reservation.accountId ≠ accountId then some (.error .notOrderOwner, engine)
      else if reservation.quantity = priorQuantity then some (.ok (), engine)
      else
        match engine.findAccount accountId with
        | none => none
        | some (.error reason) => some (.error reason, engine)
        | some (.ok (accountSlot, account)) =>
            match restoredTotals account reservation.side reservation.quantity priorQuantity with
            | .error reason => some (.error reason, engine)
            | .ok (reservedBuys, reservedSells) =>
                let engine := engine.setAccount accountSlot
                  { account with reservedBuys := reservedBuys, reservedSells := reservedSells }
                some (.ok (), engine.setReservation slot { reservation with quantity := priorQuantity })

/-- Validates ownership of an open reservation without mutation. -/
def canCancel (engine : RiskEngine A R) (orderId : OrderId) (accountId : AccountId) :
    Except RejectReason Unit :=
  match engine.liveReservation orderId with
  | none => .error .unknownOrder
  | some (_, reservation) =>
      if reservation.accountId ≠ accountId then .error .notOrderOwner else .ok ()

/-- Releases the full remaining reservation for an owned canceled order. -/
def cancelReservation (engine : RiskEngine A R) (orderId : OrderId) (accountId : AccountId) :
    Option (Except RejectReason Quantity × RiskEngine A R) :=
  match engine.liveReservation orderId with
  | none => some (.error .unknownOrder, engine)
  | some (slot, reservation) =>
      if reservation.accountId ≠ accountId then some (.error .notOrderOwner, engine)
      else
        match engine.settleReservation slot reservation 0 with
        | none => none
        | some (.error reason, engine) => some (.error reason, engine)
        | some (.ok (), engine) => some (.ok reservation.quantity, engine)

/-- Projected position and open-order count of one account. -/
def accountSnapshot (engine : RiskEngine A R) (id : AccountId) : Option (I128 × U32) := do
  let slot ← engine.accountSlot id
  let account ← engine.accounts[slot]?.join
  let buys ← i128OfU128 account.reservedBuys
  let sells ← i128OfU128 account.reservedSells
  let long ← checkedAddSigned account.settledPosition buys
  let projected ← checkedSubSigned long sells
  pure (projected, account.openOrders)

/-- The live reservations in storage order. -/
def liveReservations (engine : RiskEngine A R) : List Reservation :=
  engine.reservations.toList.filterMap fun slot =>
    match slot with
    | .live reservation => some reservation
    | .free _ => none

/-- The registered accounts in storage order. -/
def registeredAccounts (engine : RiskEngine A R) : List AccountState :=
  engine.accounts.toList.filterMap fun account => account

end RiskEngine

end HftEngine
