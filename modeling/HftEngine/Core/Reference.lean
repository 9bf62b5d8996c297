/-
Module: HftEngine.Core.Reference
Layer: Core
Purpose: The independent reference book used by the property tests: unsorted
  vectors of levels with dense FIFO queues. `none` stands for a panic.
Imports: HftEngine.Core.Book
Trusted boundary: translates `ModelBook` and `dump_model` of the crate
  `hft-model`
Main exports: ModelOrder, ModelFill, ModelBook, ModelBook.submit,
  ModelBook.replace, ModelBook.cancel, dumpModel
-/
import HftEngine.Core.Book

namespace HftEngine

open Machine

/-- A resting order of the reference book. -/
structure ModelOrder where
  id : U64
  account : U32
  quantity : U64
  sequence : U64
deriving DecidableEq, Repr

/-- The levels of one side in no particular order, each with its queue, first
come first. -/
abbrev ModelLevels := List (I64 × List ModelOrder)

/-- One fill of a reference match: maker identity, trade price, traded
amount. -/
structure ModelFill where
  makerOrderId : OrderId
  price : PriceTicks
  quantity : Quantity
deriving DecidableEq, Repr

/-- The reference book. Prices are found by scanning, and no level is empty
between calls. -/
structure ModelBook where
  bids : ModelLevels
  asks : ModelLevels
deriving DecidableEq, Repr

/-- What `submit` reports: state, filled, resting and discarded quantities, and
the fills. -/
structure ModelSummary where
  state : OrderState
  filled : Quantity
  resting : Quantity
  discarded : Quantity
  fills : List ModelFill
deriving DecidableEq, Repr

namespace ModelBook

/-- A book without orders. -/
def empty : ModelBook := ⟨[], []⟩

/-- The levels of a side. -/
def levels (model : ModelBook) : Side → ModelLevels
  | .buy => model.bids
  | .sell => model.asks

/-- The book with the levels of one side replaced. -/
def setLevels (model : ModelBook) (side : Side) (levels : ModelLevels) : ModelBook :=
  match side with
  | .buy => { model with bids := levels }
  | .sell => { model with asks := levels }

/-! ### Submitting -/

/-- The filter of a plan: an opposing price within the limit of the order. The
reference book has its own test, not the order book's. -/
def withinLimit (side : Side) (limit price : I64) : Bool :=
  match side with
  | .buy => decide (price.val ≤ limit.val)
  | .sell => decide (limit.val ≤ price.val)

/-- Prices of the opposing levels that cross, best first: ascending, reversed
for a sell. -/
def crossingPrices (model : ModelBook) (order : NewOrder) : List I64 :=
  let crossing := ((model.levels order.side.opposite).map Prod.fst).filter (withinLimit order.side order.price)
  let sorted := crossing.insertionSort fun first second => first.val ≤ second.val
  if order.side = .sell then sorted.reverse else sorted

/-- The inner simulation loop; the flag says that `break 'simulate` was
taken. -/
def simulateQueue : List ModelOrder → (remaining : U64) → (count : Nat) → U64 × Nat × Bool
  | [], remaining, count => (remaining, count, false)
  | maker :: rest, remaining, count =>
      if remaining.val = 0 then (remaining, count, true)
      else simulateQueue rest (satSub remaining (minWord remaining maker.quantity)) (count + 1)

/-- Simulates the match: what remains unfilled and how many fills it takes. -/
def simulate (levels : ModelLevels) : List I64 → (remaining : U64) → (count : Nat) → Option (U64 × Nat)
  | [], remaining, count => some (remaining, count)
  | price :: rest, remaining, count => do
      let (_, queue) ← levels.find? fun level => level.1 = price
      let (remaining, count, stop) := simulateQueue queue remaining count
      if stop then pure (remaining, count) else simulate levels rest remaining count

/-- The checks on an unfilled remainder, by time in force. -/
def remainderCheck (own : ModelLevels) (order : NewOrder) (remaining : U64) (levelCap orderCap : Nat) :
    Except RejectReason Unit :=
  match order.timeInForce with
  | .fok => if 0 < remaining.val then .error .insufficientLiquidity else .ok ()
  | .ioc => .ok ()
  | .gtc | .postOnly =>
      if 0 < remaining.val then
        match own.find? fun level => level.1 = order.price with
        | some (_, queue) =>
            if queue.length = orderCap then .error .priceLevelOrderCapacity else .ok ()
        | none => if own.length = levelCap then .error .priceLevelCapacity else .ok ()
      else .ok ()

/-- Validation and preflight; mirrors atomic book rejection. Returns the
crossing prices. -/
def plan (model : ModelBook) (order : NewOrder) (reportCapacity levelCap orderCap : Nat) :
    Option (Except RejectReason (List I64)) :=
  if order.price.val ≤ 0 then some (.error .invalidPrice)
  else if order.quantity.val = 0 then some (.error .invalidQuantity)
  else if ((model.bids ++ model.asks).flatMap Prod.snd).any fun resting => resting.id = order.orderId then
    some (.error .duplicateOrderId)
  else
    let crossing := model.crossingPrices order
    if order.timeInForce = .postOnly ∧ ¬crossing.isEmpty then some (.error .postOnlyWouldTrade)
    else do
      let (remaining, count) ← simulate (model.levels order.side.opposite) crossing order.quantity 0
      if reportCapacity < count then pure (.error .reportCapacity)
      else
        match remainderCheck (model.levels order.side) order remaining levelCap orderCap with
        | .error reason => pure (.error reason)
        | .ok () => pure (.ok crossing)

/-- Fills from the front of one queue while something remains. -/
def fillQueue (price : I64) : List ModelOrder → (remaining : U64) → List ModelFill →
    U64 × List ModelOrder × List ModelFill
  | [], remaining, fills => (remaining, [], fills)
  | front :: rest, remaining, fills =>
      if remaining.val = 0 then (remaining, front :: rest, fills)
      else
        let traded := minWord remaining front.quantity
        let fills := fills ++ [⟨front.id, price, traded⟩]
        let remaining := satSub remaining traded
        let left := satSub front.quantity traded
        if left.val = 0 then fillQueue price rest remaining fills
        else (remaining, { front with quantity := left } :: rest, fills)

/-- Fills the crossing levels in order, removing a level whose queue
empties. -/
def fillLevels : List I64 → (remaining : U64) → ModelLevels → List ModelFill →
    Option (U64 × ModelLevels × List ModelFill)
  | [], remaining, levels, fills => some (remaining, levels, fills)
  | price :: rest, remaining, levels, fills =>
      if remaining.val = 0 then some (remaining, levels, fills)
      else do
        let position ← levels.findIdx? fun level => level.1 = price
        let (_, queue) ← levels[position]?
        let (remaining, queue, fills) := fillQueue price queue remaining fills
        let levels := if queue.isEmpty then levels.eraseIdx position else levels.set position (price, queue)
        fillLevels rest remaining levels fills

/-- Appends to the queue of a price, creating the level when there is none. -/
def pushBack (levels : ModelLevels) (price : I64) (resting : ModelOrder) : ModelLevels :=
  match levels.findIdx? fun level => level.1 = price with
  | some position => levels.modify position fun level => (level.1, level.2 ++ [resting])
  | none => levels ++ [(price, [resting])]

/-- The state a submission reports, decided by the reference book itself. -/
def stateOf (filled quantity : Quantity) : OrderState :=
  if filled = quantity then .filled
  else if filled.val = 0 then .accepted
  else .partiallyFilled

/-- Applies a planned submission. -/
def submit (model : ModelBook) (order : NewOrder) (reportCapacity levelCap orderCap : Nat) :
    Option (Except RejectReason ModelSummary × ModelBook) :=
  match model.plan order reportCapacity levelCap orderCap with
  | none => none
  | some (.error reason) => some (.error reason, model)
  | some (.ok crossing) => do
      let (remaining, makers, fills) ←
        fillLevels crossing order.quantity (model.levels order.side.opposite) []
      let model := model.setLevels order.side.opposite makers
      let rests := 0 < remaining.val ∧ (order.timeInForce = .gtc ∨ order.timeInForce = .postOnly)
      let model := if rests then
          model.setLevels order.side (pushBack (model.levels order.side) order.price
            ⟨order.orderId, order.accountId, remaining, order.sequence⟩)
        else model
      let (remaining, discarded) : U64 × U64 :=
        if ¬rests ∧ order.timeInForce = .ioc then (0, remaining) else (remaining, 0)
      let filled := satSub (satSub order.quantity remaining) discarded
      pure (.ok ⟨stateOf filled order.quantity, filled, remaining, discarded, fills⟩, model)

/-! ### Amending and cancelling -/

/-- Position of the level whose queue holds the id. -/
def findIn (levels : ModelLevels) (id : U64) : Option Nat :=
  levels.findIdx? fun level => level.2.any fun order => order.id = id

/-- Side and level position of an order, bids first. -/
def locate (model : ModelBook) (id : U64) : Option (Side × Nat) :=
  match findIn model.bids id with
  | some position => some (.buy, position)
  | none => (findIn model.asks id).map fun position => (.sell, position)

/-- Best opposing price: the least ask for a buy, the greatest bid for a
sell. -/
def bestOpposing (model : ModelBook) (side : Side) : Option I64 :=
  ((model.levels side.opposite).map Prod.fst).foldl (fun best price =>
    match best with
    | none => some price
    | some current =>
        match side with
        | .buy => if price.val < current.val then some price else some current
        | .sell => if current.val < price.val then some price else some current) none

/-- Whether an amend to `price` would trade against the best opposing price. -/
def wouldCross (side : Side) (price best : I64) : Bool :=
  if side = .buy then decide (best.val ≤ price.val) else decide (price.val ≤ best.val)

/-- Crossing and capacity checks of an amend that loses priority. -/
def replaceChecks (model : ModelBook) (replace : ReplaceOrder) (side : Side) (position : Nat)
    (levelPrice : I64) (sourceLength levelCap orderCap : Nat) : Option (Except RejectReason Unit) :=
  if replace.price ≠ levelPrice ∧ (model.bestOpposing side).any (wouldCross side replace.price) then
    some (.error .replaceWouldCross)
  else
    match (model.levels side).findIdx? fun level => level.1 = replace.price with
    | some destination => do
        let (_, queue) ← (model.levels side)[destination]?
        let sameLevel := destination = position ∧ replace.price = levelPrice
        if queue.length = orderCap ∧ ¬sameLevel then pure (.error .priceLevelOrderCapacity)
        else pure (.ok ())
    | none =>
        if (model.levels side).length = levelCap ∧ ¬sourceLength = 1 then
          some (.error .priceLevelCapacity)
        else some (.ok ())

/-- Same-price reductions keep priority; everything else removes and re-adds at
the destination tail. Returns the old quantity and whether priority was
lost. -/
def replace (model : ModelBook) (replace : ReplaceOrder) (levelCap orderCap : Nat) :
    Option (Except RejectReason (U64 × Bool) × ModelBook) :=
  if replace.price.val ≤ 0 then some (.error .invalidPrice, model)
  else if replace.quantity.val = 0 then some (.error .invalidQuantity, model)
  else
    match model.locate replace.orderId with
    | none => some (.error .unknownOrder, model)
    | some (side, position) => do
        let (levelPrice, queue) ← (model.levels side)[position]?
        let queuePosition ← queue.findIdx? fun order => order.id = replace.orderId
        let old ← queue[queuePosition]?
        if old.account ≠ replace.accountId then pure (.error .notOrderOwner, model)
        else if replace.price = levelPrice ∧ replace.quantity.val < old.quantity.val then
          let queue := queue.set queuePosition { old with quantity := replace.quantity }
          pure (.ok (old.quantity, false),
            model.setLevels side ((model.levels side).set position (levelPrice, queue)))
        else
          match ← model.replaceChecks replace side position levelPrice queue.length levelCap orderCap with
          | .error reason => pure (.error reason, model)
          | .ok () =>
              let queue := queue.eraseIdx queuePosition
              let levels := if queue.isEmpty then (model.levels side).eraseIdx position
                else (model.levels side).set position (levelPrice, queue)
              pure (.ok (old.quantity, true),
                model.setLevels side (pushBack levels replace.price
                  ⟨replace.orderId, replace.accountId, replace.quantity, replace.sequence⟩))

/-- Cancels in the first level that holds the id; `none` when no level does. -/
def cancelFrom (cancel : CancelOrder) : ModelLevels →
    Option (Except RejectReason (U64 × U32 × U64) × ModelLevels)
  | [] => none
  | (price, queue) :: rest =>
      match queue.findIdx? fun order => order.id = cancel.orderId with
      | none => (cancelFrom cancel rest).map fun (result, rest) => (result, (price, queue) :: rest)
      | some index =>
          match queue[index]? with
          | none => none
          | some order =>
              if order.account ≠ cancel.accountId then
                some (.error .notOrderOwner, (price, queue) :: rest)
              else
                let queue := queue.eraseIdx index
                some (.ok (order.id, order.account, order.quantity),
                  if queue.isEmpty then rest else (price, queue) :: rest)

/-- Cancels by id, enforcing ownership. -/
def cancel (model : ModelBook) (cancel : CancelOrder) :
    Except RejectReason (U64 × U32 × U64) × ModelBook :=
  match cancelFrom cancel model.bids with
  | some (result, bids) => (result, { model with bids := bids })
  | none =>
      match cancelFrom cancel model.asks with
      | some (result, asks) => (result, { model with asks := asks })
      | none => (.error .unknownOrder, model)

end ModelBook

/-! ### Resting state -/

/-- The levels of a side by ascending price, each looked up again by its
price. -/
def sortedLevels (levels : ModelLevels) : ModelLevels :=
  ((levels.map Prod.fst).insertionSort fun first second => first.val ≤ second.val).filterMap
    fun price => levels.find? fun level => level.1 = price

/-- The rows of one side of a dump, one for every resting order. -/
def dumpLevels (side : Side) (levels : ModelLevels) : List (Side × I64 × U64 × U64 × U64) :=
  (sortedLevels levels).flatMap fun level =>
    level.2.map fun order => (side, level.1, order.id, order.quantity, order.sequence)

/-- Bids then asks, prices ascending within a side, FIFO within a level. -/
def dumpModel (model : ModelBook) : List (Side × I64 × U64 × U64 × U64) :=
  dumpLevels .buy model.bids ++ dumpLevels .sell model.asks

end HftEngine
