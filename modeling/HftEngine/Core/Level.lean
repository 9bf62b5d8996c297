/-
Module: HftEngine.Core.Level
Layer: Core
Purpose: One price level of the book, the sorted index of occupied levels and
  the order-id index. A level keeps its orders in stable slots threaded into a
  FIFO; the level index keeps one side's prices in priority order with the pool
  of unused level slots; the order index is an open-addressed map from order
  ids to encoded locations.
Imports: HftEngine.Core.Types, HftEngine.Lib.OpenAddressing,
  HftEngine.Lib.SlotArena
Trusted boundary: translates `PriceLevel`, `LevelIndex` and `OrderIndex` of the
  crate `hft-book`
Main exports: RestingOrder, PriceLevel, LevelIndex, OrderLocation, OrderIndex
-/
import HftEngine.Core.Types
import HftEngine.Lib.OpenAddressing
import HftEngine.Lib.SlotArena

namespace HftEngine

open Machine SlotArena

/-- A resting order. Its price belongs to the containing level; `none` links
stand for `NIL`. -/
structure RestingOrder where
  id : OrderId
  accountId : AccountId
  indexSlot : U32
  quantity : Quantity
  sequence : SequenceNumber
  prev : Option Nat
  next : Option Nat
deriving DecidableEq, Repr

/-- A slot of a level: a live order, or a link of the free list. -/
abbrev OrderSlot := Slot RestingOrder

/-- A price level with `O` order slots. The aggregate is a sum of at most `O`
64-bit quantities, which the source keeps in 128 bits. -/
structure PriceLevel (O : Nat) where
  price : PriceTicks
  aggregateQuantity : Nat
  slots : Vector OrderSlot O
  head : Option Nat
  tail : Option Nat
  freeHead : Option Nat
  len : Nat
deriving DecidableEq, Repr

namespace PriceLevel

variable {O : Nat}

/-- An empty level. Its slots are chained from the first to the last. -/
def new (price : PriceTicks) : PriceLevel O where
  price := price
  aggregateQuantity := 0
  slots := freshSlots O
  head := none
  tail := none
  freeHead := if 0 < O then some 0 else none
  len := 0

/-- The live order of a slot. -/
def getLive (level : PriceLevel O) (slot : Nat) : Option RestingOrder := liveAt level.slots slot

/-- Points the current tail at a new slot; `none` when the tail link is
corrupt. -/
def linkTail (level : PriceLevel O) (slot : Nat) : Option (Vector OrderSlot O) :=
  match level.tail with
  | none => some level.slots
  | some tail =>
      match level.getLive tail with
      | some order => some (setSlot level.slots tail (.live { order with next := some slot }))
      | none => none

/-- Appends at the tail and returns the stable slot handle, or `none` when the
level is full or its links are corrupt. -/
def pushTail (level : PriceLevel O) (order : RestingOrder) : Option (Nat × PriceLevel O) := do
  let slot ← level.freeHead
  if O ≤ level.len then
    none
  else
    let nextFree ← freeAt level.slots slot
    let linked ← level.linkTail slot
    pure (slot,
      { level with
        slots := setSlot linked slot (.live { order with prev := level.tail, next := none })
        freeHead := nextFree
        head := if level.tail.isNone then some slot else level.head
        tail := some slot
        len := level.len + 1
        aggregateQuantity := level.aggregateQuantity + order.quantity.val })

/-- A neighbour link that does not lead to a live slot. -/
def danglingLink (level : PriceLevel O) (link : Option Nat) : Bool :=
  link.any fun slot => (level.getLive slot).isNone

/-- Detaches a live slot and returns it to the free list. Stale or free handles
fail closed. -/
def unlink (level : PriceLevel O) (slot : Nat) : Option (RestingOrder × PriceLevel O) := do
  let order ← level.getLive slot
  if level.danglingLink order.prev || level.danglingLink order.next then
    none
  else
    let len ← guardedSub level.len 1
    let aggregateQuantity ← guardedSub level.aggregateQuantity order.quantity.val
    let slots := match order.prev with
      | none => level.slots
      | some prev => modifyLive level.slots prev fun o => { o with next := order.next }
    let slots := match order.next with
      | none => slots
      | some next => modifyLive slots next fun o => { o with prev := order.prev }
    pure (order,
      { level with
        slots := setSlot slots slot (.free level.freeHead)
        head := if order.prev.isNone then order.next else level.head
        tail := if order.next.isNone then order.prev else level.tail
        freeHead := some slot
        len := len
        aggregateQuantity := aggregateQuantity })

/-- Takes a traded quantity off an order and off the total of its level. -/
def reduceQuantity (level : PriceLevel O) (slot : Nat) (quantity : Quantity) :
    Option (PriceLevel O) := do
  let order ← level.getLive slot
  let left ← checkedSub order.quantity quantity
  let aggregateQuantity ← guardedSub level.aggregateQuantity quantity.val
  pure { level with
    slots := setSlot level.slots slot (.live { order with quantity := left })
    aggregateQuantity := aggregateQuantity }

/-- Records where the order index stores the order of a live slot. -/
def setIndexSlot (level : PriceLevel O) (slot : Nat) (indexSlot : U32) : PriceLevel O :=
  { level with slots := modifyLive level.slots slot fun o => { o with indexSlot := indexSlot } }

/-- The orders visited by `for_each_live`: the FIFO from the head on. A walk
longer than the number of slots would be a cycle. -/
def liveOrders (level : PriceLevel O) : List RestingOrder :=
  walk RestingOrder.next level.slots O level.head

end PriceLevel

/-! ### Sorted level index -/

/-- The occupied levels of one side in priority order, as `entries[..len]`, and
the pool of free level slots, as `free[..free_len]` with the top of the pool
first. -/
structure LevelIndex where
  entries : List (PriceTicks × Nat)
  free : List Nat
deriving DecidableEq, Repr

namespace LevelIndex

/-- A fresh pool hands out the lowest level slots first. -/
def new (L : Nat) : LevelIndex := ⟨[], List.range L⟩

/-- Whether every level slot of the side is in use. -/
def isFull (index : LevelIndex) : Bool := index.free.isEmpty

/-- Whether a listed price sorts strictly before `price`. -/
def precedes (descending : Bool) (price listed : PriceTicks) : Bool :=
  if descending then decide (price.val < listed.val) else decide (listed.val < price.val)

/-- Sorted position of `price`: the partition point of the listed prices and
whether an entry with that exact price occupies it. -/
def position (index : LevelIndex) (price : PriceTicks) (descending : Bool) : Nat × Bool :=
  let position := (index.entries.takeWhile fun entry => precedes descending price entry.1).length
  (position, index.entries[position]?.any fun entry => entry.1 = price)

/-- Level slot holding `price`, if one is occupied at that price. -/
def find (index : LevelIndex) (price : PriceTicks) (descending : Bool) : Option Nat :=
  let (position, found) := index.position price descending
  if found then index.entries[position]?.map Prod.snd else none

/-- Allocates a free level slot and indexes it at `price` in sorted order. -/
def insert (index : LevelIndex) (price : PriceTicks) (descending : Bool) : Option (Nat × LevelIndex) :=
  match index.free with
  | [] => none
  | levelIndex :: free =>
      let position := (index.position price descending).1
      some (levelIndex, ⟨index.entries.insertIdx position (price, levelIndex), free⟩)

/-- Removes the level at `price` and returns its slot to the free pool. -/
def remove (index : LevelIndex) (price : PriceTicks) (descending : Bool) : Option (Nat × LevelIndex) := do
  let (position, found) := index.position price descending
  if found then
    let (_, levelIndex) ← index.entries[position]?
    pure (levelIndex, ⟨index.entries.eraseIdx position, levelIndex :: index.free⟩)
  else
    none

end LevelIndex

/-! ### Order-id index -/

/-- Where an order is stored; `slot` is a stable per-level handle, never a FIFO
position. -/
structure OrderLocation where
  side : Side
  levelIndex : Nat
  slot : Nat
deriving DecidableEq, Repr

/-- The start of a key's probe path in a table of `capacity` cells: Fibonacci
hashing on 64 bits. -/
def probeStart (capacity : Nat) (key : U64) : Nat :=
  key.val * 0x9e3779b97f4a7c15 % 2 ^ 64 % capacity

/-- Cells are numbered by 32-bit handles. -/
abbrev indexLimit : Nat := 2 ^ 32

/-- The id index has four cells for every order slot of one side, so that it is
at most half full when both sides are. -/
def orderIndexPlanes : Nat := 4

/-- Both sides share one index: four planes keep the live load at or below one
half. An empty cell is the source's `IndexSlot::EMPTY`; the three nested array
dimensions are flattened. -/
abbrev OrderIndex (L O : Nat) := OpenAddressing.Table OrderId Nat (L * O * orderIndexPlanes)

namespace OrderIndex

variable {L O : Nat}

def new : OrderIndex L O := OpenAddressing.emptyTable

/-- The low bit selects the side. Adding one reserves zero for empty slots. -/
def encodeLocation (L O : Nat) (location : OrderLocation) : Option Nat :=
  if L ≤ location.levelIndex ∨ O ≤ location.slot then none
  else
    let flat := location.levelIndex * O + location.slot
    some (flat * 2 + (if location.side = .sell then 1 else 0) + 1)

/-- Reads an encoded location back. Codes start at one, so that zero stays free
for an empty cell. -/
def decodeLocation (L O : Nat) (encoded : Nat) : Option OrderLocation :=
  let encoded := encoded - 1
  let flat := encoded / 2
  if O = 0 ∨ L ≤ flat / O then none
  else some ⟨if encoded % 2 = 0 then .buy else .sell, flat / O, flat % O⟩

/-- Where the index says an order is. The order there may be another one when
the entry is stale. -/
def location (index : OrderIndex L O) (orderId : OrderId) : Option OrderLocation :=
  (OpenAddressing.lookup (probeStart (L * O * orderIndexPlanes)) index orderId).bind (decodeLocation L O)

/-- Enters an order with its location and says in which cell. -/
def insert (index : OrderIndex L O) (orderId : OrderId) (location : OrderLocation) :
    Except RejectReason (U32 × OrderIndex L O) :=
  match encodeLocation L O location with
  | none => .error .orderCapacity
  | some encoded =>
      match OpenAddressing.insert (probeStart (L * O * orderIndexPlanes)) indexLimit index orderId
        encoded with
      | .ok result => .ok result
      | .error .full => .error .orderCapacity
      | .error .duplicate => .error .duplicateOrderId

/-- Removes `orderId` at `indexSlot`. The moves are the calls of the
reverse-slot callback, in order. -/
def removeAt (index : OrderIndex L O) (indexSlot : U32) (orderId : OrderId) :
    Option (Option OrderLocation × OrderIndex L O ×
      List (OpenAddressing.Move OrderId OrderLocation indexLimit)) :=
  OpenAddressing.removeAt (probeStart (L * O * orderIndexPlanes)) indexLimit (decodeLocation L O) index
    indexSlot orderId

end OrderIndex

end HftEngine
