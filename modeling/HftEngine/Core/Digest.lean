/-
Module: HftEngine.Core.Digest
Layer: Core
Purpose: The stable digests of the risk engine, the book and the gateway. Each
  digest mixes a sequence of 64-bit words into an accumulator, and the sequence
  is named, so that what enters a digest can be spoken of apart from the
  mixing.
Imports: HftEngine.Core.Gateway
Trusted boundary: translates `stable_digest` of the crates `hft-risk`,
  `hft-book` and `hft-gateway`
Main exports: mix, RiskEngine.digestWords, RiskEngine.stableDigest,
  OrderBook.digestWords, OrderBook.stableDigest, Gateway.stableDigest
-/
import HftEngine.Core.Gateway

namespace HftEngine

open Machine Bytes

/-! ### Mixing -/

/-- The start of every digest. -/
def digestOffsetBasis : U64 := 0xcbf29ce484222325

/-- Folds one word into a digest. -/
def mix (digest value : U64) : U64 := (digest ^^^ value) * 0x00000100000001b3

/-- `rotate_left` of a 64-bit word, for `count` below 64. -/
def rotateLeft (word : U64) (count : Nat) : U64 :=
  Fin.ofNat _ (word.val <<< count ||| word.val >>> (64 - count))

/-- The high lane of sixteen big-endian bytes. -/
def beHigh (bytes : List U8) : U64 := wordOfBe _ (bytes.take 8)

/-- The low lane of sixteen big-endian bytes. -/
def beLow (bytes : List U8) : U64 := wordOfBe _ (bytes.drop 8)

def boolWord (value : Bool) : U64 := if value then 1 else 0

/-! ### Risk -/

/-- What one account adds to the digest, in the order it is mixed. -/
def accountWords (account : AccountState) : List U64 :=
  let position := signedBe 16 account.settledPosition
  let buys := unsignedBe 16 account.reservedBuys
  let sells := unsignedBe 16 account.reservedSells
  [widen u32_le_u64 account.id, beHigh position, beHigh buys, beLow buys, beHigh sells, beLow sells, beLow position,
    widen u32_le_u64 account.openOrders, boolWord account.killed]

/-- The words of a reservation. Its owner and its side do not enter the
digest. -/
def reservationWords (reservation : Reservation) : List U64 := [reservation.orderId, reservation.quantity]

namespace RiskEngine

variable {A R : Nat}

/-- The accounts and the live reservations enter in the order of their
slots. -/
def digestWords (engine : RiskEngine A R) : List U64 :=
  [boolWord engine.killed, engine.maximumOrderId.getD 0] ++ engine.registeredAccounts.flatMap accountWords ++
    engine.liveReservations.flatMap reservationWords

def stableDigest (engine : RiskEngine A R) : U64 := engine.digestWords.foldl mix digestOffsetBasis

end RiskEngine

/-! ### Book -/

/-- The discriminant of a side. -/
def sideWord : Side → U64
  | .buy => 1
  | .sell => 2

/-- The words of a resting order. Links and slots do not enter the digest, so
that it speaks of the order alone. -/
def orderWords (order : RestingOrder) : List U64 :=
  [order.id, widen u32_le_u64 order.accountId, order.quantity, order.sequence]

/-- The words of a level: its price and its orders in FIFO order. -/
def levelWords {O : Nat} (level : PriceLevel O) : List U64 :=
  wordOfBe _ (signedBe 8 level.price) :: level.liveOrders.flatMap orderWords

namespace OrderBook

variable {L O : Nat}

/-- The levels of a side enter in priority order, each with its orders in FIFO
order. -/
def sideWords (book : OrderBook L O) (side : Side) : List U64 :=
  sideWord side :: (book.sideIndex side).entries.flatMap fun entry =>
    match book.getLevel side entry.2 with
    | none => []
    | some level => levelWords level

/-- The words of a book: its levels side by side in priority order. -/
def digestWords (book : OrderBook L O) : List U64 :=
  widen u32_le_u64 book.instrument :: (book.sideWords .buy ++ book.sideWords .sell)

def stableDigest (book : OrderBook L O) : U64 := book.digestWords.foldl mix digestOffsetBasis

end OrderBook

/-! ### Gateway -/

/-- The digest of a gateway mixes the digests of its two components with its
own counters. -/
def Gateway.stableDigest {A R L O : Nat} (gateway : Gateway A R L O) : U64 :=
  let session := rotateLeft gateway.expectedSequence 29 ^^^ rotateLeft (gateway.maximumReceivedOrderId.getD 0) 43
  rotateLeft gateway.book.stableDigest 17 ^^^ gateway.risk.stableDigest ^^^ session

end HftEngine
