/-
Module: HftEngine.Core.Snapshot
Layer: Core
Purpose: The canonical snapshot of a gateway: a fixed header with an integrity
  digest, and a payload of counted records in logical order. The hash is a
  parameter.
Imports: HftEngine.Core.Gateway, HftEngine.Lib.Bytes
Trusted boundary: translates `encode_snapshot` and `decode_snapshot` of the
  crate `hft-recovery`
Main exports: SnapshotError, Snapshot, DecodedSnapshot, encodeGatewayState,
  decodeGatewayState, encodeSnapshot, decodeSnapshot
-/
import HftEngine.Core.Gateway
import HftEngine.Lib.Bytes

namespace HftEngine

open Machine Bytes

/-- Why a snapshot was not written or not accepted. Each check of the container
and of the payload has an error of its own. -/
inductive SnapshotError where
  | truncated
  | trailingBytes
  | badMagic
  | unsupportedVersion (found : U16)
  | unsupportedFlags (found : U32)
  | unsupportedHash (found : U16)
  | headerLength (found : U16)
  | digestLength (found : U16)
  | lengthOverflow
  | capacityMismatch
  | integrityMismatch
  | invalidBoolean
  | invalidSide
  | invalidCount
  | invalidSequence
  | nonCanonical
  | gatewayState (error : GatewayStateError)
deriving DecidableEq, Repr

def digestSize : Nat := 32

abbrev Digest := Vector U8 digestSize

/-- An encoded gateway with what its container says about it. -/
structure Snapshot where
  bytes : List U8
  digest : Digest
  appliedSequence : U64
deriving DecidableEq

/-- A gateway restored from a snapshot, with the sequence number the snapshot
was taken after. -/
structure DecodedSnapshot (A R L O : Nat) where
  gateway : Gateway A R L O
  appliedSequence : U64
  digest : Digest

/-- The bytes of an ASCII text. -/
def ascii (text : String) : List U8 := text.toList.map fun c => Fin.ofNat _ c.toNat

def snapshotVersion : U16 := 1
/-- The header has ninety-six bytes; the payload follows it without a gap. -/
def headerSize : Nat := 96
/-- The first eight bytes of every snapshot. -/
def snapshotMagic : List U8 := ascii "HFTSNAP" ++ [0]
def hashAlgorithmSha256 : U16 := 1
/-- Where the digest stands in the header. It is computed with these bytes
blank. -/
def digestOffset : Nat := 52
/-- The separator that goes into the digest before the header, so that no other
use of the hash has the same input. -/
def snapshotDomain : List U8 := ascii "deterministic-exchange snapshot v1" ++ [0]

/-! ### Encoding the payload

Every writer appends to one vector, so the payload is the concatenation of what each writes. -/

/-- `u8::from(value)`. -/
def boolTag (value : Bool) : U8 := if value then 1 else 0

/-- An optional id always takes nine bytes: a flag, and the id or zero. -/
def encodeOptionalOrder (value : Option OrderId) : List U8 :=
  [boolTag value.isSome] ++ unsignedBe 8 (value.getD 0)

/-- A count is a word of thirty-two bits; a longer list cannot be written. -/
def writeCount (value : Nat) : Except SnapshotError (List U8) :=
  if value < 2 ^ 32 then .ok (toBe 4 value) else .error .lengthOverflow

/-- An account with its limits, its settled position, the totals of its
reservations and its own kill switch. -/
def encodeAccount (account : AccountRiskState) : List U8 :=
  unsignedBe 4 account.id ++ unsignedBe 8 account.limits.maxQuantity ++ unsignedBe 16 account.limits.maxNotional ++
    unsignedBe 8 account.limits.maxAbsPosition ++ unsignedBe 4 account.limits.maxOpenOrders ++
    signedBe 8 account.limits.minimumPrice ++ signedBe 8 account.limits.maximumPrice ++
    signedBe 16 account.settledPosition ++ unsignedBe 16 account.reservedBuys ++
    unsignedBe 16 account.reservedSells ++ unsignedBe 4 account.openOrders ++ [boolTag account.killed]

/-- A reservation: the order, its owner, its side and the quantity
still open. -/
def encodeReservation (reservation : ReservationRiskState) : List U8 :=
  unsignedBe 8 reservation.orderId ++ unsignedBe 4 reservation.accountId ++ [reservation.side.tag] ++
    unsignedBe 8 reservation.quantity

/-- A resting order. Its level says side and price again; validation compares
them. -/
def encodeBookOrder (order : BookOrderState) : List U8 :=
  unsignedBe 8 order.orderId ++ unsignedBe 4 order.accountId ++ [order.side.tag] ++ signedBe 8 order.price ++
    unsignedBe 8 order.quantity ++ unsignedBe 8 order.sequence

/-- The levels of a side, best first, each with the count of its orders and the
orders in FIFO order. Padding is not written. -/
def encodeLevels {O : Nat} : List (BookLevelState O) → Except SnapshotError (List U8)
  | [] => .ok []
  | level :: rest => do
      let count ← writeCount level.orderCount
      let others ← encodeLevels rest
      pure ([level.side.tag] ++ signedBe 8 level.price ++ count ++ level.active.flatMap encodeBookOrder ++ others)

/-- The payload: the scalars, then the four counts, then accounts, reservations
and the levels of both sides. -/
def encodeGatewayState {L O : Nat} (state : GatewayState L O) : Except SnapshotError (List U8) := do
  let accountCount ← writeCount state.risk.accounts.length
  let reservationCount ← writeCount state.risk.reservations.length
  let bidCount ← writeCount state.book.bidLevelCount
  let askCount ← writeCount state.book.askLevelCount
  let bids ← encodeLevels state.book.activeBids
  let asks ← encodeLevels state.book.activeAsks
  pure (unsignedBe 4 state.instrument ++ unsignedBe 8 state.expectedSequence ++
    encodeOptionalOrder state.maximumReceivedOrderId ++ encodeOptionalOrder state.risk.maximumOrderId ++
    [boolTag state.risk.killed] ++ accountCount ++ reservationCount ++ bidCount ++ askCount ++
    state.risk.accounts.flatMap encodeAccount ++ state.risk.reservations.flatMap encodeReservation ++ bids ++ asks)

/-! ### Decoding the payload -/

/-- A reader of the payload. It holds the bytes from its offset on; the offset
itself cannot overflow. -/
abbrev Input := Parser SnapshotError

namespace Input

/-- `from_be_bytes(bytes.try_into()?)` for an unsigned word. -/
def wordOf (n width : Nat) [NeZero n] (bytes : List U8) : Input (Fin n) :=
  if bytes.length = width then pure (wordOfBe n bytes) else fail .truncated

/-- `from_be_bytes(bytes.try_into()?)` for a signed word. -/
def signedOf (half width : Nat) [NeZero half] (bytes : List U8) : Input (Signed half) :=
  if bytes.length = width then pure (signedOfBe half bytes) else fail .truncated

/-- Takes the bytes of an unsigned word off the input. -/
def word (n width : Nat) [NeZero n] : Input (Fin n) := do
  let bytes ← take .truncated width
  wordOf n width bytes

/-- Takes the bytes of a signed word off the input. -/
def signed (half width : Nat) [NeZero half] : Input (Signed half) := do
  let bytes ← take .truncated width
  signedOf half width bytes

/-- Takes one byte off the input. The access cannot fail: the take before it
returned one byte. -/
def u8 : Input U8 := do
  let bytes ← take .truncated 1
  access bytes[0]?

def u32 : Input U32 := word (2 ^ 32) 4

def u64 : Input U64 := word (2 ^ 64) 8

def u128 : Input U128 := word (2 ^ 128) 16

def i64 : Input I64 := signed (2 ^ 63) 8

def i128 : Input I128 := signed (2 ^ 127) 16

/-- A flag is zero or one; every other byte would be a second encoding of the
same value and is refused. -/
def boolean : Input Bool := do
  let byte ← u8
  if byte = 0 then pure false else if byte = 1 then pure true else fail .invalidBoolean

/-- The tag of a side, as the encoder writes it. -/
def side : Input Side := do
  let byte ← u8
  if byte = 1 then pure .buy else if byte = 2 then pure .sell else fail .invalidSide

/-- The count of a list that follows. Whether it fits the capacity is checked
by the reader of the list. -/
def count : Input Nat := do
  let value ← u32
  pure value.val

/-- An optional id. An absent one must be followed by zero, since other bytes
would be ignored and the encoding not be unique. -/
def optionalOrder : Input (Option OrderId) := do
  let present ← boolean
  let value ← u64
  if present then pure (some value) else if value.val = 0 then pure none else fail .nonCanonical

/-- Reads an account in the order in which `encodeAccount` writes it. -/
def account : Input AccountRiskState := do
  let id ← u32
  let maxQuantity ← u64
  let maxNotional ← u128
  let maxAbsPosition ← u64
  let maxOpenOrders ← u32
  let minimumPrice ← i64
  let maximumPrice ← i64
  let settledPosition ← i128
  let reservedBuys ← u128
  let reservedSells ← u128
  let openOrders ← u32
  let killed ← boolean
  pure
    { id := id
      limits :=
        { maxQuantity := maxQuantity
          maxNotional := maxNotional
          maxAbsPosition := maxAbsPosition
          maxOpenOrders := maxOpenOrders
          minimumPrice := minimumPrice
          maximumPrice := maximumPrice }
      settledPosition := settledPosition
      reservedBuys := reservedBuys
      reservedSells := reservedSells
      openOrders := openOrders
      killed := killed }

def reservation : Input ReservationRiskState := do
  let orderId ← u64
  let accountId ← u32
  let side ← side
  let quantity ← u64
  pure { orderId := orderId, accountId := accountId, side := side, quantity := quantity }

def bookOrder : Input BookOrderState := do
  let orderId ← u64
  let accountId ← u32
  let side ← side
  let price ← i64
  let quantity ← u64
  let sequence ← u64
  pure
    { orderId := orderId
      accountId := accountId
      side := side
      price := price
      quantity := quantity
      sequence := sequence }

/-- `for slot in &mut array[..count] { *slot = item()?; }` on an array of
padding: the slice panics when it is longer than the array. -/
def fill {α : Type} (n : Nat) (padding : α) (item : Input α) (count : Nat) : Input (Vector α n) := do
  access (if count ≤ n then some () else none)
  let items ← repeatParser item count
  pure (padTo n padding items)

/-- Reads a level. The count is checked against the capacity before the slice
that would panic on it. -/
def level (O : Nat) : Input (BookLevelState O) := do
  let side ← side
  let price ← i64
  let count ← count
  if O < count then fail .invalidCount
  else do
    let orders ← fill O emptyBookOrderState bookOrder count
    pure { side := side, price := price, orderCount := count, orders := orders }

/-- The whole payload, up to the check that nothing is left. -/
def gatewayState (A R L O : Nat) : Input (GatewayState L O) := do
  let instrument ← u32
  let expectedSequence ← u64
  let maximumReceivedOrderId ← optionalOrder
  let riskMaximumOrderId ← optionalOrder
  let killed ← boolean
  let accountCount ← count
  let reservationCount ← count
  let bidCount ← count
  let askCount ← count
  if A < accountCount ∨ R < reservationCount ∨ L < bidCount ∨ L < askCount then fail .invalidCount
  else do
    let accounts ← repeatParser account accountCount
    let reservations ← repeatParser reservation reservationCount
    let bids ← fill L (emptyBookLevelState O) (level O) bidCount
    let asks ← fill L (emptyBookLevelState O) (level O) askCount
    pure
      { instrument := instrument
        book :=
          { instrument := instrument
            bidLevelCount := bidCount
            bids := bids
            askLevelCount := askCount
            asks := asks }
        risk :=
          { accounts := accounts
            reservations := reservations
            maximumOrderId := riskMaximumOrderId
            killed := killed }
        expectedSequence := expectedSequence
        maximumReceivedOrderId := maximumReceivedOrderId }

end Input

/-- Reads a payload to its last byte. -/
def decodeGatewayState (A R L O : Nat) (payload : List U8) : Checked SnapshotError (GatewayState L O) := do
  let (state, rest) ← Input.gatewayState A R L O payload
  ensure (rest = []) .trailingBytes
  pure state

/-! ### The container -/

/-- `capacity::<N>()`. -/
def capacity (n : Nat) : Except SnapshotError U32 :=
  if h : n < 2 ^ 32 then .ok ⟨n, h⟩ else .error .lengthOverflow

/-- `u64::try_from(payload.len())`. -/
def payloadLength (payload : List U8) : Except SnapshotError U64 :=
  if h : payload.length < 2 ^ 64 then .ok ⟨payload.length, h⟩ else .error .lengthOverflow

/-- The header fields in order; the digest stands between the capacities and
twelve reserved bytes. -/
def headerBytes (payloadLen appliedSequence : U64) (accounts riskOrders levels orders : U32) (digest : Digest) :
    List U8 :=
  List.flatten [snapshotMagic, unsignedBe 2 snapshotVersion, toBe 2 headerSize, List.replicate 4 0,
    unsignedBe 2 hashAlgorithmSha256, toBe 2 digestSize, unsignedBe 8 payloadLen, unsignedBe 8 appliedSequence,
    unsignedBe 4 accounts, unsignedBe 4 riskOrders, unsignedBe 4 levels, unsignedBe 4 orders, digest.toList,
    List.replicate 12 0]

/-- The digest of a domain separator, the header with a blank digest, and the
payload. -/
def snapshotDigest (sha256 : List U8 → Digest) (header payload : List U8) : Digest :=
  sha256 (snapshotDomain ++
    (header.take digestOffset ++ List.replicate digestSize 0 ++ header.drop (digestOffset + digestSize)) ++ payload)

/-- Whether a sequence is the one after the applied one; `checked_add` refuses
the last number. -/
def followsApplied (expected : SequenceNumber) (appliedSequence : U64) : Bool :=
  decide (checkedAdd appliedSequence 1 = some expected)

/-- Encodes one gateway state in canonical logical order. -/
def encodeSnapshot {A R L O : Nat} (sha256 : List U8 → Digest) (gateway : Gateway A R L O) (appliedSequence : U64) :
    Except SnapshotError Snapshot :=
  let state := gateway.exportState
  if followsApplied state.expectedSequence appliedSequence = false then .error .invalidSequence
  else do
    let payload ← encodeGatewayState state
    let payloadLen ← payloadLength payload
    let accounts ← capacity A
    let riskOrders ← capacity R
    let levels ← capacity L
    let orders ← capacity O
    let blank := headerBytes payloadLen appliedSequence accounts riskOrders levels orders (Vector.replicate _ 0)
    let digest := snapshotDigest sha256 blank payload
    pure
      { bytes := headerBytes payloadLen appliedSequence accounts riskOrders levels orders digest ++ payload
        digest := digest
        appliedSequence := appliedSequence }

/-- A word of the header, read in place. -/
def headerWord (n : Nat) [NeZero n] (header : List U8) (low high : Nat) : Checked SnapshotError (Fin n) := do
  let stored ← slice header low high
  pure (wordOfBe n stored)

/-- One of the four capacity comparisons. -/
def checkCapacity (n : Nat) (header : List U8) (low : Nat) : Checked SnapshotError Unit := do
  let stored ← headerWord (2 ^ 32) header low (low + 4)
  let own ← liftResult (capacity n)
  ensure (stored = own) .capacityMismatch

/-- The container checks that come before the integrity check. Returns the
header. -/
def decodeHeader (A R L O : Nat) (bytes : List U8) : Checked SnapshotError (List U8) := do
  ensure (headerSize ≤ bytes.length) .truncated
  let header ← slice bytes 0 headerSize
  let magic ← slice header 0 8
  ensure (magic = snapshotMagic) .badMagic
  let version ← headerWord (2 ^ 16) header 8 10
  ensure (version = snapshotVersion) (.unsupportedVersion version)
  let headerLen ← headerWord (2 ^ 16) header 10 12
  ensure (headerLen.val = headerSize) (.headerLength headerLen)
  let flags ← headerWord (2 ^ 32) header 12 16
  ensure (flags.val = 0) (.unsupportedFlags flags)
  let hash ← headerWord (2 ^ 16) header 16 18
  ensure (hash = hashAlgorithmSha256) (.unsupportedHash hash)
  let digestLen ← headerWord (2 ^ 16) header 18 20
  ensure (digestLen.val = digestSize) (.digestLength digestLen)
  let payloadLen ← headerWord (2 ^ 64) header 20 28
  ensure (headerSize + payloadLen.val < 2 ^ 64) .lengthOverflow
  ensure (headerSize + payloadLen.val ≤ bytes.length) .truncated
  ensure (bytes.length ≤ headerSize + payloadLen.val) .trailingBytes
  checkCapacity A header 36
  checkCapacity R header 40
  checkCapacity L header 44
  checkCapacity O header 48
  let reserved ← slice header 84 headerSize
  ensure (∀ byte ∈ reserved, byte = 0) .nonCanonical
  pure header

/-- Verifies and restores a canonical snapshot. -/
def decodeSnapshot {A R L O : Nat} (sha256 : List U8 → Digest) (bytes : List U8) :
    Checked SnapshotError (DecodedSnapshot A R L O) := do
  let header ← decodeHeader A R L O bytes
  let payload ← slice bytes headerSize bytes.length
  let digest := snapshotDigest sha256 header payload
  let stored ← slice header digestOffset (digestOffset + digestSize)
  ensure (digest.toList = stored) .integrityMismatch
  let appliedSequence ← headerWord (2 ^ 64) header 28 36
  let state ← decodeGatewayState A R L O payload
  ensure (followsApplied state.expectedSequence appliedSequence) .invalidSequence
  let gateway ← liftResult (match (Gateway.fromState state : Except GatewayStateError (Gateway A R L O)) with
    | .ok gateway => .ok gateway
    | .error error => .error (.gatewayState error))
  pure { gateway := gateway, appliedSequence := appliedSequence, digest := digest }

end HftEngine
