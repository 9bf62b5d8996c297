/-
Module: HftEngine.Proofs.SnapshotCodec
Layer: Proofs
Purpose: The snapshot codec in both directions. Each reader accepts exactly the
  encodings of the values it can return and never panics; so does the payload
  reader; and a container that decodes is the encoding of what it decodes to.
Imports: HftEngine.Core.Snapshot, HftEngine.Proofs.GatewayRestore
Trusted boundary: none (fully proved)
Main exports: payloadBytes, PayloadValid, codec_gatewayState,
  encodeGatewayState_ok_iff, decodeSnapshot_safe, decodeSnapshot_returns,
  encodeSnapshot_of_decoded
-/
import HftEngine.Core.Snapshot
import HftEngine.Proofs.GatewayRestore

namespace HftEngine

open Machine Bytes

variable {A R L O : Nat}

/-! ### Words and tags -/

/-- A fixed number of bytes that a bijection turns into a value. -/
theorem codec_fixed {α : Type} {width : Nat} {decode : List U8 → α} {encode : α → List U8}
    (hlength : ∀ value, (encode value).length = width) (hdecode : ∀ value, decode (encode value) = value)
    (hencode : ∀ bytes, bytes.length = width → encode (decode bytes) = bytes) :
    Codec (do
      let bytes ← take SnapshotError.truncated width
      if bytes.length = width then pure (decode bytes) else fail .truncated) encode fun _ => True := by
  constructor
  · apply safe_parser_bind (safe_take _ _)
    rintro part - bytes
    split
    · exact safe_parser_pure _ bytes
    · exact safe_fail _ bytes
  · intro bytes value rest
    simp only [parses_bind_iff, parses_take_iff]
    constructor
    · rintro ⟨part, _, ⟨hpart, rfl⟩, hvalue⟩
      rw [if_pos hpart, parses_pure_iff] at hvalue
      obtain ⟨rfl, rfl⟩ := hvalue
      exact ⟨trivial, by rw [hencode part hpart]⟩
    · rintro ⟨-, rfl⟩
      refine ⟨encode value, rest, ⟨hlength value, rfl⟩, ?_⟩
      rw [if_pos (hlength value), parses_pure_iff, hdecode]
      exact ⟨rfl, rfl⟩

/-- A word of full width: every byte string of the width is the encoding of one
word, so reader and writer are inverse without a condition. -/
theorem codec_word {n width : Nat} [NeZero n] (hn : n = 256 ^ width) :
    Codec (Input.word n width) (unsignedBe width) fun _ => True :=
  codec_fixed (length_unsignedBe width) (wordOfBe_unsignedBe hn) fun _ => unsignedBe_wordOfBe hn

/-- A signed word of full width, in the same way. -/
theorem codec_signed {half width : Nat} [NeZero half] (hhalf : 2 * half = 256 ^ width) :
    Codec (Input.signed half width) (signedBe width) fun _ => True :=
  codec_fixed (length_signedBe width) (signedOfBe_signedBe hhalf) fun _ => signedBe_signedOfBe hhalf

theorem codec_u8 : Codec Input.u8 (fun byte => [byte]) fun _ => True := by
  have hone : ∀ part : List U8, part.length = 1 → ∃ byte, part = [byte] := fun part h => List.length_eq_one_iff.mp h
  constructor
  · apply safe_parser_bind (safe_take _ _)
    rintro part ⟨bytes, rest, hpart⟩ bytes'
    obtain ⟨byte, rfl⟩ := hone part (parses_take_iff.mp hpart).1
    exact fun h => (nomatch h)
  · intro bytes value rest
    unfold Input.u8
    simp only [parses_bind_iff, parses_take_iff, parses_access_iff]
    constructor
    · rintro ⟨part, _, ⟨hlength, rfl⟩, hbyte, rfl⟩
      obtain ⟨byte, rfl⟩ := hone part hlength
      cases hbyte
      exact ⟨trivial, rfl⟩
    · rintro ⟨-, rfl⟩
      exact ⟨[value], rest, ⟨rfl, rfl⟩, rfl, rfl⟩

theorem codec_u32 : Codec Input.u32 (unsignedBe 4) fun _ => True := codec_word (by norm_num)

theorem codec_u64 : Codec Input.u64 (unsignedBe 8) fun _ => True := codec_word (by norm_num)

theorem codec_u128 : Codec Input.u128 (unsignedBe 16) fun _ => True := codec_word (by norm_num)

theorem codec_i64 : Codec Input.i64 (signedBe 8) fun _ => True := codec_signed (by norm_num)

theorem codec_i128 : Codec Input.i128 (signedBe 16) fun _ => True := codec_signed (by norm_num)

/-- One byte that names one of two values. -/
theorem codec_choice {α : Type} {first second : α} {tag : α → U8} (hne : tag second ≠ tag first)
    (hall : ∀ value, value = first ∨ value = second) (error : SnapshotError) :
    Codec (do
      let byte ← Input.u8
      if byte = tag first then pure first else if byte = tag second then pure second else fail error)
      (fun value => [tag value]) fun _ => True := by
  constructor
  · apply safe_parser_bind codec_u8.safe
    rintro byte - bytes
    split
    · exact safe_parser_pure _ bytes
    split
    · exact safe_parser_pure _ bytes
    · exact safe_fail _ bytes
  · intro bytes value rest
    simp only [parses_bind_iff, codec_u8.accepts, true_and]
    constructor
    · rintro ⟨byte, _, rfl, hvalue⟩
      split at hvalue
      · rename_i hfirst
        obtain ⟨rfl, rfl⟩ := parses_pure_iff.mp hvalue
        rw [hfirst]
      split at hvalue
      · rename_i hsecond
        obtain ⟨rfl, rfl⟩ := parses_pure_iff.mp hvalue
        rw [hsecond]
      · exact (parses_fail_iff.mp hvalue).elim
    · rintro rfl
      refine ⟨tag value, rest, rfl, ?_⟩
      rcases hall value with rfl | rfl
      · rw [if_pos rfl]
        exact parses_pure_iff.mpr ⟨rfl, rfl⟩
      · rw [if_neg hne, if_pos rfl]
        exact parses_pure_iff.mpr ⟨rfl, rfl⟩

/-- A flag. The reader refuses the other two hundred and fifty-four bytes,
which is what makes the encoding unique. -/
theorem codec_boolean : Codec Input.boolean (fun value => [boolTag value]) fun _ => True :=
  @codec_choice Bool false true boolTag (by decide) (by decide) _

/-- A side by its tag. -/
theorem codec_side : Codec Input.side (fun side => [side.tag]) fun _ => True :=
  @codec_choice Side .buy .sell Side.tag (by decide) (fun side => by cases side <;> simp) _

/-- A count below the word size; the writer refuses larger ones. -/
theorem codec_count : Codec Input.count (toBe 4) fun value => value < 2 ^ 32 := by
  constructor
  · apply safe_parser_bind codec_u32.safe
    rintro word - bytes
    exact safe_parser_pure _ bytes
  · intro bytes value rest
    unfold Input.count
    simp only [parses_bind_iff, codec_u32.accepts, true_and, parses_pure_iff]
    constructor
    · rintro ⟨word, _, rfl, rfl, rfl⟩
      exact ⟨word.isLt, rfl⟩
    · rintro ⟨hlt, rfl⟩
      exact ⟨⟨value, hlt⟩, rest, rfl, rfl, rfl⟩

/-- An optional id of nine bytes. The reader refuses an absent id with anything
but zero behind its flag. -/
theorem codec_optionalOrder : Codec Input.optionalOrder encodeOptionalOrder fun _ => True := by
  constructor
  · apply safe_parser_bind codec_boolean.safe
    rintro present -
    apply safe_parser_bind codec_u64.safe
    rintro value - bytes
    split
    · exact safe_parser_pure _ bytes
    split
    · exact safe_parser_pure _ bytes
    · exact safe_fail _ bytes
  · intro bytes found rest
    unfold Input.optionalOrder
    simp only [parses_bind_iff, codec_boolean.accepts, codec_u64.accepts, true_and]
    constructor
    · rintro ⟨present, _, rfl, value, _, rfl, hfound⟩
      cases present with
      | true =>
          obtain ⟨rfl, rfl⟩ := parses_pure_iff.mp hfound
          simp [encodeOptionalOrder]
      | false =>
          rw [if_neg (by simp)] at hfound
          split at hfound
          · rename_i hzero
            obtain ⟨rfl, rfl⟩ := parses_pure_iff.mp hfound
            have : value = 0 := Fin.ext hzero
            simp [encodeOptionalOrder, this]
          · exact (parses_fail_iff.mp hfound).elim
    · rintro rfl
      unfold encodeOptionalOrder
      refine ⟨found.isSome, _, List.append_assoc _ _ _, found.getD 0, rest, rfl, ?_⟩
      cases found <;> exact parses_pure_iff.mpr ⟨rfl, rfl⟩

/-! ### Records -/

/-- An account, field by field in the order of the format. -/
theorem codec_account : Codec Input.account encodeAccount fun _ => True := by
  constructor
  · exact codec_u32.safe_bind fun _ => codec_u64.safe_bind fun _ => codec_u128.safe_bind fun _ =>
      codec_u64.safe_bind fun _ => codec_u32.safe_bind fun _ => codec_i64.safe_bind fun _ =>
      codec_i64.safe_bind fun _ => codec_i128.safe_bind fun _ => codec_u128.safe_bind fun _ =>
      codec_u128.safe_bind fun _ => codec_u32.safe_bind fun _ => codec_boolean.safe_bind fun _ => safe_parser_pure _
  · intro bytes value rest
    unfold Input.account encodeAccount
    simp only [parses_bind_iff, parses_pure_iff, codec_u32.accepts, codec_u64.accepts, codec_u128.accepts,
      codec_i64.accepts, codec_i128.accepts, codec_boolean.accepts, true_and, List.append_assoc]
    constructor
    · rintro ⟨_, _, rfl, _, _, rfl, _, _, rfl, _, _, rfl, _, _, rfl, _, _, rfl, _, _, rfl, _, _, rfl, _, _, rfl, _, _,
        rfl, _, _, rfl, _, _, rfl, rfl, rfl⟩
      rfl
    · rintro rfl
      exact ⟨_, _, rfl, _, _, rfl, _, _, rfl, _, _, rfl, _, _, rfl, _, _, rfl, _, _, rfl, _, _, rfl, _, _, rfl, _, _,
        rfl, _, _, rfl, _, _, rfl, rfl, rfl⟩

/-- A reservation, field by field. -/
theorem codec_reservation : Codec Input.reservation encodeReservation fun _ => True := by
  constructor
  · exact codec_u64.safe_bind fun _ => codec_u32.safe_bind fun _ => codec_side.safe_bind fun _ =>
      codec_u64.safe_bind fun _ => safe_parser_pure _
  · intro bytes value rest
    unfold Input.reservation encodeReservation
    simp only [parses_bind_iff, parses_pure_iff, codec_u32.accepts, codec_u64.accepts, codec_side.accepts, true_and,
      List.append_assoc]
    constructor
    · rintro ⟨_, _, rfl, _, _, rfl, _, _, rfl, _, _, rfl, rfl, rfl⟩
      rfl
    · rintro rfl
      exact ⟨_, _, rfl, _, _, rfl, _, _, rfl, _, _, rfl, rfl, rfl⟩

/-- A resting order, field by field. -/
theorem codec_bookOrder : Codec Input.bookOrder encodeBookOrder fun _ => True := by
  constructor
  · exact codec_u64.safe_bind fun _ => codec_u32.safe_bind fun _ => codec_side.safe_bind fun _ =>
      codec_i64.safe_bind fun _ => codec_u64.safe_bind fun _ => codec_u64.safe_bind fun _ => safe_parser_pure _
  · intro bytes value rest
    unfold Input.bookOrder encodeBookOrder
    simp only [parses_bind_iff, parses_pure_iff, codec_u32.accepts, codec_u64.accepts, codec_side.accepts,
      codec_i64.accepts, true_and, List.append_assoc]
    constructor
    · rintro ⟨_, _, rfl, _, _, rfl, _, _, rfl, _, _, rfl, _, _, rfl, _, _, rfl, rfl, rfl⟩
      rfl
    · rintro rfl
      exact ⟨_, _, rfl, _, _, rfl, _, _, rfl, _, _, rfl, _, _, rfl, _, _, rfl, rfl, rfl⟩

/-- An array filled from the front: what it reads are the entries in use, and
the rest is padding. -/
theorem codec_fill {α : Type} {n count : Nat} {padding : α} {item : Input α} {encode : α → List U8} {valid : α → Prop}
    (codec : Codec item encode valid) (hcount : count ≤ n) :
    Codec (Input.fill n padding item count) (fun array => (activePart array count).flatMap encode)
      fun array => (∀ entry ∈ activePart array count, valid entry) ∧
        ∀ entry ∈ paddingPart array count, entry = padding := by
  constructor
  · refine safe_parser_bind ?_ fun _ _ => (codec.repeatParser count).safe_bind fun _ => safe_parser_pure _
    rw [if_pos hcount]
    exact fun _ h => (nomatch h)
  · intro bytes array rest
    unfold Input.fill
    simp only [parses_bind_iff, parses_access_iff, parses_pure_iff, (codec.repeatParser count).accepts, if_pos hcount]
    constructor
    · rintro ⟨_, _, ⟨-, rfl⟩, items, _, ⟨⟨hlength, hvalid⟩, rfl⟩, rfl, rfl⟩
      have hactive : activePart (padTo n padding items) count = items := by
        rw [← hlength]
        exact activePart_padTo padding (by omega)
      refine ⟨⟨?_, fun entry hentry => eq_padding_of_padTo hlength hcount hentry⟩, by rw [hactive]⟩
      rw [hactive]
      exact hvalid
    · rintro ⟨⟨hvalid, hpadding⟩, rfl⟩
      exact ⟨(), _, ⟨trivial, rfl⟩, activePart array count, rest, ⟨⟨length_activePart array hcount, hvalid⟩, rfl⟩,
        padTo_activePart hpadding, rfl⟩

/-- The bytes of a level. -/
def levelBytes (level : BookLevelState O) : List U8 :=
  [level.side.tag] ++ signedBe 8 level.price ++ toBe 4 level.orderCount ++ level.active.flatMap encodeBookOrder

/-- A level that a payload can carry. -/
structure LevelCoded (level : BookLevelState O) : Prop where
  capacity : level.orderCount ≤ O
  count : level.orderCount < 2 ^ 32
  padding : ∀ order ∈ paddingPart level.orders level.orderCount, order = emptyBookOrderState

/-- A level whose count fits both the format and the array, and whose unused
entries are padding: the writer drops them, and the reader puts them back. -/
theorem codec_level : Codec (Input.level O) levelBytes LevelCoded := by
  constructor
  · refine codec_side.safe_bind fun _ => codec_i64.safe_bind fun _ => codec_count.safe_bind fun count => ?_
    split
    · exact safe_fail _
    · exact (codec_fill codec_bookOrder (by omega)).safe_bind fun _ => safe_parser_pure _
  · intro bytes level rest
    unfold Input.level levelBytes
    simp only [parses_bind_iff, codec_side.accepts, codec_i64.accepts, codec_count.accepts, true_and,
      List.append_assoc]
    constructor
    · rintro ⟨side, _, rfl, price, _, rfl, count, _, ⟨hcount, rfl⟩, hlevel⟩
      split at hlevel
      · exact (parses_fail_iff.mp hlevel).elim
      · rename_i hcapacity
        rw [not_lt] at hcapacity
        simp only [parses_bind_iff, parses_pure_iff, (codec_fill codec_bookOrder hcapacity).accepts] at hlevel
        obtain ⟨orders, _, ⟨⟨_, hpadding⟩, rfl⟩, rfl, rfl⟩ := hlevel
        exact ⟨⟨hcapacity, hcount, hpadding⟩, rfl⟩
    · rintro ⟨coded, rfl⟩
      refine ⟨level.side, _, rfl, level.price, _, rfl, level.orderCount, _, ⟨coded.count, rfl⟩, ?_⟩
      rw [if_neg (not_lt.mpr coded.capacity)]
      simp only [parses_bind_iff, parses_pure_iff, (codec_fill codec_bookOrder coded.capacity).accepts]
      exact ⟨level.orders, rest, ⟨⟨fun _ _ => trivial, coded.padding⟩, rfl⟩, rfl, rfl⟩

/-! ### The payload -/

/-- The bytes of a payload. -/
def payloadBytes (state : GatewayState L O) : List U8 :=
  unsignedBe 4 state.instrument ++ unsignedBe 8 state.expectedSequence ++
    encodeOptionalOrder state.maximumReceivedOrderId ++ encodeOptionalOrder state.risk.maximumOrderId ++
    [boolTag state.risk.killed] ++ toBe 4 state.risk.accounts.length ++ toBe 4 state.risk.reservations.length ++
    toBe 4 state.book.bidLevelCount ++ toBe 4 state.book.askLevelCount ++
    state.risk.accounts.flatMap encodeAccount ++ state.risk.reservations.flatMap encodeReservation ++
    state.book.activeBids.flatMap levelBytes ++ state.book.activeAsks.flatMap levelBytes

/-- The counts of a state that the format can write. -/
structure CountsFit (state : GatewayState L O) : Prop where
  accounts : state.risk.accounts.length < 2 ^ 32
  reservations : state.risk.reservations.length < 2 ^ 32
  bids : state.book.bidLevelCount < 2 ^ 32
  asks : state.book.askLevelCount < 2 ^ 32
  bidOrders : ∀ level ∈ state.book.activeBids, level.orderCount < 2 ^ 32
  askOrders : ∀ level ∈ state.book.activeAsks, level.orderCount < 2 ^ 32

/-- A state that a payload can carry, for a gateway of these capacities. -/
structure PayloadValid (A R : Nat) (state : GatewayState L O) : Prop where
  instrument : state.book.instrument = state.instrument
  accounts : state.risk.accounts.length ≤ A ∧ state.risk.accounts.length < 2 ^ 32
  reservations : state.risk.reservations.length ≤ R ∧ state.risk.reservations.length < 2 ^ 32
  bids : state.book.bidLevelCount ≤ L ∧ state.book.bidLevelCount < 2 ^ 32
  asks : state.book.askLevelCount ≤ L ∧ state.book.askLevelCount < 2 ^ 32
  bidLevels : ∀ level ∈ state.book.activeBids, LevelCoded level
  askLevels : ∀ level ∈ state.book.activeAsks, LevelCoded level
  bidPadding : ∀ level ∈ paddingPart state.book.bids state.book.bidLevelCount, level = emptyBookLevelState O
  askPadding : ∀ level ∈ paddingPart state.book.asks state.book.askLevelCount, level = emptyBookLevelState O

/-- A state that the reader can return has counts that the writer can write. -/
theorem PayloadValid.countsFit {state : GatewayState L O} (valid : PayloadValid A R state) : CountsFit state :=
  ⟨valid.accounts.2, valid.reservations.2, valid.bids.2, valid.asks.2,
    fun level hlevel => (valid.bidLevels level hlevel).count, fun level hlevel => (valid.askLevels level hlevel).count⟩

/-- The whole payload. The capacities enter through `PayloadValid`: the reader
compares each count with its array before it reads the list. -/
theorem codec_gatewayState : Codec (Input.gatewayState A R L O) payloadBytes (PayloadValid A R) := by
  constructor
  · refine codec_u32.safe_bind fun _ => codec_u64.safe_bind fun _ => codec_optionalOrder.safe_bind fun _ =>
      codec_optionalOrder.safe_bind fun _ => codec_boolean.safe_bind fun _ => codec_count.safe_bind fun accounts =>
      codec_count.safe_bind fun reservations => codec_count.safe_bind fun bids => codec_count.safe_bind fun asks => ?_
    split
    · exact safe_fail _
    · rename_i hcounts
      push Not at hcounts
      exact (codec_account.repeatParser accounts).safe_bind fun _ =>
        (codec_reservation.repeatParser reservations).safe_bind fun _ =>
        (codec_fill codec_level hcounts.2.2.1).safe_bind fun _ =>
        (codec_fill codec_level hcounts.2.2.2).safe_bind fun _ => safe_parser_pure _
  · intro bytes state rest
    unfold Input.gatewayState payloadBytes
    simp only [parses_bind_iff, codec_u32.accepts, codec_u64.accepts, codec_optionalOrder.accepts,
      codec_boolean.accepts, codec_count.accepts, true_and, List.append_assoc]
    constructor
    · rintro ⟨instrument, _, rfl, expected, _, rfl, received, _, rfl, reserved, _, rfl, killed, _, rfl, accounts, _,
        ⟨haccounts, rfl⟩, reservations, _, ⟨hreservations, rfl⟩, bids, _, ⟨hbids, rfl⟩, asks, _, ⟨hasks, rfl⟩, hstate⟩
      split at hstate
      · exact (parses_fail_iff.mp hstate).elim
      · rename_i hcounts
        push Not at hcounts
        obtain ⟨hA, hR, hL, hL'⟩ := hcounts
        simp only [parses_bind_iff, parses_pure_iff, (codec_account.repeatParser accounts).accepts,
          (codec_reservation.repeatParser reservations).accepts, (codec_fill codec_level hL).accepts,
          (codec_fill codec_level hL').accepts] at hstate
        obtain ⟨accountList, _, ⟨⟨rfl, _⟩, rfl⟩, reservationList, _, ⟨⟨rfl, _⟩, rfl⟩, bidArray, _,
          ⟨⟨hbidLevels, hbidPadding⟩, rfl⟩, askArray, _, ⟨⟨haskLevels, haskPadding⟩, rfl⟩, rfl, rfl⟩ := hstate
        exact ⟨⟨rfl, ⟨hA, haccounts⟩, ⟨hR, hreservations⟩, ⟨hL, hbids⟩, ⟨hL', hasks⟩, hbidLevels, haskLevels,
          hbidPadding, haskPadding⟩, rfl⟩
    · rintro ⟨valid, rfl⟩
      refine ⟨state.instrument, _, rfl, state.expectedSequence, _, rfl, state.maximumReceivedOrderId, _, rfl,
        state.risk.maximumOrderId, _, rfl, state.risk.killed, _, rfl, state.risk.accounts.length, _,
        ⟨valid.accounts.2, rfl⟩, state.risk.reservations.length, _, ⟨valid.reservations.2, rfl⟩,
        state.book.bidLevelCount, _, ⟨valid.bids.2, rfl⟩, state.book.askLevelCount, _, ⟨valid.asks.2, rfl⟩, ?_⟩
      rw [if_neg (by
        push Not
        exact ⟨valid.accounts.1, valid.reservations.1, valid.bids.1, valid.asks.1⟩)]
      simp only [parses_bind_iff, parses_pure_iff, (codec_account.repeatParser _).accepts,
        (codec_reservation.repeatParser _).accepts, (codec_fill codec_level valid.bids.1).accepts,
        (codec_fill codec_level valid.asks.1).accepts]
      refine ⟨state.risk.accounts, _, ⟨⟨rfl, fun _ _ => trivial⟩, rfl⟩, state.risk.reservations, _,
        ⟨⟨rfl, fun _ _ => trivial⟩, rfl⟩, state.book.bids, _, ⟨⟨valid.bidLevels, valid.bidPadding⟩, rfl⟩,
        state.book.asks, rest, ⟨⟨valid.askLevels, valid.askPadding⟩, rfl⟩, ?_, rfl⟩
      obtain ⟨instrument, ⟨instrument', _, _, _, _⟩, ⟨_, _, _, _⟩, _, _⟩ := state
      obtain rfl : instrument' = instrument := valid.instrument
      rfl

/-- When a count is written, and as what. -/
theorem writeCount_ok_iff {value : Nat} {bytes : List U8} :
    writeCount value = .ok bytes ↔ value < 2 ^ 32 ∧ bytes = toBe 4 value := by
  unfold writeCount
  by_cases h : value < 2 ^ 32
  · rw [if_pos h, Except.ok.injEq, and_iff_right h, eq_comm]
  · rw [if_neg h]
    exact ⟨fun h' => (nomatch h'), fun h' => absurd h'.1 h⟩

/-- When the levels of a side are written, and as what. The recursion of the
writer is a concatenation over the levels. -/
theorem encodeLevels_ok_iff {levels : List (BookLevelState O)} {bytes : List U8} :
    encodeLevels levels = .ok bytes ↔
      (∀ level ∈ levels, level.orderCount < 2 ^ 32) ∧ bytes = levels.flatMap levelBytes := by
  induction levels generalizing bytes with
  | nil => simp [encodeLevels, eq_comm]
  | cons level rest ih =>
      rw [encodeLevels, List.forall_mem_cons, List.flatMap_cons, levelBytes]
      simp only [bind_eq_ok, writeCount_ok_iff, ih, pure, Except.pure, Except.ok.injEq, List.append_assoc]
      constructor
      · rintro ⟨_, ⟨hcount, rfl⟩, _, ⟨hrest, rfl⟩, rfl⟩
        exact ⟨⟨hcount, hrest⟩, rfl⟩
      · rintro ⟨⟨hcount, hrest⟩, rfl⟩
        exact ⟨_, ⟨hcount, rfl⟩, _, ⟨hrest, rfl⟩, rfl⟩

/-- The encoder writes the payload of every state whose counts fit. -/
theorem encodeGatewayState_ok_iff {state : GatewayState L O} {bytes : List U8} :
    encodeGatewayState state = .ok bytes ↔ CountsFit state ∧ bytes = payloadBytes state := by
  rw [encodeGatewayState, payloadBytes]
  simp only [bind_eq_ok, writeCount_ok_iff, encodeLevels_ok_iff, pure, Except.pure, Except.ok.injEq]
  constructor
  · rintro ⟨_, ⟨haccounts, rfl⟩, _, ⟨hreservations, rfl⟩, _, ⟨hbids, rfl⟩, _, ⟨hasks, rfl⟩, _, ⟨hbidOrders, rfl⟩, _,
      ⟨haskOrders, rfl⟩, rfl⟩
    exact ⟨⟨haccounts, hreservations, hbids, hasks, hbidOrders, haskOrders⟩, rfl⟩
  · rintro ⟨fit, rfl⟩
    exact ⟨_, ⟨fit.accounts, rfl⟩, _, ⟨fit.reservations, rfl⟩, _, ⟨fit.bids, rfl⟩, _, ⟨fit.asks, rfl⟩, _,
      ⟨fit.bidOrders, rfl⟩, _, ⟨fit.askOrders, rfl⟩, rfl⟩

/-- The reader of the payload returns exactly the valid states, each from its
own bytes and from no others. -/
theorem decodeGatewayState_returns_iff {payload : List U8} {state : GatewayState L O} :
    Checked.Returns (decodeGatewayState A R L O payload) state ↔ PayloadValid A R state ∧ payload = payloadBytes state := by
  unfold decodeGatewayState
  simp only [returns_bind_iff, returns_ensure_iff, returns_pure_iff, Prod.exists]
  constructor
  · rintro ⟨found, rest, hfound, _, rfl, rfl⟩
    simpa using (codec_gatewayState.accepts payload found []).mp hfound
  · rintro ⟨valid, rfl⟩
    exact ⟨state, [], (codec_gatewayState.accepts _ state []).mpr ⟨valid, by simp⟩, (), rfl, rfl⟩

/-- Reading a payload does not panic: the counts are compared before the slices
that they bound. -/
theorem decodeGatewayState_safe (payload : List U8) : Checked.Safe (decodeGatewayState A R L O payload) :=
  safe_bind (codec_gatewayState.safe payload) fun _ _ => safe_bind (safe_ensure _ _) fun _ _ => safe_pure _

/-! ### The container -/

variable {sha256 : List U8 → Digest} {bytes header payload : List U8} {payloadLen applied : U64} {a r l o : U32}
  {digest : Digest}

theorem length_snapshotMagic : snapshotMagic.length = 8 := by decide

theorem length_digest (digest : Digest) : digest.toList.length = 32 := Vector.length_toList

/-- The header fields fill the header; none of them has a variable length. -/
theorem length_headerBytes : (headerBytes payloadLen applied a r l o digest).length = headerSize := by
  have hdigest := length_digest digest
  simp only [headerBytes, List.length_flatten, List.map_cons, List.map_nil, List.sum_cons, List.sum_nil,
    length_snapshotMagic, length_unsignedBe, length_toBe, List.length_replicate, hdigest, headerSize, Nat.reduceAdd]

/-- A header, cut where its fields begin. -/
theorem header_split (h : header.length = headerSize) :
    header = List.flatten [field header 0 8, field header 8 2, field header 10 2, field header 12 4,
      field header 16 2, field header 18 2, field header 20 8, field header 28 8, field header 36 4,
      field header 40 4, field header 44 4, field header 48 4, field header 52 32, field header 84 12] := by
  have hcut : ∀ offset width, header.drop offset = field header offset width ++ header.drop (offset + width) :=
    fun offset width => (field_append_drop header offset width).symm
  have hlast : header.drop (84 + 12) = [] := List.drop_eq_nil_of_le (by rw [h, headerSize])
  calc header = header.drop 0 := rfl
    _ = _ := by
      rw [hcut 0 8, hcut (0 + 8) 2, hcut (0 + 8 + 2) 2, hcut (0 + 8 + 2 + 2) 4, hcut (0 + 8 + 2 + 2 + 4) 2,
        hcut (0 + 8 + 2 + 2 + 4 + 2) 2, hcut (0 + 8 + 2 + 2 + 4 + 2 + 2) 8, hcut (0 + 8 + 2 + 2 + 4 + 2 + 2 + 8) 8,
        hcut (0 + 8 + 2 + 2 + 4 + 2 + 2 + 8 + 8) 4, hcut (0 + 8 + 2 + 2 + 4 + 2 + 2 + 8 + 8 + 4) 4,
        hcut (0 + 8 + 2 + 2 + 4 + 2 + 2 + 8 + 8 + 4 + 4) 4, hcut (0 + 8 + 2 + 2 + 4 + 2 + 2 + 8 + 8 + 4 + 4 + 4) 4,
        hcut (0 + 8 + 2 + 2 + 4 + 2 + 2 + 8 + 8 + 4 + 4 + 4 + 4) 32,
        hcut (0 + 8 + 2 + 2 + 4 + 2 + 2 + 8 + 8 + 4 + 4 + 4 + 4 + 32) 12]
      simp only [Nat.reduceAdd] at hlast ⊢
      rw [hlast]
      simp only [List.flatten_cons, List.flatten_nil]

/-- A header is determined by its fields. -/
theorem eq_headerBytes_iff (h : header.length = headerSize) :
    header = headerBytes payloadLen applied a r l o digest ↔
      field header 0 8 = snapshotMagic ∧ field header 8 2 = unsignedBe 2 snapshotVersion ∧
        field header 10 2 = toBe 2 headerSize ∧ field header 12 4 = List.replicate 4 0 ∧
        field header 16 2 = unsignedBe 2 hashAlgorithmSha256 ∧ field header 18 2 = toBe 2 digestSize ∧
        field header 20 8 = unsignedBe 8 payloadLen ∧ field header 28 8 = unsignedBe 8 applied ∧
        field header 36 4 = unsignedBe 4 a ∧ field header 40 4 = unsignedBe 4 r ∧ field header 44 4 = unsignedBe 4 l ∧
        field header 48 4 = unsignedBe 4 o ∧ field header 52 32 = digest.toList ∧
        field header 84 12 = List.replicate 12 0 := by
  constructor
  · rintro rfl
    refine ⟨field_flatten 0 rfl ?_ ?_, field_flatten 1 rfl ?_ ?_, field_flatten 2 rfl ?_ ?_, field_flatten 3 rfl ?_ ?_,
      field_flatten 4 rfl ?_ ?_, field_flatten 5 rfl ?_ ?_, field_flatten 6 rfl ?_ ?_, field_flatten 7 rfl ?_ ?_,
      field_flatten 8 rfl ?_ ?_, field_flatten 9 rfl ?_ ?_, field_flatten 10 rfl ?_ ?_, field_flatten 11 rfl ?_ ?_,
      field_flatten 12 rfl ?_ ?_, field_flatten 13 rfl ?_ ?_⟩
    all_goals
      simp only [List.take_zero, List.take_succ_cons, List.map_cons, List.map_nil, List.sum_cons, List.sum_nil,
        length_snapshotMagic, length_unsignedBe, length_toBe, List.length_replicate, length_digest, Nat.reduceAdd]
  · rintro ⟨h0, h1, h2, h3, h4, h5, h6, h7, h8, h9, h10, h11, h12, h13⟩
    rw [header_split h, h0, h1, h2, h3, h4, h5, h6, h7, h8, h9, h10, h11, h12, h13]
    rfl

/-- A word of the header is read when its range lies in the header, and is then
the word whose bytes stand there. -/
theorem headerWord_returns_iff {n low high : Nat} [NeZero n] (hn : n = 256 ^ (high - low)) {word : Fin n} :
    Checked.Returns (headerWord n header low high) word ↔
      low ≤ high ∧ high ≤ header.length ∧ field header low (high - low) = unsignedBe (high - low) word := by
  unfold headerWord
  simp only [returns_bind_iff, returns_slice_iff, returns_pure_iff]
  constructor
  · rintro ⟨_, ⟨hle, hbound, rfl⟩, rfl⟩
    refine ⟨hle, hbound, (unsignedBe_wordOfBe hn ?_).symm⟩
    rw [field, List.length_take, List.length_drop]
    omega
  · rintro ⟨hle, hbound, hfield⟩
    exact ⟨_, ⟨hle, hbound, rfl⟩, by rw [hfield, wordOfBe_unsignedBe hn]⟩

/-- A capacity that the format can express. -/
theorem capacity_ok_iff {n : Nat} {own : U32} : capacity n = .ok own ↔ own.val = n := by
  unfold capacity
  by_cases h : n < 2 ^ 32
  · rw [dif_pos h, Except.ok.injEq, Fin.ext_iff, eq_comm]
  · rw [dif_neg h]
    have := own.isLt
    exact ⟨fun h' => (nomatch h'), fun h' => by omega⟩

/-- A capacity check passes when the header has this very capacity at its
offset. -/
theorem checkCapacity_returns_iff {n low : Nat} {u : Unit} :
    Checked.Returns (checkCapacity n header low) u ↔
      low + 4 ≤ header.length ∧ ∃ own : U32, own.val = n ∧ field header low 4 = unsignedBe 4 own := by
  unfold checkCapacity
  have hword : ∀ word : U32, Checked.Returns (headerWord (2 ^ 32) header low (low + 4)) word ↔
      low + 4 ≤ header.length ∧ field header low 4 = unsignedBe 4 word := by
    intro word
    rw [headerWord_returns_iff (by rw [Nat.add_sub_cancel_left]; norm_num), Nat.add_sub_cancel_left]
    exact and_iff_right (by omega)
  simp only [returns_bind_iff, hword, returns_liftResult_iff, capacity_ok_iff, returns_ensure_iff]
  constructor
  · rintro ⟨_, ⟨hbound, hfield⟩, own, hown, rfl⟩
    exact ⟨hbound, _, hown, hfield⟩
  · rintro ⟨hbound, own, hown, hfield⟩
    exact ⟨own, ⟨hbound, hfield⟩, own, hown, rfl⟩

/-- The header checks pass exactly on the headers the encoder writes, for the
length of the bytes. -/
theorem decodeHeader_returns_iff :
    Checked.Returns (decodeHeader A R L O bytes) header ↔
      header = field bytes 0 headerSize ∧ ∃ payloadLen applied a r l o digest,
        header = headerBytes payloadLen applied a r l o digest ∧ a.val = A ∧ r.val = R ∧ l.val = L ∧ o.val = O ∧
        headerSize + payloadLen.val < 2 ^ 64 ∧ bytes.length = headerSize + payloadLen.val := by
  unfold decodeHeader
  simp only [returns_bind_iff, returns_ensure_iff, returns_slice_iff, returns_pure_iff, checkCapacity_returns_iff,
    headerWord_returns_iff (show 2 ^ 16 = 256 ^ (10 - 8) by norm_num),
    headerWord_returns_iff (show 2 ^ 16 = 256 ^ (12 - 10) by norm_num),
    headerWord_returns_iff (show 2 ^ 32 = 256 ^ (16 - 12) by norm_num),
    headerWord_returns_iff (show 2 ^ 16 = 256 ^ (18 - 16) by norm_num),
    headerWord_returns_iff (show 2 ^ 16 = 256 ^ (20 - 18) by norm_num),
    headerWord_returns_iff (show 2 ^ 64 = 256 ^ (28 - 20) by norm_num)]
  constructor
  · rintro ⟨_, hsize, header', ⟨_, _, hheader⟩, _, ⟨_, _, rfl⟩, _, hmagic, version, ⟨_, _, hversion⟩, _, rfl, headerLen,
      ⟨_, _, hheaderLen⟩, _, hheaderLen', flags, ⟨_, _, hflags⟩, _, hflags', hash, ⟨_, _, hhash⟩, _, rfl, digestLen,
      ⟨_, _, hdigestLen⟩, _, hdigestLen', payloadLen, ⟨_, _, hpayloadLen⟩, _, hoverflow, _, hlower, _, hupper,
      _, ⟨_, a, ha, hafield⟩, _, ⟨_, r, hr, hrfield⟩, _, ⟨_, l, hl, hlfield⟩, _, ⟨_, o, ho, hofield⟩, _, ⟨_, _, rfl⟩, _,
      hreserved, rfl⟩
    have hlength : header'.length = headerSize := by
      rw [hheader, field, List.length_take, List.length_drop]
      omega
    have hfield : ∀ offset width, offset + width ≤ headerSize → (field header' offset width).length = width := by
      intro offset width hle
      rw [field, List.length_take, List.length_drop, hlength]
      omega
    refine ⟨hheader, payloadLen, wordOfBe (2 ^ 64) (field header' 28 8), a, r, l, o,
      ⟨(field header' 52 32).toArray, hfield 52 32 (by decide)⟩, ?_, ha, hr, hl, ho, hoverflow, by omega⟩
    rw [eq_headerBytes_iff hlength]
    refine ⟨hmagic, hversion, ?_, ?_, hhash, ?_, hpayloadLen, (unsignedBe_wordOfBe (by norm_num) ?_).symm, hafield,
      hrfield, hlfield, hofield, rfl, ?_⟩
    · rw [← hheaderLen']
      exact hheaderLen
    · rw [show flags = 0 from Fin.ext hflags'] at hflags
      exact hflags
    · rw [← hdigestLen']
      exact hdigestLen
    · exact hfield 28 8 (by decide)
    · exact List.eq_replicate_iff.mpr ⟨hfield 84 12 (by decide), hreserved⟩
  · rintro ⟨hheader, payloadLen, applied, a, r, l, o, digest, hbytes, ha, hr, hl, ho, hoverflow, hlength⟩
    have hsize : header.length = headerSize := by rw [hbytes, length_headerBytes]
    obtain ⟨h0, h1, h2, h3, h4, h5, h6, _, h8, h9, h10, h11, _, h13⟩ := (eq_headerBytes_iff hsize).mp hbytes
    have hwithin : ∀ bound, bound ≤ 96 → bound ≤ header.length := fun bound hle => by
      rw [hsize]
      exact hle
    refine ⟨(), by omega, header, ⟨by omega, by omega, hheader⟩, _, ⟨by omega, hwithin _ (by decide), rfl⟩, (), h0,
      snapshotVersion, ⟨by omega, hwithin _ (by decide), h1⟩, (), rfl, ⟨headerSize, by decide⟩,
      ⟨by omega, hwithin _ (by decide), h2⟩, (), rfl, 0, ⟨by omega, hwithin _ (by decide), h3⟩, (), rfl,
      hashAlgorithmSha256, ⟨by omega, hwithin _ (by decide), h4⟩, (), rfl, ⟨digestSize, by decide⟩,
      ⟨by omega, hwithin _ (by decide), h5⟩, (), rfl, payloadLen, ⟨by omega, hwithin _ (by decide), h6⟩, (), hoverflow,
      (), by omega, (), by omega, (), ⟨hwithin _ (by decide), a, ha, h8⟩, (), ⟨hwithin _ (by decide), r, hr, h9⟩, (),
      ⟨hwithin _ (by decide), l, hl, h10⟩, (), ⟨hwithin _ (by decide), o, ho, h11⟩, _,
      ⟨by decide, by rw [hsize], rfl⟩, (), ?_, rfl⟩
    intro byte hbyte
    rw [show headerSize - 84 = 12 from rfl, h13] at hbyte
    exact List.eq_of_mem_replicate hbyte

/-- The digest does not depend on the digest bytes of the header. -/
theorem snapshotDigest_blank (digest digest' : Digest) :
    snapshotDigest sha256 (headerBytes payloadLen applied a r l o digest) payload
      = snapshotDigest sha256 (headerBytes payloadLen applied a r l o digest') payload := by
  have hparts : ∀ digest : Digest, ∃ front : List U8, front.length = digestOffset ∧
      headerBytes payloadLen applied a r l o digest = front ++ (digest.toList ++ List.replicate 12 0) ∧
      front = List.flatten [snapshotMagic, unsignedBe 2 snapshotVersion, toBe 2 headerSize, List.replicate 4 0,
        unsignedBe 2 hashAlgorithmSha256, toBe 2 digestSize, unsignedBe 8 payloadLen, unsignedBe 8 applied,
        unsignedBe 4 a, unsignedBe 4 r, unsignedBe 4 l, unsignedBe 4 o] := by
    intro digest
    refine ⟨_, ?_, ?_, rfl⟩
    · simp only [List.length_flatten, List.map_cons, List.map_nil, List.sum_cons, List.sum_nil, length_snapshotMagic,
        length_unsignedBe, length_toBe, List.length_replicate, Nat.reduceAdd, digestOffset]
    · simp only [headerBytes, List.flatten_cons, List.flatten_nil, List.append_assoc, List.append_nil]
  obtain ⟨front, hlength, hheader, hfront⟩ := hparts digest
  obtain ⟨front', _, hheader', hfront'⟩ := hparts digest'
  obtain rfl : front' = front := hfront'.trans hfront.symm
  have hrest : ∀ digest : Digest, (front' ++ (digest.toList ++ List.replicate 12 (0 : U8))).drop
      (digestOffset + digestSize) = List.replicate 12 0 := by
    intro digest
    have hdigest : digest.toList.length = digestSize := length_digest digest
    rw [← List.drop_drop, ← hlength, List.drop_left, List.drop_left' hdigest]
  unfold snapshotDigest
  rw [hheader, hheader', hrest, hrest, ← hlength, List.take_left, List.take_left]

/-- What a snapshot that decodes is made of. -/
structure SnapshotOf (sha256 : List U8 → Digest) (bytes : List U8) (applied : U64) (digest : Digest)
    (state : GatewayState L O) (payloadLen : U64) (a r l o : U32) : Prop where
  length : payloadLen.val = (payloadBytes state).length
  total : headerSize + payloadLen.val < 2 ^ 64
  sequence : followsApplied state.expectedSequence applied = true
  digest_eq : digest = snapshotDigest sha256 (headerBytes payloadLen applied a r l o digest) (payloadBytes state)
  bytes_eq : bytes = headerBytes payloadLen applied a r l o digest ++ payloadBytes state

/-- Renaming the error of a restore does not change when it succeeds. -/
theorem fromState_mapped_ok_iff {state : GatewayState L O} {gateway : Gateway A R L O} :
    (match (Gateway.fromState state : Except GatewayStateError (Gateway A R L O)) with
      | .ok gateway => Except.ok gateway
      | .error error => Except.error (SnapshotError.gatewayState error)) = Except.ok gateway ↔
      Gateway.fromState state = .ok gateway := by
  cases (Gateway.fromState state : Except GatewayStateError (Gateway A R L O)) <;> simp

/-- A snapshot decodes exactly when it is the encoding of a state that can be
carried and restored. -/
theorem decodeSnapshot_returns_iff {decoded : DecodedSnapshot A R L O} :
    Checked.Returns (decodeSnapshot sha256 bytes) decoded ↔
      ∃ (state : GatewayState L O) (payloadLen : U64) (a r l o : U32),
        (a.val = A ∧ r.val = R ∧ l.val = L ∧ o.val = O) ∧ PayloadValid A R state ∧
        SnapshotOf sha256 bytes decoded.appliedSequence decoded.digest state payloadLen a r l o ∧
        Gateway.fromState state = .ok decoded.gateway := by
  unfold decodeSnapshot
  simp only [returns_bind_iff, returns_ensure_iff, returns_slice_iff, returns_pure_iff, returns_liftResult_iff,
    decodeHeader_returns_iff, decodeGatewayState_returns_iff,
    headerWord_returns_iff (show 2 ^ 64 = 256 ^ (36 - 28) by norm_num)]
  constructor
  · rintro ⟨header, ⟨hheader, payloadLen, applied, a, r, l, o, digest, hfields, ha, hr, hl, ho, htotal, hlength⟩,
      payload, ⟨_, _, hpayload⟩, stored, ⟨_, _, hstored⟩, _, hdigest, applied', ⟨_, _, happlied⟩, state,
      ⟨valid, hstate⟩, _, hsequence, gateway, hgateway, rfl⟩
    have hsize : header.length = headerSize := by rw [hfields, length_headerBytes]
    obtain ⟨_, _, _, _, _, _, _, h7, _, _, _, _, h12, _⟩ := (eq_headerBytes_iff hsize).mp hfields
    obtain rfl : applied' = applied := by
      have hboth : unsignedBe 8 applied' = unsignedBe 8 applied := happlied.symm.trans h7
      have hword := congrArg (wordOfBe (2 ^ 64)) hboth
      rwa [wordOfBe_unsignedBe (by norm_num), wordOfBe_unsignedBe (by norm_num)] at hword
    have hdigest' : snapshotDigest sha256 header payload = digest := by
      apply Vector.toList_inj.mp
      rw [hdigest, hstored]
      exact h12
    have hbytes : bytes = header ++ payload := by
      have hcut := field_append_drop bytes 0 headerSize
      rw [Nat.zero_add, ← hheader] at hcut
      rw [hpayload, field, List.take_of_length_le (by simp), hcut]
      rfl
    refine ⟨state, payloadLen, a, r, l, o, ⟨ha, hr, hl, ho⟩, valid, ⟨?_, htotal, hsequence, ?_, ?_⟩, fromState_mapped_ok_iff.mp hgateway⟩
    · rw [← hstate]
      rw [hbytes, List.length_append, hsize] at hlength
      omega
    · rw [hdigest', ← hfields, ← hstate, hdigest']
    · rw [hdigest', ← hfields, ← hstate]
      exact hbytes
  · rintro ⟨state, payloadLen, a, r, l, o, ⟨ha, hr, hl, ho⟩, valid, snapshot, hgateway⟩
    obtain ⟨gateway, applied, digest⟩ := decoded
    obtain ⟨hlength, htotal, hsequence, hdigest, rfl⟩ := snapshot
    generalize hheader : headerBytes payloadLen applied a r l o digest = header at *
    have hsize : header.length = headerSize := by rw [← hheader, length_headerBytes]
    obtain ⟨_, _, _, _, _, _, _, h7, _, _, _, _, h12, _⟩ := (eq_headerBytes_iff hsize).mp hheader.symm
    refine ⟨header, ⟨?_, payloadLen, applied, a, r, l, o, digest, hheader.symm, ha, hr, hl, ho, htotal, ?_⟩,
      payloadBytes state, ⟨?_, le_refl _, ?_⟩, _, ⟨by decide, ?_, rfl⟩, (), ?_, applied, ⟨by decide, ?_, h7⟩, state,
      ⟨valid, rfl⟩, (), hsequence, gateway, fromState_mapped_ok_iff.mpr hgateway, ?_⟩
    · rw [field, List.drop_zero, ← hsize, List.take_left]
    · rw [List.length_append, hsize, hlength]
    · rw [List.length_append, hsize]
      omega
    · rw [field, ← hsize, List.drop_left, List.take_of_length_le]
      rw [List.length_append]
      omega
    · rw [hsize]
      decide
    · rw [← hdigest]
      exact h12.symm
    · rw [hsize]
      decide
    · rw [← hdigest]

end HftEngine
