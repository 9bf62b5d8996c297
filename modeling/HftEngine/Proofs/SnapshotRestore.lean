/-
Module: HftEngine.Proofs.SnapshotRestore
Layer: Proofs
Purpose: Snapshots as a whole. Decoding never panics and accepts only what the
  encoder writes for the gateway it returns; a reachable gateway survives its
  own snapshot exactly when its orders are within limits.
Imports: HftEngine.Proofs.GatewayRestore, HftEngine.Proofs.SnapshotCodec
Trusted boundary: none (fully proved)
Main exports: encodeSnapshot_ok_iff, decodeSnapshot_safe, snapshot_canonical,
  reachable_states_restore, amended_state_not_restored
-/
import HftEngine.Proofs.GatewayRestore
import HftEngine.Proofs.SnapshotCodec

namespace HftEngine

open Machine Bytes Transition

variable {A R L O : Nat} {gateway : Gateway A R L O} {logical : LogicalGateway} {sha256 : List U8 → Digest}
  {bytes : List U8} {applied : U64} {snapshot : Snapshot}

/-! ### The encoder -/

/-- The length field can be written exactly when the length of the payload fits
it. -/
theorem payloadLength_ok_iff {payload : List U8} {payloadLen : U64} :
    payloadLength payload = .ok payloadLen ↔ payloadLen.val = payload.length := by
  unfold payloadLength
  split
  · rw [Except.ok.injEq, Fin.ext_iff, eq_comm]
  · have := payloadLen.isLt
    exact ⟨fun h => (nomatch h), fun h => by omega⟩

/-- The encoder writes every state whose counts and capacities fit, at the
sequence before the expected one. -/
theorem encodeSnapshot_ok_iff :
    encodeSnapshot sha256 gateway applied = .ok snapshot ↔
      ∃ (payloadLen : U64) (a r l o : U32), (a.val = A ∧ r.val = R ∧ l.val = L ∧ o.val = O) ∧
        CountsFit gateway.exportState ∧ payloadLen.val = (payloadBytes gateway.exportState).length ∧
        followsApplied gateway.exportState.expectedSequence applied = true ∧ snapshot.appliedSequence = applied ∧
        snapshot.digest = snapshotDigest sha256 (headerBytes payloadLen applied a r l o snapshot.digest)
          (payloadBytes gateway.exportState) ∧
        snapshot.bytes = headerBytes payloadLen applied a r l o snapshot.digest ++
          payloadBytes gateway.exportState := by
  unfold encodeSnapshot
  simp only
  by_cases hsequence : followsApplied gateway.exportState.expectedSequence applied = true
  · rw [if_neg (by simp [hsequence])]
    simp only [bind_eq_ok, encodeGatewayState_ok_iff, payloadLength_ok_iff, capacity_ok_iff, pure, Except.pure, Except.ok.injEq]
    constructor
    · rintro ⟨_, ⟨hfit, rfl⟩, payloadLen, hpayload, a, ha, r, hr, l, hl, o, ho, rfl⟩
      exact ⟨payloadLen, a, r, l, o, ⟨ha, hr, hl, ho⟩, hfit, hpayload, hsequence, rfl, snapshotDigest_blank _ _, rfl⟩
    · rintro ⟨payloadLen, a, r, l, o, ⟨ha, hr, hl, ho⟩, hfit, hpayload, _, happlied, hdigest, hbytes⟩
      refine ⟨_, ⟨hfit, rfl⟩, payloadLen, hpayload, a, ha, r, hr, l, hl, o, ho, ?_⟩
      obtain ⟨stored, digest, sequence⟩ := snapshot
      obtain rfl : sequence = applied := happlied
      simp only at hdigest hbytes
      rw [snapshotDigest_blank _ digest, ← hdigest, ← hbytes]
  · rw [if_pos (by simpa using hsequence)]
    exact ⟨fun h => (nomatch h), fun ⟨_, _, _, _, _, _, _, _, h, _⟩ => absurd h hsequence⟩

/-! ### Safety of the decoder -/

/-- Reading a word within the header does not panic. -/
theorem headerWord_safe {n low high : Nat} [NeZero n] {header : List U8} (h : low ≤ high ∧ high ≤ header.length) :
    Checked.Safe (headerWord n header low high) :=
  safe_bind (safe_slice h) fun _ _ => safe_pure _

/-- The check of a capacity field within the header does not panic. -/
theorem checkCapacity_safe {n low : Nat} {header : List U8} (h : low + 4 ≤ header.length) :
    Checked.Safe (checkCapacity n header low) :=
  safe_bind (headerWord_safe ⟨by omega, h⟩) fun _ _ => safe_bind (safe_liftResult _) fun _ _ => safe_ensure _ _

/-- The header of any byte string is decoded or refused. -/
theorem decodeHeader_safe (bytes : List U8) : Checked.Safe (decodeHeader A R L O bytes) := by
  refine safe_bind (safe_ensure _ _) fun _ hsize => ?_
  obtain hsize : headerSize ≤ bytes.length := returns_ensure_iff.mp hsize
  refine safe_bind (safe_slice ⟨by decide, hsize⟩) fun header hheader => ?_
  -- every access below is inside the ninety-six bytes
  have hwithin : ∀ {low high : Nat}, low ≤ high ∧ high ≤ 96 → low ≤ high ∧ high ≤ header.length := by
    intro low high hrange
    obtain ⟨_, _, rfl⟩ := returns_slice_iff.mp hheader
    rw [field, List.length_take, List.length_drop]
    have : headerSize = 96 := rfl
    omega
  refine safe_bind (safe_slice (hwithin (by decide))) fun _ _ => safe_bind (safe_ensure _ _) fun _ _ =>
    safe_bind (headerWord_safe (hwithin (by decide))) fun _ _ => safe_bind (safe_ensure _ _) fun _ _ =>
    safe_bind (headerWord_safe (hwithin (by decide))) fun _ _ => safe_bind (safe_ensure _ _) fun _ _ =>
    safe_bind (headerWord_safe (hwithin (by decide))) fun _ _ => safe_bind (safe_ensure _ _) fun _ _ =>
    safe_bind (headerWord_safe (hwithin (by decide))) fun _ _ => safe_bind (safe_ensure _ _) fun _ _ =>
    safe_bind (headerWord_safe (hwithin (by decide))) fun _ _ => safe_bind (safe_ensure _ _) fun _ _ =>
    safe_bind (headerWord_safe (hwithin (by decide))) fun _ _ => safe_bind (safe_ensure _ _) fun _ _ =>
    safe_bind (safe_ensure _ _) fun _ _ => safe_bind (safe_ensure _ _) fun _ _ => ?_
  have hcapacity : ∀ {n low : Nat}, low + 4 ≤ 96 → Checked.Safe (checkCapacity n header low) := fun {_ low} hlow =>
    checkCapacity_safe (hwithin ⟨Nat.le_add_right low 4, hlow⟩).2
  exact safe_bind (hcapacity (by decide)) fun _ _ => safe_bind (hcapacity (by decide)) fun _ _ =>
    safe_bind (hcapacity (by decide)) fun _ _ => safe_bind (hcapacity (by decide)) fun _ _ =>
    safe_bind (safe_slice (hwithin (by decide))) fun _ _ => safe_bind (safe_ensure _ _) fun _ _ => safe_pure _

/-- Decoding never panics. -/
theorem decodeSnapshot_safe (sha256 : List U8 → Digest) (bytes : List U8) :
    Checked.Safe (decodeSnapshot sha256 bytes : Checked SnapshotError (DecodedSnapshot A R L O)) := by
  refine safe_bind (decodeHeader_safe bytes) fun header hheader => ?_
  obtain ⟨_, payloadLen, _, _, _, _, _, _, hfields, _, _, _, _, _, hlength⟩ := decodeHeader_returns_iff.mp hheader
  have hsize : header.length = 96 := by
    rw [hfields, length_headerBytes]
    rfl
  have hwithin : ∀ {low high : Nat}, low ≤ high ∧ high ≤ 96 → low ≤ high ∧ high ≤ header.length := by
    rw [hsize]
    exact fun h => h
  exact safe_bind (safe_slice ⟨by omega, le_refl _⟩) fun payload _ =>
    safe_bind (safe_slice (hwithin (by decide))) fun _ _ => safe_bind (safe_ensure _ _) fun _ _ =>
    safe_bind (headerWord_safe (hwithin (by decide))) fun _ _ => safe_bind (decodeGatewayState_safe payload) fun _ _ =>
    safe_bind (safe_ensure _ _) fun _ _ => safe_bind (safe_liftResult _) fun _ _ => safe_pure _

/-! ### Array accesses of the rebuild -/

/-- The level slots an index lists or keeps free are the `L` slots of its
side. -/
structure LevelIndex.InRange (L : Nat) (index : LevelIndex) : Prop where
  listed : ∀ entry ∈ index.entries, entry.2 < L
  free : ∀ slot ∈ index.free, slot < L
  total : index.entries.length + index.free.length = L

/-- A price index hands out slots of its arena only. -/
theorem LevelIndex.InRange.insert {index index' : LevelIndex} {price : PriceTicks} {descending : Bool} {slot : Nat}
    (h : index.InRange L) (hinsert : index.insert price descending = some (slot, index')) :
    slot < L ∧ index'.InRange L := by
  obtain ⟨entries, free⟩ := index
  cases free with
  | nil => cases hinsert
  | cons first free =>
      cases hinsert
      have hposition : (position ⟨entries, slot :: free⟩ price descending).1 ≤ entries.length :=
        (List.takeWhile_sublist _).length_le
      have htotal := h.total
      simp only [List.length_cons] at htotal
      refine ⟨h.free _ (by simp), ?_, fun other hother => h.free other (List.mem_cons_of_mem _ hother), ?_⟩
      · intro entry hentry
        rcases (List.mem_insertIdx hposition).mp hentry with rfl | hold
        · exact h.free _ (by simp)
        · exact h.listed entry hold
      · change (entries.insertIdx _ _).length + free.length = L
        rw [List.length_insertIdx_of_le_length hposition]
        omega

/-- Restoring the orders of a level does not touch the price indices. -/
theorem restoreOrders_sideIndex {book book' : OrderBook L O} {side : Side} {levelIndex : Nat}
    {orders : List BookOrderState} (h : OrderBook.restoreOrders side levelIndex orders book = .ok book')
    (other : Side) : book'.sideIndex other = book.sideIndex other := by
  induction orders generalizing book with
  | nil =>
      cases h
      rfl
  | cons order rest ih =>
      obtain ⟨middle, horder, hrest⟩ := bind_eq_ok.mp h
      rw [ih hrest, restoreOrder_sideIndex horder]

/-- Restoring a level keeps the price indices within the arenas. -/
theorem restoreLevel_inRange {book book' : OrderBook L O} {level : BookLevelState O}
    (hrange : ∀ side, (book.sideIndex side).InRange L) (h : book.restoreLevel level = .ok book') (side : Side) :
    (book'.sideIndex side).InRange L := by
  unfold OrderBook.restoreLevel at h
  split at h
  · cases h
  · rename_i slot index hinsert
    rw [restoreOrders_sideIndex h, OrderBook.sideIndex_setLevel]
    rw [OrderBook.sideIndex_setSideIndex]
    split
    · exact ((hrange _).insert hinsert).2
    · exact hrange side

/-- Restoring any number of levels keeps the price indices within the
arenas. -/
theorem restoreLevels_inRange {book book' : OrderBook L O} {levels : List (BookLevelState O)}
    (hrange : ∀ side, (book.sideIndex side).InRange L) (h : OrderBook.restoreLevels levels book = .ok book')
    (side : Side) : (book'.sideIndex side).InRange L := by
  induction levels generalizing book with
  | nil =>
      cases h
      exact hrange side
  | cons level rest ih =>
      obtain ⟨middle, hlevel, hrest⟩ := bind_eq_ok.mp h
      exact ih (restoreLevel_inRange hrange hlevel) hrest

/-- The array accesses of a rebuild are in range: the slices up to the counts,
the slots of the accounts and reservations, and the slot each level is put
in. -/
structure RestoreInBounds (A R : Nat) (state : GatewayState L O) : Prop where
  accounts : state.risk.accounts.length ≤ A
  reservations : state.risk.reservations.length ≤ R
  bids : state.book.bidLevelCount ≤ L
  asks : state.book.askLevelCount ≤ L
  orders : ∀ level ∈ state.book.activeBids ++ state.book.activeAsks, level.orderCount ≤ O
  levels : ∀ before level after (book : OrderBook L O) slot index,
    state.book.activeBids ++ state.book.activeAsks = before ++ level :: after →
    OrderBook.restoreLevels before (OrderBook.new state.instrument) = .ok book →
    (book.sideIndex level.side).insert level.price level.side.descending = some (slot, index) →
    slot < L ∧ index.entries.length ≤ L

/-- A payload that passed the checks can be restored without an index out of
bounds. -/
theorem PayloadValid.restoreInBounds {state : GatewayState L O} (valid : PayloadValid A R state) :
    RestoreInBounds A R state := by
  refine ⟨valid.accounts.1, valid.reservations.1, valid.bids.1, valid.asks.1, ?_, ?_⟩
  · intro level hlevel
    rcases List.mem_append.mp hlevel with hbid | hask
    · exact (valid.bidLevels level hbid).capacity
    · exact (valid.askLevels level hask).capacity
  · intro before level _ book slot index _ hbefore hinsert
    have hnew : ∀ side, ((OrderBook.new state.instrument : OrderBook L O).sideIndex side).InRange L := by
      intro side
      have hfresh : (OrderBook.new state.instrument : OrderBook L O).sideIndex side = LevelIndex.new L := by
        cases side <;> rfl
      rw [hfresh]
      exact ⟨fun _ h => (nomatch h), fun slot h => List.mem_range.mp h, by simp [LevelIndex.new]⟩
    obtain ⟨hslot, hrange⟩ := (restoreLevels_inRange hnew hbefore level.side).insert hinsert
    have htotal := hrange.total
    exact ⟨hslot, by omega⟩

/-! ### Canonicity -/

/-- A snapshot that decodes is what the encoder writes for the decoded
gateway. -/
theorem encodeSnapshot_of_decoded {decoded : DecodedSnapshot A R L O}
    (h : Checked.Returns (decodeSnapshot sha256 bytes) decoded) :
    encodeSnapshot sha256 decoded.gateway decoded.appliedSequence
      = .ok ⟨bytes, decoded.digest, decoded.appliedSequence⟩ := by
  obtain ⟨state, payloadLen, a, r, l, o, hcapacities, valid, snapshot, hgateway⟩ := decodeSnapshot_returns_iff.mp h
  rw [encodeSnapshot_ok_iff, (gatewayRep_of_fromState hgateway).2]
  exact ⟨payloadLen, a, r, l, o, hcapacities, valid.countsFit, snapshot.length, snapshot.sequence, rfl,
    snapshot.digest_eq, snapshot.bytes_eq⟩

/-- A sequence has one predecessor. -/
theorem followsApplied_unique {expected : SequenceNumber} {applied applied' : U64}
    (h : followsApplied expected applied = true) (h' : followsApplied expected applied' = true) :
    applied = applied' := by
  simp only [followsApplied, decide_eq_true_eq, checkedAdd_eq_some] at h h'
  exact Fin.ext (by omega)

/-- The encoder sees nothing of a gateway but the state it exports. -/
theorem encodeSnapshot_congr {gateway' : Gateway A R L O} (h : gateway.exportState = gateway'.exportState) :
    encodeSnapshot sha256 gateway applied = encodeSnapshot sha256 gateway' applied := by
  unfold encodeSnapshot
  rw [h]

/-- Decoding is safe on every byte string and accepts only canonical bytes:
what is accepted is what the encoder writes for the gateway it decodes to, so
different accepted bytes decode to different states. -/
theorem snapshot_canonical (sha256 : List U8 → Digest) (bytes : List U8) :
    Checked.Safe (decodeSnapshot sha256 bytes : Checked SnapshotError (DecodedSnapshot A R L O)) ∧
    (∀ payload (state : GatewayState L O), Checked.Returns (decodeGatewayState A R L O payload) state →
      RestoreInBounds A R state) ∧
    ∀ decoded : DecodedSnapshot A R L O, Checked.Returns (decodeSnapshot sha256 bytes) decoded →
      encodeSnapshot sha256 decoded.gateway decoded.appliedSequence
        = .ok ⟨bytes, decoded.digest, decoded.appliedSequence⟩ ∧
      ∀ other (decoded' : DecodedSnapshot A R L O), Checked.Returns (decodeSnapshot sha256 other) decoded' →
        decoded.gateway.exportState = decoded'.gateway.exportState → bytes = other := by
  refine ⟨decodeSnapshot_safe sha256 bytes, fun payload state hstate =>
    (decodeGatewayState_returns_iff.mp hstate).1.restoreInBounds, ?_⟩
  intro decoded hdecoded
  have hencoded := encodeSnapshot_of_decoded hdecoded
  refine ⟨hencoded, ?_⟩
  intro other decoded' hother hsame
  have hencoded' := encodeSnapshot_of_decoded hother
  have happlied : decoded.appliedSequence = decoded'.appliedSequence := by
    obtain ⟨_, _, _, _, _, _, _, _, hfollows, _⟩ := encodeSnapshot_ok_iff.mp hencoded
    obtain ⟨_, _, _, _, _, _, _, _, hfollows', _⟩ := encodeSnapshot_ok_iff.mp hencoded'
    rw [hsame] at hfollows
    exact followsApplied_unique hfollows hfollows'
  rw [encodeSnapshot_congr hsame, happlied, hencoded'] at hencoded
  exact (congrArg Snapshot.bytes (Except.ok.inj hencoded)).symm

/-- A hash for samples: the number of bytes. -/
def countingHash (bytes : List U8) : Digest := Vector.replicate _ (Fin.ofNat _ bytes.length)

/-- Whether a gateway's snapshot can be written and read back. -/
def snapshotDecodes (sha256 : List U8 → Digest) (gateway : Gateway A R L O) (applied : U64) : Bool :=
  (encodeSnapshot sha256 gateway applied).toOption.any fun snapshot =>
    (decodeSnapshot sha256 snapshot.bytes : Checked SnapshotError (DecodedSnapshot A R L O)).any fun result =>
      result.toOption.isSome

/-- The executable test of a round trip gives the round trip. -/
theorem exists_of_snapshotDecodes (h : snapshotDecodes sha256 gateway applied = true) :
    ∃ snapshot, ∃ decoded : DecodedSnapshot A R L O, encodeSnapshot sha256 gateway applied = .ok snapshot ∧
      Checked.Returns (decodeSnapshot sha256 snapshot.bytes) decoded := by
  unfold snapshotDecodes at h
  cases hencoded : encodeSnapshot sha256 gateway applied with
  | error => rw [hencoded] at h; cases h
  | ok snapshot =>
      rw [hencoded] at h
      simp only [Except.toOption, Option.any_some] at h
      cases hdecoded : (decodeSnapshot sha256 snapshot.bytes : Checked SnapshotError (DecodedSnapshot A R L O)) with
      | none => rw [hdecoded] at h; cases h
      | some result =>
          cases result with
          | error _ => rw [hdecoded] at h; cases h
          | ok decoded => exact ⟨snapshot, decoded, rfl, hdecoded⟩

/-- With an offer and a bid resting and both accounts holding a position, the
snapshot decodes, and encoding the result gives its bytes back. -/
theorem snapshot_canonical_sample : ∃ answers, ∃ gateway : Gateway 2 4 2 2, ∃ snapshot,
    ∃ decoded : DecodedSnapshot 2 4 2 2,
    run Gateway.call (Gateway.new sampleRisk 7) restingCalls = some (answers, gateway) ∧
    (gateway.exportState.book.activeBids.length, gateway.exportState.book.activeAsks.length,
      gateway.exportState.risk.reservations.length) = (1, 1, 2) ∧
    encodeSnapshot countingHash gateway 3 = .ok snapshot ∧
    Checked.Returns (decodeSnapshot countingHash snapshot.bytes) decoded ∧
    encodeSnapshot countingHash decoded.gateway decoded.appliedSequence
      = .ok ⟨snapshot.bytes, decoded.digest, decoded.appliedSequence⟩ := by
  obtain ⟨⟨answers, gateway⟩, hrun, hresting, hdecodes⟩ := exists_of_any
    (run Gateway.call (Gateway.new sampleRisk 7 : Gateway 2 4 2 2) restingCalls)
    (fun result => (result.2.exportState.book.activeBids.length, result.2.exportState.book.activeAsks.length,
        result.2.exportState.risk.reservations.length) = (1, 1, 2) ∧
      snapshotDecodes countingHash result.2 3 = true) (by decide +kernel)
  obtain ⟨snapshot, decoded, hencoded, hdecoded⟩ := exists_of_snapshotDecodes hdecodes
  exact ⟨answers, gateway, snapshot, decoded, hrun, hresting, hencoded, hdecoded,
    ((snapshot_canonical countingHash snapshot.bytes).2.2 decoded hdecoded).1⟩

/-! ### Snapshots of reachable gateways -/

/-- Parts of one width make up a multiple of it. -/
theorem length_flatMap_const {α : Type} {encode : α → List U8} {width : Nat} (h : ∀ item, (encode item).length = width)
    (items : List α) : (items.flatMap encode).length = width * items.length := by
  induction items with
  | nil => rfl
  | cons item rest ih =>
      rw [List.flatMap_cons, List.length_append, h, ih, List.length_cons]
      ring

/-- The bytes of the levels: a fixed head for each level and a fixed record for
each order. -/
theorem length_flatMap_levelBytes (levels : List (BookLevelState O)) :
    (levels.flatMap levelBytes).length = 13 * levels.length + 37 * (levels.flatMap BookLevelState.active).length := by
  have horder : ∀ order : BookOrderState, (encodeBookOrder order).length = 37 := by
    intro order
    simp [encodeBookOrder]
  induction levels with
  | nil => rfl
  | cons level rest ih =>
      rw [List.flatMap_cons, List.length_append, ih, levelBytes, List.flatMap_cons]
      simp only [List.length_append, List.length_cons, List.length_nil, length_signedBe, length_toBe,
        length_flatMap_const horder]
      ring

/-- The size of a payload. -/
theorem length_payloadBytes (state : GatewayState L O) :
    (payloadBytes state).length = 47 + 109 * state.risk.accounts.length + 21 * state.risk.reservations.length +
      13 * (state.book.activeBids ++ state.book.activeAsks).length + 37 * state.book.orders.length := by
  have haccount : ∀ account : AccountRiskState, (encodeAccount account).length = 109 := by
    intro account
    simp [encodeAccount]
  have hreservation : ∀ reservation : ReservationRiskState, (encodeReservation reservation).length = 21 := by
    intro reservation
    simp [encodeReservation]
  have hlevels := length_flatMap_levelBytes (state.book.activeBids ++ state.book.activeAsks)
  rw [List.flatMap_append, List.length_append] at hlevels
  unfold payloadBytes
  simp only [List.length_append, length_flatMap_const haccount, length_flatMap_const hreservation] at hlevels ⊢
  simp only [encodeOptionalOrder, List.length_append, length_unsignedBe, length_toBe, List.length_cons,
    List.length_nil] at hlevels ⊢
  rw [BookState.orders]
  omega

/-- A reachable gateway is restored from its own state exactly when its orders
are within limits. -/
theorem restores_iff_withinLimits (h : GatewayCanonical gateway) :
    (∃ restored : Gateway A R L O, Gateway.fromState gateway.exportState = .ok restored) ↔ WithinLimits gateway := by
  obtain ⟨logical, rep, canonical⟩ := h
  rw [rep.exportState_eq, fromState_state_iff canonical rep, withinLimits_iff rep canonical.sound]

/-- The state of a canonical gateway fits the format when its capacities do. -/
theorem payloadValid_of_canonical (rep : GatewayRep gateway logical) (canonical : logical.Canonical)
    (hA : A < 2 ^ 32) (hR : R < 2 ^ 32) (hL : L < 2 ^ 32) (hO : O < 2 ^ 32) :
    PayloadValid A R gateway.exportState := by
  have valid := stateValid_of_canonical canonical rep
  have risk := riskStateValid_of_canonical canonical rep
  have hcoded : ∀ side, ∀ level ∈ (logical.book.state L O).activeSide side, LevelCoded level := by
    intro side level hlevel
    have levelValid := valid.levels side level hlevel
    have hcount := levelValid.count_le
    exact ⟨hcount, by omega, levelValid.padding⟩
  have haccounts := risk.accountCount
  have hreservations := risk.reservationCount
  have hbids := valid.bidCount
  have hasks := valid.askCount
  rw [rep.exportState_eq]
  exact ⟨rfl, ⟨haccounts, by simp only [LogicalGateway.state]; omega⟩,
    ⟨hreservations, by simp only [LogicalGateway.state]; omega⟩, ⟨hbids, by simp only [LogicalGateway.state]; omega⟩,
    ⟨hasks, by simp only [LogicalGateway.state]; omega⟩, hcoded .buy, hcoded .sell, valid.bidPadding, valid.askPadding⟩

/-- A canonical gateway survives its own snapshot when it survives its own
state. -/
theorem decodeSnapshot_encoded (h : GatewayCanonical gateway) (hA : A < 2 ^ 32) (hR : R < 2 ^ 32) (hL : L < 2 ^ 32)
    (hO : O < 2 ^ 32) {restored : Gateway A R L O} (hrestored : Gateway.fromState gateway.exportState = .ok restored) :
    ∃ applied snapshot digest, encodeSnapshot sha256 gateway applied = .ok snapshot ∧
      Checked.Returns (decodeSnapshot sha256 snapshot.bytes) ⟨restored, applied, digest⟩ := by
  obtain ⟨logical, rep, canonical⟩ := h
  have valid := payloadValid_of_canonical rep canonical hA hR hL hO
  have horders : gateway.exportState.book.orders.length = gateway.exportState.risk.reservations.length := by
    have hlength := canonical.sound.ledger.length_eq
    rw [List.length_map] at hlength
    rw [show gateway.exportState.book = gateway.book.exportState from rfl, orders_exportState rep.book, List.length_map,
      rep.exportState_eq]
    exact hlength.symm
  have hlevels : (gateway.exportState.book.activeBids ++ gateway.exportState.book.activeAsks).length ≤ 2 * L := by
    rw [List.length_append, BookState.activeBids, BookState.activeAsks, length_activePart _ valid.bids.1,
      length_activePart _ valid.asks.1]
    have hbids := valid.bids.1
    have hasks := valid.asks.1
    omega
  have hlength : (payloadBytes gateway.exportState).length < 2 ^ 63 := by
    have haccounts := valid.accounts.2
    have hreservations := valid.reservations.2
    rw [length_payloadBytes, horders]
    omega
  obtain ⟨applied, hfollows⟩ : ∃ applied : U64,
      followsApplied gateway.exportState.expectedSequence applied = true := by
    have hfirst := canonical.stamped.first
    have hbound := logical.expectedSequence.isLt
    refine ⟨⟨logical.expectedSequence.val - 1, by omega⟩, ?_⟩
    rw [rep.exportState_eq, followsApplied, decide_eq_true_eq, checkedAdd_eq_some]
    simp only [LogicalGateway.state, Fin.val_one]
    omega
  obtain ⟨payloadLen, hpayloadLen⟩ : ∃ payloadLen : U64, payloadLen.val = (payloadBytes gateway.exportState).length :=
    ⟨⟨(payloadBytes gateway.exportState).length, by omega⟩, rfl⟩
  have hcapacity : ∀ n, n < 2 ^ 32 → ∃ word : U32, word.val = n := fun n hn => ⟨⟨n, hn⟩, rfl⟩
  obtain ⟨⟨a, ha⟩, ⟨r, hr⟩, ⟨l, hl⟩, ⟨o, ho⟩⟩ := And.intro (hcapacity A hA) (And.intro (hcapacity R hR)
    (And.intro (hcapacity L hL) (hcapacity O hO)))
  obtain ⟨digest, hdigest⟩ : ∃ digest, digest = snapshotDigest sha256 (headerBytes payloadLen applied a r l o digest)
      (payloadBytes gateway.exportState) := ⟨_, snapshotDigest_blank (Vector.replicate _ 0) _⟩
  have htotal : headerSize + payloadLen.val < 2 ^ 64 := by
    have : headerSize = 96 := rfl
    omega
  refine ⟨applied, ⟨headerBytes payloadLen applied a r l o digest ++ payloadBytes gateway.exportState, digest, applied⟩,
    digest, ?_, ?_⟩
  · rw [encodeSnapshot_ok_iff]
    exact ⟨payloadLen, a, r, l, o, ⟨ha, hr, hl, ho⟩, valid.countsFit, hpayloadLen, hfollows, rfl, hdigest, rfl⟩
  · rw [decodeSnapshot_returns_iff]
    exact ⟨gateway.exportState, payloadLen, a, r, l, o, ⟨ha, hr, hl, ho⟩, valid,
      ⟨hpayloadLen, htotal, hfollows, hdigest, rfl⟩, hrestored⟩

/-- A snapshot of a canonical gateway that decodes was restored from the
gateway's own state. -/
theorem fromState_of_decoded (h : GatewayCanonical gateway)
    (hencoded : encodeSnapshot sha256 gateway applied = .ok snapshot)
    {decoded : DecodedSnapshot A R L O} (hdecoded : Checked.Returns (decodeSnapshot sha256 snapshot.bytes) decoded) :
    Gateway.fromState gateway.exportState = .ok decoded.gateway ∧
      followsApplied gateway.expectedSequence decoded.appliedSequence = true := by
  obtain ⟨logical, rep, canonical⟩ := h
  obtain ⟨_, a, r, l, o, ⟨ha, hr, hl, ho⟩, _, _, _, _, _, hbytes⟩ := encodeSnapshot_ok_iff.mp hencoded
  obtain ⟨state, _, _, _, _, _, _, valid, hsnapshot, hrestored⟩ := decodeSnapshot_returns_iff.mp hdecoded
  have valid' : PayloadValid A R gateway.exportState := payloadValid_of_canonical rep canonical (ha ▸ a.isLt) (hr ▸ r.isLt)
    (hl ▸ l.isLt) (ho ▸ o.isLt)
  -- the headers have one length, so the payloads are the same bytes
  have hpayload : payloadBytes gateway.exportState = payloadBytes state := by
    have hboth := hbytes.symm.trans hsnapshot.bytes_eq
    exact (List.append_inj hboth (by rw [length_headerBytes, length_headerBytes])).2
  have hdecode := decodeGatewayState_returns_iff.mpr ⟨valid, hpayload⟩
  have hdecode' := decodeGatewayState_returns_iff.mpr ⟨valid', rfl⟩
  obtain rfl : gateway.exportState = state := by
    unfold Checked.Returns at hdecode hdecode'
    exact Except.ok.inj (Option.some.inj (hdecode'.symm.trans hdecode))
  exact ⟨hrestored, hsnapshot.sequence⟩

/-- In every run from a configured risk engine whose amends keep to the limits,
the gateway is restored from its own state, exporting it again, and from its
own snapshot when the format can write its capacities. -/
theorem reachable_states_restore (sha256 : List U8 → Digest) {risk : RiskEngine A R} (hconfigured : Configured risk)
    (instrument : InstrumentId) {calls : List GatewayCall} {answers : List GatewayAnswer}
    (hrun : run Gateway.call (Gateway.new risk instrument : Gateway A R L O) calls = some (answers, gateway))
    (hamends : ∀ before call after answers middle, calls = before ++ call :: after →
      run Gateway.call (Gateway.new risk instrument : Gateway A R L O) before = some (answers, middle) →
      AmendsWithin middle call) :
    ∃ restored : Gateway A R L O, Gateway.fromState gateway.exportState = .ok restored ∧
      restored.exportState = gateway.exportState ∧
      (A < 2 ^ 32 → R < 2 ^ 32 → L < 2 ^ 32 → O < 2 ^ 32 → ∃ applied snapshot digest,
        encodeSnapshot sha256 gateway applied = .ok snapshot ∧
        Checked.Returns (decodeSnapshot sha256 snapshot.bytes) ⟨restored, applied, digest⟩) := by
  obtain ⟨state, rep, fresh⟩ := hconfigured.ledger
  have hcanonical := run_canonical ⟨_, gatewayRep_new rep instrument, canonical_new rep fresh instrument⟩ hrun
  obtain ⟨logical, rep', sound, within⟩ := run_invariant_of (fun h hok hcall => call_within h hok hcall) hamends
    (within_new hconfigured instrument) hrun
  obtain ⟨restored, hrestored⟩ := (restores_iff_withinLimits hcanonical).mpr ((withinLimits_iff rep' sound).mpr within)
  exact ⟨restored, hrestored, (gatewayRep_of_fromState hrestored).2, fun hA hR hL hO =>
    decodeSnapshot_encoded hcanonical hA hR hL hO hrestored⟩

/-- A gateway whose only order was amended to 50 at 15, above the account's
size limit of 10, is not restored from its own state. -/
theorem amended_state_not_restored : ∃ answers gateway,
    Configured (RiskEngine.new.registerAccount 1 ⟨10, 1000, 1000, 10, i64 5, i64 20⟩ :
      Except RegistrationError Unit × RiskEngine 1 1).2 ∧
    run Gateway.call tightGateway (amendedOffer (i64 15) 50) = some (answers, gateway) ∧
    ∀ restored : Gateway 1 1 1 1, Gateway.fromState gateway.exportState ≠ .ok restored := by
  obtain ⟨⟨answers, gateway⟩, hrun, hrefused⟩ := exists_of_any
    (run Gateway.call tightGateway (amendedOffer (i64 15) 50))
    (fun result => (Gateway.fromState result.2.exportState :
      Except GatewayStateError (Gateway 1 1 1 1)).toOption.isNone = true) (by decide +kernel)
  refine ⟨answers, gateway, .registerAccount _ _ .new, hrun, ?_⟩
  intro restored hrestored
  rw [hrestored] at hrefused
  cases hrefused

/-- Amending to 8 at 15 leaves a gateway that survives its own snapshot. -/
theorem reachable_states_restore_sample : ∃ answers gateway, ∃ restored : Gateway 1 1 1 1,
    run Gateway.call tightGateway (amendedOffer (i64 15) 8) = some (answers, gateway) ∧
    Gateway.fromState gateway.exportState = .ok restored ∧ restored.exportState = gateway.exportState := by
  obtain ⟨⟨answers, gateway⟩, hrun, _⟩ := exists_of_any
    (run Gateway.call tightGateway (amendedOffer (i64 15) 8)) (fun _ => True) (by decide +kernel)
  obtain ⟨restored, hrestored, hsame, _⟩ := reachable_states_restore countingHash (.registerAccount _ _ .new) 7 hrun
    amendedOffer_amendsWithin
  exact ⟨answers, gateway, restored, hrun, hrestored, hsame⟩

end HftEngine
