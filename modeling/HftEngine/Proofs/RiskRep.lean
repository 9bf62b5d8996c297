/-
Module: HftEngine.Proofs.RiskRep
Layer: Proofs
Purpose: The representation invariant of the risk engine: account and
  reservation slots behind their indices and the free list hold exactly the
  records of a ledger. Each storage operation (lookup, rewriting an account or
  a reservation, releasing and taking a slot) is shown to follow the ledger's
  own.
Imports: HftEngine.Spec.LogicalRisk, HftEngine.Lib.KeyedList,
  HftEngine.Proofs.BookRep
Trusted boundary: none (fully proved)
Main exports: RiskRep, RiskRep.findAccount_spec, RiskRep.liveReservation_spec,
  RiskRep.setAccount_spec, RiskRep.setReservation_spec, RiskRep.release_spec,
  RiskRep.reserve_spec, RiskRep.exportState_eq
-/
import HftEngine.Spec.LogicalRisk
import HftEngine.Lib.KeyedList
import HftEngine.Proofs.BookRep

namespace HftEngine

open Machine SlotArena OpenAddressing KeyedList

variable {A R : Nat} {engine : RiskEngine A R} {state : RiskEngineState} {slot : Nat}
  {account account' : AccountState} {reservation : Reservation} {id : AccountId} {orderId : OrderId}

/-- The account stored in a slot. -/
def RiskEngine.accountAt (engine : RiskEngine A R) (slot : Nat) : Option AccountState :=
  engine.accounts[slot]?.join

/-- The id stored in a reservation slot and the index cell recorded beside
it. -/
def reservationHandle (reservations : Vector (Slot Reservation) R) (slot : Nat) : Option (OrderId × U32) :=
  (liveAt reservations slot).map fun reservation => (reservation.orderId, reservation.indexSlot)

/-- The exported record of a reservation slot. -/
def recordAt (reservations : Vector (Slot Reservation) R) (slot : Nat) : Option ReservationRiskState :=
  (liveAt reservations slot).map RiskEngine.exportReservation

/-- An index over slots tracks their handles. -/
abbrev SlotTracks (n : Nat) (index : ProbeIndex n indexPlanes) (handle : Nat → Option (U64 × U32)) : Prop :=
  Tracks (probeStart (n * indexPlanes)) (· + 1) (fun value => some (value - 1)) index handle

/-- The engine stores exactly the ledger. -/
structure RiskRep (engine : RiskEngine A R) (state : RiskEngineState) : Prop where
  accountCells : ∃ cells : Nat → U32, SlotTracks A engine.accountIndex fun slot =>
    (engine.accountAt slot).map fun account => (RiskEngine.accountKey account.id, cells slot)
  tracked : SlotTracks R engine.reservationIndex (reservationHandle engine.reservations)
  free : ∃ free, FreeChain engine.reservations engine.reservationFreeHead free ∧ free.Nodup ∧
    ∀ slot, slot ∈ free ↔ slot < R ∧ liveAt engine.reservations slot = none
  accounts : (contents A engine.accountAt).Perm state.accounts
  reservations : (contents R (recordAt engine.reservations)).Perm state.reservations
  accountsSorted : Ascending (fun account : AccountState => account.id.val) state.accounts
  reservationsSorted : Ascending (fun record : ReservationRiskState => record.orderId.val) state.reservations
  watermark : ∀ record ∈ state.reservations, ∃ maximum, state.maximumOrderId = some maximum ∧
    record.orderId.val ≤ maximum.val
  maximumOrderId : engine.maximumOrderId = state.maximumOrderId
  killed : engine.killed = state.killed

/-! ### Storage -/

/-- Account ids are widened to keys of the index without loss. -/
theorem accountKey_inj {first second : AccountId} (h : RiskEngine.accountKey first = RiskEngine.accountKey second) :
    first = second := by
  have hval := congrArg Fin.val h
  exact Fin.ext (by simpa [RiskEngine.accountKey] using hval)

/-- A position that holds an account is a position of the array. -/
theorem accountAt_lt (h : engine.accountAt slot = some account) : slot < A := by
  by_contra hge
  rw [RiskEngine.accountAt, Vector.getElem?_eq_none (by omega)] at h
  cases h

/-- Writing an account record, seen through the positions. -/
theorem accountAt_setAccount :
    (engine.setAccount slot account).accountAt
      = if slot < A then Function.update engine.accountAt slot (some account) else engine.accountAt := by
  funext i
  unfold RiskEngine.accountAt RiskEngine.setAccount
  simp only [Vector.getElem?_setIfInBounds]
  by_cases hslot : slot < A
  · by_cases hi : i = slot
    · subst hi
      simp [hslot]
    · simp [hslot, Function.update_of_ne hi, Ne.symm hi]
  · by_cases hi : slot = i
    · subst hi
      simp [hslot]
    · simp [hslot, hi]

/-- Writing a reservation slot, seen through the records it holds. -/
theorem recordAt_setSlot {slots : Vector (Slot Reservation) R} (h : slot < R) (value : Slot Reservation) :
    recordAt (setSlot slots slot value)
      = Function.update (recordAt slots) slot (match value with
          | .live reservation => some (RiskEngine.exportReservation reservation)
          | .free _ => none) := by
  funext i
  unfold recordAt
  by_cases hi : i = slot
  · subst hi
    cases value with
    | free link => simp [liveAt_setSlot_free, h]
    | live reservation => simp [liveAt_setSlot_live, h]
  · rw [liveAt_setSlot_of_ne (Ne.symm hi), Function.update_of_ne hi]

/-- Writing a reservation slot, seen through the handles that the index
tracks. -/
theorem reservationHandle_setSlot {slots : Vector (Slot Reservation) R} (h : slot < R) (value : Slot Reservation) :
    reservationHandle (setSlot slots slot value)
      = Function.update (reservationHandle slots) slot (match value with
          | .live reservation => some (reservation.orderId, reservation.indexSlot)
          | .free _ => none) := by
  funext i
  unfold reservationHandle
  by_cases hi : i = slot
  · subst hi
    cases value with
    | free link => simp [liveAt_setSlot_free, h]
    | live reservation => simp [liveAt_setSlot_live, h]
  · rw [liveAt_setSlot_of_ne (Ne.symm hi), Function.update_of_ne hi]

theorem handle_lt (slots : Vector (Slot Reservation) R) (i : Nat) (h : (reservationHandle slots i).isSome) :
    i ∈ Finset.range R := by
  unfold reservationHandle at h
  rw [Option.isSome_map] at h
  obtain ⟨value, hvalue⟩ := Option.isSome_iff_exists.mp h
  exact Finset.mem_range.mpr (lt_of_liveAt hvalue)

/-- There are more cells than reservation slots, so the order index always has
an empty cell. -/
theorem card_range_lt (h : slot < R) : (Finset.range R).card < R * indexPlanes := by
  rw [Finset.card_range, indexPlanes]
  omega

/-! ### Export -/

/-- The accounts as the export meets them: in the order of their positions. -/
theorem registeredAccounts_eq : engine.registeredAccounts = contents A engine.accountAt := by
  unfold RiskEngine.registeredAccounts
  rw [filterMap_toList]
  refine contents_congr fun i _ => ?_
  unfold RiskEngine.accountAt
  cases engine.accounts[i]? <;> rfl

/-- The reservations as the export meets them: in the order of their slots. -/
theorem liveReservations_eq :
    engine.liveReservations.map RiskEngine.exportReservation = contents R (recordAt engine.reservations) := by
  unfold RiskEngine.liveReservations contents
  rw [filterMap_toList, contents, List.map_filterMap]
  refine List.filterMap_congr fun i _ => ?_
  unfold recordAt liveAt
  cases engine.reservations[i]? with
  | none => rfl
  | some slot => cases slot <;> rfl

namespace RiskRep

variable (rep : RiskRep engine state)
include rep

/-- What an engine exports is its ledger. -/
theorem exportState_eq : engine.exportState = state := by
  have haccounts := insertionSort_eq rep.accountsSorted rep.accounts
  have hreservations := insertionSort_eq rep.reservationsSorted rep.reservations
  unfold RiskEngine.exportState sortByKey
  rw [registeredAccounts_eq, liveReservations_eq, haccounts, hreservations, rep.maximumOrderId, rep.killed]

/-! ### Lookup -/

/-- At most one account answers to an id. -/
theorem account_single (id : AccountId) :
    Single (fun other : AccountState => decide (other.id = id)) state.accounts := by
  intro first hfirst second hsecond hid hid'
  simp only [decide_eq_true_eq] at hid hid'
  exact rep.accountsSorted.eq_of_key hfirst hsecond (by rw [hid, hid'])

/-- At most one reservation answers to an order id. -/
theorem reservation_single (orderId : OrderId) :
    Single (fun other : ReservationRiskState => decide (other.orderId = orderId)) state.reservations := by
  intro first hfirst second hsecond hid hid'
  simp only [decide_eq_true_eq] at hid hid'
  exact rep.reservationsSorted.eq_of_key hfirst hsecond (by rw [hid, hid'])

/-- The accounts of the ledger are the records in the array. -/
theorem mem_accounts : account ∈ state.accounts ↔ ∃ slot < A, engine.accountAt slot = some account := by
  rw [← rep.accounts.mem_iff, mem_contents]

/-- The reservations of the ledger are the records in the live slots. -/
theorem mem_reservations {record : ReservationRiskState} :
    record ∈ state.reservations ↔ ∃ slot < R, recordAt engine.reservations slot = some record := by
  rw [← rep.reservations.mem_iff, mem_contents]

/-- Looking an account up, in storage and in the ledger. -/
theorem findAccount_spec (id : AccountId) :
    (∃ slot account, engine.findAccount id = some (.ok (slot, account)) ∧
        engine.accountAt slot = some account ∧ account.id = id ∧ state.account id = some account) ∨
      (engine.findAccount id = some (.error .unknownAccount) ∧ state.account id = none) := by
  obtain ⟨cells, tracked⟩ := rep.accountCells
  unfold RiskEngine.findAccount RiskEngine.accountSlot ProbeIndex.lookup
  cases hlookup : OpenAddressing.lookup (probeStart (A * indexPlanes)) engine.accountIndex
      (RiskEngine.accountKey id) with
  | some value =>
      left
      obtain ⟨slot, cell, hvalue, hhandle⟩ := (tracked.lookup_iff fun key => probeStart_lt key).mp hlookup
      obtain ⟨account, hat, hpair⟩ := Option.map_eq_some_iff.mp hhandle
      simp only [Prod.mk.injEq] at hpair
      have hid := accountKey_inj hpair.1
      have hstored : engine.accounts[slot]? = some (some account) := by
        unfold RiskEngine.accountAt at hat
        exact Option.join_eq_some_iff.mp hat
      refine ⟨slot, account, ?_, hat, hid, ?_⟩
      · simp [hvalue, hstored]
      · exact find?_of_single (rep.account_single id) (rep.mem_accounts.mpr ⟨slot, accountAt_lt hat, hat⟩)
          (by simpa using hid)
  | none =>
      right
      refine ⟨by simp, ?_⟩
      rw [RiskEngineState.account, List.find?_eq_none]
      intro account haccount
      obtain ⟨slot, _, hat⟩ := rep.mem_accounts.mp haccount
      simp only [decide_eq_true_eq]
      rintro rfl
      exact (tracked.lookup_eq_none_iff fun key => probeStart_lt key).mp hlookup slot (cells slot)
        (by simp [hat])

/-- Looking a reservation up, in storage and in the ledger. -/
theorem liveReservation_spec (orderId : OrderId) :
    (∃ slot reservation, engine.liveReservation orderId = some (slot, reservation) ∧
        liveAt engine.reservations slot = some reservation ∧ reservation.orderId = orderId ∧
        state.reservation orderId = some (RiskEngine.exportReservation reservation)) ∨
      (engine.liveReservation orderId = none ∧ state.reservation orderId = none) := by
  unfold RiskEngine.liveReservation ProbeIndex.lookup
  cases hlookup : OpenAddressing.lookup (probeStart (R * indexPlanes)) engine.reservationIndex orderId with
  | some value =>
      left
      obtain ⟨slot, cell, hvalue, hhandle⟩ := (rep.tracked.lookup_iff fun key => probeStart_lt key).mp hlookup
      obtain ⟨reservation, hlive, hpair⟩ := Option.map_eq_some_iff.mp hhandle
      simp only [Prod.mk.injEq] at hpair
      have hmem : RiskEngine.exportReservation reservation ∈ state.reservations :=
        rep.mem_reservations.mpr ⟨slot, lt_of_liveAt hlive, by simp [recordAt, hlive]⟩
      refine ⟨slot, reservation, ?_, hlive, hpair.1, ?_⟩
      · simp [hvalue, hlive, hpair.1]
      · exact find?_of_single (rep.reservation_single orderId) hmem
          (decide_eq_true hpair.1)
  | none =>
      right
      refine ⟨by simp, ?_⟩
      rw [RiskEngineState.reservation, List.find?_eq_none]
      intro record hrecord
      obtain ⟨slot, _, hat⟩ := rep.mem_reservations.mp hrecord
      obtain ⟨reservation, hlive, rfl⟩ := Option.map_eq_some_iff.mp hat
      simp only [decide_eq_true_eq]
      rintro rfl
      exact (rep.tracked.lookup_eq_none_iff fun key => probeStart_lt key).mp hlookup slot reservation.indexSlot
        (by simp [reservationHandle, hlive, RiskEngine.exportReservation])

/-! ### Rewriting records -/

/-- Rewriting a stored account. -/
theorem setAccount_spec (account' : AccountState) (hat : engine.accountAt slot = some account)
    (hid : account'.id = account.id) :
    RiskRep (engine.setAccount slot account') (state.setAccount account') := by
  have hslot := accountAt_lt hat
  have haccountAt : (engine.setAccount slot account').accountAt
      = Function.update engine.accountAt slot (some account') := by
    rw [accountAt_setAccount, if_pos hslot]
  obtain ⟨cells, tracked⟩ := rep.accountCells
  refine ⟨⟨cells, ?_⟩, rep.tracked, rep.free, ?_, rep.reservations, ?_, rep.reservationsSorted, rep.watermark,
    rep.maximumOrderId, rep.killed⟩
  · rw [haccountAt]
    refine cast ?_ tracked
    congr 1
    funext i
    by_cases hi : i = slot
    · subst hi
      simp [hat, hid]
    · simp [hi]
  · obtain ⟨rest, hbefore, hafter⟩ := contents_update (f := engine.accountAt) hslot
    rw [hat] at hbefore
    have hledger : state.accounts.Perm (account :: rest) := rep.accounts.symm.trans hbefore
    rw [haccountAt]
    refine (hafter (some account')).trans (List.Perm.symm ?_)
    have hmap := perm_map_key rep.accountsSorted.nodup hledger
      (g := fun other => if other.id = account'.id then account' else other)
      (fun other hother => if_neg fun heq => hother (by rw [heq, hid]))
    simpa [RiskEngineState.setAccount, hid] using hmap
  · refine rep.accountsSorted.map fun other => ?_
    split
    · rename_i heq
      rw [heq]
    · rfl

/-- Rewriting the quantity of a stored reservation. -/
theorem setReservation_spec (hlive : liveAt engine.reservations slot = some reservation) (quantity : Quantity) :
    RiskRep (engine.setReservation slot { reservation with quantity := quantity })
      (state.resize reservation.orderId quantity) := by
  have hslot := lt_of_liveAt hlive
  have hresized : ∀ record : ReservationRiskState,
      (if record.orderId = reservation.orderId then { record with quantity := quantity } else record).orderId
        = record.orderId := by
    intro record
    split <;> rfl
  refine ⟨rep.accountCells, ?_, ?_, rep.accounts, ?_, rep.accountsSorted, ?_, ?_, rep.maximumOrderId, rep.killed⟩
  · have hhandle : reservationHandle (engine.setReservation slot { reservation with quantity := quantity }).reservations
        = reservationHandle engine.reservations := by
      rw [RiskEngine.setReservation, reservationHandle_setSlot hslot]
      refine Function.update_eq_self_iff.mpr ?_
      simp [reservationHandle, hlive]
    rw [hhandle]
    exact rep.tracked
  · obtain ⟨free, hchain, hnodup, hfree⟩ := rep.free
    have hnot : slot ∉ free := by
      rw [hfree, hlive]
      simp
    refine ⟨free, hchain.congr fun i hi => ?_, hnodup, fun i => ?_⟩
    · exact freeAt_setSlot_of_ne fun heq => hnot (heq ▸ hi)
    · rw [hfree]
      by_cases hi : i = slot
      · subst hi
        simp [RiskEngine.setReservation, liveAt_setSlot_live, hslot, hlive]
      · rw [RiskEngine.setReservation, liveAt_setSlot_of_ne (Ne.symm hi)]
  · obtain ⟨rest, hbefore, hafter⟩ := contents_update (f := recordAt engine.reservations) hslot
    have hrecord : recordAt engine.reservations slot = some (RiskEngine.exportReservation reservation) := by
      simp [recordAt, hlive]
    rw [hrecord] at hbefore
    have hledger : state.reservations.Perm (RiskEngine.exportReservation reservation :: rest) :=
      rep.reservations.symm.trans hbefore
    rw [RiskEngine.setReservation, recordAt_setSlot hslot]
    refine (hafter _).trans (List.Perm.symm ?_)
    have hmap := perm_map_key rep.reservationsSorted.nodup hledger
      (g := fun record => if record.orderId = reservation.orderId then { record with quantity := quantity } else record)
      (fun record hother => if_neg fun heq => hother (by rw [heq]; rfl))
    simpa [RiskEngineState.resize, RiskEngine.exportReservation] using hmap
  · exact rep.reservationsSorted.map fun record => by rw [hresized]
  · intro record hrecord
    obtain ⟨old, hold, rfl⟩ := List.mem_map.mp hrecord
    rw [hresized]
    exact rep.watermark old hold

end RiskRep

/-! ### Releasing and taking slots -/

/-- Writing back the new cell of a relocated entry changes a back-pointer and
nothing else of the record. -/
theorem updateMoved_spec (slots : Vector (Slot Reservation) R) (move : Move U64 Nat indexLimit) :
    recordAt (RiskEngine.updateMoved slots move) = recordAt slots ∧
      reservationHandle (RiskEngine.updateMoved slots move) = relocate (reservationHandle slots) move ∧
      freeAt (RiskEngine.updateMoved slots move) = freeAt slots := by
  unfold RiskEngine.updateMoved
  cases hlive : liveAt slots move.value with
  | none =>
      simp only
      refine ⟨trivial, ?_, trivial⟩
      funext i
      unfold relocate
      split
      · rename_i hmove
        obtain ⟨rfl, hkey⟩ := hmove
        simp [reservationHandle, hlive] at hkey
      · rfl
  | some moved =>
      have hslot := lt_of_liveAt hlive
      simp only
      by_cases hkey : moved.orderId = move.key
      · rw [if_neg (by simpa using hkey)]
        refine ⟨?_, ?_, ?_⟩
        · rw [recordAt_setSlot hslot]
          refine Function.update_eq_self_iff.mpr ?_
          simp [recordAt, hlive, RiskEngine.exportReservation]
        · rw [reservationHandle_setSlot hslot]
          funext i
          by_cases hi : i = move.value
          · subst hi
            simp [relocate, reservationHandle, hlive, hkey]
          · simp [relocate, hi]
        · funext i
          by_cases hi : move.value = i
          · subst hi
            rw [freeAt_setSlot_live, freeAt_eq_none_of_liveAt hlive]
            simp [hslot]
          · rw [freeAt_setSlot_of_ne hi]
      · rw [if_pos hkey]
        refine ⟨rfl, ?_, rfl⟩
        funext i
        unfold relocate
        split
        · rename_i hmove
          obtain ⟨rfl, hsame⟩ := hmove
          simp only [reservationHandle, hlive, Option.map_some, Option.some.injEq] at hsame
          exact absurd hsame hkey
        · rfl

/-- Writing back all relocations of a removal, by induction over the moves. -/
theorem foldl_updateMoved_spec (moves : List (Move U64 Nat indexLimit)) (slots : Vector (Slot Reservation) R) :
    recordAt (moves.foldl RiskEngine.updateMoved slots) = recordAt slots ∧
      reservationHandle (moves.foldl RiskEngine.updateMoved slots) = relocateAll (reservationHandle slots) moves ∧
      freeAt (moves.foldl RiskEngine.updateMoved slots) = freeAt slots := by
  induction moves generalizing slots with
  | nil => exact ⟨rfl, rfl, rfl⟩
  | cons move moves ih =>
      obtain ⟨hrecord, hhandle, hfree⟩ := updateMoved_spec slots move
      obtain ⟨hrecord', hhandle', hfree'⟩ := ih (RiskEngine.updateMoved slots move)
      rw [List.foldl_cons]
      refine ⟨hrecord'.trans hrecord, ?_, hfree'.trans hfree⟩
      rw [hhandle', hhandle]
      rfl

/-- A slot is live exactly when it holds a record. -/
theorem liveAt_eq_none_iff {slots : Vector (Slot Reservation) R} :
    liveAt slots slot = none ↔ recordAt slots slot = none := by
  simp [recordAt]

namespace RiskRep

variable (rep : RiskRep engine state)
include rep

/-- Releasing a reservation, named by its id and index cell. -/
theorem release_spec {stored : Reservation} (hlive : liveAt engine.reservations slot = some stored)
    (reservation : Reservation) (hid : reservation.orderId = stored.orderId)
    (hcell : reservation.indexSlot = stored.indexSlot) :
    ∃ engine', engine.releaseReservation slot reservation = some engine' ∧
      RiskRep engine' (state.release stored.orderId) := by
  have hslot := lt_of_liveAt hlive
  have hhandle : reservationHandle engine.reservations slot = some (stored.orderId, stored.indexSlot) := by
    simp [reservationHandle, hlive]
  obtain ⟨index, moves, hremove, hne, _, htracked⟩ := rep.tracked.removeAt_spec (fun key => probeStart_lt key)
    hhandle (handle_lt engine.reservations) (card_range_lt hslot)
  obtain ⟨hrecords, hhandles, hfrees⟩ := foldl_updateMoved_spec moves engine.reservations
  obtain ⟨free, hchain, hnodup, hfree⟩ := rep.free
  have hnot : slot ∉ free := by
    rw [hfree, hlive]
    simp
  refine ⟨{ engine with
      reservationIndex := index
      reservations := setSlot (moves.foldl RiskEngine.updateMoved engine.reservations) slot
        (.free engine.reservationFreeHead)
      reservationFreeHead := some slot }, ?_, ?_⟩
  · rw [RiskEngine.releaseReservation, ProbeIndex.removeAt, hid, hcell, hremove]
    rfl
  refine ⟨rep.accountCells, ?_, ⟨slot :: free, ?_, ?_, ?_⟩, rep.accounts, ?_, rep.accountsSorted, ?_, ?_,
    rep.maximumOrderId, rep.killed⟩
  · rw [reservationHandle_setSlot hslot, hhandles, ← relocateAll_update_comm hne]
    exact htracked
  · exact (hchain.congr fun i _ => congrFun hfrees i).release hslot hnot
  · exact List.nodup_cons.mpr ⟨hnot, hnodup⟩
  · intro i
    rw [List.mem_cons, hfree, liveAt_eq_none_iff, liveAt_eq_none_iff, recordAt_setSlot hslot, hrecords]
    by_cases hi : i = slot
    · subst hi
      simp [hslot]
    · simp [hi]
  · obtain ⟨rest, hbefore, hafter⟩ := contents_update (f := recordAt engine.reservations) hslot
    have hrecord : recordAt engine.reservations slot = some (RiskEngine.exportReservation stored) := by
      simp [recordAt, hlive]
    rw [hrecord] at hbefore
    have hledger : state.reservations.Perm (RiskEngine.exportReservation stored :: rest) :=
      rep.reservations.symm.trans hbefore
    rw [recordAt_setSlot hslot, hrecords]
    refine (hafter none).trans (List.Perm.symm ?_)
    have hkeep : (fun record : ReservationRiskState => decide (record.orderId ≠ stored.orderId))
        = fun record => decide (record.orderId.val ≠ (RiskEngine.exportReservation stored).orderId.val) := by
      funext record
      exact decide_eq_decide.mpr (not_congr Fin.ext_iff)
    rw [RiskEngineState.release, hkeep]
    exact perm_filter_key rep.reservationsSorted.nodup hledger
  · exact rep.reservationsSorted.filter _
  · intro record hrecord
    exact rep.watermark record (List.mem_of_mem_filter hrecord)

/-- The free list is empty exactly when the ledger is full. -/
theorem freeHead_none_iff : engine.reservationFreeHead = none ↔ R ≤ state.reservations.length := by
  obtain ⟨free, hchain, hnodup, hfree⟩ := rep.free
  have hlength := length_contents_add (f := recordAt engine.reservations) hnodup fun i => by
    rw [hfree, liveAt_eq_none_iff]
  rw [rep.reservations.length_eq] at hlength
  rw [hchain.head_eq]
  cases free with
  | nil =>
      simp at hlength ⊢
      omega
  | cons slot rest =>
      simp at hlength ⊢
      omega

/-- Taking the first free slot for a new reservation, once its id has an index
cell. -/
theorem reserve_spec (hhead : engine.reservationFreeHead = some slot)
    (hnew : ∀ maximum, state.maximumOrderId = some maximum → maximum.val < orderId.val) (accountId : AccountId)
    (side : Side) (quantity : Quantity) :
    ∃ nextFree, freeAt engine.reservations slot = some nextFree ∧
      ((∃ cell index, engine.reservationIndex.insert orderId slot = .ok (cell, index) ∧
          FitsReservations R (fun id => id = orderId ∨ (state.reservation id).isSome) ∧
          RiskRep { engine.setReservation slot ⟨orderId, accountId, cell, side, quantity⟩ with
            reservationFreeHead := nextFree
            reservationIndex := index
            maximumOrderId := some orderId } (state.reserve ⟨orderId, accountId, side, quantity⟩)) ∨
        (engine.reservationIndex.insert orderId slot = .error .full ∧
          ¬FitsReservations R fun id => id = orderId ∨ (state.reservation id).isSome)) := by
  obtain ⟨free, hchain, hnodup, hfree⟩ := rep.free
  have hbelow : ∀ record ∈ state.reservations, record.orderId.val < orderId.val := by
    intro record hrecord
    obtain ⟨maximum, hmaximum, hle⟩ := rep.watermark record hrecord
    exact hle.trans_lt (hnew maximum hmaximum)
  cases free with
  | nil =>
      rw [hchain.head_eq] at hhead
      cases hhead
  | cons first rest =>
      obtain ⟨hfirst, link, hlink, hrest⟩ := hchain
      rw [hhead] at hfirst
      obtain rfl := Option.some.inj hfirst
      obtain ⟨hslot, hvacant⟩ := (hfree slot).mp (by simp)
      refine ⟨link, hlink, ?_⟩
      have hempty : reservationHandle engine.reservations slot = none := by simp [reservationHandle, hvacant]
      have habsent : ∀ slot' cell, reservationHandle engine.reservations slot' ≠ some (orderId, cell) := by
        intro slot' cell hhandle
        obtain ⟨stored, hlive, hpair⟩ := Option.map_eq_some_iff.mp hhandle
        cases hpair
        have hmem : RiskEngine.exportReservation stored ∈ state.reservations :=
          rep.mem_reservations.mpr ⟨slot', lt_of_liveAt hlive, by simp [recordAt, hlive]⟩
        exact absurd (hbelow _ hmem) (lt_irrefl _)
      have hkeys : (fun id => id = orderId ∨ (state.reservation id).isSome)
          = fun id => id = orderId ∨ ∃ slot' cell, reservationHandle engine.reservations slot' = some (id, cell) := by
        funext id
        rcases rep.liveReservation_spec id with ⟨slot', stored, _, hlive, rfl, hfound⟩ | ⟨_, hnone⟩
        · have : ∃ slot'' cell, reservationHandle engine.reservations slot'' = some (stored.orderId, cell) :=
            ⟨slot', stored.indexSlot, by simp [reservationHandle, hlive]⟩
          simp [hfound, this]
        · have : ¬∃ slot' cell, reservationHandle engine.reservations slot' = some (id, cell) := by
            rintro ⟨slot', cell, hhandle⟩
            obtain ⟨stored, hlive, hpair⟩ := Option.map_eq_some_iff.mp hhandle
            cases hpair
            have hmem : RiskEngine.exportReservation stored ∈ state.reservations :=
              rep.mem_reservations.mpr ⟨slot', lt_of_liveAt hlive, by simp [recordAt, hlive]⟩
            exact List.find?_eq_none.mp hnone _ hmem (by simp [RiskEngine.exportReservation])
          simp [hnone, this]
      rcases rep.tracked.insert_spec (fun key => probeStart_lt key) hempty habsent (by simp)
        (handle_lt engine.reservations) (Finset.mem_range.mpr hslot) (card_range_lt hslot) with
        ⟨cell, index, hinsert, htracked, hfits⟩ | ⟨hinsert, hfits⟩
      · refine .inl ⟨cell, index, hinsert, by rw [hkeys]; exact hfits, ?_⟩
        have hnodup' := List.nodup_cons.mp hnodup
        refine ⟨rep.accountCells, ?_, ⟨rest, ?_, hnodup'.2, ?_⟩, rep.accounts, ?_, rep.accountsSorted, ?_, ?_, rfl,
          rep.killed⟩
        · simp only [RiskEngine.setReservation]
          rw [reservationHandle_setSlot hslot]
          exact htracked
        · exact hrest.congr fun i hi => freeAt_setSlot_of_ne fun heq => hnodup'.1 (heq ▸ hi)
        · intro i
          simp only [RiskEngine.setReservation]
          rw [liveAt_setSlot_live]
          by_cases hi : slot = i
          · subst hi
            simp [hslot, hnodup'.1]
          · have := hfree i
            rw [List.mem_cons] at this
            simp only [hi, false_and, if_false, ← this]
            constructor
            · exact .inr
            · rintro (rfl | h)
              · exact absurd rfl hi
              · exact h
        · obtain ⟨others, hbefore, hafter⟩ := contents_update (f := recordAt engine.reservations) hslot
          have hrecord : recordAt engine.reservations slot = none := by simp [recordAt, hvacant]
          rw [hrecord] at hbefore
          have hledger : state.reservations.Perm others := rep.reservations.symm.trans hbefore
          simp only [RiskEngine.setReservation]
          rw [recordAt_setSlot hslot]
          refine (hafter _).trans ?_
          exact (hledger.symm.cons _).trans (List.perm_append_singleton _ _).symm
        · exact rep.reservationsSorted.append hbelow
        · intro record hrecord
          refine ⟨orderId, rfl, ?_⟩
          rcases List.mem_append.mp hrecord with hmem | hmem
          · exact (hbelow record hmem).le
          · rw [List.mem_singleton.mp hmem]
      · exact .inr ⟨hinsert, by rw [hkeys]; exact hfits⟩

end RiskRep

end HftEngine
