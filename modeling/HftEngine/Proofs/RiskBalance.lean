/-
Module: HftEngine.Proofs.RiskBalance
Layer: Proofs
Purpose: The bookkeeping of the risk ledger: reserved totals and open-order
  counts are the sums over the reservations, worst-case positions stay inside
  the limits. Every operation exchanges the claims of one account and moves one
  position; the operations a gateway issues after a book mutation cannot fail.
Imports: HftEngine.Spec.LogicalRisk, HftEngine.Lib.KeyedList
Trusted boundary: none (fully proved)
Main exports: reservedTotal, openCount, Balanced, RiskEngineState.Consistent,
  Exchange, checkAndReserve_exchange, settle_exchange, recordFill_exchange,
  adjustReservation_exchange, restore_adjusted, cancelReservation_exchange
-/
import HftEngine.Spec.LogicalRisk
import HftEngine.Lib.KeyedList

namespace HftEngine

open Machine KeyedList

variable {state state' : RiskEngineState} {account account' : AccountState}
  {reservation : ReservationRiskState} {reservations others : List ReservationRiskState} {side : Side}
  {id : AccountId} {orderId : OrderId}

/-! ### Totals -/

/-- Buying adds to a position, selling takes from it. -/
def Side.sign : Side → Int
  | .buy => 1
  | .sell => -1

/-- One of the two reserved totals. -/
def reservedOn (buys sells : U128) : Side → U128
  | .buy => buys
  | .sell => sells

/-- The reserved total of a side of an account. -/
def AccountState.reserved (account : AccountState) : Side → U128 :=
  reservedOn account.reservedBuys account.reservedSells

/-- What a reservation adds to the reserved total of an account on one side. -/
def claim (side : Side) (id : AccountId) (reservation : ReservationRiskState) : Nat :=
  if reservation.accountId = id ∧ reservation.side = side then reservation.quantity.val else 0

/-- Quantity the reservations hold for an account on one side. -/
def reservedTotal (side : Side) (id : AccountId) (reservations : List ReservationRiskState) : Nat :=
  (reservations.map (claim side id)).sum

/-- Number of reservations of an account. -/
def openCount (id : AccountId) (reservations : List ReservationRiskState) : Nat :=
  reservations.countP fun reservation => reservation.accountId = id

@[simp] theorem reservedTotal_nil : reservedTotal side id [] = 0 := rfl

@[simp] theorem reservedTotal_cons :
    reservedTotal side id (reservation :: reservations)
      = claim side id reservation + reservedTotal side id reservations := by
  simp [reservedTotal]

/-- The total of two lists of reservations. -/
@[simp] theorem reservedTotal_append :
    reservedTotal side id (reservations ++ others)
      = reservedTotal side id reservations + reservedTotal side id others := by
  simp [reservedTotal]

/-- A total does not depend on the order of the reservations; the ledger and
the slots list them differently. -/
theorem reservedTotal_perm (h : reservations.Perm others) :
    reservedTotal side id reservations = reservedTotal side id others :=
  (h.map _).sum_eq

/-- The count of an account's open orders does not depend on the order of the
reservations. -/
theorem openCount_perm (h : reservations.Perm others) : openCount id reservations = openCount id others :=
  h.countP_eq _

@[simp] theorem openCount_append : openCount id (reservations ++ others) = openCount id reservations + openCount id others :=
  List.countP_append

/-- What a reservation claims of its own account. -/
theorem claim_own : claim side reservation.accountId reservation
    = if reservation.side = side then reservation.quantity.val else 0 := by
  simp [claim]

/-- Reservations of other accounts add nothing. -/
theorem totals_of_foreign (side : Side) (id : AccountId)
    (h : ∀ reservation ∈ reservations, reservation.accountId ≠ id) :
    reservedTotal side id reservations = 0 ∧ openCount id reservations = 0 := by
  constructor
  · rw [reservedTotal, List.sum_eq_zero_iff]
    intro total htotal
    obtain ⟨reservation, hmem, rfl⟩ := List.mem_map.mp htotal
    exact if_neg fun hown => h reservation hmem hown.1
  · rw [openCount, List.countP_eq_zero]
    intro reservation hmem
    simpa using h reservation hmem

/-- Reservations of one account count fully for it. -/
theorem openCount_of_owned (h : ∀ reservation ∈ reservations, reservation.accountId = id) :
    openCount id reservations = reservations.length := by
  rw [openCount, List.countP_eq_length]
  intro reservation hmem
  simpa using h reservation hmem

/-! ### Consistency -/

/-- An account whose totals are those of the reservations and whose worst cases
are within its limits. -/
structure Balanced (account : AccountState) (reservations : List ReservationRiskState) : Prop where
  reserved : ∀ side, (account.reserved side).val = reservedTotal side account.id reservations
  count : account.openOrders.val = openCount account.id reservations
  exposed : ∀ side : Side, side.sign * account.settledPosition.val + (account.reserved side).val
    ≤ account.limits.maxAbsPosition.val
  limit : account.openOrders.val ≤ account.limits.maxOpenOrders.val

/-- A ledger with distinct accounts and order ids, balanced accounts and known
owners. -/
structure RiskEngineState.Consistent (state : RiskEngineState) : Prop where
  accountIds : (state.accounts.map AccountState.id).Nodup
  orderIds : (state.reservations.map ReservationRiskState.orderId).Nodup
  balanced : ∀ account ∈ state.accounts, Balanced account state.reservations
  owners : ∀ reservation ∈ state.reservations, ∃ account ∈ state.accounts, account.id = reservation.accountId

/-- A ledger with distinct accounts and order ids and known owners whose totals
and counts are those of its reservations, within the limits or not. -/
structure RiskEngineState.Tallied (state : RiskEngineState) : Prop where
  accountIds : (state.accounts.map AccountState.id).Nodup
  orderIds : (state.reservations.map ReservationRiskState.orderId).Nodup
  reserved : ∀ account ∈ state.accounts, ∀ side,
    (account.reserved side).val = reservedTotal side account.id state.reservations
  count : ∀ account ∈ state.accounts, account.openOrders.val = openCount account.id state.reservations
  owners : ∀ reservation ∈ state.reservations, ∃ account ∈ state.accounts, account.id = reservation.accountId

/-- In a consistent ledger the totals of every account are the totals of its
reservations. -/
theorem RiskEngineState.Consistent.tallied (h : state.Consistent) : state.Tallied where
  accountIds := h.accountIds
  orderIds := h.orderIds
  reserved account hmem := (h.balanced account hmem).reserved
  count account hmem := (h.balanced account hmem).count
  owners := h.owners

/-- What no trading operation changes in an account. -/
def AccountState.terms (account : AccountState) : AccountId × RiskLimits × Bool :=
  (account.id, account.limits, account.killed)

/-- What no command changes of the accounts: who they are, their limits and
their switches. -/
def RiskEngineState.terms (state : RiskEngineState) : List (AccountId × RiskLimits × Bool) :=
  state.accounts.map AccountState.terms

/-- The settled position of an account, zero when it is not registered. -/
def RiskEngineState.position (state : RiskEngineState) (id : AccountId) : Int :=
  (state.account id).elim 0 fun account => account.settledPosition.val

/-- An account that is found is in the ledger and has the id asked for. -/
theorem account_eq_some (h : state.account id = some account) : account ∈ state.accounts ∧ account.id = id :=
  ⟨List.mem_of_find?_eq_some h, by simpa using List.find?_some h⟩

/-- A reservation that is found is in the ledger and has the id asked for. -/
theorem reservation_eq_some (h : state.reservation orderId = some reservation) :
    reservation ∈ state.reservations ∧ reservation.orderId = orderId :=
  ⟨List.mem_of_find?_eq_some h, by simpa using List.find?_some h⟩

section Keys

variable (hids : (state.reservations.map ReservationRiskState.orderId).Nodup)
include hids

/-- Resizing a reservation, seen on the list split at it. -/
theorem resize_perm (hsplit : state.reservations.Perm (reservation :: others)) (quantity : Quantity) :
    (state.resize reservation.orderId quantity).reservations.Perm
      ({ reservation with quantity := quantity } :: others) := by
  have hperm := perm_map_key (g := fun other : ReservationRiskState =>
    if other.orderId = reservation.orderId then { other with quantity := quantity } else other) hids hsplit
    fun other hne => if_neg hne
  rwa [if_pos rfl] at hperm

/-- Releasing a reservation, seen on the list split at it. -/
theorem release_perm (hsplit : state.reservations.Perm (reservation :: others)) :
    (state.release reservation.orderId).reservations.Perm others :=
  perm_filter_key hids hsplit

/-- Releasing keeps the order ids distinct. -/
theorem release_ids (orderId : OrderId) :
    ((state.release orderId).reservations.map ReservationRiskState.orderId).Nodup :=
  List.Nodup.sublist (List.filter_sublist.map _) hids

/-- Reserving under a new id keeps the order ids distinct. -/
theorem reserve_ids (hnew : reservation.orderId ∉ state.reservations.map ReservationRiskState.orderId) :
    ((state.reservations ++ [reservation]).map ReservationRiskState.orderId).Nodup := by
  rw [List.map_append, List.map_singleton]
  refine List.nodup_append.mpr ⟨hids, List.nodup_singleton _, ?_⟩
  rintro orderId horderId _ hsingle rfl
  rw [List.mem_singleton] at hsingle
  exact hnew (hsingle ▸ horderId)

/-- Resizing keeps the order ids distinct. -/
theorem resize_ids (orderId : OrderId) (quantity : Quantity) :
    ((state.resize orderId quantity).reservations.map ReservationRiskState.orderId).Nodup := by
  have hkeep : (state.resize orderId quantity).reservations.map ReservationRiskState.orderId
      = state.reservations.map ReservationRiskState.orderId := by
    unfold RiskEngineState.resize
    rw [List.map_map]
    refine List.map_congr_left fun other _ => ?_
    simp only [Function.comp_apply]
    split <;> rfl
  rw [hkeep]
  exact hids

end Keys

/-- An id above the watermark is not reserved. -/
theorem not_reserved_of_mark (hmark : ∀ reservation ∈ state.reservations, ∃ maximum,
      state.maximumOrderId = some maximum ∧ reservation.orderId.val ≤ maximum.val)
    (hnew : ¬state.maximumOrderId.any (fun maximum => orderId.val ≤ maximum.val) = true) :
    orderId ∉ state.reservations.map ReservationRiskState.orderId := by
  intro hmem
  obtain ⟨reservation, hreservation, heq⟩ := List.mem_map.mp hmem
  obtain ⟨maximum, hsome, hle⟩ := hmark reservation hreservation
  apply hnew
  rw [hsome]
  simpa [← heq] using hle

namespace RiskEngineState.Consistent

variable (h : state.Consistent)
include h

/-- With distinct ids a search finds exactly the account that has the id. -/
theorem account_iff : state.account id = some account ↔ account ∈ state.accounts ∧ account.id = id := by
  refine ⟨account_eq_some, fun ⟨hmem, hid⟩ => ?_⟩
  refine find?_of_single ?_ hmem (by simpa using hid)
  intro first hfirst second hsecond hid hid'
  simp only [decide_eq_true_eq] at hid hid'
  exact List.inj_on_of_nodup_map h.accountIds hfirst hsecond (hid.trans hid'.symm)

/-- With distinct ids a search finds exactly the reservation that has the
id. -/
theorem reservation_iff :
    state.reservation orderId = some reservation ↔ reservation ∈ state.reservations ∧ reservation.orderId = orderId := by
  refine ⟨reservation_eq_some, fun ⟨hmem, hid⟩ => ?_⟩
  refine find?_of_single ?_ hmem (by simpa using hid)
  intro first hfirst second hsecond hid hid'
  simp only [decide_eq_true_eq] at hid hid'
  exact List.inj_on_of_nodup_map h.orderIds hfirst hsecond (hid.trans hid'.symm)

/-- Every reservation of a consistent ledger has its account. -/
theorem owner (hmem : reservation ∈ state.reservations) :
    ∃ account, state.account reservation.accountId = some account ∧ account.id = reservation.accountId := by
  obtain ⟨account, haccount, hid⟩ := h.owners reservation hmem
  exact ⟨account, h.account_iff.mpr ⟨haccount, hid⟩, hid⟩

/-- The reserved total of the owner covers each of its reservations. -/
theorem quantity_le (hmem : reservation ∈ state.reservations)
    (haccount : state.account reservation.accountId = some account) :
    reservation.quantity.val ≤ (account.reserved reservation.side).val ∧ 1 ≤ account.openOrders.val := by
  obtain ⟨hstored, hid⟩ := account_eq_some haccount
  have balanced := h.balanced account hstored
  have hsplit := List.perm_cons_erase hmem
  rw [balanced.reserved, balanced.count, reservedTotal_perm hsplit, openCount_perm hsplit, reservedTotal_cons, hid,
    claim_own, if_pos rfl, openCount, List.countP_cons_of_pos (by simp)]
  omega

end RiskEngineState.Consistent

/-! ### Checked arithmetic of the limits -/

/-- Reads a checked operation back from the refusal it is turned into. -/
theorem orOverflow_eq_ok {α : Type} {x : Option α} {a : α} : orOverflow x = .ok a ↔ x = some a := by
  cases x <;> simp [orOverflow]

/-- A fact about both sides. -/
theorem forall_side {P : Side → Prop} : (∀ side, P side) ↔ P .buy ∧ P .sell :=
  ⟨fun h => ⟨h .buy, h .sell⟩, fun h side => by cases side <;> simp [h]⟩

section Arithmetic

variable {buys sells : U128} {quantity filled released left : Quantity} {openOrders : U32}

/-- When a reservation is added to the totals, and which total grows. -/
theorem addReserved_ok_iff : addReserved account side quantity = .ok (buys, sells) ↔
    ∀ other, (reservedOn buys sells other).val
      = (account.reserved other).val + if side = other then quantity.val else 0 := by
  rw [forall_side]
  cases side with
  | buy =>
      simp only [addReserved, bind_eq_ok, orOverflow_eq_ok, checkedAdd_eq_some, pure, Except.pure,
        Except.ok.injEq, Prod.mk.injEq, reservedOn, AccountState.reserved, u128OfU64_val, if_true, reduceCtorEq,
        if_false, Nat.add_zero, Fin.val_inj]
      constructor
      · rintro ⟨_, hbuys, rfl, rfl⟩
        exact ⟨hbuys, rfl⟩
      · rintro ⟨hbuys, rfl⟩
        exact ⟨buys, hbuys, rfl, rfl⟩
  | sell =>
      simp only [addReserved, bind_eq_ok, orOverflow_eq_ok, checkedAdd_eq_some, pure, Except.pure,
        Except.ok.injEq, Prod.mk.injEq, reservedOn, AccountState.reserved, u128OfU64_val, if_true, reduceCtorEq,
        if_false, Nat.add_zero, Fin.val_inj]
      constructor
      · rintro ⟨_, hsells, rfl, rfl⟩
        exact ⟨rfl, hsells⟩
      · rintro ⟨rfl, hsells⟩
        exact ⟨sells, hsells, rfl, rfl⟩

/-- When a quantity is released from the totals, and which total shrinks. -/
theorem subReserved_ok_iff : subReserved account side quantity = .ok (buys, sells) ↔
    ∀ other, (account.reserved other).val
      = (reservedOn buys sells other).val + if side = other then quantity.val else 0 := by
  rw [forall_side]
  cases side with
  | buy =>
      simp only [subReserved, bind_eq_ok, orOverflow_eq_ok, checkedSub_eq_some, pure, Except.pure,
        Except.ok.injEq, Prod.mk.injEq, reservedOn, AccountState.reserved, u128OfU64_val, if_true, reduceCtorEq,
        if_false, Nat.add_zero, Fin.val_inj]
      constructor
      · rintro ⟨_, hbuys, rfl, rfl⟩
        exact ⟨hbuys, rfl⟩
      · rintro ⟨hbuys, rfl⟩
        exact ⟨buys, hbuys, rfl, rfl⟩
  | sell =>
      simp only [subReserved, bind_eq_ok, orOverflow_eq_ok, checkedSub_eq_some, pure, Except.pure,
        Except.ok.injEq, Prod.mk.injEq, reservedOn, AccountState.reserved, u128OfU64_val, if_true, reduceCtorEq,
        if_false, Nat.add_zero, Fin.val_inj]
      constructor
      · rintro ⟨_, hsells, rfl, rfl⟩
        exact ⟨rfl, hsells⟩
      · rintro ⟨rfl, hsells⟩
        exact ⟨sells, hsells, rfl, rfl⟩

/-- Releasing what is reserved succeeds. -/
theorem subReserved_of_le (h : quantity.val ≤ (account.reserved side).val) :
    ∃ buys sells, subReserved account side quantity = .ok (buys, sells) := by
  have hbound := (account.reserved side).isLt
  cases side with
  | buy =>
      refine ⟨⟨(account.reserved .buy).val - quantity.val, by omega⟩, account.reservedSells,
        subReserved_ok_iff.mpr (forall_side.mpr ⟨?_, by simp [reservedOn, AccountState.reserved]⟩)⟩
      simp only [reservedOn, if_true]
      omega
  | sell =>
      refine ⟨account.reservedBuys, ⟨(account.reserved .sell).val - quantity.val, by omega⟩,
        subReserved_ok_iff.mpr (forall_side.mpr ⟨by simp [reservedOn, AccountState.reserved], ?_⟩)⟩
      simp only [reservedOn, if_true]
      omega

/-- Accepted worst cases are within the position limit. -/
theorem checkPosition_ok (h : checkPosition account buys sells = .ok ()) (other : Side) :
    other.sign * account.settledPosition.val + (reservedOn buys sells other).val
      ≤ account.limits.maxAbsPosition.val := by
  simp only [checkPosition, bind_eq_ok, orOverflow_eq_ok, i128OfU128, checkedAddSigned, checkedSubSigned,
    signedOf_eq_some] at h
  obtain ⟨long, hlong, worstLong, hworstLong, short, hshort, worstShort, hworstShort, hcheck⟩ := h
  split at hcheck
  · cases hcheck
  · rename_i hwithin
    cases other <;> simp only [Side.sign, reservedOn] <;> omega

/-- The totals after a fill. -/
theorem exposureAfterFill_ok {position : I128}
    (h : exposureAfterFill account side filled released = .ok (position, buys, sells)) :
    position.val = account.settledPosition.val + side.sign * filled.val ∧
      ∀ other, (account.reserved other).val
        = (reservedOn buys sells other).val + if side = other then released.val else 0 := by
  simp only [exposureAfterFill, bind_eq_ok, orOverflow_eq_ok] at h
  obtain ⟨position', hposition, ⟨buys', sells'⟩, hsub, hpure⟩ := h
  cases hpure
  refine ⟨?_, subReserved_ok_iff.mp hsub⟩
  cases side <;> simp only [checkedAddSigned, checkedSubSigned, signedOf_eq_some, i128OfU64_val] at hposition <;>
    simp only [Side.sign] <;> omega

/-- A fill of at most what is reserved succeeds in a balanced account. -/
theorem exposureAfterFill_of_le (hbalanced : Balanced account reservations)
    (hfilled : filled.val ≤ released.val) (hreleased : released.val ≤ (account.reserved side).val) :
    ∃ position buys sells, exposureAfterFill account side filled released = .ok (position, buys, sells) := by
  obtain ⟨buys, sells, hsub⟩ := subReserved_of_le hreleased
  have hexposed := hbalanced.exposed side
  have hlower := account.settledPosition.lower
  have hupper := account.settledPosition.upper
  have hmax := account.limits.maxAbsPosition.isLt
  have hrange : -((2 ^ 127 : Nat) : Int) ≤ account.settledPosition.val + side.sign * filled.val ∧
      account.settledPosition.val + side.sign * filled.val < ((2 ^ 127 : Nat) : Int) := by
    cases side <;> simp only [Side.sign] at hexposed ⊢ <;> norm_num at hlower hupper hmax ⊢ <;> omega
  refine ⟨⟨_, hrange.1, hrange.2⟩, buys, sells, ?_⟩
  simp only [exposureAfterFill, bind_eq_ok, orOverflow_eq_ok]
  refine ⟨⟨_, hrange.1, hrange.2⟩, ?_, (buys, sells), hsub, rfl⟩
  cases side <;> simp only [checkedAddSigned, checkedSubSigned, signedOf_eq_some, i128OfU64_val, Side.sign] <;> omega

/-- The count of open orders after a fill: one less when the fill took the last
of the order. -/
theorem openOrdersAfter_ok (h : RiskEngine.openOrdersAfter account left = .ok openOrders) :
    account.openOrders.val = openOrders.val + if left.val = 0 then 1 else 0 := by
  unfold RiskEngine.openOrdersAfter at h
  split at h
  · rename_i hclosed
    rw [orOverflow_eq_ok, checkedSub_eq_some] at h
    rw [if_pos hclosed]
    exact h
  · rename_i hopen
    cases h
    rw [if_neg hopen, Nat.add_zero]

/-- An account with an open order can close one. -/
theorem openOrdersAfter_of_pos (left : Quantity) (h : 1 ≤ account.openOrders.val) :
    ∃ openOrders, RiskEngine.openOrdersAfter account left = .ok openOrders := by
  unfold RiskEngine.openOrdersAfter
  split
  · cases hsub : checkedSub account.openOrders 1 with
    | none =>
        rw [checkedSub_eq_none] at hsub
        simp at hsub
        omega
    | some openOrders => exact ⟨openOrders, rfl⟩
  · exact ⟨_, rfl⟩

end Arithmetic

/-! ### Exchanging the claims of one account -/

/-- What an operation on the ledger does: it keeps consistency and the account
terms, moves the position of one account by `delta`, and exchanges the claims
`before` for `after`. -/
structure Exchange (state state' : RiskEngineState) (id : AccountId) (delta : Int)
    (before after : List ReservationRiskState) : Prop where
  consistent : state'.Consistent
  terms : state'.terms = state.terms
  position : ∀ other, state'.position other = state.position other + if other = id then delta else 0
  reservations : ∀ others, state.reservations.Perm (before ++ others) → state'.reservations.Perm (after ++ others)
  maximumOrderId : state'.maximumOrderId = state.maximumOrderId
  killed : state'.killed = state.killed

theorem Exchange.owner {delta : Int} {before after : List ReservationRiskState} {id' : AccountId}
    (h : Exchange state state' id delta before after) (hid : id = id') :
    Exchange state state' id' delta before after :=
  hid ▸ h

/-- An operation that changes nothing. -/
theorem Exchange.refl (h : state.Consistent) : Exchange state state id 0 [] [] :=
  ⟨h, rfl, by simp, fun _ hperm => hperm, rfl, rfl⟩

/-- Looking accounts up after one record was replaced. -/
theorem account_setAccount (other : AccountId) :
    (state.setAccount account').account other
      = (state.account other).map fun found => if found.id = account'.id then account' else found := by
  unfold RiskEngineState.account RiskEngineState.setAccount
  rw [List.find?_map]
  congr 2
  funext found
  simp only [Function.comp_apply]
  split
  · rename_i hid
    rw [hid]
  · rfl

/-- The positions after an account was written: only its own can differ. -/
theorem position_setAccount (haccount : state.account account'.id = some account) (other : AccountId) :
    (state.setAccount account').position other = state.position other +
      if other = account'.id then account'.settledPosition.val - account.settledPosition.val else 0 := by
  unfold RiskEngineState.position
  rw [account_setAccount]
  by_cases hother : other = account'.id
  · subst hother
    rw [haccount, if_pos rfl]
    simp [(account_eq_some haccount).2]
  · rw [if_neg hother]
    cases hfound : state.account other with
    | none => simp
    | some found =>
        have hid := (account_eq_some hfound).2
        simp [hid, hother]

/-- The accounts after one was written. -/
theorem mem_setAccount {other : AccountState} (haccount : state.account account'.id = some account) :
    other ∈ (state.setAccount account').accounts ↔
      other = account' ∨ (other ∈ state.accounts ∧ other.id ≠ account'.id) := by
  obtain ⟨hmem, hid⟩ := account_eq_some haccount
  rw [RiskEngineState.setAccount, List.mem_map]
  constructor
  · rintro ⟨found, hfound, rfl⟩
    split
    · exact .inl rfl
    · rename_i hne
      exact .inr ⟨hfound, hne⟩
  · rintro (rfl | ⟨hother, hne⟩)
    · exact ⟨account, hmem, if_pos hid⟩
    · exact ⟨other, hother, if_neg hne⟩

/-- Writing an account adds none and removes none. -/
theorem ids_setAccount :
    (state.setAccount account').accounts.map AccountState.id = state.accounts.map AccountState.id := by
  unfold RiskEngineState.setAccount
  rw [List.map_map]
  apply List.map_congr_left
  intro other _
  simp only [Function.comp_apply]
  split
  · rename_i hid
    exact hid.symm
  · rfl

/-- One account and the claims of that account change together: the totals stay
those of the claims. -/
theorem tallied_of_update {before after : List ReservationRiskState} (h : state.Tallied) (account' : AccountState)
    (haccount : state.account account'.id = some account) (hsplit : state.reservations.Perm (before ++ others))
    (hafter : reservations.Perm (after ++ others))
    (hids : (reservations.map ReservationRiskState.orderId).Nodup)
    (howned : ∀ reservation ∈ before ++ after, reservation.accountId = account'.id)
    (hreserved : ∀ side, (account'.reserved side).val + reservedTotal side account'.id before
      = (account.reserved side).val + reservedTotal side account'.id after)
    (hopen : account'.openOrders.val + before.length = account.openOrders.val + after.length) :
    ({ state.setAccount account' with reservations := reservations } : RiskEngineState).Tallied := by
  obtain ⟨hmem, hid⟩ := account_eq_some haccount
  have hownBefore : ∀ reservation ∈ before, reservation.accountId = account'.id := fun reservation hreservation =>
    howned reservation (List.mem_append_left _ hreservation)
  have hownAfter : ∀ reservation ∈ after, reservation.accountId = account'.id := fun reservation hreservation =>
    howned reservation (List.mem_append_right _ hreservation)
  -- the claims of another account are among those that stay
  have hforeign : ∀ other : AccountState, other.id ≠ account'.id → ∀ side,
      reservedTotal side other.id state.reservations = reservedTotal side other.id reservations ∧
        openCount other.id state.reservations = openCount other.id reservations := by
    intro other hne side
    have hbefore := totals_of_foreign side other.id
      fun reservation hreservation heq => hne (heq.symm.trans (hownBefore reservation hreservation))
    have hnew := totals_of_foreign side other.id
      fun reservation hreservation heq => hne (heq.symm.trans (hownAfter reservation hreservation))
    rw [reservedTotal_perm hsplit, reservedTotal_perm hafter, openCount_perm hsplit, openCount_perm hafter,
      reservedTotal_append, reservedTotal_append, openCount_append, openCount_append, hbefore.1, hbefore.2, hnew.1,
      hnew.2]
    exact ⟨rfl, rfl⟩
  constructor
  · rw [show (state.setAccount account').accounts.map AccountState.id = state.accounts.map AccountState.id from
      ids_setAccount]
    exact h.accountIds
  · exact hids
  · intro other hother side
    rcases (mem_setAccount haccount).mp hother with rfl | ⟨hstored, hne⟩
    · have hold := h.reserved account hmem side
      rw [hid, reservedTotal_perm hsplit, reservedTotal_append] at hold
      have hnew := hreserved side
      simp only [reservedTotal_perm hafter, reservedTotal_append]
      omega
    · exact (h.reserved other hstored side).trans (hforeign other hne side).1
  · intro other hother
    rcases (mem_setAccount haccount).mp hother with rfl | ⟨hstored, hne⟩
    · have hold := h.count account hmem
      rw [hid, openCount_perm hsplit, openCount_append, openCount_of_owned hownBefore] at hold
      simp only [openCount_perm hafter, openCount_append, openCount_of_owned hownAfter]
      omega
    · exact (h.count other hstored).trans (hforeign other hne .buy).2
  · intro reservation hreservation
    rcases List.mem_append.mp (hafter.subset hreservation) with hown | hother
    · exact ⟨account', (mem_setAccount haccount).mpr (.inl rfl), (hownAfter reservation hown).symm⟩
    · obtain ⟨owner, howner, hownerId⟩ := h.owners reservation
        (hsplit.symm.subset (List.mem_append_right _ hother))
      by_cases hsame : owner.id = account'.id
      · exact ⟨account', (mem_setAccount haccount).mpr (.inl rfl), hsame.symm.trans hownerId⟩
      · exact ⟨owner, (mem_setAccount haccount).mpr (.inr ⟨howner, hsame⟩), hownerId⟩

section Update

variable {before after : List ReservationRiskState} (h : state.Consistent)
include h

/-- Writing an account with the same terms keeps the terms of all. -/
theorem terms_setAccount (haccount : state.account account'.id = some account)
    (hterms : account'.terms = account.terms) : (state.setAccount account').terms = state.terms := by
  obtain ⟨hmem, hsame⟩ := account_eq_some haccount
  unfold RiskEngineState.terms RiskEngineState.setAccount
  rw [List.map_map]
  refine List.map_congr_left fun other hother => ?_
  simp only [Function.comp_apply]
  split
  · rename_i hid
    rw [List.inj_on_of_nodup_map h.accountIds hother hmem (hid.trans hsame.symm), hterms]
  · rfl

/-- The general update: one account and the claims of that account change
together. -/
theorem exchange_of_update (account' : AccountState) (haccount : state.account account'.id = some account)
    (hterms : account'.terms = account.terms) (hsplit : state.reservations.Perm (before ++ others))
    (hafter : reservations.Perm (after ++ others))
    (hids : (reservations.map ReservationRiskState.orderId).Nodup)
    (howned : ∀ reservation ∈ before ++ after, reservation.accountId = account'.id)
    (hreserved : ∀ side, (account'.reserved side).val + reservedTotal side account'.id before
      = (account.reserved side).val + reservedTotal side account'.id after)
    (hopen : account'.openOrders.val + before.length = account.openOrders.val + after.length)
    (hexposed : ∀ side : Side, side.sign * account'.settledPosition.val + (account'.reserved side).val
      ≤ account'.limits.maxAbsPosition.val)
    (hlimit : account'.openOrders.val ≤ account'.limits.maxOpenOrders.val) :
    Exchange state { state.setAccount account' with reservations := reservations } account'.id
      (account'.settledPosition.val - account.settledPosition.val) before after := by
  have tallied := tallied_of_update h.tallied account' haccount hsplit hafter hids howned hreserved hopen
  constructor
  · refine ⟨tallied.accountIds, tallied.orderIds, fun other hother => ?_, tallied.owners⟩
    have hwithin : (∀ side : Side, side.sign * other.settledPosition.val + (other.reserved side).val
        ≤ other.limits.maxAbsPosition.val) ∧ other.openOrders.val ≤ other.limits.maxOpenOrders.val := by
      rcases (mem_setAccount haccount).mp hother with rfl | ⟨hstored, _⟩
      · exact ⟨hexposed, hlimit⟩
      · exact ⟨(h.balanced other hstored).exposed, (h.balanced other hstored).limit⟩
    exact ⟨tallied.reserved other hother, tallied.count other hother, hwithin.1, hwithin.2⟩
  · exact terms_setAccount h haccount hterms
  · exact position_setAccount haccount
  · intro rest hrest
    have hothers : others.Perm rest := (List.perm_append_left_iff before).mp (hsplit.symm.trans hrest)
    exact hafter.trans (hothers.append_left after)
  · rfl
  · rfl

end Update

/-! ### The operations -/

/-- A fill moves quantity from a total into the position, so the worst case of
neither side grows. -/
theorem exposed_after_fill {filled released : Quantity} {position : Int} {buys sells : U128}
    (hbalanced : Balanced account reservations)
    (hposition : position = account.settledPosition.val + side.sign * filled.val)
    (hreserved : ∀ other, (account.reserved other).val
      = (reservedOn buys sells other).val + if side = other then released.val else 0)
    (hfilled : filled.val ≤ released.val) (other : Side) :
    other.sign * position + (reservedOn buys sells other).val ≤ account.limits.maxAbsPosition.val := by
  have hexposed := hbalanced.exposed other
  have hother := hreserved other
  cases side <;> cases other <;> simp only [Side.sign, if_true, reduceCtorEq, if_false] at * <;> omega

section Operations

variable (h : state.Consistent)
include h

/-- A fill that turns the claims of a reservation into `after`. -/
theorem fill_exchange {filled released : Quantity} {position : I128} {buys sells : U128} {openOrders : U32}
    {after : List ReservationRiskState} (hmem : reservation ∈ state.reservations)
    (haccount : state.account reservation.accountId = some account)
    (hexposure : exposureAfterFill account reservation.side filled released = .ok (position, buys, sells))
    (hfilled : filled.val ≤ released.val) (hsplit : state.reservations.Perm (reservation :: others))
    (hafter : reservations.Perm (after ++ others)) (hids : (reservations.map ReservationRiskState.orderId).Nodup)
    (howned : ∀ other ∈ after, other.accountId = reservation.accountId)
    (hclaims : ∀ other, reservedTotal other reservation.accountId after
      + (if reservation.side = other then released.val else 0) = claim other reservation.accountId reservation)
    (hshrinks : after.length ≤ 1) (hopen : openOrders.val + 1 = account.openOrders.val + after.length) :
    Exchange state { state.setAccount { account with
        settledPosition := position
        reservedBuys := buys
        reservedSells := sells
        openOrders := openOrders } with reservations := reservations }
      reservation.accountId (reservation.side.sign * filled.val) [reservation] after := by
  obtain ⟨hstored, hid⟩ := account_eq_some haccount
  have hbalanced := h.balanced account hstored
  obtain ⟨hposition, hreserved⟩ := exposureAfterFill_ok hexposure
  have hdelta : reservation.side.sign * filled.val = position.val - account.settledPosition.val := by omega
  have hcount := (h.quantity_le hmem haccount).2
  have hlimit := hbalanced.limit
  have hexposed := exposed_after_fill hbalanced hposition hreserved hfilled
  rw [hdelta]
  rw [← hid] at haccount howned hclaims ⊢
  refine exchange_of_update h { account with
      settledPosition := position
      reservedBuys := buys
      reservedSells := sells
      openOrders := openOrders } haccount rfl hsplit hafter hids ?_ ?_ (by simpa using hopen) hexposed ?_
  · intro other hother
    rcases List.mem_cons.mp hother with rfl | hother
    · exact hid.symm
    · exact howned other hother
  · intro other
    have hold := hreserved other
    have hclaim := hclaims other
    simp only [AccountState.reserved, reservedTotal_cons, reservedTotal_nil] at hold ⊢
    omega
  · simp only
    omega

/-- Closing a reservation with at most its quantity filled. -/
theorem settleReservation_exchange (hmem : reservation ∈ state.reservations) (filled : Quantity)
    (hfilled : filled.val ≤ reservation.quantity.val) :
    ∃ state', state.settleReservation reservation filled = (.ok (), state') ∧
      Exchange state state' reservation.accountId (reservation.side.sign * filled.val) [reservation] [] := by
  obtain ⟨account, haccount, hid⟩ := h.owner hmem
  have hbalanced := h.balanced account (account_eq_some haccount).1
  obtain ⟨hcovered, hcount⟩ := h.quantity_le hmem haccount
  obtain ⟨position, buys, sells, hexposure⟩ := exposureAfterFill_of_le hbalanced hfilled hcovered
  have hsplit := List.perm_cons_erase hmem
  cases hopen : checkedSub account.openOrders 1 with
  | none =>
      rw [checkedSub_eq_none] at hopen
      simp at hopen
      omega
  | some openOrders =>
      have hsub : account.openOrders.val = openOrders.val + 1 := checkedSub_eq_some.mp hopen
      refine ⟨_, by simp only [RiskEngineState.settleReservation, haccount, hexposure, hopen]; rfl, ?_⟩
      exact fill_exchange h hmem haccount hexposure hfilled hsplit (release_perm h.orderIds hsplit)
        (release_ids h.orderIds _) (by simp) (by simp [claim_own]) (Nat.zero_le _)
        (by simpa using hsub.symm)

/-- Releasing a reservation that has not traded is an exchange of it for
nothing. -/
theorem settle_exchange (hfind : state.reservation orderId = some reservation) :
    ∃ state', state.settle orderId 0 = (.ok (), state') ∧
      Exchange state state' reservation.accountId 0 [reservation] [] := by
  obtain ⟨state', hsettle, hexchange⟩ := settleReservation_exchange h (reservation_eq_some hfind).1 0
    (Nat.zero_le _)
  refine ⟨state', ?_, by simpa using hexchange⟩
  simp [RiskEngineState.settle, hfind, hsettle]

/-- What a fill leaves of a reservation. -/
def leftover (reservation : ReservationRiskState) (filled : Quantity) : List ReservationRiskState :=
  if reservation.quantity = filled then []
  else [{ reservation with quantity := satSub reservation.quantity filled }]

/-- A fill of at most what is reserved. -/
theorem recordFill_exchange (hfind : state.reservation orderId = some reservation) {filled : Quantity}
    (hpos : filled.val ≠ 0) (hfilled : filled.val ≤ reservation.quantity.val) :
    ∃ state', state.recordFill orderId filled = (.ok (), state') ∧
      Exchange state state' reservation.accountId (reservation.side.sign * filled.val) [reservation]
        (leftover reservation filled) := by
  obtain ⟨hmem, rfl⟩ := reservation_eq_some hfind
  obtain ⟨account, haccount, hid⟩ := h.owner hmem
  have hbalanced := h.balanced account (account_eq_some haccount).1
  obtain ⟨hcovered, hcount⟩ := h.quantity_le hmem haccount
  obtain ⟨position, buys, sells, hexposure⟩ := exposureAfterFill_of_le hbalanced le_rfl (hfilled.trans hcovered)
  have hsplit := List.perm_cons_erase hmem
  have hleft : checkedSub reservation.quantity filled = some (satSub reservation.quantity filled) :=
    checkedSub_eq_some.mpr (by simp; omega)
  obtain ⟨openOrders, hopen⟩ := openOrdersAfter_of_pos (satSub reservation.quantity filled) hcount
  have hcounts := openOrdersAfter_ok hopen
  refine ⟨_, by simp only [RiskEngineState.recordFill, if_neg hpos, hfind, hleft, haccount, hexposure, hopen]; rfl, ?_⟩
  unfold leftover
  by_cases hclosed : reservation.quantity = filled
  · have hzero : (satSub reservation.quantity filled).val = 0 := by simp [hclosed]
    rw [if_pos hzero] at hcounts ⊢
    rw [if_pos hclosed]
    refine fill_exchange h hmem haccount hexposure le_rfl hsplit (release_perm h.orderIds hsplit)
        (release_ids h.orderIds _) (by simp) (by simp [claim_own, hclosed])
        (Nat.zero_le _) (by simpa using hcounts.symm)
  · have hsome : (satSub reservation.quantity filled).val ≠ 0 := by
      have : reservation.quantity.val ≠ filled.val := fun heq => hclosed (Fin.ext heq)
      simp only [satSub_val]
      omega
    rw [if_neg hsome] at hcounts ⊢
    rw [if_neg hclosed]
    refine fill_exchange h hmem haccount hexposure le_rfl hsplit (resize_perm h.orderIds hsplit _)
      (resize_ids h.orderIds _ _) (by simp) ?_ le_rfl (by simpa using hcounts.symm)
    intro other
    simp only [reservedTotal_cons, reservedTotal_nil, claim, true_and, satSub_val]
    split <;> omega

/-- Closing an owned reservation without a fill. -/
theorem cancelReservation_exchange (hfind : state.reservation orderId = some reservation) :
    ∃ state', state.cancelReservation orderId reservation.accountId = (.ok reservation.quantity, state') ∧
      Exchange state state' reservation.accountId 0 [reservation] [] := by
  obtain ⟨state', hsettle, hexchange⟩ := settleReservation_exchange h (reservation_eq_some hfind).1 0
    (Nat.zero_le _)
  refine ⟨state', ?_, by simpa using hexchange⟩
  simp [RiskEngineState.cancelReservation, hfind, hsettle]

end Operations

/-! ### Admission -/

/-- The per-order limits: size, price collar and notional. -/
structure RiskLimits.Admits (limits : RiskLimits) (price : PriceTicks) (quantity : Quantity) : Prop where
  size : quantity.val ≤ limits.maxQuantity.val
  low : limits.minimumPrice.val ≤ price.val
  high : price.val ≤ limits.maximumPrice.val
  notional : price.val * quantity.val ≤ limits.maxNotional.val

/-- What a computed notional is. -/
theorem notionalOf_ok {price : PriceTicks} {quantity : Quantity} {notional : U128}
    (h : notionalOf price quantity = .ok notional) : (notional.val : Int) = |price.val| * quantity.val := by
  simp only [notionalOf, bind_eq_ok, orOverflow_eq_ok, checkedAbs, signedOf_eq_some, unsignedOf_eq_some,
    checkedMul_eq_some, u128OfU64_val] at h
  obtain ⟨absolute, habsolute, word, hword, hnotional⟩ := h
  rw [hnotional, ← habsolute, hword]
  push_cast
  rfl

/-- Everything that is known when the limits of an account admit an order. -/
theorem evaluateLimits_ok {order : NewOrder} {buys sells : U128} {openOrders : U32}
    (h : evaluateLimits account order = .ok (buys, sells, openOrders)) :
    account.limits.Admits order.price order.quantity ∧
      addReserved account order.side order.quantity = .ok (buys, sells) ∧
      checkPosition account buys sells = .ok () ∧ openOrders.val = account.openOrders.val + 1 ∧
      openOrders.val ≤ account.limits.maxOpenOrders.val := by
  unfold evaluateLimits at h
  split at h
  · cases h
  split at h
  · cases h
  rename_i hsize
  split at h
  · cases h
  rename_i hcollar
  rw [bind_eq_ok] at h
  obtain ⟨notional, hnotional, h⟩ := h
  split at h
  · cases h
  rename_i hlimit
  simp only [bind_eq_ok, orOverflow_eq_ok, checkedAdd_eq_some] at h
  obtain ⟨⟨buys', sells'⟩, hadd, _, hposition, count, hcount, h⟩ := h
  split at h
  · cases h
  rename_i hopen
  cases h
  refine ⟨⟨by omega, by omega, by omega, ?_⟩, hadd, hposition, hcount, by omega⟩
  calc order.price.val * order.quantity.val
      ≤ |order.price.val| * order.quantity.val := by
        apply mul_le_mul_of_nonneg_right (le_abs_self _)
        omega
    _ = notional.val := (notionalOf_ok hnotional).symm
    _ ≤ account.limits.maxNotional.val := by omega

section Admission

variable (h : state.Consistent)
include h

/-- Adding a reservation together with its exposure. -/
theorem reserve_exchange {buys sells : U128} {openOrders : U32} (reservation : ReservationRiskState)
    (haccount : state.account account.id = some account)
    (howner : reservation.accountId = account.id)
    (hnew : reservation.orderId ∉ state.reservations.map ReservationRiskState.orderId)
    (hadd : ∀ other, (reservedOn buys sells other).val
      = (account.reserved other).val + if reservation.side = other then reservation.quantity.val else 0)
    (hexposed : ∀ other : Side, other.sign * account.settledPosition.val + (reservedOn buys sells other).val
      ≤ account.limits.maxAbsPosition.val)
    (hcount : openOrders.val = account.openOrders.val + 1)
    (hopen : openOrders.val ≤ account.limits.maxOpenOrders.val) :
    Exchange { state with maximumOrderId := some reservation.orderId } ((state.setAccount { account with
        reservedBuys := buys
        reservedSells := sells
        openOrders := openOrders }).reserve reservation) account.id 0 [] [reservation] := by
  have h' : ({ state with maximumOrderId := some reservation.orderId } : RiskEngineState).Consistent :=
    ⟨h.accountIds, h.orderIds, h.balanced, h.owners⟩
  have hids := reserve_ids h.orderIds hnew
  rw [← sub_self account.settledPosition.val]
  refine exchange_of_update h' { account with
      reservedBuys := buys
      reservedSells := sells
      openOrders := openOrders } haccount rfl (List.Perm.refl ([] ++ state.reservations)) (List.perm_append_singleton _ _) hids
    (by simpa using howner) ?_ (by simpa using hcount) hexposed hopen
  intro other
  simp only [AccountState.reserved, reservedTotal_cons, reservedTotal_nil, claim, howner, true_and,
    Nat.add_zero]
  exact hadd other

/-- Reserving the exposure of a new order. -/
theorem checkAndReserve_exchange (R : Nat) (order : NewOrder)
    (hmark : ∀ reservation ∈ state.reservations, ∃ maximum, state.maximumOrderId = some maximum ∧
      reservation.orderId.val ≤ maximum.val) :
    (∃ reason, state.checkAndReserve R order = (.error reason, state)) ∨
      ∃ state' account, state.checkAndReserve R order = (.ok (), state') ∧
        Exchange { state with maximumOrderId := some order.orderId } state' order.accountId 0 []
          [⟨order.orderId, order.accountId, order.side, order.quantity⟩] ∧ order.quantity.val ≠ 0 ∧
        state.account order.accountId = some account ∧ account.limits.Admits order.price order.quantity := by
  unfold RiskEngineState.checkAndReserve
  split
  · exact .inl ⟨_, rfl⟩
  split
  · exact .inl ⟨_, rfl⟩
  rename_i hquantity
  split
  · exact .inl ⟨_, rfl⟩
  rename_i hmaximum
  split
  · exact .inl ⟨_, rfl⟩
  cases haccount : state.account order.accountId with
  | none => exact .inl ⟨_, rfl⟩
  | some account =>
      cases hlimits : evaluateLimits account order with
      | error reason =>
          simp only [hlimits]
          exact .inl ⟨_, rfl⟩
      | ok totals =>
          obtain ⟨buys, sells, openOrders⟩ := totals
          simp only [hlimits]
          split
          · right
            obtain ⟨hadmits, hadd, hposition, hcount, hopen⟩ := evaluateLimits_ok hlimits
            obtain ⟨hstored, hid⟩ := account_eq_some haccount
            rw [addReserved_ok_iff] at hadd
            refine ⟨_, account, rfl, ?_, hquantity, rfl, hadmits⟩
            have hnew := not_reserved_of_mark hmark hmaximum
            rw [← hid] at haccount
            rw [show order.accountId = account.id from hid.symm]
            exact reserve_exchange h ⟨order.orderId, account.id, order.side, order.quantity⟩ haccount rfl hnew
              hadd (checkPosition_ok hposition) hcount hopen
          · exact .inl ⟨_, rfl⟩

end Admission

/-! ### Amending -/

/-- The last write of an account counts. -/
theorem setAccount_setAccount {first second : AccountState} (hid : first.id = second.id) :
    (state.setAccount first).setAccount second = state.setAccount second := by
  unfold RiskEngineState.setAccount
  simp only [List.map_map]
  congr 1
  refine List.map_congr_left fun other _ => ?_
  simp only [Function.comp_apply]
  split <;> simp_all

/-- The last resize of a reservation counts. -/
theorem resize_resize {first second : Quantity} :
    (state.resize orderId first).resize orderId second = state.resize orderId second := by
  unfold RiskEngineState.resize
  simp only [List.map_map]
  congr 1
  refine List.map_congr_left fun other _ => ?_
  simp only [Function.comp_apply]
  split <;> simp_all

section Amending

variable (h : state.Consistent)
include h

/-- Writing an account as it is changes nothing; with the next lemma this is
what a rolled-back amend comes to. -/
theorem setAccount_self (haccount : state.account account.id = some account) : state.setAccount account = state := by
  have hself : state.accounts.map (fun other => if other.id = account.id then account else other) = state.accounts := by
    conv_rhs => rw [← List.map_id state.accounts]
    refine List.map_congr_left fun other hother => ?_
    split
    · rename_i hid
      exact List.inj_on_of_nodup_map h.accountIds (account_eq_some haccount).1 hother hid.symm
    · rfl
  unfold RiskEngineState.setAccount
  rw [hself]

/-- Resizing a reservation to its own quantity changes nothing. -/
theorem resize_self (hfind : state.reservation orderId = some reservation) :
    state.resize orderId reservation.quantity = state := by
  obtain ⟨hmem, hid⟩ := reservation_eq_some hfind
  have hself : state.reservations.map (fun other => if other.orderId = orderId then
      { other with quantity := reservation.quantity } else other) = state.reservations := by
    conv_rhs => rw [← List.map_id state.reservations]
    refine List.map_congr_left fun other hother => ?_
    split
    · rename_i hsame
      rw [List.inj_on_of_nodup_map h.orderIds hother hmem (hsame.trans hid.symm)]
      rfl
    · rfl
  unfold RiskEngineState.resize
  rw [hself]

/-- A resized reservation is found with its new quantity. -/
theorem reservation_resize (hfind : state.reservation orderId = some reservation) (quantity : Quantity) :
    (state.resize orderId quantity).reservation orderId = some { reservation with quantity := quantity } := by
  obtain ⟨hmem, hid⟩ := reservation_eq_some hfind
  refine find?_of_single ?_ (List.mem_map.mpr ⟨reservation, hmem, if_pos hid⟩) (by simpa using hid)
  intro first hfirst second hsecond hp hp'
  simp only [decide_eq_true_eq] at hp hp'
  exact List.inj_on_of_nodup_map (resize_ids h.orderIds orderId quantity) hfirst hsecond (hp.trans hp'.symm)

omit h in
/-- The totals after a reservation was resized without limit checks. -/
theorem restoredTotals_ok {current quantity : Quantity} {buys sells : U128}
    (htotals : RiskEngine.restoredTotals account side current quantity = .ok (buys, sells)) (other : Side) :
    (reservedOn buys sells other).val + (if side = other then current.val else 0)
      = (account.reserved other).val + if side = other then quantity.val else 0 := by
  unfold RiskEngine.restoredTotals at htotals
  split at htotals
  · have hother := addReserved_ok_iff.mp htotals other
    rw [satSub_val] at hother
    split at hother
    · simp_all
      omega
    · simp_all
  · have hother := subReserved_ok_iff.mp htotals other
    rw [satSub_val] at hother
    split at hother
    · simp_all
      omega
    · simp_all

omit h in
/-- An accepted amendment leads to the totals of an unconditional one. -/
theorem restoredTotals_of_amended {current quantity : Quantity} {price : PriceTicks} {totals : U128 × U128}
    (htotals : RiskEngine.amendedTotals account side current price quantity = .ok totals) :
    RiskEngine.restoredTotals account side current quantity = .ok totals := by
  unfold RiskEngine.amendedTotals at htotals
  unfold RiskEngine.restoredTotals
  split at htotals
  · rename_i hgrows
    rw [if_pos hgrows]
    simp only [bind_eq_ok] at htotals
    obtain ⟨⟨buys, sells⟩, hadd, notional, _, htotals⟩ := htotals
    split at htotals
    · cases htotals
    · simp only [bind_eq_ok] at htotals
      obtain ⟨_, _, hpure⟩ := htotals
      cases hpure
      exact hadd
  · rename_i hshrinks
    rw [if_neg hshrinks]
    exact htotals

omit h in
/-- The totals of an amendment: the claim is exchanged, worst cases stay within
the limits, and the prior quantity leads back to the prior totals. -/
theorem amendedTotals_ok {current quantity : Quantity} {price : PriceTicks} {buys sells : U128}
    (htotals : RiskEngine.amendedTotals account side current price quantity = .ok (buys, sells))
    (hne : quantity ≠ current)
    (hexposed : ∀ other : Side, other.sign * account.settledPosition.val + (account.reserved other).val
      ≤ account.limits.maxAbsPosition.val) :
    (∀ other, (reservedOn buys sells other).val + (if side = other then current.val else 0)
      = (account.reserved other).val + if side = other then quantity.val else 0) ∧
    (∀ other : Side, other.sign * account.settledPosition.val + (reservedOn buys sells other).val
      ≤ account.limits.maxAbsPosition.val) ∧
    RiskEngine.restoredTotals { account with reservedBuys := buys, reservedSells := sells } side quantity current
      = .ok (account.reservedBuys, account.reservedSells) := by
  have hval : quantity.val ≠ current.val := fun heq => hne (Fin.ext heq)
  refine ⟨restoredTotals_ok (restoredTotals_of_amended htotals), ?_, ?_⟩
  · -- growth was checked against the limit, and a decrease only releases exposure
    unfold RiskEngine.amendedTotals at htotals
    split at htotals
    · simp only [bind_eq_ok] at htotals
      obtain ⟨⟨buys', sells'⟩, _, notional, _, htotals⟩ := htotals
      split at htotals
      · cases htotals
      simp only [bind_eq_ok] at htotals
      obtain ⟨_, hposition, hpure⟩ := htotals
      cases hpure
      exact checkPosition_ok hposition
    · intro other
      have hreleased := subReserved_ok_iff.mp htotals other
      have hbound := hexposed other
      omega
  · have hrestored := restoredTotals_of_amended htotals
    unfold RiskEngine.restoredTotals at hrestored ⊢
    split at hrestored
    · rw [if_neg (by omega), subReserved_ok_iff]
      exact addReserved_ok_iff.mp hrestored
    · rw [if_pos (by omega), addReserved_ok_iff]
      exact subReserved_ok_iff.mp hrestored

/-- A resized reservation and the totals of its owner: the claim is exchanged,
the position stays. -/
theorem resize_exchange {buys sells : U128} {quantity : Quantity} (hmem : reservation ∈ state.reservations)
    (haccount : state.account account.id = some account) (howner : reservation.accountId = account.id)
    (htotals : ∀ other, (reservedOn buys sells other).val + (if reservation.side = other then reservation.quantity.val else 0)
      = (account.reserved other).val + if reservation.side = other then quantity.val else 0)
    (hexposed : ∀ other : Side, other.sign * account.settledPosition.val + (reservedOn buys sells other).val
      ≤ account.limits.maxAbsPosition.val) :
    Exchange state ((state.setAccount { account with reservedBuys := buys, reservedSells := sells }).resize
      reservation.orderId quantity) account.id 0 [reservation] [{ reservation with quantity := quantity }] := by
  have hsplit := List.perm_cons_erase hmem
  rw [← sub_self account.settledPosition.val]
  refine exchange_of_update h { account with reservedBuys := buys, reservedSells := sells } haccount rfl hsplit
    (resize_perm h.orderIds hsplit quantity) (resize_ids h.orderIds _ _) ?_ ?_ rfl hexposed
    (h.balanced account (account_eq_some haccount).1).limit
  · intro other hother
    rcases List.mem_cons.mp hother with rfl | hother
    · exact howner
    · rw [List.mem_singleton.mp hother]
      exact howner
  · intro other
    simp only [AccountState.reserved, reservedTotal_cons, reservedTotal_nil, claim, howner, true_and,
      Nat.add_zero]
    exact htotals other

/-- Restoring the prior quantity of an amended reservation leads back to the
prior ledger. -/
theorem restore_amended {buys sells : U128} {quantity : Quantity}
    (hfind : state.reservation orderId = some reservation)
    (haccount : state.account reservation.accountId = some account) (hne : quantity ≠ reservation.quantity)
    (hrestored : RiskEngine.restoredTotals { account with reservedBuys := buys, reservedSells := sells }
      reservation.side quantity reservation.quantity = .ok (account.reservedBuys, account.reservedSells)) :
    ((state.setAccount { account with reservedBuys := buys, reservedSells := sells }).resize orderId
      quantity).restoreReservation orderId reservation.accountId reservation.quantity = (.ok (), state) := by
  have howner := (account_eq_some haccount).2
  have hfound : ((state.setAccount { account with reservedBuys := buys, reservedSells := sells }).resize orderId
      quantity).reservation orderId = some { reservation with quantity := quantity } :=
    reservation_resize h hfind quantity
  have hstored : ((state.setAccount { account with reservedBuys := buys, reservedSells := sells }).resize orderId
      quantity).account reservation.accountId
      = some { account with reservedBuys := buys, reservedSells := sells } := by
    change (state.setAccount { account with reservedBuys := buys, reservedSells := sells }).account _ = _
    rw [account_setAccount, haccount]
    simp
  have hback : (state.resize orderId quantity).resize orderId reservation.quantity = state := by
    rw [resize_resize, resize_self h hfind]
  have haccounts : (state.setAccount { account with reservedBuys := buys, reservedSells := sells }).setAccount account
      = state := by
    rw [setAccount_setAccount (by rfl), setAccount_self h (howner ▸ haccount)]
  unfold RiskEngineState.restoreReservation
  rw [hfound]
  simp only [ne_eq, not_true_eq_false, if_false, hne, hstored, hrestored]
  congr 1
  calc ((((state.setAccount { account with reservedBuys := buys, reservedSells := sells }).resize orderId
          quantity).setAccount account).resize orderId reservation.quantity)
      = { (state.setAccount { account with reservedBuys := buys, reservedSells := sells }).setAccount account with
          reservations := ((state.resize orderId quantity).resize orderId reservation.quantity).reservations } := rfl
    _ = state := by rw [haccounts, hback]

/-- Amending an owned reservation, and taking the amendment back. -/
theorem adjustReservation_exchange (orderId : OrderId) (accountId : AccountId) (price : PriceTicks)
    (quantity : Quantity) :
    (∃ reason, state.adjustReservation orderId accountId price quantity = (.error reason, state)) ∨
      ∃ reservation released state', state.reservation orderId = some reservation ∧
        reservation.accountId = accountId ∧
        state.adjustReservation orderId accountId price quantity = (.ok (released, reservation.quantity), state') ∧
        Exchange state state' accountId 0 [reservation] [{ reservation with quantity := quantity }] ∧
        state'.restoreReservation orderId accountId reservation.quantity = (.ok (), state) := by
  unfold RiskEngineState.adjustReservation
  cases hfind : state.reservation orderId with
  | none => exact .inl ⟨_, rfl⟩
  | some reservation =>
      obtain ⟨hmem, hid⟩ := reservation_eq_some hfind
      by_cases howner : reservation.accountId = accountId
      · subst howner
        simp only [ne_eq, not_true_eq_false, if_false]
        by_cases hsame : quantity = reservation.quantity
        · subst hsame
          refine .inr ⟨reservation, 0, state, rfl, rfl, by rw [if_pos rfl], ?_, ?_⟩
          · exact ⟨h, rfl, by simp, fun _ hperm => hperm, rfl, rfl⟩
          · simp [RiskEngineState.restoreReservation, hfind]
        · rw [if_neg hsame]
          cases haccount : state.account reservation.accountId with
          | none => exact .inl ⟨_, rfl⟩
          | some account =>
              cases htotals : RiskEngine.amendedTotals account reservation.side reservation.quantity price quantity with
              | error reason =>
                  simp only [htotals]
                  exact .inl ⟨_, rfl⟩
              | ok totals =>
                  obtain ⟨buys, sells⟩ := totals
                  simp only [htotals]
                  obtain ⟨hstored, howner⟩ := account_eq_some haccount
                  obtain ⟨hclaims, hexposed, hrestored⟩ := amendedTotals_ok htotals hsame
                    (h.balanced account hstored).exposed
                  refine .inr ⟨reservation, _, _, rfl, rfl, rfl, ?_, ?_⟩
                  · rw [← hid]
                    exact (resize_exchange h hmem (howner ▸ haccount) howner.symm hclaims hexposed).owner howner
                  · exact restore_amended h hfind haccount hsame hrestored
      · simp only [ne_eq, howner, not_false_eq_true, if_true]
        exact .inl ⟨_, rfl⟩

end Amending

/-! ### The ledger as a whole -/

/-- The sum of all settled positions. -/
def RiskEngineState.settledTotal (state : RiskEngineState) : Int :=
  (state.accounts.map fun account => account.settledPosition.val).sum

/-- The position of a stored account. -/
theorem RiskEngineState.Consistent.position_eq (h : state.Consistent) (hmem : account ∈ state.accounts) :
    state.position account.id = account.settledPosition.val := by
  rw [RiskEngineState.position, h.account_iff.mpr ⟨hmem, rfl⟩]
  rfl

/-- The sum of the settled positions, taken over the ids of the accounts, which
no command changes. -/
theorem RiskEngineState.Consistent.settledTotal_eq (h : state.Consistent) :
    state.settledTotal = ((state.terms.map Prod.fst).map state.position).sum := by
  unfold RiskEngineState.settledTotal RiskEngineState.terms
  rw [List.map_map, List.map_map]
  congr 1
  exact List.map_congr_left fun account hmem => (h.position_eq hmem).symm

/-- A value added at one of several distinct keys is added to the sum. -/
theorem sum_map_add_single {κ : Type} [DecidableEq κ] {keys : List κ} (hnodup : keys.Nodup) {key : κ}
    (hkey : key ∈ keys)
    (f : κ → Int) (delta : Int) :
    (keys.map fun other => f other + if other = key then delta else 0).sum = (keys.map f).sum + delta := by
  rw [List.sum_map_add, List.sum_map_ite_eq, List.count_eq_one_of_mem hnodup hkey]
  simp

/-- An exchange moves the sum of all positions with the one it moves. -/
theorem Exchange.total {delta : Int} {before after : List ReservationRiskState}
    (h : Exchange state state' id delta before after) (hstate : state.Consistent)
    (hid : ∃ account ∈ state.accounts, account.id = id) : state'.settledTotal = state.settledTotal + delta := by
  rw [h.consistent.settledTotal_eq, hstate.settledTotal_eq, h.terms]
  have hids : state.terms.map Prod.fst = state.accounts.map AccountState.id := by
    rw [RiskEngineState.terms, List.map_map]
    rfl
  have hposition : state'.position = fun other => state.position other + if other = id then delta else 0 :=
    funext h.position
  rw [hposition, hids]
  refine sum_map_add_single hstate.accountIds ?_ state.position delta
  obtain ⟨account, hmem, rfl⟩ := hid
  exact List.mem_map_of_mem hmem

/-- Terms, positions and reservations determine the account records. -/
theorem RiskEngineState.Consistent.accounts_eq (h : state.Consistent) (h' : state'.Consistent)
    (hterms : state'.terms = state.terms) (hposition : ∀ other, state'.position other = state.position other)
    (hreservations : state'.reservations.Perm state.reservations) : state'.accounts = state.accounts := by
  have hlength : state'.accounts.length = state.accounts.length := by
    simpa [RiskEngineState.terms] using congrArg List.length hterms
  refine List.ext_getElem hlength fun i hi hi' => ?_
  have hmem := List.getElem_mem hi
  have hmem' := List.getElem_mem hi'
  have hsame : state'.accounts[i].terms = state.accounts[i].terms := by
    have := List.getElem_of_eq hterms (i := i) (by simpa [RiskEngineState.terms] using hi)
    simpa [RiskEngineState.terms] using this
  have hnew := h'.balanced _ hmem
  have hold := h.balanced _ hmem'
  have hpositions := hposition state.accounts[i].id
  have hid : state'.accounts[i].id = state.accounts[i].id := congrArg Prod.fst hsame
  rw [h.position_eq hmem', ← hid, h'.position_eq hmem] at hpositions
  have hcount := hnew.count
  have hbuys := hnew.reserved .buy
  have hsells := hnew.reserved .sell
  rw [openCount_perm hreservations] at hcount
  rw [reservedTotal_perm hreservations] at hbuys hsells
  generalize state'.accounts[i] = new at *
  generalize state.accounts[i] = old at *
  obtain ⟨_, _, _, _, _, _, _⟩ := new
  obtain ⟨_, _, _, _, _, _, _⟩ := old
  obtain ⟨rfl, rfl, rfl⟩ : _ = _ ∧ _ = _ ∧ _ = _ := by simpa [AccountState.terms] using hsame
  simp only [AccountState.mk.injEq, true_and, and_true]
  refine ⟨?_, Fin.ext (hbuys.trans (hold.reserved .buy).symm), Fin.ext (hsells.trans (hold.reserved .sell).symm),
    Fin.ext (hcount.trans hold.count.symm)⟩
  exact Signed.ext hpositions

end HftEngine
