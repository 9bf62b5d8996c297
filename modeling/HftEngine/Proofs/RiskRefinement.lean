/-
Module: HftEngine.Proofs.RiskRefinement
Layer: Proofs
Purpose: Every operation of the risk engine returns what the ledger's operation
  returns and keeps representing the ledger; in particular none of them panics.
Imports: HftEngine.Proofs.RiskRep
Trusted boundary: none (fully proved)
Main exports: RiskRefines, checkAndReserve_refines, settle_refines,
  recordFill_refines, adjustReservation_refines, restoreReservation_refines,
  cancelReservation_refines
-/
import HftEngine.Proofs.RiskRep

namespace HftEngine

open Machine SlotArena

variable {A R : Nat} {engine : RiskEngine A R} {state : RiskEngineState} {α : Type}

/-- A storage step that returned `result` follows a ledger step. -/
def RiskRefines (result : Option (Except RejectReason α × RiskEngine A R))
    (ledger : Except RejectReason α × RiskEngineState) : Prop :=
  ∃ engine', result = some (ledger.1, engine') ∧ RiskRep engine' ledger.2

/-- A refusal on both levels: neither the engine nor the ledger moves. -/
theorem RiskRep.refuse (rep : RiskRep engine state) (reason : RejectReason) :
    RiskRefines (α := α) (some (.error reason, engine)) (.error reason, state) :=
  ⟨engine, rfl, rep⟩

section Frame

variable {slot : Nat} {account : AccountState}

theorem reservations_setAccount : (engine.setAccount slot account).reservations = engine.reservations := rfl

theorem reservationIndex_setAccount :
    (engine.setAccount slot account).reservationIndex = engine.reservationIndex := rfl

/-- Writing an account leaves the reservations of the ledger alone. -/
theorem reservation_setAccount {orderId : OrderId} :
    (state.setAccount account).reservation orderId = state.reservation orderId := rfl

end Frame

/-- Admission of a new order refines the ledger's. The engine fails to find a
slot exactly when the ledger is full, which is the one place where the capacity
`R` shows. -/
theorem checkAndReserve_refines (rep : RiskRep engine state) (order : NewOrder) :
    RiskRefines (engine.checkAndReserve order) (state.checkAndReserve R order) := by
  unfold RiskEngine.checkAndReserve RiskEngineState.checkAndReserve
  rw [rep.killed]
  by_cases hkilled : state.killed = true
  · rw [if_pos hkilled, if_pos hkilled]
    exact rep.refuse _
  rw [if_neg hkilled, if_neg hkilled]
  by_cases hquantity : order.quantity.val = 0
  · rw [if_pos hquantity, if_pos hquantity]
    exact rep.refuse _
  rw [if_neg hquantity, if_neg hquantity, rep.maximumOrderId]
  by_cases hduplicate : (state.maximumOrderId.any fun maximum => decide (order.orderId.val ≤ maximum.val)) = true
  · rw [if_pos hduplicate, if_pos hduplicate]
    exact rep.refuse _
  rw [if_neg hduplicate, if_neg hduplicate]
  cases hhead : engine.reservationFreeHead with
  | none =>
      rw [if_pos (rep.freeHead_none_iff.mp hhead)]
      exact rep.refuse _
  | some slot =>
      have hroom : ¬R ≤ state.reservations.length := by
        rw [← rep.freeHead_none_iff, hhead]
        simp
      rw [if_neg hroom]
      simp only
      rcases rep.findAccount_spec order.accountId with
        ⟨accountSlot, account, hfind, hat, hid, hledger⟩ | ⟨hfind, hledger⟩
      · simp only [hfind, hledger]
        cases hlimits : evaluateLimits account order with
        | error reason => exact rep.refuse _
        | ok totals =>
            obtain ⟨reservedBuys, reservedSells, openOrders⟩ := totals
            have hnew : ∀ maximum, state.maximumOrderId = some maximum → maximum.val < order.orderId.val := by
              intro maximum hmaximum
              simpa [hmaximum] using hduplicate
            have hset := rep.setAccount_spec { account with
                reservedBuys := reservedBuys
                reservedSells := reservedSells
                openOrders := openOrders } hat rfl
            obtain ⟨nextFree, hfree, hcases⟩ := hset.reserve_spec hhead hnew order.accountId order.side
              order.quantity
            simp only [reservations_setAccount, reservationIndex_setAccount, reservation_setAccount] at hfree hcases
            simp only [hfree]
            rcases hcases with ⟨cell, index, hinsert, hfits, hrep⟩ | ⟨hinsert, hfits⟩
            · rw [hinsert, if_pos hfits]
              exact ⟨_, rfl, hrep⟩
            · rw [hinsert, if_neg hfits]
              exact rep.refuse _
      · simp only [hfind, hledger]
        exact rep.refuse _

/-- Ending a reservation that was already located. The engine empties its slot
and its index cell where the ledger drops the record. -/
theorem settleReservation_refines (rep : RiskRep engine state) {slot : Nat} {reservation : Reservation}
    (hlive : liveAt engine.reservations slot = some reservation) (filled : Quantity) :
    RiskRefines (engine.settleReservation slot reservation filled)
      (state.settleReservation (RiskEngine.exportReservation reservation) filled) := by
  unfold RiskEngine.settleReservation RiskEngineState.settleReservation
  simp only [RiskEngine.exportReservation]
  rcases rep.findAccount_spec reservation.accountId with
    ⟨accountSlot, account, hfind, hat, hid, hledger⟩ | ⟨hfind, hledger⟩
  · simp only [hfind, hledger]
    cases exposureAfterFill account reservation.side filled reservation.quantity with
    | error reason => exact rep.refuse _
    | ok totals =>
        obtain ⟨settledPosition, reservedBuys, reservedSells⟩ := totals
        simp only
        cases checkedSub account.openOrders 1 with
        | none => exact rep.refuse _
        | some openOrders =>
            have hset := rep.setAccount_spec { account with
                settledPosition := settledPosition
                reservedBuys := reservedBuys
                reservedSells := reservedSells
                openOrders := openOrders } hat rfl
            obtain ⟨engine', hrelease, hrep⟩ := hset.release_spec hlive reservation rfl rfl
            refine ⟨engine', ?_, hrep⟩
            simp only [hrelease, Option.bind_eq_bind, Option.bind_some, Option.pure_def]
  · simp only [hfind, hledger]
    exact rep.refuse _

/-- Ending a reservation by order id: both levels find it, or neither does. -/
theorem settle_refines (rep : RiskRep engine state) (orderId : OrderId) (filled : Quantity) :
    RiskRefines (engine.settle orderId filled) (state.settle orderId filled) := by
  unfold RiskEngine.settle RiskEngineState.settle
  rcases rep.liveReservation_spec orderId with ⟨slot, reservation, hfind, hlive, hid, hledger⟩ | ⟨hfind, hledger⟩
  · simp only [hfind, hledger, RiskEngine.exportReservation]
    split
    · exact rep.refuse _
    · exact settleReservation_refines rep hlive filled
  · simp only [hfind, hledger]
    exact rep.refuse _

/-- Resizing a stored reservation after its account was rewritten. -/
theorem resize_refines (rep : RiskRep engine state) {accountSlot slot : Nat} {account account' : AccountState}
    {reservation : Reservation} (hat : engine.accountAt accountSlot = some account) (hid : account'.id = account.id)
    (hlive : liveAt engine.reservations slot = some reservation) (quantity : Quantity) :
    RiskRep ((engine.setAccount accountSlot account').setReservation slot { reservation with quantity := quantity })
      ((state.setAccount account').resize reservation.orderId quantity) :=
  (rep.setAccount_spec account' hat hid).setReservation_spec hlive quantity

/-- A fill. When it takes the last of the reservation both levels close it,
otherwise both write the smaller quantity. -/
theorem recordFill_refines (rep : RiskRep engine state) (orderId : OrderId) (filled : Quantity) :
    RiskRefines (engine.recordFill orderId filled) (state.recordFill orderId filled) := by
  unfold RiskEngine.recordFill RiskEngineState.recordFill
  by_cases hzero : filled.val = 0
  · rw [if_pos hzero, if_pos hzero]
    exact rep.refuse _
  rw [if_neg hzero, if_neg hzero]
  rcases rep.liveReservation_spec orderId with ⟨slot, reservation, hfind, hlive, hid, hledger⟩ | ⟨hfind, hledger⟩
  · simp only [hfind, hledger, RiskEngine.exportReservation]
    cases checkedSub reservation.quantity filled with
    | none => exact rep.refuse _
    | some left =>
        simp only
        rcases rep.findAccount_spec reservation.accountId with
          ⟨accountSlot, account, hfind', hat, hid', hledger'⟩ | ⟨hfind', hledger'⟩
        · simp only [hfind', hledger']
          cases exposureAfterFill account reservation.side filled filled with
          | error reason => exact rep.refuse _
          | ok totals =>
              obtain ⟨settledPosition, reservedBuys, reservedSells⟩ := totals
              simp only
              cases RiskEngine.openOrdersAfter account left with
              | error reason => exact rep.refuse _
              | ok openOrders =>
                  have hset := rep.setAccount_spec { account with
                      settledPosition := settledPosition
                      reservedBuys := reservedBuys
                      reservedSells := reservedSells
                      openOrders := openOrders } hat rfl
                  subst hid
                  by_cases hleft : left.val = 0
                  · simp only [if_pos hleft]
                    obtain ⟨engine', hrelease, hrep⟩ := hset.release_spec hlive
                      { reservation with quantity := left } rfl rfl
                    exact ⟨engine', by simp only [hrelease, Option.bind_eq_bind, Option.bind_some, Option.pure_def],
                      hrep⟩
                  · simp only [if_neg hleft]
                    refine ⟨_, rfl, ?_⟩
                    apply resize_refines rep hat _ hlive left
                    rfl
        · simp only [hfind', hledger']
          exact rep.refuse _
  · simp only [hfind, hledger]
    exact rep.refuse _

/-- An amend of a reservation, with the limit checks of an increase and without
any for a decrease. -/
theorem adjustReservation_refines (rep : RiskRep engine state) (orderId : OrderId) (accountId : AccountId)
    (price : PriceTicks) (quantity : Quantity) :
    RiskRefines (engine.adjustReservation orderId accountId price quantity)
      (state.adjustReservation orderId accountId price quantity) := by
  unfold RiskEngine.adjustReservation RiskEngineState.adjustReservation
  rcases rep.liveReservation_spec orderId with ⟨slot, reservation, hfind, hlive, rfl, hledger⟩ | ⟨hfind, hledger⟩
  · simp only [hfind, hledger, RiskEngine.exportReservation]
    split
    · exact rep.refuse _
    · split
      · exact ⟨engine, rfl, rep⟩
      · rcases rep.findAccount_spec accountId with
          ⟨accountSlot, account, hfind', hat, hid', hledger'⟩ | ⟨hfind', hledger'⟩
        · simp only [hfind', hledger']
          cases RiskEngine.amendedTotals account reservation.side reservation.quantity price quantity with
          | error reason => exact rep.refuse _
          | ok totals =>
              obtain ⟨reservedBuys, reservedSells⟩ := totals
              refine ⟨_, rfl, ?_⟩
              apply resize_refines rep hat _ hlive quantity
              rfl
        · simp only [hfind', hledger']
          exact rep.refuse _
  · simp only [hfind, hledger]
    exact rep.refuse _

/-- The way back from an amend that the book refused: no limit is looked at on
either level. -/
theorem restoreReservation_refines (rep : RiskRep engine state) (orderId : OrderId) (accountId : AccountId)
    (quantity : Quantity) :
    RiskRefines (engine.restoreReservation orderId accountId quantity)
      (state.restoreReservation orderId accountId quantity) := by
  unfold RiskEngine.restoreReservation RiskEngineState.restoreReservation
  rcases rep.liveReservation_spec orderId with ⟨slot, reservation, hfind, hlive, rfl, hledger⟩ | ⟨hfind, hledger⟩
  · simp only [hfind, hledger, RiskEngine.exportReservation]
    split
    · exact rep.refuse _
    · split
      · exact ⟨engine, rfl, rep⟩
      · rcases rep.findAccount_spec accountId with
          ⟨accountSlot, account, hfind', hat, hid', hledger'⟩ | ⟨hfind', hledger'⟩
        · simp only [hfind', hledger']
          cases RiskEngine.restoredTotals account reservation.side reservation.quantity quantity with
          | error reason => exact rep.refuse _
          | ok totals =>
              obtain ⟨reservedBuys, reservedSells⟩ := totals
              refine ⟨_, rfl, ?_⟩
              apply resize_refines rep hat _ hlive quantity
              rfl
        · simp only [hfind', hledger']
          exact rep.refuse _
  · simp only [hfind, hledger]
    exact rep.refuse _

/-- The question whether an account may cancel changes nothing, so here the two
answers are simply equal. -/
theorem canCancel_refines (rep : RiskRep engine state) (orderId : OrderId) (accountId : AccountId) :
    engine.canCancel orderId accountId = state.canCancel orderId accountId := by
  unfold RiskEngine.canCancel RiskEngineState.canCancel
  rcases rep.liveReservation_spec orderId with ⟨slot, reservation, hfind, hlive, rfl, hledger⟩ | ⟨hfind, hledger⟩
  · simp only [hfind, hledger, RiskEngine.exportReservation]
  · simp only [hfind, hledger]

/-- An owned cancel releases what was left of the reservation. -/
theorem cancelReservation_refines (rep : RiskRep engine state) (orderId : OrderId) (accountId : AccountId) :
    RiskRefines (engine.cancelReservation orderId accountId) (state.cancelReservation orderId accountId) := by
  unfold RiskEngine.cancelReservation RiskEngineState.cancelReservation
  rcases rep.liveReservation_spec orderId with ⟨slot, reservation, hfind, hlive, rfl, hledger⟩ | ⟨hfind, hledger⟩
  · simp only [hfind, hledger]
    by_cases howner : reservation.accountId = accountId
    · rw [if_neg (by simpa using howner), if_neg (by simpa [RiskEngine.exportReservation] using howner)]
      obtain ⟨engine', hsettle, hrep⟩ := settleReservation_refines rep hlive 0
      generalize state.settleReservation (RiskEngine.exportReservation reservation) 0 = settled at hsettle hrep
      obtain ⟨result, after⟩ := settled
      rw [hsettle]
      cases result with
      | error reason => exact ⟨engine', rfl, hrep⟩
      | ok _ => exact ⟨engine', rfl, hrep⟩
    · rw [if_pos howner, if_pos (by simpa [RiskEngine.exportReservation] using howner)]
      exact rep.refuse _
  · simp only [hfind, hledger]
    exact rep.refuse _

end HftEngine
