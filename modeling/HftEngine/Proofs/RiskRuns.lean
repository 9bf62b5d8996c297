/-
Module: HftEngine.Proofs.RiskRuns
Layer: Proofs
Purpose: The risk engine on its own, driven by any sequence of its public
  operations with any arguments. Every call returns, a refused call leaves the
  engine as it was, and in every state reached the slots, both indices, the
  account totals and the watermark agree.
Imports: HftEngine.Proofs.RiskSetup, HftEngine.Lib.Transition
Trusted boundary: none (fully proved)
Main exports: RiskCall, RiskReply, RiskEngine.perform, RiskEngine.Sound,
  RiskRep.sound, perform_refused, perform_tallied, run_tallied,
  risk_engine_sound
-/
import HftEngine.Proofs.RiskSetup
import HftEngine.Lib.Transition

namespace HftEngine

open Machine OpenAddressing SlotArena KeyedList Transition

variable {A R : Nat} {engine engine' : RiskEngine A R} {state state' : RiskEngineState} {account : AccountState}
  {reservation : ReservationRiskState} {reservations others : List ReservationRiskState} {orderId : OrderId}
  {side : Side} {slot : Nat}

/-! ### Calls -/

/-- The public operations of the engine that can change it. -/
inductive RiskCall where
  | registerAccount (id : AccountId) (limits : RiskLimits)
  | setKillSwitch (killed : Bool)
  | setAccountKillSwitch (accountId : AccountId) (killed : Bool)
  | checkAndReserve (order : NewOrder)
  | settle (orderId : OrderId) (filledQuantity : Quantity)
  | recordFill (orderId : OrderId) (filledQuantity : Quantity)
  | adjustReservation (orderId : OrderId) (accountId : AccountId) (price : PriceTicks) (newQuantity : Quantity)
  | restoreReservation (orderId : OrderId) (accountId : AccountId) (priorQuantity : Quantity)
  | cancelReservation (orderId : OrderId) (accountId : AccountId)
deriving DecidableEq, Repr

/-- What a call returns: nothing, a registration error, a refusal, or the
operation's own value. -/
inductive RiskReply where
  | done
  | notRegistered (error : RegistrationError)
  | refused (reason : RejectReason)
  | adjusted (released prior : Quantity)
  | canceled (released : Quantity)
deriving DecidableEq, Repr

/-- Whether a reply is an `Err` of the source. -/
def RiskReply.isErr : RiskReply → Bool
  | .notRegistered _ | .refused _ => true
  | .done | .adjusted _ _ | .canceled _ => false

/-- The reply of an operation that may refuse. -/
def RiskReply.of {α : Type} (success : α → RiskReply) : Except RejectReason α → RiskReply
  | .ok value => success value
  | .error reason => .refused reason

/-- A returned result as a reply. -/
def replyWith {α : Type} (success : α → RiskReply) (result : Option (Except RejectReason α × RiskEngine A R)) :
    Option (RiskReply × RiskEngine A R) :=
  result.map fun (outcome, engine) => (RiskReply.of success outcome, engine)

/-- One call of the public interface as a step. The panics of the engine are
the runs that stop. -/
def RiskEngine.perform (engine : RiskEngine A R) : RiskCall → Option (RiskReply × RiskEngine A R)
  | .registerAccount id limits =>
      match engine.registerAccount id limits with
      | (.ok (), engine) => some (.done, engine)
      | (.error error, engine) => some (.notRegistered error, engine)
  | .setKillSwitch killed => some (.done, engine.setKillSwitch killed)
  | .setAccountKillSwitch accountId killed =>
      replyWith (fun _ => .done) (engine.setAccountKillSwitch accountId killed)
  | .checkAndReserve order => replyWith (fun _ => .done) (engine.checkAndReserve order)
  | .settle orderId filled => replyWith (fun _ => .done) (engine.settle orderId filled)
  | .recordFill orderId filled => replyWith (fun _ => .done) (engine.recordFill orderId filled)
  | .adjustReservation orderId accountId price newQuantity =>
      replyWith (fun (released, prior) => .adjusted released prior)
        (engine.adjustReservation orderId accountId price newQuantity)
  | .restoreReservation orderId accountId priorQuantity =>
      replyWith (fun _ => .done) (engine.restoreReservation orderId accountId priorQuantity)
  | .cancelReservation orderId accountId =>
      replyWith .canceled (engine.cancelReservation orderId accountId)

/-! ### The tally of the ledger

Unlike the exchanges of `RiskBalance`, these lemmas ask for no limit: a caller may restore any quantity. -/

section Tally

variable (h : state.Tallied)
include h

/-- A reservation closes or shrinks, and the totals of its owner follow. -/
theorem tallied_of_claims {account' : AccountState} (after : List ReservationRiskState)
    (hmem : reservation ∈ state.reservations) (haccount : state.account reservation.accountId = some account)
    (hid : account'.id = account.id) (hafter : reservations.Perm (after ++ state.reservations.erase reservation))
    (hids : (reservations.map ReservationRiskState.orderId).Nodup)
    (howned : ∀ other ∈ after, other.accountId = reservation.accountId)
    (hclaims : ∀ other, (account'.reserved other).val + claim other reservation.accountId reservation
      = (account.reserved other).val + reservedTotal other reservation.accountId after)
    (hopen : account'.openOrders.val + 1 = account.openOrders.val + after.length) :
    ({ state.setAccount account' with reservations := reservations } : RiskEngineState).Tallied := by
  have howner := (account_eq_some haccount).2
  have hsame : account'.id = reservation.accountId := hid.trans howner
  have hsplit : state.reservations.Perm ([reservation] ++ state.reservations.erase reservation) :=
    List.perm_cons_erase hmem
  apply tallied_of_update h account' (hsame ▸ haccount) hsplit hafter hids
  · intro other hother
    rcases List.mem_cons.mp hother with rfl | hother
    · exact hsame.symm
    · exact (howned other hother).trans hsame.symm
  · intro other
    rw [hsame, reservedTotal_cons, reservedTotal_nil, Nat.add_zero]
    exact hclaims other
  · simpa using hopen

/-- Closing a reservation keeps the totals: what the account gives up is what
the reservation claimed. -/
theorem tallied_release {filled released : Quantity} {position : I128} {buys sells : U128} {openOrders : U32}
    (hmem : reservation ∈ state.reservations) (haccount : state.account reservation.accountId = some account)
    (hexposure : exposureAfterFill account reservation.side filled released = .ok (position, buys, sells))
    (hall : released.val = reservation.quantity.val) (hopen : account.openOrders.val = openOrders.val + 1) :
    ((state.setAccount { account with
        settledPosition := position
        reservedBuys := buys
        reservedSells := sells
        openOrders := openOrders }).release reservation.orderId).Tallied := by
  apply tallied_of_claims h [] hmem haccount (by rfl)
    (release_perm h.orderIds (List.perm_cons_erase hmem)) (release_ids h.orderIds _) (by simp)
  · intro other
    have hother := (exposureAfterFill_ok hexposure).2 other
    simp only [AccountState.reserved] at hother ⊢
    rw [claim_own, reservedTotal_nil, hother, hall]
    rfl
  · simpa using hopen.symm

/-- Resizing a reservation keeps the totals: both change by the same
difference. -/
theorem tallied_resize {account' : AccountState} {quantity : Quantity} (hmem : reservation ∈ state.reservations)
    (haccount : state.account reservation.accountId = some account) (hid : account'.id = account.id)
    (htotals : ∀ other, (account'.reserved other).val + (if reservation.side = other then reservation.quantity.val else 0)
      = (account.reserved other).val + if reservation.side = other then quantity.val else 0)
    (hopen : account'.openOrders = account.openOrders) :
    ((state.setAccount account').resize reservation.orderId quantity).Tallied := by
  apply tallied_of_claims h [{ reservation with quantity := quantity }] hmem haccount hid
    (resize_perm h.orderIds (List.perm_cons_erase hmem) quantity) (resize_ids h.orderIds _ _) (by simp)
  · intro other
    rw [claim_own, reservedTotal_cons, reservedTotal_nil, Nat.add_zero, claim]
    simpa using htotals other
  · simp [hopen]

/-- Ending a reservation keeps the totals, whether it was filled or
released. -/
theorem tallied_settleReservation (hmem : reservation ∈ state.reservations) (filled : Quantity) :
    (state.settleReservation reservation filled).2.Tallied := by
  unfold RiskEngineState.settleReservation
  cases haccount : state.account reservation.accountId with
  | none => exact h
  | some account =>
      simp only
      cases hexposure : exposureAfterFill account reservation.side filled reservation.quantity with
      | error reason => exact h
      | ok totals =>
          obtain ⟨position, buys, sells⟩ := totals
          cases hopen : checkedSub account.openOrders 1 with
          | none => exact h
          | some openOrders => exact tallied_release h hmem haccount hexposure rfl (checkedSub_eq_some.mp hopen)

/-- Settling keeps the totals. -/
theorem tallied_settle (orderId : OrderId) (filled : Quantity) : (state.settle orderId filled).2.Tallied := by
  unfold RiskEngineState.settle
  cases hfind : state.reservation orderId with
  | none => exact h
  | some reservation =>
      simp only
      split
      · exact h
      · exact tallied_settleReservation h (reservation_eq_some hfind).1 filled

/-- Cancelling keeps the totals. -/
theorem tallied_cancelReservation (orderId : OrderId) (accountId : AccountId) :
    (state.cancelReservation orderId accountId).2.Tallied := by
  unfold RiskEngineState.cancelReservation
  cases hfind : state.reservation orderId with
  | none => exact h
  | some reservation =>
      simp only
      split
      · exact h
      · have hsettled := tallied_settleReservation h (reservation_eq_some hfind).1 0
        split
        · rename_i hresult
          rw [hresult] at hsettled
          exact hsettled
        · rename_i hresult
          rw [hresult] at hsettled
          exact hsettled

/-- A fill keeps the totals, whether or not it closes the reservation. -/
theorem tallied_recordFill (orderId : OrderId) (filled : Quantity) :
    (state.recordFill orderId filled).2.Tallied := by
  unfold RiskEngineState.recordFill
  split
  · exact h
  cases hfind : state.reservation orderId with
  | none => exact h
  | some reservation =>
      obtain ⟨hmem, rfl⟩ := reservation_eq_some hfind
      simp only
      cases hleft : checkedSub reservation.quantity filled with
      | none => exact h
      | some left =>
          have hsplit : reservation.quantity.val = left.val + filled.val := checkedSub_eq_some.mp hleft
          cases haccount : state.account reservation.accountId with
          | none => exact h
          | some account =>
              simp only
              cases hexposure : exposureAfterFill account reservation.side filled filled with
              | error reason => exact h
              | ok totals =>
                  obtain ⟨position, buys, sells⟩ := totals
                  cases hopen : RiskEngine.openOrdersAfter account left with
                  | error reason => exact h
                  | ok openOrders =>
                      have hcounts := openOrdersAfter_ok hopen
                      simp only
                      split
                      · rename_i hclosed
                        rw [if_pos hclosed] at hcounts
                        exact tallied_release h hmem haccount hexposure (by omega) hcounts
                      · rename_i hremains
                        rw [if_neg hremains, Nat.add_zero] at hcounts
                        apply tallied_resize h hmem haccount (by rfl)
                        · intro other
                          have hother := (exposureAfterFill_ok hexposure).2 other
                          simp only [AccountState.reserved] at hother ⊢
                          split at hother
                          · rename_i hside
                            rw [if_pos hside, if_pos hside]
                            omega
                          · rename_i hside
                            rw [if_neg hside, if_neg hside]
                            omega
                        · exact Fin.ext hcounts.symm

/-- An amend keeps the totals in either direction. -/
theorem tallied_adjustReservation (orderId : OrderId) (accountId : AccountId) (price : PriceTicks)
    (quantity : Quantity) : (state.adjustReservation orderId accountId price quantity).2.Tallied := by
  unfold RiskEngineState.adjustReservation
  cases hfind : state.reservation orderId with
  | none => exact h
  | some reservation =>
      obtain ⟨hmem, rfl⟩ := reservation_eq_some hfind
      simp only
      split
      · exact h
      rename_i howner
      split
      · exact h
      cases haccount : state.account accountId with
      | none => exact h
      | some account =>
          simp only
          cases htotals : RiskEngine.amendedTotals account reservation.side reservation.quantity price quantity with
          | error reason => exact h
          | ok totals =>
              obtain ⟨buys, sells⟩ := totals
              have hclaims := restoredTotals_ok (restoredTotals_of_amended htotals)
              rw [← not_not.mp howner] at haccount
              exact tallied_resize h hmem haccount rfl hclaims rfl

/-- Undoing an amend keeps the totals. -/
theorem tallied_restoreReservation (orderId : OrderId) (accountId : AccountId) (quantity : Quantity) :
    (state.restoreReservation orderId accountId quantity).2.Tallied := by
  unfold RiskEngineState.restoreReservation
  cases hfind : state.reservation orderId with
  | none => exact h
  | some reservation =>
      obtain ⟨hmem, rfl⟩ := reservation_eq_some hfind
      simp only
      split
      · exact h
      rename_i howner
      split
      · exact h
      cases haccount : state.account accountId with
      | none => exact h
      | some account =>
          simp only
          cases htotals : RiskEngine.restoredTotals account reservation.side reservation.quantity quantity with
          | error reason => exact h
          | ok totals =>
              obtain ⟨buys, sells⟩ := totals
              rw [← not_not.mp howner] at haccount
              exact tallied_resize h hmem haccount rfl (restoredTotals_ok htotals) rfl

/-- Reserving keeps the totals. The watermark makes the id new, so that no
reservation is counted twice. -/
theorem tallied_checkAndReserve (R : Nat) (order : NewOrder)
    (hmark : ∀ reservation ∈ state.reservations, ∃ maximum, state.maximumOrderId = some maximum ∧
      reservation.orderId.val ≤ maximum.val) : (state.checkAndReserve R order).2.Tallied := by
  unfold RiskEngineState.checkAndReserve
  split
  · exact h
  split
  · exact h
  split
  · exact h
  rename_i hmaximum
  split
  · exact h
  cases haccount : state.account order.accountId with
  | none => exact h
  | some account =>
      simp only
      cases hlimits : evaluateLimits account order with
      | error reason => exact h
      | ok totals =>
          obtain ⟨buys, sells, openOrders⟩ := totals
          simp only
          split
          · obtain ⟨_, hadd, _, hcount, _⟩ := evaluateLimits_ok hlimits
            have hid := (account_eq_some haccount).2
            have hnew := not_reserved_of_mark hmark hmaximum
            have tallied : ({ state.setAccount { account with
                reservedBuys := buys
                reservedSells := sells
                openOrders := openOrders } with
                reservations := state.reservations ++
                  [⟨order.orderId, order.accountId, order.side, order.quantity⟩] } : RiskEngineState).Tallied := by
              apply tallied_of_update h _ (by simpa [hid] using haccount) (List.Perm.refl ([] ++ state.reservations))
                (show List.Perm _ ([_] ++ state.reservations) from List.perm_append_singleton _ _)
                (reserve_ids h.orderIds hnew) (by simpa using hid.symm) _ (by simpa using hcount)
              intro other
              have hother := addReserved_ok_iff.mp hadd other
              simp only [AccountState.reserved, reservedTotal_cons, reservedTotal_nil, claim, hid, true_and,
                Nat.add_zero] at hother ⊢
              exact hother
            exact ⟨tallied.accountIds, tallied.orderIds, tallied.reserved, tallied.count, tallied.owners⟩
          · exact h

end Tally

/-! ### Soundness of the storage -/

/-- The exported records of the live slots. -/
def RiskEngine.records (engine : RiskEngine A R) : List ReservationRiskState :=
  engine.liveReservations.map RiskEngine.exportReservation

/-- What the parts of an engine have to agree on. -/
structure RiskEngine.Sound (engine : RiskEngine A R) : Prop where
  /-- The slots that are not live form one list along the free links, which ends and visits none twice. -/
  freeList : ∃ free, FreeChain engine.reservations engine.reservationFreeHead free ∧ free.Nodup ∧
    ∀ slot, slot ∈ free ↔ slot < R ∧ liveAt engine.reservations slot = none
  /-- The index finds exactly the live order ids, in their slots. -/
  reservationIndex : ∀ orderId slot, engine.reservationIndex.lookup orderId = some slot ↔
    ∃ reservation, liveAt engine.reservations slot = some reservation ∧ reservation.orderId = orderId
  /-- A live reservation names the cell of its own entry. -/
  indexSlots : ∀ slot reservation, liveAt engine.reservations slot = some reservation →
    cell engine.reservationIndex reservation.indexSlot = some (reservation.orderId, slot + 1)
  /-- No cell holds anything else. -/
  indexCells : ∀ i key value, cell engine.reservationIndex i = some (key, value) →
    ∃ slot reservation, liveAt engine.reservations slot = some reservation ∧ reservation.orderId = key ∧
      reservation.indexSlot.val = i ∧ value = slot + 1
  /-- The account index finds exactly the registered ids, in their slots. -/
  accountIndex : ∀ id slot, engine.accountSlot id = some slot ↔
    ∃ account, engine.accountAt slot = some account ∧ account.id = id
  accountCells : ∀ i key value, cell engine.accountIndex i = some (key, value) →
    ∃ slot account, engine.accountAt slot = some account ∧ RiskEngine.accountKey account.id = key ∧ value = slot + 1
  reservedBuys : ∀ account ∈ engine.registeredAccounts,
    account.reservedBuys.val = reservedTotal .buy account.id engine.records
  reservedSells : ∀ account ∈ engine.registeredAccounts,
    account.reservedSells.val = reservedTotal .sell account.id engine.records
  openOrders : ∀ account ∈ engine.registeredAccounts, account.openOrders.val = openCount account.id engine.records
  watermark : ∀ reservation ∈ engine.liveReservations, ∃ maximum, engine.maximumOrderId = some maximum ∧
    reservation.orderId.val ≤ maximum.val

section Representation

variable (rep : RiskRep engine state)
include rep

/-- The order index finds exactly the live reservations. -/
theorem RiskRep.lookup_reservation (orderId : OrderId) (slot : Nat) :
    engine.reservationIndex.lookup orderId = some slot ↔
      ∃ reservation, liveAt engine.reservations slot = some reservation ∧ reservation.orderId = orderId := by
  unfold ProbeIndex.lookup
  rw [Option.map_eq_some_iff]
  constructor
  · rintro ⟨value, hlookup, rfl⟩
    obtain ⟨found, cell, rfl, hhandle⟩ := (rep.tracked.lookup_iff fun key => probeStart_lt key).mp hlookup
    obtain ⟨reservation, hlive, hpair⟩ := Option.map_eq_some_iff.mp hhandle
    exact ⟨reservation, hlive, congrArg Prod.fst hpair⟩
  · rintro ⟨reservation, hlive, rfl⟩
    refine ⟨slot + 1, ?_, rfl⟩
    apply (rep.tracked.lookup_iff fun key => probeStart_lt key).mpr
    exact ⟨slot, reservation.indexSlot, rfl, by simp [reservationHandle, hlive]⟩

/-- The account index finds exactly the registered accounts. -/
theorem RiskRep.lookup_account (id : AccountId) (slot : Nat) :
    engine.accountSlot id = some slot ↔ ∃ account, engine.accountAt slot = some account ∧ account.id = id := by
  obtain ⟨cells, tracked⟩ := rep.accountCells
  unfold RiskEngine.accountSlot ProbeIndex.lookup
  rw [Option.map_eq_some_iff]
  constructor
  · rintro ⟨value, hlookup, rfl⟩
    obtain ⟨found, cell, rfl, hhandle⟩ := (tracked.lookup_iff fun key => probeStart_lt key).mp hlookup
    obtain ⟨account, hat, hpair⟩ := Option.map_eq_some_iff.mp hhandle
    exact ⟨account, hat, accountKey_inj (congrArg Prod.fst hpair)⟩
  · rintro ⟨account, hat, rfl⟩
    refine ⟨slot + 1, ?_, rfl⟩
    apply (tracked.lookup_iff fun key => probeStart_lt key).mpr
    exact ⟨slot, cells slot, rfl, by simp [hat]⟩

/-- The records in the slots are the reservations of the ledger. -/
theorem RiskRep.records_perm : engine.records.Perm state.reservations := by
  unfold RiskEngine.records
  rw [liveReservations_eq]
  exact rep.reservations

theorem RiskRep.registered_mem (hmem : account ∈ engine.registeredAccounts) : account ∈ state.accounts := by
  rw [registeredAccounts_eq] at hmem
  exact rep.accounts.mem_iff.mp hmem

/-- An engine that stores a tallied ledger is sound. -/
theorem RiskRep.sound (tallied : state.Tallied) : engine.Sound := by
  constructor
  · exact rep.free
  · exact rep.lookup_reservation
  · intro slot reservation hlive
    exact rep.tracked.cell_of_handle (by simp [reservationHandle, hlive])
  · intro i key value hcell
    obtain ⟨slot, cell, hi, hvalue, hhandle⟩ := (rep.tracked.graph i key value).mp hcell
    obtain ⟨reservation, hlive, hpair⟩ := Option.map_eq_some_iff.mp hhandle
    cases hpair
    exact ⟨slot, reservation, hlive, rfl, hi, hvalue⟩
  · exact rep.lookup_account
  · intro i key value hcell
    obtain ⟨cells, tracked⟩ := rep.accountCells
    obtain ⟨slot, cell, _, hvalue, hhandle⟩ := (tracked.graph i key value).mp hcell
    obtain ⟨account, hat, hpair⟩ := Option.map_eq_some_iff.mp hhandle
    exact ⟨slot, account, hat, congrArg Prod.fst hpair, hvalue⟩
  · intro account hmem
    rw [reservedTotal_perm rep.records_perm]
    exact tallied.reserved account (rep.registered_mem hmem) .buy
  · intro account hmem
    rw [reservedTotal_perm rep.records_perm]
    exact tallied.reserved account (rep.registered_mem hmem) .sell
  · intro account hmem
    rw [openCount_perm rep.records_perm]
    exact tallied.count account (rep.registered_mem hmem)
  · intro reservation hmem
    rw [rep.maximumOrderId]
    exact rep.watermark _ (rep.records_perm.mem_iff.mp (List.mem_map_of_mem hmem))

end Representation

/-! ### Refused calls -/

section Refusals

variable {reason : RejectReason} {accountId : AccountId} {quantity : Quantity}

/-- Refusals change nothing. This is read off each operation: every check comes
before its first write. -/
theorem RiskEngine.setAccountKillSwitch_refused {killed : Bool}
    (h : engine.setAccountKillSwitch accountId killed = some (.error reason, engine')) : engine' = engine := by
  unfold RiskEngine.setAccountKillSwitch at h
  repeat' split at h
  all_goals cases h
  all_goals rfl

/-- A refused order leaves no trace, not even in the watermark. -/
theorem RiskEngine.checkAndReserve_refused {order : NewOrder}
    (h : engine.checkAndReserve order = some (.error reason, engine')) : engine' = engine := by
  unfold RiskEngine.checkAndReserve at h
  repeat' split at h
  all_goals cases h
  all_goals rfl

theorem RiskEngine.settleReservation_refused {reservation : Reservation} {filled : Quantity}
    (h : engine.settleReservation slot reservation filled = some (.error reason, engine')) : engine' = engine := by
  unfold RiskEngine.settleReservation at h
  repeat' split at h
  all_goals simp_all [Option.bind_eq_some_iff]

theorem RiskEngine.settle_refused {filled : Quantity}
    (h : engine.settle orderId filled = some (.error reason, engine')) :
    engine' = engine := by
  unfold RiskEngine.settle at h
  repeat' split at h
  · cases h
    rfl
  · cases h
    rfl
  · exact RiskEngine.settleReservation_refused h

/-- A refused fill leaves the engine as it was. -/
theorem RiskEngine.recordFill_refused {filled : Quantity}
    (h : engine.recordFill orderId filled = some (.error reason, engine')) : engine' = engine := by
  unfold RiskEngine.recordFill at h
  repeat' split at h
  all_goals simp_all [Option.bind_eq_some_iff]

/-- A refused amend leaves the engine as it was. -/
theorem RiskEngine.adjustReservation_refused {price : PriceTicks}
    (h : engine.adjustReservation orderId accountId price quantity = some (.error reason, engine')) :
    engine' = engine := by
  unfold RiskEngine.adjustReservation at h
  repeat' split at h
  all_goals cases h
  all_goals rfl

theorem RiskEngine.restoreReservation_refused
    (h : engine.restoreReservation orderId accountId quantity = some (.error reason, engine')) :
    engine' = engine := by
  unfold RiskEngine.restoreReservation at h
  repeat' split at h
  all_goals cases h
  all_goals rfl

theorem RiskEngine.cancelReservation_refused
    (h : engine.cancelReservation orderId accountId = some (.error reason, engine')) : engine' = engine := by
  unfold RiskEngine.cancelReservation at h
  split at h
  · cases h
    rfl
  split at h
  · cases h
    rfl
  split at h
  · cases h
  · rename_i hsettle
    cases h
    exact RiskEngine.settleReservation_refused hsettle
  · cases h

/-- A refused registration leaves the engine as it was. -/
theorem RiskEngine.registerAccount_refused {id : AccountId} {limits : RiskLimits} {error : RegistrationError}
    (h : engine.registerAccount id limits = (.error error, engine')) : engine' = engine := by
  unfold RiskEngine.registerAccount at h
  repeat' split at h
  all_goals cases h
  all_goals rfl

end Refusals

/-- Reads the reply of a call back as the result of its operation. -/
theorem replyWith_eq_some {α : Type} {success : α → RiskReply}
    {result : Option (Except RejectReason α × RiskEngine A R)} {reply : RiskReply} :
    replyWith success result = some (reply, engine') ↔
      ∃ outcome, result = some (outcome, engine') ∧ RiskReply.of success outcome = reply := by
  simp [replyWith, Option.map_eq_some_iff]

/-- A reply that is an error comes from a refusal, when success is never
reported as one. -/
theorem refused_of_isErr {α : Type} {success : α → RiskReply} (hsuccess : ∀ value, (success value).isErr = false)
    {result : Option (Except RejectReason α × RiskEngine A R)} {reply : RiskReply}
    (h : replyWith success result = some (reply, engine')) (herr : reply.isErr = true) :
    ∃ reason, result = some (.error reason, engine') := by
  obtain ⟨outcome, hresult, rfl⟩ := replyWith_eq_some.mp h
  cases outcome with
  | ok value =>
      rw [RiskReply.of, hsuccess] at herr
      cases herr
  | error reason => exact ⟨reason, hresult⟩

/-- A call that returns an error leaves the engine as it was. -/
theorem perform_refused {call : RiskCall} {reply : RiskReply} (h : engine.perform call = some (reply, engine'))
    (herr : reply.isErr = true) : engine' = engine := by
  cases call with
  | registerAccount id limits =>
      simp only [RiskEngine.perform] at h
      split at h
      · cases h
        cases herr
      · rename_i hregister
        cases h
        exact RiskEngine.registerAccount_refused hregister
  | setKillSwitch killed =>
      cases h
      cases herr
  | setAccountKillSwitch accountId killed =>
      obtain ⟨reason, hresult⟩ := refused_of_isErr (fun _ => rfl) h herr
      exact RiskEngine.setAccountKillSwitch_refused hresult
  | checkAndReserve order =>
      obtain ⟨reason, hresult⟩ := refused_of_isErr (fun _ => rfl) h herr
      exact RiskEngine.checkAndReserve_refused hresult
  | settle orderId filled =>
      obtain ⟨reason, hresult⟩ := refused_of_isErr (fun _ => rfl) h herr
      exact RiskEngine.settle_refused hresult
  | recordFill orderId filled =>
      obtain ⟨reason, hresult⟩ := refused_of_isErr (fun _ => rfl) h herr
      exact RiskEngine.recordFill_refused hresult
  | adjustReservation orderId accountId price newQuantity =>
      obtain ⟨reason, hresult⟩ := refused_of_isErr (fun _ => rfl) h herr
      exact RiskEngine.adjustReservation_refused hresult
  | restoreReservation orderId accountId priorQuantity =>
      obtain ⟨reason, hresult⟩ := refused_of_isErr (fun _ => rfl) h herr
      exact RiskEngine.restoreReservation_refused hresult
  | cancelReservation orderId accountId =>
      obtain ⟨reason, hresult⟩ := refused_of_isErr (fun _ => rfl) h herr
      exact RiskEngine.cancelReservation_refused hresult

/-! ### Runs -/

/-- The engine stores some tallied ledger. -/
def RiskEngine.Tallied (engine : RiskEngine A R) : Prop :=
  ∃ state, RiskRep engine state ∧ state.Tallied

/-- An empty engine has nothing to tally. -/
theorem tallied_new : (RiskEngine.new : RiskEngine A R).Tallied :=
  ⟨_, riskRep_new, List.nodup_nil, List.nodup_nil, by simp, by simp, by simp⟩

/-- A refined ledger step that keeps the tally answers, and the engine stays
tallied. -/
theorem tallied_of_refines {α : Type} {success : α → RiskReply} {ledger : Except RejectReason α × RiskEngineState}
    {result : Option (Except RejectReason α × RiskEngine A R)} (hrefines : RiskRefines result ledger)
    (htallied : ledger.2.Tallied) :
    ∃ reply engine', replyWith success result = some (reply, engine') ∧ engine'.Tallied := by
  obtain ⟨engine', rfl, rep'⟩ := hrefines
  exact ⟨_, engine', rfl, ledger.2, rep', htallied⟩

/-- A new account owns no reservation. -/
theorem tallied_register {accounts : List AccountState} (h : state.Tallied) (hunused : account.Unused)
    (hperm : (account :: state.accounts).Perm accounts)
    (hsorted : Ascending (fun account : AccountState => account.id.val) accounts) :
    ({ state with accounts := accounts } : RiskEngineState).Tallied := by
  have hids : (accounts.map AccountState.id).Nodup := hsorted.nodup_words
  have hfresh : account.id ∉ state.accounts.map AccountState.id :=
    (List.nodup_cons.mp ((hperm.map _).nodup_iff.mpr hids)).1
  have hforeign : ∀ side, reservedTotal side account.id state.reservations = 0 ∧
      openCount account.id state.reservations = 0 := by
    intro side
    apply totals_of_foreign
    intro reservation hreservation heq
    obtain ⟨owner, howner, hownerId⟩ := h.owners reservation hreservation
    exact hfresh (heq ▸ hownerId ▸ List.mem_map_of_mem howner)
  constructor
  · exact hids
  · exact h.orderIds
  · intro other hother side
    rcases List.mem_cons.mp (hperm.symm.subset hother) with rfl | hother
    · rw [hunused.reserved side]
      exact (hforeign side).1.symm
    · exact h.reserved other hother side
  · intro other hother
    rcases List.mem_cons.mp (hperm.symm.subset hother) with rfl | hother
    · rw [hunused.openOrders]
      exact (hforeign .buy).2.symm
    · exact h.count other hother
  · intro reservation hreservation
    obtain ⟨owner, howner, hownerId⟩ := h.owners reservation hreservation
    exact ⟨owner, hperm.subset (List.mem_cons_of_mem _ howner), hownerId⟩

/-- Every call on a tallied engine answers and leaves it tallied. -/
theorem perform_tallied (h : engine.Tallied) (call : RiskCall) :
    ∃ reply engine', engine.perform call = some (reply, engine') ∧ engine'.Tallied := by
  have hstart := h
  obtain ⟨state, rep, tallied⟩ := h
  cases call with
  | registerAccount id limits =>
      have hkept : (engine.registerAccount id limits).2.Tallied := by
        rcases registerAccount_spec rep id limits with hsame | ⟨account, accounts, hunused, hperm, rep'⟩
        · rw [hsame]
          exact hstart
        · exact ⟨_, rep', tallied_register tallied hunused hperm rep'.accountsSorted⟩
      simp only [RiskEngine.perform]
      split
      · rename_i hregister
        rw [hregister] at hkept
        exact ⟨_, _, rfl, hkept⟩
      · rename_i hregister
        rw [hregister] at hkept
        exact ⟨_, _, rfl, hkept⟩
  | setKillSwitch killed =>
      refine ⟨_, _, rfl, { state with killed := killed }, ?_, ?_⟩
      · exact { rep with killed := rfl }
      · exact ⟨tallied.accountIds, tallied.orderIds, tallied.reserved, tallied.count, tallied.owners⟩
  | setAccountKillSwitch accountId killed =>
      unfold RiskEngine.perform RiskEngine.setAccountKillSwitch
      rcases rep.findAccount_spec accountId with ⟨slot, account, hfind, hat, hid, hledger⟩ | ⟨hfind, _⟩
      · simp only [hfind]
        refine ⟨_, _, rfl, _, rep.setAccount_spec { account with killed := killed } hat rfl, ?_⟩
        have hstored : state.account account.id = some account := hid ▸ hledger
        apply tallied_of_update tallied { account with killed := killed } hstored
          (List.Perm.refl ([] ++ state.reservations)) (List.Perm.refl ([] ++ state.reservations)) tallied.orderIds
          (by simp) _ rfl
        intro side
        rfl
      · simp only [hfind]
        exact ⟨_, _, rfl, hstart⟩
  | checkAndReserve order =>
      exact tallied_of_refines (checkAndReserve_refines rep order)
        (tallied_checkAndReserve tallied R order rep.watermark)
  | settle orderId filled => exact tallied_of_refines (settle_refines rep orderId filled) (tallied_settle tallied _ _)
  | recordFill orderId filled =>
      exact tallied_of_refines (recordFill_refines rep orderId filled) (tallied_recordFill tallied _ _)
  | adjustReservation orderId accountId price newQuantity =>
      exact tallied_of_refines (adjustReservation_refines rep orderId accountId price newQuantity)
        (tallied_adjustReservation tallied _ _ _ _)
  | restoreReservation orderId accountId priorQuantity =>
      exact tallied_of_refines (restoreReservation_refines rep orderId accountId priorQuantity)
        (tallied_restoreReservation tallied _ _ _)
  | cancelReservation orderId accountId =>
      exact tallied_of_refines (cancelReservation_refines rep orderId accountId)
        (tallied_cancelReservation tallied _ _)

/-- Every sequence of calls on a new engine runs to its end, and the engine
stays tallied. -/
theorem run_tallied (calls : List RiskCall) :
    ∃ replies engine, run RiskEngine.perform (RiskEngine.new : RiskEngine A R) calls = some (replies, engine) ∧
      engine.Tallied :=
  run_total (fun h call => perform_tallied h call) calls tallied_new

/-- Whatever was called on a new engine with whatever arguments: every call
answered, the engine is sound, and the next call answers too and changes
nothing when it returns an error. -/
theorem risk_engine_sound (calls : List RiskCall) :
    ∃ replies engine, run RiskEngine.perform (RiskEngine.new : RiskEngine A R) calls = some (replies, engine) ∧
      engine.Sound ∧
      ∀ call, ∃ reply engine', engine.perform call = some (reply, engine') ∧
        (reply.isErr = true → engine' = engine) := by
  obtain ⟨replies, engine, hrun, tallied⟩ := run_tallied (A := A) (R := R) calls
  refine ⟨replies, engine, hrun, ?_, ?_⟩
  · obtain ⟨state, rep, hstate⟩ := tallied
    exact rep.sound hstate
  · intro call
    obtain ⟨reply, engine', hperform, _⟩ := perform_tallied tallied call
    exact ⟨reply, engine', hperform, perform_refused hperform⟩

end HftEngine
