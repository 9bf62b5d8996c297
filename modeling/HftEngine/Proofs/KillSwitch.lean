/-
Module: HftEngine.Proofs.KillSwitch
Layer: Proofs
Purpose: What the kill switches stop. Along every run of the risk engine no
  reservation is added for a stopped account, but an amendment asks neither
  switch: it raises a resting order of a stopped account whenever the notional
  and position limits allow. That call is shown to be the only one, and exactly
  when it succeeds.
Imports: HftEngine.Proofs.RiskRuns
Trusted boundary: none (fully proved)
Main exports: RiskEngine.Stops, RiskEngine.HoldsStop, RiskEngine.RaisesStopped,
  exists_amendedTotals_iff, kill_switch_stops_growth, amend_grows_while_killed
-/
import HftEngine.Proofs.RiskRuns

namespace HftEngine

open Machine SlotArena Transition

variable {A R : Nat} {engine engine' : RiskEngine A R} {account : AccountState} {orderId : OrderId} {side : Side}
  {slot : Nat}

/-! ### Stopping -/

/-- The global switch or the account's own switch is set. -/
def RiskEngine.Stops (engine : RiskEngine A R) (account : AccountState) : Prop :=
  engine.killed = true ∨ account.killed = true

/-- The two calls through which exposure is admitted. -/
def RiskCall.admits : RiskCall → Bool
  | .checkAndReserve _ | .adjustReservation .. => true
  | _ => false

/-- Neither the reserved totals nor the number of open orders grew. -/
structure AccountState.NoGrowth (account account' : AccountState) : Prop where
  reserved : ∀ side, (account'.reserved side).val ≤ (account.reserved side).val
  openOrders : account'.openOrders.val ≤ account.openOrders.val

/-- A successful call leaves no stopped account with more exposure. -/
def RiskEngine.HoldsStop (engine : RiskEngine A R) (call : RiskCall) : Prop :=
  ∀ reply engine' slot account, engine.perform call = some (reply, engine') → reply.isErr = false →
    engine.accountAt slot = some account → engine.Stops account →
    ∃ account', engine'.accountAt slot = some account' ∧ account.NoGrowth account'

/-- The limits an amendment is held to: the notional of the new quantity, and
the worst-case positions with `added` more on one side. -/
structure AccountState.Affords (account : AccountState) (side : Side) (added : Nat) (price : PriceTicks)
    (quantity : Quantity) : Prop where
  representable : -(2 ^ 63 : Int) < price.val
  notional : |price.val| * quantity.val ≤ account.limits.maxNotional.val
  reserved : ∀ other, (account.reserved other).val + (if side = other then added else 0) < 2 ^ 127
  position : ∀ other : Side, other.sign * account.settledPosition.val + (account.reserved other).val
    + (if side = other then added else 0) ≤ account.limits.maxAbsPosition.val

/-- The call amends a live reservation of a stopped account to more than
remains of it, within the limits. -/
def RiskEngine.RaisesStopped (engine : RiskEngine A R) (call : RiskCall) : Prop :=
  ∃ orderId accountId price newQuantity slot reservation accountSlot account,
    call = .adjustReservation orderId accountId price newQuantity ∧
    engine.liveReservation orderId = some (slot, reservation) ∧ reservation.accountId = accountId ∧
    engine.findAccount accountId = some (.ok (accountSlot, account)) ∧ engine.Stops account ∧
    reservation.quantity.val < newQuantity.val ∧
    account.Affords reservation.side (newQuantity.val - reservation.quantity.val) price newQuantity

theorem AccountState.NoGrowth.refl (account : AccountState) : account.NoGrowth account :=
  ⟨fun _ => le_rfl, le_rfl⟩

theorem accountAt_of_findAccount {id : AccountId} (h : engine.findAccount id = some (.ok (slot, account))) :
    engine.accountAt slot = some account := by
  unfold RiskEngine.findAccount at h
  split at h
  · cases h
  · split at h
    · cases h
    · cases h
    · rename_i hstored
      cases h
      rw [RiskEngine.accountAt, hstored]
      rfl

section Arithmetic

variable {buys sells : U128} {current quantity : Quantity} {price : PriceTicks}

theorem exists_notionalOf_iff {bound : Nat} (hbound : bound < 2 ^ 128) :
    (∃ notional, notionalOf price quantity = .ok notional ∧ notional.val ≤ bound) ↔
      -(2 ^ 63 : Int) < price.val ∧ |price.val| * quantity.val ≤ bound := by
  have hlower := price.lower
  have hupper := price.upper
  constructor
  · rintro ⟨notional, hnotional, hle⟩
    have hvalue := notionalOf_ok hnotional
    simp only [notionalOf, bind_eq_ok, orOverflow_eq_ok, checkedAbs, signedOf_eq_some] at hnotional
    obtain ⟨absolute, habsolute, _⟩ := hnotional
    have habsoluteUpper := absolute.upper
    refine ⟨?_, by omega⟩
    by_contra hsmall
    have hneg := neg_abs_le price.val
    norm_num at *
    omega
  · rintro ⟨hrepresentable, hle⟩
    have hnonneg := abs_nonneg price.val
    have habs : |price.val| < ((2 ^ 63 : Nat) : Int) := by
      rw [abs_lt]
      norm_num at *
      omega
    have hword : |price.val|.toNat < 2 ^ 64 := by
      norm_num at habs ⊢
      omega
    have hproduct : ((|price.val|.toNat * quantity.val : Nat) : Int) = |price.val| * quantity.val := by
      rw [Nat.cast_mul, Int.toNat_of_nonneg hnonneg]
    have hfits : |price.val|.toNat * quantity.val < 2 ^ 128 := by omega
    refine ⟨⟨|price.val|.toNat * quantity.val, hfits⟩, ?_, ?_⟩
    · simp only [notionalOf, bind_eq_ok, orOverflow_eq_ok, checkedAbs, signedOf_eq_some, unsignedOf_eq_some,
        checkedMul_eq_some, u128OfU64_val]
      refine ⟨⟨|price.val|, by omega, habs⟩, rfl, ⟨|price.val|.toNat, hword⟩, ?_, rfl⟩
      exact (Int.toNat_of_nonneg hnonneg).symm
    · show |price.val|.toNat * quantity.val ≤ bound
      omega

theorem checkPosition_ok_iff : checkPosition account buys sells = .ok () ↔
    ∀ other : Side, (reservedOn buys sells other).val < 2 ^ 127 ∧
      other.sign * account.settledPosition.val + (reservedOn buys sells other).val
        ≤ account.limits.maxAbsPosition.val := by
  have hlower := account.settledPosition.lower
  have hupper := account.settledPosition.upper
  have hmax := account.limits.maxAbsPosition.isLt
  constructor
  · intro h other
    refine ⟨?_, checkPosition_ok h other⟩
    simp only [checkPosition, bind_eq_ok, orOverflow_eq_ok, i128OfU128, signedOf_eq_some] at h
    obtain ⟨long, hlong, _, _, short, hshort, _⟩ := h
    have hlongUpper := long.upper
    have hshortUpper := short.upper
    cases other <;> simp only [reservedOn] <;> norm_num at * <;> omega
  · intro h
    obtain ⟨hbuys, hlong⟩ := h .buy
    obtain ⟨hsells, hshort⟩ := h .sell
    simp only [reservedOn, Side.sign, one_mul, neg_one_mul] at hbuys hlong hsells hshort
    have hranges : -((2 ^ 127 : Nat) : Int) ≤ buys.val ∧ (buys.val : Int) < ((2 ^ 127 : Nat) : Int) ∧
        -((2 ^ 127 : Nat) : Int) ≤ account.settledPosition.val + buys.val ∧
        account.settledPosition.val + buys.val < ((2 ^ 127 : Nat) : Int) ∧
        -((2 ^ 127 : Nat) : Int) ≤ sells.val ∧ (sells.val : Int) < ((2 ^ 127 : Nat) : Int) ∧
        -((2 ^ 127 : Nat) : Int) ≤ account.settledPosition.val - sells.val ∧
        account.settledPosition.val - sells.val < ((2 ^ 127 : Nat) : Int) := by
      norm_num at hlower hupper hmax hbuys hsells ⊢
      omega
    obtain ⟨hbuysLow, hbuysHigh, hlongLow, hlongHigh, hsellsLow, hsellsHigh, hshortLow, hshortHigh⟩ := hranges
    simp only [checkPosition, bind_eq_ok, orOverflow_eq_ok, i128OfU128, checkedAddSigned, checkedSubSigned,
      signedOf_eq_some]
    refine ⟨⟨buys.val, hbuysLow, hbuysHigh⟩, rfl, ⟨account.settledPosition.val + buys.val, hlongLow, hlongHigh⟩, rfl,
      ⟨sells.val, hsellsLow, hsellsHigh⟩, rfl, ⟨account.settledPosition.val - sells.val, hshortLow, hshortHigh⟩, rfl, ?_⟩
    apply if_neg
    simp only [not_or, not_lt]
    omega

/-- An amendment to more than remains is accepted exactly when the account
affords it. -/
theorem exists_amendedTotals_iff (hgrows : current.val < quantity.val) :
    (∃ totals, RiskEngine.amendedTotals account side current price quantity = .ok totals) ↔
      account.Affords side (quantity.val - current.val) price quantity := by
  unfold RiskEngine.amendedTotals
  rw [if_pos hgrows]
  constructor
  · rintro ⟨totals, htotals⟩
    simp only [bind_eq_ok] at htotals
    obtain ⟨⟨buys, sells⟩, hadd, notional, hnotional, htotals⟩ := htotals
    split at htotals
    · cases htotals
    rename_i hlimit
    simp only [bind_eq_ok] at htotals
    obtain ⟨_, hposition, _⟩ := htotals
    rw [addReserved_ok_iff] at hadd
    rw [checkPosition_ok_iff] at hposition
    obtain ⟨hrepresentable, hvalue⟩ := (exists_notionalOf_iff account.limits.maxNotional.isLt).mp
      ⟨notional, hnotional, not_lt.mp hlimit⟩
    refine ⟨hrepresentable, hvalue, fun other => ?_, fun other => ?_⟩
    · have hother := hadd other
      rw [satSub_val] at hother
      exact hother ▸ (hposition other).1
    · have hother := hadd other
      have hwithin := (hposition other).2
      rw [satSub_val] at hother
      omega
  · intro affords
    obtain ⟨notional, hnotional, hlimit⟩ := (exists_notionalOf_iff account.limits.maxNotional.isLt).mpr
      ⟨affords.representable, affords.notional⟩
    have hbuys := affords.reserved .buy
    have hsells := affords.reserved .sell
    let totals : Side → U128 := fun other =>
      ⟨(account.reserved other).val + if side = other then quantity.val - current.val else 0,
        lt_trans (affords.reserved other) (by norm_num)⟩
    have hon : ∀ other, reservedOn (totals .buy) (totals .sell) other = totals other := by
      intro other
      cases other <;> rfl
    refine ⟨(totals .buy, totals .sell), ?_⟩
    simp only [bind_eq_ok]
    refine ⟨(totals .buy, totals .sell), addReserved_ok_iff.mpr fun other => ?_, notional, hnotional, ?_⟩
    · rw [hon, satSub_val]
    rw [if_neg (by omega)]
    simp only [bind_eq_ok]
    refine ⟨(), checkPosition_ok_iff.mpr fun other => ?_, rfl⟩
    rw [hon]
    refine ⟨affords.reserved other, ?_⟩
    have hposition := affords.position other
    simp only [totals]
    omega

end Arithmetic

/-- What a successful reservation found, and the accounts it leaves. -/
theorem checkAndReserve_ok {order : NewOrder} (h : engine.checkAndReserve order = some (.ok (), engine')) :
    engine.killed = false ∧ ∃ found account account', engine.findAccount order.accountId = some (.ok (found, account)) ∧
      account.killed = false ∧ engine'.accountAt = (engine.setAccount found account').accountAt := by
  unfold RiskEngine.checkAndReserve at h
  split at h
  · cases h
  rename_i hkilled
  refine ⟨by simpa using hkilled, ?_⟩
  split at h
  · cases h
  split at h
  · cases h
  split at h
  · cases h
  split at h
  · cases h
  · cases h
  rename_i found account hfind
  split at h
  · cases h
  rename_i hlimits
  repeat' split at h
  all_goals cases h
  refine ⟨found, account, _, hfind, ?_, rfl⟩
  by_contra hstopped
  rw [evaluateLimits, if_pos (by simpa using hstopped)] at hlimits
  cases hlimits

/-- What a successful amendment found, and the accounts it leaves. -/
theorem adjustReservation_ok {accountId : AccountId} {price : PriceTicks} {quantity : Quantity}
    {value : Quantity × Quantity}
    (h : engine.adjustReservation orderId accountId price quantity = some (.ok value, engine')) :
    ∃ slot reservation, engine.liveReservation orderId = some (slot, reservation) ∧
      reservation.accountId = accountId ∧
      (engine' = engine ∨ ∃ found account buys sells, engine.findAccount accountId = some (.ok (found, account)) ∧
        RiskEngine.amendedTotals account reservation.side reservation.quantity price quantity = .ok (buys, sells) ∧
        engine'.accountAt = (engine.setAccount found
          { account with reservedBuys := buys, reservedSells := sells }).accountAt) := by
  unfold RiskEngine.adjustReservation at h
  split at h
  · cases h
  rename_i slot reservation hlive
  split at h
  · cases h
  rename_i howner
  refine ⟨slot, reservation, hlive, not_not.mp howner, ?_⟩
  split at h
  · cases h
    exact .inl rfl
  split at h
  · cases h
  · cases h
  rename_i found account hfind
  split at h
  · cases h
  · rename_i buys sells htotals
    cases h
    exact .inr ⟨found, account, buys, sells, hfind, htotals, rfl⟩

/-- An account in another slot than the one written is unchanged. -/
theorem noGrowth_of_other {found : Nat} {account' : AccountState} (hat : engine.accountAt slot = some account)
    (hother : slot ≠ found) :
    ∃ after, (engine.setAccount found account').accountAt slot = some after ∧ account.NoGrowth after := by
  refine ⟨account, ?_, .refl account⟩
  rw [accountAt_setAccount]
  split
  · rw [Function.update_of_ne hother]
    exact hat
  · exact hat

/-- The call that reserves holds the stop. -/
theorem holdsStop_checkAndReserve (order : NewOrder) : engine.HoldsStop (.checkAndReserve order) := by
  intro reply engine' slot account hperform hok hat hstops
  obtain ⟨outcome, hresult, rfl⟩ := replyWith_eq_some.mp hperform
  cases outcome with
  | error reason => cases hok
  | ok value =>
      obtain ⟨hlive, found, stored, account', hfind, htrading, hafter⟩ := checkAndReserve_ok hresult
      rw [hafter]
      apply noGrowth_of_other hat
      -- the account written is not stopped
      rintro rfl
      rw [accountAt_of_findAccount hfind] at hat
      cases hat
      rcases hstops with hstops | hstops
      · rw [hlive] at hstops
        cases hstops
      · rw [htrading] at hstops
        cases hstops

/-- The call that amends holds the stop when it does not raise a reservation of
a stopped account. -/
theorem holdsStop_adjustReservation {accountId : AccountId} {price : PriceTicks} {quantity : Quantity}
    (h : ¬engine.RaisesStopped (.adjustReservation orderId accountId price quantity)) :
    engine.HoldsStop (.adjustReservation orderId accountId price quantity) := by
  intro reply engine' slot account hperform hok hat hstops
  obtain ⟨outcome, hresult, rfl⟩ := replyWith_eq_some.mp hperform
  cases outcome with
  | error reason => cases hok
  | ok value =>
      obtain ⟨position, reservation, hlive, howner, rfl | ⟨found, stored, buys, sells, hfind, htotals, hafter⟩⟩ :=
        adjustReservation_ok hresult
      · exact ⟨account, hat, .refl account⟩
      rw [hafter]
      by_cases hother : slot = found
      · subst hother
        have hstored := accountAt_of_findAccount hfind
        rw [hstored] at hat
        cases hat
        have hshrinks : ¬reservation.quantity.val < quantity.val := by
          intro hgrows
          have haffords := (exists_amendedTotals_iff hgrows).mp ⟨_, htotals⟩
          exact h ⟨orderId, accountId, price, quantity, position, reservation, slot, account, rfl, hlive, howner, hfind,
            hstops, hgrows, haffords⟩
        refine ⟨{ account with reservedBuys := buys, reservedSells := sells }, ?_, fun side => ?_, le_rfl⟩
        · rw [accountAt_setAccount, if_pos (accountAt_lt hstored), Function.update_self]
        · rw [RiskEngine.amendedTotals, if_neg hshrinks, subReserved_ok_iff] at htotals
          have hside := htotals side
          simp only [AccountState.reserved] at hside ⊢
          omega
      · exact noGrowth_of_other hat hother

/-- Raising a reservation of a stopped account succeeds and adds to its
reserved total. -/
theorem not_holdsStop_of_raises {call : RiskCall} (h : engine.RaisesStopped call) : ¬engine.HoldsStop call := by
  obtain ⟨orderId, accountId, price, quantity, position, reservation, slot, account, rfl, hlive, howner, hfind, hstops,
    hgrows, haffords⟩ := h
  obtain ⟨⟨buys, sells⟩, htotals⟩ := (exists_amendedTotals_iff hgrows).mpr haffords
  have hat := accountAt_of_findAccount hfind
  have hne : quantity ≠ reservation.quantity := by
    rintro rfl
    omega
  have hadjust : engine.adjustReservation orderId accountId price quantity
      = some (.ok (satSub reservation.quantity quantity, reservation.quantity),
          (engine.setAccount slot { account with reservedBuys := buys, reservedSells := sells }).setReservation position
            { reservation with quantity := quantity }) := by
    simp only [RiskEngine.adjustReservation, hlive, howner, ne_eq, not_true_eq_false, if_false, hne, hfind, htotals]
  intro hholds
  obtain ⟨account', hafter, hgrowth⟩ := hholds _ _ slot account (replyWith_eq_some.mpr ⟨_, hadjust, rfl⟩) rfl hat hstops
  change (engine.setAccount slot _).accountAt slot = _ at hafter
  rw [accountAt_setAccount, if_pos (accountAt_lt hat), Function.update_self] at hafter
  cases hafter
  have hbound := hgrowth.reserved reservation.side
  have hadded := restoredTotals_ok (restoredTotals_of_amended htotals) reservation.side
  simp only [AccountState.reserved, if_true] at hbound hadded
  omega

/-- A call on an engine that a run from a new engine makes on its way. -/
def CallsOn (calls : List RiskCall) (engine : RiskEngine A R) (call : RiskCall) : Prop :=
  ∃ before after replies, calls = before ++ call :: after ∧
    run RiskEngine.perform (RiskEngine.new : RiskEngine A R) before = some (replies, engine)

/-- The kill switches stop the growth of exposure at every call of a run that
admits exposure exactly when no call of the run raises a reservation of a
stopped account. -/
theorem kill_switch_stops_growth (calls : List RiskCall) :
    (∀ (engine : RiskEngine A R) call, CallsOn calls engine call → call.admits = true → engine.HoldsStop call) ↔
      ∀ (engine : RiskEngine A R) call, CallsOn calls engine call → ¬engine.RaisesStopped call := by
  constructor
  · intro h engine call hcall hraises
    have hadmits : call.admits = true := by
      obtain ⟨_, _, _, _, _, _, _, _, rfl, _⟩ := hraises
      rfl
    exact not_holdsStop_of_raises hraises (h engine call hcall hadmits)
  · intro h engine call hcall hadmits
    cases call with
    | checkAndReserve order => exact holdsStop_checkAndReserve order
    | adjustReservation orderId accountId price quantity => exact holdsStop_adjustReservation (h engine _ hcall)
    | registerAccount _ _ => cases hadmits
    | setKillSwitch _ => cases hadmits
    | setAccountKillSwitch _ _ => cases hadmits
    | settle _ _ => cases hadmits
    | recordFill _ _ => cases hadmits
    | restoreReservation _ _ _ => cases hadmits
    | cancelReservation _ _ => cases hadmits

/-- An account reserves 5 to buy at 10, and then the engine is stopped. -/
def stoppedAfterReserving : List RiskCall :=
  [.registerAccount 1 ⟨10, 1000, 1000, 10, i64 5, i64 20⟩,
    .checkAndReserve ⟨1, 1, 7, i64 10, 5, 1, .buy, .gtc⟩, .setKillSwitch true]

/-- Amending the order to 8 is accepted while the engine is stopped, and the
account's reserved buys grow. -/
theorem amend_grows_while_killed : ∃ replies engine,
    run RiskEngine.perform (RiskEngine.new : RiskEngine 1 1) stoppedAfterReserving = some (replies, engine) ∧
    engine.killed = true ∧ ¬engine.HoldsStop (.adjustReservation 1 1 (i64 10) 8) := by
  obtain ⟨⟨replies, engine⟩, hrun, hkilled, hgrows⟩ := exists_of_any
    (run RiskEngine.perform (RiskEngine.new : RiskEngine 1 1) stoppedAfterReserving)
    (fun result => result.2.killed = true ∧
      (result.2.perform (.adjustReservation 1 1 (i64 10) 8)).map (fun after =>
        (after.1.isErr, (result.2.accountAt 0).map fun account => account.reservedBuys,
          (after.2.accountAt 0).map fun account => account.reservedBuys)) = some (false, some 5, some 8))
    (by decide +kernel)
  refine ⟨replies, engine, hrun, hkilled, fun hholds => ?_⟩
  obtain ⟨⟨reply, engine'⟩, hperform, hvalues⟩ := Option.map_eq_some_iff.mp hgrows
  simp only [Prod.mk.injEq, Option.map_eq_some_iff] at hvalues
  obtain ⟨hok, ⟨account, hat, hbefore⟩, account', hat', hafter⟩ := hvalues
  obtain ⟨found, hfound, hgrowth⟩ := hholds reply engine' 0 account hperform hok hat (.inl hkilled)
  rw [hat'] at hfound
  cases hfound
  have hbuys := hgrowth.reserved .buy
  simp only [AccountState.reserved, reservedOn, hbefore, hafter] at hbuys
  revert hbuys
  decide

end HftEngine
