/-
Module: HftEngine.Proofs.ReferenceLedger
Layer: Proofs
Purpose: The reference engine's accounts and reservations against the risk
  ledger. The reference engine that holds a ledger moves with it: reserving,
  releasing, booking fills, amending and undoing an amend each lead to the
  reference engine that holds the ledger afterwards.
Imports: HftEngine.Core.ReferenceEngine, HftEngine.Proofs.RiskBalance
Trusted boundary: none (fully proved)
Main exports: ModelLimits.of, ModelEngine.holding, evaluateLimits_of,
  reserve_holding, release_holding, recordFill_holding,
  adjustReservation_holding, restoreReservation_holding
-/
import HftEngine.Core.ReferenceEngine
import HftEngine.Proofs.RiskBalance

namespace HftEngine

open Machine

variable {engine : ModelEngine} {risk risk' : RiskEngineState} {account account' : AccountState}
  {reservation : ReservationRiskState} {orderId : OrderId} {side : Side} {quantity : Quantity}

/-! ### The same content -/

/-- The limits of the reference engine that stand for those of the risk
engine. -/
def ModelLimits.of (limits : RiskLimits) : ModelLimits where
  maxQuantity := limits.maxQuantity
  maxNotional := limits.maxNotional
  maxAbsPosition := i128OfU64 limits.maxAbsPosition
  maxOpenOrders := limits.maxOpenOrders
  minimumPrice := limits.minimumPrice
  maximumPrice := limits.maximumPrice

/-- An account as the reference engine keeps it. The position limit is a signed
word there and an unsigned one in the risk engine. -/
def ModelAccount.of (account : AccountState) : ModelAccount where
  limits := .of account.limits
  settledPosition := account.settledPosition
  reservedBuys := account.reservedBuys
  reservedSells := account.reservedSells
  openOrders := account.openOrders
  killed := account.killed

/-- A reservation as the reference engine keeps it; the id is the key of its
map. -/
def ModelReservation.of (reservation : ReservationRiskState) : ModelReservation :=
  ⟨reservation.accountId, reservation.side, reservation.quantity⟩

namespace ModelEngine

/-- The reference engine whose accounts and reservations are those of a
ledger. -/
def holding (engine : ModelEngine) (risk : RiskEngineState) : ModelEngine :=
  { engine with
    accounts := fun id => (risk.account id).map .of
    reservations := fun id => (risk.reservation id).map .of }

/-- A reference engine that holds a ledger finds its accounts. -/
@[simp] theorem holding_accounts (id : AccountId) : (engine.holding risk).accounts id = (risk.account id).map .of :=
  rfl

/-- A reference engine that holds a ledger finds its reservations. -/
@[simp] theorem holding_reservations (id : OrderId) :
    (engine.holding risk).reservations id = (risk.reservation id).map .of := rfl

/-- The two maps are written independently. -/
theorem setReservation_setAccount {key : OrderId} {id : AccountId} {found : Option ModelReservation}
    {account : ModelAccount} :
    (engine.setReservation key found).setAccount id account = (engine.setAccount id account).setReservation key found :=
  rfl

/-- The last write of a reservation counts. -/
theorem setReservation_setReservation {key : OrderId} {found found' : Option ModelReservation} :
    (engine.setReservation key found).setReservation key found' = engine.setReservation key found' := by
  unfold setReservation
  rw [Function.update_idem]

@[simp] theorem setReservation_accounts (id : OrderId) (found : Option ModelReservation) :
    (engine.setReservation id found).accounts = engine.accounts := rfl

end ModelEngine

/-! ### Looking up after an update -/

/-- Looking up after a resize: only the resized reservation answers
differently. -/
theorem reservation_of_resize (other : OrderId) :
    (risk.resize orderId quantity).reservation other = (risk.reservation other).map fun found =>
      if found.orderId = orderId then { found with quantity := quantity } else found := by
  unfold RiskEngineState.reservation RiskEngineState.resize
  rw [List.find?_map]
  congr 2
  funext found
  simp only [Function.comp_apply]
  split <;> rfl

/-- Looking up after a release: the released order is gone, every other one is
as it was. -/
theorem reservation_of_release (other : OrderId) :
    (risk.release orderId).reservation other = if other = orderId then none else risk.reservation other := by
  unfold RiskEngineState.reservation RiskEngineState.release
  rw [List.find?_filter]
  split
  · rename_i heq
    rw [List.find?_eq_none]
    intro found _
    simp [heq]
  · rename_i hne
    congr 1
    funext found
    by_cases hfound : found.orderId = other
    · simp [hfound, hne]
    · simp [hfound]

/-- Looking up after a reservation was added under a new id. -/
theorem reservation_of_reserve (hnew : risk.reservation reservation.orderId = none) (other : OrderId) :
    (risk.reserve reservation).reservation other
      = if other = reservation.orderId then some reservation else risk.reservation other := by
  unfold RiskEngineState.reservation RiskEngineState.reserve at *
  rw [List.find?_append]
  split
  · rename_i heq
    rw [heq, hnew]
    simp
  · rename_i hne
    simp [Ne.symm hne]

namespace ModelEngine

/-- Replacing an account on both sides. -/
theorem setAccount_holding {id : AccountId} (haccount : risk.account id = some account) (hid : account'.id = id) :
    (engine.holding risk).setAccount id (.of account') = engine.holding (risk.setAccount account') := by
  subst hid
  unfold setAccount holding
  congr 1
  funext id
  rw [Function.update_apply, account_setAccount]
  dsimp only
  split
  · rename_i heq
    rw [heq, haccount]
    simp [(account_eq_some haccount).2]
  · rename_i hne
    cases hfound : risk.account id with
    | none => rfl
    | some found =>
        have hother : found.id ≠ account'.id := (account_eq_some hfound).2 ▸ hne
        simp [hother]

/-- Writing the resized reservation into the map is resizing the ledger that
the engine holds. -/
theorem resize_holding (engine : ModelEngine) (risk : RiskEngineState)
    (hfind : risk.reservation orderId = some reservation) (quantity : Quantity) :
    (engine.holding risk).setReservation orderId (some (.of { reservation with quantity := quantity }))
      = engine.holding (risk.resize orderId quantity) := by
  unfold setReservation holding
  congr 1
  funext id
  rw [Function.update_apply, reservation_of_resize]
  dsimp only
  split
  · rename_i heq
    rw [heq, hfind]
    simp [(reservation_eq_some hfind).2]
  · rename_i hne
    cases hfound : risk.reservation id with
    | none => rfl
    | some found =>
        have hid : found.orderId ≠ orderId := (reservation_eq_some hfound).2 ▸ hne
        simp [hid]

/-- Taking a reservation out of the map is releasing it in the ledger. -/
theorem release_reservation_holding :
    (engine.holding risk).setReservation orderId none = engine.holding (risk.release orderId) := by
  unfold setReservation holding
  congr 1
  funext id
  rw [Function.update_apply, reservation_of_release]
  split <;> rfl

/-- Entering a reservation into the map is reserving it in the ledger. -/
theorem reserve_reservation_holding (hnew : risk.reservation reservation.orderId = none) :
    (engine.holding risk).setReservation reservation.orderId (some (.of reservation))
      = engine.holding (risk.reserve reservation) := by
  unfold setReservation holding
  congr 1
  funext id
  rw [Function.update_apply, reservation_of_reserve hnew]
  split <;> rfl

end ModelEngine

/-! ### Totals -/

@[simp] theorem ModelAccount.of_killed : (ModelAccount.of account).killed = account.killed := rfl

@[simp] theorem ModelAccount.of_maxQuantity :
    (ModelAccount.of account).limits.maxQuantity = account.limits.maxQuantity := rfl

@[simp] theorem ModelAccount.of_minimumPrice :
    (ModelAccount.of account).limits.minimumPrice = account.limits.minimumPrice := rfl

@[simp] theorem ModelAccount.of_maximumPrice :
    (ModelAccount.of account).limits.maximumPrice = account.limits.maximumPrice := rfl

@[simp] theorem ModelAccount.of_maxNotional :
    (ModelAccount.of account).limits.maxNotional = account.limits.maxNotional := rfl

/-- The position limit keeps its value in the wider signed word. -/
@[simp] theorem ModelAccount.of_maxAbsPosition :
    (ModelAccount.of account).limits.maxAbsPosition.val = account.limits.maxAbsPosition.val := rfl

@[simp] theorem ModelAccount.of_maxOpenOrders :
    (ModelAccount.of account).limits.maxOpenOrders = account.limits.maxOpenOrders := rfl

@[simp] theorem ModelAccount.of_settledPosition :
    (ModelAccount.of account).settledPosition = account.settledPosition := rfl

@[simp] theorem ModelAccount.of_reservedBuys : (ModelAccount.of account).reservedBuys = account.reservedBuys := rfl

@[simp] theorem ModelAccount.of_reservedSells : (ModelAccount.of account).reservedSells = account.reservedSells := rfl

@[simp] theorem ModelAccount.of_openOrders : (ModelAccount.of account).openOrders = account.openOrders := rfl

/-- The reserved total of one side, replaced in both engines alike. -/
theorem ModelAccount.setReserved_of (account : AccountState) (side : Side) {buys sells total : U128}
    (hside : reservedOn buys sells side = total)
    (hother : ∀ other, side ≠ other → reservedOn buys sells other = account.reserved other) :
    (ModelAccount.of account).setReserved side total
      = .of { account with reservedBuys := buys, reservedSells := sells } := by
  cases side with
  | buy =>
      have hsells := hother .sell (by decide)
      simp only [reservedOn, AccountState.reserved] at hside hsells
      simp [ModelAccount.of, ModelAccount.setReserved, hside, hsells]
  | sell =>
      have hbuys := hother .buy (by decide)
      simp only [reservedOn, AccountState.reserved] at hside hbuys
      simp [ModelAccount.of, ModelAccount.setReserved, hside, hbuys]

@[simp] theorem ModelAccount.of_reserved : (ModelAccount.of account).reserved side = account.reserved side := by
  cases side <;> rfl

/-- What leaves one side of an account's totals. -/
theorem subReserved_of {buys sells : U128} (h : ∀ other, (account.reserved other).val
      = (reservedOn buys sells other).val + if side = other then quantity.val else 0) :
    ∃ total, checkedSub (account.reserved side) (u128OfU64 quantity) = some total ∧
      reservedOn buys sells side = total ∧
      ∀ other, side ≠ other → reservedOn buys sells other = account.reserved other := by
  refine ⟨reservedOn buys sells side, ?_, rfl, ?_⟩
  · rw [checkedSub_eq_some, h side, if_pos rfl, u128OfU64_val]
  · intro other hne
    have hsame := h other
    rw [if_neg hne, Nat.add_zero] at hsame
    exact Fin.ext hsame.symm

/-- What enters one side of an account's totals. -/
theorem addReserved_of {buys sells : U128} (h : ∀ other, (reservedOn buys sells other).val
      = (account.reserved other).val + if side = other then quantity.val else 0) :
    ∃ total, checkedAdd (account.reserved side) (u128OfU64 quantity) = some total ∧
      reservedOn buys sells side = total ∧
      ∀ other, side ≠ other → reservedOn buys sells other = account.reserved other := by
  refine ⟨reservedOn buys sells side, ?_, rfl, ?_⟩
  · rw [checkedAdd_eq_some, h side, if_pos rfl, u128OfU64_val]
  · intro other hne
    have hsame := h other
    rw [if_neg hne, Nat.add_zero] at hsame
    exact Fin.ext hsame

/-! ### Releasing and filling -/

namespace ModelEngine

variable (engine) in
/-- A settlement without a fill is a release. -/
theorem release_holding (h : risk.settle orderId 0 = (.ok (), risk')) :
    (engine.holding risk).release orderId = some (engine.holding risk') := by
  unfold RiskEngineState.settle RiskEngineState.settleReservation at h
  cases hfind : risk.reservation orderId with
  | none =>
      rw [hfind] at h
      cases h
  | some reservation =>
      rw [hfind] at h
      simp only [Fin.val_zero, Nat.not_lt_zero, if_false] at h
      cases haccount : risk.account reservation.accountId with
      | none =>
          rw [haccount] at h
          cases h
      | some account =>
          rw [haccount] at h
          simp only at h
          split at h
          · cases h
          rename_i position buys sells hexposure
          split at h
          · cases h
          rename_i openOrders hopen
          cases h
          obtain ⟨hposition, htotals⟩ := exposureAfterFill_ok hexposure
          obtain rfl : position = account.settledPosition := Signed.ext (by simpa using hposition)
          obtain ⟨total, hsub, hside, hother⟩ := subReserved_of htotals
          obtain ⟨_, hid⟩ := account_eq_some haccount
          rw [(reservation_eq_some hfind).2]
          have hstored : (engine.holding risk).setAccount reservation.accountId (.of { account with
                reservedBuys := buys
                reservedSells := sells
                openOrders := openOrders }) = engine.holding (risk.setAccount _) :=
            setAccount_holding haccount hid
          rw [release]
          simp only [holding_reservations, hfind, Option.map_some, Option.bind_eq_bind, Option.bind_some,
            setReservation_accounts, holding_accounts, ModelReservation.of, haccount, ModelAccount.of_reserved, hsub]
          rw [show (ModelAccount.of account).openOrders = account.openOrders from rfl, hopen, Option.bind_some]
          refine congrArg some (Eq.trans ?_ release_reservation_holding)
          rw [setReservation_setAccount, ← hstored, ModelAccount.setReserved_of _ _ hside hother]
          rfl

/-- Booking a fill. -/
theorem recordFill_holding {filled : Quantity} (h : risk.recordFill orderId filled = (.ok (), risk')) :
    (engine.holding risk).recordFill orderId filled = some (engine.holding risk') := by
  unfold RiskEngineState.recordFill at h
  split at h
  · cases h
  rename_i hfilled
  cases hfind : risk.reservation orderId with
  | none =>
      rw [hfind] at h
      cases h
  | some reservation =>
      rw [hfind] at h
      simp only at h
      split at h
      · cases h
      rename_i left hleft
      cases haccount : risk.account reservation.accountId with
      | none =>
          rw [haccount] at h
          cases h
      | some account =>
          rw [haccount] at h
          simp only at h
          split at h
          · cases h
          rename_i position buys sells hexposure
          split at h
          · cases h
          rename_i openOrders hopen
          cases h
          obtain ⟨_, htotals⟩ := exposureAfterFill_ok hexposure
          obtain ⟨total, hsub, hside, hother⟩ := subReserved_of htotals
          obtain ⟨_, hid⟩ := account_eq_some haccount
          have hposition : (ModelAccount.of account).positionAfter reservation.side filled = some position := by
            simp only [exposureAfterFill, bind_eq_ok, orOverflow_eq_ok] at hexposure
            obtain ⟨position', hposition, ⟨buys', sells'⟩, _, hpure⟩ := hexposure
            cases hpure
            cases hreserved : reservation.side <;> rw [hreserved] at hposition <;> exact hposition
          have hstored : (engine.holding risk).setAccount reservation.accountId (.of { account with
                settledPosition := position
                reservedBuys := buys
                reservedSells := sells
                openOrders := openOrders }) = engine.holding (risk.setAccount _) :=
            setAccount_holding haccount hid
          rw [recordFill, if_neg hfilled]
          simp only [holding_reservations, hfind, Option.map_some, Option.bind_eq_bind, Option.bind_some]
          rw [show (ModelReservation.of reservation).remaining = reservation.quantity from rfl, hleft, Option.bind_some]
          simp only [setReservation_accounts, holding_accounts, ModelReservation.of, haccount, Option.map_some,
            Option.bind_some, hposition, ModelAccount.of_reserved, hsub, ModelAccount.setReserved_of _ _ hside hother]
          by_cases hclosed : left.val = 0
          · rw [if_pos hclosed, if_pos hclosed]
            rw [RiskEngine.openOrdersAfter, if_pos hclosed, orOverflow_eq_ok] at hopen
            rw [ModelAccount.of_openOrders, hopen, Option.bind_some]
            refine congrArg some (Eq.trans ?_ release_reservation_holding)
            rw [setReservation_setAccount, setReservation_setReservation, ← hstored]
            rfl
          · rw [if_neg hclosed, if_neg hclosed]
            rw [RiskEngine.openOrdersAfter, if_neg hclosed] at hopen
            cases hopen
            have hresize := resize_holding engine (risk.setAccount { account with
              settledPosition := position, reservedBuys := buys, reservedSells := sells }) hfind left
            refine congrArg some (Eq.trans ?_ hresize)
            rw [setReservation_setAccount, ← hstored]
            rfl

end ModelEngine

/-! ### Reserving -/

section Limits

/-- The reference engine computes a notional with code of its own, which is the
code of the risk engine. -/
theorem ModelAccount.notional_eq : ModelAccount.notional = notionalOf := rfl

/-! The value of a result may be dropped before or after the steps that lead to it. -/

/-- Mapping the result of a checked computation maps its last step. This and
the lemmas below push the projection to the reference account through the limit
checks. -/
theorem map_bind_except {ε α β γ : Type} (x : Except ε α) (f : α → Except ε β) (g : β → γ) :
    (x >>= f).map g = x >>= fun a => (f a).map g := by
  cases x <;> rfl

theorem map_ite_except {ε α β : Type} (c : Prop) [Decidable c] (x y : Except ε α) (g : α → β) :
    (if c then x else y).map g = if c then x.map g else y.map g := by
  split <;> rfl

theorem bind_ite_except {ε α β : Type} (c : Prop) [Decidable c] (x y : Except ε α) (f : α → Except ε β) :
    ((if c then x else y) >>= f) = if c then x >>= f else y >>= f := by
  split <;> rfl

theorem map_error_except {ε α β : Type} (error : ε) (g : α → β) :
    (.error error : Except ε α).map g = .error error := rfl

theorem map_ok_except {ε α β : Type} (value : α) (g : α → β) : (.ok value : Except ε α).map g = .ok (g value) := rfl

theorem bind_error {ε α β : Type} (error : ε) (f : α → Except ε β) :
    ((.error error : Except ε α) >>= f) = .error error :=
  rfl

theorem bind_ok {ε α β : Type} (value : α) (f : α → Except ε β) : ((.ok value : Except ε α) >>= f) = f value := rfl

variable (account) in
/-- Both engines hold an order to the same limits, in the same order of
checks. -/
theorem evaluateLimits_of (order : NewOrder) :
    (ModelAccount.of account).evaluateLimits order = (evaluateLimits account order).map fun _ => () := by
  unfold ModelAccount.evaluateLimits evaluateLimits addReserved checkPosition
  simp only [ModelAccount.of_killed, ModelAccount.of_maxQuantity, ModelAccount.of_minimumPrice,
    ModelAccount.of_maximumPrice, ModelAccount.of_maxNotional, ModelAccount.of_maxAbsPosition,
    ModelAccount.of_maxOpenOrders, ModelAccount.of_settledPosition, ModelAccount.of_reservedBuys,
    ModelAccount.of_reservedSells, ModelAccount.of_openOrders, ModelAccount.notional_eq]
  cases order.side <;>
    (simp only [map_bind_except, map_ite_except, bind_assoc, pure_bind, bind_ite_except, bind_error, bind_ok,
      map_error_except, map_ok_except]
     rfl)

end Limits

/-- A checked sum is the wrapping one. -/
theorem add_of_checkedAdd {n : Nat} [NeZero n] {a b c : Fin n} (h : checkedAdd a b = some c) : a + b = c := by
  rw [checkedAdd_eq_some] at h
  have hbound := c.isLt
  exact Fin.ext (by rw [Fin.val_add, Nat.mod_eq_of_lt (h ▸ hbound), h])

namespace ModelEngine

/-- Reserving the exposure of an order within its account's limits. -/
theorem reserve_holding {order : NewOrder} {buys sells : U128} {openOrders : U32}
    (haccount : risk.account order.accountId = some account) (hnew : risk.reservation order.orderId = none)
    (hlimits : evaluateLimits account order = .ok (buys, sells, openOrders)) :
    (engine.holding risk).reserve order (.of account)
      = engine.holding ((risk.setAccount { account with
          reservedBuys := buys, reservedSells := sells, openOrders := openOrders }).reserve
            ⟨order.orderId, order.accountId, order.side, order.quantity⟩) := by
  obtain ⟨_, hadd, _, hcount, _⟩ := evaluateLimits_ok hlimits
  rw [addReserved_ok_iff] at hadd
  obtain ⟨total, htotal, hside, hother⟩ := addReserved_of hadd
  have hopen : account.openOrders + 1 = openOrders := by
    refine add_of_checkedAdd ?_
    rw [checkedAdd_eq_some, hcount]
    rfl
  have hstored : (engine.holding risk).setAccount order.accountId (.of { account with
        reservedBuys := buys
        reservedSells := sells
        openOrders := openOrders }) = engine.holding (risk.setAccount _) :=
    setAccount_holding haccount (account_eq_some haccount).2
  rw [← reserve_reservation_holding (by exact hnew), ← hstored, reserve, ModelAccount.of_reserved,
    add_of_checkedAdd htotal, ModelAccount.setReserved_of _ _ hside hother]
  simp only [ModelAccount.of_openOrders, hopen, ModelReservation.of]
  rfl

end ModelEngine

/-! ### Amending -/

/-- In a balanced account no reserved total comes near the 128-bit limit. -/
theorem Balanced.reserved_lt {reservations : List ReservationRiskState} (h : Balanced account reservations)
    (side : Side) : (account.reserved side).val < 2 ^ 66 := by
  have hlong := h.exposed .buy
  have hshort := h.exposed .sell
  have hlimit := account.limits.maxAbsPosition.isLt
  simp only [Side.sign] at hlong hshort
  cases side <;> omega

/-- A total that fits a signed word does not saturate. -/
theorem saturated_eq {total : U128} {value : I128} (h : i128OfU128 total = some value) :
    ModelAccount.saturated total = value := by
  rw [ModelAccount.saturated, h]
  rfl

/-- An increase that the risk engine permits passes the checks of the reference
engine. -/
theorem checkIncrease_of {buys sells : U128} {price : PriceTicks} {notional : U128} {stored : ModelAccount}
    (hlimits : stored.limits = .of account.limits) (hposition : stored.settledPosition = account.settledPosition)
    (hbuys : stored.reservedBuys = buys) (hsells : stored.reservedSells = sells)
    (hnotional : notionalOf price quantity = .ok notional)
    (hwithin : ¬account.limits.maxNotional.val < notional.val) (hcheck : checkPosition account buys sells = .ok ()) :
    stored.checkIncrease price quantity = .ok () := by
  simp only [checkPosition, bind_eq_ok, orOverflow_eq_ok] at hcheck
  obtain ⟨long, hlong, worstLong, hworstLong, short, hshort, worstShort, hworstShort, hbound⟩ := hcheck
  simp only [ModelAccount.checkIncrease, bind_eq_ok, ModelAccount.notional_eq, hlimits, hposition, hbuys, hsells]
  refine ⟨notional, hnotional, ?_⟩
  rw [if_neg (by exact hwithin), saturated_eq hlong, saturated_eq hshort, hworstLong, hworstShort]
  simp only [orOverflow, bind_ok]
  split at hbound
  · cases hbound
  · rename_i hinside
    exact if_neg hinside

namespace ModelEngine

variable (engine) in
/-- Amending a reservation as the risk engine amends it. -/
theorem adjustReservation_holding {request : ReplaceOrder} {amounts : Quantity × Quantity}
    (h : risk.adjustReservation request.orderId request.accountId request.price request.quantity
      = (.ok amounts, risk')) :
    (engine.holding risk).adjustReservation request = some (.ok amounts, engine.holding risk') := by
  unfold RiskEngineState.adjustReservation at h
  cases hfind : risk.reservation request.orderId with
  | none =>
      rw [hfind] at h
      cases h
  | some reservation =>
      rw [hfind] at h
      simp only at h
      split at h
      · cases h
      rename_i howner
      rw [adjustReservation]
      simp only [holding_reservations, hfind, Option.map_some, ModelReservation.of]
      split at h
      · rename_i hsame
        cases h
        rw [if_pos hsame]
      rename_i hne
      rw [if_neg hne]
      simp only [ne_eq, not_not] at howner
      cases haccount : risk.account request.accountId with
      | none =>
          rw [haccount] at h
          cases h
      | some account =>
          rw [haccount] at h
          simp only at h
          split at h
          · cases h
          rename_i buys sells htotals
          cases h
          have hstored : (engine.holding risk).setAccount request.accountId (.of { account with
                reservedBuys := buys
                reservedSells := sells }) = engine.holding (risk.setAccount _) :=
            setAccount_holding haccount (account_eq_some haccount).2
          have hresize := resize_holding engine (risk.setAccount { account with
            reservedBuys := buys, reservedSells := sells }) hfind request.quantity
          simp only [ModelReservation.of, howner] at hresize
          rw [holding_accounts, howner, haccount]
          simp only [Option.map_some, Option.bind_eq_bind, Option.bind_some, ModelAccount.of_reserved, Option.pure_def]
          unfold RiskEngine.amendedTotals at htotals
          by_cases hgrows : reservation.quantity.val < request.quantity.val
          · rw [if_pos hgrows] at htotals ⊢
            simp only [bind_eq_ok] at htotals
            obtain ⟨⟨buys', sells'⟩, hadd, notional, hnotional, htotals⟩ := htotals
            split at htotals
            · cases htotals
            rename_i hwithin
            simp only [bind_eq_ok] at htotals
            obtain ⟨_, hcheck, hpure⟩ := htotals
            cases hpure
            rw [addReserved_ok_iff] at hadd
            obtain ⟨total, htotal, hside, hother⟩ := addReserved_of hadd
            have hallowed : (ModelAccount.of { account with reservedBuys := buys, reservedSells := sells }).checkIncrease
                request.price request.quantity = .ok () :=
              checkIncrease_of rfl rfl rfl rfl hnotional hwithin hcheck
            rw [htotal]
            simp only [ModelAccount.setReserved_of _ _ hside hother, hallowed, hstored, hresize]
          · rw [if_neg hgrows] at htotals ⊢
            rw [subReserved_ok_iff] at htotals
            obtain ⟨total, htotal, hside, hother⟩ := subReserved_of htotals
            rw [htotal]
            simp only [Option.bind_some, ModelAccount.setReserved_of _ _ hside hother, hstored, hresize]

/-- What restoring a prior total stores. -/
theorem restoreReservation_eq {stored : ModelReservation} (owner : ModelAccount) (quantity : Quantity)
    {total : I128} (restored : I128)
    (hfind : engine.reservations orderId = some stored) (howner : engine.accounts stored.accountId = some owner)
    (hne : quantity.val ≠ stored.remaining.val) (htotal : i128OfU128 (owner.reserved stored.side) = some total)
    (hrestored : signedOf (2 ^ 127) (total.val + ((quantity.val : Int) - stored.remaining.val)) = some restored) :
    engine.restoreReservation orderId quantity
      = some ((engine.setAccount stored.accountId (owner.setReserved stored.side (unsignedAbs restored))).setReservation
          orderId (some { stored with remaining := quantity })) := by
  have hdelta : (quantity.val : Int) - stored.remaining.val ≠ 0 := by omega
  have hcurrent : (engine.reservations orderId).elim quantity ModelReservation.remaining = stored.remaining := by
    rw [hfind]
    rfl
  unfold restoreReservation
  dsimp only
  rw [hcurrent, if_neg hdelta]
  refine Option.bind_eq_some_iff.mpr ⟨stored, hfind, Option.bind_eq_some_iff.mpr ⟨owner, howner, ?_⟩⟩
  exact Option.bind_eq_some_iff.mpr ⟨total, htotal, Option.bind_eq_some_iff.mpr ⟨restored, hrestored, rfl⟩⟩

variable (engine) in
/-- Taking an amendment back as the risk engine takes it back. -/
theorem restoreReservation_holding {accountId : AccountId} (h : risk.Consistent) (h' : risk'.Consistent)
    (hrestore : risk.restoreReservation orderId accountId quantity = (.ok (), risk')) :
    (engine.holding risk).restoreReservation orderId quantity = some (engine.holding risk') := by
  unfold RiskEngineState.restoreReservation at hrestore
  cases hfind : risk.reservation orderId with
  | none =>
      rw [hfind] at hrestore
      cases hrestore
  | some reservation =>
      rw [hfind] at hrestore
      simp only at hrestore
      have hheld : (engine.holding risk).reservations orderId = some (.of reservation) := by
        rw [holding_reservations, hfind]
        rfl
      split at hrestore
      · cases hrestore
      rename_i howner
      simp only [ne_eq, not_not] at howner
      split at hrestore
      · rename_i hsame
        cases hrestore
        rw [restoreReservation, hheld]
        exact if_pos (by rw [← hsame]; exact sub_self _)
      rename_i hne
      cases haccount : risk.account accountId with
      | none =>
          rw [haccount] at hrestore
          cases hrestore
      | some account =>
          rw [haccount] at hrestore
          simp only at hrestore
          split at hrestore
          · cases hrestore
          rename_i buys sells htotals
          cases hrestore
          have hclaims := restoredTotals_ok htotals
          have hid := (account_eq_some haccount).2
          have hafter : { account with reservedBuys := buys, reservedSells := sells }
              ∈ (risk.setAccount { account with reservedBuys := buys, reservedSells := sells }).accounts :=
            (mem_setAccount (hid ▸ haccount)).mpr (.inl rfl)
          have hbefore := (h.balanced account (account_eq_some haccount).1).reserved_lt reservation.side
          have hbound := (h'.balanced _ hafter).reserved_lt reservation.side
          simp only [AccountState.reserved] at hbound
          have hresult := hclaims reservation.side
          rw [if_pos rfl, if_pos rfl] at hresult
          obtain ⟨total, htotal, htotalVal⟩ := signedOf_isSome (2 ^ 127) (account.reserved reservation.side).val
            (by norm_num) (by norm_num; omega)
          obtain ⟨restored, hrestored, hrestoredVal⟩ := signedOf_isSome (2 ^ 127)
            (total.val + ((quantity.val : Int) - reservation.quantity.val)) (by norm_num; omega) (by norm_num; omega)
          have hword : unsignedAbs restored = reservedOn buys sells reservation.side :=
            Fin.ext (by rw [unsignedAbs_val]; omega)
          have hother : ∀ other, reservation.side ≠ other → reservedOn buys sells other = account.reserved other := by
            intro other hne
            have hsame := hclaims other
            rw [if_neg hne, if_neg hne] at hsame
            exact Fin.ext hsame
          have hstored : (engine.holding risk).setAccount reservation.accountId (.of { account with
                reservedBuys := buys
                reservedSells := sells }) = engine.holding (risk.setAccount _) :=
            setAccount_holding (howner ▸ haccount) (hid.trans howner.symm)
          have hresize := resize_holding engine (risk.setAccount { account with
            reservedBuys := buys, reservedSells := sells }) hfind quantity
          have hmodel := restoreReservation_eq (.of account) quantity restored hheld
            (by rw [ModelReservation.of, holding_accounts, howner, haccount]; rfl)
            (fun hsame => hne (Fin.ext hsame.symm)) (by rw [ModelAccount.of_reserved]; exact htotal) hrestored
          rw [hmodel, hword]
          have hset := ModelAccount.setReserved_of account reservation.side rfl hother
          refine congrArg some (Eq.trans ?_ hresize)
          rw [← hstored, ← hset]
          rfl

end ModelEngine

end HftEngine
