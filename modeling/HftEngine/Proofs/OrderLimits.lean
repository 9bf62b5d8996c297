/-
Module: HftEngine.Proofs.OrderLimits
Layer: Proofs
Purpose: The per-order limits of an account and the orders it has resting. New
  orders are held to them; an amend is not held to the size limit or the
  collar, and to the notional limit only when it grows. The resting orders are
  within limits as long as amends are.
Imports: HftEngine.Proofs.GatewayInvariant
Trusted boundary: none (fully proved)
Main exports: WithinLimits, AmendsWithin, resting_orders_within_limits,
  amend_leaves_limits
-/
import HftEngine.Proofs.GatewayInvariant

namespace HftEngine

open Machine Transition

variable {A R L O N : Nat} {gateway gateway' : Gateway A R L O} {logical logical' : LogicalGateway}
  {command : Option Command} {answer : GatewayAnswer} {call : GatewayCall} {entries : List BookEntry}

/-- Every resting order is within the limits of the account that owns it. -/
def WithinLimits (gateway : Gateway A R L O) : Prop :=
  ∀ order ∈ gateway.book.exportState.orders, ∃ account ∈ gateway.risk.registeredAccounts,
    account.id = order.accountId ∧ account.limits.Admits order.price order.quantity

/-- An amend in sequence, with a positive price and quantity, of an order its
account owns keeps to the account's limits. An amend out of sequence, or at the
last sequence, is refused before the risk engine sees it. -/
def AmendsWithin (gateway : Gateway A R L O) (call : GatewayCall) : Prop :=
  ∀ request, call.command? = some (.replaceOrder request) →
    request.sequence = gateway.expectedSequence → request.sequence.val + 1 < 2 ^ 64 →
    gateway.risk.canCancel request.orderId request.accountId = .ok () → 0 < request.price.val →
    0 < request.quantity.val → ∀ account ∈ gateway.risk.registeredAccounts, account.id = request.accountId →
      account.limits.Admits request.price request.quantity

instance (limits : RiskLimits) (price : PriceTicks) (quantity : Quantity) :
    Decidable (limits.Admits price quantity) :=
  decidable_of_iff (quantity.val ≤ limits.maxQuantity.val ∧ limits.minimumPrice.val ≤ price.val ∧
      price.val ≤ limits.maximumPrice.val ∧ price.val * quantity.val ≤ limits.maxNotional.val)
    ⟨fun h => ⟨h.1, h.2.1, h.2.2.1, h.2.2.2⟩, fun h => ⟨h.size, h.low, h.high, h.notional⟩⟩

instance : Decidable (WithinLimits gateway) :=
  inferInstanceAs (Decidable (∀ order ∈ gateway.book.exportState.orders, ∃ account ∈ gateway.risk.registeredAccounts,
    account.id = order.accountId ∧ account.limits.Admits order.price order.quantity))

/-! ### Limits along a move -/

/-- A part of an admitted order at a positive price is admitted. -/
theorem RiskLimits.Admits.part {limits : RiskLimits} {price : PriceTicks} {quantity part : Quantity}
    (h : limits.Admits price quantity) (hprice : 0 < price.val) (hle : part.val ≤ quantity.val) :
    limits.Admits price part := by
  refine ⟨hle.trans h.size, h.low, h.high, le_trans ?_ h.notional⟩
  apply mul_le_mul_of_nonneg_left _ hprice.le
  exact_mod_cast hle

/-- The limits of an account depend on its terms only. -/
theorem limits_of_terms {risk risk' : RiskEngineState} {id : AccountId} {account : AccountState}
    (hterms : risk'.terms = risk.terms) (haccount : risk.account id = some account) :
    ∃ account', risk'.account id = some account' ∧ account'.limits = account.limits := by
  have hfind : ∀ state : RiskEngineState,
      state.terms.find? (fun terms => decide (terms.1 = id)) = (state.account id).map AccountState.terms := by
    intro state
    unfold RiskEngineState.terms RiskEngineState.account
    rw [List.find?_map]
    rfl
  have hsame : (risk'.account id).map AccountState.terms = some account.terms := by
    rw [← hfind, hterms, hfind, haccount]
    rfl
  obtain ⟨account', haccount', heq⟩ := Option.map_eq_some_iff.mp hsame
  exact ⟨account', haccount', congrArg (fun terms => terms.2.1) heq⟩

/-- What a list of fills leaves of an entry is part of it. -/
theorem fillEntries_part {fills : List ModelFill} {entry' : BookEntry} (h : entry' ∈ fillEntries fills entries) :
    ∃ entry ∈ entries, entry'.2.1 = entry.2.1 ∧ entry'.2.2.account = entry.2.2.account ∧
      entry'.2.2.quantity.val ≤ entry.2.2.quantity.val := by
  induction fills generalizing entries with
  | nil => exact ⟨entry', h, rfl, rfl, le_rfl⟩
  | cons fill fills ih =>
      obtain ⟨middle, hmiddle, hprice, haccount, hle⟩ := ih h
      obtain ⟨entry, hentry, hfill⟩ := List.mem_filterMap.mp hmiddle
      obtain ⟨_, hprice', _, haccount', _⟩ := fillEntry_kept hfill
      refine ⟨entry, hentry, hprice.trans hprice', haccount.trans haccount', hle.trans ?_⟩
      unfold fillEntry at hfill
      split at hfill
      · split at hfill
        · cases hfill
        · cases hfill
          simp
      · cases hfill
        exact le_rfl

/-- The content of a gateway whose resting orders are within limits. -/
def LogicalGateway.WithinLimits (logical : LogicalGateway) : Prop :=
  ∀ entry ∈ logical.book.orders, ∃ account, logical.risk.account entry.2.2.account = some account ∧
    account.limits.Admits entry.2.1 entry.2.2.quantity

/-- The check of a gateway is that of the logical state it represents. -/
theorem withinLimits_iff (rep : GatewayRep gateway logical) (sound : logical.Sound) :
    HftEngine.WithinLimits gateway ↔ logical.WithinLimits := by
  unfold HftEngine.WithinLimits LogicalGateway.WithinLimits
  rw [orders_exportState rep.book, List.forall_mem_map]
  refine forall₂_congr fun entry _ => exists_congr fun account => ?_
  rw [mem_registeredAccounts rep.risk, ← and_assoc, ← sound.risk.account_iff]
  rfl

/-- Entries of known accounts stay within limits when the terms of the accounts
stay. -/
theorem admitted_of_terms {risk risk' : RiskEngineState} {id : AccountId} {price : PriceTicks} {quantity : Quantity}
    (hterms : risk'.terms = risk.terms)
    (h : ∃ account, risk.account id = some account ∧ account.limits.Admits price quantity) :
    ∃ account, risk'.account id = some account ∧ account.limits.Admits price quantity := by
  obtain ⟨account, haccount, hadmits⟩ := h
  obtain ⟨account', haccount', hlimits⟩ := limits_of_terms hterms haccount
  exact ⟨account', haccount', hlimits ▸ hadmits⟩

/-- A move keeps the resting orders within limits unless it is an amend that
leaves them. -/
theorem LogicalGateway.WithinLimits.moves (within : logical.WithinLimits) (sound : logical.Sound)
    (h : Moves N logical command answer logical')
    (hamend : ∀ request entry, command = some (.replaceOrder request) →
      request.sequence = logical.expectedSequence → request.sequence.val + 1 < 2 ^ 64 → 0 < request.price.val →
      0 < request.quantity.val → logical.book.find request.orderId = some entry →
      entry.2.2.account = request.accountId → ∀ account, logical.risk.account request.accountId = some account →
      account.limits.Admits request.price request.quantity) :
    logical'.WithinLimits := by
  cases h with
  | malformed => exact within
  | unsequenced => exact within
  | exhausted => exact within
  | refused => exact within
  | accepted _ _ haccepted =>
      rename_i order account summary fills resting discarded _ _
      have hsubmitted := haccepted.submitted
      intro entry hentry
      apply admitted_of_terms haccepted.booked.terms
      rw [hsubmitted.orders.mem_iff, List.mem_append] at hentry
      rcases hentry with hrest | hfilled
      · unfold restEntries at hrest
        split at hrest
        · cases hrest
        · rw [List.mem_singleton.mp hrest]
          refine ⟨account, haccepted.account_eq, haccepted.admits.part hsubmitted.price ?_⟩
          have hsplit := hsubmitted.split
          simp only [LogicalBook.remainder]
          omega
      · obtain ⟨old, hold, hprice, haccount, hle⟩ := fillEntries_part hfilled
        obtain ⟨account, hfound, hadmits⟩ := within old hold
        rw [hprice, haccount]
        exact ⟨account, hfound, hadmits.part (sound.book.prices old hold) hle⟩
  | cancelled _ _ hcancelled =>
      intro entry hentry
      rw [hcancelled.orders] at hentry
      exact admitted_of_terms hcancelled.rearranged.booked.terms (within entry (List.mem_filter.mp hentry).1)
  | replaced hsequence hnext hreplaced =>
      rename_i request result side price old sequence
      have hlast : request.sequence.val + 1 < 2 ^ 64 := by
        rw [hsequence, ← hnext]
        exact logical'.expectedSequence.isLt
      have hamended := hreplaced.amended
      intro entry hentry
      apply admitted_of_terms hreplaced.rearranged.booked.terms
      rw [hamended.orders.mem_iff] at hentry
      rcases List.mem_cons.mp hentry with rfl | hkept
      · obtain ⟨account, haccount, _⟩ := within _ (mem_of_find hamended.found).1
        simp only [hamended.owner] at haccount
        exact ⟨account, haccount, hamend request _ rfl hsequence hlast hamended.price_pos (Nat.pos_of_ne_zero hamended.quantity)
          hamended.found hamended.owner account haccount⟩
      · exact within entry (List.mem_filter.mp hkept).1

/-! ### Runs -/

/-- Every call whose amend stays within the limits keeps the resting orders
within them. -/
theorem call_within (h : ∃ logical, GatewayRep gateway logical ∧ logical.Sound ∧ logical.WithinLimits)
    (hamends : AmendsWithin gateway call) (hcall : gateway.call call = some (answer, gateway')) :
    ∃ logical', GatewayRep gateway' logical' ∧ logical'.Sound ∧ logical'.WithinLimits := by
  obtain ⟨logical, rep, sound, within⟩ := h
  obtain ⟨logical', rep', hmoves⟩ := call_moves rep sound hcall
  refine ⟨logical', rep', sound.moves rep.book.wellFormed hmoves, within.moves sound hmoves ?_⟩
  intro request entry hcommand hsequence hlast hprice hquantity hfound howner account haccount
  obtain ⟨hentry, hid⟩ := mem_of_find hfound
  obtain ⟨hmem, haccountId⟩ := account_eq_some haccount
  refine hamends request hcommand (hsequence.trans rep.expectedSequence.symm) hlast ?_ hprice hquantity account
    ((mem_registeredAccounts rep.risk).mpr hmem) haccountId
  rw [canCancel_refines rep.risk, RiskEngineState.canCancel, ← hid, sound.reservation_of_mem hentry]
  simp [claimOf, howner]

/-- A new gateway has no order that could exceed a limit. -/
theorem within_new {risk : RiskEngine A R} (hconfigured : Configured risk) (instrument : InstrumentId) :
    ∃ logical, GatewayRep (Gateway.new risk instrument : Gateway A R L O) logical ∧ logical.Sound ∧
      logical.WithinLimits := by
  obtain ⟨state, rep, fresh⟩ := hconfigured.ledger
  exact ⟨_, gatewayRep_new rep instrument, sound_new_gateway rep fresh instrument, by
    simp [LogicalGateway.WithinLimits, LogicalGateway.new, LogicalBook.new, LogicalBook.orders]⟩

/-- In every run from a configured risk engine whose amends keep to the limits,
every resting order is within the limits of its account. -/
theorem resting_orders_within_limits {risk : RiskEngine A R} (hconfigured : Configured risk)
    (instrument : InstrumentId) {calls : List GatewayCall} {answers : List GatewayAnswer}
    (hrun : run Gateway.call (Gateway.new risk instrument : Gateway A R L O) calls = some (answers, gateway))
    (hamends : ∀ before call after answers middle, calls = before ++ call :: after →
      run Gateway.call (Gateway.new risk instrument : Gateway A R L O) before = some (answers, middle) →
      AmendsWithin middle call) :
    HftEngine.WithinLimits gateway := by
  obtain ⟨logical, rep, sound, within⟩ := run_invariant_of (fun h hok hcall => call_within h hok hcall) hamends
    (within_new hconfigured instrument) hrun
  exact (withinLimits_iff rep sound).mpr within

/-- A gateway with one account that may trade 10 at a time between 5 and 20. -/
def tightGateway : Gateway 1 1 1 1 :=
  Gateway.new (RiskEngine.new.registerAccount 1 ⟨10, 1000, 1000, 10, i64 5, i64 20⟩).2 7

/-- An offer of 5 at 10, amended to a new price and quantity. -/
def amendedOffer (price : PriceTicks) (quantity : Quantity) : List GatewayCall :=
  [.command (.newOrder ⟨1, 1, 7, i64 10, 5, 1, .sell, .gtc⟩) (ReportBuffer.empty : ReportBuffer 1),
    .command (.replaceOrder ⟨1, 1, 7, 2, price, quantity⟩) (ReportBuffer.empty : ReportBuffer 1)]

/-- Amending the offer to 50 at 15 is accepted and leaves it above the
account's size limit of 10. -/
theorem amend_leaves_limits : ∃ answers gateway,
    Configured (RiskEngine.new.registerAccount 1 ⟨10, 1000, 1000, 10, i64 5, i64 20⟩ :
      Except RegistrationError Unit × RiskEngine 1 1).2 ∧
    run Gateway.call tightGateway (amendedOffer (i64 15) 50) = some (answers, gateway) ∧
    ¬HftEngine.WithinLimits gateway := by
  obtain ⟨⟨answers, gateway⟩, hrun, hbroken⟩ := exists_of_any
    (run Gateway.call tightGateway (amendedOffer (i64 15) 50))
    (fun result => ¬HftEngine.WithinLimits result.2) (by decide +kernel)
  exact ⟨answers, gateway, .registerAccount _ _ .new, hrun, hbroken⟩

/-- Amending the offer to 8 at 15 keeps to the limits. -/
theorem amendedOffer_amendsWithin : ∀ before call after answers middle,
    amendedOffer (i64 15) 8 = before ++ call :: after →
    run Gateway.call tightGateway before = some (answers, middle) → AmendsWithin middle call := by
  intro before call after answers middle hcalls hbefore request hcommand _ _ _ _ _ account haccount _
  have hlimits : ((run Gateway.call tightGateway ((amendedOffer (i64 15) 8).take 1)).any fun result =>
      decide (∀ account ∈ result.2.risk.registeredAccounts, account.limits.Admits (i64 15) 8)) = true := by
    decide +kernel
  obtain ⟨⟨_, reached⟩, hreached, hadmits⟩ := exists_of_any _
    (fun result : List GatewayAnswer × Gateway 1 1 1 1 =>
      ∀ account ∈ result.2.risk.registeredAccounts, account.limits.Admits (i64 15) 8) hlimits
  -- the amend is the second of the two calls
  match before, hcalls, hbefore with
  | [], hcalls, _ =>
      cases hcalls
      cases hcommand
  | [first], hcalls, hbefore =>
      cases hcalls
      cases hcommand
      cases hreached.symm.trans hbefore
      exact hadmits account haccount
  | first :: second :: rest, hcalls, _ =>
      have hlength := congrArg List.length hcalls
      simp [amendedOffer] at hlength

/-- Amending the offer to 8 at 15 stays within the limits. -/
theorem resting_orders_within_limits_sample : ∃ answers gateway,
    run Gateway.call tightGateway (amendedOffer (i64 15) 8) = some (answers, gateway) ∧
    HftEngine.WithinLimits gateway := by
  obtain ⟨⟨answers, gateway⟩, hrun, _⟩ := exists_of_any
    (run Gateway.call tightGateway (amendedOffer (i64 15) 8)) (fun _ => True) (by decide +kernel)
  exact ⟨answers, gateway, hrun,
    resting_orders_within_limits (.registerAccount _ _ .new) 7 hrun amendedOffer_amendsWithin⟩

end HftEngine
