/-
Module: HftEngine.Proofs.GatewayInvariant
Layer: Proofs
Purpose: What holds in every state a gateway can reach from a configured risk
  engine: the live reservations are the resting orders, every account's totals
  are theirs, exposures are within limits, internal risk failures do not
  happen, and refusals leave no trace but watermarks.
Imports: HftEngine.Proofs.GatewaySteps, HftEngine.Proofs.RiskSetup
Trusted boundary: none (fully proved)
Main exports: Sound.moves, GatewaySound, Reached, call_moves,
  gateway_mirrors_ledger, gateway_exposure_within_limits,
  gateway_risk_state_unreachable, gateway_refusals_atomic
-/
import HftEngine.Proofs.GatewaySteps
import HftEngine.Proofs.RiskSetup

namespace HftEngine

open Machine Transition

variable {A R L O N : Nat} {gateway gateway' : Gateway A R L O} {logical logical' : LogicalGateway}
  {command : Option Command} {answer : GatewayAnswer} {call : GatewayCall}

/-! ### Invariance -/

/-- Noting the identifiers of a command keeps the invariant. -/
theorem LogicalGateway.Sound.marked (sound : logical.Sound) {carried : Command} {received reserved : Option OrderId}
    (h : Marked logical carried received reserved) (next : SequenceNumber) :
    (logical.marked next received reserved).Sound := by
  refine ⟨⟨sound.risk.accountIds, sound.risk.orderIds, sound.risk.balanced, sound.risk.owners⟩, sound.book,
    sound.ledger, ?_⟩
  cases h with
  | kept => exact sound.marks
  | received order hnew =>
      intro maximum hmaximum
      obtain ⟨received, hreceived, hle⟩ := sound.marks maximum hmaximum
      exact ⟨order.orderId, rfl, hle.trans (hnew received hreceived).le⟩
  | reserved order hnew =>
      intro maximum hmaximum
      exact ⟨order.orderId, rfl, by rw [Option.mem_some.mp hmaximum]⟩

/-- Every move keeps the gateway sound. -/
theorem LogicalGateway.Sound.moves (sound : logical.Sound) (wf : logical.book.WellFormed)
    (h : Moves N logical command answer logical') : logical'.Sound := by
  cases h with
  | malformed => exact sound
  | unsequenced => exact sound
  | exhausted => exact sound
  | refused _ _ _ hmarked => exact sound.marked hmarked _
  | accepted _ _ haccepted =>
      refine ⟨haccepted.booked.consistent, sound.book.submit wf haccepted.submitted, haccepted.ledger, ?_⟩
      rw [haccepted.reserved, haccepted.received]
      intro maximum hmaximum
      exact ⟨maximum, hmaximum, le_rfl⟩
  | cancelled _ _ hcancelled =>
      refine ⟨hcancelled.rearranged.booked.consistent, sound.book.cancel hcancelled.orders,
        hcancelled.rearranged.ledger, ?_⟩
      rw [hcancelled.rearranged.reserved, hcancelled.rearranged.received]
      exact sound.marks
  | replaced _ _ hreplaced =>
      refine ⟨hreplaced.rearranged.booked.consistent, sound.book.replace wf hreplaced.amended,
        hreplaced.rearranged.ledger, ?_⟩
      rw [hreplaced.rearranged.reserved, hreplaced.rearranged.received]
      exact sound.marks

/-- The gateway stores a sound content. -/
def GatewaySound (gateway : Gateway A R L O) : Prop := ∃ logical, GatewayRep gateway logical ∧ logical.Sound

/-- A call on a represented gateway is a call on its content. -/
theorem call_logical (rep : GatewayRep gateway logical) (h : gateway.call call = some (answer, gateway')) :
    ∃ logical', logical.call R L O call = some (answer, logical') ∧ GatewayRep gateway' logical' := by
  have hrefines := call_refines rep call
  rw [h] at hrefines
  cases hlogical : logical.call R L O call with
  | none =>
      rw [hlogical] at hrefines
      cases hrefines
  | some step =>
      rw [hlogical] at hrefines
      obtain ⟨answer', logical'⟩ := step
      obtain ⟨rfl, rep'⟩ : answer = answer' ∧ GatewayRep gateway' logical' := by
        cases hrefines
        assumption
      exact ⟨logical', rfl, rep'⟩

/-- A call on a represented gateway makes a move of its content. -/
theorem call_moves (rep : GatewayRep gateway logical) (sound : logical.Sound)
    (h : gateway.call call = some (answer, gateway')) :
    ∃ logical', GatewayRep gateway' logical' ∧ Moves call.capacity logical call.command? answer logical' := by
  obtain ⟨logical', hlogical, rep'⟩ := call_logical rep h
  exact ⟨logical', rep', moves_of_call sound rep.book.wellFormed rep.risk.watermark hlogical⟩

/-- Every call of a gateway keeps its invariant. -/
theorem call_sound (h : GatewaySound gateway) (hcall : gateway.call call = some (answer, gateway')) :
    GatewaySound gateway' := by
  obtain ⟨logical, rep, sound⟩ := h
  obtain ⟨logical', rep', hmoves⟩ := call_moves rep sound hcall
  exact ⟨logical', rep', sound.moves rep.book.wellFormed hmoves⟩

/-- The content of a new gateway. -/
def LogicalGateway.new (risk : RiskEngineState) (instrument : InstrumentId) : LogicalGateway :=
  ⟨risk, LogicalBook.new instrument, 1, none⟩

/-- A new gateway with a freshly configured risk engine satisfies the
invariant: nothing rests and nothing is reserved. -/
theorem sound_new_gateway {risk : RiskEngine A R} {state : RiskEngineState} (rep : RiskRep risk state)
    (fresh : state.Fresh) (instrument : InstrumentId) : (LogicalGateway.new state instrument).Sound := by
  refine ⟨fresh.consistent rep, sound_new instrument, ?_, ?_⟩
  · simp [LogicalGateway.new, fresh.reservations, LogicalBook.new, LogicalBook.orders]
  · simp [LogicalGateway.new, fresh.maximumOrderId]

/-- A new gateway represents the logical one with the same risk state and an
empty book. -/
theorem gatewayRep_new {risk : RiskEngine A R} {state : RiskEngineState} (rep : RiskRep risk state)
    (instrument : InstrumentId) :
    GatewayRep (Gateway.new risk instrument : Gateway A R L O) (LogicalGateway.new state instrument) :=
  ⟨rep, represents_new instrument, rfl, rfl⟩

/-- The states a gateway reaches from a configured risk engine, by calls that
return. -/
def Reached (gateway : Gateway A R L O) : Prop :=
  ∃ (risk : RiskEngine A R) (instrument : InstrumentId) (calls : List GatewayCall) (answers : List GatewayAnswer),
    Configured risk ∧ run Gateway.call (Gateway.new risk instrument) calls = some (answers, gateway)

/-- Every run keeps the invariant. -/
theorem run_sound {start : Gateway A R L O} {calls : List GatewayCall} {answers : List GatewayAnswer}
    (h : GatewaySound start) (hrun : run Gateway.call start calls = some (answers, gateway)) :
    GatewaySound gateway :=
  run_invariant (P := fun _ => True) (fun hsound _ hcall => call_sound hsound hcall) (fun _ _ => trivial) h hrun

/-- Every gateway that a run reaches satisfies the invariant. -/
theorem Reached.sound (h : Reached gateway) : GatewaySound gateway := by
  obtain ⟨risk, instrument, calls, answers, hconfigured, hrun⟩ := h
  obtain ⟨state, rep, fresh⟩ := hconfigured.ledger
  exact run_sound ⟨_, gatewayRep_new rep instrument, sound_new_gateway rep fresh instrument⟩ hrun

/-! ### Every call returns -/

/-- A represented gateway answers every call when its index numbers fit. -/
theorem call_total (hL : 1 ≤ L) (hO : 1 ≤ O) (hindex : 4 * L * O ≤ 2 ^ 32)
    (h : ∃ logical, GatewayRep gateway logical) (call : GatewayCall) :
    ∃ answer gateway', gateway.call call = some (answer, gateway') ∧ ∃ logical', GatewayRep gateway' logical' := by
  obtain ⟨logical, rep⟩ := h
  have hsubmits : ∀ {N order}, logical.book.submit L O order N ≠ none := fun {N order} =>
    submit_answers fun ids hids => fitsIndex_of_represents rep.book hL hO hindex ids hids
  have hcommand : ∀ {N carried}, logical.processCommand R L O N carried ≠ none := by
    intro N carried
    unfold LogicalGateway.processCommand
    cases logical.nextSequence carried.sequence with
    | error error => simp
    | ok next =>
        cases carried with
        | cancelOrder request => simp [LogicalGateway.dispatch]
        | replaceOrder request => simp [LogicalGateway.dispatch]
        | newOrder order =>
            simp only [LogicalGateway.dispatch, LogicalGateway.processNewOrder, LogicalGateway.submitReserved]
            split
            · simp
            split
            · simp
            split
            · rename_i hnone
              exact absurd hnone hsubmits
            · simp
            · split <;> simp
  have hanswers : logical.call R L O call ≠ none := by
    cases call with
    | command carried reports => exact hcommand
    | frame bytes reports =>
        simp only [LogicalGateway.call, LogicalGateway.processFrame]
        split
        · simp
        · exact hcommand
  have hrefines := call_refines rep call
  cases hlogical : logical.call R L O call with
  | none => exact absurd hlogical hanswers
  | some step =>
      rw [hlogical] at hrefines
      cases hcall : gateway.call call with
      | none =>
          rw [hcall] at hrefines
          cases hrefines
      | some result =>
          rw [hcall] at hrefines
          obtain ⟨_, rep'⟩ : result.1 = step.1 ∧ GatewayRep result.2 step.2 := by
            cases hrefines
            assumption
          exact ⟨result.1, result.2, rfl, step.2, rep'⟩

/-- Two accounts with the same limits. -/
def sampleRisk : RiskEngine 2 4 :=
  let limits : RiskLimits := ⟨100, 100000, 1000, 10, i64 1, i64 1000⟩
  ((RiskEngine.new.registerAccount 1 limits).2.registerAccount 2 limits).2

theorem sampleRisk_configured : Configured sampleRisk := .registerAccount _ _ (.registerAccount _ _ .new)

/-- A resting offer, a bid that trades with it, an amend and a cancel of an
order that is not there. -/
def sampleCalls : List GatewayCall :=
  [.command (.newOrder ⟨1, 1, 7, i64 10, 5, 1, .sell, .gtc⟩) (ReportBuffer.empty : ReportBuffer 2),
    .command (.newOrder ⟨2, 2, 7, i64 10, 2, 2, .buy, .gtc⟩) (ReportBuffer.empty : ReportBuffer 2),
    .command (.replaceOrder ⟨1, 1, 7, 3, i64 11, 4⟩) (ReportBuffer.empty : ReportBuffer 2),
    .command (.cancelOrder ⟨9, 1, 7, 4⟩) (ReportBuffer.empty : ReportBuffer 2)]

theorem sampleCalls_return : ∃ answers, ∃ gateway : Gateway 2 4 2 2,
    run Gateway.call (Gateway.new sampleRisk 7) sampleCalls = some (answers, gateway) := by
  obtain ⟨state, rep, _⟩ := sampleRisk_configured.ledger
  obtain ⟨answers, gateway, hrun, _⟩ := run_total
    (fun h call => call_total (L := 2) (O := 2) (by decide) (by decide) (by decide) h call) sampleCalls
    ⟨_, gatewayRep_new rep 7⟩
  exact ⟨answers, gateway, hrun⟩

/-- A resting offer, a bid that takes part of it, and a bid that rests
below. -/
def restingCalls : List GatewayCall :=
  sampleCalls.take 2 ++ [.command (.newOrder ⟨3, 2, 7, i64 8, 2, 3, .buy, .gtc⟩) (ReportBuffer.empty : ReportBuffer 2)]

/-! ### The book and the ledger -/

/-- The exported reservations are those of the logical state, in the order of
their slots. -/
theorem liveReservations_perm {risk : RiskEngine A R} {state : RiskEngineState} (rep : RiskRep risk state) :
    (risk.liveReservations.map RiskEngine.exportReservation).Perm state.reservations := by
  rw [liveReservations_eq]
  exact rep.reservations

/-- The registered accounts are those of the logical state. -/
theorem mem_registeredAccounts {risk : RiskEngine A R} {state : RiskEngineState} (rep : RiskRep risk state)
    {account : AccountState} : account ∈ risk.registeredAccounts ↔ account ∈ state.accounts := by
  rw [registeredAccounts_eq, rep.accounts.mem_iff]

/-- The quantity an account has resting on one side. -/
def restingQuantity (orders : List BookOrderState) (id : AccountId) (side : Side) : Nat :=
  ((orders.filter fun order => order.accountId = id ∧ order.side = side).map fun order => order.quantity.val).sum

/-- Live reservations and resting orders in bijection by order id, and the
totals of every account. -/
structure Mirrored (gateway : Gateway A R L O) : Prop where
  orderIds : (gateway.book.exportState.orders.map BookOrderState.orderId).Nodup
  reservationIds : (gateway.risk.liveReservations.map Reservation.orderId).Nodup
  matched : (gateway.risk.liveReservations.map fun reservation =>
      (reservation.orderId, reservation.accountId, reservation.side, reservation.quantity)).Perm
    (gateway.book.exportState.orders.map fun order => (order.orderId, order.accountId, order.side, order.quantity))
  reserved : ∀ account ∈ gateway.risk.registeredAccounts,
    account.reservedBuys.val = restingQuantity gateway.book.exportState.orders account.id .buy ∧
      account.reservedSells.val = restingQuantity gateway.book.exportState.orders account.id .sell
  openOrders : ∀ account ∈ gateway.risk.registeredAccounts, account.openOrders.val
    = (gateway.book.exportState.orders.filter fun order => order.accountId = account.id).length

/-- Reservations that mirror the resting orders add up to the resting quantity
of each account and side. -/
theorem reservedTotal_map_claimOf (side : Side) (id : AccountId) (entries : List BookEntry) :
    reservedTotal side id (entries.map claimOf) = restingQuantity (entries.map entryState) id side := by
  induction entries with
  | nil => rfl
  | cons entry rest ih =>
      rw [List.map_cons, List.map_cons, reservedTotal_cons, ih]
      unfold restingQuantity
      rw [List.filter_cons]
      by_cases hown : entry.2.2.account = id ∧ entry.1 = side
      · simp [claim, claimOf, entryState, orderState, hown]
      · simp [claim, claimOf, entryState, orderState, hown]

/-- Reservations that mirror the resting orders are as many as the account has
orders. -/
theorem openCount_map_claimOf (id : AccountId) (entries : List BookEntry) :
    openCount id (entries.map claimOf)
      = ((entries.map entryState).filter fun order => order.accountId = id).length := by
  rw [openCount, List.countP_map, ← List.countP_eq_length_filter, List.countP_map]
  rfl

/-- In every reachable state the live reservations are exactly the resting
orders, and the totals of every account are the sums over its resting
orders. -/
theorem gateway_mirrors_ledger (h : Reached gateway) : Mirrored gateway := by
  obtain ⟨logical, rep, sound⟩ := h.sound
  have wf := rep.book.wellFormed
  have horders := orders_exportState rep.book
  have hlive := liveReservations_perm rep.risk
  refine ⟨?_, ?_, ?_, ?_, ?_⟩
  · rw [horders, List.map_map]
    exact wf.ids
  · have hids := ((hlive.map ReservationRiskState.orderId).nodup_iff).mpr sound.risk.orderIds
    rw [List.map_map] at hids
    exact hids
  · have hledger := (hlive.trans sound.ledger).map
      fun reservation => (reservation.orderId, reservation.accountId, reservation.side, reservation.quantity)
    rw [List.map_map, List.map_map] at hledger
    rw [horders, List.map_map]
    exact hledger
  · intro account haccount
    have hbalanced := sound.risk.balanced account ((mem_registeredAccounts rep.risk).mp haccount)
    have htotal : ∀ side, (account.reserved side).val
        = restingQuantity gateway.book.exportState.orders account.id side := by
      intro side
      rw [hbalanced.reserved, reservedTotal_perm sound.ledger, reservedTotal_map_claimOf, horders]
    exact ⟨htotal .buy, htotal .sell⟩
  · intro account haccount
    have hbalanced := sound.risk.balanced account ((mem_registeredAccounts rep.risk).mp haccount)
    rw [hbalanced.count, openCount_perm sound.ledger, openCount_map_claimOf, horders]

/-- The sample run keeps book and ledger in step. -/
theorem gateway_mirrors_ledger_sample : ∃ answers, ∃ gateway : Gateway 2 4 2 2,
    run Gateway.call (Gateway.new sampleRisk 7) sampleCalls = some (answers, gateway) ∧ Mirrored gateway := by
  obtain ⟨answers, gateway, hrun⟩ := sampleCalls_return
  exact ⟨answers, gateway, hrun, gateway_mirrors_ledger ⟨_, _, _, _, sampleRisk_configured, hrun⟩⟩

/-! ### Exposure -/

/-- Worst cases within a limit leave room to compute the projected position. -/
theorem exists_projected {account : AccountState} {reservations : List ReservationRiskState}
    (hbalanced : Balanced account reservations) :
    ∃ buys sells long projected, i128OfU128 account.reservedBuys = some buys ∧
      i128OfU128 account.reservedSells = some sells ∧ checkedAddSigned account.settledPosition buys = some long ∧
      checkedSubSigned long sells = some projected := by
  have hlong := hbalanced.exposed .buy
  have hshort := hbalanced.exposed .sell
  have hlimit := account.limits.maxAbsPosition.isLt
  simp only [Side.sign, AccountState.reserved, reservedOn] at hlong hshort
  obtain ⟨buys, hbuys, hbuysVal⟩ := signedOf_isSome (2 ^ 127) account.reservedBuys.val
    (by norm_num) (by norm_num; omega)
  obtain ⟨sells, hsells, hsellsVal⟩ := signedOf_isSome (2 ^ 127) account.reservedSells.val
    (by norm_num) (by norm_num; omega)
  obtain ⟨long, hsum, hsumVal⟩ := signedOf_isSome (2 ^ 127)
    (account.settledPosition.val + buys.val) (by norm_num; omega) (by norm_num; omega)
  obtain ⟨projected, hprojected, _⟩ := signedOf_isSome (2 ^ 127) (long.val - sells.val)
    (by norm_num; omega) (by norm_num; omega)
  exact ⟨buys, sells, long, projected, hbuys, hsells, hsum, hprojected⟩

/-- An account that is found sits in the slot it was found in. -/
theorem accountSlot_of_findAccount {risk : RiskEngine A R} {id : AccountId} {slot : Nat} {account : AccountState}
    (h : risk.findAccount id = some (.ok (slot, account))) : risk.accountSlot id = some slot := by
  unfold RiskEngine.findAccount at h
  split at h
  · cases h
  · rename_i found hfound
    split at h
    · cases h
    · cases h
    · cases h
      exact hfound

/-- The projected position of a registered account can be read. -/
theorem accountSnapshot_isSome {risk : RiskEngine A R} {state : RiskEngineState} (rep : RiskRep risk state)
    {account : AccountState} (haccount : account ∈ state.accounts) (hconsistent : state.Consistent) :
    (risk.accountSnapshot account.id).isSome := by
  have hstored := hconsistent.account_iff.mpr ⟨haccount, rfl⟩
  obtain ⟨buys, sells, long, projected, hbuys, hsells, hlong, hprojected⟩ :=
    exists_projected (hconsistent.balanced account haccount)
  rcases rep.findAccount_spec account.id with ⟨slot, stored, hfind, hat, _, hledger⟩ | ⟨_, hnone⟩
  · obtain rfl : account = stored := Option.some.inj (hstored.symm.trans hledger)
    refine Option.isSome_iff_exists.mpr ⟨(projected, account.openOrders), ?_⟩
    unfold RiskEngine.accountSnapshot
    rw [Option.bind_eq_bind, Option.bind_eq_some_iff]
    refine ⟨slot, accountSlot_of_findAccount hfind, Option.bind_eq_some_iff.mpr ⟨account, hat, ?_⟩⟩
    rw [hbuys, hsells]
    simp only [Option.bind_eq_bind, Option.bind_some]
    rw [hlong, Option.bind_some, hprojected]
    rfl
  · cases hstored.symm.trans hnone

/-- In every reachable state every account's worst-case positions and open
orders are within its limits, so its projected position can be read. -/
theorem gateway_exposure_within_limits (h : Reached gateway) :
    ∀ account ∈ gateway.risk.registeredAccounts,
      account.settledPosition.val + account.reservedBuys.val ≤ account.limits.maxAbsPosition.val ∧
      -(account.limits.maxAbsPosition.val : Int) ≤ account.settledPosition.val - account.reservedSells.val ∧
      account.openOrders.val ≤ account.limits.maxOpenOrders.val ∧
      (gateway.risk.accountSnapshot account.id).isSome := by
  obtain ⟨logical, rep, sound⟩ := h.sound
  intro account haccount
  have hmem := (mem_registeredAccounts rep.risk).mp haccount
  have hbalanced := sound.risk.balanced account hmem
  have hlong := hbalanced.exposed .buy
  have hshort := hbalanced.exposed .sell
  simp only [Side.sign, AccountState.reserved, reservedOn] at hlong hshort
  exact ⟨by omega, by omega, hbalanced.limit, accountSnapshot_isSome rep.risk hmem sound.risk⟩

/-- The sample run keeps both accounts within their limits. -/
theorem gateway_exposure_within_limits_sample : ∃ answers, ∃ gateway : Gateway 2 4 2 2,
    run Gateway.call (Gateway.new sampleRisk 7) sampleCalls = some (answers, gateway) ∧
    ∀ account ∈ gateway.risk.registeredAccounts,
      account.settledPosition.val + account.reservedBuys.val ≤ account.limits.maxAbsPosition.val ∧
      -(account.limits.maxAbsPosition.val : Int) ≤ account.settledPosition.val - account.reservedSells.val ∧
      account.openOrders.val ≤ account.limits.maxOpenOrders.val ∧
      (gateway.risk.accountSnapshot account.id).isSome := by
  obtain ⟨answers, gateway, hrun⟩ := sampleCalls_return
  exact ⟨answers, gateway, hrun, gateway_exposure_within_limits ⟨_, _, _, _, sampleRisk_configured, hrun⟩⟩

/-! ### Failures and refusals -/

/-- Every fill, release and rollback issued after a book operation succeeds:
the only internal risk error of a reachable gateway is the exhaustion of the
sequence numbers. -/
theorem gateway_risk_state_unreachable (h : Reached gateway) (hcall : gateway.call call = some (answer, gateway'))
    (reason : RejectReason) :
    answer.result = .error (.riskState reason) ↔ reason = .arithmeticOverflow ∧
      ∃ command, call.command? = some command ∧ command.sequence = gateway.expectedSequence ∧
        gateway.expectedSequence.val = 2 ^ 64 - 1 := by
  obtain ⟨logical, rep, sound⟩ := h.sound
  obtain ⟨logical', _, hmoves⟩ := call_moves rep sound hcall
  rw [rep.expectedSequence]
  -- a move that advances the sequence was not at its end, so it only has to answer something else
  have hadvanced : ∀ {carried : Option Command} {result : Except GatewayError GatewayOutcome} {next : SequenceNumber},
      next.val = logical.expectedSequence.val + 1 → result ≠ .error (.riskState reason) →
      (result = .error (.riskState reason) ↔ reason = .arithmeticOverflow ∧ ∃ command, carried = some command ∧
        command.sequence = logical.expectedSequence ∧ logical.expectedSequence.val = 2 ^ 64 - 1) := by
    intro carried result next hnext hother
    have hbound := next.isLt
    constructor
    · intro hresult
      exact absurd hresult hother
    · rintro ⟨_, _, _, _, hlast⟩
      omega
  generalize call.command? = carried at hmoves ⊢
  cases hmoves with
  | malformed error => simp
  | unsequenced command hsequence =>
      simp only [reduceCtorEq, Except.error.injEq, Option.some.injEq, exists_eq_left', false_iff, not_and]
      exact fun _ hsame => absurd hsame hsequence
  | exhausted command hsequence hlast =>
      simp only [Except.error.injEq, GatewayError.riskState.injEq, Option.some.injEq, exists_eq_left', hsequence,
        true_and]
      constructor
      · rintro rfl
        exact ⟨rfl, by omega⟩
      · rintro ⟨rfl, _⟩
        rfl
  | refused _ hnext herror _ =>
      apply hadvanced hnext
      rcases herror with ⟨_, rfl⟩ | ⟨_, rfl⟩ <;> simp
  | accepted _ hnext haccepted => exact hadvanced hnext (by simp [haccepted.answer_eq])
  | cancelled _ hnext hcancelled => exact hadvanced hnext (by simp [hcancelled.answer_eq])
  | replaced _ hnext hreplaced => exact hadvanced hnext (by simp [hreplaced.answer_eq])

/-- An order that takes the rest of the offer and discards its own, the cancel
of the offer by its owner, and an amend of the offer that the book refuses
because it would cross the resting bid. -/
def settlingCalls : List GatewayCall :=
  [.command (.newOrder ⟨4, 2, 7, i64 10, 5, 4, .buy, .ioc⟩) (ReportBuffer.empty : ReportBuffer 2),
    .command (.cancelOrder ⟨1, 1, 7, 4⟩) (ReportBuffer.empty : ReportBuffer 2),
    .command (.replaceOrder ⟨1, 1, 7, 4, i64 8, 2⟩) (ReportBuffer.empty : ReportBuffer 2)]

/-- With an offer and a bid resting, a fill with its release, a cancel and a
rolled-back amend all go through the ledger: the first two are answered, the
third is refused by the book, and none fails internally. -/
theorem gateway_risk_state_unreachable_sample : ∃ answers, ∃ gateway : Gateway 2 4 2 2,
    run Gateway.call (Gateway.new sampleRisk 7) restingCalls = some (answers, gateway) ∧
    (settlingCalls.map fun call => (gateway.call call).map fun step => (step.1.reports.length, step.1.result.toOption.isSome))
      = [some (1, true), some (0, true), some (0, false)] ∧
    ∀ call ∈ settlingCalls, ∀ answer gateway', gateway.call call = some (answer, gateway') →
      ∀ reason, answer.result ≠ .error (.riskState reason) := by
  obtain ⟨⟨answers, gateway⟩, hrun, hanswered, hsequence⟩ := exists_of_any
    (run Gateway.call (Gateway.new sampleRisk 7 : Gateway 2 4 2 2) restingCalls)
    (fun result => (settlingCalls.map fun call => (result.2.call call).map fun step =>
        (step.1.reports.length, step.1.result.toOption.isSome)) = [some (1, true), some (0, true), some (0, false)] ∧
      result.2.expectedSequence = 4) (by decide +kernel)
  refine ⟨answers, gateway, hrun, hanswered, ?_⟩
  intro call _ answer gateway' hcall reason hfailed
  have hreached : Reached gateway := ⟨_, _, _, _, sampleRisk_configured, hrun⟩
  obtain ⟨_, _, _, _, hlast⟩ := (gateway_risk_state_unreachable hreached hcall reason).mp hfailed
  rw [hsequence] at hlast
  exact absurd hlast (by decide)

/-- A watermark that is kept, or raised by a new order to its id. -/
def RaisedTo (command : Option Command) (before after : Option OrderId) : Prop :=
  after = before ∨ ∃ order, command = some (.newOrder order) ∧ after = some order.orderId ∧
    ∀ maximum ∈ before, maximum.val < order.orderId.val

/-- What a business rejection leaves behind: one sequence number used, and
possibly raised watermarks. -/
structure RefusedOnly (gateway gateway' : Gateway A R L O) (command : Option Command) : Prop where
  book : gateway'.book.exportState = gateway.book.exportState
  accounts : gateway'.risk.exportState.accounts = gateway.risk.exportState.accounts
  reservations : gateway'.risk.exportState.reservations = gateway.risk.exportState.reservations
  killed : gateway'.risk.exportState.killed = gateway.risk.exportState.killed
  sequence : gateway'.expectedSequence.val = gateway.expectedSequence.val + 1
  received : RaisedTo command gateway.maximumReceivedOrderId gateway'.maximumReceivedOrderId
  reserved : RaisedTo command gateway.risk.maximumOrderId gateway'.risk.maximumOrderId

/-- A command that is not admitted leaves the gateway itself untouched. -/
theorem processCommand_unadmitted {carried : Command} {error : GatewayError} (reports : ReportBuffer N)
    (h : gateway.acceptSequence carried.sequence = .error error) :
    gateway.processCommand carried reports = some (.error error, gateway, reports.clear) := by
  unfold Gateway.processCommand
  rw [h]

/-- A call without an admitted command leaves the gateway itself untouched. -/
theorem call_unadmitted (hcommand : ∀ carried ∈ call.command?, ∃ error,
      gateway.acceptSequence carried.sequence = .error error)
    (hcall : gateway.call call = some (answer, gateway')) : gateway' = gateway := by
  cases call with
  | command carried reports =>
      obtain ⟨error, herror⟩ := hcommand carried rfl
      simp only [Gateway.call, processCommand_unadmitted reports herror, Option.map_some, Option.some.injEq] at hcall
      cases hcall
      rfl
  | frame bytes reports =>
      simp only [Gateway.call, processFrame_eq] at hcall
      simp only [GatewayCall.command?] at hcommand
      cases hparse : parseMessage bytes with
      | error error =>
          rw [hparse] at hcall
          cases hcall
          rfl
      | ok message =>
          rw [hparse] at hcall hcommand
          obtain ⟨error, herror⟩ := hcommand message.toCommand rfl
          simp only [processCommand_unadmitted reports herror, Option.map_some, Option.some.injEq] at hcall
          cases hcall
          rfl

/-- Both watermarks are raised to the identifier of the command and never
lowered. -/
theorem Marked.raised {carried : Command} {received reserved : Option OrderId} (sound : logical.Sound)
    (h : Marked logical carried received reserved) :
    RaisedTo (some carried) logical.maximumReceivedOrderId received ∧
      RaisedTo (some carried) logical.risk.maximumOrderId reserved := by
  cases h with
  | kept => exact ⟨.inl rfl, .inl rfl⟩
  | received order hnew => exact ⟨.inr ⟨order, rfl, rfl, hnew⟩, .inl rfl⟩
  | reserved order hnew =>
      refine ⟨.inr ⟨order, rfl, rfl, hnew⟩, .inr ⟨order, rfl, rfl, ?_⟩⟩
      intro maximum hmaximum
      obtain ⟨received, hreceived, hle⟩ := sound.marks maximum hmaximum
      exact hle.trans_lt (hnew received hreceived)

/-- Refusals are atomic: parse errors, sequence errors and exhaustion leave the
gateway as it is, a business rejection leaves book, accounts, reservations and
kill flags as they are, and no refusal reports. -/
theorem gateway_refusals_atomic (h : Reached gateway) (hcall : gateway.call call = some (answer, gateway'))
    {error : GatewayError} (herror : answer.result = .error error) :
    answer.reports = [] ∧
      ((∃ reason, error = .parse reason) ∨ (∃ expected received, error = .sequence expected received) ∨
        error = .riskState .arithmeticOverflow → gateway' = gateway) ∧
      ((∃ reason, error = .risk reason) ∨ (∃ reason, error = .book reason) →
        RefusedOnly gateway gateway' call.command?) ∧
      (∀ reason, error = .riskState reason → reason = .arithmeticOverflow) := by
  obtain ⟨logical, rep, sound⟩ := h.sound
  obtain ⟨logical', rep', hmoves⟩ := call_moves rep sound hcall
  have hkept : (∀ carried ∈ call.command?, ∃ error, logical.nextSequence carried.sequence = .error error) →
      gateway' = gateway := by
    intro hunadmitted
    refine call_unadmitted (fun carried hcarried => ?_) hcall
    obtain ⟨error, hrefused⟩ := hunadmitted carried hcarried
    rw [rep.acceptSequence_eq, hrefused]
    exact ⟨error, rfl⟩
  generalize call.command? = carried at hmoves hkept ⊢
  cases hmoves with
  | malformed reason =>
      cases herror
      exact ⟨rfl, fun _ => hkept (by simp), by simp, by simp⟩
  | unsequenced command hsequence =>
      cases herror
      refine ⟨rfl, fun _ => hkept ?_, by simp, by simp⟩
      rintro _ ⟨⟩
      exact ⟨_, if_pos hsequence⟩
  | exhausted command hsequence hlast =>
      cases herror
      refine ⟨rfl, fun _ => hkept ?_, by simp, by simp⟩
      rintro _ ⟨⟩
      have hfull : checkedAdd logical.expectedSequence 1 = none := by
        rw [checkedAdd_eq_none]
        simp only [Fin.val_one]
        omega
      refine ⟨.riskState .arithmeticOverflow, ?_⟩
      unfold LogicalGateway.nextSequence
      rw [if_neg (by simpa using hsequence), hfull]
  | refused hsequence hnext hreason hmarked =>
      cases herror
      obtain ⟨hreceived, hreserved⟩ := hmarked.raised sound
      refine ⟨rfl, ?_, fun _ => ⟨?_, ?_, ?_, ?_, ?_, ?_, ?_⟩, ?_⟩
      · rcases hreason with ⟨_, rfl⟩ | ⟨_, rfl⟩ <;> simp
      · rw [exportState_eq rep'.book, exportState_eq rep.book]
        rfl
      · rw [rep'.risk.exportState_eq, rep.risk.exportState_eq]
        rfl
      · rw [rep'.risk.exportState_eq, rep.risk.exportState_eq]
        rfl
      · rw [rep'.risk.exportState_eq, rep.risk.exportState_eq]
        rfl
      · rw [rep'.expectedSequence, rep.expectedSequence]
        exact hnext
      · rw [rep'.maximumReceivedOrderId, rep.maximumReceivedOrderId]
        exact hreceived
      · rw [rep'.risk.maximumOrderId, rep.risk.maximumOrderId]
        exact hreserved
      · rcases hreason with ⟨_, rfl⟩ | ⟨_, rfl⟩ <;> simp
  | accepted _ _ haccepted =>
      rw [haccepted.answer_eq] at herror
      cases herror
  | cancelled _ _ hcancelled =>
      rw [hcancelled.answer_eq] at herror
      cases herror
  | replaced _ _ hreplaced =>
      rw [hreplaced.answer_eq] at herror
      cases herror

/-- Commands the book refuses after the risk engine has reserved or amended: an
amend that would cross the resting bid, a post-only order that would trade, and
a fill-or-kill order for more than is offered. -/
def rejectedCalls : List (GatewayCall × RejectReason) :=
  [(.command (.replaceOrder ⟨1, 1, 7, 4, i64 8, 2⟩) (ReportBuffer.empty : ReportBuffer 2), .replaceWouldCross),
    (.command (.newOrder ⟨4, 2, 7, i64 10, 1, 4, .buy, .postOnly⟩) (ReportBuffer.empty : ReportBuffer 2),
      .postOnlyWouldTrade),
    (.command (.newOrder ⟨4, 2, 7, i64 10, 5, 4, .buy, .fok⟩) (ReportBuffer.empty : ReportBuffer 2),
      .insufficientLiquidity)]

/-- With an offer and a bid resting, each of these refusals leaves nothing
behind but its sequence number and, for the new orders, the watermarks. -/
theorem gateway_refusals_atomic_sample : ∃ answers, ∃ gateway : Gateway 2 4 2 2,
    run Gateway.call (Gateway.new sampleRisk 7) restingCalls = some (answers, gateway) ∧
    ∀ rejected ∈ rejectedCalls, ∃ answer gateway', gateway.call rejected.1 = some (answer, gateway') ∧
      answer.result = .error (.book rejected.2) ∧ answer.reports = [] ∧
      RefusedOnly gateway gateway' rejected.1.command? := by
  obtain ⟨⟨answers, gateway⟩, hrun, hrejected⟩ := exists_of_any
    (run Gateway.call (Gateway.new sampleRisk 7 : Gateway 2 4 2 2) restingCalls)
    (fun result => ∀ rejected ∈ rejectedCalls, ((result.2.call rejected.1).any fun step =>
      decide (step.1.result = .error (.book rejected.2))) = true) (by decide +kernel)
  refine ⟨answers, gateway, hrun, ?_⟩
  intro rejected hmem
  have hreached : Reached gateway := ⟨_, _, _, _, sampleRisk_configured, hrun⟩
  obtain ⟨⟨answer, gateway'⟩, hcall, herror⟩ := exists_of_any (gateway.call rejected.1)
    (fun step => step.1.result = .error (.book rejected.2)) (hrejected rejected hmem)
  obtain ⟨hsilent, _, hkept, _⟩ := gateway_refusals_atomic hreached hcall herror
  exact ⟨answer, gateway', hcall, herror, hsilent, hkept (.inr ⟨_, rfl⟩)⟩

end HftEngine
