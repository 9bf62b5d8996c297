/-
Module: HftEngine.Proofs.GatewayRestore
Layer: Proofs
Purpose: Export and restore of a whole gateway. What a gateway exports is a
  function of its content; what is restored from it has that content again and
  so answers every later command alike; and the restore succeeds on a reachable
  gateway exactly when its resting orders are within the limits of their
  accounts.
Imports: HftEngine.Proofs.OrderLimits, HftEngine.Proofs.RiskRestore,
  HftEngine.Proofs.BookSequences
Trusted boundary: none (fully proved)
Main exports: LogicalGateway.state, LogicalGateway.Canonical,
  gatewayRep_of_fromState, canonical_of_fromState, Gateway.observed,
  restored_gateway_indistinguishable
-/
import HftEngine.Proofs.OrderLimits
import HftEngine.Proofs.RiskRestore
import HftEngine.Proofs.BookSequences

namespace HftEngine

open Machine Transition KeyedList

variable {A R L O N : Nat} {gateway gateway' restored : Gateway A R L O} {logical logical' : LogicalGateway}
  {command : Option Command} {answer : GatewayAnswer} {call : GatewayCall}

/-! ### Sequence numbers along a run -/

/-- The next number is positive and every resting order carries an earlier
one. -/
structure LogicalGateway.Stamped (logical : LogicalGateway) : Prop where
  first : 1 ≤ logical.expectedSequence.val
  book : logical.book.Stamped logical.expectedSequence.val

/-- Booking the fills of an order touches neither the book nor the sequence. -/
theorem settleSubmitted_kept {order : NewOrder} {summary : MatchSummary} {reports : List ExecutionReport}
    (h : logical.settleSubmitted order summary reports = (answer, logical')) :
    logical'.book = logical.book ∧ logical'.expectedSequence = logical.expectedSequence := by
  unfold LogicalGateway.settleSubmitted at h
  split at h
  · cases h
    exact ⟨rfl, rfl⟩
  split at h
  · split at h <;> cases h <;> exact ⟨rfl, rfl⟩
  · cases h
    exact ⟨rfl, rfl⟩

section Handlers

variable (wf : logical.book.WellFormed)
include wf

/-- A new order leaves the orders of the book stamped below the next sequence
number. -/
theorem processNewOrder_stamped {order : NewOrder} (h : logical.book.Stamped order.sequence.val)
    (hfirst : 1 ≤ order.sequence.val) (hlater : order.sequence.val < logical.expectedSequence.val)
    (hprocess : logical.processNewOrder R L O N order = some (answer, logical')) :
    logical'.expectedSequence = logical.expectedSequence ∧
      logical'.book.Stamped logical.expectedSequence.val := by
  unfold LogicalGateway.processNewOrder at hprocess
  split at hprocess
  · cases hprocess
    exact ⟨rfl, h.mono hlater.le⟩
  split at hprocess
  · cases hprocess
    exact ⟨rfl, h.mono hlater.le⟩
  unfold LogicalGateway.submitReserved at hprocess
  split at hprocess
  · cases hprocess
  · rename_i summary fills book hsubmit
    simp only [Option.some.injEq] at hprocess
    have hkept := settleSubmitted_kept hprocess
    rw [hkept.1, hkept.2]
    exact ⟨rfl, h.submit wf hfirst hlater hsubmit⟩
  · rename_i hsubmit
    have hstamped := h.submit wf hfirst hlater hsubmit
    split at hprocess <;> cases hprocess <;> exact ⟨rfl, hstamped⟩

/-- An amend keeps the orders of the book stamped below the next sequence
number; one that loses its place is stamped anew. -/
theorem processReplace_stamped {request : ReplaceOrder} (h : logical.book.Stamped request.sequence.val)
    (hfirst : 1 ≤ request.sequence.val) (hlater : request.sequence.val < logical.expectedSequence.val)
    (hprocess : logical.processReplace L O request = (answer, logical')) :
    logical'.expectedSequence = logical.expectedSequence ∧
      logical'.book.Stamped logical.expectedSequence.val := by
  unfold LogicalGateway.processReplace at hprocess
  split at hprocess
  · cases hprocess
    exact ⟨rfl, h.mono hlater.le⟩
  split at hprocess
  · rename_i hreplace
    cases hprocess
    exact ⟨rfl, h.replace wf hfirst hlater hreplace⟩
  · rename_i hreplace
    have hstamped := h.replace wf hfirst hlater hreplace
    split at hprocess <;> cases hprocess <;> exact ⟨rfl, hstamped⟩

/-- A cancel stamps no order, so the orders stay stamped below the next
sequence number. -/
theorem processCancel_stamped {request : CancelOrder} (h : logical.book.Stamped request.sequence.val)
    (hlater : request.sequence.val < logical.expectedSequence.val)
    (hprocess : logical.processCancel request = (answer, logical')) :
    logical'.expectedSequence = logical.expectedSequence ∧
      logical'.book.Stamped logical.expectedSequence.val := by
  unfold LogicalGateway.processCancel at hprocess
  split at hprocess
  · cases hprocess
    exact ⟨rfl, h.mono hlater.le⟩
  split at hprocess
  · rename_i hcancel
    cases hprocess
    exact ⟨rfl, (h.cancel wf hcancel).mono hlater.le⟩
  · rename_i hcancel
    have hstamped := (h.cancel wf hcancel).mono hlater.le
    split at hprocess
    · cases hprocess
      exact ⟨rfl, hstamped⟩
    · split at hprocess <;> cases hprocess <;> exact ⟨rfl, hstamped⟩

/-- Every command keeps the stamps below the sequence number that is expected
next. -/
theorem processCommand_stamped {carried : Command} (stamped : logical.Stamped)
    (hprocess : logical.processCommand R L O N carried = some (answer, logical')) : logical'.Stamped := by
  unfold LogicalGateway.processCommand LogicalGateway.nextSequence at hprocess
  by_cases hsequence : carried.sequence = logical.expectedSequence
  · rw [if_neg (by simpa using hsequence)] at hprocess
    cases hadd : checkedAdd logical.expectedSequence 1 with
    | none =>
        rw [hadd] at hprocess
        cases hprocess
        exact stamped
    | some next =>
        rw [hadd] at hprocess
        have hnext : next.val = logical.expectedSequence.val + 1 := checkedAdd_eq_some.mp hadd
        have hbook : logical.book.Stamped carried.sequence.val := hsequence ▸ stamped.book
        have hfirst : 1 ≤ carried.sequence.val := hsequence ▸ stamped.first
        have hlater : carried.sequence.val < next.val := by
          rw [hsequence]
          omega
        have wf' : ({ logical with expectedSequence := next } : LogicalGateway).book.WellFormed := wf
        have hkept : logical'.expectedSequence = next ∧ logical'.book.Stamped next.val := by
          cases carried with
          | newOrder order => exact processNewOrder_stamped wf' hbook hfirst hlater hprocess
          | cancelOrder request => exact processCancel_stamped wf' hbook hlater (Option.some.inj hprocess)
          | replaceOrder request => exact processReplace_stamped wf' hbook hfirst hlater (Option.some.inj hprocess)
        refine ⟨?_, ?_⟩
        · rw [hkept.1]
          omega
        · rw [hkept.1]
          exact hkept.2
  · rw [if_pos hsequence] at hprocess
    cases hprocess
    exact stamped

/-- Every call keeps the stamps of the book below the sequence number that is
expected next. -/
theorem call_stamped (stamped : logical.Stamped) (hcall : logical.call R L O call = some (answer, logical')) :
    logical'.Stamped := by
  cases call with
  | command carried reports => exact processCommand_stamped wf stamped hcall
  | frame bytes reports =>
      simp only [LogicalGateway.call, LogicalGateway.processFrame] at hcall
      split at hcall
      · cases hcall
        exact stamped
      · exact processCommand_stamped wf stamped hcall

end Handlers

/-! ### Canonical contents -/

/-- What a restore demands of a content, besides that its resting orders are
within limits. -/
structure LogicalGateway.Canonical (logical : LogicalGateway) : Prop where
  sound : logical.Sound
  stamped : logical.Stamped
  limits : ∀ account ∈ logical.risk.accounts, RiskEngine.invalidLimits account.limits = false

/-- No call changes the terms of an account. -/
theorem Moves.terms (h : Moves N logical command answer logical') : logical'.risk.terms = logical.risk.terms := by
  cases h with
  | malformed error => rfl
  | unsequenced carried hsequence => rfl
  | exhausted carried hsequence hlast => rfl
  | refused hsequence hnext herror hmarked => rfl
  | accepted hsequence hnext haccepted => exact haccepted.booked.terms
  | cancelled hsequence hnext hcancelled => exact hcancelled.rearranged.booked.terms
  | replaced hsequence hnext hreplaced => exact hreplaced.rearranged.booked.terms

/-- Limits stay valid as long as the terms of the accounts stay the same. -/
theorem limits_valid_of_terms {risk risk' : RiskEngineState} (hterms : risk'.terms = risk.terms)
    (h : ∀ account ∈ risk.accounts, RiskEngine.invalidLimits account.limits = false) :
    ∀ account ∈ risk'.accounts, RiskEngine.invalidLimits account.limits = false := by
  intro account haccount
  have hmem : account.terms ∈ risk.terms := hterms ▸ List.mem_map_of_mem haccount
  obtain ⟨other, hother, heq⟩ := List.mem_map.mp hmem
  have hlimits : other.limits = account.limits := congrArg (fun terms => terms.2.1) heq
  rw [← hlimits]
  exact h other hother

/-- The gateway stores a canonical content. -/
def GatewayCanonical (gateway : Gateway A R L O) : Prop :=
  ∃ logical, GatewayRep gateway logical ∧ logical.Canonical

/-- Every call keeps what makes an export acceptable. -/
theorem call_canonical (h : GatewayCanonical gateway) (hcall : gateway.call call = some (answer, gateway')) :
    GatewayCanonical gateway' := by
  obtain ⟨logical, rep, canonical⟩ := h
  obtain ⟨logical', hlogical, rep'⟩ := call_logical rep hcall
  have hmoves := moves_of_call canonical.sound rep.book.wellFormed rep.risk.watermark hlogical
  exact ⟨logical', rep', canonical.sound.moves rep.book.wellFormed hmoves,
    call_stamped rep.book.wellFormed canonical.stamped hlogical, limits_valid_of_terms hmoves.terms canonical.limits⟩

/-- The export of a new gateway is one that a restore accepts. -/
theorem canonical_new {risk : RiskEngine A R} {state : RiskEngineState} (rep : RiskRep risk state)
    (fresh : state.Fresh) (instrument : InstrumentId) : (LogicalGateway.new state instrument).Canonical :=
  ⟨sound_new_gateway rep fresh instrument, ⟨le_refl 1, stamped_new instrument 1⟩,
    fun account haccount => (fresh.accounts account haccount).limits⟩

/-- Every run keeps the property that a restore accepts the export. -/
theorem run_canonical {start : Gateway A R L O} {calls : List GatewayCall} {answers : List GatewayAnswer}
    (h : GatewayCanonical start) (hrun : run Gateway.call start calls = some (answers, gateway)) :
    GatewayCanonical gateway :=
  run_invariant (P := fun _ => True) (fun hcanonical _ hcall => call_canonical hcanonical hcall)
    (fun _ _ => trivial) h hrun

/-- The export of every gateway that a run reaches is one that a restore
accepts. -/
theorem Reached.canonical (h : Reached gateway) : GatewayCanonical gateway := by
  obtain ⟨risk, instrument, calls, answers, hconfigured, hrun⟩ := h
  obtain ⟨state, rep, fresh⟩ := hconfigured.ledger
  exact run_canonical ⟨_, gatewayRep_new rep instrument, canonical_new rep fresh instrument⟩ hrun

/-! ### Export -/

/-- The state a content is exported as. -/
def LogicalGateway.state (L O : Nat) (logical : LogicalGateway) : GatewayState L O :=
  ⟨logical.book.instrument, logical.book.state L O, logical.risk, logical.expectedSequence,
    logical.maximumReceivedOrderId⟩

/-- The content a state describes. -/
def GatewayState.content (state : GatewayState L O) : LogicalGateway :=
  ⟨state.risk, state.book.content, state.expectedSequence, state.maximumReceivedOrderId⟩

/-- What a gateway exports depends on its content only. -/
theorem GatewayRep.exportState_eq (rep : GatewayRep gateway logical) : gateway.exportState = logical.state L O := by
  unfold Gateway.exportState LogicalGateway.state
  rw [HftEngine.exportState_eq rep.book, rep.risk.exportState_eq, rep.expectedSequence, rep.maximumReceivedOrderId]
  rfl

/-- The export of a gateway holds the logical state it represents. -/
theorem content_gatewayState (rep : GatewayRep gateway logical) : (logical.state L O).content = logical := by
  unfold LogicalGateway.state GatewayState.content
  rw [content_state rep.book.bounded]

/-- What is restored has the content of the state, and exports the state
again. -/
theorem gatewayRep_of_fromState {state : GatewayState L O} (h : Gateway.fromState state = .ok restored) :
    GatewayRep restored state.content ∧ restored.exportState = state := by
  unfold Gateway.fromState at h
  split at h
  · cases h
  rename_i book hbook
  split at h
  · cases h
  rename_i risk hrisk
  obtain ⟨_, _, hpure⟩ := bind_eq_ok.mp h
  cases hpure
  obtain ⟨hinstrument, valid, represents⟩ := represents_of_fromState hbook
  have rep : GatewayRep ⟨risk, book, state.expectedSequence, state.maximumReceivedOrderId⟩ state.content :=
    ⟨(riskRep_of_fromState hrisk).2, represents, rfl, rfl⟩
  refine ⟨rep, ?_⟩
  rw [rep.exportState_eq, LogicalGateway.state]
  simp only [GatewayState.content]
  rw [valid.state_content]
  exact congrArg (fun instrument => GatewayState.mk instrument _ _ _ _) hinstrument

/-! ### Restored gateways -/

/-- One call and everything that can be seen of it: the outcome, the reports
and the state exported after it. -/
def Gateway.observed (gateway : Gateway A R L O) (call : GatewayCall) :
    Option ((GatewayAnswer × GatewayState L O) × Gateway A R L O) :=
  (gateway.call call).map fun (answer, gateway) => ((answer, gateway.exportState), gateway)

/-- Two gateways with the same content. -/
def SameContent (gateway gateway' : Gateway A R L O) : Prop :=
  ∃ logical, GatewayRep gateway logical ∧ GatewayRep gateway' logical

/-- Gateways with the same content have the same export. -/
theorem SameContent.exportState_eq (h : SameContent gateway gateway') :
    gateway.exportState = gateway'.exportState := by
  obtain ⟨logical, rep, rep'⟩ := h
  rw [rep.exportState_eq, rep'.exportState_eq]

/-- Gateways with the same content show the same and keep the same content. -/
theorem SameContent.observed (h : SameContent gateway gateway') (call : GatewayCall) :
    Option.Rel (fun first second => first.1 = second.1 ∧ SameContent first.2 second.2) (gateway.observed call)
      (gateway'.observed call) := by
  obtain ⟨logical, rep, rep'⟩ := h
  have hcalls := rel_common (call_refines rep call) (call_refines rep' call)
  unfold Gateway.observed
  generalize gateway.call call = first at hcalls
  generalize gateway'.call call = second at hcalls
  cases hcalls with
  | none => exact .none
  | some hcall => exact .some ⟨Prod.ext hcall.1 (SameContent.exportState_eq hcall.2), hcall.2⟩

/-- A gateway and its restored copy have the same content. -/
theorem sameContent_of_fromState (rep : GatewayRep gateway logical)
    (hrestored : Gateway.fromState gateway.exportState = .ok restored) : SameContent gateway restored := by
  obtain ⟨rep', _⟩ := gatewayRep_of_fromState hrestored
  rw [rep.exportState_eq, content_gatewayState rep] at rep'
  exact ⟨logical, rep, rep'⟩

/-- Gateways with the same content cannot be told apart. -/
theorem SameContent.run_observed (h : SameContent gateway restored) (calls : List GatewayCall) :
    (run Gateway.observed gateway calls).map Prod.fst = (run Gateway.observed restored calls).map Prod.fst :=
  rel_outputs (run_rel (R := SameContent) (fun call hsame => hsame.observed call) calls h)

/-- A gateway restored from what a reachable gateway exports cannot be told
from it: every sequence of calls shows the same outcomes, reports and states on
both. -/
theorem restored_gateway_indistinguishable (h : Reached gateway)
    (hrestored : Gateway.fromState gateway.exportState = .ok restored) (calls : List GatewayCall) :
    (run Gateway.observed gateway calls).map Prod.fst = (run Gateway.observed restored calls).map Prod.fst := by
  obtain ⟨logical, rep, _⟩ := h.sound
  exact (sameContent_of_fromState rep hrestored).run_observed calls

/-- A gateway with one offer and its restored copy show the same when the offer
is amended. -/
theorem restored_gateway_indistinguishable_sample : ∃ answers gateway, ∃ restored : Gateway 1 1 1 1,
    run Gateway.call tightGateway ((amendedOffer (i64 15) 8).take 1) = some (answers, gateway) ∧
    Gateway.fromState gateway.exportState = .ok restored ∧
    (run Gateway.observed gateway ((amendedOffer (i64 15) 8).drop 1)).map Prod.fst
      = (run Gateway.observed restored ((amendedOffer (i64 15) 8).drop 1)).map Prod.fst := by
  obtain ⟨⟨answers, gateway⟩, hrun, hok⟩ := exists_of_any
    (run Gateway.call tightGateway ((amendedOffer (i64 15) 8).take 1))
    (fun result => (Gateway.fromState result.2.exportState :
      Except GatewayStateError (Gateway 1 1 1 1)).toOption.isSome = true) (by decide +kernel)
  cases hrestored : (Gateway.fromState gateway.exportState : Except GatewayStateError (Gateway 1 1 1 1)) with
  | error => rw [hrestored] at hok; cases hok
  | ok restored =>
      have hreached : Reached gateway := ⟨_, 7, _, answers, .registerAccount _ _ .new, hrun⟩
      exact ⟨answers, gateway, restored, hrun, hrestored, restored_gateway_indistinguishable hreached hrestored _⟩

/-! ### Which states are restored -/

/-- A stored order at a positive price passes the limit check exactly when the
limits admit it: the product of a price and a quantity never leaves 128
bits. -/
theorem withinOrderLimits_iff {limits : RiskLimits} {order : BookOrderState} (hprice : 0 < order.price.val) :
    Gateway.withinOrderLimits limits order = true ↔ limits.Admits order.price order.quantity := by
  have hupper := order.price.upper
  obtain ⟨price, hprice'⟩ : ∃ price : U128, order.price.val = price.val := by
    refine ⟨⟨order.price.val.toNat, ?_⟩, ?_⟩
    · norm_num at hupper
      omega
    · simp only
      omega
  have hbound : price.val * order.quantity.val < 2 ^ 128 := by
    have hquantity := order.quantity.isLt
    have hless : price.val < 2 ^ 63 := by
      norm_num at hupper ⊢
      omega
    calc price.val * order.quantity.val < 2 ^ 63 * 2 ^ 64 := Nat.mul_lt_mul'' hless hquantity
      _ ≤ 2 ^ 128 := by norm_num
  have hnotional : Gateway.orderNotional order = some ⟨price.val * order.quantity.val, hbound⟩ := by
    rw [Gateway.orderNotional, unsignedOf_eq_some.mpr hprice']
    exact checkedMul_eq_some.mpr rfl
  have hproduct : ((price.val * order.quantity.val : Nat) : Int) = order.price.val * order.quantity.val := by
    rw [hprice']
    push_cast
    rfl
  simp only [Gateway.withinOrderLimits, hnotional, Bool.and_eq_true, decide_eq_true_eq]
  constructor
  · rintro ⟨⟨⟨hsize, hlow⟩, hhigh⟩, hmost⟩
    refine ⟨hsize, hlow, hhigh, ?_⟩
    rw [← hproduct]
    exact_mod_cast hmost
  · intro hadmits
    refine ⟨⟨⟨hadmits.size, hadmits.low⟩, hadmits.high⟩, ?_⟩
    have hmost := hadmits.notional
    rw [← hproduct] at hmost
    exact_mod_cast hmost

/-- The orders of an export pass exactly when each of them does. -/
theorem validateBookOrders_ok_iff {state : GatewayState L O} {orders : List BookOrderState} :
    Gateway.validateBookOrders state orders = .ok () ↔
      ∀ order ∈ orders, Gateway.validateBookOrder state order = .ok () := by
  induction orders with
  | nil => simp [Gateway.validateBookOrders]
  | cons order rest ih =>
      rw [Gateway.validateBookOrders, bind_eq_ok, List.forall_mem_cons, ← ih]
      constructor
      · rintro ⟨_, hfirst, hrest⟩
        exact ⟨hfirst, hrest⟩
      · rintro ⟨hfirst, hrest⟩
        exact ⟨(), hfirst, hrest⟩

/-- The state of a well-formed, sound and stamped book passes validation. -/
theorem stateValid_of_content {content : LogicalBook} {next : Nat} (bounded : content.Bounded L O)
    (wf : content.WellFormed) (sound : content.Sound) (stamped : content.Stamped next) :
    StateValid (content.state L O) := by
  have hentry : ∀ side, ∀ level ∈ content.levels side, ∀ order ∈ level.2,
      (side, level.1, order) ∈ content.orders := fun side level hlevel order horder =>
    mem_orders.mpr ⟨level.2, hlevel, horder⟩
  have horders : (content.state L O).orders = content.orders.map entryState := orders_state bounded
  refine ⟨bounded.levels .buy, bounded.levels .sell, ?_, ?_, ?_, ?_, ?_, ?_, ?_⟩
  · intro side level hlevel
    rw [activeSide_state bounded] at hlevel
    obtain ⟨⟨price, queue⟩, hqueue, rfl⟩ := List.mem_map.mp hlevel
    have hlength := bounded.queues side _ hqueue
    have hoccupied := wf.occupied side _ hqueue
    obtain ⟨first, hfirst⟩ := List.exists_mem_of_ne_nil _ hoccupied
    have hactive : (levelState O side (price, queue)).active = queue.map (orderState side price) :=
      active_levelState hlength
    refine ⟨rfl, sound.prices _ (hentry side _ hqueue first hfirst), ?_, hlength, ?_, ?_, ?_⟩
    · simpa [levelState] using hoccupied
    · intro order horder
      rw [hactive] at horder
      obtain ⟨resting, hresting, rfl⟩ := List.mem_map.mp horder
      have hmem := hentry side _ hqueue resting hresting
      have hrange : 1 ≤ resting.sequence.val := (stamped.range hmem).1
      exact ⟨rfl, rfl, sound.quantities _ hmem, by simp only [orderState]; omega⟩
    · rw [hactive, List.isChain_map]
      have hsorted := (stamped.queued side _ hqueue).1
      rw [stamps, List.pairwise_map] at hsorted
      exact hsorted.isChain
    · exact fun order horder => eq_padding_of_padTo (List.length_map _) hlength horder
  · intro side
    rw [← levels_content, content_state bounded]
    exact wf.sorted side
  · exact fun level hlevel => eq_padding_of_padTo (List.length_map _) (bounded.levels .buy) hlevel
  · exact fun level hlevel => eq_padding_of_padTo (List.length_map _) (bounded.levels .sell) hlevel
  · have hbids : (content.state L O).activeBids = content.bids.map (levelState O .buy) :=
      show (content.state L O).activeSide .buy = _ from activeSide_state bounded
    have hasks : (content.state L O).activeAsks = content.asks.map (levelState O .sell) :=
      show (content.state L O).activeSide .sell = _ from activeSide_state bounded
    simp only [OrderBook.crossedState, hbids, hasks, List.head?_map]
    cases hbid : content.bids.head? with
    | none => rfl
    | some bid =>
        cases hask : content.asks.head? with
        | none => rfl
        | some ask =>
            have hbid' : bid ∈ content.levels .buy := List.mem_of_head? hbid
            have hask' : ask ∈ content.levels .sell := List.mem_of_head? hask
            obtain ⟨buyer, hbuyer⟩ := List.exists_mem_of_ne_nil _ (wf.occupied .buy bid hbid')
            obtain ⟨seller, hseller⟩ := List.exists_mem_of_ne_nil _ (wf.occupied .sell ask hask')
            have hclear := sound.uncrossed _ (hentry .buy bid hbid' buyer hbuyer) _
              (hentry .sell ask hask' seller hseller) rfl rfl
            simpa [levelState] using hclear
  · rw [horders, List.map_map]
    exact wf.ids
  · rw [horders, List.map_map]
    exact stamped.distinct

section Validation

variable (canonical : logical.Canonical)
include canonical

/-- A resting order of a canonical content passes every check but the one on
its limits. -/
theorem validateBookOrder_ok_iff (rep : GatewayRep gateway logical) {entry : BookEntry}
    (hentry : entry ∈ logical.book.orders) :
    Gateway.validateBookOrder (logical.state L O) (entryState entry) = .ok () ↔
      ∃ account, logical.risk.account entry.2.2.account = some account ∧
        account.limits.Admits entry.2.1 entry.2.2.quantity := by
  have hreservation := canonical.sound.reservation_of_mem hentry
  obtain ⟨maximum, hmaximum, hle⟩ := rep.risk.watermark _ (reservation_eq_some hreservation).1
  obtain ⟨received, hreceived, hle'⟩ := canonical.sound.marks maximum hmaximum
  have hwatermark : aboveWatermark logical.maximumReceivedOrderId entry.2.2.id = false := by
    rw [Option.mem_def] at hreceived
    simp only [aboveWatermark, hreceived, decide_eq_false_iff_not, not_lt]
    exact hle.trans hle'
  have hrange := (canonical.stamped.book.range hentry).2
  have hlimits : ∀ account : AccountState, Gateway.withinOrderLimits account.limits (entryState entry) = true ↔
      account.limits.Admits entry.2.1 entry.2.2.quantity := fun account =>
    withinOrderLimits_iff (canonical.sound.book.prices entry hentry)
  unfold Gateway.validateBookOrder
  rw [if_neg (by simpa [entryState, orderState, LogicalGateway.state] using hrange),
    if_neg (by simpa [entryState, orderState, LogicalGateway.state] using hwatermark)]
  rw [show (logical.state L O).risk.reservations.find? (fun reservation => reservation.orderId = (entryState entry).orderId)
    = some (claimOf entry) from hreservation]
  simp only
  rw [if_neg (by simp [claimOf, entryState, orderState])]
  rw [show (logical.state L O).risk.accounts.find? (fun account => account.id = (entryState entry).accountId)
    = logical.risk.account entry.2.2.account from rfl]
  cases haccount : logical.risk.account entry.2.2.account with
  | none => simp
  | some account =>
      simp only [Option.some.injEq, exists_eq_left', ← hlimits account]
      split
      · rename_i hwithin
        simp [hwithin]
      · rename_i hwithin
        simp [hwithin]

/-- A canonical content passes the checks across its components exactly when
its orders are within limits. -/
theorem validateCrossComponentState_ok_iff (rep : GatewayRep gateway logical) :
    Gateway.validateCrossComponentState (logical.state L O) = .ok () ↔ logical.WithinLimits := by
  have horders : (logical.state L O).book.orders = logical.book.orders.map entryState := by
    rw [← orders_exportState rep.book, HftEngine.exportState_eq rep.book]
    rfl
  have hsequence : (logical.state L O).expectedSequence.val ≠ 0 := by
    have := canonical.stamped.first
    simp only [LogicalGateway.state]
    omega
  have hmarks : Gateway.watermarkExceeds (logical.state L O).risk.maximumOrderId
      (logical.state L O).maximumReceivedOrderId = false := by
    simp only [LogicalGateway.state]
    cases hreserved : logical.risk.maximumOrderId with
    | none => rfl
    | some reserved =>
        obtain ⟨received, hreceived, hle⟩ := canonical.sound.marks reserved hreserved
        rw [Option.mem_def] at hreceived
        simpa [Gateway.watermarkExceeds, hreceived] using hle
  have hcount : (logical.state L O).book.orders.length = (logical.state L O).risk.reservations.length := by
    have hlength := canonical.sound.ledger.length_eq
    rw [List.length_map] at hlength
    rw [horders, List.length_map]
    exact hlength.symm
  rw [Gateway.validateCrossComponentState, if_neg hsequence, if_neg (by simp [hmarks]), bind_eq_ok]
  rw [if_neg (not_not_intro hcount), horders]
  have hchecks : Gateway.validateBookOrders (logical.state L O) (logical.book.orders.map entryState) = .ok () ↔
      logical.WithinLimits := by
    rw [validateBookOrders_ok_iff, List.forall_mem_map]
    exact forall₂_congr fun entry hentry => validateBookOrder_ok_iff canonical rep hentry
  rw [← hchecks]
  constructor
  · rintro ⟨_, hok, _⟩
    exact hok
  · intro hok
    exact ⟨(), hok, rfl⟩

/-- The book of a canonical content passes validation. -/
theorem stateValid_of_canonical (rep : GatewayRep gateway logical) : StateValid (logical.book.state L O) :=
  stateValid_of_content rep.book.bounded rep.book.wellFormed canonical.sound.book canonical.stamped.book

/-- The ledger of a canonical content passes validation. -/
theorem riskStateValid_of_canonical (rep : GatewayRep gateway logical) : RiskStateValid A R logical.risk := by
  have hlength : ∀ {α : Type} {n : Nat} (f : Nat → Option α), (SlotArena.contents n f).length ≤ n := by
    intro α n f
    exact (List.length_filterMap_le _ _).trans (by simp)
  have consistent := canonical.sound.risk
  refine ⟨?_, ?_, rep.risk.accountsSorted, rep.risk.reservationsSorted, canonical.limits, ?_, rep.risk.watermark,
    consistent.owners, consistent.balanced⟩
  · rw [← rep.risk.accounts.length_eq]
    exact hlength _
  · rw [← rep.risk.reservations.length_eq]
    exact hlength _
  · intro record hrecord
    obtain ⟨entry, hentry, rfl⟩ := List.mem_map.mp (canonical.sound.ledger.subset hrecord)
    exact canonical.sound.book.quantities entry hentry

/-- The book and the ledger of a canonical gateway are restored, each on its
own. -/
theorem components_restored (rep : GatewayRep gateway logical) :
    (∃ book : OrderBook L O, OrderBook.fromState logical.book.instrument (logical.book.state L O) = .ok book) ∧
      ∃ risk : RiskEngine A R, RiskEngine.fromState logical.risk = .ok risk := by
  constructor
  · obtain ⟨book, hbook, _⟩ := fromState_of_valid (stateValid_of_canonical canonical rep) (by
      rw [content_state rep.book.bounded]
      obtain ⟨views, bookRep, hviews⟩ := rep.book
      rw [← hviews]
      exact bookRep.fitsIndex _)
    exact ⟨book, hbook⟩
  · obtain ⟨risk, hrisk, _⟩ := riskEngine_fromState_of_valid (riskStateValid_of_canonical canonical rep)
      rep.risk.fitsAccounts rep.risk.fitsReservations
    exact ⟨risk, hrisk⟩

/-- What a canonical gateway exports is restored exactly when its orders are
within limits. -/
theorem fromState_state_iff (rep : GatewayRep gateway logical) :
    (∃ restored : Gateway A R L O, Gateway.fromState (logical.state L O) = .ok restored) ↔ logical.WithinLimits := by
  obtain ⟨⟨book, hbook⟩, risk, hrisk⟩ := components_restored canonical rep
  have hstored : OrderBook.fromState (logical.state L O).instrument (logical.state L O).book = .ok book := hbook
  have hstored' : RiskEngine.fromState (logical.state L O).risk = .ok risk := hrisk
  rw [← validateCrossComponentState_ok_iff canonical rep]
  unfold Gateway.fromState
  rw [hstored, hstored']
  constructor
  · rintro ⟨_, hok⟩
    obtain ⟨_, hcross, _⟩ := bind_eq_ok.mp hok
    exact hcross
  · intro hcross
    exact ⟨_, bind_eq_ok.mpr ⟨(), hcross, rfl⟩⟩

end Validation

/-! ### What is restored is canonical -/

/-- An entry of the content of a valid state is an order of one of its
levels. -/
theorem StateValid.entry {state : BookState L O} (valid : StateValid state) {entry : BookEntry}
    (hentry : entry ∈ state.content.orders) :
    0 < entry.2.1.val ∧ entry.2.2.quantity.val ≠ 0 ∧ entry.2.2.sequence.val ≠ 0 := by
  obtain ⟨side, price, order⟩ := entry
  obtain ⟨queue, hlevel, horder⟩ := mem_orders.mp hentry
  rw [levels_content] at hlevel
  obtain ⟨level, hmem, hview⟩ := List.mem_map.mp hlevel
  cases hview
  have levelValid := valid.levels side level hmem
  obtain ⟨stored, hstored, rfl⟩ := List.mem_map.mp horder
  obtain ⟨_, _, hquantity, hsequence⟩ := levelValid.orders stored hstored
  exact ⟨levelValid.price_pos, hquantity, hsequence⟩

/-- Two listed sides are crossed exactly when their first levels are. -/
theorem crossedState_cons {state : BookState L O} {bid ask : BookLevelState O} {bids asks : List (BookLevelState O)}
    (hbuys : state.activeSide .buy = bid :: bids) (hsells : state.activeSide .sell = ask :: asks) :
    OrderBook.crossedState state = decide (ask.price.val ≤ bid.price.val) := by
  have hbids : state.activeBids = bid :: bids := hbuys
  have hasks : state.activeAsks = ask :: asks := hsells
  simp only [OrderBook.crossedState, hbids, hasks, List.head?_cons]

/-- The best prices of a valid state do not cross, and no other prices do
either. -/
theorem StateValid.sound_content {state : BookState L O} (valid : StateValid state) : state.content.Sound := by
  refine ⟨fun entry hentry => (valid.entry hentry).1, fun entry hentry => (valid.entry hentry).2.1, ?_⟩
  rintro ⟨_, bidPrice, bid⟩ hbid ⟨_, askPrice, ask⟩ hask rfl rfl
  obtain ⟨bidQueue, hbidLevel, _⟩ := mem_orders.mp hbid
  obtain ⟨askQueue, haskLevel, _⟩ := mem_orders.mp hask
  rw [levels_content] at hbidLevel haskLevel
  have hbids := valid.sorted .buy
  have hasks := valid.sorted .sell
  have hcrossed := valid.uncrossed
  cases hbuys : state.activeSide .buy with
  | nil =>
      rw [hbuys] at hbidLevel
      cases hbidLevel
  | cons firstBid restBids =>
      cases hsells : state.activeSide .sell with
      | nil =>
          rw [hsells] at haskLevel
          cases haskLevel
      | cons firstAsk restAsks =>
          rw [crossedState_cons hbuys hsells, decide_eq_false_iff_not, not_le] at hcrossed
          rw [hbuys] at hbidLevel hbids
          rw [hsells] at haskLevel hasks
          have hbest : bidPrice.val ≤ firstBid.price.val := by
            rcases List.mem_cons.mp hbidLevel with heq | hrest
            · cases heq
              exact le_rfl
            · have hworse := (List.pairwise_cons.mp hbids).1 _ hrest
              simp only [LevelIndex.precedes, Side.descending, decide_true, if_true, decide_eq_true_eq] at hworse
              exact hworse.le
          have hbest' : firstAsk.price.val ≤ askPrice.val := by
            rcases List.mem_cons.mp haskLevel with heq | hrest
            · cases heq
              exact le_rfl
            · have hworse := (List.pairwise_cons.mp hasks).1 _ hrest
              have hascending : Side.sell.descending = false := rfl
              simp only [LevelIndex.precedes, hascending, Bool.false_eq_true, if_false, decide_eq_true_eq] at hworse
              exact hworse.le
          simp only
          omega
/-- What the checks across the components establish for one stored order. -/
theorem of_validateBookOrder {state : GatewayState L O} {order : BookOrderState}
    (h : Gateway.validateBookOrder state order = .ok ()) :
    order.sequence.val < state.expectedSequence.val ∧
      (⟨order.orderId, order.accountId, order.side, order.quantity⟩ : ReservationRiskState) ∈
        state.risk.reservations := by
  unfold Gateway.validateBookOrder at h
  split at h
  · cases h
  rename_i hsequence
  split at h
  · cases h
  split at h
  · cases h
  rename_i reservation hfind
  split at h
  · cases h
  rename_i hmatches
  have hid : reservation.orderId = order.orderId := by simpa using List.find?_some hfind
  simp only [not_or, not_not] at hmatches
  obtain ⟨haccount, hside, hquantity⟩ := hmatches
  refine ⟨by omega, ?_⟩
  rw [← hid, ← haccount, ← hside, ← hquantity]
  exact List.mem_of_find?_eq_some hfind

/-- Whatever state a gateway is restored from, its content is canonical. -/
theorem canonical_of_fromState {state : GatewayState L O} (h : Gateway.fromState state = .ok restored) :
    GatewayCanonical restored := by
  obtain ⟨rep, hexport⟩ := gatewayRep_of_fromState h
  refine ⟨state.content, rep, ?_⟩
  unfold Gateway.fromState at h
  split at h
  · cases h
  rename_i book hbook
  split at h
  · cases h
  rename_i risk hrisk
  obtain ⟨_, hcross, _⟩ := bind_eq_ok.mp h
  obtain ⟨_, valid, _⟩ := represents_of_fromState hbook
  obtain ⟨riskValid, _⟩ := riskRep_of_fromState hrisk
  have horders : state.book.orders = state.content.book.orders.map entryState := by
    rw [← orders_exportState rep.book]
    exact congrArg (fun state => state.book.orders) hexport.symm
  unfold Gateway.validateCrossComponentState at hcross
  split at hcross
  · cases hcross
  rename_i hfirst
  split at hcross
  · cases hcross
  rename_i hmarks
  obtain ⟨_, hchecks, hcount⟩ := bind_eq_ok.mp hcross
  split at hcount
  · cases hcount
  rename_i hlengths
  have hchecked : ∀ entry ∈ state.content.book.orders, entry.2.2.sequence.val < state.expectedSequence.val ∧
      claimOf entry ∈ state.risk.reservations := by
    intro entry hentry
    refine @of_validateBookOrder L O state (entryState entry) (validateBookOrders_ok_iff.mp hchecks _ ?_)
    rw [horders]
    exact List.mem_map_of_mem hentry
  have hledger : state.risk.reservations.Perm (state.content.book.orders.map claimOf) := by
    have hnodup : (state.content.book.orders.map claimOf).Nodup := by
      refine List.Nodup.of_map ReservationRiskState.orderId ?_
      rw [List.map_map]
      exact rep.book.wellFormed.ids
    have hsubset : state.content.book.orders.map claimOf ⊆ state.risk.reservations := by
      intro record hrecord
      obtain ⟨entry, hentry, rfl⟩ := List.mem_map.mp hrecord
      exact (hchecked entry hentry).2
    refine ((List.subperm_of_subset hnodup hsubset).perm_of_length_le ?_).symm
    rw [not_not, horders] at hlengths
    rw [List.length_map, ← hlengths, List.length_map]
  refine ⟨⟨⟨riskValid.accountsSorted.nodup_words, riskValid.reservationsSorted.nodup_words,
    riskValid.balanced, riskValid.owners⟩, valid.sound_content, hledger, ?_⟩, ⟨?_, ?_, ?_⟩, riskValid.limits⟩
  · intro reserved hreserved
    simp only [GatewayState.content, Option.mem_def] at hreserved
    rw [hreserved] at hmarks
    cases hreceived : state.maximumReceivedOrderId with
    | none =>
        rw [hreceived] at hmarks
        exact absurd rfl hmarks
    | some received =>
        rw [hreceived] at hmarks
        refine ⟨received, hreceived, ?_⟩
        simpa [Gateway.watermarkExceeds] using hmarks
  · exact Nat.one_le_iff_ne_zero.mpr hfirst
  · intro side level hlevel
    have hentry : ∀ order ∈ level.2, (side, level.1, order) ∈ state.content.book.orders := fun order horder =>
      mem_orders.mpr ⟨level.2, hlevel, horder⟩
    refine ⟨?_, fun stamp hstamp => ?_⟩
    · change level ∈ state.book.content.levels side at hlevel
      rw [levels_content] at hlevel
      obtain ⟨stored, hstored, rfl⟩ := List.mem_map.mp hlevel
      have hchain := (valid.levels side stored hstored).sequences
      have htrans : IsTrans BookOrderState fun first second => first.sequence.val < second.sequence.val :=
        ⟨fun _ _ _ => lt_trans⟩
      rw [List.isChain_iff_pairwise] at hchain
      simp only [stamps, BookLevelState.view, List.map_map]
      rw [List.pairwise_map]
      exact hchain
    · obtain ⟨order, horder, rfl⟩ := List.mem_map.mp hstamp
      have hrange := (hchecked _ (hentry order horder)).1
      exact ⟨Nat.one_le_iff_ne_zero.mpr (valid.entry (hentry order horder)).2.2, hrange⟩
  · have hsequences := valid.sequences
    rw [horders, List.map_map] at hsequences
    exact hsequences

end HftEngine
