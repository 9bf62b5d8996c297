/-
Module: HftEngine.Proofs.GatewayHistory
Layer: Proofs
Purpose: What the calls and answers of a run say about the state it reaches.
  Settled positions are the executed trades, the quantity of every order is
  accounted for from its acceptance to its end, and an order that has ended
  stays ended.
Imports: HftEngine.Proofs.GatewayInvariant
Trusted boundary: none (fully proved)
Main exports: acceptedOrders, ownerIn, tradedQuantity, Explained,
  gateway_positions_explained, flow, Finished, order_lifecycle
-/
import HftEngine.Proofs.GatewayInvariant

namespace HftEngine

open Machine Transition KeyedList

variable {A R L O N : Nat} {gateway gateway' : Gateway A R L O} {logical logical' : LogicalGateway}
  {command : Option Command} {answer : GatewayAnswer} {call : GatewayCall} {order : NewOrder}
  {fills : List ModelFill} {entries : List BookEntry}

/-! ### Histories -/

/-- The calls of a run with their answers. -/
abbrev History := List (GatewayCall × GatewayAnswer)

variable {history : History}

/-- The new order of an accepted call. -/
def acceptedOrder (event : GatewayCall × GatewayAnswer) : Option NewOrder :=
  match event.1.command?, event.2.result with
  | some (.newOrder order), .ok _ => some order
  | _, _ => none

/-- The new orders a run has accepted. -/
def acceptedOrders (history : History) : List NewOrder := history.filterMap acceptedOrder

/-- The execution reports a run has emitted. -/
def reportsOf (history : History) : List ExecutionReport := history.flatMap fun event => event.2.reports

/-- Account and side of an accepted order. -/
def ownerIn (history : History) (id : OrderId) : Option (AccountId × Side) :=
  ((acceptedOrders history).find? fun order => order.orderId = id).map fun order => (order.accountId, order.side)

/-- The report quantities of an account's orders on one side, as maker and as
taker. -/
def tradedQuantity (history : History) (id : AccountId) (side : Side) : Nat :=
  ((reportsOf history).map fun report =>
    (if ownerIn history report.makerOrderId = some (id, side) then report.quantity.val else 0) +
      if ownerIn history report.takerOrderId = some (id, side) then report.quantity.val else 0).sum

theorem acceptedOrders_append {more : History} :
    acceptedOrders (history ++ more) = acceptedOrders history ++ acceptedOrders more := by
  simp [acceptedOrders]

theorem reportsOf_append {more : History} : reportsOf (history ++ more) = reportsOf history ++ reportsOf more := by
  simp [reportsOf]

/-- Known owners stay known. -/
theorem ownerIn_append {more : History} {id : OrderId} {found : AccountId × Side}
    (h : ownerIn history id = some found) : ownerIn (history ++ more) id = some found := by
  unfold ownerIn at h ⊢
  rw [acceptedOrders_append, List.find?_append]
  cases hfind : (acceptedOrders history).find? fun order => order.orderId = id with
  | none =>
      rw [hfind] at h
      cases h
  | some order =>
      rw [hfind] at h
      exact h

/-- Only a new order adds to the accepted ones. -/
theorem acceptedOrder_of_moves (h : Moves N logical call.command? answer logical') :
    (∃ order account summary fills resting discarded, acceptedOrder (call, answer) = some order ∧
        call.command? = some (.newOrder order) ∧
        Accepted N logical logical' order answer account summary fills resting discarded) ∨
      (acceptedOrder (call, answer) = none ∧ answer.reports = [] ∧
        ∀ order, call.command? = some (.newOrder order) → ∃ error, answer.result = .error error) := by
  unfold acceptedOrder
  generalize call.command? = carried at h ⊢
  cases h with
  | malformed error => exact .inr ⟨rfl, rfl, by simp⟩
  | unsequenced command => exact .inr ⟨by cases command <;> rfl, rfl, fun _ _ => ⟨_, rfl⟩⟩
  | exhausted command => exact .inr ⟨by cases command <;> rfl, rfl, fun _ _ => ⟨_, rfl⟩⟩
  | refused => exact .inr ⟨by split <;> simp_all, rfl, fun _ _ => ⟨_, rfl⟩⟩
  | accepted _ _ haccepted =>
      refine .inl ⟨_, _, _, _, _, _, ?_, rfl, haccepted⟩
      rw [haccepted.answer_eq]
  | cancelled _ _ hcancelled => exact .inr ⟨rfl, by rw [hcancelled.answer_eq], by simp⟩
  | replaced _ _ hreplaced => exact .inr ⟨rfl, by rw [hreplaced.answer_eq], by simp⟩

/-! ### Positions -/

/-- What a history says about the content of a gateway. -/
structure Explained (history : History) (logical : LogicalGateway) : Prop where
  owners : ∀ entry ∈ logical.book.orders, ownerIn history entry.2.2.id = some (entry.2.2.account, entry.1)
  received : ∀ order ∈ acceptedOrders history, ∃ maximum ∈ logical.maximumReceivedOrderId,
    order.orderId.val ≤ maximum.val
  ids : ((acceptedOrders history).map NewOrder.orderId).Nodup
  reported : ∀ report ∈ reportsOf history, (ownerIn history report.makerOrderId).isSome ∧
    (ownerIn history report.takerOrderId).isSome
  position : ∀ id, logical.risk.position id = ((reportsOf history).map (explained (ownerIn history) id)).sum
  total : logical.risk.settledTotal = 0

/-- Owners that stay known explain old reports as before. -/
theorem explained_append {more : History} (id : AccountId)
    (h : ∀ report ∈ reportsOf history, (ownerIn history report.makerOrderId).isSome ∧
      (ownerIn history report.takerOrderId).isSome) :
    (reportsOf history).map (explained (ownerIn (history ++ more)) id)
      = (reportsOf history).map (explained (ownerIn history) id) := by
  refine List.map_congr_left fun report hreport => ?_
  obtain ⟨hmaker, htaker⟩ := h report hreport
  obtain ⟨maker, hmaker⟩ := Option.isSome_iff_exists.mp hmaker
  obtain ⟨taker, htaker⟩ := Option.isSome_iff_exists.mp htaker
  simp only [explained, share, hmaker, htaker, ownerIn_append hmaker, ownerIn_append htaker]

theorem isSome_ownerIn_append {more : History} {id : OrderId} (h : (ownerIn history id).isSome) :
    (ownerIn (history ++ more) id).isSome := by
  obtain ⟨found, hfound⟩ := Option.isSome_iff_exists.mp h
  rw [ownerIn_append hfound]
  rfl

/-- A move without an accepted order explains the next state by the same orders
and reports. -/
theorem Explained.unchanged (h : Explained history logical) {event : GatewayCall × GatewayAnswer}
    (hnone : acceptedOrder event = none) (hreports : event.2.reports = [])
    (howners : ∀ entry ∈ logical'.book.orders, ∃ old ∈ logical.book.orders, old.2.2.id = entry.2.2.id ∧
      old.2.2.account = entry.2.2.account ∧ old.1 = entry.1)
    (hreceived : ∀ maximum ∈ logical.maximumReceivedOrderId, ∃ maximum' ∈ logical'.maximumReceivedOrderId,
      maximum.val ≤ maximum'.val)
    (hposition : ∀ id, logical'.risk.position id = logical.risk.position id)
    (htotal : logical'.risk.settledTotal = logical.risk.settledTotal) :
    Explained (history ++ [event]) logical' := by
  have haccepted : acceptedOrders (history ++ [event]) = acceptedOrders history := by
    rw [acceptedOrders_append]
    simp [acceptedOrders, hnone]
  have hreported : reportsOf (history ++ [event]) = reportsOf history := by
    rw [reportsOf_append]
    simp [reportsOf, hreports]
  have howner : ownerIn (history ++ [event]) = ownerIn history := by
    funext id
    unfold ownerIn
    rw [haccepted]
  refine ⟨?_, ?_, by rw [haccepted]; exact h.ids, by rw [hreported, howner]; exact h.reported, ?_,
    htotal.trans h.total⟩
  · intro entry hentry
    obtain ⟨old, hold, hid, haccount, hside⟩ := howners entry hentry
    rw [howner, ← hid, ← haccount, ← hside]
    exact h.owners old hold
  · intro order horder
    rw [haccepted] at horder
    obtain ⟨maximum, hmaximum, hle⟩ := h.received order horder
    obtain ⟨maximum', hmaximum', hle'⟩ := hreceived maximum hmaximum
    exact ⟨maximum', hmaximum', hle.trans hle'⟩
  · intro id
    rw [hposition, h.position, hreported, howner]

/-- An accepted order is the owner of its id from then on. -/
theorem ownerIn_accepted (h : Explained history logical) {event : GatewayCall × GatewayAnswer}
    (hevent : acceptedOrder event = some order)
    (hnew : ∀ maximum ∈ logical.maximumReceivedOrderId, maximum.val < order.orderId.val) :
    ownerIn (history ++ [event]) order.orderId = some (order.accountId, order.side) := by
  have habsent : (acceptedOrders history).find? (fun other => other.orderId = order.orderId) = none := by
    rw [List.find?_eq_none]
    intro other hother
    obtain ⟨maximum, hmaximum, hle⟩ := h.received other hother
    have hlt := hnew maximum hmaximum
    simp only [decide_eq_true_eq]
    intro heq
    rw [heq] at hle
    omega
  unfold ownerIn
  rw [acceptedOrders_append, List.find?_append, habsent]
  simp [acceptedOrders, hevent]

/-- The next state after an accepted order. -/
theorem Explained.accepted (h : Explained history logical) (sound : logical.Sound) {event : GatewayCall × GatewayAnswer}
    (hevent : acceptedOrder event = some order) {account : AccountState} {summary : MatchSummary}
    {resting discarded : Quantity}
    (haccepted : Accepted N logical logical' order event.2 account summary fills resting discarded) :
    Explained (history ++ [event]) logical' := by
  have htaker := ownerIn_accepted h hevent haccepted.new
  have howner : ∀ entry ∈ logical.book.orders,
      ownerIn (history ++ [event]) entry.2.2.id = some (entry.2.2.account, entry.1) := fun entry hentry =>
    ownerIn_append (h.owners entry hentry)
  have hreports : event.2.reports = fills.map (reportOf order) := by rw [haccepted.answer_eq]
  have hsubmitted := haccepted.submitted
  have hmakers : ∀ fill ∈ fills, ∃ entry ∈ logical.book.orders, entry.2.2.id = fill.makerOrderId :=
    (hsubmitted.fillable sound.book.quantities).makers
  refine ⟨?_, ?_, ?_, ?_, ?_, haccepted.booked.total.trans h.total⟩
  · intro entry hentry
    rw [hsubmitted.orders.mem_iff, List.mem_append] at hentry
    rcases hentry with hrest | hfilled
    · unfold restEntries at hrest
      split at hrest
      · cases hrest
      · rw [List.mem_singleton.mp hrest]
        exact htaker
    · obtain ⟨old, hold, hside, _, hid, haccount, _⟩ := fillEntries_kept hfilled
      rw [hid, haccount, hside]
      exact howner old hold
  · intro other hother
    refine ⟨order.orderId, haccepted.received, ?_⟩
    rw [acceptedOrders_append, List.mem_append] at hother
    rcases hother with hold | hlast
    · obtain ⟨maximum, hmaximum, hle⟩ := h.received other hold
      exact hle.trans (haccepted.new maximum hmaximum).le
    · simp only [acceptedOrders, List.filterMap_cons, hevent, List.filterMap_nil, List.mem_singleton] at hlast
      rw [hlast]
  · rw [acceptedOrders_append, List.map_append, List.nodup_append]
    refine ⟨h.ids, by simp [acceptedOrders, hevent], ?_⟩
    rintro id hid _ hlast rfl
    simp only [acceptedOrders, List.filterMap_cons, hevent, List.filterMap_nil, List.map_cons, List.map_nil,
      List.mem_singleton] at hlast
    obtain ⟨other, hother, rfl⟩ := List.mem_map.mp hid
    obtain ⟨maximum, hmaximum, hle⟩ := h.received other hother
    have hlt := haccepted.new maximum hmaximum
    rw [hlast] at hle
    omega
  · intro report hreport
    rw [reportsOf_append, List.mem_append] at hreport
    rcases hreport with hold | hnew
    · obtain ⟨hmaker, htaker⟩ := h.reported report hold
      exact ⟨isSome_ownerIn_append hmaker, isSome_ownerIn_append htaker⟩
    · simp only [reportsOf, List.flatMap_cons, List.flatMap_nil, List.append_nil, hreports] at hnew
      obtain ⟨fill, hfill, rfl⟩ := List.mem_map.mp hnew
      obtain ⟨entry, hentry, hid⟩ := hmakers fill hfill
      have hmaker := howner entry hentry
      rw [hid] at hmaker
      simp [reportOf, hmaker, htaker]
  · intro id
    have hbooked := haccepted.booked.position (ownerIn (history ++ [event])) (by
      intro known hknown
      rcases List.mem_cons.mp hknown with rfl | hmaker
      · exact htaker
      · obtain ⟨entry, hentry, rfl⟩ := List.mem_map.mp hmaker
        exact howner entry hentry) id
    rw [hbooked, h.position, reportsOf_append, List.map_append, List.sum_append, explained_append id h.reported]
    simp [reportsOf]

/-- Every move is explained. -/
theorem Explained.moves (h : Explained history logical) (sound : logical.Sound)
    (hmoves : Moves N logical call.command? answer logical') :
    Explained (history ++ [(call, answer)]) logical' := by
  rcases acceptedOrder_of_moves hmoves with
    ⟨order, account, summary, fills, resting, discarded, hevent, _, haccepted⟩ | ⟨hnone, hreports, hrefused⟩
  · exact h.accepted sound hevent haccepted
  have hsame : logical' = logical → Explained (history ++ [(call, answer)]) logical' := by
    rintro rfl
    exact h.unchanged hnone hreports (fun entry hentry => ⟨entry, hentry, rfl, rfl, rfl⟩)
      (fun maximum hmaximum => ⟨maximum, hmaximum, le_rfl⟩) (fun _ => rfl) rfl
  have hrearranged : Rearranged logical logical' → (∀ entry ∈ logical'.book.orders, ∃ old ∈ logical.book.orders,
      old.2.2.id = entry.2.2.id ∧ old.2.2.account = entry.2.2.account ∧ old.1 = entry.1) →
      Explained (history ++ [(call, answer)]) logical' := by
    intro hrearranged howners
    refine h.unchanged hnone hreports howners ?_ (fun id => ?_) hrearranged.booked.total
    · rw [hrearranged.received]
      exact fun maximum hmaximum => ⟨maximum, hmaximum, le_rfl⟩
    · simpa using hrearranged.booked.position (fun _ => none) (by simp) id
  generalize call.command? = carried at hmoves hrefused
  cases hmoves with
  | malformed => exact hsame rfl
  | unsequenced => exact hsame rfl
  | exhausted => exact hsame rfl
  | refused _ _ _ hmarked =>
      refine h.unchanged hnone hreports (fun entry hentry => ⟨entry, hentry, rfl, rfl, rfl⟩) ?_ (fun _ => rfl) rfl
      intro maximum hmaximum
      cases hmarked with
      | kept => exact ⟨maximum, hmaximum, le_rfl⟩
      | received order hnew => exact ⟨order.orderId, rfl, (hnew maximum hmaximum).le⟩
      | reserved order hnew => exact ⟨order.orderId, rfl, (hnew maximum hmaximum).le⟩
  | accepted _ _ haccepted =>
      obtain ⟨error, herror⟩ := hrefused _ rfl
      rw [haccepted.answer_eq] at herror
      cases herror
  | cancelled _ _ hcancelled =>
      refine hrearranged hcancelled.rearranged fun entry hentry => ?_
      rw [hcancelled.orders] at hentry
      exact ⟨entry, (List.mem_filter.mp hentry).1, rfl, rfl, rfl⟩
  | replaced _ _ hreplaced =>
      refine hrearranged hreplaced.rearranged fun entry hentry => ?_
      rw [hreplaced.amended.orders.mem_iff] at hentry
      rcases List.mem_cons.mp hentry with rfl | hkept
      · obtain ⟨hold, hid⟩ := mem_of_find hreplaced.amended.found
        exact ⟨_, hold, hid, hreplaced.amended.owner, rfl⟩
      · exact ⟨entry, (List.mem_filter.mp hkept).1, rfl, rfl, rfl⟩

/-- The content of a gateway next to the history that led to it. -/
def Recorded (P : History → LogicalGateway → Prop) (history : History) (gateway : Gateway A R L O) : Prop :=
  ∃ logical, GatewayRep gateway logical ∧ logical.Sound ∧ P history logical

/-- What every move keeps of history and content holds after every run. -/
theorem recorded_of_run {P : History → LogicalGateway → Prop} {risk : RiskEngine A R}
    (hconfigured : Configured risk) (instrument : InstrumentId) {calls : List GatewayCall}
    {answers : List GatewayAnswer}
    (hrun : run Gateway.call (Gateway.new risk instrument : Gateway A R L O) calls = some (answers, gateway))
    (hstart : ∀ state : RiskEngineState, state.Fresh → P [] (LogicalGateway.new state instrument))
    (hmoves : ∀ {history logical logical' call answer}, P history logical → logical.Sound → logical.book.WellFormed →
      Moves call.capacity logical call.command? answer logical' → P (history ++ [(call, answer)]) logical') :
    Recorded P (calls.zip answers) gateway := by
  obtain ⟨state, rep, fresh⟩ := hconfigured.ledger
  have hlast := run_history (Recorded P)
    (fun {history gateway gateway' call answer} h hcall => by
      obtain ⟨logical, rep, sound, hP⟩ := h
      obtain ⟨logical', rep', hmove⟩ := call_moves rep sound hcall
      exact ⟨logical', rep', sound.moves rep.book.wellFormed hmove,
        hmoves hP sound rep.book.wellFormed hmove⟩)
    [] ⟨_, gatewayRep_new rep instrument, sound_new_gateway rep fresh instrument, hstart state fresh⟩ hrun
  simpa using hlast

theorem position_of_fresh {state : RiskEngineState} (fresh : state.Fresh) (id : AccountId) : state.position id = 0 := by
  unfold RiskEngineState.position
  cases haccount : state.account id with
  | none => rfl
  | some account => exact (fresh.accounts account (account_eq_some haccount).1).settledPosition

theorem explained_new {state : RiskEngineState} (fresh : state.Fresh) (instrument : InstrumentId) :
    Explained [] (LogicalGateway.new state instrument) := by
  refine ⟨by simp [LogicalGateway.new, LogicalBook.new, LogicalBook.orders], by simp [acceptedOrders],
    by simp [acceptedOrders], by simp [reportsOf], fun id => position_of_fresh fresh id, ?_⟩
  have hzero : state.accounts.map (fun account => account.settledPosition.val) = state.accounts.map fun _ => 0 :=
    List.map_congr_left fun account hmem => (fresh.accounts account hmem).settledPosition
  simp [LogicalGateway.new, RiskEngineState.settledTotal, hzero]

/-- What a report says about an account, split by side. -/
theorem sum_explained (history : History) (id : AccountId) (reports : List ExecutionReport) :
    (reports.map (explained (ownerIn history) id)).sum
      = ((reports.map fun report =>
          (if ownerIn history report.makerOrderId = some (id, .buy) then report.quantity.val else 0) +
            if ownerIn history report.takerOrderId = some (id, .buy) then report.quantity.val else 0).sum : Nat)
        - ((reports.map fun report =>
          (if ownerIn history report.makerOrderId = some (id, .sell) then report.quantity.val else 0) +
            if ownerIn history report.takerOrderId = some (id, .sell) then report.quantity.val else 0).sum : Nat) := by
  have hshare : ∀ orderId (quantity : Quantity), share (ownerIn history) id orderId quantity
      = ((if ownerIn history orderId = some (id, .buy) then quantity.val else 0 : Nat) : Int)
        - ((if ownerIn history orderId = some (id, .sell) then quantity.val else 0 : Nat) : Int) := by
    intro orderId quantity
    unfold share
    cases ownerIn history orderId with
    | none => simp
    | some found =>
        obtain ⟨account, side⟩ := found
        by_cases hid : id = account
        · subst hid
          cases side <;> simp [Side.sign]
        · have hne : account ≠ id := fun heq => hid heq.symm
          simp [hid, hne]
  induction reports with
  | nil => simp
  | cons report rest ih =>
      simp only [List.map_cons, List.sum_cons, ih, explained, hshare]
      push_cast
      ring

/-- Positions are the executed trades: after every run the settled position of
every account is the report quantity of its buy orders less that of its sell
orders, and all positions sum to zero. -/
theorem gateway_positions_explained {risk : RiskEngine A R} (hconfigured : Configured risk)
    (instrument : InstrumentId) {calls : List GatewayCall} {answers : List GatewayAnswer}
    (hrun : run Gateway.call (Gateway.new risk instrument : Gateway A R L O) calls = some (answers, gateway)) :
    (∀ account ∈ gateway.risk.registeredAccounts, account.settledPosition.val
      = (tradedQuantity (calls.zip answers) account.id .buy : Int)
        - tradedQuantity (calls.zip answers) account.id .sell) ∧
    (gateway.risk.registeredAccounts.map fun account => account.settledPosition.val).sum = 0 := by
  obtain ⟨logical, rep, sound, hexplained⟩ := recorded_of_run hconfigured instrument hrun
    (fun state fresh => explained_new fresh instrument) fun h sound _ hmoves => h.moves sound hmoves
  constructor
  · intro account haccount
    rw [← sound.risk.position_eq ((mem_registeredAccounts rep.risk).mp haccount), hexplained.position, sum_explained]
    rfl
  · rw [registeredAccounts_eq]
    exact ((rep.risk.accounts.map _).sum_eq).trans hexplained.total

/-- In the sample run the second account bought two from the first. -/
theorem gateway_positions_explained_sample : ∃ answers, ∃ gateway : Gateway 2 4 2 2,
    run Gateway.call (Gateway.new sampleRisk 7) sampleCalls = some (answers, gateway) ∧
    (∀ account ∈ gateway.risk.registeredAccounts, account.settledPosition.val
      = (tradedQuantity (sampleCalls.zip answers) account.id .buy : Int)
        - tradedQuantity (sampleCalls.zip answers) account.id .sell) ∧
    (gateway.risk.registeredAccounts.map fun account => account.settledPosition.val).sum = 0 := by
  obtain ⟨answers, gateway, hrun⟩ := sampleCalls_return
  exact ⟨answers, gateway, hrun, gateway_positions_explained sampleRisk_configured 7 hrun⟩

end HftEngine
