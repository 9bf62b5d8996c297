/-
Module: HftEngine.Proofs.OrderLifecycle
Layer: Proofs
Purpose: The life of one order id over a run. An id is accepted at most once,
  its quantity is accounted for between acceptance, amends, fills, cancel and
  discard at every point, and once it no longer rests it is gone for good.
Imports: HftEngine.Proofs.GatewayHistory
Trusted boundary: none (fully proved)
Main exports: restingOf, flow, restingOf_moves, Ended, Finished,
  order_lifecycle
-/
import HftEngine.Proofs.GatewayHistory

namespace HftEngine

open Machine Transition KeyedList

variable {A R L O N : Nat} {gateway gateway' : Gateway A R L O} {logical logical' : LogicalGateway}
  {answer : GatewayAnswer} {call : GatewayCall} {order : NewOrder} {fills : List ModelFill}
  {entries others : List BookEntry} {id : OrderId} {history : History}

/-! ### Quantities of one id -/

/-- The quantity an id has resting. -/
def restingOf (id : OrderId) (entries : List BookEntry) : Nat :=
  (entries.map fun entry => if entry.2.2.id = id then entry.2.2.quantity.val else 0).sum

@[simp] theorem restingOf_nil : restingOf id [] = 0 := rfl

@[simp] theorem restingOf_cons {entry : BookEntry} : restingOf id (entry :: entries)
    = (if entry.2.2.id = id then entry.2.2.quantity.val else 0) + restingOf id entries := by
  simp [restingOf]

@[simp] theorem restingOf_append : restingOf id (entries ++ others) = restingOf id entries + restingOf id others := by
  simp [restingOf]

/-- The resting quantity of an order does not depend on the order of the
entries. -/
theorem restingOf_perm (h : entries.Perm others) : restingOf id entries = restingOf id others :=
  (h.map _).sum_eq

/-- What fills take from a maker. -/
def takenFrom (id : OrderId) (fills : List ModelFill) : Nat :=
  (fills.map fun fill => if fill.makerOrderId = id then fill.quantity.val else 0).sum

/-- A fill takes its quantity from its maker and nothing from anyone else. -/
theorem restingOf_filterMap (id : OrderId) {fill : ModelFill} {maker : BookEntry} (hmaker : maker ∈ entries)
    (hids : (entries.map fun entry => entry.2.2.id).Nodup) (hid : maker.2.2.id = fill.makerOrderId)
    (hle : fill.quantity.val ≤ maker.2.2.quantity.val) :
    restingOf id (entries.filterMap (fillEntry fill)) + (if fill.makerOrderId = id then fill.quantity.val else 0)
      = restingOf id entries := by
  have hsplit := List.perm_cons_erase hmaker
  have hmade := perm_filterMap (f := fillEntry fill) hids hsplit fun other hne => if_neg (hid ▸ hne)
  rw [restingOf_perm hmade, restingOf_perm hsplit, restingOf_append, restingOf_cons, hid]
  have hleft : restingOf id (fillEntry fill maker).toList
      + (if fill.makerOrderId = id then fill.quantity.val else 0)
      = if fill.makerOrderId = id then maker.2.2.quantity.val else 0 := by
    unfold fillEntry
    rw [if_pos hid]
    by_cases hwhole : maker.2.2.quantity = fill.quantity
    · simp [hwhole]
    · rw [if_neg hwhole]
      simp only [Option.toList_some, restingOf_cons, restingOf_nil, hid, satSub_val]
      split <;> omega
  omega

/-- What fills take from an order is what it then no longer rests with. -/
theorem restingOf_fillEntries (id : OrderId) {taker : Side} {left : Nat} (hfillable : Fillable taker fills entries left)
    (hids : (entries.map fun entry => entry.2.2.id).Nodup) :
    restingOf id (fillEntries fills entries) + takenFrom id fills = restingOf id entries := by
  induction fills generalizing entries left with
  | nil => rfl
  | cons fill fills ih =>
      obtain ⟨_, _, ⟨maker, hmaker, hid, _, hle⟩, hrest⟩ := hfillable
      have hstep := restingOf_filterMap id hmaker hids hid hle
      have hlater := ih hrest (nodup_filterMap_fillEntry hids)
      simp only [takenFrom, List.map_cons, List.sum_cons, fillEntries_cons] at hlater ⊢
      omega

/-! ### Entries of the ledger -/

/-- Quantity an event brings in by accepting the id as a new order. -/
def originalIn (id : OrderId) (event : GatewayCall × GatewayAnswer) : Int :=
  match acceptedOrder event with
  | some order => if order.orderId = id then order.quantity.val else 0
  | none => 0

/-- Quantity an amend of the id adds, negative when it takes away. -/
def amendedIn (id : OrderId) (event : GatewayCall × GatewayAnswer) : Int :=
  match event.2.result with
  | .ok (.replaced replaced) =>
      if replaced.orderId = id then (replaced.newQuantity.val : Int) - replaced.oldQuantity.val else 0
  | _ => 0

/-- Quantity of the reports that name the id as maker or taker. -/
def reportedIn (id : OrderId) (event : GatewayCall × GatewayAnswer) : Int :=
  (event.2.reports.map fun report =>
    ((if report.makerOrderId = id then report.quantity.val else 0 : Nat) : Int) +
      ((if report.takerOrderId = id then report.quantity.val else 0 : Nat) : Int)).sum

/-- Quantity a cancel of the id returned. -/
def cancelledIn (id : OrderId) (event : GatewayCall × GatewayAnswer) : Int :=
  match event.2.result with
  | .ok (.cancelled cancelled) => if cancelled.orderId = id then cancelled.quantity.val else 0
  | _ => 0

/-- Quantity of the id that was discarded when it was accepted. -/
def discardedIn (id : OrderId) (event : GatewayCall × GatewayAnswer) : Int :=
  match acceptedOrder event, event.2.result with
  | some order, .ok (.newOrder summary) => if order.orderId = id then summary.discardedQuantity.val else 0
  | _, _ => 0

/-- One kind of ledger entry summed over a history. -/
def totalOf (entry : GatewayCall × GatewayAnswer → Int) (history : History) : Int := (history.map entry).sum

/-- What an event adds to the resting quantity of the id. -/
def flow (id : OrderId) (event : GatewayCall × GatewayAnswer) : Int :=
  originalIn id event + amendedIn id event - reportedIn id event - cancelledIn id event - discardedIn id event

/-- Over the reports of one submission an order is reported for what was taken
from it as a maker and for what it took as the taker. -/
theorem sum_reported (id : OrderId) (order : NewOrder) (fills : List ModelFill) :
    ((fills.map (reportOf order)).map fun report =>
      ((if report.makerOrderId = id then report.quantity.val else 0 : Nat) : Int) +
        ((if report.takerOrderId = id then report.quantity.val else 0 : Nat) : Int)).sum
      = (takenFrom id fills : Int) + ((if order.orderId = id then fillTotal fills else 0 : Nat) : Int) := by
  induction fills with
  | nil => simp [takenFrom]
  | cons fill fills ih =>
      simp only [List.map_cons, List.sum_cons, ih, takenFrom, fillTotal_cons, reportOf]
      by_cases hid : order.orderId = id
      · simp only [hid, if_true]
        push_cast
        ring
      · simp only [hid, if_false]
        push_cast
        ring

/-- The resting quantity with one order taken apart from the others. -/
theorem restingOf_split (id : OrderId) {logical : LogicalBook} (wf : logical.WellFormed) {found : OrderId}
    {entry : BookEntry}
    (hfind : logical.find found = some entry) {rest : List BookEntry}
    (hrest : rest = logical.orders.filter fun other => decide (other.2.2.id ≠ found)) :
    restingOf id logical.orders = (if found = id then entry.2.2.quantity.val else 0) + restingOf id rest := by
  rw [hrest, restingOf_perm (orders_split wf hfind), restingOf_cons, (mem_of_find hfind).2]

/-- Every move changes the resting quantity of an id by its ledger entries. -/
theorem restingOf_moves (sound : logical.Sound) (wf : logical.book.WellFormed)
    (h : Moves N logical call.command? answer logical') :
    (restingOf id logical'.book.orders : Int) = restingOf id logical.book.orders + flow id (call, answer) := by
  rcases acceptedOrder_of_moves h with
    ⟨order, account, summary, fills, resting, discarded, hevent, _, haccepted⟩ | ⟨hnone, hreports, hrefused⟩
  · have hsubmitted := haccepted.submitted
    have hfilled := restingOf_fillEntries id (hsubmitted.fillable sound.book.quantities) wf.ids
    have hrest : restingOf id (restEntries order resting) = if order.orderId = id then resting.val else 0 := by
      unfold restEntries
      split
      · rename_i hzero
        simp [hzero]
      · simp [LogicalBook.remainder]
    have hdiscarded : summary.discardedQuantity = discarded := by rw [hsubmitted.summary_eq]; rfl
    have hsplit := hsubmitted.split
    have hflow : flow id (call, answer) = (if order.orderId = id then (order.quantity.val : Int) else 0)
        - (takenFrom id fills + ((if order.orderId = id then fillTotal fills else 0 : Nat) : Int))
        - if order.orderId = id then (discarded.val : Int) else 0 := by
      simp only [flow, originalIn, amendedIn, reportedIn, cancelledIn, discardedIn, hevent]
      rw [haccepted.answer_eq]
      simp only [sum_reported, hdiscarded]
      ring
    rw [hflow, restingOf_perm hsubmitted.orders, restingOf_append, hrest]
    split_ifs <;> push_cast <;> omega
  · have hflow : flow id (call, answer) = amendedIn id (call, answer) - cancelledIn id (call, answer) := by
      simp [flow, originalIn, reportedIn, discardedIn, hnone, hreports]
    have hquiet : ∀ {error}, answer.result = .error error → flow id (call, answer) = 0 := by
      intro error herror
      rw [hflow]
      simp [amendedIn, cancelledIn, herror]
    rw [hflow]
    rw [hflow] at hquiet
    generalize call.command? = carried at h hrefused
    cases h with
    | malformed => rw [hquiet rfl, add_zero]
    | unsequenced => rw [hquiet rfl, add_zero]
    | exhausted => rw [hquiet rfl, add_zero]
    | refused =>
        rw [hquiet rfl, add_zero]
        rfl
    | accepted _ _ haccepted =>
        obtain ⟨error, herror⟩ := hrefused _ rfl
        rw [haccepted.answer_eq] at herror
        cases herror
    | cancelled _ _ hcancelled =>
        have hid := (mem_of_find hcancelled.found).2
        rw [restingOf_split id wf hcancelled.found hcancelled.orders, hcancelled.answer_eq]
        simp only [amendedIn, cancelledIn, hid]
        split_ifs <;> push_cast <;> omega
    | replaced _ _ hreplaced =>
        rename_i request result side price old sequence _ _
        obtain ⟨lost, hresult⟩ := hreplaced.amended.replaced_eq
        rw [restingOf_perm hreplaced.amended.orders, restingOf_cons,
          restingOf_split id wf hreplaced.amended.found rfl, hreplaced.answer_eq, hresult]
        simp only [amendedIn, cancelledIn, OrderBook.replacedOrder]
        by_cases hsame : request.orderId = id
        · simp only [hsame, if_true]
          push_cast
          ring
        · simp only [hsame, if_false]
          push_cast
          ring

/-! ### The end of an order -/

/-- The order a command is about. -/
def Command.orderId : Command → OrderId
  | .newOrder order => order.orderId
  | .cancelOrder cancel => cancel.orderId
  | .replaceOrder replace => replace.orderId

/-- An id at or below the watermark that does not rest. -/
structure Ended (id : OrderId) (logical : LogicalGateway) : Prop where
  received : ∃ maximum ∈ logical.maximumReceivedOrderId, id.val ≤ maximum.val
  absent : ∀ entry ∈ logical.book.orders, entry.2.2.id ≠ id

/-- An ended id stays ended, no report names it, and every command that names
it is refused. -/
theorem Ended.moves (ended : Ended id logical) (sound : logical.Sound)
    {command : Option Command} (h : Moves N logical command answer logical') :
    Ended id logical' ∧ (∀ report ∈ answer.reports, report.makerOrderId ≠ id ∧ report.takerOrderId ≠ id) ∧
      ∀ carried ∈ command, carried.orderId = id → ∃ error, answer.result = .error error := by
  obtain ⟨maximum, hmaximum, hle⟩ := ended.received
  have hfound : ∀ {orderId entry}, logical.book.find orderId = some entry → orderId ≠ id := by
    intro orderId entry hfind heq
    obtain ⟨hentry, hid⟩ := mem_of_find hfind
    exact ended.absent entry hentry (hid.trans heq)
  cases h with
  | malformed error => exact ⟨ended, by simp, fun _ _ _ => ⟨_, rfl⟩⟩
  | unsequenced carried => exact ⟨ended, by simp, fun _ _ _ => ⟨_, rfl⟩⟩
  | exhausted carried => exact ⟨ended, by simp, fun _ _ _ => ⟨_, rfl⟩⟩
  | refused _ _ _ hmarked =>
      refine ⟨⟨?_, ended.absent⟩, by simp, fun _ _ _ => ⟨_, rfl⟩⟩
      cases hmarked with
      | kept => exact ⟨maximum, hmaximum, hle⟩
      | received order hnew => exact ⟨order.orderId, rfl, hle.trans (hnew maximum hmaximum).le⟩
      | reserved order hnew => exact ⟨order.orderId, rfl, hle.trans (hnew maximum hmaximum).le⟩
  | accepted _ _ haccepted =>
      rename_i order account summary fills resting discarded _ _
      have hlt := haccepted.new maximum hmaximum
      have hother : order.orderId ≠ id := by
        rintro rfl
        omega
      have hsubmitted := haccepted.submitted
      refine ⟨⟨⟨order.orderId, haccepted.received, by omega⟩, ?_⟩, ?_, ?_⟩
      · intro entry hentry
        rw [hsubmitted.orders.mem_iff, List.mem_append] at hentry
        rcases hentry with hrest | hfilled
        · unfold restEntries at hrest
          split at hrest
          · cases hrest
          · rw [List.mem_singleton.mp hrest]
            exact hother
        · obtain ⟨old, hold, _, _, hid, _, _⟩ := fillEntries_kept hfilled
          rw [hid]
          exact ended.absent old hold
      · intro report hreport
        rw [haccepted.answer_eq] at hreport
        obtain ⟨fill, hfill, rfl⟩ := List.mem_map.mp hreport
        obtain ⟨entry, hentry, hid⟩ := (hsubmitted.fillable sound.book.quantities).makers fill hfill
        exact ⟨fun heq => ended.absent entry hentry (hid.trans heq), hother⟩
      · rintro _ ⟨⟩ hnamed
        exact absurd hnamed hother
  | cancelled _ _ hcancelled =>
      refine ⟨⟨⟨maximum, hcancelled.rearranged.received ▸ hmaximum, hle⟩, ?_⟩, ?_, ?_⟩
      · intro entry hentry
        rw [hcancelled.orders] at hentry
        exact ended.absent entry (List.mem_filter.mp hentry).1
      · rw [hcancelled.answer_eq]
        simp
      · rintro _ ⟨⟩ hnamed
        exact absurd hnamed (hfound hcancelled.found)
  | replaced _ _ hreplaced =>
      refine ⟨⟨⟨maximum, hreplaced.rearranged.received ▸ hmaximum, hle⟩, ?_⟩, ?_, ?_⟩
      · intro entry hentry
        rw [hreplaced.amended.orders.mem_iff] at hentry
        rcases List.mem_cons.mp hentry with rfl | hkept
        · exact hfound hreplaced.amended.found
        · exact ended.absent entry (List.mem_filter.mp hkept).1
      · rw [hreplaced.answer_eq]
        simp
      · rintro _ ⟨⟩ hnamed
        exact absurd hnamed (hfound hreplaced.amended.found)

/-! ### Runs -/

/-- What the rest of a run may still say about an id that has ended. -/
structure Finished (id : OrderId) (history : History) (gateway : Gateway A R L O) : Prop where
  unreported : ∀ report ∈ reportsOf history, report.makerOrderId ≠ id ∧ report.takerOrderId ≠ id
  absent : ∀ order ∈ gateway.book.exportState.orders, order.orderId ≠ id
  refused : ∀ event ∈ history, ∀ command ∈ event.1.command?, command.orderId = id →
    ∃ error, event.2.result = .error error

/-- An order that has ended stays ended: no later call reports it, and it is
not resting. -/
theorem finished_of_run {calls : List GatewayCall} {answers : List GatewayAnswer}
    (rep : GatewayRep gateway logical) (sound : logical.Sound) (ended : Ended id logical)
    (hrun : run Gateway.call gateway calls = some (answers, gateway')) :
    Finished id (calls.zip answers) gateway' := by
  have hlast := run_history
    (fun history gateway => ∃ logical, GatewayRep gateway logical ∧ logical.Sound ∧ Ended id logical ∧
      (∀ report ∈ reportsOf history, report.makerOrderId ≠ id ∧ report.takerOrderId ≠ id) ∧
      ∀ event ∈ history, ∀ command ∈ event.1.command?, command.orderId = id → ∃ error, event.2.result = .error error)
    (fun {history gateway gateway' call answer} h hcall => by
      obtain ⟨logical, rep, sound, ended, hreported, hrefused⟩ := h
      obtain ⟨logical', rep', hmoves⟩ := call_moves rep sound hcall
      obtain ⟨ended', hsilent, herror⟩ := ended.moves sound hmoves
      refine ⟨logical', rep', sound.moves rep.book.wellFormed hmoves, ended', ?_, ?_⟩
      · intro report hreport
        rw [reportsOf_append, List.mem_append] at hreport
        rcases hreport with hold | hnew
        · exact hreported report hold
        · exact hsilent report (by simpa [reportsOf] using hnew)
      · intro event hevent
        rcases List.mem_append.mp hevent with hold | hnew
        · exact hrefused event hold
        · rw [List.mem_singleton.mp hnew]
          exact herror)
    [] ⟨logical, rep, sound, ended, by simp [reportsOf], by simp⟩ hrun
  obtain ⟨logical', rep', _, ended', hreported, hrefused⟩ := hlast
  rw [List.nil_append] at hreported hrefused
  refine ⟨hreported, ?_, hrefused⟩
  rw [orders_exportState rep'.book]
  intro order horder
  obtain ⟨entry, hentry, rfl⟩ := List.mem_map.mp horder
  exact ended'.absent entry hentry

/-- The quantity an id has resting in an exported book. -/
def restingIn (id : OrderId) (orders : List BookOrderState) : Nat :=
  (orders.map fun order => if order.orderId = id then order.quantity.val else 0).sum

/-- The resting quantity of an order can be read off the exported book. -/
theorem restingIn_exportState {book : OrderBook L O} {content : LogicalBook} (h : Represents book content) :
    restingIn id book.exportState.orders = restingOf id content.orders := by
  rw [orders_exportState h, restingIn, List.map_map]
  rfl

/-- A total over a history adds up its events. -/
theorem totalOf_append (entry : GatewayCall × GatewayAnswer → Int) (event : GatewayCall × GatewayAnswer) :
    totalOf entry (history ++ [event]) = totalOf entry history + entry event := by
  simp [totalOf]

/-- The flow of an order is its original and amended quantity less what was
reported, cancelled and discarded. -/
theorem totalOf_flow (id : OrderId) (history : History) :
    totalOf (flow id) history = totalOf (originalIn id) history + totalOf (amendedIn id) history
      - totalOf (reportedIn id) history - totalOf (cancelledIn id) history - totalOf (discardedIn id) history := by
  induction history with
  | nil => rfl
  | cons event history ih =>
      simp only [totalOf, List.map_cons, List.sum_cons] at ih ⊢
      rw [ih, flow]
      ring

/-- The life of an order id in a run: it is accepted at most once; what was
accepted and amended is what was reported, cancelled and discarded and what
still rests; and once it was accepted and does not rest any more, nothing later
reports it, rests it or accepts a command for it. -/
theorem order_lifecycle {risk : RiskEngine A R} (hconfigured : Configured risk) (instrument : InstrumentId)
    {calls : List GatewayCall} {answers : List GatewayAnswer}
    (hrun : run Gateway.call (Gateway.new risk instrument : Gateway A R L O) calls = some (answers, gateway))
    (id : OrderId) :
    ((acceptedOrders (calls.zip answers)).filter fun order => order.orderId = id).length ≤ 1 ∧
    totalOf (originalIn id) (calls.zip answers) + totalOf (amendedIn id) (calls.zip answers)
      = totalOf (reportedIn id) (calls.zip answers) + totalOf (cancelledIn id) (calls.zip answers)
        + totalOf (discardedIn id) (calls.zip answers) + restingIn id gateway.book.exportState.orders ∧
    ((∃ order ∈ acceptedOrders (calls.zip answers), order.orderId = id) →
      (∀ order ∈ gateway.book.exportState.orders, order.orderId ≠ id) →
      ∀ (later : List GatewayCall) (laterAnswers : List GatewayAnswer) (gateway' : Gateway A R L O),
        run Gateway.call gateway later = some (laterAnswers, gateway') →
        Finished id (later.zip laterAnswers) gateway') := by
  obtain ⟨logical, rep, sound, hexplained, hledger⟩ := recorded_of_run
    (P := fun history logical => Explained history logical ∧
      (restingOf id logical.book.orders : Int) = totalOf (flow id) history) hconfigured instrument hrun
    (fun state fresh => ⟨explained_new fresh instrument, by
      simp [LogicalGateway.new, LogicalBook.new, LogicalBook.orders, totalOf]⟩)
    (fun h sound wf hmoves => ⟨h.1.moves sound hmoves, by
      rw [restingOf_moves sound wf hmoves, h.2, totalOf_append]⟩)
  refine ⟨?_, ?_, ?_⟩
  · rw [← List.countP_eq_length_filter]
    have hcount := List.nodup_iff_count_le_one.mp hexplained.ids id
    rw [List.count, List.countP_map] at hcount
    refine le_trans (List.countP_mono_left fun order _ hid => ?_) hcount
    simpa using hid
  · rw [restingIn_exportState rep.book, hledger, totalOf_flow]
    ring
  · rintro ⟨order, horder, rfl⟩ habsent later laterAnswers gateway' hlater
    refine finished_of_run rep sound ⟨hexplained.received order horder, ?_⟩ hlater
    intro entry hentry
    apply habsent (entryState entry)
    rw [orders_exportState rep.book]
    exact List.mem_map_of_mem hentry

/-- The first order of the sample run. -/
theorem order_lifecycle_sample : ∃ answers, ∃ gateway : Gateway 2 4 2 2,
    run Gateway.call (Gateway.new sampleRisk 7) sampleCalls = some (answers, gateway) ∧
    totalOf (originalIn 1) (sampleCalls.zip answers) + totalOf (amendedIn 1) (sampleCalls.zip answers)
      = totalOf (reportedIn 1) (sampleCalls.zip answers) + totalOf (cancelledIn 1) (sampleCalls.zip answers)
        + totalOf (discardedIn 1) (sampleCalls.zip answers) + restingIn 1 gateway.book.exportState.orders := by
  obtain ⟨answers, gateway, hrun⟩ := sampleCalls_return
  exact ⟨answers, gateway, hrun, (order_lifecycle sampleRisk_configured 7 hrun 1).2.1⟩

end HftEngine
