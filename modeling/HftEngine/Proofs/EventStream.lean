/-
Module: HftEngine.Proofs.EventStream
Layer: Proofs
Purpose: The published event stream determines the live book. A consumer that
  folds the processed commands with their batches holds exactly the resting
  orders and the top of the book, after every run of the engine and whatever
  part of the stream is still queued.
Imports: HftEngine.Proofs.EventEngine, HftEngine.Proofs.FramePath
Trusted boundary: none (fully proved)
Main exports: LiveOrder, Replica, Replica.apply, Replica.replay, EventCall,
  EventOutput, BoundedEventEngine.perform, event_stream_determines_book
-/
import HftEngine.Proofs.EventEngine
import HftEngine.Proofs.FramePath

namespace HftEngine

open Machine Transition KeyedList

variable {A R L O N B Q : Nat}

/-! ### The consumer -/

/-- What a consumer knows of a resting order. -/
structure LiveOrder where
  accountId : AccountId
  side : Side
  price : PriceTicks
  quantity : Quantity
deriving DecidableEq, Repr

/-- A consumer's copy of the book. -/
structure Replica where
  orders : OrderId → Option LiveOrder
  tops : Tops

namespace Replica

/-- A consumer that has seen nothing yet. -/
def empty : Replica := ⟨fun _ => none, (none, none)⟩

/-- What is left of a maker after a trade. -/
def reduce (quantity : Quantity) (maker : LiveOrder) : Option LiveOrder :=
  if maker.quantity.val ≤ quantity.val then none
  else some { maker with quantity := satSub maker.quantity quantity }

/-- One event of a command's batch. -/
def apply (command : Command) (replica : Replica) : Event → Replica
  | .accepted event =>
      match command with
      | .newOrder order =>
          if event.restingQuantity.val = 0 then replica
          else
            let live : LiveOrder := ⟨order.accountId, order.side, order.price, event.restingQuantity⟩
            { replica with orders := Function.update replica.orders event.orderId (some live) }
      | _ => replica
  | .rejected _ => replica
  | .trade event =>
      let maker := (replica.orders event.makerOrderId).bind (reduce event.quantity)
      { replica with orders := Function.update replica.orders event.makerOrderId maker }
  | .cancelled event => { replica with orders := Function.update replica.orders event.orderId none }
  | .replaced event =>
      let amended := (replica.orders event.orderId).map fun order =>
        { order with price := event.price, quantity := event.newQuantity }
      { replica with orders := Function.update replica.orders event.orderId amended }
  | .topOfBook event => { replica with tops := (event.bid, event.ask) }

/-- Takes in the events of one batch. -/
def applyAll (command : Command) (replica : Replica) (events : List Event) : Replica :=
  events.foldl (apply command) replica

/-- The commands of a stream with their batches, in order. -/
def replay (replica : Replica) (stream : List (Command × EventBatch B)) : Replica :=
  stream.foldl (fun replica item => replica.applyAll item.1 item.2.events) replica

end Replica

/-! ### The consumer's copy of some entries -/

/-- What a consumer knows of an entry. -/
def liveOf (entry : BookEntry) : LiveOrder := ⟨entry.2.2.account, entry.1, entry.2.1, entry.2.2.quantity⟩

/-- The copy of a list of entries. -/
def copyOf (entries : List BookEntry) (id : OrderId) : Option LiveOrder :=
  (entries.find? fun entry => decide (entry.2.2.id = id)).map liveOf

variable {entries entries' : List BookEntry} {entry : BookEntry} {id : OrderId} {fill : ModelFill}

/-- No order id occurs twice. -/
abbrev Distinct (entries : List BookEntry) : Prop := (entries.map fun entry => entry.2.2.id).Nodup

/-- An id belongs to one entry at most. -/
theorem single_of_distinct (h : Distinct entries) (id : OrderId) :
    Single (fun entry : BookEntry => decide (entry.2.2.id = id)) entries := by
  intro a ha b hb hida hidb
  exact List.inj_on_of_nodup_map h ha hb ((of_decide_eq_true hida).trans (of_decide_eq_true hidb).symm)

/-- A copy depends on the entries only, not on their order. -/
theorem copyOf_perm (h : Distinct entries) (hperm : entries'.Perm entries) : copyOf entries' = copyOf entries := by
  funext id
  rw [copyOf, copyOf, find?_perm (single_of_distinct h id) hperm]

/-- The copy has every entry under its id. -/
theorem copyOf_of_mem (h : Distinct entries) (hmem : entry ∈ entries) :
    copyOf entries entry.2.2.id = some (liveOf entry) := by
  rw [copyOf, find?_of_single (single_of_distinct h _) hmem (decide_eq_true rfl)]
  rfl

/-- The copy has nothing under an id that no entry carries. -/
theorem copyOf_eq_none (h : ∀ entry ∈ entries, entry.2.2.id ≠ id) : copyOf entries id = none := by
  rw [copyOf, Option.map_eq_none_iff, List.find?_eq_none]
  intro entry hmem
  simpa using h entry hmem

/-- The copy holds exactly the entries. -/
theorem copyOf_eq_some_iff (h : Distinct entries) {live : LiveOrder} :
    copyOf entries id = some live ↔ ∃ entry ∈ entries, entry.2.2.id = id ∧ liveOf entry = live := by
  constructor
  · intro hsome
    obtain ⟨entry, hfind, rfl⟩ := Option.map_eq_some_iff.mp hsome
    exact ⟨entry, List.mem_of_find?_eq_some hfind, by simpa using List.find?_some hfind, rfl⟩
  · rintro ⟨entry, hmem, rfl, rfl⟩
    exact copyOf_of_mem h hmem

/-- The copy of one entry more. -/
theorem copyOf_cons (entry : BookEntry) (entries : List BookEntry) :
    copyOf (entry :: entries) = Function.update (copyOf entries) entry.2.2.id (some (liveOf entry)) := by
  funext id
  rw [Function.update_apply, copyOf, List.find?_cons]
  by_cases hid : id = entry.2.2.id
  · subst hid
    simp
  · rw [if_neg hid]
    simp only [decide_eq_false (Ne.symm hid)]
    rfl

/-- The copy after the entry of an id is gone. -/
theorem copyOf_filter (entries : List BookEntry) (removed : OrderId) :
    copyOf (entries.filter fun entry => decide (entry.2.2.id ≠ removed)) =
      Function.update (copyOf entries) removed none := by
  funext id
  rw [Function.update_apply]
  split
  · rename_i hid
    refine copyOf_eq_none fun entry hmem => ?_
    rw [hid]
    simpa using (List.mem_filter.mp hmem).2
  · rename_i hid
    rw [copyOf, copyOf, List.find?_filter]
    congr 1
    refine List.find?_congr fun entry _ => ?_
    by_cases hentry : entry.2.2.id = id
    · simp [hentry, hid]
    · simp [hentry]

/-- The copy after a fill its maker can bear. -/
theorem copyOf_fill (h : Distinct entries) (hmem : entry ∈ entries) (hid : entry.2.2.id = fill.makerOrderId)
    (hle : fill.quantity.val ≤ entry.2.2.quantity.val) :
    copyOf (entries.filterMap (fillEntry fill)) = Function.update (copyOf entries) fill.makerOrderId
      ((copyOf entries fill.makerOrderId).bind (Replica.reduce fill.quantity)) := by
  have hperm : entries.Perm (entry :: entries.erase entry) := List.perm_cons_erase hmem
  have hcons : Distinct (entry :: entries.erase entry) := (hperm.map _).nodup_iff.mp h
  have hrest : copyOf (entries.erase entry) entry.2.2.id = none := by
    refine copyOf_eq_none fun other hother heq => ?_
    exact (List.nodup_cons.mp hcons).1 (List.mem_map.mpr ⟨other, hother, heq⟩)
  have hfilled : (entries.filterMap (fillEntry fill)).Perm ((fillEntry fill entry).toList ++ entries.erase entry) := by
    refine perm_filterMap h hperm fun other hother => ?_
    rw [fillEntry, if_neg (hid ▸ hother)]
  have hdistinct := (hfilled.map fun entry => entry.2.2.id).nodup_iff.mp (nodup_filterMap_fillEntry h)
  rw [copyOf_perm hdistinct hfilled, ← copyOf_perm h hperm.symm, copyOf_cons, ← hid, Function.update_self,
    Option.bind_some, Function.update_idem, fillEntry, if_pos hid, Replica.reduce]
  by_cases hquantity : entry.2.2.quantity = fill.quantity
  · have hall : (liveOf entry).quantity.val ≤ fill.quantity.val := (congrArg Fin.val hquantity).le
    rw [if_pos hquantity, if_pos hall]
    exact (Function.update_eq_self_iff.mpr hrest.symm).symm
  · have hpart : ¬(liveOf entry).quantity.val ≤ fill.quantity.val := by
      intro hge
      exact hquantity (Fin.ext (le_antisymm hge hle))
    rw [if_neg hquantity, if_neg hpart, Option.toList_some, List.singleton_append, copyOf_cons]
    rfl

/-! ### The events of a move -/

theorem Replica.applyAll_cons (command : Command) (replica : Replica) (event : Event) (events : List Event) :
    replica.applyAll command (event :: events) = (replica.apply command event).applyAll command events := rfl

/-- The events of a batch are taken in one after the other. -/
theorem Replica.applyAll_append (command : Command) (replica : Replica) (events more : List Event) :
    replica.applyAll command (events ++ more) = (replica.applyAll command events).applyAll command more :=
  List.foldl_append

/-- The trades of an accepted order take its makers down. -/
theorem applyAll_tradeEvents (command : Command) (order : NewOrder) (fills : List ModelFill) (ordinal left : Nat)
    {replica : Replica} (hcopy : replica.orders = copyOf entries) (hdistinct : Distinct entries)
    (hfillable : Fillable order.side fills entries left) :
    (replica.applyAll command (tradeEvents order.sequence ordinal (fills.map (reportOf order)))).orders =
        copyOf (fillEntries fills entries) ∧
      (replica.applyAll command (tradeEvents order.sequence ordinal (fills.map (reportOf order)))).tops =
        replica.tops := by
  induction fills generalizing entries ordinal left replica with
  | nil => exact ⟨hcopy, rfl⟩
  | cons fill fills ih =>
      obtain ⟨_, _, ⟨maker, hmaker, hid, _, hle⟩, hrest⟩ := hfillable
      rw [List.map_cons, tradeEvents, fillEntries_cons]
      refine ih (ordinal + 1) _ ?_ (nodup_filterMap_fillEntry hdistinct) hrest
      rw [copyOf_fill hdistinct hmaker hid hle, ← hcopy]
      rfl

/-- The top event brings the replica's tops up to date. -/
theorem applyAll_topEvents (command : Command) (identity : CommandIdentity) (sequence : SequenceNumber)
    (ordinal : Nat) (before after : Tops) {replica : Replica} (htops : replica.tops = before) :
    (replica.applyAll command (topEvents identity sequence ordinal before after)).orders = replica.orders ∧
      (replica.applyAll command (topEvents identity sequence ordinal before after)).tops = after := by
  unfold topEvents
  split
  · exact ⟨rfl, rfl⟩
  · rename_i hsame
    exact ⟨rfl, htops.trans (not_not.mp hsame)⟩

/-- Entries no fill names do not disturb the fills. -/
theorem Fillable.prepend {taker : Side} {fills : List ModelFill} {left : Nat} {extra : List BookEntry}
    (h : Fillable taker fills entries left)
    (hextra : ∀ entry ∈ extra, ∀ fill ∈ fills, entry.2.2.id ≠ fill.makerOrderId) :
    Fillable taker fills (extra ++ entries) left := by
  induction fills generalizing entries left with
  | nil => trivial
  | cons fill fills ih =>
      obtain ⟨hpos, hleft, ⟨maker, hmaker, hmatch⟩, hrest⟩ := h
      have hkeep : extra.filterMap (fillEntry fill) = extra :=
        fillEntries_of_disjoint [fill] fun entry hentry other hother =>
          hextra entry hentry other (by rw [List.mem_singleton.mp hother]; exact List.mem_cons_self)
      refine ⟨hpos, hleft, ⟨maker, List.mem_append_right extra hmaker, hmatch⟩, ?_⟩
      rw [List.filterMap_append, hkeep]
      exact ih hrest fun entry hentry other hother => hextra entry hentry other (List.mem_cons_of_mem fill hother)

/-- The quantity the trades of some events execute. -/
def tradedIn (events : List Event) : Nat :=
  (events.filterMap fun event =>
    match event with
    | .trade event => some event.quantity.val
    | _ => none).sum

/-- The quantity the accepted event reports filled, zero where there is
none. -/
def filledIn (events : List Event) : Nat :=
  (events.filterMap fun event =>
    match event with
    | .accepted event => some event.filledQuantity.val
    | _ => none).sum

/-- The traded quantity adds up over a list of events. -/
theorem tradedIn_append (events more : List Event) : tradedIn (events ++ more) = tradedIn events + tradedIn more := by
  simp [tradedIn]

/-- The filled quantity adds up over a list of events. -/
theorem filledIn_append (events more : List Event) : filledIn (events ++ more) = filledIn events + filledIn more := by
  simp [filledIn]

/-- The trades of a batch are those of its reports. -/
theorem tradedIn_tradeEvents (sequence : SequenceNumber) (first : Nat) (reports : List ExecutionReport) :
    tradedIn (tradeEvents sequence first reports) = (reports.map fun report => report.quantity.val).sum := by
  induction reports generalizing first with
  | nil => rfl
  | cons report rest ih =>
      rw [tradeEvents, List.map_cons, List.sum_cons, ← ih (first + 1)]
      rfl

theorem filledIn_tradeEvents (sequence : SequenceNumber) (first : Nat) (reports : List ExecutionReport) :
    filledIn (tradeEvents sequence first reports) = 0 := by
  induction reports generalizing first with
  | nil => rfl
  | cons report rest ih => exact ih (first + 1)

theorem tradedIn_topEvents (command : CommandIdentity) (sequence : SequenceNumber) (ordinal : Nat)
    (before after : Tops) : tradedIn (topEvents command sequence ordinal before after) = 0 := by
  unfold topEvents
  split <;> rfl

theorem filledIn_topEvents (command : CommandIdentity) (sequence : SequenceNumber) (ordinal : Nat)
    (before after : Tops) : filledIn (topEvents command sequence ordinal before after) = 0 := by
  unfold topEvents
  split <;> rfl

/-! ### One applied command -/

section Step

variable {engine engine' : BoundedEventEngine A R L O N B Q} {logical logical' : LogicalGateway} {command : Command}
  {answer : GatewayAnswer} {batch : EventBatch B} {replica : Replica}

/-- A replica shows the resting orders and the tops of an engine. -/
structure Follows (replica : Replica) (engine : BoundedEventEngine A R L O N B Q) (logical : LogicalGateway) :
    Prop where
  orders : replica.orders = copyOf logical.book.orders
  tops : replica.tops = engine.tops

/-- The tops are those of the content. -/
theorem tops_eq (rep : GatewayRep engine.gateway logical) :
    engine.tops = (topOf (logical.book.levels .buy), topOf (logical.book.levels .sell)) := by
  rw [BoundedEventEngine.tops, Gateway.topLevel, Gateway.topLevel, topLevel_eq rep.book, topLevel_eq rep.book]

/-- The accepted event rests the remainder. -/
theorem apply_accepted (replica : Replica) (order : NewOrder) (event : Events.Accepted) {resting : Quantity}
    (hid : event.orderId = order.orderId) (hresting : event.restingQuantity = resting)
    (h : replica.orders = copyOf entries) :
    (replica.apply (.newOrder order) (.accepted event)).orders = copyOf (restEntries order resting ++ entries) ∧
      (replica.apply (.newOrder order) (.accepted event)).tops = replica.tops := by
  subst hresting
  unfold restEntries
  by_cases hzero : event.restingQuantity.val = 0
  · simp only [Replica.apply, if_pos hzero, List.nil_append, h, and_self]
  · simp only [Replica.apply, if_neg hzero, List.singleton_append, copyOf_cons, hid, h, and_true]
    rfl

/-- An accepted order: its remainder rests, its makers are taken down and the
top moves. -/
theorem follows_accepted {order : NewOrder} {account : AccountState} {summary : MatchSummary}
    {fills : List ModelFill} {resting discarded : Quantity} (rep : GatewayRep engine.gateway logical)
    (sound : logical.Sound) (rep' : GatewayRep engine'.gateway logical')
    (haccepted : Accepted N logical logical' order answer account summary fills resting discarded)
    (h : Follows replica engine logical) :
    Follows (replica.applyAll (.newOrder order) (eventsOf (CommandIdentity.fromCommand (.newOrder order))
      order.sequence engine.tops engine'.tops answer)) engine' logical' := by
  have submitted := haccepted.submitted
  have hresting : summary.restingQuantity = resting := by rw [submitted.summary_eq]; rfl
  have hfillable := submitted.fillable sound.book.quantities
  have hfresh : ∀ entry ∈ restEntries order resting, ∀ other ∈ logical.book.orders,
      entry.2.2.id ≠ other.2.2.id := by
    intro entry hentry other hother heq
    unfold restEntries at hentry
    split at hentry
    · cases hentry
    · rw [List.mem_singleton.mp hentry] at heq
      exact find_eq_none_iff.mp submitted.fresh other hother heq.symm
  have hmakers : ∀ entry ∈ restEntries order resting, ∀ fill ∈ fills, entry.2.2.id ≠ fill.makerOrderId := by
    intro entry hentry fill hfill heq
    obtain ⟨maker, hmaker, hid⟩ := hfillable.makers fill hfill
    exact hfresh entry hentry maker hmaker (heq.trans hid.symm)
  have hdistinct : Distinct (restEntries order resting ++ logical.book.orders) := by
    rw [Distinct, List.map_append, List.nodup_append]
    refine ⟨?_, rep.book.wellFormed.ids, ?_⟩
    · unfold restEntries
      split <;> simp
    · rintro _ hleft _ hright heq
      obtain ⟨entry, hentry, rfl⟩ := List.mem_map.mp hleft
      obtain ⟨other, hother, hid⟩ := List.mem_map.mp hright
      exact hfresh entry hentry other hother (heq.trans hid.symm)
  rw [haccepted.answer_eq, eventsOf_ok, Replica.applyAll_cons, Replica.applyAll_append]
  obtain ⟨horders, htops⟩ := apply_accepted replica order
    ⟨⟨order.sequence, 0⟩, order.orderId, order.accountId, order.instrumentId, summary.state, summary.filledQuantity,
      summary.restingQuantity, summary.discardedQuantity⟩ rfl hresting h.orders
  obtain ⟨horders₁, htops₁⟩ := applyAll_tradeEvents (.newOrder order) order fills 1 order.quantity.val horders
    hdistinct (hfillable.prepend hmakers)
  obtain ⟨horders₂, htops₂⟩ := applyAll_topEvents (.newOrder order)
    (CommandIdentity.fromCommand (.newOrder order)) order.sequence (1 + (fills.map (reportOf order)).length)
    engine.tops engine'.tops (htops₁.trans (htops.trans h.tops))
  refine ⟨horders₂.trans (horders₁.trans ?_), htops₂⟩
  rw [fillEntries_append, fillEntries_of_disjoint fills hmakers]
  have hids := (submitted.orders.map fun entry => entry.2.2.id).nodup_iff.mp rep'.book.wellFormed.ids
  exact (copyOf_perm hids submitted.orders).symm

/-- An answer without reports publishes its terminal event and the top. -/
theorem applyAll_eventsOf (replica : Replica) (command : Command) (outcome : GatewayOutcome) {before : Tops}
    (after : Tops) (identity : CommandIdentity)
    (sequence : SequenceNumber) (htops : (replica.apply command (terminalEvent outcome identity sequence 0)).tops = before) :
    (replica.applyAll command (eventsOf identity sequence before after ⟨.ok outcome, []⟩)).orders =
        (replica.apply command (terminalEvent outcome identity sequence 0)).orders ∧
      (replica.applyAll command (eventsOf identity sequence before after ⟨.ok outcome, []⟩)).tops = after :=
  applyAll_topEvents command identity sequence _ before after htops

/-- Every published batch takes a replica along. -/
theorem Published.follows (rep : GatewayRep engine.gateway logical) (sound : logical.Sound)
    (published : Published engine engine' logical logical' command answer batch) (h : Follows replica engine logical) :
    Follows (replica.applyAll command batch.events) engine' logical' := by
  have rep' := published.rep
  have hnext := published.next
  have hmoves := published.moves
  rw [published.events]
  generalize hcommand : some command = carried at hmoves
  cases hmoves with
  | malformed => cases hcommand
  | unsequenced => omega
  | exhausted => omega
  | refused _ _ herror _ =>
      have hsame : engine'.tops = engine.tops := by
        rw [tops_eq rep, tops_eq rep']
        rfl
      rcases herror with ⟨reason, rfl⟩ | ⟨reason, rfl⟩
      · exact ⟨h.orders, h.tops.trans hsame.symm⟩
      · exact ⟨h.orders, h.tops.trans hsame.symm⟩
  | accepted _ _ haccepted =>
      cases hcommand
      exact follows_accepted rep sound rep' haccepted h
  | @cancelled request _ _ entry _ _ hcancelled =>
      cases hcommand
      obtain ⟨_, hid⟩ := mem_of_find hcancelled.found
      rw [hcancelled.answer_eq]
      obtain ⟨horders, htops⟩ := applyAll_eventsOf replica (.cancelOrder request)
        (.cancelled ⟨entry.2.2.id, entry.2.2.account, entry.2.2.quantity⟩) engine'.tops
        (CommandIdentity.fromCommand (.cancelOrder request)) request.sequence h.tops
      refine ⟨horders.trans ?_, htops⟩
      rw [hcancelled.orders, copyOf_filter, ← h.orders, ← hid]
      rfl
  | @replaced request _ _ result side price old sequence _ _ hreplaced =>
      cases hcommand
      obtain ⟨hmem, hid⟩ := mem_of_find hreplaced.amended.found
      obtain ⟨lost, rfl⟩ := hreplaced.amended.replaced_eq
      rw [hreplaced.answer_eq]
      obtain ⟨horders, htops⟩ := applyAll_eventsOf replica (.replaceOrder request)
        (.replaced (OrderBook.replacedOrder request old.quantity lost)) engine'.tops
        (CommandIdentity.fromCommand (.replaceOrder request)) request.sequence h.tops
      refine ⟨horders.trans ?_, htops⟩
      have hids := (hreplaced.amended.orders.map fun entry => entry.2.2.id).nodup_iff.mp rep'.book.wellFormed.ids
      have hold := copyOf_of_mem rep.book.wellFormed.ids hmem
      rw [hid] at hold
      rw [copyOf_perm hids hreplaced.amended.orders, copyOf_cons, copyOf_filter, Function.update_idem, ← h.orders]
      rw [← h.orders] at hold
      simp only [Replica.apply, terminalEvent, OrderBook.replacedOrder, hold, Option.map_some, liveOf,
        hreplaced.amended.owner]

/-- The trades of a batch sum to the quantity its accepted event reports. -/
theorem Published.traded (published : Published engine engine' logical logical' command answer batch) :
    tradedIn batch.events = filledIn batch.events := by
  have hnext := published.next
  have hmoves := published.moves
  rw [published.events]
  generalize hcommand : some command = carried at hmoves
  have hquiet : ∀ (outcome : GatewayOutcome), (∀ summary, outcome ≠ .newOrder summary) →
      ∀ (identity : CommandIdentity) (sequence : SequenceNumber) (before after : Tops),
      tradedIn (eventsOf identity sequence before after ⟨.ok outcome, []⟩) =
        filledIn (eventsOf identity sequence before after ⟨.ok outcome, []⟩) := by
    intro outcome hother identity sequence before after
    rw [eventsOf_ok, ← List.singleton_append, tradedIn_append, filledIn_append, tradeEvents, List.nil_append,
      tradedIn_topEvents, filledIn_topEvents]
    cases outcome with
    | newOrder summary => exact absurd rfl (hother summary)
    | cancelled cancelled => rfl
    | replaced replaced => rfl
  cases hmoves with
  | malformed => cases hcommand
  | unsequenced => omega
  | exhausted => omega
  | refused _ _ herror _ => rcases herror with ⟨reason, rfl⟩ | ⟨reason, rfl⟩ <;> rfl
  | @accepted order _ _ account summary fills resting discarded _ _ haccepted =>
      have hsplit := haccepted.submitted.split
      rw [haccepted.answer_eq, eventsOf_ok, ← List.singleton_append, tradedIn_append, tradedIn_append, filledIn_append,
        filledIn_append, tradedIn_tradeEvents, filledIn_tradeEvents, tradedIn_topEvents, filledIn_topEvents,
        List.map_map]
      have htotal : (fills.map ((fun report : ExecutionReport => report.quantity.val) ∘ reportOf order)).sum =
          fillTotal fills := rfl
      have hfilled : summary.filledQuantity.val = fillTotal fills := by
        rw [haccepted.submitted.summary_eq]
        simp only [LogicalBook.summary, satSub_val]
        omega
      rw [htotal]
      simp only [tradedIn, filledIn, terminalEvent, List.filterMap_cons, List.filterMap_nil, List.sum_cons,
        List.sum_nil, hfilled]
      omega
  | cancelled _ _ hcancelled =>
      rw [hcancelled.answer_eq]
      exact hquiet _ (by rintro _ ⟨⟩) _ _ _ _
  | replaced _ _ hreplaced =>
      rw [hreplaced.answer_eq]
      exact hquiet _ (by rintro _ ⟨⟩) _ _ _ _

end Step

/-! ### Runs -/

/-- What is asked of an event engine: a command, a frame, or the consumer's
next batch. -/
inductive EventCall where
  | command (command : Command)
  | frame (bytes : List U8)
  | pop
deriving DecidableEq, Repr

/-- What is seen of a call; a frame that does not parse carries no command. -/
inductive EventOutput (B : Nat) where
  | processed (command : Option Command) (result : Except EventEngineError Unit)
  | popped (batch : Option (EventBatch B))

namespace EventOutput

/-- The command of a call that processed one. -/
def command : EventOutput B → Option Command
  | .processed command (.ok ()) => command
  | .processed _ (.error _) => none
  | .popped _ => none

/-- The batch a consumer took out of the queue. -/
def batch : EventOutput B → Option (EventBatch B)
  | .processed _ _ => none
  | .popped batch => batch

end EventOutput

/-- One call of the engine: a command, a frame or a batch taken by the
consumer. -/
def BoundedEventEngine.perform (engine : BoundedEventEngine A R L O N B Q) :
    EventCall → Option (EventOutput B × BoundedEventEngine A R L O N B Q)
  | .command command =>
      (engine.processCommand command).map fun (result, engine) => (.processed (some command) result, engine)
  | .frame bytes =>
      (engine.processFrame bytes).map fun (result, engine) =>
        (.processed ((parseMessage bytes).toOption.map BorrowedMessage.toCommand) result, engine)
  | .pop =>
      match engine.queue.tryPop with
      | none => some (.popped none, engine)
      | some (batch, queue) => some (.popped (some batch), { engine with queue := queue })

/-- The batches of a run in the order of publication: those popped, then those
still queued. -/
def publishedIn (outputs : List (EventOutput B)) (engine : BoundedEventEngine A R L O N B Q) :
    List (EventBatch B) :=
  outputs.filterMap EventOutput.batch ++ engine.queue.items

/-- The processed commands of a run with their batches. -/
def streamOf (outputs : List (EventOutput B)) (engine : BoundedEventEngine A R L O N B Q) :
    List (Command × EventBatch B) :=
  (outputs.filterMap EventOutput.command).zip (publishedIn outputs engine)

/-- A batch is numbered from zero under its command's sequence and its trades
sum to what was filled. -/
structure WellPublished (item : Command × EventBatch B) : Prop where
  numbered : Numbered item.1.sequence 0 item.2.events
  traded : tradedIn item.2.events = filledIn item.2.events

/-- What the outputs so far say about an engine. -/
structure Streamed (outputs : List (EventOutput B)) (engine : BoundedEventEngine A R L O N B Q) : Prop where
  follows : ∃ logical, GatewayRep engine.gateway logical ∧ logical.Sound ∧
    Follows (Replica.empty.replay (streamOf outputs engine)) engine logical
  matched : (outputs.filterMap EventOutput.command).length = (publishedIn outputs engine).length
  published : ∀ item ∈ streamOf outputs engine, WellPublished item
  clean : ∀ command error, EventOutput.processed command (.error error) ∈ outputs →
    error ≠ .eventCapacityInvariant ∧ error ≠ .publicationInvariant

variable {engine engine' : BoundedEventEngine A R L O N B Q} {outputs : List (EventOutput B)}

/-- A stream is replayed one batch after the other. -/
theorem Replica.replay_append (replica : Replica) (stream more : List (Command × EventBatch B)) :
    replica.replay (stream ++ more) = (replica.replay stream).replay more :=
  List.foldl_append

variable (outputs engine) in
/-- An output that neither processes nor pops leaves the stream as it is. -/
theorem streamOf_quiet {output : EventOutput B} (hcommand : output.command = none) (hbatch : output.batch = none) :
    (outputs ++ [output]).filterMap EventOutput.command = outputs.filterMap EventOutput.command ∧
      publishedIn (outputs ++ [output]) engine = publishedIn outputs engine ∧
      streamOf (outputs ++ [output]) engine = streamOf outputs engine := by
  have hcommands : (outputs ++ [output]).filterMap EventOutput.command = outputs.filterMap EventOutput.command := by
    rw [List.filterMap_append, List.filterMap_cons_none hcommand, List.filterMap_nil, List.append_nil]
  have hbatches : publishedIn (outputs ++ [output]) engine = publishedIn outputs engine := by
    rw [publishedIn, List.filterMap_append, List.filterMap_cons_none hbatch, List.filterMap_nil, List.append_nil]
    rfl
  refine ⟨hcommands, hbatches, ?_⟩
  rw [streamOf, hcommands, hbatches]
  rfl

variable (outputs) in
/-- A pop moves a batch from the queue to the consumer, and the stream
stays. -/
theorem streamOf_pop {popped : EventBatch B} (hitems : engine.queue.items = popped :: engine'.queue.items) :
    (outputs ++ [EventOutput.popped (some popped)]).filterMap EventOutput.command = outputs.filterMap EventOutput.command ∧
      publishedIn (outputs ++ [.popped (some popped)]) engine' = publishedIn outputs engine ∧
      streamOf (outputs ++ [.popped (some popped)]) engine' = streamOf outputs engine := by
  have hcommands : (outputs ++ [EventOutput.popped (some popped)]).filterMap EventOutput.command =
      outputs.filterMap EventOutput.command := by
    rw [List.filterMap_append, List.filterMap_cons_none rfl, List.filterMap_nil, List.append_nil]
  have hbatches : publishedIn (outputs ++ [.popped (some popped)]) engine' = publishedIn outputs engine := by
    rw [publishedIn, publishedIn, List.filterMap_append, hitems, List.append_assoc]
    rfl
  refine ⟨hcommands, hbatches, ?_⟩
  rw [streamOf, hcommands, hbatches]
  rfl

/-- A processed command adds itself and its batch to the stream. -/
theorem streamOf_process (command : Command) {batch : EventBatch B}
    (hmatched : (outputs.filterMap EventOutput.command).length = (publishedIn outputs engine).length)
    (hqueued : engine'.queue.items = engine.queue.items ++ [batch]) :
    (outputs ++ [EventOutput.processed (B := B) (some command) (.ok ())]).filterMap EventOutput.command =
        outputs.filterMap EventOutput.command ++ [command] ∧
      publishedIn (outputs ++ [.processed (some command) (.ok ())]) engine' = publishedIn outputs engine ++ [batch] ∧
      streamOf (outputs ++ [.processed (some command) (.ok ())]) engine' =
        streamOf outputs engine ++ [(command, batch)] := by
  have hcommands : (outputs ++ [EventOutput.processed (B := B) (some command) (.ok ())]).filterMap
      EventOutput.command = outputs.filterMap EventOutput.command ++ [command] := by
    rw [List.filterMap_append]
    rfl
  have hbatches : publishedIn (outputs ++ [.processed (some command) (.ok ())]) engine' =
      publishedIn outputs engine ++ [batch] := by
    rw [publishedIn, publishedIn, List.filterMap_append, List.filterMap_cons_none rfl, List.filterMap_nil,
      List.append_nil, hqueued, List.append_assoc]
  refine ⟨hcommands, hbatches, ?_⟩
  rw [streamOf, hcommands, hbatches, List.zip_append hmatched]
  rfl

/-- An output that neither processes nor pops keeps the stream true. -/
theorem Streamed.quiet {output : EventOutput B} (h : Streamed outputs engine) (hcommand : output.command = none)
    (hbatch : output.batch = none)
    (hclean : ∀ command error, output = .processed command (.error error) →
      error ≠ .eventCapacityInvariant ∧ error ≠ .publicationInvariant) :
    Streamed (outputs ++ [output]) engine := by
  obtain ⟨hcommands, hbatches, hstream⟩ := streamOf_quiet engine outputs hcommand hbatch
  refine ⟨?_, ?_, ?_, ?_⟩
  · rw [hstream]
    exact h.follows
  · rw [hcommands, hbatches]
    exact h.matched
  · rw [hstream]
    exact h.published
  · intro command error hmem
    rcases List.mem_append.mp hmem with hbefore | hlast
    · exact h.clean command error hbefore
    · exact hclean command error (List.mem_singleton.mp hlast).symm

/-- A pop moves the oldest batch from the queue to the consumer. -/
theorem Streamed.pop {popped : EventBatch B} (h : Streamed outputs engine) (hgateway : engine'.gateway = engine.gateway)
    (hitems : engine.queue.items = popped :: engine'.queue.items) :
    Streamed (outputs ++ [.popped (some popped)]) engine' := by
  obtain ⟨hcommands, hbatches, hstream⟩ := streamOf_pop outputs hitems
  refine ⟨?_, ?_, ?_, ?_⟩
  · rw [hstream]
    obtain ⟨logical, rep, sound, follows⟩ := h.follows
    have htops : engine'.tops = engine.tops := by rw [BoundedEventEngine.tops, hgateway]; rfl
    exact ⟨logical, hgateway ▸ rep, sound, follows.orders, follows.tops.trans htops.symm⟩
  · rw [hcommands, hbatches]
    exact h.matched
  · rw [hstream]
    exact h.published
  · intro command error hmem
    rcases List.mem_append.mp hmem with hbefore | hlast
    · exact h.clean command error hbefore
    · cases List.mem_singleton.mp hlast

/-- A processed command adds itself and its batch. -/
theorem Streamed.process (hN : N + 2 ≤ 2 ^ 16) (hB : N + 2 ≤ B) {command : Command}
    {result : Except EventEngineError Unit} (h : Streamed outputs engine)
    (hprocess : engine.processCommand command = some (result, engine')) :
    Streamed (outputs ++ [.processed (some command) result]) engine' := by
  obtain ⟨logical, rep, sound, follows⟩ := h.follows
  rcases BoundedEventEngine.processCommand_cases hN hB rep sound hprocess with
    ⟨error, hpreflight, rfl, rfl⟩ | ⟨_, rfl, logical', answer, batch, published⟩
  · refine h.quiet rfl rfl ?_
    rintro _ _ ⟨⟩
    exact BoundedEventEngine.preflight_clean hpreflight
  · obtain ⟨hcommands, hbatches, hstream⟩ := streamOf_process command h.matched published.queued
    refine ⟨⟨logical', published.rep, published.sound, ?_⟩, ?_, ?_, ?_⟩
    · rw [hstream, Replica.replay_append]
      exact published.follows rep sound follows
    · rw [hcommands, hbatches, List.length_append, List.length_append, h.matched]
      rfl
    · intro item hitem
      rw [hstream] at hitem
      rcases List.mem_append.mp hitem with hbefore | hlast
      · exact h.published item hbefore
      · rw [List.mem_singleton.mp hlast]
        refine ⟨?_, published.traded⟩
        have hreports := published.reports
        rw [published.events]
        exact numbered_eventsOf _ _ _ _ _ (by omega)
    · intro other error hmem
      rcases List.mem_append.mp hmem with hbefore | hlast
      · exact h.clean other error hbefore
      · cases List.mem_singleton.mp hlast

/-- Every call keeps the stream true. -/
theorem Streamed.perform (hN : N + 2 ≤ 2 ^ 16) (hB : N + 2 ≤ B) {call : EventCall} {output : EventOutput B}
    (h : Streamed outputs engine) (hperform : engine.perform call = some (output, engine')) :
    Streamed (outputs ++ [output]) engine' := by
  cases call with
  | command command =>
      obtain ⟨⟨result, next⟩, hprocess, heq⟩ := Option.map_eq_some_iff.mp hperform
      cases heq
      exact h.process hN hB hprocess
  | frame bytes =>
      obtain ⟨⟨result, next⟩, hprocess, heq⟩ := Option.map_eq_some_iff.mp hperform
      cases heq
      cases hparse : parseMessage bytes with
      | error error =>
          rw [BoundedEventEngine.processFrame, hparse] at hprocess
          cases hprocess
          refine h.quiet rfl rfl ?_
          rintro _ _ ⟨⟩
          exact ⟨by simp, by simp⟩
      | ok message =>
          rw [BoundedEventEngine.processFrame_eq hparse] at hprocess
          exact h.process hN hB hprocess
  | pop =>
      unfold BoundedEventEngine.perform at hperform
      cases hpop : engine.queue.tryPop with
      | none =>
          rw [hpop] at hperform
          cases hperform
          exact h.quiet rfl rfl (by rintro _ _ ⟨⟩)
      | some popped =>
          rw [hpop] at hperform
          cases hperform
          exact h.pop rfl (BoundedQueue.tryPop_eq_some.mp hpop)

/-- The consumer's view of an exported order. -/
def liveState (order : BookOrderState) : LiveOrder := ⟨order.accountId, order.side, order.price, order.quantity⟩

/-- After every run of an event engine over a new gateway, with the consumer at
any point: every processed command has exactly one batch; replaying the
processed commands with their batches gives exactly the resting orders and the
current tops; every batch is numbered under its command's sequence and its
trades sum to the filled quantity; and the two capacity failures after
admission never occur. -/
theorem event_stream_determines_book {risk : RiskEngine A R} {instrument : InstrumentId}
    {start : BoundedEventEngine A R L O N B Q} {calls : List EventCall} (hconfigured : Configured risk)
    (hstart : BoundedEventEngine.tryNew (Gateway.new risk instrument) BoundedQueue.empty = .ok start)
    (hrun : run BoundedEventEngine.perform start calls = some (outputs, engine)) :
    (outputs.filterMap EventOutput.command).length = (publishedIn outputs engine).length ∧
    (∀ id live, (Replica.empty.replay (streamOf outputs engine)).orders id = some live ↔
      ∃ order ∈ engine.gateway.book.exportState.orders, order.orderId = id ∧ liveState order = live) ∧
    (Replica.empty.replay (streamOf outputs engine)).tops =
      (engine.gateway.topLevel .buy, engine.gateway.topLevel .sell) ∧
    (∀ item ∈ streamOf outputs engine, WellPublished item) ∧
    (∀ command error, EventOutput.processed command (.error error) ∈ outputs →
      error ≠ .eventCapacityInvariant ∧ error ≠ .publicationInvariant) := by
  obtain ⟨hN, hB, rfl⟩ := BoundedEventEngine.tryNew_eq_ok hstart
  obtain ⟨state, rep, fresh⟩ := hconfigured.ledger
  have hfirst : Streamed [] (⟨Gateway.new risk instrument, BoundedQueue.empty⟩ : BoundedEventEngine A R L O N B Q) := by
    refine ⟨⟨LogicalGateway.new state instrument, gatewayRep_new rep instrument, sound_new_gateway rep fresh instrument,
      ?_, ?_⟩, rfl, ?_, by simp⟩
    · funext id
      rfl
    · rw [tops_eq (gatewayRep_new rep instrument)]
      rfl
    · simp [streamOf]
  have hlast := run_outputs Streamed (fun h hperform => h.perform hN hB hperform) [] hfirst hrun
  rw [List.nil_append] at hlast
  obtain ⟨logical, rep', sound, follows⟩ := hlast.follows
  refine ⟨hlast.matched, fun id live => ?_, follows.tops, hlast.published, hlast.clean⟩
  rw [follows.orders, copyOf_eq_some_iff rep'.book.wellFormed.ids, orders_exportState rep'.book]
  constructor
  · rintro ⟨entry, hmem, hid, hlive⟩
    exact ⟨entryState entry, List.mem_map_of_mem hmem, hid, hlive⟩
  · rintro ⟨_, hmem, hid, hlive⟩
    obtain ⟨entry, hentry, rfl⟩ := List.mem_map.mp hmem
    exact ⟨entry, hentry, hid, hlive⟩

/-- An offer rests, a bid trades with it, and the consumer takes the first
batch. -/
def sampleEventCalls : List EventCall :=
  [.command (.newOrder ⟨1, 1, 7, i64 10, 5, 1, .sell, .gtc⟩),
    .command (.newOrder ⟨2, 2, 7, i64 10, 2, 2, .buy, .gtc⟩), .pop]

/-- The sample session trades, and the replayed stream has the tops of its
book. -/
theorem event_stream_determines_book_sample :
    ∃ outputs, ∃ engine : BoundedEventEngine 2 4 2 2 2 4 2,
      run BoundedEventEngine.perform ⟨Gateway.new sampleRisk 7, BoundedQueue.empty⟩ sampleEventCalls =
        some (outputs, engine) ∧
      (Replica.empty.replay (streamOf outputs engine)).tops =
        (engine.gateway.topLevel .buy, engine.gateway.topLevel .sell) := by
  have hreturns : (run (BoundedEventEngine.perform (A := 2) (R := 4) (L := 2) (O := 2) (N := 2) (B := 4) (Q := 2))
      ⟨Gateway.new sampleRisk 7, BoundedQueue.empty⟩ sampleEventCalls).isSome = true := by decide +kernel
  obtain ⟨⟨outputs, engine⟩, hrun⟩ := Option.isSome_iff_exists.mp hreturns
  exact ⟨outputs, engine, hrun, (event_stream_determines_book sampleRisk_configured rfl hrun).2.2.1⟩

end HftEngine
