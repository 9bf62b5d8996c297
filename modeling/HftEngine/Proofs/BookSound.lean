/-
Module: HftEngine.Proofs.BookSound
Layer: Proofs
Purpose: Market sanity of the book: it is never crossed, every level has a
  positive price and at least one order, and nothing rests with quantity zero.
  An accepted order exhausts what it crosses before it rests, post-only orders
  and repriced amends are refused when they would cross, and an amend at its
  own price cannot cross.
Imports: HftEngine.Proofs.LogicalSteps, HftEngine.Proofs.BookInvariant
Trusted boundary: none (fully proved)
Main exports: LogicalBook.Sound, Sound.submit, Sound.replace, Sound.cancel,
  BookSound, orders_exportState, OrderBook.Reachable, book_sound_of_run
-/
import HftEngine.Proofs.LogicalSteps
import HftEngine.Proofs.BookInvariant

namespace HftEngine

open Machine Transition

variable {L O N : Nat} {book book' : OrderBook L O} {logical logical' : LogicalBook} {side : Side}
  {price : PriceTicks}

/-- Positive prices and quantities, and every bid below every ask. -/
structure LogicalBook.Sound (logical : LogicalBook) : Prop where
  prices : ∀ entry ∈ logical.orders, 0 < entry.2.1.val
  quantities : ∀ entry ∈ logical.orders, entry.2.2.quantity.val ≠ 0
  uncrossed : ∀ bid ∈ logical.orders, ∀ ask ∈ logical.orders, bid.1 = .buy → ask.1 = .sell →
    bid.2.1.val < ask.2.1.val

/-- An empty book satisfies the invariant. -/
theorem sound_new (instrument : InstrumentId) : (LogicalBook.new instrument).Sound :=
  ⟨by simp [LogicalBook.new, LogicalBook.orders], by simp [LogicalBook.new, LogicalBook.orders],
    by simp [LogicalBook.new, LogicalBook.orders]⟩

/-! ### Operations -/

theorem ne_opposite (side : Side) : side ≠ side.opposite := by
  cases side <;> decide

/-- Two entries at the same side and price. -/
def SamePlace (first second : BookEntry) : Prop := first.1 = second.1 ∧ first.2.1 = second.2.1

/-- A book whose entries all stand where entries of a sound book stood is
sound. -/
theorem LogicalBook.Sound.of_kept (sound : logical.Sound)
    (hkept : ∀ entry ∈ logical'.orders, ∃ old ∈ logical.orders, SamePlace entry old)
    (hquantities : ∀ entry ∈ logical'.orders, entry.2.2.quantity.val ≠ 0) : logical'.Sound := by
  refine ⟨?_, hquantities, ?_⟩
  · intro entry hentry
    obtain ⟨old, hold, _, hprice⟩ := hkept entry hentry
    rw [hprice]
    exact sound.prices old hold
  · intro bid hbid ask hask hbuy hsell
    obtain ⟨oldBid, hold, hside, hprice⟩ := hkept bid hbid
    obtain ⟨oldAsk, hold', hside', hprice'⟩ := hkept ask hask
    rw [hprice, hprice']
    exact sound.uncrossed oldBid hold oldAsk hold' (hside ▸ hbuy) (hside' ▸ hsell)

/-- A book of kept entries and one place that nothing opposite crosses is
sound. -/
theorem LogicalBook.Sound.of_placed (sound : logical.Sound) (side : Side) (hpositive : 0 < price.val)
    (hkept : ∀ entry ∈ logical'.orders, (∃ old ∈ logical.orders, SamePlace entry old) ∨
      (entry.1 = side ∧ entry.2.1 = price))
    (hquantities : ∀ entry ∈ logical'.orders, entry.2.2.quantity.val ≠ 0)
    (hclear : ∀ entry ∈ logical'.orders, entry.1 = side.opposite → crosses side price entry.2.1 = false) :
    logical'.Sound := by
  refine ⟨?_, hquantities, ?_⟩
  · intro entry hentry
    rcases hkept entry hentry with ⟨old, hold, _, hprice⟩ | ⟨_, hprice⟩
    · rw [hprice]
      exact sound.prices old hold
    · rw [hprice]
      exact hpositive
  · intro bid hbid ask hask hbuy hsell
    rcases hkept bid hbid with ⟨oldBid, hold, hside, hprice⟩ | ⟨rfl, hprice⟩
    · rcases hkept ask hask with ⟨oldAsk, hold', hside', hprice'⟩ | ⟨rfl, hprice'⟩
      · rw [hprice, hprice']
        exact sound.uncrossed oldBid hold oldAsk hold' (hside ▸ hbuy) (hside' ▸ hsell)
      · have hfree := hclear bid hbid (by rw [hbuy, hsell]; rfl)
        rw [hsell] at hfree
        simp only [crosses, decide_eq_false_iff_not] at hfree
        rw [hprice']
        omega
    · have hfree := hclear ask hask (by rw [hbuy, hsell]; rfl)
      rw [hbuy] at hfree
      simp only [crosses, decide_eq_false_iff_not] at hfree
      rw [hprice]
      omega

/-- An accepted submission keeps the invariant: a remainder rests only when
nothing is left that it would cross. -/
theorem LogicalBook.Sound.submit (sound : logical.Sound) (wf : logical.WellFormed) {order : NewOrder}
    {summary : MatchSummary} {fills : List ModelFill} {resting discarded : Quantity}
    (h : Submitted N logical order summary fills logical' resting discarded) : logical'.Sound := by
  have hleft := fillEntries_positive (h.fillable sound.quantities) wf.ids sound.quantities
  have hmem : ∀ entry, entry ∈ logical'.orders ↔
      entry ∈ restEntries order resting ∨ entry ∈ fillEntries fills logical.orders := by
    intro entry
    rw [h.orders.mem_iff, List.mem_append]
  have hfilled : ∀ entry ∈ fillEntries fills logical.orders, ∃ old ∈ logical.orders, SamePlace entry old := by
    intro entry hentry
    obtain ⟨old, hold, hside, hprice, _⟩ := fillEntries_kept hentry
    exact ⟨old, hold, hside, hprice⟩
  by_cases hzero : resting.val = 0
  · simp only [restEntries, if_pos hzero, List.not_mem_nil, false_or] at hmem
    exact sound.of_kept (fun entry hentry => hfilled entry ((hmem entry).mp hentry))
      fun entry hentry => hleft entry ((hmem entry).mp hentry)
  · simp only [restEntries, if_neg hzero, List.mem_singleton] at hmem
    apply sound.of_placed order.side h.price
    · intro entry hentry
      rcases (hmem entry).mp hentry with rfl | hkept
      · exact .inr ⟨rfl, rfl⟩
      · exact .inl (hfilled entry hkept)
    · intro entry hentry
      rcases (hmem entry).mp hentry with rfl | hkept
      · exact hzero
      · exact hleft entry hkept
    · intro entry hentry hside
      rcases (hmem entry).mp hentry with rfl | hkept
      · exact absurd hside (ne_opposite order.side)
      · exact h.clear hzero entry hkept hside

/-- An accepted amend keeps the invariant, the new price having been checked
against the other side. -/
theorem LogicalBook.Sound.replace (sound : logical.Sound) (wf : logical.WellFormed) {request : ReplaceOrder}
    {replaced : ReplacedOrder} {old : ModelOrder} {sequence : SequenceNumber}
    (h : Amended logical request replaced logical' side price old sequence) : logical'.Sound := by
  have hmem : ∀ entry ∈ logical'.orders, (entry.1 = side ∧ entry.2.1 = request.price ∧
      entry.2.2.quantity = request.quantity) ∨ entry ∈ logical.orders := by
    intro entry hentry
    rw [h.orders.mem_iff] at hentry
    rcases List.mem_cons.mp hentry with rfl | hkept
    · exact .inl ⟨rfl, rfl, rfl⟩
    · exact .inr (List.mem_filter.mp hkept).1
  have hquantities : ∀ entry ∈ logical'.orders, entry.2.2.quantity.val ≠ 0 := by
    intro entry hentry
    rcases hmem entry hentry with ⟨_, _, hquantity⟩ | hkept
    · rw [hquantity]
      exact h.quantity
    · exact sound.quantities entry hkept
  rcases h.clear with hsame | hbest
  · -- at its own price the amended order stands where it stood
    refine sound.of_kept (fun entry hentry => ?_) hquantities
    rcases hmem entry hentry with ⟨hside, hprice, _⟩ | hkept
    · exact ⟨_, (mem_of_find h.found).1, hside, hprice.trans hsame⟩
    · exact ⟨entry, hkept, rfl, rfl⟩
  · apply sound.of_placed side h.price_pos ?_ hquantities ?_
    · intro entry hentry
      rcases hmem entry hentry with ⟨hside, hprice, _⟩ | hkept
      · exact .inr ⟨hside, hprice⟩
      · exact .inl ⟨entry, hkept, rfl, rfl⟩
    · intro entry hentry hopposite
      rcases hmem entry hentry with ⟨hside, _, _⟩ | hkept
      · rw [hside] at hopposite
        exact absurd hopposite (ne_opposite side)
      · exact clear_of_best wf hbest entry hkept hopposite

/-- Taking orders out of a book keeps the invariant. -/
theorem LogicalBook.Sound.cancel (sound : logical.Sound) {id : OrderId}
    (h : logical'.orders = logical.orders.filter fun other => decide (other.2.2.id ≠ id)) : logical'.Sound := by
  have hmem : ∀ entry ∈ logical'.orders, entry ∈ logical.orders := by
    intro entry hentry
    rw [h] at hentry
    exact (List.mem_filter.mp hentry).1
  exact sound.of_kept (fun entry hentry => ⟨entry, hmem entry hentry, rfl, rfl⟩)
    fun entry hentry => sound.quantities entry (hmem entry hentry)

/-! ### Restored books -/

/-- Every bid of a valid state stands below every ask: its best ones do, and
the sides are sorted. -/
theorem StateValid.sound {state : BookState L O} (valid : StateValid state) : state.content.Sound := by
  have hentry : ∀ entry ∈ state.content.orders, ∃ level ∈ state.activeSide entry.1,
      level.price = entry.2.1 ∧ ∃ order ∈ level.active, order.view = entry.2.2 := by
    rintro ⟨side, price, order⟩ hmem
    obtain ⟨queue, hlevel, horder⟩ := mem_orders.mp hmem
    rw [levels_content] at hlevel
    obtain ⟨level, hactive, heq⟩ := List.mem_map.mp hlevel
    obtain ⟨rfl, rfl⟩ : level.price = price ∧ level.active.map BookOrderState.view = queue := Prod.mk.inj heq
    obtain ⟨stored, hstored, hview⟩ := List.mem_map.mp horder
    exact ⟨level, hactive, rfl, stored, hstored, hview⟩
  have hlevels : ∀ bid ∈ state.activeSide .buy, ∀ ask ∈ state.activeSide .sell, bid.price.val < ask.price.val := by
    intro bid hbid ask hask
    have huncrossed := valid.uncrossed
    have hbids := valid.sorted .buy
    have hasks := valid.sorted .sell
    unfold OrderBook.crossedState at huncrossed
    simp only [BookState.activeSide] at hbid hask hbids hasks
    cases hb : state.activeBids with
    | nil => simp [hb] at hbid
    | cons best rest =>
        cases ha : state.activeAsks with
        | nil => simp [ha] at hask
        | cons best' rest' =>
            rw [hb] at hbid hbids huncrossed
            rw [ha] at hask hasks huncrossed
            simp only [List.head?_cons, decide_eq_false_iff_not, not_le] at huncrossed
            have hbest : bid.price.val ≤ best.price.val := by
              rcases List.mem_cons.mp hbid with rfl | hrest
              · exact le_rfl
              · have hbelow := (List.pairwise_cons.mp hbids).1 _ (List.mem_map_of_mem hrest)
                exact le_of_lt (of_decide_eq_true hbelow)
            have hbest' : best'.price.val ≤ ask.price.val := by
              rcases List.mem_cons.mp hask with rfl | hrest
              · exact le_rfl
              · have habove := (List.pairwise_cons.mp hasks).1 _ (List.mem_map_of_mem hrest)
                exact le_of_lt (of_decide_eq_true habove)
            exact hbest.trans_lt (huncrossed.trans_le hbest')
  refine ⟨?_, ?_, ?_⟩
  · intro entry hmem
    obtain ⟨level, hlevel, hprice, _⟩ := hentry entry hmem
    rw [← hprice]
    exact (valid.levels entry.1 level hlevel).price_pos
  · intro entry hmem
    obtain ⟨level, hlevel, _, order, horder, hview⟩ := hentry entry hmem
    rw [← hview]
    exact ((valid.levels entry.1 level hlevel).orders order horder).2.2.1
  · intro bid hbid ask hask hbuy hsell
    obtain ⟨bidLevel, hbidLevel, hprice, _⟩ := hentry bid hbid
    obtain ⟨askLevel, haskLevel, hprice', _⟩ := hentry ask hask
    rw [hbuy] at hbidLevel
    rw [hsell] at haskLevel
    rw [← hprice, ← hprice']
    exact hlevels bidLevel hbidLevel askLevel haskLevel

/-! ### Storage -/

/-- Market sanity read off the storage: the two best prices, and every level in
use. -/
structure BookSound (book : OrderBook L O) : Prop where
  uncrossed : ∀ bid ∈ (book.sideIndex .buy).entries.head?, ∀ ask ∈ (book.sideIndex .sell).entries.head?,
    bid.1.val < ask.1.val
  indexed : ∀ side, ∀ entry ∈ (book.sideIndex side).entries, 0 < entry.1.val ∧
    ∃ level, book.getLevel side entry.2 = some level ∧ level.price = entry.1
  levels : ∀ side i level, book.getLevel side i = some level → 0 < level.price.val ∧ level.liveOrders ≠ [] ∧
    level.len = level.liveOrders.length ∧ ∀ order ∈ level.liveOrders, order.quantity.val ≠ 0
  resting : ∀ location order, book.liveOrder location = some order → order.quantity.val ≠ 0

/-- A represented book is sound when its content is. -/
theorem Represents.sound (h : Represents book logical) (sound : logical.Sound) : BookSound book := by
  obtain ⟨views, rep, rfl⟩ := h
  have horders : ∀ {side view data}, view ∈ views side → data ∈ view.nodes.map Prod.snd →
      (side, view.price, data) ∈ (logicalOf book.instrument views).orders := by
    intro side view data hview hdata
    refine mem_orders.mpr ⟨view.nodes.map Prod.snd, ?_, hdata⟩
    rw [levels_logicalOf]
    exact List.mem_map_of_mem hview
  -- every level holds an order, so what holds of the orders' prices holds of the levels'
  have hfirst : ∀ {side view}, view ∈ views side → ∃ data, data ∈ view.nodes.map Prod.snd := by
    intro side view hview
    obtain ⟨node, hnode⟩ := List.exists_mem_of_ne_nil _ (rep.occupied side view hview)
    exact ⟨node.2, List.mem_map_of_mem hnode⟩
  have hprice : ∀ {side view}, view ∈ views side → 0 < view.price.val := by
    intro side view hview
    obtain ⟨data, hdata⟩ := hfirst hview
    exact sound.prices _ (horders hview hdata)
  refine ⟨?_, ?_, ?_, ?_⟩
  · intro bid hbid ask hask
    rw [(rep.side .buy).entries] at hbid
    rw [(rep.side .sell).entries] at hask
    obtain ⟨bidView, hbidView, rfl⟩ := List.mem_map.mp (List.mem_of_mem_head? hbid)
    obtain ⟨askView, haskView, rfl⟩ := List.mem_map.mp (List.mem_of_mem_head? hask)
    obtain ⟨data, hdata⟩ := hfirst hbidView
    obtain ⟨data', hdata'⟩ := hfirst haskView
    exact sound.uncrossed _ (horders hbidView hdata) _ (horders haskView hdata') rfl rfl
  · intro side entry hentry
    rw [(rep.side side).entries] at hentry
    obtain ⟨view, hview, rfl⟩ := List.mem_map.mp hentry
    obtain ⟨level, _, hlevel, hlevelPrice, _⟩ := (rep.side side).stored view hview
    exact ⟨hprice hview, level, hlevel, hlevelPrice⟩
  · intro side i level hlevel
    obtain ⟨view, hview, _, hlevelPrice, free, hrep⟩ := (rep.side side).view_of_getLevel hlevel
    have hlive := hrep.liveOrders_eq
    have hlength : level.liveOrders.length = view.nodes.length := by
      simpa using congrArg List.length hlive
    refine ⟨?_, ?_, ?_, ?_⟩
    · rw [hlevelPrice]
      exact hprice hview
    · rw [← List.length_pos_iff, hlength, List.length_pos_iff]
      exact rep.occupied side view hview
    · rw [hrep.len, hlength]
    · intro order horder
      have hmem := List.mem_map_of_mem (f := RestingOrder.view) horder
      rw [hlive] at hmem
      exact sound.quantities _ (horders hview hmem)
  · intro location order hlive
    obtain ⟨level, hlevel, hslot⟩ := Option.bind_eq_some_iff.mp hlive
    obtain ⟨view, hview, _, _, free, hrep⟩ := (rep.side location.side).view_of_getLevel hlevel
    exact sound.quantities _ (horders hview (List.mem_map_of_mem (hrep.mem_of_live hslot)))

/-! ### The exported orders -/

/-- The exported record of a resting order. -/
def entryState (entry : BookEntry) : BookOrderState := orderState entry.1 entry.2.1 entry.2.2

/-- The orders of one side of the state of a book are the entries of that
side. -/
theorem sideOrders_state {content : LogicalBook} (bounded : content.Bounded L O) (side : Side) :
    ((content.state L O).activeSide side).flatMap BookLevelState.active
      = (entriesOf side (content.levels side)).map entryState := by
  rw [activeSide_state bounded, List.flatMap_map, entriesOf, List.map_flatMap]
  refine List.flatMap_congr fun level hlevel => ?_
  rw [active_levelState (bounded.queues side level hlevel), List.map_map]
  rfl

/-- The orders of the state of a book are its resting orders. -/
theorem orders_state {content : LogicalBook} (bounded : content.Bounded L O) :
    (content.state L O).orders = content.orders.map entryState := by
  rw [orders_eq, List.map_append, ← sideOrders_state bounded, ← sideOrders_state bounded, ← List.flatMap_append]
  rfl

/-- The orders of an exported book are its resting orders. -/
theorem orders_exportState {content : LogicalBook} (h : Represents book content) :
    book.exportState.orders = content.orders.map entryState := by
  rw [exportState_eq h]
  exact orders_state h.bounded

/-! ### Runs -/

/-- The content of a book, with what every run keeps of it. -/
def Sane (book : OrderBook L O) : Prop := ∃ logical, Represents book logical ∧ logical.Sound

/-- Every command of a book, accepted or refused, keeps the invariant. -/
theorem answer_sane {command : BookCommand} {answer : BookAnswer} (h : Sane book)
    (hanswer : book.answer command = some (answer, book')) : Sane book' := by
  obtain ⟨logical, represents, sound⟩ := h
  have wf := represents.wellFormed
  cases command with
  | submit order reports =>
      obtain ⟨⟨result, after, reports'⟩, hsubmit, heq⟩ := Option.map_eq_some_iff.mp hanswer
      cases heq
      have hbook := submit_refines represents order reports
      cases hlogical : logical.submit L O order reports.remainingCapacity with
      | none =>
          rw [hlogical] at hbook
          cases hsubmit.symm.trans hbook
      | some found =>
          obtain ⟨outcome, logical'⟩ := found
          rw [hlogical] at hbook
          cases outcome with
          | error reason =>
              obtain ⟨hrefused, rfl⟩ := hbook
              cases hsubmit.symm.trans hrefused
              exact ⟨logical', represents, sound⟩
          | ok accepted =>
              obtain ⟨book'', reports'', haccepted, hrep, _, _⟩ := hbook
              cases hsubmit.symm.trans haccepted
              obtain ⟨resting, discarded, hsubmitted⟩ := submit_effect wf hlogical
              exact ⟨logical', hrep, sound.submit wf hsubmitted⟩
  | cancel request =>
      obtain ⟨⟨result, after⟩, hcancel, heq⟩ := Option.map_eq_some_iff.mp hanswer
      cases heq
      obtain ⟨book'', hlogical, hrep, _⟩ := cancel_refines represents request
      cases hcancel.symm.trans hlogical
      refine ⟨_, hrep, ?_⟩
      cases hresult : logical.cancel request with
      | mk outcome logical' =>
          cases outcome with
          | error reason =>
              rw [cancel_refused hresult]
              exact sound
          | ok cancelled =>
              obtain ⟨side, price, order, _, _, _, horders, _⟩ := cancel_effect wf hresult
              exact sound.cancel horders
  | replace request =>
      obtain ⟨⟨result, after⟩, hreplace, heq⟩ := Option.map_eq_some_iff.mp hanswer
      cases heq
      obtain ⟨book'', hlogical, hrep, _⟩ := replace_refines represents request
      cases hreplace.symm.trans hlogical
      refine ⟨_, hrep, ?_⟩
      cases hresult : logical.replace L O request with
      | mk outcome logical' =>
          cases outcome with
          | error reason =>
              rw [replace_refused hresult]
              exact sound
          | ok replaced =>
              obtain ⟨side, price, old, sequence, hamended⟩ := replace_effect wf hresult
              exact sound.replace wf hamended

/-- Every run keeps the content sane, from an empty book or from a book
restored from a state. -/
theorem sane_of_run {start : OrderBook L O} {instrument : InstrumentId}
    (hstart : start = OrderBook.new instrument ∨
      ∃ state : BookState L O, OrderBook.fromState instrument state = .ok start)
    {commands : List BookCommand} {answers : List BookAnswer}
    (hrun : run OrderBook.answer start commands = some (answers, book)) : Sane book := by
  have hsane : Sane start := by
    rcases hstart with rfl | ⟨state, hstate⟩
    · exact ⟨_, represents_new instrument, sound_new instrument⟩
    · obtain ⟨_, valid, hrep⟩ := represents_of_fromState hstate
      exact ⟨_, hrep, valid.sound⟩
  exact run_invariant (P := fun _ => True) (fun h _ hstep => answer_sane h hstep) (fun _ _ => trivial) hsane hrun

/-- A book that some sequence of calls leads to, from an empty book or from one
restored from a state. -/
def OrderBook.Reachable (book : OrderBook L O) : Prop :=
  ∃ (instrument : InstrumentId) (start : OrderBook L O) (commands : List BookCommand) (answers : List BookAnswer),
    (start = OrderBook.new instrument ∨ ∃ state : BookState L O, OrderBook.fromState instrument state = .ok start) ∧
    run OrderBook.answer start commands = some (answers, book)

/-- Every reachable book satisfies the invariant, a restored one included. -/
theorem OrderBook.Reachable.sane (h : book.Reachable) : Sane book := by
  obtain ⟨instrument, start, commands, answers, hstart, hrun⟩ := h
  exact sane_of_run hstart hrun

/-- After every run of submissions, cancels and amends, whatever they return,
from an empty book or from a book restored from a state, the book is uncrossed
and holds no dead entry. -/
theorem book_sound_of_run {start : OrderBook L O} (instrument : InstrumentId)
    (hstart : start = OrderBook.new instrument ∨
      ∃ state : BookState L O, OrderBook.fromState instrument state = .ok start)
    {commands : List BookCommand} {answers : List BookAnswer}
    (hrun : run OrderBook.answer start commands = some (answers, book)) : BookSound book := by
  obtain ⟨logical, represents, sound⟩ := sane_of_run hstart hrun
  exact represents.sound sound

/-- The sample run up to its amend, which leaves an offer resting. -/
theorem book_sound_of_run_sample :
    ∃ answers, ∃ book : OrderBook 2 2,
      run OrderBook.answer (OrderBook.new 7) (sampleCommands.take 3) = some (answers, book) ∧ BookSound book := by
  obtain ⟨answers, book, hrun, _⟩ := run_total
    (fun h command => answer_represents (L := 2) (O := 2) (by decide) (by decide) (by decide) h command)
    (sampleCommands.take 3) ⟨_, represents_new 7⟩
  exact ⟨answers, book, hrun, book_sound_of_run 7 (.inl rfl) hrun⟩

end HftEngine
