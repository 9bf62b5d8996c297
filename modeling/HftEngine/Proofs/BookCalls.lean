/-
Module: HftEngine.Proofs.BookCalls
Layer: Proofs
Purpose: The calls of the book as a caller sees them. Every call on a reachable
  book is answered, and a refusal returns the book and the report buffer it was
  given. An amend that loses priority is a cancel followed by a post-only
  order: the amend checks the book before the order is taken out, the order
  checks it afterwards, and the two agree.
Imports: HftEngine.Proofs.BookSound
Trusted boundary: none (fully proved)
Main exports: book_calls_answered, Reenters, Reduces, replace_reenters
-/
import HftEngine.Proofs.BookSound

namespace HftEngine

open Machine Transition

variable {L O N : Nat} {book book' : OrderBook L O} {logical : LogicalBook} {side : Side} {price : PriceTicks}
  {old : ModelOrder} {reason : RejectReason}

/-! ### Refusals -/

/-- A refused cancel returns the book it was given. -/
theorem cancel_error {request : CancelOrder} (h : book.cancel request = some (.error reason, book')) :
    book' = book := by
  unfold OrderBook.cancel at h
  split at h
  · cases h
    rfl
  split at h
  · cases h
    rfl
  split at h
  · cases h
    rfl
  -- past the ownership check nothing is refused
  obtain ⟨level, _, h⟩ := Option.bind_eq_some_iff.mp h
  obtain ⟨⟨removed, level'⟩, _, h⟩ := Option.bind_eq_some_iff.mp h
  obtain ⟨⟨location, indexed⟩, _, h⟩ := Option.bind_eq_some_iff.mp h
  cases h

/-- A refused amend returns the book it was given. -/
theorem replace_error {request : ReplaceOrder} (h : book.replace request = some (.error reason, book')) :
    book' = book := by
  unfold OrderBook.replace at h
  split at h
  · cases h
    rfl
  split at h
  · cases h
    rfl
  split at h
  · cases h
    rfl
  split at h
  · cases h
    rfl
  split at h
  · cases h
    rfl
  obtain ⟨level, _, h⟩ := Option.bind_eq_some_iff.mp h
  obtain ⟨old, _, h⟩ := Option.bind_eq_some_iff.mp h
  split at h
  · obtain ⟨reduced, _, h⟩ := Option.bind_eq_some_iff.mp h
    cases h
  · obtain ⟨checked, _, h⟩ := Option.bind_eq_some_iff.mp h
    cases checked with
    | error reason =>
        cases h
        rfl
    | ok _ =>
        obtain ⟨moved, _, h⟩ := Option.bind_eq_some_iff.mp h
        cases h

/-- A refused submission returns the book and the report buffer it was given:
the plan refuses before anything is applied. -/
theorem submit_error {order : NewOrder} {reports reports' : ReportBuffer N}
    (h : book.submit order reports = some (.error reason, book', reports')) : book' = book ∧ reports' = reports := by
  simp only [OrderBook.submit] at h
  split at h
  · cases h
  · cases h
    exact ⟨rfl, rfl⟩
  · obtain ⟨⟨after, filled⟩, _, h⟩ := Option.bind_eq_some_iff.mp h
    obtain ⟨traded, _, h⟩ := Option.bind_eq_some_iff.mp h
    obtain ⟨quantity, _, h⟩ := Option.bind_eq_some_iff.mp h
    obtain ⟨count, _, h⟩ := Option.bind_eq_some_iff.mp h
    cases h

/-- Every call on a reachable book returns: no `expect`, `unreachable!`, index
or subtraction of the operation fails. A refusal leaves the book and the report
buffer exactly as they were. -/
theorem book_calls_answered (hL : 1 ≤ L) (hO : 1 ≤ O) (hindex : 4 * L * O ≤ 2 ^ 32) (h : book.Reachable) :
    (∀ {N : Nat} (order : NewOrder) (reports : ReportBuffer N), ∃ result book' reports',
      book.submit order reports = some (result, book', reports') ∧
      ∀ reason, result = .error reason → book' = book ∧ reports' = reports) ∧
    (∀ request : CancelOrder, ∃ result book', book.cancel request = some (result, book') ∧
      ∀ reason, result = .error reason → book' = book) ∧
    (∀ request : ReplaceOrder, ∃ result book', book.replace request = some (result, book') ∧
      ∀ reason, result = .error reason → book' = book) := by
  obtain ⟨logical, represents, _⟩ := h.sane
  refine ⟨?_, ?_, ?_⟩
  · intro N order reports
    obtain ⟨result, after, reports', hsubmit⟩ : ∃ result book' reports',
        book.submit order reports = some (result, book', reports') := by
      have hbook := submit_refines represents order reports
      have hanswers : logical.submit L O order reports.remainingCapacity ≠ none :=
        submit_answers fun ids hids => fitsIndex_of_represents represents hL hO hindex ids hids
      cases hlogical : logical.submit L O order reports.remainingCapacity with
      | none => exact absurd hlogical hanswers
      | some answered =>
          rw [hlogical] at hbook
          obtain ⟨outcome, content⟩ := answered
          cases outcome with
          | error reason => exact ⟨_, _, _, hbook.1⟩
          | ok accepted =>
              obtain ⟨after, reports', hsubmit, _⟩ := hbook
              exact ⟨_, after, reports', hsubmit⟩
    refine ⟨result, after, reports', hsubmit, ?_⟩
    rintro reason rfl
    exact submit_error hsubmit
  · intro request
    obtain ⟨after, hcancel, _⟩ := cancel_refines represents request
    refine ⟨_, after, hcancel, ?_⟩
    intro reason hreason
    rw [hreason] at hcancel
    exact cancel_error hcancel
  · intro request
    obtain ⟨after, hreplace, _⟩ := replace_refines represents request
    refine ⟨_, after, hreplace, ?_⟩
    intro reason hreason
    rw [hreason] at hreplace
    exact replace_error hreplace

/-- The book the sample run leaves after its first command, which rests an
offer. -/
theorem book_calls_answered_sample :
    ∃ book : OrderBook 2 2, book.exportState.orders = [⟨1, 1, .sell, i64 10, 5, 1⟩] ∧
      ∀ request : ReplaceOrder, ∃ result book', book.replace request = some (result, book') ∧
        ∀ reason, result = .error reason → book' = book := by
  have hsample : (run OrderBook.answer (OrderBook.new 7 : OrderBook 2 2) (sampleCommands.take 1)).map
      (fun result => result.2.exportState.orders) = some [⟨1, 1, .sell, i64 10, 5, 1⟩] := by decide +kernel
  obtain ⟨⟨answers, book⟩, hrun, horders⟩ := Option.map_eq_some_iff.mp hsample
  exact ⟨book, horders, (book_calls_answered (by decide) (by decide) (by decide)
    ⟨7, OrderBook.new 7, _, answers, .inl rfl, hrun⟩).2.2⟩

/-! ### Amending as cancel and post-only order -/

/-- The cancel of the order an amend names. -/
def withdrawal (request : ReplaceOrder) : CancelOrder :=
  ⟨request.orderId, request.accountId, request.instrumentId, request.sequence⟩

/-- The post-only order with the terms of an amend. -/
def reentry (request : ReplaceOrder) (side : Side) : NewOrder where
  orderId := request.orderId
  accountId := request.accountId
  instrumentId := request.instrumentId
  price := request.price
  quantity := request.quantity
  sequence := request.sequence
  side := side
  timeInForce := .postOnly

section Sited

variable {front back : ModelLevels} {earlier later : List ModelOrder} {request : ReplaceOrder}
  {target : PriceTicks}

theorem levels_remove (sited : logical.Sited side price old front back earlier later) :
    (logical.remove side old.id).levels side
      = front ++ (if (earlier ++ later).isEmpty then back else (price, earlier ++ later) :: back) := by
  rw [LogicalBook.remove, LogicalBook.levels_setLevels, if_pos rfl]
  exact sited.removeOrder_eq

theorem levels_remove_opposite (id : OrderId) :
    (logical.remove side id).levels side.opposite = logical.levels side.opposite := by
  rw [LogicalBook.remove, LogicalBook.levels_setLevels, if_neg (ne_opposite side)]

/-- The levels around an order have other prices. -/
theorem price_ne_of_sited (wf : logical.WellFormed) (sited : logical.Sited side price old front back earlier later)
    {level : PriceTicks × List ModelOrder} (h : level ∈ front ++ back) : level.1 ≠ price := by
  have hsorted := wf.sorted side
  rw [sited.levels_eq, SortedLevels, List.pairwise_append] at hsorted
  rcases List.mem_append.mp h with hfront | hback
  · exact ne_of_precedes (hsorted.2.2 _ hfront (price, earlier ++ old :: later) (by simp))
  · exact (ne_of_precedes ((List.pairwise_cons.mp hsorted.2.1).1 _ hback)).symm

/-- Taking an order out changes no level but its own. -/
theorem find?_remove (sited : logical.Sited side price old front back earlier later) (h : target ≠ price) :
    ((logical.remove side old.id).levels side).find? (fun level => decide (level.1 = target))
      = (logical.levels side).find? fun level => decide (level.1 = target) := by
  have hown : ∀ queue : List ModelOrder, decide (((price, queue) : PriceTicks × List ModelOrder).1 = target) = false :=
    fun _ => decide_eq_false (Ne.symm h)
  rw [levels_remove sited, sited.levels_eq, List.find?_append, List.find?_append, List.find?_cons, hown]
  split
  · rfl
  · rw [List.find?_cons, hown]

/-- The level of an order, before and after it is taken out. -/
theorem find?_own (wf : logical.WellFormed) (sited : logical.Sited side price old front back earlier later)
    (queue : List ModelOrder) : (front ++ (price, queue) :: back).find? (fun level => decide (level.1 = price))
      = some (price, queue) := by
  have hsorted := wf.sorted side
  rw [sited.levels_eq, SortedLevels, List.pairwise_append] at hsorted
  exact find?_of_occupied fun level hlevel => hsorted.2.2 level hlevel (price, earlier ++ old :: later) (by simp)

/-- Without the order its own price has room: one order fewer there, or one
level fewer. -/
theorem roomCheck_own (wf : logical.WellFormed) (bounded : logical.Bounded L O)
    (sited : logical.Sited side price old front back earlier later) :
    roomCheck L O ((logical.remove side old.id).levels side) price = .ok () := by
  have hlevels := bounded.levels side
  have hqueue := bounded.queues side (price, earlier ++ old :: later) (by rw [sited.levels_eq]; simp)
  rw [sited.levels_eq] at hlevels
  simp only [List.length_append, List.length_cons] at hlevels hqueue
  rw [levels_remove sited, roomCheck]
  by_cases hempty : (earlier ++ later).isEmpty
  · have hnone : (front ++ back).find? (fun level => decide (level.1 = price)) = none := by
      rw [List.find?_eq_none]
      intro level hlevel
      simpa using price_ne_of_sited wf sited hlevel
    rw [if_pos hempty, hnone]
    simp only [List.length_append]
    rw [if_neg (by omega)]
  · rw [if_neg hempty, find?_own wf sited]
    simp only [List.length_append]
    rw [if_neg (by omega)]

/-- Without the order the side is full exactly when it was full before and the
order's level stays. -/
theorem length_remove (bounded : logical.Bounded L O)
    (sited : logical.Sited side price old front back earlier later) :
    ((logical.remove side old.id).levels side).length = L ↔
      (logical.levels side).length = L ∧ ¬(earlier ++ old :: later).length = 1 := by
  have hlevels := bounded.levels side
  rw [levels_remove sited]
  rw [sited.levels_eq] at hlevels ⊢
  simp only [List.length_append, List.length_cons] at hlevels ⊢
  by_cases hempty : earlier ++ later = []
  · obtain ⟨rfl, rfl⟩ := List.append_eq_nil_iff.mp hempty
    simp
    omega
  · have hlength : 0 < (earlier ++ later).length := List.length_pos_iff.mpr hempty
    rw [List.length_append] at hlength
    rw [if_neg (by simpa using hempty), List.length_cons]
    omega

/-- The capacity checks of an amend against the book before the order is taken
out are those of the re-entered order against the book without it. -/
theorem roomCheck_reentry (wf : logical.WellFormed) (bounded : logical.Bounded L O)
    (sited : logical.Sited side price old front back earlier later)
    (hcross : ¬(request.price ≠ price ∧ logical.bestCrosses side request.price)) :
    roomCheck L O ((logical.remove side old.id).levels side) request.price
      = logical.replaceChecks L O request side price := by
  have hown := find?_own wf sited (earlier ++ old :: later)
  rw [← sited.levels_eq] at hown
  rw [LogicalBook.replaceChecks, if_neg hcross]
  by_cases hprice : request.price = price
  · subst hprice
    rw [roomCheck_own wf bounded sited, hown]
    simp
  · rw [roomCheck, find?_remove sited hprice, hown]
    cases (logical.levels side).find? fun level => decide (level.1 = request.price) with
    | some level => simp [hprice]
    | none => simp only [length_remove bounded sited, Option.any_some, decide_eq_true_eq]

/-- A book whose best opposing price does not cross trades nothing. -/
theorem matchLevels_of_best {levels : ModelLevels} {remaining : Quantity}
    (h : levels.head?.any (fun level => crosses side target level.1) = false) :
    matchLevels side target levels remaining = (remaining, levels, []) := by
  cases levels with
  | nil => rfl
  | cons level rest =>
      obtain ⟨listed, queue⟩ := level
      have hbest : crosses side target listed = false := by simpa using h
      simp [matchLevels, hbest]

theorem setLevels_self (side : Side) : logical.setLevels side (logical.levels side) = logical := by
  cases side <;> rfl

/-- What a post-only order that crosses nothing does: it is checked for room
and rests whole. -/
theorem submit_postOnly {order : NewOrder} {capacity : Nat} (htif : order.timeInForce = .postOnly)
    (hinstrument : order.instrumentId = logical.instrument) (hprice : 0 < order.price.val)
    (hquantity : order.quantity.val ≠ 0) (habsent : logical.find order.orderId = none)
    (hfits : FitsIndex L O fun id => id = order.orderId ∨ logical.Holds id)
    (hcross : logical.bestCrosses order.side order.price = false) :
    logical.submit L O order capacity
      = match roomCheck L O (logical.levels order.side) order.price with
        | .error reason => some (.error reason, logical)
        | .ok () => some (.ok (LogicalBook.summary order order.quantity 0 [], []),
            logical.rest order.side order.price (LogicalBook.remainder order order.quantity)) := by
  have hmatch : matchLevels order.side order.price (logical.levels order.side.opposite) order.quantity
      = (order.quantity, logical.levels order.side.opposite, []) := matchLevels_of_best hcross
  have hcheck : ModelBook.remainderCheck (logical.levels order.side) order order.quantity L O
      = roomCheck L O (logical.levels order.side) order.price :=
    remainderCheck_rests (.inr htif) (Nat.pos_of_ne_zero hquantity)
  have hrest : logical.restRemainder L O order order.quantity
      = some (logical.rest order.side order.price (LogicalBook.remainder order order.quantity)) := by
    rw [LogicalBook.restRemainder, if_neg hquantity, if_pos hfits]
  have hioc : order.timeInForce ≠ .ioc := by
    rw [htif]
    decide
  rw [LogicalBook.submit, if_neg (by simpa using hinstrument), if_neg (by omega), if_neg hquantity,
    if_neg (by simp [habsent]), if_neg (by simp [hcross]), hmatch]
  cases hroom : roomCheck L O (logical.levels order.side) order.price with
  | error reason =>
      rw [hroom] at hcheck
      simp only [List.length_nil, Nat.not_lt_zero, if_false, hcheck]
  | ok =>
      rw [hroom] at hcheck
      simp only [List.length_nil, Nat.not_lt_zero, if_false, hcheck, if_neg hioc, setLevels_self, hrest,
        Option.map_some]

/-- A post-only order is refused when the best opposing price crosses. -/
theorem submit_postOnly_crosses {order : NewOrder} {capacity : Nat} (htif : order.timeInForce = .postOnly)
    (hinstrument : order.instrumentId = logical.instrument) (hprice : 0 < order.price.val)
    (hquantity : order.quantity.val ≠ 0) (habsent : logical.find order.orderId = none)
    (hcross : logical.bestCrosses order.side order.price = true) :
    logical.submit L O order capacity = some (.error .postOnlyWouldTrade, logical) := by
  rw [LogicalBook.submit, if_neg (by simpa using hinstrument), if_neg (by omega), if_neg hquantity,
    if_neg (by simp [habsent]), if_pos ⟨htif, hcross⟩]

theorem roomCheck_error {levels : ModelLevels} (h : roomCheck L O levels target = .error reason) :
    reason = .priceLevelOrderCapacity ∨ reason = .priceLevelCapacity := by
  unfold roomCheck at h
  split at h
  · split at h
    · cases h
      exact .inl rfl
    · cases h
  · split at h
    · cases h
      exact .inr rfl
    · cases h

end Sited

/-- The ids of a book without an order and that order's id can be indexed: they
are the ids of the book. -/
theorem fitsIndex_remove (h : Represents book logical) {id : OrderId}
    (hfind : logical.find id = some (side, price, old)) :
    FitsIndex L O fun other => other = id ∨ (logical.remove side id).Holds other := by
  have wf := h.wellFormed
  have hfits : FitsIndex L O logical.Holds := by
    obtain ⟨views, rep, rfl⟩ := h
    exact rep.fitsIndex book.instrument
  have hids : (fun other => other = id ∨ (logical.remove side id).Holds other) = logical.Holds := by
    obtain ⟨hentry, hid⟩ := wf.find_iff.mp hfind
    funext other
    simp only [LogicalBook.Holds, ← Option.ne_none_iff_isSome, ne_eq, find_eq_none_iff, orders_remove wf hfind,
      List.mem_filter, decide_eq_true_eq, and_imp, eq_iff_iff]
    push Not
    constructor
    · rintro (rfl | ⟨entry, hmem, _, hother⟩)
      · exact ⟨_, hentry, hid⟩
      · exact ⟨entry, hmem, hother⟩
    · rintro ⟨entry, hmem, hother⟩
      by_cases hsame : entry.2.2.id = id
      · exact .inl (hother.symm.trans hsame)
      · exact .inr ⟨entry, hmem, hsame, hother⟩
  rwa [hids]

/-- A resting order crosses nothing at its own price: the book is uncrossed. -/
theorem not_bestCrosses_own (wf : logical.WellFormed) (sound : logical.Sound)
    (hentry : (side, price, old) ∈ logical.orders) : logical.bestCrosses side price = false := by
  by_contra hcross
  obtain ⟨opposing, hopposing, hside, hcrosses⟩ := exists_crossing wf (Bool.of_not_eq_false hcross)
  cases side with
  | buy =>
      have hlt := sound.uncrossed _ hentry _ hopposing rfl hside
      simp only [crosses, decide_eq_true_eq] at hcrosses hlt
      omega
  | sell =>
      have hlt := sound.uncrossed _ hopposing _ hentry hside rfl
      simp only [crosses, decide_eq_true_eq] at hcrosses hlt
      omega

/-- The reasons an amend and the re-entered order give for the same refusal. -/
inductive SameRefusal : RejectReason → RejectReason → Prop where
  | crosses : SameRefusal .replaceWouldCross .postOnlyWouldTrade
  | levelOrders : SameRefusal .priceLevelOrderCapacity .priceLevelOrderCapacity
  | levels : SameRefusal .priceLevelCapacity .priceLevelCapacity

/-- The amend of a resting order acts as its cancel followed by the post-only
order with the new terms. -/
def Reenters (book : OrderBook L O) (request : ReplaceOrder) (side : Side) : Prop :=
  ∃ cancelled between, book.cancel (withdrawal request) = some (.ok cancelled, between) ∧
    ∀ {N : Nat} (reports : ReportBuffer N),
      (∃ replaced book' summary alternative,
        book.replace request = some (.ok replaced, book') ∧ replaced.priorityLost = true ∧
        between.submit (reentry request side) reports = some (.ok summary, alternative, reports) ∧
        book'.exportState = alternative.exportState) ∨
      ∃ reason reason', book.replace request = some (.error reason, book) ∧
        between.submit (reentry request side) reports = some (.error reason', between, reports) ∧
        SameRefusal reason reason'

/-- The amend of a resting order rewrites its quantity where it stands and
changes nothing else. -/
def Reduces (book : OrderBook L O) (request : ReplaceOrder) : Prop :=
  ∃ replaced book', book.replace request = some (.ok replaced, book') ∧ replaced.priorityLost = false ∧
    book'.instrument = book.instrument ∧
    book'.exportState.orders = book.exportState.orders.map fun order =>
      if order.orderId = request.orderId then { order with quantity := request.quantity } else order

section Amends

variable {request : ReplaceOrder} (h : Represents book logical) (sound : logical.Sound)
  (hfind : logical.find request.orderId = some (side, price, old)) (howner : old.account = request.accountId)
  (hinstrument : request.instrumentId = book.instrument) (hprice : 0 < request.price.val)
  (hquantity : request.quantity.val ≠ 0)
include h hfind howner hinstrument hprice hquantity

/-- A same-price reduction. -/
theorem reduces_of_found (hkeep : request.price = price ∧ request.quantity.val < old.quantity.val) :
    Reduces book request := by
  have hlogical : logical.replace L O request = (.ok (OrderBook.replacedOrder request old.quantity false),
      logical.setLevels side (setQuantity request.orderId request.quantity (logical.levels side))) := by
    simp only [LogicalBook.replace, h.instrument_eq, hinstrument, hfind, howner, ne_eq, not_true_eq_false,
      if_false, not_le.mpr hprice, hquantity, if_pos hkeep]
  obtain ⟨book', hreplace, hrep, hsame⟩ := replace_refines h request
  rw [hlogical] at hreplace hrep
  refine ⟨_, book', hreplace, rfl, hsame, ?_⟩
  rw [orders_exportState hrep, orders_exportState h, orders_setQuantity h.wellFormed hfind, List.map_map, List.map_map]
  refine List.map_congr_left fun entry _ => ?_
  by_cases hsame : entry.2.2.id = request.orderId
  · simp [setEntry, entryState, orderState, hsame]
  · simp [setEntry, entryState, orderState, hsame]

include sound

/-- Any other amend. -/
theorem reenters_of_found (hloses : ¬(request.price = price ∧ request.quantity.val < old.quantity.val)) :
    Reenters book request side := by
  have wf := h.wellFormed
  obtain ⟨hid, front, back, earlier, later, sited⟩ := wf.sited hfind
  have hlogical : logical.replace L O request
      = match logical.replaceChecks L O request side price with
        | .error reason => (.error reason, logical)
        | .ok () => (.ok (OrderBook.replacedOrder request old.quantity true),
            (logical.remove side request.orderId).rest side request.price (LogicalBook.amended request)) := by
    cases hchecks : logical.replaceChecks L O request side price <;>
      simp only [LogicalBook.replace, h.instrument_eq, hinstrument, hfind, howner, ne_eq, not_true_eq_false,
        if_false, not_le.mpr hprice, hquantity, if_neg hloses, hchecks]
  have hcancelled : logical.cancel (withdrawal request)
      = (.ok ⟨old.id, old.account, old.quantity⟩, logical.remove side request.orderId) := by
    simp only [LogicalBook.cancel, withdrawal, h.instrument_eq, hinstrument, hfind, howner, ne_eq,
      not_true_eq_false, if_false]
  obtain ⟨between, hcancel, hbetween, _⟩ := cancel_refines h (withdrawal request)
  obtain ⟨book', hreplace, hrep, _⟩ := replace_refines h request
  rw [hcancelled] at hcancel hbetween
  rw [hlogical] at hreplace hrep
  refine ⟨_, between, hcancel, fun reports => ?_⟩
  have habsent : (logical.remove side request.orderId).find request.orderId = none := by
    rw [find_eq_none_iff, orders_remove wf hfind]
    simp
  have hbest : (logical.remove side request.orderId).bestCrosses side request.price
      = logical.bestCrosses side request.price := by
    rw [LogicalBook.bestCrosses, levels_remove_opposite]
    rfl
  have hterms : request.instrumentId = (logical.remove side request.orderId).instrument := by
    rw [LogicalBook.remove, LogicalBook.instrument_setLevels, h.instrument_eq, hinstrument]
  have hbook : SubmitRefines between (reentry request side) reports (logical.remove side request.orderId)
      ((logical.remove side request.orderId).submit L O (reentry request side) reports.remainingCapacity) :=
    submit_refines hbetween (reentry request side) reports
  by_cases hcross : request.price ≠ price ∧ logical.bestCrosses side request.price = true
  · -- both refuse: the opposing best is the same before and after the order is taken out
    have hchecks : logical.replaceChecks L O request side price = .error .replaceWouldCross := by
      rw [LogicalBook.replaceChecks, if_pos hcross]
    rw [submit_postOnly_crosses rfl hterms hprice hquantity habsent (hbest.trans hcross.2)] at hbook
    rw [hchecks] at hreplace
    exact .inr ⟨_, _, replace_error hreplace ▸ hreplace, hbook.1, .crosses⟩
  · have hclear : logical.bestCrosses side request.price = false := by
      by_cases hsame : request.price = price
      · rw [hsame]
        exact not_bestCrosses_own wf sound (wf.find_iff.mp hfind).1
      · exact Bool.of_not_eq_true fun hbest => hcross ⟨hsame, hbest⟩
    have hroom := roomCheck_reentry wf h.bounded sited hcross
    rw [hid] at hroom
    have hreentry := @submit_postOnly L O (logical.remove side request.orderId) (reentry request side)
      reports.remainingCapacity rfl hterms hprice hquantity habsent (fitsIndex_remove h hfind) (hbest.trans hclear)
    rw [show roomCheck L O ((logical.remove side request.orderId).levels (reentry request side).side)
      (reentry request side).price = logical.replaceChecks L O request side price from hroom] at hreentry
    rw [hreentry] at hbook
    cases hchecks : logical.replaceChecks L O request side price with
    | error reason =>
        rw [hchecks] at hbook hreplace
        refine .inr ⟨_, _, replace_error hreplace ▸ hreplace, hbook.1, ?_⟩
        rcases roomCheck_error (hroom.trans hchecks) with rfl | rfl
        · exact .levelOrders
        · exact .levels
    | ok _ =>
        rw [hchecks] at hbook hreplace hrep
        obtain ⟨alternative, reports', hsubmit, halternative, hentries, _⟩ := hbook
        obtain rfl : reports' = reports := ReportBuffer.ext (by simpa using hentries)
        refine .inl ⟨_, book', _, alternative, hreplace, rfl, hsubmit, ?_⟩
        rw [exportState_eq hrep, exportState_eq halternative]
        rfl

end Amends

/-- An amend of a resting order by its owner that loses priority is its cancel
followed by a post-only order with the new terms: it succeeds when that order
does, with the same book, and is refused for the same reason. A same-price
reduction always succeeds, and rewrites the quantity of the order where it
stands. -/
theorem replace_reenters (h : book.Reachable) {request : ReplaceOrder} {entry : BookOrderState}
    (hentry : entry ∈ book.exportState.orders) (hid : entry.orderId = request.orderId)
    (howner : entry.accountId = request.accountId) (hinstrument : request.instrumentId = book.instrument)
    (hprice : 0 < request.price.val) (hquantity : request.quantity.val ≠ 0) :
    (¬(request.price = entry.price ∧ request.quantity.val < entry.quantity.val) →
      Reenters book request entry.side) ∧
    (request.price = entry.price ∧ request.quantity.val < entry.quantity.val → Reduces book request) := by
  obtain ⟨logical, represents, sound⟩ := h.sane
  rw [orders_exportState represents] at hentry
  obtain ⟨⟨side, price, old⟩, hmem, rfl⟩ := List.mem_map.mp hentry
  have hfind : logical.find request.orderId = some (side, price, old) :=
    represents.wellFormed.find_iff.mpr ⟨hmem, hid⟩
  exact ⟨reenters_of_found represents sound hfind howner hinstrument hprice hquantity,
    reduces_of_found represents hfind howner hinstrument hprice hquantity⟩

/-- The offer of five at ten that the sample run rests first, repriced to
eleven and reduced to four. -/
theorem replace_reenters_sample :
    ∃ book : OrderBook 2 2, book.exportState.orders = [⟨1, 1, .sell, i64 10, 5, 1⟩] ∧
      Reenters book ⟨1, 1, 7, 2, i64 11, 4⟩ .sell ∧ Reduces book ⟨1, 1, 7, 2, i64 10, 4⟩ := by
  have hsample : (run OrderBook.answer (OrderBook.new 7 : OrderBook 2 2) (sampleCommands.take 1)).map
      (fun result => (result.2.exportState.orders, result.2.instrument))
      = some ([⟨1, 1, .sell, i64 10, 5, 1⟩], 7) := by decide +kernel
  obtain ⟨⟨answers, book⟩, hrun, hbook⟩ := Option.map_eq_some_iff.mp hsample
  obtain ⟨horders, hinstrument⟩ := Prod.mk.inj hbook
  have hreachable : book.Reachable := ⟨7, OrderBook.new 7, _, answers, .inl rfl, hrun⟩
  have hentry : (⟨1, 1, .sell, i64 10, 5, 1⟩ : BookOrderState) ∈ book.exportState.orders := by
    simp only [horders, List.mem_singleton]
  exact ⟨book, horders,
    (replace_reenters hreachable hentry rfl rfl hinstrument.symm (by decide) (by decide)).1 (by decide),
    (replace_reenters hreachable hentry rfl rfl hinstrument.symm (by decide) (by decide)).2 (by decide)⟩

end HftEngine
