/-
Module: HftEngine.Proofs.MatchRefinement
Layer: Proofs
Purpose: Submitting an order refines the logical match. Planning walks the
  opposing views and produces the list of planned fills; applying that list
  takes the fills off the front of the book one at a time; both agree with the
  one-pass logical match.
Imports: HftEngine.Proofs.BookRefinement
Trusted boundary: none (fully proved)
Main exports: planViews, fillTotal, matchLevels_total, walkLevels_eq,
  applyFills_planViews, reportOf, submit_refines
-/
import HftEngine.Proofs.BookRefinement

namespace HftEngine

open Machine SlotArena OpenAddressing

variable {L O N : Nat} {book book' : OrderBook L O} {views : Side → List LevelView} {side : Side}
  {logical : LogicalBook} {instrument : InstrumentId} {price : PriceTicks} {makers : ModelLevels}
  {fills : List ModelFill}

/-! ### The planned fills -/

/-- The fills planned against one FIFO, and what remains. -/
def planNodes (levelIndex : Nat) (price : PriceTicks) : List (Nat × ModelOrder) → Quantity →
    List FillEntry × Quantity
  | [], remaining => ([], remaining)
  | (slot, maker) :: rest, remaining =>
      if remaining.val = 0 then ([], remaining)
      else
        let traded := minWord remaining maker.quantity
        let (fills, left) := planNodes levelIndex price rest (satSub remaining traded)
        (⟨levelIndex, slot, maker.id, price, traded⟩ :: fills, left)

/-- The fills planned against the levels within the limit, and what remains. -/
def planViews (side : Side) (limit : PriceTicks) : List LevelView → Quantity → List FillEntry × Quantity
  | [], remaining => ([], remaining)
  | view :: rest, remaining =>
      if remaining.val = 0 ∨ crosses side limit view.price = false then ([], remaining)
      else
        let (fills, left) := planNodes view.slot view.price view.nodes remaining
        let (more, left) := planViews side limit rest left
        (fills ++ more, left)

/-- The logical content of a planned fill. -/
def FillEntry.toModel (fill : FillEntry) : ModelFill := ⟨fill.orderId, fill.price, fill.quantity⟩

/-- With nothing left to fill nothing is planned. -/
theorem planViews_zero {limit : PriceTicks} {list : List LevelView} {remaining : Quantity}
    (h : remaining.val = 0) : planViews side limit list remaining = ([], remaining) := by
  cases list with
  | nil => rfl
  | cons view rest => simp [planViews, h]

/-- A match that has nothing left to fill stops. -/
theorem matchLevels_zero {limit : PriceTicks} {levels : ModelLevels} {remaining : Quantity}
    (h : remaining.val = 0) : matchLevels side limit levels remaining = (remaining, levels, []) := by
  cases levels with
  | nil => rfl
  | cons level rest =>
      obtain ⟨price, queue⟩ := level
      simp [matchLevels, h]

/-- The plan of one FIFO is the logical match of its queue. -/
theorem planNodes_match (levelIndex : Nat) (price : PriceTicks)
    (nodes : List (Nat × ModelOrder)) (remaining : Quantity) :
    (planNodes levelIndex price nodes remaining).2 = (matchQueue price (nodes.map Prod.snd) remaining).1 ∧
      (planNodes levelIndex price nodes remaining).1.map FillEntry.toModel
        = (matchQueue price (nodes.map Prod.snd) remaining).2.2 := by
  induction nodes generalizing remaining with
  | nil => simp [planNodes, matchQueue]
  | cons node rest ih =>
      obtain ⟨slot, maker⟩ := node
      simp only [planNodes, matchQueue, List.map_cons]
      by_cases hzero : remaining.val = 0
      · simp [hzero]
      · simp only [if_neg hzero]
        by_cases hpartial : remaining.val < maker.quantity.val
        · -- the maker outlasts the order: nothing is left for the makers behind it
          have htraded : minWord remaining maker.quantity = remaining := by
            apply Fin.ext
            simp
            omega
          have hleft : satSub remaining remaining = 0 := by
            apply Fin.ext
            simp
          have hstop : planNodes levelIndex price rest 0 = ([], 0) := by
            cases rest with
            | nil => rfl
            | cons node rest => simp [planNodes]
          simp only [htraded, hleft, hstop, if_pos hpartial]
          exact ⟨trivial, rfl⟩
        · have htraded : minWord remaining maker.quantity = maker.quantity := by
            apply Fin.ext
            simp
            omega
          simp only [htraded, if_neg hpartial]
          obtain ⟨hrest, hfills⟩ := ih (satSub remaining maker.quantity)
          exact ⟨hrest, by rw [List.map_cons, hfills]; rfl⟩

/-- The plan of a side is the logical match of its levels. -/
theorem planViews_match (side : Side) (limit : PriceTicks) (list : List LevelView) (remaining : Quantity) :
    (planViews side limit list remaining).2
        = (matchLevels side limit (list.map LevelView.logical) remaining).1 ∧
      (planViews side limit list remaining).1.map FillEntry.toModel
        = (matchLevels side limit (list.map LevelView.logical) remaining).2.2 := by
  induction list generalizing remaining with
  | nil => simp [planViews, matchLevels]
  | cons view rest ih =>
      simp only [planViews, matchLevels, List.map_cons, LevelView.logical]
      by_cases hstop : remaining.val = 0 ∨ crosses side limit view.price = false
      · simp only [if_pos hstop]
        exact ⟨trivial, rfl⟩
      · simp only [if_neg hstop]
        obtain ⟨hleft, hfills⟩ := planNodes_match view.slot view.price view.nodes remaining
        obtain ⟨hleft', hfills'⟩ := ih (planNodes view.slot view.price view.nodes remaining).2
        rw [hleft] at hleft' hfills'
        simp only [hleft, List.map_append, hfills]
        exact ⟨hleft', by rw [hfills']⟩

/-- A queue that is not exhausted leaves nothing to fill. -/
theorem matchQueue_left (queue : List ModelOrder) (remaining : Quantity)
    (h : (matchQueue price queue remaining).2.1 ≠ []) : (matchQueue price queue remaining).1.val = 0 := by
  induction queue generalizing remaining with
  | nil => simp [matchQueue] at h
  | cons maker rest ih =>
      unfold matchQueue at h ⊢
      by_cases hzero : remaining.val = 0
      · simp [hzero]
      · by_cases hpartial : remaining.val < maker.quantity.val
        · simp [hzero, hpartial]
        · simp only [if_neg hzero, if_neg hpartial] at h ⊢
          exact ih _ h

/-! ### Totals -/

/-- The total quantity of a list of fills. -/
def fillTotal (fills : List ModelFill) : Nat := (fills.map fun fill => fill.quantity.val).sum

@[simp] theorem fillTotal_nil : fillTotal [] = 0 := rfl

@[simp] theorem fillTotal_cons {fill : ModelFill} {fills : List ModelFill} :
    fillTotal (fill :: fills) = fill.quantity.val + fillTotal fills := by
  simp [fillTotal]

@[simp] theorem fillTotal_append {fills more : List ModelFill} :
    fillTotal (fills ++ more) = fillTotal fills + fillTotal more := by
  simp [fillTotal]

/-- What a queue fills and what remains make up the quantity. -/
theorem matchQueue_total (price : PriceTicks) (queue : List ModelOrder) (remaining : Quantity) :
    (matchQueue price queue remaining).1.val + fillTotal (matchQueue price queue remaining).2.2 = remaining.val := by
  induction queue generalizing remaining with
  | nil => simp [matchQueue]
  | cons maker rest ih =>
      unfold matchQueue
      split
      · simp
      split
      · simp
      · have hrest := ih (satSub remaining maker.quantity)
        rw [satSub_val] at hrest
        generalize matchQueue price rest (satSub remaining maker.quantity) = matched at hrest
        obtain ⟨left, queue, fills⟩ := matched
        simp only [fillTotal_cons] at hrest ⊢
        omega

/-- What a match fills and what it leaves over make up what it was asked
for. -/
theorem matchLevels_total (side : Side) (limit : PriceTicks) (levels : ModelLevels) (remaining : Quantity) :
    (matchLevels side limit levels remaining).1.val + fillTotal (matchLevels side limit levels remaining).2.2
      = remaining.val := by
  induction levels generalizing remaining with
  | nil => simp [matchLevels]
  | cons level rest ih =>
      obtain ⟨price, queue⟩ := level
      unfold matchLevels
      split
      · simp
      · have hqueue := matchQueue_total price queue remaining
        have hrest := ih (matchQueue price queue remaining).1
        generalize matchQueue price queue remaining = matched at hqueue hrest
        obtain ⟨left, makers, fills⟩ := matched
        dsimp only at hqueue hrest ⊢
        generalize matchLevels side limit rest left = more at hrest ⊢
        obtain ⟨left', rest', fills'⟩ := more
        simp only [fillTotal_append] at hqueue hrest ⊢
        omega

/-! ### Planning -/

/-- The result of planning `fills` more with `left` remaining: the report
capacity decides. -/
def planned (plan : MatchPlan) (fills : List FillEntry) (left : Quantity) :
    Except RejectReason (Quantity × MatchPlan) :=
  if plan.fills.length + fills.length ≤ plan.capacity then
    .ok (left, { plan with fills := plan.fills ++ fills })
  else .error .reportCapacity

/-- A plan without further fills stays as it is. -/
theorem planned_nil {plan : MatchPlan} {left : Quantity} (h : plan.fills.length ≤ plan.capacity) :
    planned plan [] left = .ok (left, plan) := by
  simp [planned, h]

/-- Walking one level pushes its planned fills, or runs out of reports. -/
theorem walkLevel_eq {level : PriceLevel O} {levelIndex fuel : Nat} {before : Option Nat}
    (nodes : List (Nat × ModelOrder)) (hthread : Threaded level.slots before nodes none)
    (hfuel : nodes.length ≤ fuel) (remaining : Quantity) (plan : MatchPlan)
    (hcapacity : plan.fills.length ≤ plan.capacity) :
    OrderBook.walkLevel level levelIndex price fuel (nodes.head?.map Prod.fst) remaining plan
      = some (planned plan (planNodes levelIndex price nodes remaining).1
          (planNodes levelIndex price nodes remaining).2) := by
  induction nodes generalizing before fuel remaining plan with
  | nil => cases fuel <;> simp [OrderBook.walkLevel, planNodes, planned_nil hcapacity]
  | cons node rest ih =>
      obtain ⟨slot, maker⟩ := node
      obtain ⟨⟨order, hlive, _, hnext, hview⟩, hrest⟩ := hthread
      cases fuel with
      | zero => simp at hfuel
      | succ fuel =>
          have hgetLive : level.getLive slot = some order := hlive
          have hnext' : order.next = rest.head?.map Prod.fst := by simpa using hnext
          simp only [List.head?_cons, Option.map_some, OrderBook.walkLevel, planNodes]
          by_cases hzero : remaining.val = 0
          · simp [hzero, planned_nil hcapacity]
          · have hquantity : order.quantity = maker.quantity := by rw [← hview]; rfl
            have hid : order.id = maker.id := by rw [← hview]; rfl
            simp only [if_neg hzero, hgetLive, hquantity, hid, hnext', MatchPlan.pushFill]
            by_cases hfull : plan.capacity ≤ plan.fills.length
            · simp only [if_pos hfull, planned, List.length_cons]
              rw [if_neg (by omega)]
            · simp only [if_neg hfull]
              rw [ih hrest (by simpa using hfuel) _ _ (by simp; omega)]
              simp only [planned, List.length_append, List.length_cons, List.length_nil,
                List.append_assoc, List.singleton_append, Nat.add_assoc, Nat.add_comm 1, zero_add]

/-- Walking the levels of the opposing side plans the fills of its views. -/
theorem walkLevels_eq (rep : SideRep book side.opposite (views side.opposite)) (order : NewOrder)
    (hside : order.side = side) (list : List LevelView) (hlist : ∀ view ∈ list, view ∈ views side.opposite)
    (remaining : Quantity) (plan : MatchPlan) (hcapacity : plan.fills.length ≤ plan.capacity) :
    book.walkLevels order (list.map fun view => (view.price, view.slot)) remaining plan
      = some (planned plan (planViews side order.price list remaining).1
          (planViews side order.price list remaining).2) := by
  subst hside
  induction list generalizing remaining plan with
  | nil => simp [OrderBook.walkLevels, planViews, planned_nil hcapacity]
  | cons view rest ih =>
      obtain ⟨level, free, hlevel, _, hrep⟩ := rep.stored view (hlist view (by simp))
      have hlength := hrep.length_add
      simp only [List.map_cons, OrderBook.walkLevels, planViews]
      by_cases hzero : remaining.val = 0
      · simp [hzero, planned_nil hcapacity]
      · by_cases hcross : crosses order.side order.price view.price = false
        · simp [hzero, hcross, planned_nil hcapacity]
        · have hcrosses : crosses order.side order.price view.price = true := by simpa using hcross
          simp only [hcrosses, Bool.not_true, Bool.false_eq_true, if_false, hlevel, hrep.head,
            hzero, or_self, reduceCtorEq]
          rw [walkLevel_eq view.nodes hrep.threaded (by omega) remaining plan hcapacity]
          generalize planNodes view.slot view.price view.nodes remaining = here
          obtain ⟨fills, left⟩ := here
          simp only [planned]
          by_cases hfit : plan.fills.length + fills.length ≤ plan.capacity
          · simp only [if_pos hfit]
            rw [ih _ _ (by simpa using hfit) fun other hother => hlist other (List.mem_cons_of_mem _ hother)]
            simp only [planned, List.length_append, List.append_assoc, Nat.add_assoc]
          · simp only [if_neg hfit]
            rw [if_neg (by simp only [List.length_append]; omega)]

/-! ### Applying -/

/-- A report buffer with room takes the report. -/
theorem push_of_lt {reports : ReportBuffer N} (report : ExecutionReport) (h : reports.entries.length < N) :
    ∃ reports', reports.push report = .ok reports' ∧ reports'.entries = reports.entries ++ [report] := by
  unfold ReportBuffer.push
  rw [dif_pos h]
  exact ⟨_, rfl, rfl⟩

/-- Only the last nodes written to a level count. -/
theorem requeue_nodes {first second : List LevelView} {view : LevelView} {nodes nodes' : List (Nat × ModelOrder)} :
    requeue first { view with nodes := nodes' } second nodes = requeue first view second nodes := rfl

section Apply

variable {order : NewOrder} {makerSide : Side} {view : LevelView} {rest : List LevelView} {slot : Nat}
  {maker : ModelOrder} {nodes : List (Nat × ModelOrder)} {reports : ReportBuffer N}

/-- A fill of the whole front order takes it out of the book. -/
theorem applyFill_whole (rep : BookRep book views)
    (hviews : views makerSide = requeue [] view rest ((slot, maker) :: nodes))
    (hspace : reports.entries.length < N) :
    ∃ book' reports', book.applyFill order makerSide
        ⟨view.slot, slot, maker.id, view.price, maker.quantity⟩ reports = some (book', reports') ∧
      BookRep book' (Function.update views makerSide (requeue [] view rest nodes)) ∧
      reports'.entries = reports.entries ++ [reportOf order ⟨maker.id, view.price, maker.quantity⟩] ∧
      book'.instrument = book.instrument := by
  have placed : Placed views makerSide [] { view with nodes := (slot, maker) :: nodes } rest [] slot maker
      nodes := ⟨hviews, rfl⟩
  obtain ⟨level, resting, book₁, level₁, order₁, level₁', hlevel, hlive, hview, hremove, hlevel₁, hunlink, hrep,
    hinstrument⟩ := rep.fill_spec placed
  obtain ⟨reports', hpush, hentries⟩ :=
    push_of_lt (reportOf order ⟨maker.id, view.price, maker.quantity⟩) hspace
  have hquantity : resting.quantity = maker.quantity := by
    rw [← hview]
    rfl
  refine ⟨book₁.storeOrDrop makerSide view.slot level₁', reports', ?_, ?_, hentries, hinstrument⟩
  · simp only [reportOf] at hpush
    simp only [OrderBook.applyFill, hlevel, hlive, hpush, Except.toOption, Option.bind_eq_bind,
      Option.bind_some, hquantity, if_true, hremove, hlevel₁, hunlink]
    rfl
  · simpa [requeue_nodes] using hrep

/-- A fill of part of the front order reduces it in place. -/
theorem applyFill_part (rep : BookRep book views)
    (hviews : views makerSide = requeue [] view rest ((slot, maker) :: nodes))
    (hspace : reports.entries.length < N) {traded : Quantity} (hpart : traded.val < maker.quantity.val) :
    ∃ book' reports', book.applyFill order makerSide
        ⟨view.slot, slot, maker.id, view.price, traded⟩ reports = some (book', reports') ∧
      BookRep book' (Function.update views makerSide (requeue [] view rest
        ((slot, { maker with quantity := satSub maker.quantity traded }) :: nodes))) ∧
      reports'.entries = reports.entries ++ [reportOf order ⟨maker.id, view.price, traded⟩] ∧
      book'.instrument = book.instrument := by
  have placed : Placed views makerSide [] { view with nodes := (slot, maker) :: nodes } rest [] slot maker
      nodes := ⟨hviews, rfl⟩
  obtain ⟨level, resting, level', hlevel, _, hlive, hview, hreduce, hrep⟩ :=
    rep.reduce_spec placed traded (by omega)
  obtain ⟨reports', hpush, hentries⟩ := push_of_lt (reportOf order ⟨maker.id, view.price, traded⟩) hspace
  have hquantity : ¬resting.quantity = traded := by
    rw [show resting.quantity = maker.quantity by rw [← hview]; rfl, Fin.ext_iff]
    omega
  refine ⟨book.setLevel makerSide view.slot (some level'), reports', ?_, ?_, hentries, by simp⟩
  · simp only [reportOf] at hpush
    simp only [OrderBook.applyFill, hlevel, hlive, hpush, Except.toOption, Option.bind_eq_bind,
      Option.bind_some, if_neg hquantity, hreduce]
    rfl
  · simpa [requeue] using hrep

/-- Applying the plan of one FIFO leaves the queue of the logical match. -/
theorem applyFills_planNodes (rep : BookRep book views) (remaining : Quantity)
    (hviews : views makerSide = requeue [] view rest nodes)
    (hspace : reports.entries.length + (planNodes view.slot view.price nodes remaining).1.length ≤ N) :
    ∃ book' reports' nodes', OrderBook.applyFills order makerSide
        (planNodes view.slot view.price nodes remaining).1 book reports = some (book', reports') ∧
      BookRep book' (Function.update views makerSide (requeue [] view rest nodes')) ∧
      nodes'.map Prod.snd = (matchQueue view.price (nodes.map Prod.snd) remaining).2.1 ∧
      reports'.entries = reports.entries ++
        (planNodes view.slot view.price nodes remaining).1.map (fun fill => reportOf order fill.toModel) ∧
      book'.instrument = book.instrument := by
  -- what no fill at all gives
  have idle : ∀ {book : OrderBook L O} {views : Side → List LevelView} {nodes : List (Nat × ModelOrder)},
      BookRep book views → views makerSide = requeue [] view rest nodes →
      BookRep book (Function.update views makerSide (requeue [] view rest nodes)) := by
    intro book views nodes rep hviews
    rwa [← hviews, Function.update_eq_self]
  induction nodes generalizing remaining book views reports with
  | nil => exact ⟨book, reports, [], rfl, idle rep hviews, rfl, by simp [planNodes], rfl⟩
  | cons node nodes ih =>
      obtain ⟨slot, maker⟩ := node
      simp only [planNodes] at hspace
      simp only [planNodes, matchQueue, List.map_cons]
      by_cases hzero : remaining.val = 0
      · simp only [if_pos hzero]
        exact ⟨book, reports, (slot, maker) :: nodes, rfl, idle rep hviews, rfl, by simp, rfl⟩
      · simp only [if_neg hzero] at hspace ⊢
        by_cases hpart : remaining.val < maker.quantity.val
        · have htraded : minWord remaining maker.quantity = remaining := by
            apply Fin.ext
            simp
            omega
          have hleft : satSub remaining remaining = 0 := by
            apply Fin.ext
            simp
          have hstop : planNodes view.slot view.price nodes 0 = ([], 0) := by
            cases nodes with
            | nil => rfl
            | cons node rest => simp [planNodes]
          simp only [htraded, hleft, hstop, List.length_cons, List.length_nil] at hspace
          have hlt : reports.entries.length < N := by omega
          obtain ⟨book', reports', happly, hrep, hentries, hinst⟩ :=
            @applyFill_part _ _ _ _ _ order _ _ _ _ _ _ _ rep hviews hlt _ hpart
          refine ⟨book', reports', _, ?_, hrep, ?_, ?_, hinst⟩
          · simp [htraded, hleft, hstop, OrderBook.applyFills, happly]
          · simp [hpart]
          · simpa [htraded, hleft, hstop, FillEntry.toModel] using hentries
        · have htraded : minWord remaining maker.quantity = maker.quantity := by
            apply Fin.ext
            simp
            omega
          simp only [htraded, List.length_cons] at hspace
          have hlt : reports.entries.length < N := by omega
          obtain ⟨book₁, reports₁, happly, hrep₁, hentries₁, hinst₁⟩ :=
            @applyFill_whole _ _ _ _ _ order _ _ _ _ _ _ _ rep hviews hlt
          obtain ⟨book', reports', nodes', happlies, hrep, hqueue, hentries, hinst⟩ :=
            ih hrep₁ (satSub remaining maker.quantity) (by simp)
              (by rw [hentries₁]; simp only [List.length_append, List.length_cons, List.length_nil]; omega)
          rw [Function.update_idem] at hrep
          refine ⟨book', reports', nodes', ?_, hrep, ?_, ?_, hinst.trans hinst₁⟩
          · simp [htraded, OrderBook.applyFills, happly, happlies]
          · simp [hpart, hqueue]
          · rw [hentries, hentries₁]
            simp [htraded, FillEntry.toModel]

/-- A list of fills is applied from front to back. -/
theorem applyFills_append (first second : List FillEntry) (book : OrderBook L O) (reports : ReportBuffer N) :
    OrderBook.applyFills order makerSide (first ++ second) book reports
      = (OrderBook.applyFills order makerSide first book reports).bind fun state =>
          OrderBook.applyFills order makerSide second state.1 state.2 := by
  induction first generalizing book reports with
  | nil => rfl
  | cons fill rest ih =>
      simp only [List.cons_append, OrderBook.applyFills, Option.bind_eq_bind]
      cases book.applyFill order makerSide fill reports with
      | none => rfl
      | some state => simp [ih]

/-- Applying the plan of a side leaves the levels of the logical match. -/
theorem applyFills_planViews {limit : PriceTicks} (rep : BookRep book views) (list : List LevelView)
    (remaining : Quantity) (hviews : views makerSide = list)
    (hspace : reports.entries.length + (planViews side limit list remaining).1.length ≤ N) :
    ∃ book' reports' list', OrderBook.applyFills order makerSide
        (planViews side limit list remaining).1 book reports = some (book', reports') ∧
      BookRep book' (Function.update views makerSide list') ∧
      list'.map LevelView.logical = (matchLevels side limit (list.map LevelView.logical) remaining).2.1 ∧
      reports'.entries = reports.entries ++
        (planViews side limit list remaining).1.map (fun fill => reportOf order fill.toModel) ∧
      book'.instrument = book.instrument := by
  induction list generalizing remaining book views reports with
  | nil =>
      refine ⟨book, reports, [], rfl, ?_, rfl, by simp [planViews], rfl⟩
      rwa [← hviews, Function.update_eq_self]
  | cons view rest ih =>
      simp only [planViews] at hspace
      have hlogical : (view :: rest).map LevelView.logical
          = (view.price, view.nodes.map Prod.snd) :: rest.map LevelView.logical := rfl
      simp only [planViews, hlogical, matchLevels]
      by_cases hstop : remaining.val = 0 ∨ crosses side limit view.price = false
      · rw [if_pos hstop, if_pos hstop]
        refine ⟨book, reports, view :: rest, rfl, ?_, rfl, by simp, rfl⟩
        rwa [← hviews, Function.update_eq_self]
      · simp only [if_neg hstop, List.length_append] at hspace
        rw [if_neg hstop, if_neg hstop]
        have hoccupied := rep.occupied makerSide view (by simp [hviews])
        have hself : views makerSide = requeue [] view rest view.nodes := by
          rw [hviews, requeue, if_neg (by simpa using hoccupied)]
          rfl
        have hfirst : reports.entries.length +
            (planNodes view.slot view.price view.nodes remaining).1.length ≤ N := by omega
        obtain ⟨book₁, reports₁, nodes', happly₁, hrep₁, hqueue, hentries₁, hinst₁⟩ :=
          @applyFills_planNodes _ _ _ _ _ order _ _ _ _ _ rep remaining hself hfirst
        obtain ⟨hleft, _⟩ := planNodes_match view.slot view.price view.nodes remaining
        by_cases hempty : nodes' = []
        · -- the level is used up: the match goes on behind it
          subst hempty
          have hrest : (matchQueue view.price (view.nodes.map Prod.snd) remaining).2.1 = [] := hqueue.symm
          obtain ⟨book', reports', list', happly, hrep, hlist, hentries, hinst⟩ :=
            ih hrep₁ (planNodes view.slot view.price view.nodes remaining).2 (by simp [requeue])
              (by rw [hentries₁]; simp only [List.length_append, List.length_map]; omega)
          rw [Function.update_idem] at hrep
          refine ⟨book', reports', list', ?_, hrep, ?_, ?_, hinst.trans hinst₁⟩
          · rw [applyFills_append, happly₁]
            exact happly
          · rw [hlist, hleft]
            simp only [hrest, List.isEmpty_nil, if_true]
          · rw [hentries, hentries₁]
            simp
        · -- the level outlasts the order
          have hne : (matchQueue view.price (view.nodes.map Prod.snd) remaining).2.1 ≠ [] := by
            rw [← hqueue]
            simpa using hempty
          have hzero := matchQueue_left _ _ hne
          have hplan : planViews side limit rest (planNodes view.slot view.price view.nodes remaining).2
              = ([], (planNodes view.slot view.price view.nodes remaining).2) :=
            planViews_zero (by rw [hleft]; exact hzero)
          refine ⟨book₁, reports₁, requeue [] view rest nodes', ?_, hrep₁, ?_, ?_, hinst₁⟩
          · rw [hplan, List.append_nil, happly₁]
          · simp only [matchLevels_zero hzero]
            rw [if_neg (by simpa using hne), requeue, if_neg (by simpa using hempty), ← hqueue]
            rfl
          · rw [hplan, List.append_nil, hentries₁]

end Apply

/-! ### Submitting -/

/-- The resting quantity and the discarded quantity of a match with `remaining`
unfilled. -/
def finished (plan : MatchPlan) (order : NewOrder) (remaining : Quantity) : MatchPlan :=
  { plan with
    restingQuantity := if order.timeInForce = .ioc then 0 else remaining
    discarded := if order.timeInForce = .ioc then remaining else 0 }

/-- The capacity check of a remainder that is to rest. -/
def roomCheck (L O : Nat) (levels : ModelLevels) (price : PriceTicks) : Except RejectReason Unit :=
  match levels.find? fun level => level.1 = price with
  | some (_, queue) => if queue.length = O then .error .priceLevelOrderCapacity else .ok ()
  | none => if levels.length = L then .error .priceLevelCapacity else .ok ()

/-- For the orders that may rest, the check of a remainder is the check for
room. -/
theorem remainderCheck_rests {order : NewOrder} {levels : ModelLevels} {remaining : Quantity}
    (htif : order.timeInForce = .gtc ∨ order.timeInForce = .postOnly) (hpos : 0 < remaining.val) :
    ModelBook.remainderCheck levels order remaining L O = roomCheck L O levels order.price := by
  unfold ModelBook.remainderCheck roomCheck
  rcases htif with htif | htif <;> rw [htif] <;> exact if_pos hpos

/-- The capacity preflight in storage is the logical one. -/
theorem restCapacity_eq (rep : BookRep book views) (order : NewOrder) :
    book.restCapacity order
      = some (roomCheck L O ((views order.side).map LevelView.logical) order.price) := by
  unfold OrderBook.restCapacity roomCheck
  rcases rep.find_level order.side order.price with
    ⟨found, _, _, hfind, hlogical, level, free, hlevel, _, hrep⟩ | ⟨hfind, hlogical⟩
  · simp only [hfind, hlogical, hlevel, LevelView.logical, hrep.len, List.length_map]
    split <;> rfl
  · have hlength := (rep.side order.side).length_add
    have hfull : (book.sideIndex order.side).isFull = true ↔ (views order.side).length = L := by
      rw [LevelIndex.isFull, List.isEmpty_iff, ← List.length_eq_zero_iff]
      omega
    simp only [hfind, hlogical, hfull, List.length_map]
    split <;> rfl

/-- Both resting kinds go through the capacity check when something remains. -/
theorem restingPlan_eq (rep : BookRep book views) {order : NewOrder} {remaining : Quantity} (plan : MatchPlan)
    (htif : order.timeInForce = .gtc ∨ order.timeInForce = .postOnly) (hpos : 0 < remaining.val) :
    (match book.restCapacity order with
      | none => none
      | some (.error reason) => some (.error reason)
      | some (.ok ()) => some (.ok { plan with restingQuantity := remaining, discarded := 0 }))
    = some ((ModelBook.remainderCheck ((views order.side).map LevelView.logical) order remaining L O).map
        fun _ => finished plan order remaining) := by
  have hne : order.timeInForce ≠ .ioc := by
    rcases htif with htime | htime <;> simp [htime]
  rw [restCapacity_eq rep, remainderCheck_rests htif hpos]
  cases roomCheck L O ((views order.side).map LevelView.logical) order.price with
  | error reason => rfl
  | ok _ => simp [Except.map, finished, hne]

/-- The remainder of a plan is checked against the order's own side as in the
logical match. -/
theorem finishPlan_eq (rep : BookRep book views) (order : NewOrder) (remaining : Quantity) (plan : MatchPlan) :
    book.finishPlan order remaining plan
      = some ((ModelBook.remainderCheck ((views order.side).map LevelView.logical) order remaining L O).map
          fun _ => finished plan order remaining) := by
  unfold OrderBook.finishPlan
  cases htif : order.timeInForce with
  | ioc => simp [ModelBook.remainderCheck, htif, Except.map, finished]
  | fok =>
      by_cases hpos : 0 < remaining.val <;>
        simp [ModelBook.remainderCheck, htif, hpos, Except.map, finished]
  | gtc =>
      by_cases hpos : 0 < remaining.val
      · simp only [if_pos hpos]
        exact restingPlan_eq rep plan (.inl htif) hpos
      · simp [ModelBook.remainderCheck, htif, hpos, Except.map, finished]
  | postOnly =>
      by_cases hpos : 0 < remaining.val
      · simp only [if_pos hpos]
        exact restingPlan_eq rep plan (.inr htif) hpos
      · simp [ModelBook.remainderCheck, htif, hpos, Except.map, finished]

/-- A remainder that passed the check and rests has room at its price. -/
theorem room_of_remainderCheck (rep : BookRep book views) {order : NewOrder} {remaining : Quantity}
    (hcheck : ModelBook.remainderCheck ((views order.side).map LevelView.logical) order remaining L O = .ok ())
    (hioc : order.timeInForce ≠ .ioc) (hpos : 0 < remaining.val) :
    RoomAt L O ((views order.side).map LevelView.logical) order.price := by
  have hlength := rep.length_le order.side
  have htif : order.timeInForce = .gtc ∨ order.timeInForce = .postOnly := by
    cases htif : order.timeInForce with
    | ioc => exact absurd htif hioc
    | fok => simp [ModelBook.remainderCheck, htif, hpos] at hcheck
    | gtc => exact .inl rfl
    | postOnly => exact .inr rfl
  rw [remainderCheck_rests htif hpos] at hcheck
  unfold roomCheck at hcheck
  unfold RoomAt
  rcases rep.find_level order.side order.price with
    ⟨found, hfound, _, _, hlogical, _⟩ | ⟨_, hlogical⟩
  · have hle := rep.queue_length_le hfound
    simp only [hlogical, LevelView.logical, List.length_map] at hcheck ⊢
    split at hcheck
    · cases hcheck
    · omega
  · simp only [hlogical, List.length_map] at hcheck ⊢
    split at hcheck
    · cases hcheck
    · omega

/-- A match adds no ids to a queue. -/
theorem matchQueue_ids (queue : List ModelOrder) (remaining : Quantity) :
    ∀ order ∈ (matchQueue price queue remaining).2.1, ∃ old ∈ queue, old.id = order.id := by
  induction queue generalizing remaining with
  | nil => simp [matchQueue]
  | cons maker rest ih =>
      intro order horder
      unfold matchQueue at horder
      by_cases hzero : remaining.val = 0
      · rw [if_pos hzero] at horder
        exact ⟨order, horder, rfl⟩
      · rw [if_neg hzero] at horder
        by_cases hpart : remaining.val < maker.quantity.val
        · rw [if_pos hpart] at horder
          rcases List.mem_cons.mp horder with rfl | hmem
          · exact ⟨maker, by simp, rfl⟩
          · exact ⟨order, by simp [hmem], rfl⟩
        · rw [if_neg hpart] at horder
          obtain ⟨old, hold, hid⟩ := ih _ order horder
          exact ⟨old, by simp [hold], hid⟩

/-- A match adds no ids to a side. -/
theorem matchLevels_ids {limit : PriceTicks} (levels : ModelLevels) (remaining : Quantity) :
    ∀ level ∈ (matchLevels side limit levels remaining).2.1, ∀ order ∈ level.2,
      ∃ level' ∈ levels, ∃ old ∈ level'.2, old.id = order.id := by
  induction levels generalizing remaining with
  | nil => simp [matchLevels]
  | cons head rest ih =>
      obtain ⟨price, queue⟩ := head
      intro level hlevel order horder
      unfold matchLevels at hlevel
      by_cases hstop : remaining.val = 0 ∨ crosses side limit price = false
      · rw [if_pos hstop] at hlevel
        exact ⟨level, hlevel, order, horder, rfl⟩
      · rw [if_neg hstop] at hlevel
        have hcases : level = (price, (matchQueue price queue remaining).2.1) ∨
            level ∈ (matchLevels side limit rest (matchQueue price queue remaining).1).2.1 := by
          simp only at hlevel
          split at hlevel
          · exact .inr hlevel
          · exact List.mem_cons.mp hlevel
        rcases hcases with rfl | hmem
        · obtain ⟨old, hold, hid⟩ := matchQueue_ids _ _ order horder
          exact ⟨(price, queue), by simp, old, hold, hid⟩
        · obtain ⟨level', hlevel', old, hold, hid⟩ := ih _ level hmem order horder
          exact ⟨level', by simp [hlevel'], old, hold, hid⟩

/-- A match adds no ids to the book. -/
theorem holds_of_matched {limit : PriceTicks} {quantity : Quantity} {id : OrderId} {taker : Side}
    (hmakers : (matchLevels taker limit (logical.levels side) quantity).2.1 = makers)
    (h : (logical.setLevels side makers).Holds id) : logical.Holds id := by
  rw [holds_iff_mem] at h ⊢
  obtain ⟨side', level, hlevel, order, horder, hid⟩ := h
  rw [LogicalBook.levels_setLevels] at hlevel
  by_cases hside : side = side'
  · rw [if_pos hside, ← hmakers] at hlevel
    obtain ⟨level', hlevel', old, hold, hsame⟩ := matchLevels_ids _ _ level hlevel order horder
    exact ⟨side, level', hlevel', old, hold, hsame.trans hid⟩
  · rw [if_neg hside] at hlevel
    exact ⟨side', level, hlevel, order, horder, hid⟩

/-- How `submit` must behave given the result of the logical match. -/
def SubmitRefines (book : OrderBook L O) (order : NewOrder) (reports : ReportBuffer N) (logical : LogicalBook) :
    Option (Except RejectReason (MatchSummary × List ModelFill) × LogicalBook) → Prop
  | none => book.submit order reports = none
  | some (.error reason, after) =>
      book.submit order reports = some (.error reason, book, reports) ∧ after = logical
  | some (.ok (summary, fills), after) =>
      ∃ book' reports', book.submit order reports = some (.ok summary, book', reports') ∧
        Represents book' after ∧ reports'.entries = reports.entries ++ fills.map (reportOf order) ∧
        book'.instrument = book.instrument

/-- Applying a finished plan: the fills, then the remainder. -/
theorem applyPlan_spec (rep : BookRep book views) (order : NewOrder) (reports : ReportBuffer N)
    (capacity : Nat) (remaining : Quantity) (resting discarded : Quantity)
    (hmatch : matchLevels order.side order.price ((views order.side.opposite).map LevelView.logical)
      order.quantity = (remaining, makers, fills))
    (hspace : reports.entries.length + fills.length ≤ N)
    (habsent : ¬(logicalOf book.instrument views).Holds order.orderId)
    (hroom : 0 < resting.val → RoomAt L O ((views order.side).map LevelView.logical) order.price) :
    match ((logicalOf book.instrument views).setLevels order.side.opposite makers).restRemainder L O order
        resting with
    | none => book.applyPlan order ⟨(planViews order.side order.price (views order.side.opposite)
        order.quantity).1, capacity, order.side.opposite, resting, discarded⟩ reports = none
    | some after => ∃ book' reports', book.applyPlan order ⟨(planViews order.side order.price
        (views order.side.opposite) order.quantity).1, capacity, order.side.opposite, resting, discarded⟩ reports
          = some (book', reports') ∧ Represents book' after ∧
        reports'.entries = reports.entries ++ fills.map (reportOf order) ∧
        book'.instrument = book.instrument := by
  obtain ⟨_, hfills⟩ := planViews_match order.side order.price
    (views order.side.opposite) order.quantity
  rw [hmatch] at hfills
  simp only at hfills
  have hcount : (planViews order.side order.price (views order.side.opposite) order.quantity).1.length
      = fills.length := by
    rw [← hfills, List.length_map]
  obtain ⟨book₁, reports₁, list, happly, hrep₁, hlist, hentries, hinst⟩ :=
    @applyFills_planViews L O N book views order.side order order.side.opposite reports order.price rep _
      order.quantity rfl (by rw [hcount]; exact hspace)
  rw [hmatch] at hlist
  simp only at hlist
  have hreports : reports₁.entries = reports.entries ++ fills.map (reportOf order) := by
    rw [hentries, ← hfills, List.map_map]
    rfl
  have hlogical : logicalOf book.instrument (Function.update views order.side.opposite list)
      = (logicalOf book.instrument views).setLevels order.side.opposite makers := by
    rw [logicalOf_update, hlist]
  rw [← hlogical]
  unfold LogicalBook.restRemainder
  by_cases hzero : resting.val = 0
  · rw [if_pos hzero]
    refine ⟨book₁, reports₁, ?_, ⟨_, hrep₁, by rw [hinst]⟩, hreports, hinst⟩
    simp [OrderBook.applyPlan, happly, hzero]
  · rw [if_neg hzero]
    have hside : order.side ≠ order.side.opposite := by cases order.side <;> simp [Side.opposite]
    have habsent₁ : ∀ location cell, book₁.handle location ≠ some (order.orderId, cell) := by
      intro location cell hhandle
      have hholds := (hrep₁.holds_iff book.instrument).mpr ⟨location, cell, hhandle⟩
      rw [hlogical] at hholds
      have hmakers : (matchLevels order.side order.price
          ((logicalOf book.instrument views).levels order.side.opposite) order.quantity).2.1 = makers := by
        rw [levels_logicalOf, hmatch]
      exact habsent (holds_of_matched hmakers hholds)
    have hroom₁ : RoomAt L O ((Function.update views order.side.opposite list order.side).map
        LevelView.logical) order.price := by
      rw [Function.update_of_ne hside]
      exact hroom (by omega)
    rcases hrep₁.restAtTail_spec book.instrument
      { id := order.orderId
        accountId := order.accountId
        indexSlot := 0
        quantity := resting
        sequence := order.sequence
        prev := none
        next := none } habsent₁ hroom₁ with
      ⟨book₂, views₂, hrest, hrep₂, hinst₂, hlogical₂, hfits⟩ | ⟨hrest, hfits⟩
    · rw [if_pos hfits]
      refine ⟨book₂, reports₁, ?_, ⟨views₂, hrep₂, ?_⟩, hreports, hinst₂.trans hinst⟩
      · simp [OrderBook.applyPlan, happly, OrderBook.rest, hrest, Nat.pos_of_ne_zero hzero]
      · rw [hinst₂, hinst, hlogical₂]
        rfl
    · rw [if_neg hfits]
      simp [OrderBook.applyPlan, happly, OrderBook.rest, hrest, Nat.pos_of_ne_zero hzero]

/-- A submission to the book returns and does what the logical submission does.
The plan, its checks and its application are the three parts of the proof. -/
theorem submit_refines (h : Represents book logical) (order : NewOrder) (reports : ReportBuffer N) :
    SubmitRefines book order reports logical (logical.submit L O order reports.remainingCapacity) := by
  obtain ⟨views, rep, rfl⟩ := h
  have hbounded := reports.bounded
  have hinstrument : (logicalOf book.instrument views).instrument = book.instrument := rfl
  -- a refused plan leaves everything as it is
  have refused : ∀ {reason}, book.buildPlan N order reports.remainingCapacity = some (.error reason) →
      SubmitRefines book order reports (logicalOf book.instrument views)
        (some (.error reason, logicalOf book.instrument views)) := by
    intro reason hplan
    exact ⟨by simp [OrderBook.submit, hplan], rfl⟩
  unfold LogicalBook.submit
  rw [hinstrument]
  by_cases hother : order.instrumentId ≠ book.instrument
  · rw [if_pos hother]
    exact refused (by simp [OrderBook.buildPlan, hother])
  rw [if_neg hother]
  by_cases hprice : order.price.val ≤ 0
  · rw [if_pos hprice]
    exact refused (by simp [OrderBook.buildPlan, hother, hprice])
  rw [if_neg hprice]
  by_cases hquantity : order.quantity.val = 0
  · rw [if_pos hquantity]
    exact refused (by simp [OrderBook.buildPlan, hother, hprice, hquantity])
  rw [if_neg hquantity]
  rcases rep.lookup book.instrument order.orderId with
    ⟨_, _, _, _, _, _, _, _, _, _, _, hcontains, hfind⟩ | ⟨habsent, _, hcontains, hfind⟩
  · rw [if_pos (by simp [hfind])]
    exact refused (by simp [OrderBook.buildPlan, hother, hprice, hquantity, hcontains])
  rw [if_neg (by simp [hfind])]
  have hbest := rep.bestCrosses_eq book.instrument order.side order.price
  by_cases hpost : order.timeInForce = .postOnly ∧
      (logicalOf book.instrument views).bestCrosses order.side order.price
  · rw [if_pos hpost]
    exact refused (by simp [OrderBook.buildPlan, hother, hprice, hquantity, hcontains, hbest, hpost])
  rw [if_neg hpost, levels_logicalOf, levels_logicalOf]
  generalize hmatch : matchLevels order.side order.price ((views order.side.opposite).map LevelView.logical)
    order.quantity = matched
  obtain ⟨remaining, makers, fills⟩ := matched
  -- planning: the logical match, bounded by the reports available
  obtain ⟨hleft, hfills⟩ := planViews_match order.side order.price
    (views order.side.opposite) order.quantity
  rw [hmatch] at hleft hfills
  simp only at hleft hfills
  have hcount : (planViews order.side order.price (views order.side.opposite) order.quantity).1.length
      = fills.length := by
    rw [← hfills, List.length_map]
  have hwalk := walkLevels_eq (rep.side order.side.opposite) order rfl (views order.side.opposite)
    (fun _ h => h) order.quantity (MatchPlan.new N order.side.opposite reports.remainingCapacity)
    (by simp [MatchPlan.new])
  rw [hleft] at hwalk
  have hplan : book.buildPlan N order reports.remainingCapacity
      = (match planned (MatchPlan.new N order.side.opposite reports.remainingCapacity)
            (planViews order.side order.price (views order.side.opposite) order.quantity).1 remaining with
          | .error reason => some (.error reason)
          | .ok (remaining, plan) => book.finishPlan order remaining plan) := by
    rw [hbest.symm] at hpost
    simp only [OrderBook.buildPlan, if_neg hother, if_neg hprice, if_neg hquantity, hcontains,
      Bool.false_eq_true, if_false, if_neg hpost, (rep.side order.side.opposite).entries, hwalk]
    cases planned (MatchPlan.new N order.side.opposite reports.remainingCapacity)
      (planViews order.side order.price (views order.side.opposite) order.quantity).1 remaining <;> rfl
  have hcapacity : (MatchPlan.new N order.side.opposite reports.remainingCapacity).capacity
      = reports.remainingCapacity := by
    simp only [MatchPlan.new, ReportBuffer.remainingCapacity]
    omega
  simp only
  by_cases hfull : reports.remainingCapacity < fills.length
  · rw [if_pos hfull]
    refine refused ?_
    rw [hplan, planned, if_neg]
    rw [hcount, hcapacity]
    simp only [MatchPlan.new, List.length_nil]
    omega
  rw [if_neg hfull]
  have hspace : reports.entries.length + fills.length ≤ N := by
    simp only [ReportBuffer.remainingCapacity, ReportBuffer.len] at hfull
    omega
  rw [planned, if_pos (by rw [hcount, hcapacity]; simp only [MatchPlan.new, List.length_nil]; omega)] at hplan
  simp only [finishPlan_eq rep] at hplan
  cases hcheck : ModelBook.remainderCheck ((views order.side).map LevelView.logical) order remaining L O with
  | error reason =>
      rw [hcheck] at hplan
      exact refused hplan
  | ok _ =>
      rw [hcheck] at hplan
      have hholds : ¬(logicalOf book.instrument views).Holds order.orderId := by
        simp [LogicalBook.Holds, hfind]
      have hroom : 0 < (if order.timeInForce = .ioc then (0 : Quantity) else remaining).val →
          RoomAt L O ((views order.side).map LevelView.logical) order.price := by
        intro hpos
        by_cases hioc : order.timeInForce = .ioc
        · simp [hioc] at hpos
        · rw [if_neg hioc] at hpos
          exact room_of_remainderCheck rep hcheck hioc hpos
      have happly := applyPlan_spec rep order reports reports.remainingCapacity remaining
        (if order.timeInForce = .ioc then 0 else remaining) (if order.timeInForce = .ioc then remaining else 0)
        hmatch hspace hholds hroom
      simp only [Except.map, finished, MatchPlan.new, List.nil_append] at hplan
      rw [show min reports.remainingCapacity N = reports.remainingCapacity from hcapacity] at hplan
      cases hrest : ((logicalOf book.instrument views).setLevels order.side.opposite makers).restRemainder L O
          order (if order.timeInForce = .ioc then 0 else remaining) with
      | none =>
          rw [hrest] at happly
          simp only at happly
          simp [SubmitRefines, OrderBook.submit, hplan, happly]
      | some after =>
          rw [hrest] at happly
          obtain ⟨book', reports', happly, hrep, hentries, hinst⟩ := happly
          refine ⟨book', reports', ?_, hrep, hentries, hinst⟩
          have hcount' : guardedSub reports'.len reports.len = some fills.length := by
            simp [guardedSub, ReportBuffer.len, hentries]
          -- the parts of the order that rest and that are discarded are both within what remained
          have htotal := matchLevels_total order.side order.price
            ((views order.side.opposite).map LevelView.logical) order.quantity
          rw [hmatch] at htotal
          have hrests : checkedSub order.quantity (if order.timeInForce = .ioc then 0 else remaining)
              = some (satSub order.quantity (if order.timeInForce = .ioc then 0 else remaining)) := by
            rw [checkedSub_eq_some, satSub_val]
            split
            · simp
            · simp only at htotal
              omega
          have hdiscards : checkedSub (satSub order.quantity (if order.timeInForce = .ioc then 0 else remaining))
                (if order.timeInForce = .ioc then remaining else 0)
              = some (satSub (satSub order.quantity (if order.timeInForce = .ioc then 0 else remaining))
                (if order.timeInForce = .ioc then remaining else 0)) := by
            simp only [checkedSub_eq_some, satSub_val]
            split
            · simp only [Fin.val_zero] at htotal ⊢
              omega
            · simp
          simp only [OrderBook.submit, hplan, happly, hcount', hrests, hdiscards, LogicalBook.summary,
            Option.bind_eq_bind, Option.bind_some]
          rfl

end HftEngine
