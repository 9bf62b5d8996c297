/-
Module: HftEngine.Proofs.ReferenceRefinement
Layer: Proofs
Purpose: The reference book mirrors the logical book: it holds the same levels
  in some order. Each of its operations gives the result of the logical one and
  keeps the mirror.
Imports: HftEngine.Proofs.LogicalFacts, HftEngine.Lib.KeyedList
Trusted boundary: none (fully proved)
Main exports: Mirrors, model_submit_eq, model_replace_eq, model_cancel_eq,
  priorityLevels_eq
-/
import HftEngine.Proofs.LogicalFacts
import HftEngine.Lib.KeyedList

namespace HftEngine

open Machine KeyedList

variable {L O N : Nat} {model : ModelBook} {logical : LogicalBook} {side : Side} {price : PriceTicks}
  {levels unsorted : ModelLevels} {queue : List ModelOrder}

/-- The reference book holds the levels of the logical book, in any order. -/
def Mirrors (model : ModelBook) (logical : LogicalBook) : Prop :=
  ∀ side, (model.levels side).Perm (logical.levels side)

/-! ### Crossing levels -/

/-- The two books test prices with code of their own, and decide alike. -/
theorem ModelBook.withinLimit_eq : ModelBook.withinLimit = crosses := by
  funext side limit price
  cases side <;> rfl

/-- The amend's test is the same one again, with the sides of the comparison
exchanged. -/
theorem ModelBook.wouldCross_eq : ModelBook.wouldCross = crosses := by
  funext side price best
  cases side <;> rfl

/-- Both books report the same state for the same fill. -/
theorem ModelBook.stateOf_eq : ModelBook.stateOf = OrderBook.orderStateOf := rfl

/-- Behind a level outside the limit every level is outside the limit. -/
theorem filter_crosses_nil {limit : PriceTicks} {rest : ModelLevels}
    (h : SortedLevels side.opposite.descending ((price, queue) :: rest))
    (hnot : crosses side limit price = false) :
    ((price, queue) :: rest).filter (fun level => crosses side limit level.1) = [] := by
  rw [List.filter_eq_nil_iff]
  intro level hlevel
  rcases List.mem_cons.mp hlevel with rfl | hmem
  · simpa using hnot
  · have hafter := (List.pairwise_cons.mp h).1 level hmem
    unfold crosses LevelIndex.precedes Side.descending Side.opposite at *
    cases side <;> simp at * <;> omega

/-- The sorted crossing prices of the reference book are those of the logical
side, in its order. -/
theorem crossingPrices_eq (wf : logical.WellFormed) (mirrors : Mirrors model logical) (order : NewOrder) :
    model.crossingPrices order
      = ((logical.levels order.side.opposite).filter
          fun level => crosses order.side order.price level.1).map Prod.fst := by
  have hsorted : SortedLevels order.side.opposite.descending ((logical.levels order.side.opposite).filter
      fun level => crosses order.side order.price level.1) :=
    (wf.sorted order.side.opposite).sublist List.filter_sublist
  have hperm : (((model.levels order.side.opposite).map Prod.fst).filter
      (crosses order.side order.price)).Perm (((logical.levels order.side.opposite).filter
      fun level => crosses order.side order.price level.1).map Prod.fst) := by
    rw [List.filter_map]
    exact ((mirrors order.side.opposite).filter _).map _
  unfold ModelBook.crossingPrices
  rw [ModelBook.withinLimit_eq]
  cases hside : order.side with
  | buy =>
      rw [hside] at hsorted hperm
      simp only [reduceCtorEq, if_false]
      refine insertionSort_eq ?_ hperm
      rw [Ascending, List.pairwise_map]
      refine hsorted.imp ?_
      intro first second h
      simpa [LevelIndex.precedes, Side.descending, Side.opposite] using h
  | sell =>
      rw [hside] at hsorted hperm
      simp only [if_true]
      rw [List.reverse_eq_iff]
      refine insertionSort_eq ?_
        (hperm.trans (List.reverse_perm _).symm)
      rw [Ascending, List.pairwise_reverse, List.pairwise_map]
      refine hsorted.imp ?_
      intro first second h
      simpa [LevelIndex.precedes, Side.descending, Side.opposite] using h

/-! ### Simulating the match -/

/-- The reference's dry run over a queue consumes and counts what matching the
queue does. -/
theorem simulateQueue_eq (price : PriceTicks) (queue : List ModelOrder) (remaining : Quantity) (count : Nat) :
    (ModelBook.simulateQueue queue remaining count).1 = (matchQueue price queue remaining).1 ∧
      (ModelBook.simulateQueue queue remaining count).2.1
        = count + (matchQueue price queue remaining).2.2.length ∧
      ((ModelBook.simulateQueue queue remaining count).2.2 = true →
        (matchQueue price queue remaining).1.val = 0) := by
  induction queue generalizing remaining count with
  | nil => simp [ModelBook.simulateQueue, matchQueue]
  | cons maker rest ih =>
      unfold ModelBook.simulateQueue matchQueue
      by_cases hzero : remaining.val = 0
      · simp [hzero]
      · simp only [if_neg hzero]
        by_cases hpart : remaining.val < maker.quantity.val
        · -- the next maker finds nothing left
          have hleft : satSub remaining (minWord remaining maker.quantity) = 0 := by
            apply Fin.ext
            simp
            omega
          rw [hleft, if_pos hpart]
          cases rest with
          | nil => simp [ModelBook.simulateQueue]
          | cons next rest => simp [ModelBook.simulateQueue]
        · have htraded : minWord remaining maker.quantity = maker.quantity := by
            apply Fin.ext
            simp
            omega
          rw [htraded, if_neg hpart]
          obtain ⟨hleft, hcount, hstop⟩ := ih (satSub remaining maker.quantity) (count + 1)
          refine ⟨hleft, ?_, hstop⟩
          rw [hcount, List.length_cons, Nat.add_right_comm, Nat.add_assoc]

/-- The simulation counts the fills of the logical match and leaves what it
leaves. -/
theorem simulate_eq {limit : PriceTicks} (hperm : ∀ level ∈ levels, unsorted.find?
      (fun other => decide (other.1 = level.1)) = some level)
    (hsorted : SortedLevels side.opposite.descending levels) (remaining : Quantity) (count : Nat) :
    ModelBook.simulate unsorted ((levels.filter fun level => crosses side limit level.1).map Prod.fst)
        remaining count
      = some ((matchLevels side limit levels remaining).1,
          count + (matchLevels side limit levels remaining).2.2.length) := by
  induction levels generalizing remaining count with
  | nil => simp [ModelBook.simulate, matchLevels]
  | cons level rest ih =>
      obtain ⟨price, queue⟩ := level
      by_cases hcross : crosses side limit price = false
      · rw [filter_crosses_nil hsorted hcross]
        simp [ModelBook.simulate, matchLevels, hcross]
      · have hcrosses : crosses side limit price = true := by simpa using hcross
        have hfind := hperm (price, queue) (by simp)
        have hrest := ih (fun level hlevel => hperm level (List.mem_cons_of_mem _ hlevel))
          (List.pairwise_cons.mp hsorted).2
        simp only [List.filter_cons, hcrosses, if_true, List.map_cons, ModelBook.simulate, hfind,
          Option.bind_eq_bind, Option.bind_some, matchLevels]
        obtain ⟨hleft, hcount, hstop⟩ := simulateQueue_eq price queue remaining count
        generalize ModelBook.simulateQueue queue remaining count = simulated at hleft hcount hstop
        obtain ⟨left, counted, stop⟩ := simulated
        simp only at hleft hcount hstop
        subst hleft hcount
        by_cases hzero : remaining.val = 0
        · -- nothing was left to begin with
          have hqueue : matchQueue price queue remaining = (remaining, queue, []) := by
            cases queue with
            | nil => rfl
            | cons maker rest => simp [matchQueue, hzero]
          simp only [hqueue, List.length_nil, Nat.add_zero, hzero, true_or, if_true]
          cases stop with
          | true => rfl
          | false => simp [hrest, matchLevels_zero hzero]
        · simp only [hzero, reduceCtorEq, or_self, if_false]
          cases stop with
          | true => simp [matchLevels_zero (hstop rfl)]
          | false =>
              simp only [Bool.false_eq_true, if_false, hrest, List.length_append]
              rw [Nat.add_assoc]

/-! ### Filling -/

/-- The reference's filling of a queue leaves what the match leaves and
produces the fills of the match. -/
theorem fillQueue_eq (queue : List ModelOrder) (remaining : Quantity) (fills : List ModelFill) :
    ModelBook.fillQueue price queue remaining fills
      = ((matchQueue price queue remaining).1, (matchQueue price queue remaining).2.1,
          fills ++ (matchQueue price queue remaining).2.2) := by
  induction queue generalizing remaining fills with
  | nil => simp [ModelBook.fillQueue, matchQueue]
  | cons maker rest ih =>
      unfold ModelBook.fillQueue matchQueue
      by_cases hzero : remaining.val = 0
      · simp [hzero]
      · simp only [if_neg hzero]
        by_cases hpart : remaining.val < maker.quantity.val
        · have htraded : minWord remaining maker.quantity = remaining := by
            apply Fin.ext
            simp
            omega
          have hleft : satSub remaining remaining = 0 := by
            apply Fin.ext
            simp
          have hmaker : ¬(satSub maker.quantity remaining).val = 0 := by
            simp
            omega
          rw [htraded, if_neg hmaker, if_pos hpart, hleft]
        · have htraded : minWord remaining maker.quantity = maker.quantity := by
            apply Fin.ext
            simp
            omega
          rw [htraded, if_pos (by simp), if_neg hpart, ih, List.append_assoc]
          rfl

/-- Nothing is filled once nothing remains. -/
theorem fillLevels_zero {prices : List I64} {remaining : Quantity} {fills : List ModelFill}
    (h : remaining.val = 0) :
    ModelBook.fillLevels prices remaining unsorted fills = some (remaining, unsorted, fills) := by
  cases prices with
  | nil => rfl
  | cons price rest => simp [ModelBook.fillLevels, h]

/-- Filling the crossing levels where they lie gives the levels of the logical
match. -/
theorem fillLevels_eq (limit : PriceTicks) (hperm : unsorted.Perm levels)
    (hsorted : SortedLevels side.opposite.descending levels) (remaining : Quantity)
    (fills : List ModelFill) :
    ∃ after, ModelBook.fillLevels ((levels.filter fun level => crosses side limit level.1).map Prod.fst)
        remaining unsorted fills
          = some ((matchLevels side limit levels remaining).1, after,
              fills ++ (matchLevels side limit levels remaining).2.2) ∧
      after.Perm (matchLevels side limit levels remaining).2.1 := by
  induction levels generalizing unsorted remaining fills with
  | nil => exact ⟨unsorted, by simp [ModelBook.fillLevels, matchLevels], by simpa [matchLevels] using hperm⟩
  | cons level rest ih =>
      obtain ⟨price, queue⟩ := level
      by_cases hzero : remaining.val = 0
      · rw [fillLevels_zero hzero, matchLevels_zero hzero]
        exact ⟨unsorted, by simp, hperm⟩
      by_cases hcross : crosses side limit price = false
      · rw [filter_crosses_nil hsorted hcross]
        refine ⟨unsorted, ?_, ?_⟩
        · simp [ModelBook.fillLevels, matchLevels, hcross]
        · simpa [matchLevels, hcross] using hperm
      · have hcrosses : crosses side limit price = true := by simpa using hcross
        obtain ⟨position, hposition, hget⟩ := findIdx?_of_single ((hsorted.single price).perm hperm)
          (hperm.symm.subset (by simp : (price, queue) ∈ (price, queue) :: rest)) (by simp)
        simp only [List.filter_cons, hcrosses, if_true, List.map_cons, ModelBook.fillLevels,
          hposition, hget, Option.bind_eq_bind, Option.bind_some, fillQueue_eq, matchLevels, hzero,
          reduceCtorEq, or_self, if_false]
        by_cases hempty : (matchQueue price queue remaining).2.1 = []
        · -- the level is exhausted and disappears from both
          simp only [hempty, List.isEmpty_nil, if_true]
          obtain ⟨after, hfill, hafter⟩ := ih (perm_eraseIdx hperm hget) (List.pairwise_cons.mp hsorted).2
            (matchQueue price queue remaining).1 (fills ++ (matchQueue price queue remaining).2.2)
          exact ⟨after, by rw [hfill, List.append_assoc], hafter⟩
        · -- a level that survives has absorbed all there was
          have hleft := matchQueue_left queue remaining hempty
          have hnot : (matchQueue price queue remaining).2.1.isEmpty = false := by
            simpa using hempty
          simp only [hnot, Bool.false_eq_true, if_false, fillLevels_zero hleft, matchLevels_zero hleft,
            List.append_nil]
          exact ⟨_, rfl, perm_set hperm hget _⟩

/-! ### Resting -/

/-- Appending at a price where the levels lie is appending in the sorted
levels. -/
theorem pushBack_perm {descending : Bool} (hperm : unsorted.Perm levels)
    (hsorted : SortedLevels descending levels) (price : PriceTicks) (order : ModelOrder) :
    (ModelBook.pushBack unsorted price order).Perm (addOrder descending price order levels) := by
  unfold ModelBook.pushBack
  rcases split_at Prod.fst descending price hsorted with
    ⟨first, ⟨listed, queue⟩, second, hlevels, hprice, hfirst⟩ | ⟨first, second, hlevels, hfirst, hsecond⟩
  · simp only at hprice
    subst hprice
    obtain ⟨position, hposition, hget⟩ := findIdx?_of_single ((hsorted.single listed).perm hperm)
      (hperm.symm.subset (by simp [hlevels] : (listed, queue) ∈ levels)) (by simp)
    rw [hposition, hlevels, addOrder_of_occupied hfirst]
    have hhead : unsorted.Perm ((listed, queue) :: (first ++ second)) := by
      rw [hlevels] at hperm
      exact hperm.trans List.perm_middle
    obtain ⟨hlt, hat⟩ := List.getElem?_eq_some_iff.mp hget
    have hmodify : unsorted.modify position (fun level => (level.1, level.2 ++ [order]))
        = unsorted.set position (listed, queue ++ [order]) := by
      rw [List.modify_eq_set_getElem?, hget]
      rfl
    simp only [hmodify]
    exact (perm_set hhead hget _).trans List.perm_middle.symm
  · have hnone : unsorted.findIdx? (fun level => decide (level.1 = price)) = none := by
      rw [List.findIdx?_eq_none_iff]
      intro level hlevel
      have hmem := hperm.subset hlevel
      rw [hlevels] at hmem
      rcases List.mem_append.mp hmem with h | h
      · simpa using ne_of_precedes (hfirst level h)
      · simpa using (ne_of_precedes (hsecond level h)).symm
    rw [hnone, hlevels, addOrder_of_vacant hfirst hsecond]
    rw [hlevels] at hperm
    exact (List.perm_append_singleton _ _).trans ((hperm.cons _).trans List.perm_middle.symm)

/-! ### Submitting -/

/-- The mirror survives the same new levels on both sides, in whatever order
the reference keeps them. -/
theorem Mirrors.setLevels (mirrors : Mirrors model logical) (side : Side) (hperm : unsorted.Perm levels) :
    Mirrors (model.setLevels side unsorted) (logical.setLevels side levels) := by
  intro other
  have hkeep := mirrors other
  cases side <;> cases other <;> first | exact hperm | exact hkeep

/-- Writing the levels of a side leaves those of the other. -/
theorem Mirrors.levels_of_ne {other : Side} (h : side ≠ other) :
    (model.setLevels side unsorted).levels other = model.levels other := by
  cases side <;> cases other <;> first | rfl | exact absurd rfl h

/-- Some level within the limit means that the best level is. -/
theorem bestCrosses_eq_any (wf : logical.WellFormed) (side : Side) (limit : PriceTicks) :
    logical.bestCrosses side limit
      = (logical.levels side.opposite).any fun level => crosses side limit level.1 := by
  have hsorted : SortedLevels side.opposite.descending (logical.levels side.opposite) :=
    wf.sorted side.opposite
  unfold LogicalBook.bestCrosses
  cases hlevels : logical.levels side.opposite with
  | nil => rfl
  | cons level rest =>
      obtain ⟨price, queue⟩ := level
      rw [hlevels] at hsorted
      by_cases hcross : crosses side limit price = false
      · have hnone := filter_crosses_nil hsorted hcross
        rw [List.filter_eq_nil_iff] at hnone
        rw [List.any_eq_false.mpr (by simpa using hnone)]
        simpa using hcross
      · simp only [Bool.not_eq_false] at hcross
        simp [hcross]

/-- The reference finds an id among its orders exactly when the logical book
holds it. -/
theorem duplicate_iff (mirrors : Mirrors model logical) (id : OrderId) :
    (((model.bids ++ model.asks).flatMap Prod.snd).any fun resting => decide (resting.id = id)) = true
      ↔ logical.Holds id := by
  rw [holds_iff_mem, List.any_eq_true]
  simp only [List.mem_flatMap, List.mem_append, decide_eq_true_eq]
  constructor
  · rintro ⟨order, ⟨level, hlevel | hlevel, horder⟩, hid⟩
    · exact ⟨.buy, level, (mirrors .buy).subset hlevel, order, horder, hid⟩
    · exact ⟨.sell, level, (mirrors .sell).subset hlevel, order, horder, hid⟩
  · rintro ⟨side, level, hlevel, order, horder, hid⟩
    have hmem := (mirrors side).symm.subset hlevel
    cases side with
    | buy => exact ⟨order, ⟨level, .inl hmem, horder⟩, hid⟩
    | sell => exact ⟨order, ⟨level, .inr hmem, horder⟩, hid⟩

/-- Whether a remainder may rest does not depend on the order in which the
levels are kept. -/
theorem remainderCheck_perm {descending : Bool} (hperm : unsorted.Perm levels)
    (hsorted : SortedLevels descending levels) (order : NewOrder) (remaining : Quantity) :
    ModelBook.remainderCheck unsorted order remaining L O
      = ModelBook.remainderCheck levels order remaining L O := by
  unfold ModelBook.remainderCheck
  rw [find?_perm (hsorted.single order.price) hperm, hperm.length_eq]

/-- What the reference book reports for a logical result. -/
def summaryOf (result : MatchSummary × List ModelFill) : ModelSummary :=
  ⟨result.1.state, result.1.filledQuantity, result.1.restingQuantity, result.1.discardedQuantity, result.2⟩

/-- Planning in the reference book gives the logical verdict. -/
theorem plan_eq (wf : logical.WellFormed) (mirrors : Mirrors model logical) (order : NewOrder)
    (hprice : 0 < order.price.val) (hquantity : order.quantity.val ≠ 0)
    (hnew : ¬logical.Holds order.orderId) (capacity : Nat) :
    model.plan order capacity L O
      = some (if order.timeInForce = .postOnly ∧ logical.bestCrosses order.side order.price then
          .error .postOnlyWouldTrade
        else if capacity < (matchLevels order.side order.price (logical.levels order.side.opposite)
            order.quantity).2.2.length then .error .reportCapacity
        else (ModelBook.remainderCheck (logical.levels order.side) order
          (matchLevels order.side order.price (logical.levels order.side.opposite) order.quantity).1 L O).map
            fun _ => ((logical.levels order.side.opposite).filter
              fun level => crosses order.side order.price level.1).map Prod.fst) := by
  unfold ModelBook.plan
  rw [if_neg (by omega), if_neg hquantity, if_neg (by simpa using (duplicate_iff mirrors _).not.mpr hnew),
    crossingPrices_eq wf mirrors]
  have hpost : (¬(((logical.levels order.side.opposite).filter
      fun level => crosses order.side order.price level.1).map Prod.fst).isEmpty)
      ↔ logical.bestCrosses order.side order.price = true := by
    rw [bestCrosses_eq_any wf]
    simp
  simp only [hpost]
  split
  · rfl
  · rw [simulate_eq (fun level hlevel => find?_of_single
        (((show SortedLevels _ _ from wf.sorted order.side.opposite).single level.1).perm
          (mirrors order.side.opposite))
        ((mirrors order.side.opposite).symm.subset hlevel) (by simp))
      (wf.sorted order.side.opposite)]
    simp only [Option.bind_eq_bind, Option.bind_some, Nat.zero_add, Option.pure_def]
    split
    · rfl
    · rw [remainderCheck_perm (mirrors order.side) (wf.sorted order.side)]
      cases ModelBook.remainderCheck (logical.levels order.side) order _ L O <;> rfl

/-- Filling and resting in the reference book, given the fills of the logical
match. -/
theorem submit_of_plan (wf : logical.WellFormed) (mirrors : Mirrors model logical) (order : NewOrder)
    {capacity : Nat} (hfits : ∀ ids : OrderId → Prop,
      (∀ id, ids id → id = order.orderId ∨ logical.Holds id) → FitsIndex L O ids)
    (hplan : model.plan order capacity L O = some (.ok (((logical.levels order.side.opposite).filter
      fun level => crosses order.side order.price level.1).map Prod.fst)))
    (hcheck : ModelBook.remainderCheck (logical.levels order.side) order
      (matchLevels order.side order.price (logical.levels order.side.opposite) order.quantity).1 L O
        = .ok ()) :
    let matched := matchLevels order.side order.price (logical.levels order.side.opposite) order.quantity
    let resting := if order.timeInForce = .ioc then 0 else matched.1
    let discarded := if order.timeInForce = .ioc then matched.1 else 0
    ∃ after model', (logical.setLevels order.side.opposite matched.2.1).restRemainder L O order resting
        = some after ∧
      model.submit order capacity L O
        = some (.ok (summaryOf (LogicalBook.summary order resting discarded matched.2.2, matched.2.2)), model') ∧
      Mirrors model' after := by
  intro matched resting discarded
  obtain ⟨makers, hfill, hmakers⟩ := fillLevels_eq order.price (mirrors order.side.opposite)
    (wf.sorted order.side.opposite) order.quantity []
  have hfilled := mirrors.setLevels order.side.opposite hmakers
  have hne : order.side.opposite ≠ order.side := by cases order.side <;> simp [Side.opposite]
  unfold ModelBook.submit
  simp only [ModelBook.stateOf_eq, hplan, hfill, Option.bind_eq_bind, Option.bind_some, Option.pure_def, List.nil_append]
  by_cases hrests : 0 < matched.1.val ∧ (order.timeInForce = .gtc ∨ order.timeInForce = .postOnly)
  · -- the remainder rests at its own price
    have hioc : order.timeInForce ≠ .ioc := by
      rintro heq
      simp [heq] at hrests
    have hresting : resting = matched.1 := if_neg hioc
    have hdiscarded : discarded = 0 := if_neg hioc
    rw [hresting, hdiscarded]
    have hfit : FitsIndex L O fun id => id = order.orderId ∨
        (logical.setLevels order.side.opposite matched.2.1).Holds id := by
      refine hfits _ fun id hid => ?_
      rcases hid with rfl | hid
      · exact .inl rfl
      · exact .inr (holds_of_matched rfl hid)
    refine ⟨(logical.setLevels order.side.opposite matched.2.1).rest order.side order.price
        (LogicalBook.remainder order matched.1),
      (model.setLevels order.side.opposite makers).setLevels order.side (ModelBook.pushBack
        ((model.setLevels order.side.opposite makers).levels order.side) order.price
        (LogicalBook.remainder order matched.1)), ?_, ?_, ?_⟩
    · unfold LogicalBook.restRemainder
      rw [if_neg (by omega), if_pos hfit]
    · rw [if_pos hrests, if_neg (by simp [hioc])]
      rfl
    · refine hfilled.setLevels order.side ?_
      rw [Mirrors.levels_of_ne hne]
      refine pushBack_perm ?_ ?_ _ _
      · simpa [hne] using mirrors order.side
      · simpa [hne, SortedLevels] using wf.sorted order.side
  · -- nothing rests: all filled, or an IOC remainder is discarded
    rw [if_neg hrests]
    have hzero : resting.val = 0 := by
      by_cases hioc : order.timeInForce = .ioc
      · simp [resting, hioc]
      · simp only [resting, if_neg hioc]
        by_contra hpos
        have hpos' : 0 < matched.1.val := by omega
        cases htif : order.timeInForce with
        | gtc => exact hrests ⟨hpos', .inl htif⟩
        | postOnly => exact hrests ⟨hpos', .inr htif⟩
        | ioc => exact hioc htif
        | fok => simp [ModelBook.remainderCheck, htif, hpos', matched] at hcheck hpos'
    refine ⟨logical.setLevels order.side.opposite matched.2.1, model.setLevels order.side.opposite makers, ?_, ?_,
      hfilled⟩
    · unfold LogicalBook.restRemainder
      rw [if_pos hzero]
    · by_cases hioc : order.timeInForce = .ioc
      · rw [if_pos ⟨hrests, hioc⟩]
        simp only [resting, discarded, if_pos hioc, summaryOf, LogicalBook.summary, matched]
      · rw [if_neg (by simp [hioc])]
        simp only [resting, discarded, if_neg hioc, summaryOf, LogicalBook.summary, matched]

/-- Submitting to the reference book mirrors submitting to the logical book. -/
theorem model_submit_eq (wf : logical.WellFormed) (mirrors : Mirrors model logical) (order : NewOrder)
    (hinstrument : order.instrumentId = logical.instrument) (hfits : ∀ ids : OrderId → Prop,
      (∀ id, ids id → id = order.orderId ∨ logical.Holds id) → FitsIndex L O ids) (capacity : Nat) :
    ∃ result after model', logical.submit L O order capacity = some (result, after) ∧
      model.submit order capacity L O = some (result.map summaryOf, model') ∧ Mirrors model' after := by
  unfold LogicalBook.submit
  rw [if_neg (by simpa using hinstrument)]
  by_cases hprice : order.price.val ≤ 0
  · rw [if_pos hprice]
    exact ⟨_, _, model, rfl, by simp [ModelBook.submit, ModelBook.plan, hprice, Except.map], mirrors⟩
  rw [if_neg hprice]
  by_cases hquantity : order.quantity.val = 0
  · rw [if_pos hquantity]
    exact ⟨_, _, model, rfl, by simp [ModelBook.submit, ModelBook.plan, hprice, hquantity, Except.map], mirrors⟩
  rw [if_neg hquantity]
  by_cases hholds : logical.Holds order.orderId
  · rw [if_pos (show (logical.find _).isSome = true from hholds)]
    refine ⟨_, _, model, rfl, ?_, mirrors⟩
    have hdup := (duplicate_iff mirrors _).mpr hholds
    simp only [ModelBook.submit, ModelBook.plan, if_neg hprice, if_neg hquantity, if_pos hdup, Except.map]
  rw [if_neg (show ¬(logical.find _).isSome = true from hholds)]
  have hplan := plan_eq (L := L) (O := O) wf mirrors order (by omega) hquantity hholds capacity
  by_cases hpost : order.timeInForce = .postOnly ∧ logical.bestCrosses order.side order.price
  · rw [if_pos hpost] at hplan ⊢
    exact ⟨_, _, model, rfl, by simp only [ModelBook.submit, hplan, Except.map], mirrors⟩
  rw [if_neg hpost] at hplan ⊢
  simp only
  by_cases hcapacity : capacity < (matchLevels order.side order.price (logical.levels order.side.opposite)
      order.quantity).2.2.length
  · rw [if_pos hcapacity] at hplan ⊢
    exact ⟨_, _, model, rfl, by simp only [ModelBook.submit, hplan, Except.map], mirrors⟩
  rw [if_neg hcapacity] at hplan ⊢
  cases hcheck : ModelBook.remainderCheck (logical.levels order.side) order
      (matchLevels order.side order.price (logical.levels order.side.opposite) order.quantity).1 L O with
  | error reason =>
      rw [hcheck] at hplan
      exact ⟨_, _, model, rfl, by simp only [ModelBook.submit, hplan, Except.map], mirrors⟩
  | ok _ =>
      rw [hcheck] at hplan
      obtain ⟨after, model', hrest, hsubmit, hmirrors⟩ := submit_of_plan wf mirrors order hfits hplan hcheck
      refine ⟨.ok (_, _), after, model', ?_, hsubmit, hmirrors⟩
      rw [hrest]
      rfl

/-! ### Amending and cancelling -/

section Sited

variable {old : ModelOrder} {front back : ModelLevels} {earlier later : List ModelOrder}

/-- Where the reference book keeps an order of the logical book. -/
theorem position_of_sited (mirrors : Mirrors model logical)
    (sited : logical.Sited side price old front back earlier later) :
    ∃ position, ModelBook.findIn (model.levels side) old.id = some position ∧
      (model.levels side)[position]? = some (price, earlier ++ old :: later) := by
  refine findIdx?_of_single (Single.perm ?_ (mirrors side)) ((mirrors side).symm.subset ?_) (by simp)
  · have hown : ∀ level ∈ logical.levels side, (level.2.any fun order => decide (order.id = old.id)) = true →
        level = (price, earlier ++ old :: later) := by
      intro level hlevel hany
      rw [sited.levels_eq] at hlevel
      by_contra hne
      have hother : level ∈ front ++ back := by
        simp only [List.mem_append, List.mem_cons] at hlevel ⊢
        tauto
      obtain ⟨order, horder, hid⟩ := List.any_eq_true.mp hany
      exact sited.levels_free level hother order horder (by simpa using hid)
    intro first hfirst second hsecond hany hany'
    rw [hown first hfirst hany, hown second hsecond hany']
  · simp [sited.levels_eq]

/-- An order that no queue holds is not found. -/
theorem findIn_eq_none {id : OrderId} (h : ∀ level ∈ unsorted, ∀ other ∈ level.2, other.id ≠ id) :
    ModelBook.findIn unsorted id = none := by
  unfold ModelBook.findIn
  rw [List.findIdx?_eq_none_iff]
  intro level hlevel
  rw [List.any_eq_false]
  intro order horder
  simpa using h level hlevel order horder

/-- The reference locates a resting order in the level that holds it. -/
theorem locate_of_sited (mirrors : Mirrors model logical)
    (sited : logical.Sited side price old front back earlier later) :
    ∃ position, model.locate old.id = some (side, position) ∧ (model.levels side)[position]? = some (price, earlier ++ old :: later) := by
  obtain ⟨position, hfind, hget⟩ := position_of_sited mirrors sited
  refine ⟨position, ?_, hget⟩
  have hother : ModelBook.findIn (model.levels side.opposite) old.id = none :=
    findIn_eq_none fun level hlevel => sited.side_free level ((mirrors side.opposite).subset hlevel)
  cases side with
  | buy =>
      simp only [ModelBook.levels] at hfind
      simp [ModelBook.locate, hfind]
  | sell =>
      simp only [ModelBook.levels, Side.opposite] at hfind hother
      simp [ModelBook.locate, hfind, hother]

/-- Identifiers being distinct, the position of an order is the number of those
before it. -/
theorem queue_position (sited : logical.Sited side price old front back earlier later) :
    (earlier ++ old :: later).findIdx? (fun order => decide (order.id = old.id)) = some earlier.length :=
  findIdx?_of_split (by simp) fun other hother => by
    simpa using sited.queue_free other (List.mem_append_left _ hother)

/-- The level of an order can be moved to the front, the mirror being up to
order. -/
theorem perm_head (mirrors : Mirrors model logical)
    (sited : logical.Sited side price old front back earlier later) :
    (model.levels side).Perm ((price, earlier ++ old :: later) :: (front ++ back)) := by
  have hperm := mirrors side
  rw [sited.levels_eq] at hperm
  exact hperm.trans List.perm_middle

/-- Taking an order out of its queue where the levels lie. -/
theorem remove_perm (mirrors : Mirrors model logical)
    (sited : logical.Sited side price old front back earlier later) {position : Nat}
    (hget : (model.levels side)[position]? = some (price, earlier ++ old :: later)) :
    (if (earlier ++ later).isEmpty then (model.levels side).eraseIdx position
      else (model.levels side).set position (price, earlier ++ later)).Perm
        (removeOrder old.id (logical.levels side)) := by
  rw [sited.removeOrder_eq]
  have hhead := perm_head mirrors sited
  split
  · exact perm_eraseIdx hhead hget
  · exact (perm_set hhead hget _).trans List.perm_middle.symm

/-- Removing an order keeps the levels sorted. -/
theorem removeOrder_sorted (wf : logical.WellFormed)
    (sited : logical.Sited side price old front back earlier later) :
    SortedLevels side.descending (removeOrder old.id (logical.levels side)) := by
  have hsorted := wf.sorted side
  rw [sited.levels_eq] at hsorted
  have hprices : ∀ {levels levels' : ModelLevels}, (levels'.map Prod.fst).Sublist (levels.map Prod.fst) →
      SortedLevels side.descending levels → SortedLevels side.descending levels' := by
    intro levels levels' hsub h
    have hmap := (List.pairwise_map.mpr h : (levels.map Prod.fst).Pairwise
      fun first second => LevelIndex.precedes side.descending second first = true)
    exact List.pairwise_map.mp (hmap.sublist hsub)
  rw [sited.removeOrder_eq]
  refine hprices ?_ hsorted
  rw [List.map_append, List.map_append]
  refine List.Sublist.append_left ?_ _
  split
  · simp
  · simp

/-! #### Amends -/

/-- The best price so far crosses exactly when some price so far does. -/
theorem foldl_better_any (side : Side) (limit : PriceTicks) (prices : List I64) (best : Option I64) :
    (prices.foldl (fun best price =>
      match best with
      | none => some price
      | some current =>
          match side with
          | .buy => if price.val < current.val then some price else some current
          | .sell => if current.val < price.val then some price else some current) best).any
        (crosses side limit)
      = (best.any (crosses side limit) || prices.any (crosses side limit)) := by
  induction prices generalizing best with
  | nil => simp
  | cons price rest ih =>
      rw [List.foldl_cons, ih, List.any_cons, ← Bool.or_assoc]
      congr 1
      cases best with
      | none => simp
      | some current =>
          rw [Bool.eq_iff_iff]
          cases side with
          | buy =>
              simp only
              split <;> simp [crosses] <;> omega
          | sell =>
              simp only
              split <;> simp [crosses] <;> omega

/-- A price crosses the best opposing level exactly when it crosses any of
them. -/
theorem bestOpposing_any (side : Side) (limit : PriceTicks) :
    (model.bestOpposing side).any (crosses side limit)
      = (model.levels side.opposite).any fun level => crosses side limit level.1 := by
  refine (foldl_better_any side limit ((model.levels side.opposite).map Prod.fst) none).trans ?_
  simp [List.any_map, Function.comp_def]

/-- The checks of an amend agree with the logical ones. -/
theorem model_replaceChecks_eq (wf : logical.WellFormed) (mirrors : Mirrors model logical)
    (sited : logical.Sited side price old front back earlier later) (replace : ReplaceOrder) {position : Nat}
    (hget : (model.levels side)[position]? = some (price, earlier ++ old :: later)) :
    model.replaceChecks replace side position price (earlier ++ old :: later).length L O
      = some (logical.replaceChecks L O replace side price) := by
  have hsorted : SortedLevels side.descending (logical.levels side) := wf.sorted side
  have hlevel : (price, earlier ++ old :: later) ∈ logical.levels side := by simp [sited.levels_eq]
  have hcross : (model.bestOpposing side).any (crosses side replace.price)
      = logical.bestCrosses side replace.price := by
    rw [bestOpposing_any, bestCrosses_eq_any wf]
    exact (mirrors side.opposite).any_eq
  unfold ModelBook.replaceChecks LogicalBook.replaceChecks
  rw [ModelBook.wouldCross_eq, hcross]
  split
  · rfl
  cases hfind : (logical.levels side).find? fun level => decide (level.1 = replace.price) with
  | some found =>
      obtain ⟨listed, queue⟩ := found
      have hlisted : listed = replace.price := by simpa using List.find?_some hfind
      subst hlisted
      obtain ⟨destination, hdestination, hat⟩ :=
        findIdx?_of_single ((hsorted.single replace.price).perm (mirrors side))
          ((mirrors side).symm.subset (List.mem_of_find?_eq_some hfind)) (by simp)
      simp only [hdestination, hat, Option.bind_eq_bind, Option.bind_some, Option.pure_def]
      have hsame : (destination = position ∧ replace.price = price) ↔ replace.price = price := by
        refine ⟨And.right, fun heq => ⟨?_, heq⟩⟩
        -- one price is one level, and no level is listed twice
        subst heq
        have hfound := find?_of_single (hsorted.single replace.price) hlevel (by simp)
        rw [hfind] at hfound
        rw [Option.some.inj hfound] at hat
        have hnodup : (model.levels side).Nodup := by
          rw [(mirrors side).nodup_iff]
          refine hsorted.imp ?_
          rintro first second hprec rfl
          simp at hprec
        exact (List.getElem?_inj (List.getElem?_eq_some_iff.mp hat).1 hnodup).mp (hat.trans hget.symm)
      simp only [hsame]
      split <;> rfl
  | none =>
      have hnone : (model.levels side).findIdx? (fun level => decide (level.1 = replace.price)) = none := by
        rw [List.findIdx?_eq_none_iff]
        intro level hmem
        simpa using List.find?_eq_none.mp hfind level ((mirrors side).subset hmem)
      have hown := find?_of_single (hsorted.single price) hlevel (by simp)
      simp only [hnone, hown, Option.any_some, decide_eq_true_eq, (mirrors side).length_eq]
      split <;> rfl

end Sited

/-- Amending in the reference book mirrors amending in the logical book. -/
theorem model_replace_eq (wf : logical.WellFormed) (mirrors : Mirrors model logical) (replace : ReplaceOrder)
    (hinstrument : replace.instrumentId = logical.instrument) (hprice : 0 < replace.price.val)
    (hquantity : 0 < replace.quantity.val) :
    ∃ model', model.replace replace L O
        = some ((logical.replace L O replace).1.map fun replaced => (replaced.oldQuantity, replaced.priorityLost),
            model') ∧
      Mirrors model' (logical.replace L O replace).2 := by
  unfold ModelBook.replace LogicalBook.replace
  rw [if_neg (by omega), if_neg (by omega), if_neg (by simpa using hinstrument)]
  cases hfind : logical.find replace.orderId with
  | none =>
      have habsent : ∀ side, ∀ level ∈ model.levels side, ∀ other ∈ level.2, other.id ≠ replace.orderId := by
        intro side level hlevel other hother
        exact find_eq_none_iff.mp hfind (side, level.1, other)
          (mem_orders.mpr ⟨level.2, (mirrors side).subset hlevel, hother⟩)
      have hbids := findIn_eq_none (habsent .buy)
      have hasks := findIn_eq_none (habsent .sell)
      simp only [ModelBook.levels] at hbids hasks
      simp only [ModelBook.locate, hbids, hasks, Option.map_none]
      exact ⟨model, rfl, mirrors⟩
  | some entry =>
      obtain ⟨side, price, old⟩ := entry
      obtain ⟨hid, front, back, earlier, later, sited⟩ := wf.sited hfind
      obtain ⟨position, hlocated, hget⟩ := locate_of_sited mirrors sited
      have hqueue := queue_position sited
      rw [hid] at hlocated hqueue
      simp only [hlocated, hget, hqueue, Option.bind_eq_bind, Option.bind_some, List.getElem?_append_right,
        le_refl, Nat.sub_self, List.getElem?_cons_zero, Option.pure_def]
      by_cases howner : old.account = replace.accountId
      swap
      · rw [if_pos howner, if_pos howner]
        exact ⟨model, rfl, mirrors⟩
      have howned : ¬old.account ≠ replace.accountId := by simpa using howner
      have hpositive : ¬replace.price.val ≤ 0 := by omega
      have hsome : ¬replace.quantity.val = 0 := by omega
      simp only [if_neg howned, if_neg hpositive, if_neg hsome]
      by_cases hreduce : replace.price = price ∧ replace.quantity.val < old.quantity.val
      · -- reduced in place
        rw [if_pos hreduce, if_pos hreduce]
        refine ⟨_, rfl, mirrors.setLevels side ?_⟩
        have hset := setQuantity_of_split price replace.quantity sited.levels_free
          sited.queue_free
        rw [← sited.levels_eq, hid] at hset
        rw [hset, List.set_append_right _ _ (le_refl _)]
        simp only [Nat.sub_self, List.set_cons_zero, hid]
        exact (perm_set (perm_head mirrors sited) hget _).trans List.perm_middle.symm
      · rw [if_neg hreduce, if_neg hreduce, model_replaceChecks_eq wf mirrors sited replace hget]
        simp only [Option.bind_some]
        cases hchecks : logical.replaceChecks L O replace side price with
        | error reason => exact ⟨model, rfl, mirrors⟩
        | ok _ =>
            refine ⟨_, rfl, ?_⟩
            have herase : (earlier ++ old :: later).eraseIdx earlier.length = earlier ++ later := by
              rw [List.eraseIdx_append_of_length_le (le_refl _)]
              simp
            have hremoved := remove_perm mirrors sited hget
            have hsorted := removeOrder_sorted wf sited
            rw [hid] at hremoved hsorted
            have hadded := pushBack_perm hremoved hsorted replace.price (LogicalBook.amended replace)
            intro other
            rw [herase, LogicalBook.rest, LogicalBook.remove]
            have hkeep := mirrors other
            cases side <;> cases other <;> first | exact hadded | exact hkeep

/-! #### Cancels -/

/-- A cancel finds nothing on a side without the order. -/
theorem cancelFrom_of_absent {cancel : CancelOrder}
    (h : ∀ level ∈ unsorted, ∀ other ∈ level.2, other.id ≠ cancel.orderId) :
    ModelBook.cancelFrom cancel unsorted = none := by
  induction unsorted with
  | nil => rfl
  | cons level rest ih =>
      obtain ⟨price, queue⟩ := level
      have hqueue : queue.findIdx? (fun order => decide (order.id = cancel.orderId)) = none := by
        rw [List.findIdx?_eq_none_iff]
        intro order horder
        simpa using h (price, queue) (by simp) order horder
      simp [ModelBook.cancelFrom, hqueue, ih fun level hlevel => h level (List.mem_cons_of_mem _ hlevel)]

/-- Cancelling in the first level that holds the order. -/
theorem cancelFrom_of_split {cancel : CancelOrder} {front : ModelLevels} {old : ModelOrder}
    {earlier : List ModelOrder} (price : PriceTicks) (back : ModelLevels) (later : List ModelOrder)
    (hid : old.id = cancel.orderId)
    (hfront : ∀ level ∈ front, ∀ other ∈ level.2, other.id ≠ cancel.orderId)
    (hearlier : ∀ other ∈ earlier, other.id ≠ cancel.orderId) :
    ModelBook.cancelFrom cancel (front ++ (price, earlier ++ old :: later) :: back)
      = some (if old.account ≠ cancel.accountId then
          (.error .notOrderOwner, front ++ (price, earlier ++ old :: later) :: back)
        else (.ok (old.id, old.account, old.quantity),
          front ++ if (earlier ++ later).isEmpty then back else (price, earlier ++ later) :: back)) := by
  induction front with
  | nil =>
      have hqueue : (earlier ++ old :: later).findIdx? (fun order => decide (order.id = cancel.orderId))
          = some earlier.length :=
        findIdx?_of_split (by simpa using hid) fun other hother => by simpa using hearlier other hother
      have herase : (earlier ++ old :: later).eraseIdx earlier.length = earlier ++ later := by
        rw [List.eraseIdx_append_of_length_le (le_refl _)]
        simp
      simp only [List.nil_append, ModelBook.cancelFrom, hqueue, List.getElem?_append_right, le_refl, Nat.sub_self,
        List.getElem?_cons_zero, herase]
      split <;> rfl
  | cons level rest ih =>
      obtain ⟨listed, queue⟩ := level
      have hqueue : queue.findIdx? (fun order => decide (order.id = cancel.orderId)) = none := by
        rw [List.findIdx?_eq_none_iff]
        intro order horder
        simpa using hfront (listed, queue) (by simp) order horder
      simp only [List.cons_append, ModelBook.cancelFrom, hqueue,
        ih fun level hlevel => hfront level (List.mem_cons_of_mem _ hlevel), Option.map_some]
      split <;> rfl

/-- Cancelling in the reference book mirrors cancelling in the logical book. -/
theorem model_cancel_eq (wf : logical.WellFormed) (mirrors : Mirrors model logical) (cancel : CancelOrder)
    (hinstrument : cancel.instrumentId = logical.instrument) :
    (model.cancel cancel).1
        = (logical.cancel cancel).1.map (fun cancelled =>
            (cancelled.orderId, cancelled.accountId, cancelled.quantity)) ∧
      Mirrors (model.cancel cancel).2 (logical.cancel cancel).2 := by
  unfold LogicalBook.cancel
  rw [if_neg (by simpa using hinstrument)]
  cases hfind : logical.find cancel.orderId with
  | none =>
      have habsent : ∀ side, ∀ level ∈ model.levels side, ∀ other ∈ level.2, other.id ≠ cancel.orderId := by
        intro side level hlevel other hother
        exact find_eq_none_iff.mp hfind (side, level.1, other)
          (mem_orders.mpr ⟨level.2, (mirrors side).subset hlevel, hother⟩)
      have hbids := cancelFrom_of_absent (habsent .buy)
      have hasks := cancelFrom_of_absent (habsent .sell)
      simp only [ModelBook.levels] at hbids hasks
      simp only [ModelBook.cancel, hbids, hasks]
      exact ⟨rfl, mirrors⟩
  | some entry =>
      obtain ⟨side, price, old⟩ := entry
      obtain ⟨hid, front, back, earlier, later, sited⟩ := wf.sited hfind
      -- the reference book lists the same level between other neighbours
      obtain ⟨front', back', hlevels⟩ := List.append_of_mem ((mirrors side).symm.subset
        (by simp [sited.levels_eq] : (price, earlier ++ old :: later) ∈ logical.levels side))
      have hothers : (front' ++ back').Perm (front ++ back) := by
        have hhead := perm_head mirrors sited
        rw [hlevels] at hhead
        exact (List.perm_middle.symm.trans hhead).cons_inv
      have hcancelled := cancelFrom_of_split price back' later hid
        (fun level hlevel other hother => hid ▸ sited.levels_free level
          (hothers.subset (List.mem_append_left _ hlevel)) other hother)
        (fun other hother => hid ▸ sited.queue_free other (List.mem_append_left _ hother))
      rw [← hlevels] at hcancelled
      have hremoved : (front' ++ if (earlier ++ later).isEmpty then back'
          else (price, earlier ++ later) :: back').Perm (removeOrder old.id (logical.levels side)) := by
        rw [sited.removeOrder_eq]
        split
        · exact hothers
        · exact List.perm_middle.trans ((hothers.cons _).trans List.perm_middle.symm)
      have hother : ModelBook.cancelFrom cancel (model.levels side.opposite) = none :=
        cancelFrom_of_absent fun level hlevel other hmem =>
          hid ▸ sited.side_free level ((mirrors side.opposite).subset hlevel) other hmem
      rw [hid] at hremoved
      have hsplit : model.cancel cancel
          = if old.account ≠ cancel.accountId then (.error .notOrderOwner, model)
            else (.ok (old.id, old.account, old.quantity), model.setLevels side
              (front' ++ if (earlier ++ later).isEmpty then back' else (price, earlier ++ later) :: back')) := by
        cases side with
        | buy =>
            simp only [ModelBook.levels] at hcancelled
            simp only [ModelBook.cancel, hcancelled]
            split <;> rfl
        | sell =>
            simp only [ModelBook.levels, Side.opposite] at hcancelled hother
            simp only [ModelBook.cancel, hother, hcancelled]
            split <;> rfl
      rw [hsplit]
      by_cases howner : old.account = cancel.accountId
      · simp only [howner, ne_eq, not_true_eq_false, if_false]
        exact ⟨rfl, mirrors.setLevels side hremoved⟩
      · simp only [howner, ne_eq, not_false_eq_true, if_true]
        exact ⟨rfl, mirrors⟩

/-! ### Resting state -/

/-- The levels of a side best first, as the reference book sorts them for its
dump. -/
def ModelBook.priorityLevels (model : ModelBook) (side : Side) : ModelLevels :=
  match side with
  | .buy => (sortedLevels model.bids).reverse
  | .sell => sortedLevels model.asks

/-- The levels of a side by ascending price: best last for the bids, best first
for the asks. -/
def LogicalBook.ascending (logical : LogicalBook) (side : Side) : ModelLevels :=
  match side with
  | .buy => (logical.levels .buy).reverse
  | .sell => logical.levels .sell

/-- The ascending levels are the levels of the side in another order. -/
theorem LogicalBook.ascending_perm (logical : LogicalBook) (side : Side) :
    (logical.ascending side).Perm (logical.levels side) := by
  cases side with
  | buy => exact List.reverse_perm _
  | sell => exact List.Perm.refl _

/-- The prices of the ascending levels go up, each level having its own
price. -/
theorem LogicalBook.ascending_prices (wf : logical.WellFormed) (side : Side) :
    Ascending Signed.val ((logical.ascending side).map Prod.fst) := by
  have hsorted : SortedLevels side.descending (logical.levels side) := wf.sorted side
  cases side with
  | buy =>
      rw [Ascending, LogicalBook.ascending, List.map_reverse, List.pairwise_reverse, List.pairwise_map]
      refine hsorted.imp ?_
      intro first second h
      simpa [LevelIndex.precedes, Side.descending] using h
  | sell =>
      rw [Ascending, LogicalBook.ascending, List.pairwise_map]
      refine hsorted.imp ?_
      intro first second h
      simpa [LevelIndex.precedes, Side.descending] using h

/-- Looking the sorted prices up again gives the sorted levels. -/
theorem filterMap_find? (hperm : unsorted.Perm levels)
    (hsingle : ∀ price : PriceTicks, Single (fun level => decide (level.1 = price)) levels) :
    (levels.map Prod.fst).filterMap (fun price => unsorted.find? fun level => decide (level.1 = price))
      = levels := by
  rw [List.filterMap_map]
  have hfound : ∀ level ∈ levels, ((fun price => unsorted.find? fun other => decide (other.1 = price)) ∘ Prod.fst)
      level = some level := fun level hlevel =>
    find?_of_single ((hsingle level.1).perm hperm) (hperm.symm.subset hlevel) (by simp)
  rw [List.filterMap_congr hfound, List.filterMap_some]

/-- Sorting undoes whatever order a book stores the levels of a side in: no two
share a price. -/
theorem sortedLevels_eq (wf : logical.WellFormed) (hperm : unsorted.Perm (logical.levels side)) :
    sortedLevels unsorted = logical.ascending side := by
  have hsorted : SortedLevels side.descending (logical.levels side) := wf.sorted side
  have hascending : unsorted.Perm (logical.ascending side) := hperm.trans (logical.ascending_perm side).symm
  rw [sortedLevels, insertionSort_eq (LogicalBook.ascending_prices wf side) (hascending.map Prod.fst)]
  exact filterMap_find? hascending fun price => (hsorted.single price).perm (logical.ascending_perm side)

/-- Sorted by priority, the levels of the reference are those of the logical
book. -/
theorem priorityLevels_eq (wf : logical.WellFormed) (mirrors : Mirrors model logical) (side : Side) :
    model.priorityLevels side = logical.levels side := by
  cases side with
  | buy =>
      change (sortedLevels (model.levels .buy)).reverse = _
      rw [sortedLevels_eq wf (mirrors .buy), LogicalBook.ascending, List.reverse_reverse]
  | sell =>
      change sortedLevels (model.levels .sell) = _
      rw [sortedLevels_eq wf (mirrors .sell), LogicalBook.ascending]

end HftEngine
