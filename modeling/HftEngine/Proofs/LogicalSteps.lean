/-
Module: HftEngine.Proofs.LogicalSteps
Layer: Proofs
Purpose: What one operation of the logical book does to its resting orders,
  said once: an accepted order fills makers and rests what remains, an amend
  exchanges one entry, a cancel removes one, and a refusal changes nothing.
  Every property of runs is derived from these facts.
Imports: HftEngine.Proofs.LogicalOrders
Trusted boundary: none (fully proved)
Main exports: Fillable, Matched, submit_matched, Submitted, submit_effect,
  Amended, replace_effect, cancel_effect
-/
import HftEngine.Proofs.LogicalOrders

namespace HftEngine

open Machine KeyedList

variable {side : Side} {logical logical' : LogicalBook} {id : OrderId} {price limit : PriceTicks}
  {queue : List ModelOrder} {levels : ModelLevels} {entries : List BookEntry} {L O N : Nat}

/-! ### Fills -/

/-- Fills that can be booked one after another: each is positive, is covered by
what the taker has left and by its maker, and the maker stands on the other
side. -/
def Fillable (taker : Side) : List ModelFill → List BookEntry → Nat → Prop
  | [], _, _ => True
  | fill :: fills, entries, left =>
      fill.quantity.val ≠ 0 ∧ fill.quantity.val ≤ left ∧
        (∃ entry ∈ entries, entry.2.2.id = fill.makerOrderId ∧ entry.1 = taker.opposite ∧
          fill.quantity.val ≤ entry.2.2.quantity.val) ∧
        Fillable taker fills (entries.filterMap (fillEntry fill)) (left - fill.quantity.val)

/-- Fills may be checked one after the other: what the first leave is what the
next are taken from. -/
theorem Fillable.append {taker : Side} {fills more : List ModelFill} {left : Nat}
    (h : Fillable taker fills entries left)
    (hmore : Fillable taker more (fillEntries fills entries) (left - fillTotal fills)) :
    Fillable taker (fills ++ more) entries left := by
  induction fills generalizing entries left with
  | nil => exact hmore
  | cons fill fills ih =>
      obtain ⟨hpos, hleft, hmaker, hrest⟩ := h
      refine ⟨hpos, hleft, hmaker, ih hrest ?_⟩
      rw [fillTotal_cons, ← Nat.sub_sub] at hmore
      exact hmore

/-- An entry of another id survives a fill. -/
theorem mem_filterMap_fillEntry {entry : BookEntry} {fill : ModelFill} (h : entry ∈ entries)
    (hne : entry.2.2.id ≠ fill.makerOrderId) : entry ∈ entries.filterMap (fillEntry fill) :=
  List.mem_filterMap.mpr ⟨entry, h, by rw [fillEntry, if_neg hne]⟩

/-- A fill keeps the side, price, id, account and sequence of the entries it
leaves. -/
theorem fillEntry_kept {entry entry' : BookEntry} {fill : ModelFill} (h : fillEntry fill entry = some entry') :
    entry'.1 = entry.1 ∧ entry'.2.1 = entry.2.1 ∧ entry'.2.2.id = entry.2.2.id ∧
      entry'.2.2.account = entry.2.2.account ∧ entry'.2.2.sequence = entry.2.2.sequence := by
  unfold fillEntry at h
  split at h
  · split at h
    · cases h
    · cases h
      exact ⟨rfl, rfl, rfl, rfl, rfl⟩
  · cases h
    exact ⟨rfl, rfl, rfl, rfl, rfl⟩

/-- Fills change quantities only, and take out what they use up. -/
theorem fillEntries_kept {fills : List ModelFill} {entry' : BookEntry} (h : entry' ∈ fillEntries fills entries) :
    ∃ entry ∈ entries, entry'.1 = entry.1 ∧ entry'.2.1 = entry.2.1 ∧ entry'.2.2.id = entry.2.2.id ∧
      entry'.2.2.account = entry.2.2.account ∧ entry'.2.2.sequence = entry.2.2.sequence := by
  induction fills generalizing entries with
  | nil => exact ⟨entry', h, rfl, rfl, rfl, rfl, rfl⟩
  | cons fill fills ih =>
      obtain ⟨middle, hmiddle, hside, hprice, hid, haccount, hsequence⟩ := ih h
      obtain ⟨entry, hentry, hfill⟩ := List.mem_filterMap.mp hmiddle
      obtain ⟨hside', hprice', hid', haccount', hsequence'⟩ := fillEntry_kept hfill
      exact ⟨entry, hentry, hside.trans hside', hprice.trans hprice', hid.trans hid', haccount.trans haccount',
        hsequence.trans hsequence'⟩

/-- The makers of fills are among the entries. -/
theorem Fillable.makers {taker : Side} {fills : List ModelFill} {left : Nat}
    (h : Fillable taker fills entries left) :
    ∀ fill ∈ fills, ∃ entry ∈ entries, entry.2.2.id = fill.makerOrderId := by
  induction fills generalizing entries left with
  | nil => simp
  | cons fill fills ih =>
      obtain ⟨_, _, ⟨maker, hmaker, hid, _, _⟩, hrest⟩ := h
      intro other hother
      rcases List.mem_cons.mp hother with rfl | hmem
      · exact ⟨maker, hmaker, hid⟩
      · obtain ⟨entry', hentry', hid'⟩ := ih hrest other hmem
        obtain ⟨entry, hentry, hfill⟩ := List.mem_filterMap.mp hentry'
        exact ⟨entry, hentry, (fillEntry_kept hfill).2.2.1.symm.trans hid'⟩

/-- A fill drops keys and changes none that it keeps. -/
theorem sublist_filterMap_fillEntry {κ : Type} {key : BookEntry → κ} {fill : ModelFill}
    (hkey : ∀ {entry entry' : BookEntry}, fillEntry fill entry = some entry' → key entry' = key entry) :
    ((entries.filterMap (fillEntry fill)).map key).Sublist (entries.map key) := by
  induction entries with
  | nil => simp
  | cons entry rest ih =>
      cases hfill : fillEntry fill entry with
      | none =>
          rw [List.filterMap_cons_none hfill, List.map_cons]
          exact ih.cons _
      | some entry' =>
          rw [List.filterMap_cons_some hfill, List.map_cons, List.map_cons, hkey hfill]
          exact ih.cons_cons _

/-- A fill keeps identifiers distinct. -/
theorem nodup_filterMap_fillEntry {fill : ModelFill} (h : (entries.map fun entry => entry.2.2.id).Nodup) :
    ((entries.filterMap (fillEntry fill)).map fun entry => entry.2.2.id).Nodup :=
  h.sublist (sublist_filterMap_fillEntry fun hfill => (fillEntry_kept hfill).2.2.1)

/-- The fills of a queue whose orders stand among the entries. -/
theorem fillable_matchQueue {taker : Side} (hside : side = taker.opposite) (queue : List ModelOrder)
    (remaining : Quantity) (hstand : ∀ order ∈ queue, (side, price, order) ∈ entries)
    (hids : (queue.map ModelOrder.id).Nodup) (hquantities : ∀ order ∈ queue, order.quantity.val ≠ 0) :
    Fillable taker (matchQueue price queue remaining).2.2 entries remaining.val := by
  induction queue generalizing entries remaining with
  | nil => trivial
  | cons maker rest ih =>
      unfold matchQueue
      split
      · trivial
      rename_i hzero
      split
      · rename_i hpart
        exact ⟨hzero, le_rfl, ⟨_, hstand maker (by simp), rfl, hside, hpart.le⟩, trivial⟩
      · rename_i hwhole
        rw [List.map_cons, List.nodup_cons] at hids
        refine ⟨hquantities maker (by simp), by simp only; omega, ⟨_, hstand maker (by simp), rfl, hside, le_rfl⟩, ?_⟩
        refine ih (satSub remaining maker.quantity) (fun order horder => ?_) hids.2
          (fun order horder => hquantities order (List.mem_cons_of_mem _ horder))
        refine mem_filterMap_fillEntry (hstand order (List.mem_cons_of_mem _ horder)) ?_
        intro heq
        exact hids.1 (List.mem_map.mpr ⟨order, horder, heq⟩)

/-- Entries none of whose ids a list of fills names stay. -/
theorem mem_fillEntries_of_ne {fills : List ModelFill} {entry : BookEntry} (h : entry ∈ entries)
    (hne : ∀ fill ∈ fills, entry.2.2.id ≠ fill.makerOrderId) : entry ∈ fillEntries fills entries := by
  induction fills generalizing entries with
  | nil => exact h
  | cons fill fills ih =>
      exact ih (mem_filterMap_fillEntry h (hne fill (by simp))) fun other hother =>
        hne other (List.mem_cons_of_mem _ hother)

/-- The fills of levels whose orders stand among the entries. -/
theorem fillable_matchLevels {taker : Side} (hside : side = taker.opposite) (levels : ModelLevels)
    (remaining : Quantity) (hstand : ∀ entry ∈ entriesOf side levels, entry ∈ entries)
    (hids : ((entriesOf side levels).map fun entry => entry.2.2.id).Nodup)
    (hquantities : ∀ entry ∈ entriesOf side levels, entry.2.2.quantity.val ≠ 0) :
    Fillable taker (matchLevels taker limit levels remaining).2.2 entries remaining.val := by
  induction levels generalizing entries remaining with
  | nil => trivial
  | cons level rest ih =>
      obtain ⟨price, queue⟩ := level
      rw [entriesOf_cons, List.map_append, List.nodup_append] at hids
      obtain ⟨hqueue, hrest, hdisjoint⟩ := hids
      rw [List.map_map] at hqueue hdisjoint
      unfold matchLevels
      split
      · trivial
      have hfirst : Fillable taker (matchQueue price queue remaining).2.2 entries remaining.val :=
        fillable_matchQueue hside queue remaining (fun order horder => hstand _ (by simp [horder])) hqueue
          fun order horder => hquantities (side, price, order) (by simp [horder])
      have htotal := matchQueue_total price queue remaining
      refine hfirst.append ?_
      rw [show remaining.val - fillTotal (matchQueue price queue remaining).2.2
        = (matchQueue price queue remaining).1.val by omega]
      refine ih (matchQueue price queue remaining).1 (fun entry hentry => ?_) hrest
        fun entry hentry => hquantities entry (by simp [hentry])
      -- the orders of later levels are not among the makers of this one
      refine mem_fillEntries_of_ne (hstand entry (by simp [hentry])) fun fill hfill heq => ?_
      obtain ⟨order, horder, hid⟩ := matchQueue_fill_ids hfill
      exact hdisjoint order.id (List.mem_map.mpr ⟨order, horder, rfl⟩) entry.2.2.id
        (List.mem_map_of_mem hentry) (hid.symm.trans heq.symm)

/-- A fill leaves positive quantities positive. -/
theorem filterMap_fillEntry_positive {fill : ModelFill}
    (hcover : ∀ entry ∈ entries, entry.2.2.id = fill.makerOrderId → fill.quantity.val ≤ entry.2.2.quantity.val)
    (hpositive : ∀ entry ∈ entries, entry.2.2.quantity.val ≠ 0) :
    ∀ entry ∈ entries.filterMap (fillEntry fill), entry.2.2.quantity.val ≠ 0 := by
  intro entry' hentry'
  obtain ⟨entry, hentry, hfill⟩ := List.mem_filterMap.mp hentry'
  have hold := hpositive entry hentry
  unfold fillEntry at hfill
  split at hfill
  · rename_i hid
    have hle := hcover entry hentry hid
    split at hfill
    · cases hfill
    · rename_i hne
      cases hfill
      have : entry.2.2.quantity.val ≠ fill.quantity.val := fun heq => hne (Fin.ext heq)
      simp only [satSub_val]
      omega
  · cases hfill
    exact hold

/-- Fills that fit leave no order with a quantity of zero: what is used up is
removed. -/
theorem fillEntries_positive {taker : Side} {fills : List ModelFill} {left : Nat}
    (hfillable : Fillable taker fills entries left) (hids : (entries.map fun entry => entry.2.2.id).Nodup)
    (hpositive : ∀ entry ∈ entries, entry.2.2.quantity.val ≠ 0) :
    ∀ entry ∈ fillEntries fills entries, entry.2.2.quantity.val ≠ 0 := by
  induction fills generalizing entries left with
  | nil => exact hpositive
  | cons fill fills ih =>
      obtain ⟨_, _, ⟨maker, hmaker, hid, _, hle⟩, hrest⟩ := hfillable
      refine ih hrest (nodup_filterMap_fillEntry hids) (filterMap_fillEntry_positive ?_ hpositive)
      intro entry hentry hsame
      rw [List.inj_on_of_nodup_map hids hentry hmaker (hsame.trans hid.symm)]
      exact hle

/-! ### Crossing -/

/-- Behind a level that does not cross, nothing crosses. -/
theorem crosses_of_precedes {better : PriceTicks}
    (hsorted : LevelIndex.precedes side.opposite.descending price better = true)
    (hbetter : crosses side limit better = false) : crosses side limit price = false := by
  cases side <;> simp_all [crosses, LevelIndex.precedes, Side.descending, Side.opposite] <;> omega

/-- When something is left to fill, no level that remains crosses. -/
theorem matchLevels_clear (limit : PriceTicks) (levels : ModelLevels) (remaining : Quantity)
    (hsorted : SortedLevels side.opposite.descending levels)
    (hleft : (matchLevels side limit levels remaining).1.val ≠ 0) :
    ∀ level ∈ (matchLevels side limit levels remaining).2.1, crosses side limit level.1 = false := by
  induction levels generalizing remaining with
  | nil => simp [matchLevels]
  | cons level rest ih =>
      obtain ⟨price, queue⟩ := level
      obtain ⟨hfirst, hrest⟩ := List.pairwise_cons.mp hsorted
      unfold matchLevels at hleft ⊢
      split at hleft
      · rename_i hstop
        rw [if_pos hstop]
        have hstays : crosses side limit price = false := hstop.resolve_left hleft
        intro level hlevel
        rcases List.mem_cons.mp hlevel with rfl | hmem
        · exact hstays
        · exact crosses_of_precedes (hfirst level hmem) hstays
      · rename_i hgo
        rw [if_neg hgo]
        have hexhausted : (matchQueue price queue remaining).2.1 = [] := by
          by_contra hsome
          have hzero := matchQueue_left queue remaining hsome
          refine hleft ?_
          change (matchLevels side limit rest (matchQueue price queue remaining).1).1.val = 0
          rw [matchLevels_zero hzero]
          exact hzero
        have hrun := ih (matchQueue price queue remaining).1 hrest hleft
        generalize matchQueue price queue remaining = matched at hexhausted hrun ⊢
        obtain ⟨left, makers, fills⟩ := matched
        cases hexhausted
        exact hrun

/-- Nothing behind a best price that does not cross does. -/
theorem clear_of_best (wf : logical.WellFormed) (h : logical.bestCrosses side limit = false) :
    ∀ entry ∈ logical.orders, entry.1 = side.opposite → crosses side limit entry.2.1 = false := by
  rintro ⟨other, price, order⟩ hentry rfl
  obtain ⟨queue, hlevel, _⟩ := mem_orders.mp hentry
  have hsorted := wf.sorted side.opposite
  unfold LogicalBook.bestCrosses at h
  cases hlevels : logical.levels side.opposite with
  | nil =>
      rw [hlevels] at hlevel
      cases hlevel
  | cons best rest =>
      rw [hlevels] at hlevel hsorted h
      simp only [List.head?_cons, Option.any_some] at h
      rcases List.mem_cons.mp hlevel with rfl | hmem
      · exact h
      · exact crosses_of_precedes ((List.pairwise_cons.mp hsorted).1 _ hmem) h

/-- When the best opposing price crosses, an opposing order does. -/
theorem exists_crossing (wf : logical.WellFormed) (h : logical.bestCrosses side limit = true) :
    ∃ entry ∈ logical.orders, entry.1 = side.opposite ∧ crosses side limit entry.2.1 = true := by
  obtain ⟨⟨best, queue⟩, hbest, hcross⟩ := (Option.any_eq_true _ _).mp h
  have hlevel := List.mem_of_mem_head? hbest
  obtain ⟨order, horder⟩ := List.exists_mem_of_ne_nil _ (wf.occupied side.opposite _ hlevel)
  exact ⟨(side.opposite, best, order), mem_orders.mpr ⟨queue, hlevel, horder⟩, rfl, hcross⟩

/-! ### Submitting -/

/-- The entry of the unfilled remainder, when there is one. -/
def restEntries (order : NewOrder) (resting : Quantity) : List BookEntry :=
  if resting.val = 0 then [] else [(order.side, order.price, LogicalBook.remainder order resting)]

/-- What an accepted order went through: the checks, the match against the
opposing levels, the check of what remained and the resting of the
remainder. -/
structure Matched (L O N : Nat) (logical : LogicalBook) (order : NewOrder) (summary : MatchSummary)
    (fills : List ModelFill) (logical' : LogicalBook) (remaining : Quantity) (makers : ModelLevels) : Prop where
  instrument : order.instrumentId = logical.instrument
  price : 0 < order.price.val
  quantity : order.quantity.val ≠ 0
  fresh : logical.find order.orderId = none
  passive : order.timeInForce = .postOnly → logical.bestCrosses order.side order.price = false
  matched : matchLevels order.side order.price (logical.levels order.side.opposite) order.quantity
    = (remaining, makers, fills)
  capacity : fills.length ≤ N
  checked : ModelBook.remainderCheck (logical.levels order.side) order remaining L O = .ok ()
  summary_eq : summary = LogicalBook.summary order (if order.timeInForce = .ioc then 0 else remaining)
    (if order.timeInForce = .ioc then remaining else 0) fills
  rested : (logical.setLevels order.side.opposite makers).restRemainder L O order
    (if order.timeInForce = .ioc then 0 else remaining) = some logical'

/-- An accepted submission is a match of the crossing orders followed by the
resting of what remains. -/
theorem submit_matched {order : NewOrder} {summary : MatchSummary} {fills : List ModelFill}
    (h : logical.submit L O order N = some (.ok (summary, fills), logical')) :
    ∃ remaining makers, Matched L O N logical order summary fills logical' remaining makers := by
  unfold LogicalBook.submit at h
  split at h
  · cases h
  rename_i hinstrument
  split at h
  · cases h
  rename_i hprice
  split at h
  · cases h
  rename_i hquantity
  split at h
  · cases h
  rename_i hfresh
  split at h
  · cases h
  rename_i hpassive
  cases hmatched : matchLevels order.side order.price (logical.levels order.side.opposite) order.quantity with
  | mk remaining found =>
      obtain ⟨makers, filled⟩ := found
      rw [hmatched] at h
      simp only at h
      split at h
      · cases h
      rename_i hcapacity
      cases hcheck : ModelBook.remainderCheck (logical.levels order.side) order remaining L O with
      | error reason =>
          rw [hcheck] at h
          cases h
      | ok _ =>
          rw [hcheck] at h
          obtain ⟨book, hrest, heq⟩ := Option.map_eq_some_iff.mp h
          cases heq
          refine ⟨remaining, makers, by simpa using hinstrument, by omega, hquantity, by simpa using hfresh, ?_,
            hmatched, by omega, hcheck, rfl, hrest⟩
          intro hpost
          exact Bool.of_not_eq_true fun hcross => hpassive ⟨hpost, hcross⟩

/-- An accepted order: what it fills, what rests and what is discarded, and the
book it leaves. -/
structure Submitted (N : Nat) (logical : LogicalBook) (order : NewOrder) (summary : MatchSummary)
    (fills : List ModelFill) (logical' : LogicalBook) (resting discarded : Quantity) : Prop where
  instrument : order.instrumentId = logical.instrument
  price : 0 < order.price.val
  quantity : order.quantity.val ≠ 0
  fresh : logical.find order.orderId = none
  summary_eq : summary = LogicalBook.summary order resting discarded fills
  split : resting.val + discarded.val + fillTotal fills = order.quantity.val
  single : resting.val = 0 ∨ discarded.val = 0
  capacity : fills.length ≤ N
  fillable : (∀ entry ∈ logical.orders, entry.2.2.quantity.val ≠ 0) →
    Fillable order.side fills logical.orders order.quantity.val
  orders : logical'.orders.Perm (restEntries order resting ++ fillEntries fills logical.orders)
  instrument_eq : logical'.instrument = logical.instrument
  clear : resting.val ≠ 0 → ∀ entry ∈ fillEntries fills logical.orders, entry.1 = order.side.opposite →
    crosses order.side order.price entry.2.1 = false

/-- The entries of a side are orders of the book. -/
theorem entriesOf_subset_orders {entry : BookEntry} (h : entry ∈ entriesOf side (logical.levels side)) :
    entry ∈ logical.orders := by
  obtain ⟨rfl, queue, hlevel, hmem⟩ := mem_entriesOf.mp h
  exact mem_orders.mpr ⟨queue, hlevel, hmem⟩

/-- Identifiers are distinct within a side. -/
theorem nodup_entriesOf (wf : logical.WellFormed) (side : Side) :
    ((entriesOf side (logical.levels side)).map fun entry => entry.2.2.id).Nodup := by
  have hids := wf.ids
  rw [orders_eq, List.map_append, List.nodup_append] at hids
  cases side
  · exact hids.1
  · exact hids.2.1

/-- Resting a remainder adds one order, or none if nothing is left. -/
theorem restRemainder_effect {order : NewOrder} {resting : Quantity}
    (h : logical.restRemainder L O order resting = some logical') :
    logical'.orders.Perm (restEntries order resting ++ logical.orders) ∧
      logical'.instrument = logical.instrument := by
  unfold LogicalBook.restRemainder at h
  unfold restEntries
  by_cases hzero : resting.val = 0
  · rw [if_pos hzero] at h ⊢
    cases h
    exact ⟨List.Perm.refl _, rfl⟩
  · rw [if_neg hzero] at h ⊢
    split at h
    · cases h
      exact ⟨orders_rest _ _ _, by simp [LogicalBook.rest]⟩
    · cases h

/-- What an accepted submission does to the orders of a well-formed book: the
makers are filled, the rest is added, everything else stays. -/
theorem submit_effect (wf : logical.WellFormed) {order : NewOrder} {summary : MatchSummary}
    {fills : List ModelFill} (h : logical.submit L O order N = some (.ok (summary, fills), logical')) :
    ∃ resting discarded, Submitted N logical order summary fills logical' resting discarded := by
  obtain ⟨remaining, makers, matched⟩ := submit_matched h
  have hmatch := orders_match wf order.side.opposite order.side order.price order.quantity
  have htotal := matchLevels_total order.side order.price
    (logical.levels order.side.opposite) order.quantity
  have hclear := matchLevels_clear order.price (logical.levels order.side.opposite) order.quantity
    (wf.sorted order.side.opposite)
  have hfillable : (∀ entry ∈ logical.orders, entry.2.2.quantity.val ≠ 0) →
      Fillable order.side (matchLevels order.side order.price (logical.levels order.side.opposite)
        order.quantity).2.2 logical.orders order.quantity.val := fun hpositive =>
    fillable_matchLevels rfl _ _ (fun entry hentry => entriesOf_subset_orders hentry)
      (nodup_entriesOf wf order.side.opposite) fun entry hentry => hpositive entry (entriesOf_subset_orders hentry)
  rw [matched.matched] at hmatch htotal hclear hfillable
  simp only at hmatch htotal hclear hfillable
  refine ⟨if order.timeInForce = .ioc then 0 else remaining, if order.timeInForce = .ioc then remaining else 0, ?_⟩
  have hresting : (if order.timeInForce = .ioc then (0 : Quantity) else remaining).val ≠ 0 → remaining.val ≠ 0 := by
    split
    · intro h
      exact absurd rfl h
    · exact id
  have hmakers : ∀ entry ∈ fillEntries fills logical.orders, entry.1 = order.side.opposite →
      ∃ queue, (entry.2.1, queue) ∈ makers := by
    rintro ⟨other, price, resting⟩ hentry rfl
    rw [← hmatch] at hentry
    obtain ⟨queue, hlevel, _⟩ := mem_orders.mp hentry
    rw [LogicalBook.levels_setLevels, if_pos rfl] at hlevel
    exact ⟨queue, hlevel⟩
  refine ⟨matched.instrument, matched.price, matched.quantity, matched.fresh, matched.summary_eq, ?_, ?_,
    matched.capacity, hfillable, ?_, ?_, ?_⟩
  · split <;> simp only [Fin.val_zero] <;> omega
  · split
    · exact .inl rfl
    · exact .inr rfl
  · rw [← hmatch]
    exact (restRemainder_effect matched.rested).1
  · rw [(restRemainder_effect matched.rested).2, LogicalBook.instrument_setLevels]
  · intro hsome entry hentry hside
    obtain ⟨queue, hlevel⟩ := hmakers entry hentry hside
    exact hclear (hresting hsome) _ hlevel

/-- A refused submission leaves the book as it was. -/
theorem submit_refused {order : NewOrder} {reason : RejectReason}
    (h : logical.submit L O order N = some (.error reason, logical')) : logical' = logical := by
  unfold LogicalBook.submit at h
  split at h
  · cases h
    rfl
  split at h
  · cases h
    rfl
  split at h
  · cases h
    rfl
  split at h
  · cases h
    rfl
  split at h
  · cases h
    rfl
  generalize matchLevels order.side order.price (logical.levels order.side.opposite) order.quantity = matched at h
  obtain ⟨remaining, makers, fills⟩ := matched
  simp only at h
  split at h
  · cases h
    rfl
  cases hcheck : ModelBook.remainderCheck (logical.levels order.side) order remaining L O with
  | error reason =>
      rw [hcheck] at h
      cases h
      rfl
  | ok _ =>
      rw [hcheck] at h
      obtain ⟨book, _, heq⟩ := Option.map_eq_some_iff.mp h
      cases heq

/-! ### Amending and cancelling -/

/-- The other entries of the book, next to one that was found. -/
theorem orders_split (wf : logical.WellFormed) {entry : BookEntry} (hfind : logical.find id = some entry) :
    logical.orders.Perm (entry :: logical.orders.filter fun other => decide (other.2.2.id ≠ id)) := by
  obtain ⟨hmem, rfl⟩ := mem_of_find hfind
  have hsplit := List.perm_cons_erase hmem
  exact hsplit.trans ((perm_filter_key wf.ids hsplit).symm.cons entry)

/-- An accepted amend: the entry it exchanges, and the book it leaves. -/
structure Amended (logical : LogicalBook) (request : ReplaceOrder) (replaced : ReplacedOrder)
    (logical' : LogicalBook) (side : Side) (price : PriceTicks) (old : ModelOrder) (sequence : SequenceNumber) :
    Prop where
  instrument : request.instrumentId = logical.instrument
  found : logical.find request.orderId = some (side, price, old)
  owner : old.account = request.accountId
  price_pos : 0 < request.price.val
  quantity : request.quantity.val ≠ 0
  replaced_eq : ∃ lost, replaced = OrderBook.replacedOrder request old.quantity lost
  orders : logical'.orders.Perm ((side, request.price, ⟨request.orderId, request.accountId, request.quantity, sequence⟩) ::
    logical.orders.filter fun other => decide (other.2.2.id ≠ request.orderId))
  instrument_eq : logical'.instrument = logical.instrument
  sequence_eq : sequence = request.sequence ∨ (sequence = old.sequence ∧ request.price = price)
  clear : request.price = price ∨ logical.bestCrosses side request.price = false

/-- What an accepted amend does: one order has a new price and quantity,
everything else stays. -/
theorem replace_effect (wf : logical.WellFormed) {request : ReplaceOrder} {replaced : ReplacedOrder}
    (h : logical.replace L O request = (.ok replaced, logical')) :
    ∃ side price old sequence, Amended logical request replaced logical' side price old sequence := by
  unfold LogicalBook.replace at h
  split at h
  · cases h
  rename_i hinstrument
  cases hfind : logical.find request.orderId with
  | none =>
      rw [hfind] at h
      cases h
  | some entry =>
      obtain ⟨side, price, old⟩ := entry
      rw [hfind] at h
      simp only at h
      split at h
      · cases h
      rename_i howner
      split at h
      · cases h
      rename_i hprice
      split at h
      · cases h
      rename_i hquantity
      have howner : old.account = request.accountId := by simpa using howner
      have hid := (mem_of_find hfind).2
      split at h
      · -- reduced in place
        rename_i hreduce
        cases h
        refine ⟨side, price, old, old.sequence, by simpa using hinstrument, hfind, howner, by omega, hquantity,
          ⟨false, rfl⟩, ?_, by simp, .inr ⟨rfl, hreduce.1⟩, .inl hreduce.1⟩
        rw [orders_setQuantity wf hfind]
        have hperm := perm_map_key (g := setEntry request.orderId request.quantity) wf.ids (orders_split wf hfind)
          fun other hne => if_neg (hid ▸ hne)
        rw [setEntry, if_pos hid] at hperm
        refine hperm.trans (List.Perm.of_eq ?_)
        rw [hreduce.1, ← howner, ← hid]
      · split at h
        · cases h
        · rename_i hchecks
          cases h
          refine ⟨side, price, old, request.sequence, by simpa using hinstrument, hfind, howner, by omega, hquantity,
            ⟨true, rfl⟩, ?_, by simp [LogicalBook.rest, LogicalBook.remove], .inl rfl, ?_⟩
          · rw [← orders_remove wf hfind]
            exact orders_rest _ _ _
          · unfold LogicalBook.replaceChecks at hchecks
            split at hchecks
            · cases hchecks
            · rename_i hcross
              by_cases hsame : request.price = price
              · exact .inl hsame
              · exact .inr (by simpa [hsame] using hcross)

/-- A refused amend leaves the book as it was. -/
theorem replace_refused {request : ReplaceOrder} {reason : RejectReason}
    (h : logical.replace L O request = (.error reason, logical')) : logical' = logical := by
  unfold LogicalBook.replace at h
  split at h
  · cases h
    rfl
  cases hfind : logical.find request.orderId with
  | none =>
      rw [hfind] at h
      cases h
      rfl
  | some entry =>
      rw [hfind] at h
      simp only at h
      split at h
      · cases h
        rfl
      split at h
      · cases h
        rfl
      split at h
      · cases h
        rfl
      split at h
      · cases h
      · split at h
        · cases h
          rfl
        · cases h

/-- What an accepted cancel does: one order of the requesting account is gone,
everything else stays. -/
theorem cancel_effect (wf : logical.WellFormed) {request : CancelOrder} {cancelled : CancelledOrder}
    (h : logical.cancel request = (.ok cancelled, logical')) :
    ∃ side price order, logical.find request.orderId = some (side, price, order) ∧
      order.account = request.accountId ∧ cancelled = ⟨order.id, order.account, order.quantity⟩ ∧
      logical'.orders = (logical.orders.filter fun other => decide (other.2.2.id ≠ request.orderId)) ∧
      logical'.instrument = logical.instrument := by
  unfold LogicalBook.cancel at h
  split at h
  · cases h
  cases hfind : logical.find request.orderId with
  | none =>
      rw [hfind] at h
      cases h
  | some entry =>
      obtain ⟨side, price, order⟩ := entry
      rw [hfind] at h
      simp only at h
      split at h
      · cases h
      rename_i howner
      cases h
      exact ⟨side, price, order, rfl, by simpa using howner, rfl, orders_remove wf hfind,
        by simp [LogicalBook.remove]⟩

/-- A refused cancel leaves the book as it was. -/
theorem cancel_refused {request : CancelOrder} {reason : RejectReason}
    (h : logical.cancel request = (.error reason, logical')) : logical' = logical := by
  unfold LogicalBook.cancel at h
  split at h
  · cases h
    rfl
  cases hfind : logical.find request.orderId with
  | none =>
      rw [hfind] at h
      cases h
      rfl
  | some entry =>
      rw [hfind] at h
      simp only at h
      split at h
      · cases h
        rfl
      · cases h

end HftEngine
