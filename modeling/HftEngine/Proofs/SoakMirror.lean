/-
Module: HftEngine.Proofs.SoakMirror
Layer: Proofs
Purpose: The soak runner's table of live orders never complains about an event
  engine. The table holds the resting orders of the book after every batch, its
  tops are the book's, and each accounting, price, priority and time-in-force
  check it makes is met by what the book does.
Imports: HftEngine.Core.SoakRouted, HftEngine.Lib.SlotBag,
  HftEngine.Proofs.EventStream, HftEngine.Proofs.PriceTime,
  HftEngine.Proofs.SoakEvents
Trusted boundary: none (fully proved)
Main exports: tableOrder, Holds, applyTrades_fills, top_of_holds,
  apply_published, validate_of_holds, soak_mirror_follows_engine
-/
import HftEngine.Core.SoakRouted
import HftEngine.Lib.SlotBag
import HftEngine.Proofs.EventStream
import HftEngine.Proofs.PriceTime
import HftEngine.Proofs.SoakEvents

namespace HftEngine

open Machine Transition KeyedList

variable {A R L O N B Q K : Nat}

/-! ### What an accepted command did to the book -/

section Answers

variable {gateway gateway' : LogicalGateway} {order : NewOrder} {outcome : GatewayOutcome}
  {reports : List ExecutionReport}

/-- Booking the fills leaves the book alone, and a successful answer reports
the summary and the fills. -/
theorem settleSubmitted_answer {summary : MatchSummary}
    (h : gateway.settleSubmitted order summary reports = (⟨.ok outcome, more⟩, gateway')) :
    outcome = .newOrder summary ∧ more = reports ∧ gateway'.book = gateway.book := by
  unfold LogicalGateway.settleSubmitted at h
  split at h
  · cases h
  · split at h
    · split at h
      · cases h
      · cases h
        exact ⟨rfl, rfl, rfl⟩
    · cases h
      exact ⟨rfl, rfl, rfl⟩

/-- An accepted order was submitted to the book, and its reports are the
fills. -/
theorem submit_of_accepted
    (h : gateway.processCommand R L O N (.newOrder order) = some (⟨.ok outcome, reports⟩, gateway')) :
    ∃ summary fills, outcome = .newOrder summary ∧ reports = fills.map (reportOf order) ∧
      gateway.book.submit L O order N = some (.ok (summary, fills), gateway'.book) := by
  unfold LogicalGateway.processCommand at h
  split at h
  · cases h
  · unfold LogicalGateway.dispatch LogicalGateway.processNewOrder at h
    dsimp only at h
    split at h
    · cases h
    · split at h
      · cases h
      · unfold LogicalGateway.submitReserved at h
        dsimp only at h
        split at h
        · cases h
        · rename_i summary fills book hsubmit
          obtain ⟨rfl, rfl, hbook⟩ := settleSubmitted_answer (Option.some.inj h)
          exact ⟨summary, fills, rfl, rfl, hbook ▸ hsubmit⟩
        · split at h
          · cases h
          · cases h

/-- An accepted amend was made by the book. -/
theorem replace_of_accepted {request : ReplaceOrder}
    (h : gateway.processCommand R L O N (.replaceOrder request) = some (⟨.ok outcome, reports⟩, gateway')) :
    ∃ replaced, outcome = .replaced replaced ∧ gateway.book.replace L O request = (.ok replaced, gateway'.book) := by
  unfold LogicalGateway.processCommand at h
  split at h
  · cases h
  · unfold LogicalGateway.dispatch LogicalGateway.processReplace at h
    dsimp only at h
    split at h
    · cases h
    · split at h
      · rename_i replaced book hreplace
        cases h
        exact ⟨replaced, rfl, hreplace⟩
      · split at h
        · cases h
        · cases h

end Answers

/-! ### Prices, time in force and priority -/

section Book

variable {logical logical' : LogicalBook} {order : NewOrder} {summary : MatchSummary} {fills : List ModelFill}
  {remaining : Quantity} {makers : ModelLevels}

/-- Every fill is at the price of a resting entry the order crosses. -/
theorem Matched.priced (wf : logical.WellFormed)
    (h : Matched L O N logical order summary fills logical' remaining makers) {fill : ModelFill}
    (hfill : fill ∈ fills) :
    crosses order.side order.price fill.price = true ∧
      ∀ entry ∈ logical.orders, entry.2.2.id = fill.makerOrderId → entry.2.1 = fill.price := by
  have hallot : (matchLevels order.side order.price (logical.levels order.side.opposite) order.quantity).2.2.map fillGiven
      = (Allotment.allot entryQuantity order.quantity.val
          ((entriesOf order.side.opposite (logical.levels order.side.opposite)).filter
            fun entry => crosses order.side order.price entry.2.1)).map givenOf :=
    matchLevels_allot order.side order.price _ (wf.sorted order.side.opposite) order.quantity
  rw [h.matched] at hallot
  have hgiven : fillGiven fill ∈ fills.map fillGiven := List.mem_map_of_mem hfill
  rw [hallot] at hgiven
  obtain ⟨given, hmem, hkey⟩ := List.mem_map.mp hgiven
  have hfirst := List.mem_map_of_mem (f := Prod.fst) hmem
  rw [Allotment.allot_fst] at hfirst
  obtain ⟨hentry, hcross⟩ := List.mem_filter.mp (List.mem_of_mem_take hfirst)
  obtain ⟨hid, hprice, _⟩ : given.1.2.2.id = fill.makerOrderId ∧ given.1.2.1 = fill.price ∧ given.2 = fill.quantity.val := by
    simpa [givenOf, fillGiven] using hkey
  refine ⟨hprice ▸ hcross, fun entry hmem hsame => ?_⟩
  rw [← hprice, List.inj_on_of_nodup_map wf.ids hmem (entriesOf_subset_orders hentry) (hsame.trans hid.symm)]

/-- A post-only order that was accepted traded with nothing. -/
theorem Matched.untraded (h : Matched L O N logical order summary fills logical' remaining makers)
    (hpost : order.timeInForce = .postOnly) : fills = [] ∧ remaining = order.quantity := by
  have hpassive := h.passive hpost
  have hmatched := h.matched
  unfold LogicalBook.bestCrosses at hpassive
  cases hlevels : logical.levels order.side.opposite with
  | nil =>
      rw [hlevels, matchLevels] at hmatched
      cases hmatched
      exact ⟨rfl, rfl⟩
  | cons level rest =>
      obtain ⟨price, queue⟩ := level
      rw [hlevels] at hpassive hmatched
      rw [matchLevels, if_pos (.inr hpassive)] at hmatched
      cases hmatched
      exact ⟨rfl, rfl⟩

/-- An accepted order meets its time in force. -/
theorem Matched.timeInForce (h : Matched L O N logical order summary fills logical' remaining makers) :
    match order.timeInForce with
    | .gtc => summary.discardedQuantity.val = 0
    | .ioc => summary.restingQuantity.val = 0
    | .fok => summary.filledQuantity = order.quantity
    | .postOnly => summary.filledQuantity.val = 0 ∧ summary.restingQuantity = order.quantity := by
  have hsummary := h.summary_eq
  cases htif : order.timeInForce with
  | gtc =>
      rw [hsummary, htif]
      rfl
  | ioc =>
      rw [hsummary, htif]
      rfl
  | fok =>
      have hchecked := h.checked
      unfold ModelBook.remainderCheck at hchecked
      rw [htif] at hchecked
      dsimp only at hchecked
      split at hchecked
      · cases hchecked
      · rename_i hnone
        rw [hsummary, htif]
        apply Fin.ext
        simp only [LogicalBook.summary, reduceCtorEq, if_false, satSub_val, Fin.val_zero]
        omega
  | postOnly =>
      obtain ⟨_, hremaining⟩ := h.untraded htif
      rw [hsummary, htif, hremaining]
      refine ⟨?_, rfl⟩
      simp only [LogicalBook.summary, reduceCtorEq, if_false, satSub_val, Fin.val_zero]
      omega

/-- An amend keeps its priority exactly when it reduces at the same price. -/
theorem replace_priority {request : ReplaceOrder} {replaced : ReplacedOrder} {side : Side} {price : PriceTicks}
    {old : ModelOrder} (hfind : logical.find request.orderId = some (side, price, old))
    (h : logical.replace L O request = (.ok replaced, logical')) :
    replaced = OrderBook.replacedOrder request old.quantity
      (!decide (request.price = price ∧ request.quantity.val < old.quantity.val)) := by
  unfold LogicalBook.replace at h
  rw [hfind] at h
  dsimp only at h
  split at h
  · cases h
  split at h
  · cases h
  split at h
  · cases h
  split at h
  · cases h
  split at h
  · rename_i hreduces
    cases h
    rw [decide_eq_true hreduces]
    rfl
  · rename_i hreduces
    split at h
    · cases h
    · cases h
      rw [decide_eq_false hreduces]
      rfl

end Book

namespace Soak

/-! ### The table and the book -/

section Table

variable {live live' : LiveOrders K} {entries : List BookEntry} {entry : BookEntry}

/-- A resting order as the table lists it. -/
def tableOrder (entry : BookEntry) : LiveOrder :=
  ⟨entry.2.2.id, entry.2.2.account, entry.2.1, entry.2.2.quantity, entry.1⟩

/-- The table lists exactly these resting orders. -/
def Holds (live : LiveOrders K) (entries : List BookEntry) : Prop := live.flatten.Perm (entries.map tableOrder)

/-- The listed orders after one slot was written. -/
theorem flatten_setSlot (live : LiveOrders K) (index : Nat) (next : Option LiveOrder) :
    (live.setSlot index next).flatten = (live.orders.toList.set index next).reduceOption := by
  rw [LiveOrders.flatten, LiveOrders.setSlot, Vector.toList_setIfInBounds]

/-- A new table lists nothing. -/
theorem holds_new : Holds (LiveOrders.new : LiveOrders K) [] := by
  have hnone : (LiveOrders.new : LiveOrders K).flatten = [] := by
    rw [LiveOrders.flatten, LiveOrders.new, Vector.toList_replicate, List.reduceOption_replicate_none]
  rw [Holds, hnone]
  exact List.Perm.refl _

/-- The table is up to the order of the entries. -/
theorem Holds.perm {others : List BookEntry} (h : Holds live entries) (hperm : others.Perm entries) :
    Holds live others :=
  h.trans (hperm.map tableOrder).symm

/-- The slot of a resting order, and what the table lists once that slot is
rewritten. -/
theorem slot_of_mem (h : Holds live entries) (hdistinct : Distinct entries) (hmem : entry ∈ entries) :
    ∃ index, live.slot entry.2.2.id = .ok (index, tableOrder entry) ∧
      ∀ next : Option LiveOrder, (live.setSlot index next).flatten.Perm
        (next.toList ++ (entries.erase entry).map tableOrder) := by
  have hlisted : tableOrder entry ∈ live.flatten := h.symm.subset (List.mem_map_of_mem hmem)
  have halone : ∀ other ∈ live.flatten, decide (other.orderId = entry.2.2.id) = true → other = tableOrder entry := by
    intro other hother hid
    obtain ⟨found, hfound, rfl⟩ := List.mem_map.mp (h.subset hother)
    exact congrArg tableOrder (List.inj_on_of_nodup_map hdistinct hfound hmem (of_decide_eq_true hid))
  obtain ⟨index, hindex, hslot⟩ := SlotBag.exists_slot_of_occupant
    (p := fun order : LiveOrder => decide (order.orderId = entry.2.2.id)) hlisted (decide_eq_true rfl) halone
  obtain ⟨others, hbefore, hafter⟩ := SlotBag.reduceOption_set hslot
  refine ⟨index, ?_, fun next => ?_⟩
  · rw [LiveOrders.slot, hindex]
    dsimp only
    rw [hslot]
  · rw [flatten_setSlot]
    apply (hafter next).trans
    apply List.Perm.append_left
    have hsplit : (tableOrder entry :: others).Perm ((entry :: entries.erase entry).map tableOrder) :=
      hbefore.symm.trans (h.trans ((List.perm_cons_erase hmem).map tableOrder))
    exact List.Perm.cons_inv hsplit

/-- A table with room takes one more order in its first free slot. -/
theorem insert_of_room (h : Holds live entries) (hroom : entries.length < K) (order : LiveOrder) :
    ∃ index, live.orders.toList.findIdx? Option.isNone = some index ∧
      (live.setSlot index (some order)).flatten.Perm (order :: entries.map tableOrder) := by
  have hless : live.orders.toList.reduceOption.length < live.orders.toList.length := by
    have hlength := h.length_eq
    rw [LiveOrders.flatten, List.length_map] at hlength
    rw [hlength, Vector.length_toList]
    exact hroom
  obtain ⟨index, hfind, hfree⟩ := SlotBag.exists_free_slot hless
  obtain ⟨others, hbefore, hafter⟩ := SlotBag.reduceOption_set hfree
  refine ⟨index, hfind, ?_⟩
  rw [flatten_setSlot]
  apply (hafter (some order)).trans
  apply List.Perm.cons
  exact hbefore.symm.trans h

end Table

/-! ### Trades -/

section Trades

variable {live : LiveOrders K} {entries : List BookEntry} {order : NewOrder} {fills : List ModelFill}

/-- Fills at the prices of the entries they name. -/
def Priced (fills : List ModelFill) (entries : List BookEntry) : Prop :=
  ∀ fill ∈ fills, ∀ entry ∈ entries, entry.2.2.id = fill.makerOrderId → entry.2.1 = fill.price

/-- Taking a fill off the entries keeps the prices of the others. -/
theorem Priced.filterMap {fill : ModelFill} (h : Priced fills entries) :
    Priced fills (entries.filterMap (fillEntry fill)) := by
  intro other hother entry hentry hid
  obtain ⟨before, hbefore, hfilled⟩ := List.mem_filterMap.mp hentry
  obtain ⟨hside, hprice, hsame, _⟩ := fillEntry_kept hfilled
  rw [hprice]
  exact h other hother before hbefore (hsame ▸ hid)

/-- One fill taken off a table: its maker loses the quantity, and its slot when
nothing is left. -/
theorem holds_fill {fill : ModelFill} {maker : BookEntry} {index : Nat} (left : Quantity)
    (hdistinct : Distinct entries) (hmaker : maker ∈ entries) (hid : maker.2.2.id = fill.makerOrderId)
    (hleft : maker.2.2.quantity.val = left.val + fill.quantity.val)
    (hset : ∀ next : Option LiveOrder, (live.setSlot index next).flatten.Perm
      (next.toList ++ (entries.erase maker).map tableOrder)) :
    Holds (live.setSlot index (if left.val = 0 then none else some { tableOrder maker with quantity := left }))
      (entries.filterMap (fillEntry fill)) := by
  have hsplit : entries.Perm (maker :: entries.erase maker) := List.perm_cons_erase hmaker
  have hfilled : (entries.filterMap (fillEntry fill)).Perm ((fillEntry fill maker).toList ++ entries.erase maker) := by
    apply perm_filterMap hdistinct hsplit
    intro other hother
    rw [fillEntry, if_neg (hid ▸ hother)]
  apply (hset _).trans
  apply ((hfilled.map tableOrder).trans _).symm
  rw [List.map_append]
  apply List.Perm.append_right
  rw [fillEntry, if_pos hid]
  by_cases hzero : left.val = 0
  · have hall : maker.2.2.quantity = fill.quantity := Fin.ext (by omega)
    rw [if_pos hzero, if_pos hall]
    exact List.Perm.refl _
  · have hpart : ¬maker.2.2.quantity = fill.quantity := by
      intro heq
      rw [heq] at hleft
      omega
    have hrest : satSub maker.2.2.quantity fill.quantity = left := by
      apply Fin.ext
      rw [satSub_val]
      omega
    rw [if_neg hzero, if_neg hpart, hrest]
    exact List.Perm.refl _

/-- The check of the soak test is the crossing test of the book. -/
theorem tradeCrosses_eq (price : PriceTicks) :
    tradeCrosses order price = crosses order.side order.price price := by
  unfold tradeCrosses crosses
  cases order.side <;> rfl

/-- One trade of an accepted order passes every check of the table. -/
theorem applyTrade_fill {fill : ModelFill} {maker : BookEntry} {index : Nat} {traded : U64} (total : U64)
    (ordinal : U16)
    (hslot : live.slot maker.2.2.id = .ok (index, tableOrder maker)) (hid : maker.2.2.id = fill.makerOrderId)
    (hside : maker.1 = order.side.opposite) (hprice : maker.2.1 = fill.price)
    (hcross : crosses order.side order.price fill.price = true) (hpositive : fill.quantity.val ≠ 0)
    (hle : fill.quantity.val ≤ maker.2.2.quantity.val) (htotal : total.val = traded.val + fill.quantity.val) :
    live.applyTrade (.newOrder order) traded
        ⟨⟨order.sequence, ordinal⟩, fill.makerOrderId, order.orderId, order.instrumentId, fill.price, fill.quantity⟩ =
      .ok (total, live.setSlot index (if (satSub maker.2.2.quantity fill.quantity).val = 0 then none
        else some { tableOrder maker with quantity := satSub maker.2.2.quantity fill.quantity })) := by
  have hopposite : maker.1 ≠ order.side := by
    rw [hside]
    cases order.side <;> exact Side.noConfusion
  have hadd : checkedAdd traded fill.quantity = some total := checkedAdd_eq_some.mpr htotal
  have hsub : checkedSub (tableOrder maker).quantity fill.quantity = some (satSub maker.2.2.quantity fill.quantity) := by
    apply checkedSub_eq_some.mpr
    rw [satSub_val]
    exact (Nat.sub_add_cancel hle).symm
  unfold LiveOrders.applyTrade
  dsimp only
  rw [if_neg (not_or.mpr ⟨not_not.mpr rfl, hpositive⟩), ← hid, hslot]
  dsimp only
  have hfair : ¬((tableOrder maker).side = order.side ∨ fill.price ≠ (tableOrder maker).price ∨
      tradeCrosses order fill.price = false) := by
    rw [tradeCrosses_eq, hcross]
    exact not_or.mpr ⟨hopposite, not_or.mpr ⟨not_not.mpr hprice.symm, Bool.noConfusion⟩⟩
  rw [if_neg hfair, hadd]
  dsimp only
  rw [hsub]

/-- The trades of an accepted order pass every check of the table and take its
makers down. -/
theorem applyTrades_fills (first left : Nat) (traded : U64) (hholds : Holds live entries) (hdistinct : Distinct entries)
    (hfillable : Fillable order.side fills entries left) (hpriced : Priced fills entries)
    (hcrossing : ∀ fill ∈ fills, crosses order.side order.price fill.price = true)
    (hroom : traded.val + fillTotal fills < 2 ^ 64) :
    ∃ traded' live', live.applyTrades (.newOrder order) traded
        (tradeEvents order.sequence first (fills.map (reportOf order))) = .ok (traded', live') ∧
      traded'.val = traded.val + fillTotal fills ∧ Holds live' (fillEntries fills entries) := by
  induction fills generalizing live entries first left traded with
  | nil => exact ⟨traded, live, rfl, rfl, hholds⟩
  | cons fill fills ih =>
      obtain ⟨hpositive, _, ⟨maker, hmaker, hid, hside, hle⟩, hrest⟩ := hfillable
      obtain ⟨index, hslot, hset⟩ := slot_of_mem hholds hdistinct hmaker
      rw [fillTotal_cons] at hroom
      have hnext : traded.val + fill.quantity.val < 2 ^ 64 := by omega
      have hleft : maker.2.2.quantity.val = (satSub maker.2.2.quantity fill.quantity).val + fill.quantity.val :=
        (Nat.sub_add_cancel hle).symm
      have htrade := applyTrade_fill ⟨traded.val + fill.quantity.val, hnext⟩ (Fin.ofNat _ first) hslot hid hside
        (hpriced fill List.mem_cons_self maker hmaker hid) (hcrossing fill List.mem_cons_self) hpositive hle rfl
      have hfilled := holds_fill (satSub maker.2.2.quantity fill.quantity) hdistinct hmaker hid hleft hset
      obtain ⟨traded', live', htrades, htotal, hholds'⟩ := ih (first + 1) (left - fill.quantity.val)
        ⟨traded.val + fill.quantity.val, hnext⟩ hfilled (nodup_filterMap_fillEntry hdistinct) hrest
        (Priced.filterMap fun other hother => hpriced other (List.mem_cons_of_mem _ hother))
        (fun other hother => hcrossing other (List.mem_cons_of_mem _ hother)) (by simp only; omega)
      refine ⟨traded', live', ?_, ?_, hholds'⟩
      · rw [List.map_cons, tradeEvents, tradeEvent, LiveOrders.applyTrades]
        dsimp only [reportOf]
        rw [htrade]
        exact htrades
      · rw [htotal, fillTotal_cons]
        exact Nat.add_assoc _ _ _

/-- A top-of-book event is passed over. -/
theorem applyTrades_topEvents (command : Command) {traded : U64} (identity : CommandIdentity)
    (sequence : SequenceNumber) (ordinal : Nat) (before after : Tops) :
    live.applyTrades command traded (topEvents identity sequence ordinal before after) = .ok (traded, live) := by
  unfold topEvents
  split <;> rfl

/-- Events behind those taken in are taken in after them. -/
theorem applyTrades_append (command : Command) {traded traded' : U64} {live' : LiveOrders K} {events : List Event}
    (h : live.applyTrades command traded events = .ok (traded', live')) (rest : List Event) :
    live.applyTrades command traded (events ++ rest) = live'.applyTrades command traded' rest := by
  induction events generalizing live traded with
  | nil =>
      cases h
      rfl
  | cons event events ih =>
      cases event with
      | trade trade =>
          rw [LiveOrders.applyTrades] at h
          rw [List.cons_append, LiveOrders.applyTrades]
          split at h
          · cases h
          · exact ih h
      | accepted event => exact ih h
      | rejected event => exact ih h
      | cancelled event => exact ih h
      | replaced event => exact ih h
      | topOfBook event => exact ih h

end Trades

/-! ### The top of the book -/

section Tops

variable {side : Side} {orders others : List LiveOrder} {top top' : Option TopLevel}

/-- The best price of some orders of one side, with the quantity and the number
of the orders at it. -/
def IsTop (side : Side) (orders : List LiveOrder) : Option TopLevel → Prop
  | none => orders = []
  | some level =>
      (∃ order ∈ orders, order.price = level.price) ∧
        (∀ order ∈ orders, order.price = level.price ∨ isWorse side level.price order.price = true) ∧
        level.aggregateQuantity
          = ((orders.filter fun order => order.price = level.price).map fun order => order.quantity.val).sum ∧
        level.orderCount = (orders.filter fun order => order.price = level.price).length

theorem isWorse_ne {best price : PriceTicks} (h : isWorse side best price = true) : price ≠ best := by
  rintro rfl
  cases side <;> simp [isWorse] at h

theorem isWorse_trans {best middle price : PriceTicks} (h : isWorse side best middle = true)
    (h' : isWorse side middle price = true) : isWorse side best price = true := by
  cases side with
  | buy =>
      simp only [isWorse, decide_eq_true_eq] at h h' ⊢
      omega
  | sell =>
      simp only [isWorse, decide_eq_true_eq] at h h' ⊢
      omega

/-- Of two different prices one is worse. -/
theorem isWorse_total {best price : PriceTicks} (hne : best ≠ price) (h : ¬isWorse side best price = true) :
    isWorse side price best = true := by
  have hval : best.val ≠ price.val := fun heq => hne (Signed.ext heq)
  cases side with
  | buy =>
      simp only [isWorse, decide_eq_true_eq] at h ⊢
      omega
  | sell =>
      simp only [isWorse, decide_eq_true_eq] at h ⊢
      omega

/-- The order of the prices is the one the book sorts its levels by. -/
theorem isWorse_eq_precedes (best price : PriceTicks) :
    isWorse side best price = LevelIndex.precedes side.descending price best := by
  cases side <;> rfl

/-- The top does not depend on the order of the list. -/
theorem IsTop.perm (h : IsTop side orders top) (hperm : orders.Perm others) : IsTop side others top := by
  cases top with
  | none =>
      subst h
      exact List.nil_perm.mp hperm
  | some level =>
      obtain ⟨⟨order, hmem, hprice⟩, hbest, htotal, hcount⟩ := h
      have hfiltered := hperm.filter fun order => decide (order.price = level.price)
      refine ⟨⟨order, hperm.subset hmem, hprice⟩, fun other hother => hbest other (hperm.symm.subset hother), ?_, ?_⟩
      · exact htotal.trans (hfiltered.map _).sum_eq
      · exact hcount.trans hfiltered.length_eq

/-- A list has one top. -/
theorem IsTop.unique (h : IsTop side orders top) (h' : IsTop side orders top') : top = top' := by
  cases top with
  | none =>
      subst h
      cases top' with
      | none => rfl
      | some level =>
          obtain ⟨⟨order, hmem, _⟩, _⟩ := h'
          cases hmem
  | some level =>
      obtain ⟨⟨order, hmem, hprice⟩, hbest, htotal, hcount⟩ := h
      cases top' with
      | none =>
          rw [h'] at hmem
          cases hmem
      | some level' =>
          obtain ⟨⟨order', hmem', hprice'⟩, hbest', htotal', hcount'⟩ := h'
          have hsame : level.price = level'.price := by
            by_contra hne
            have hworse : isWorse side level.price level'.price = true := by
              rcases hbest order' hmem' with heq | hworse
              · exact absurd (heq.symm.trans hprice') hne
              · exact hprice' ▸ hworse
            have hworse' : isWorse side level'.price level.price = true := by
              rcases hbest' order hmem with heq | hworse
              · exact absurd (hprice.symm.trans heq) hne
              · exact hprice ▸ hworse
            exact isWorse_ne (isWorse_trans hworse hworse') rfl
          obtain ⟨price, aggregate, count⟩ := level
          obtain ⟨price', aggregate', count'⟩ := level'
          obtain rfl : price = price' := hsame
          obtain rfl : aggregate = aggregate' := htotal.trans htotal'.symm
          obtain rfl : count = count' := hcount.trans hcount'.symm
          rfl

/-- One order more. -/
theorem IsTop.step (h : IsTop side orders top) (order : LiveOrder) :
    IsTop side (orders ++ [order]) (topStep side top order) := by
  cases top with
  | none =>
      subst h
      refine ⟨⟨order, by simp, rfl⟩, by simp, by simp, by simp⟩
  | some level =>
      obtain ⟨⟨first, hmem, hprice⟩, hbest, htotal, hcount⟩ := h
      unfold topStep
      dsimp only
      by_cases hsame : level.price = order.price
      · rw [if_pos hsame]
        refine ⟨⟨first, List.mem_append_left _ hmem, hprice⟩, ?_, ?_, ?_⟩
        · intro other hother
          rcases List.mem_append.mp hother with hbefore | hlast
          · exact hbest other hbefore
          · rw [List.mem_singleton.mp hlast]
            exact .inl hsame.symm
        · simp [List.filter_append, htotal, hsame]
        · simp [List.filter_append, hcount, hsame]
      · rw [if_neg hsame]
        by_cases hworse : isWorse side level.price order.price = true
        · rw [if_pos hworse]
          have hdrop : [order].filter (fun other => decide (other.price = level.price)) = [] := by
            simp [Ne.symm hsame]
          refine ⟨⟨first, List.mem_append_left _ hmem, hprice⟩, ?_, ?_, ?_⟩
          · intro other hother
            rcases List.mem_append.mp hother with hbefore | hlast
            · exact hbest other hbefore
            · rw [List.mem_singleton.mp hlast]
              exact .inr hworse
          · rw [List.filter_append, hdrop, List.append_nil]
            exact htotal
          · rw [List.filter_append, hdrop, List.append_nil]
            exact hcount
        · rw [if_neg hworse]
          have hbetter : isWorse side order.price level.price = true := isWorse_total hsame hworse
          have hbehind : ∀ other ∈ orders, isWorse side order.price other.price = true := by
            intro other hother
            rcases hbest other hother with heq | hless
            · exact heq ▸ hbetter
            · exact isWorse_trans hbetter hless
          have hdrop : orders.filter (fun other => decide (other.price = order.price)) = [] := by
            apply List.filter_eq_nil_iff.mpr
            intro other hother
            simpa using isWorse_ne (hbehind other hother)
          refine ⟨⟨order, by simp, rfl⟩, ?_, ?_, ?_⟩
          · intro other hother
            rcases List.mem_append.mp hother with hbefore | hlast
            · exact .inr (hbehind other hbefore)
            · rw [List.mem_singleton.mp hlast]
              exact .inl rfl
          · simp [List.filter_append, hdrop]
          · simp [List.filter_append, hdrop]

/-- The top of some orders is carried on through more of them. -/
theorem IsTop.foldl (h : IsTop side orders top) (more : List LiveOrder) :
    IsTop side (orders ++ more) (more.foldl (topStep side) top) := by
  induction more generalizing orders top with
  | nil => simpa using h
  | cons order more ih =>
      have hrest := ih (h.step order)
      rwa [List.append_assoc] at hrest

/-- The best level of a sorted side is the top of its orders. -/
theorem isTop_topOf {levels : ModelLevels} (hsorted : SortedLevels side.descending levels)
    (hoccupied : ∀ level ∈ levels, level.2 ≠ []) :
    IsTop side ((entriesOf side levels).map tableOrder) (topOf levels) := by
  cases levels with
  | nil => rfl
  | cons level rest =>
      obtain ⟨price, queue⟩ := level
      obtain ⟨hfirst, _⟩ := List.pairwise_cons.mp hsorted
      have hrest : ∀ entry ∈ entriesOf side rest, isWorse side price entry.2.1 = true := by
        intro entry hentry
        obtain ⟨_, behind, hlevel, _⟩ := mem_entriesOf.mp hentry
        rw [isWorse_eq_precedes]
        exact hfirst _ hlevel
      have hqueue : ((queue.map fun order => (side, price, order)).map tableOrder).filter
          (fun order => decide (order.price = price)) = (queue.map fun order => (side, price, order)).map tableOrder := by
        apply List.filter_eq_self.mpr
        intro order horder
        obtain ⟨entry, hentry, rfl⟩ := List.mem_map.mp horder
        obtain ⟨resting, _, rfl⟩ := List.mem_map.mp hentry
        exact decide_eq_true rfl
      have hbehind : ((entriesOf side rest).map tableOrder).filter (fun order => decide (order.price = price)) = [] := by
        apply List.filter_eq_nil_iff.mpr
        intro order horder
        obtain ⟨entry, hentry, rfl⟩ := List.mem_map.mp horder
        exact fun heq => isWorse_ne (hrest entry hentry) (of_decide_eq_true heq)
      rw [entriesOf_cons, List.map_append, topOf]
      refine ⟨?_, ?_, ?_, ?_⟩
      · obtain ⟨resting, others, rfl⟩ := List.exists_cons_of_ne_nil (hoccupied _ List.mem_cons_self)
        exact ⟨tableOrder (side, price, resting), by simp, rfl⟩
      · intro order horder
        rcases List.mem_append.mp horder with hbest | hless
        · obtain ⟨entry, hentry, rfl⟩ := List.mem_map.mp hbest
          obtain ⟨resting, _, rfl⟩ := List.mem_map.mp hentry
          exact .inl rfl
        · obtain ⟨entry, hentry, rfl⟩ := List.mem_map.mp hless
          exact .inr (hrest entry hentry)
      · rw [List.filter_append, hqueue, hbehind, List.append_nil, List.map_map, List.map_map]
        rfl
      · rw [List.filter_append, hqueue, hbehind, List.append_nil, List.length_map, List.length_map]

/-- The orders of one side of the book. -/
theorem filter_side_orders (logical : LogicalBook) (side : Side) :
    (logical.orders.filter fun entry => decide (entry.1 = side)) = entriesOf side (logical.levels side) := by
  have hown : ∀ own, (entriesOf own (logical.levels own)).filter (fun entry => decide (entry.1 = own)) =
      entriesOf own (logical.levels own) := by
    intro own
    apply List.filter_eq_self.mpr
    intro entry hentry
    exact decide_eq_true (mem_entriesOf.mp hentry).1
  have hother : ∀ own other, own ≠ other →
      (entriesOf own (logical.levels own)).filter (fun entry => decide (entry.1 = other)) = [] := by
    intro own other hne
    apply List.filter_eq_nil_iff.mpr
    intro entry hentry
    rw [(mem_entriesOf.mp hentry).1]
    simpa using hne
  rw [orders_eq, List.filter_append]
  cases side with
  | buy => rw [hown, hother .sell .buy Side.noConfusion, List.append_nil]
  | sell => rw [hown, hother .buy .sell Side.noConfusion, List.nil_append]

/-- The tops of a table that holds a book are the book's. -/
theorem top_of_holds {live : LiveOrders K} {logical : LogicalBook} (wf : logical.WellFormed)
    (h : Holds live logical.orders) (side : Side) : live.top side = topOf (logical.levels side) := by
  have hempty : IsTop side [] none := rfl
  have hfold := hempty.foldl (live.flatten.filter fun order => decide (order.side = side))
  have hperm : (live.flatten.filter fun order => decide (order.side = side)).Perm
      ((entriesOf side (logical.levels side)).map tableOrder) := by
    apply (h.filter _).trans
    rw [List.filter_map, ← filter_side_orders logical side]
    exact List.Perm.refl _
  exact (hfold.perm hperm).unique (isTop_topOf (wf.sorted side) (wf.occupied side))

end Tops

/-! ### One published batch -/

section Batches

variable {live matched : LiveOrders K} {logical logical' : LogicalGateway} {entries : List BookEntry}

/-- The last event agrees with tops that changed exactly when a top-of-book
event was published. -/
theorem checkTops_ok {events : List Event} (hevents : ∀ event ∈ events, ∀ top, event ≠ .topOfBook top)
    (command : CommandIdentity) (sequence : SequenceNumber) (ordinal : Nat) (before after : Tops) :
    LiveOrders.checkTops (events ++ topEvents command sequence ordinal before after).getLast? before after = .ok () := by
  by_cases hsame : before = after
  · have hnone : topEvents command sequence ordinal before after = [] := if_neg (not_not.mpr hsame)
    rw [hnone, List.append_nil]
    cases hlast : events.getLast? with
    | none => exact if_pos hsame
    | some event =>
        have hmem := List.mem_of_getLast? hlast
        cases event with
        | topOfBook top => exact absurd rfl (hevents _ hmem top)
        | accepted event => exact if_pos hsame
        | rejected event => exact if_pos hsame
        | trade event => exact if_pos hsame
        | cancelled event => exact if_pos hsame
        | replaced event => exact if_pos hsame
  · have hone : topEvents command sequence ordinal before after =
        [.topOfBook ⟨⟨sequence, Fin.ofNat _ ordinal⟩, command.instrumentId, after.1, after.2⟩] := if_pos hsame
    rw [hone, List.getLast?_concat, LiveOrders.checkTops, if_neg hsame]
    exact if_neg (not_not.mpr rfl)

/-- Trade events say nothing about the best levels. -/
theorem tradeEvents_no_top (sequence : SequenceNumber) (first : Nat) (reports : List ExecutionReport) :
    ∀ event ∈ tradeEvents sequence first reports, ∀ top, event ≠ .topOfBook top := by
  induction reports generalizing first with
  | nil => simp [tradeEvents]
  | cons report rest ih =>
      intro event hevent
      rcases List.mem_cons.mp hevent with heq | hmem
      · rw [heq]
        exact fun _ => Event.noConfusion
      · exact ih (first + 1) event hmem

/-- The event that settles a command says nothing about the best levels. -/
theorem terminalEvent_no_top (outcome : GatewayOutcome) (command : CommandIdentity) (sequence : SequenceNumber)
    (top : Events.TopOfBook) : terminalEvent outcome command sequence 0 ≠ .topOfBook top := by
  cases outcome <;> exact Event.noConfusion

/-- A batch is taken in when it is valid and its trades, its terminal event and
its tops pass. -/
theorem apply_of_parts {batch : EventBatch B} {command : Command} (traded : U64) (matched : LiveOrders K)
    {next : LiveOrders K} (hvalid : ValidBatch command.instrumentId command.sequence batch.events)
    (htrades : live.applyTrades command 0 batch.events = .ok (traded, matched))
    (hterminal : matched.applyTerminal batch.events.head? command traded = .ok next)
    (htops : LiveOrders.checkTops batch.events.getLast? live.tops next.tops = .ok ()) :
    live.apply batch command = .ok (summaryOf batch.events, next) := by
  unfold LiveOrders.apply
  rw [validateBatch_eq_ok.mpr ⟨hvalid, rfl⟩]
  dsimp only
  rw [htrades]
  dsimp only
  rw [hterminal]
  dsimp only
  rw [htops]

/-- The accounting of an accepted order is right. -/
theorem validateAccepted_ok {order : NewOrder} {summary : MatchSummary} {fills : List ModelFill}
    {book book' : LogicalBook}
    {remaining resting discarded : Quantity} {makers : ModelLevels} {traded : U64} (id : EventId)
    (instrument : InstrumentId)
    (hmatched : Matched L O N book order summary fills book' remaining makers)
    (hsubmitted : Submitted N book order summary fills book' resting discarded)
    (htraded : traded.val = fillTotal fills) :
    validateAccepted ⟨id, order.orderId, order.accountId, instrument, summary.state, summary.filledQuantity,
      summary.restingQuantity, summary.discardedQuantity⟩ order traded = .ok () := by
  have hsplit := hsubmitted.split
  have hbound := order.quantity.isLt
  have hsummary := hsubmitted.summary_eq
  have hfilled : summary.filledQuantity.val = fillTotal fills := by
    rw [hsummary]
    simp only [LogicalBook.summary, satSub_val]
    omega
  have hresting : summary.restingQuantity = resting := by rw [hsummary]; rfl
  have hdiscarded : summary.discardedQuantity = discarded := by rw [hsummary]; rfl
  have hstate : summary.state = OrderBook.orderStateOf summary.filledQuantity order.quantity := by rw [hsummary]; rfl
  have hplaced : checkedAdd summary.filledQuantity summary.restingQuantity =
      some ⟨fillTotal fills + resting.val, by omega⟩ := by
    rw [checkedAdd_eq_some, hfilled, hresting]
  have htotal : checkedAdd (⟨fillTotal fills + resting.val, by omega⟩ : U64) summary.discardedQuantity =
      some order.quantity := by
    rw [checkedAdd_eq_some, hdiscarded]
    simp only
    omega
  have htif := hmatched.timeInForce
  unfold validateAccepted
  dsimp only
  rw [hplaced, Option.bind_eq_bind, Option.bind_some, htotal,
    if_neg (not_or.mpr ⟨hsubmitted.quantity, not_or.mpr ⟨not_not.mpr rfl, not_not.mpr (Fin.ext (hfilled.trans
      htraded.symm))⟩⟩), hstate]
  unfold OrderBook.orderStateOf
  rw [if_neg (not_not.mpr rfl)]
  cases hforce : order.timeInForce with
  | gtc =>
      rw [hforce] at htif
      exact if_pos (decide_eq_true htif)
  | ioc =>
      rw [hforce] at htif
      exact if_pos (decide_eq_true htif)
  | fok =>
      rw [hforce] at htif
      exact if_pos (decide_eq_true htif)
  | postOnly =>
      rw [hforce] at htif
      exact if_pos (decide_eq_true htif)

/-- An accepted order's remainder is entered when there is one. -/
theorem applyAccepted_ok {order : NewOrder} {event : Events.Accepted} {traded : U64} {resting : Quantity}
    (hvalid : validateAccepted event order traded = .ok ()) (hresting : event.restingQuantity = resting)
    (hholds : Holds matched entries) (hfresh : ∀ entry ∈ entries, entry.2.2.id ≠ order.orderId)
    (hroom : (restEntries order resting ++ entries).length ≤ K) :
    ∃ next, matched.applyAccepted event order traded = .ok next ∧ Holds next (restEntries order resting ++ entries) := by
  unfold LiveOrders.applyAccepted
  rw [hvalid]
  dsimp only
  rw [hresting]
  unfold restEntries at hroom ⊢
  by_cases hzero : resting.val = 0
  · rw [if_pos hzero, if_pos hzero]
    exact ⟨matched, rfl, hholds⟩
  · rw [if_neg hzero] at hroom
    rw [if_neg hzero, if_neg hzero]
    have hunlisted : ¬(matched.flatten.any fun other => decide (other.orderId = order.orderId)) = true := by
      intro hlisted
      obtain ⟨other, hother, hid⟩ := List.any_eq_true.mp hlisted
      obtain ⟨entry, hentry, rfl⟩ := List.mem_map.mp (hholds.subset hother)
      exact hfresh entry hentry (of_decide_eq_true hid)
    rw [if_neg hunlisted]
    obtain ⟨index, hfind, hset⟩ := insert_of_room hholds
      (show entries.length < K by rw [List.singleton_append, List.length_cons] at hroom; omega)
      ⟨order.orderId, order.accountId, order.price, resting, order.side⟩
    rw [hfind]
    exact ⟨_, rfl, hset⟩

/-- Removing the entry of an id is erasing it. -/
theorem filter_perm_erase {book : LogicalBook} (wf : book.WellFormed) {id : OrderId} {entry : BookEntry}
    (hfind : book.find id = some entry) :
    (book.orders.filter fun other => decide (other.2.2.id ≠ id)).Perm (book.orders.erase entry) :=
  List.Perm.cons_inv ((orders_split wf hfind).symm.trans (List.perm_cons_erase (mem_of_find hfind).1))

/-- Every batch an event engine publishes is taken in, and the table holds the
book again. -/
theorem apply_published {engine engine' : BoundedEventEngine A R L O N B Q} {command : Command} {answer : GatewayAnswer}
    {batch : EventBatch B} (hK : R ≤ K) (hN : N + 2 ≤ 2 ^ 16) (rep : GatewayRep engine.gateway logical)
    (sound : logical.Sound) (hanswered : logical.processCommand R L O N command = some (answer, logical'))
    (published : Published engine engine' logical logical' command answer batch)
    (hholds : Holds live logical.book.orders) :
    ∃ next, live.apply batch command = .ok (summaryOf batch.events, next) ∧ Holds next logical'.book.orders := by
  have wf := rep.book.wellFormed
  have hdistinct : Distinct logical.book.orders := wf.ids
  have hvalid := validBatch_of_published hN published
  have hnext := published.next
  have hmoves := published.moves
  have hevents := published.events
  have wf' := published.rep.book.wellFormed
  have hbefore : live.tops = engine.tops := by
    rw [tops_eq rep, LiveOrders.tops, top_of_holds wf hholds .buy, top_of_holds wf hholds .sell]
  have hafter : ∀ next : LiveOrders K, Holds next logical'.book.orders → next.tops = engine'.tops := by
    intro next hnext
    rw [tops_eq published.rep, LiveOrders.tops, top_of_holds wf' hnext .buy, top_of_holds wf' hnext .sell]
  have hcapacity : logical'.book.orders.length ≤ K := by
    have hlength := published.sound.ledger.length_eq
    rw [List.length_map] at hlength
    rw [← hlength, ← published.rep.risk.reservations.length_eq]
    exact ((List.length_filterMap_le _ _).trans (List.length_range).le).trans hK
  generalize hcommand : some command = carried at hmoves
  cases hmoves with
  | malformed => cases hcommand
  | unsequenced => omega
  | exhausted => omega
  | refused _ _ herror _ =>
      have hrejected : ∃ reason, batch.events = [.rejected ⟨⟨command.sequence, 0⟩,
          (CommandIdentity.fromCommand command).kind, (CommandIdentity.fromCommand command).orderId,
          (CommandIdentity.fromCommand command).accountId, (CommandIdentity.fromCommand command).instrumentId, reason⟩] := by
        rcases herror with ⟨reason, rfl⟩ | ⟨reason, rfl⟩
        · exact ⟨reason, hevents⟩
        · exact ⟨reason, hevents⟩
      obtain ⟨reason, hbatch⟩ := hrejected
      refine ⟨live, apply_of_parts 0 live hvalid ?_ ?_ ?_, hholds⟩
      · rw [hbatch]
        rfl
      · rw [hbatch]
        have hidentity : ((CommandIdentity.fromCommand command).kind, (CommandIdentity.fromCommand command).orderId,
            (CommandIdentity.fromCommand command).accountId) = rejectedIdentity command := by
          cases command <;> rfl
        exact if_neg (not_not.mpr hidentity)
      · rw [hbatch]
        exact if_pos rfl
  | @accepted order _ _ _ summary _ _ _ _ _ haccepted =>
      cases hcommand
      rw [haccepted.answer_eq] at hanswered hevents
      obtain ⟨_, fills, houtcome, hreports, hsubmit⟩ := submit_of_accepted hanswered
      cases houtcome
      rw [hreports, eventsOf_ok] at hevents
      obtain ⟨remaining, makers, hmatched⟩ := submit_matched hsubmit
      obtain ⟨resting, discarded, hsubmitted⟩ := submit_effect wf hsubmit
      have hsplit := hsubmitted.split
      have hbound := order.quantity.isLt
      obtain ⟨traded, matched, htrades, htotal, hheld⟩ := applyTrades_fills 1 order.quantity.val 0 hholds hdistinct
        (hsubmitted.fillable sound.book.quantities) (fun fill hfill => (hmatched.priced wf hfill).2)
        (fun fill hfill => (hmatched.priced wf hfill).1) (by simp only [Fin.val_zero]; omega)
      have hfresh : ∀ entry ∈ fillEntries fills logical.book.orders, entry.2.2.id ≠ order.orderId := by
        intro entry hentry hid
        obtain ⟨before, hmem, _, _, hsame, _⟩ := fillEntries_kept hentry
        exact find_eq_none_iff.mp hsubmitted.fresh before hmem (hsame ▸ hid)
      have htraded : traded.val = fillTotal fills := by simpa using htotal
      have hresting : summary.restingQuantity = resting := by rw [hsubmitted.summary_eq]; rfl
      obtain ⟨next, haccept, hentered⟩ := applyAccepted_ok
        (validateAccepted_ok ⟨order.sequence, 0⟩ order.instrumentId hmatched hsubmitted htraded) hresting hheld hfresh
        (hsubmitted.orders.length_eq ▸ hcapacity)
      have hholds' : Holds next logical'.book.orders := hentered.perm hsubmitted.orders
      refine ⟨next, apply_of_parts traded matched hvalid ?_ ?_ ?_, hholds'⟩
      · rw [hevents]
        apply (applyTrades_append _ htrades _).trans
        exact applyTrades_topEvents _ _ _ _ _ _
      · rw [hevents]
        exact (if_pos ⟨rfl, rfl⟩).trans haccept
      · rw [hevents, hbefore, hafter next hholds', ← List.cons_append]
        apply checkTops_ok
        intro event hevent top
        rcases List.mem_cons.mp hevent with heq | hmem
        · rw [heq]
          exact terminalEvent_no_top _ _ _ top
        · exact tradeEvents_no_top _ _ _ event hmem top
  | @cancelled request _ _ entry _ _ hcancelled =>
      cases hcommand
      rw [hcancelled.answer_eq, eventsOf_ok] at hevents
      obtain ⟨hmem, hid⟩ := mem_of_find hcancelled.found
      obtain ⟨index, hslot, hset⟩ := slot_of_mem hholds hdistinct hmem
      have hholds' : Holds (live.setSlot index none) logical'.book.orders := by
        rw [hcancelled.orders]
        exact Holds.perm (hset none) (filter_perm_erase wf hcancelled.found)
      refine ⟨_, apply_of_parts 0 live hvalid ?_ ?_ ?_, hholds'⟩
      · rw [hevents]
        exact applyTrades_topEvents _ _ _ _ _ _
      · rw [hevents]
        apply (if_pos ⟨hid, hcancelled.owner⟩).trans
        unfold LiveOrders.applyCancelled
        dsimp only
        rw [hslot]
        exact if_neg (not_or.mpr ⟨not_not.mpr rfl, not_not.mpr rfl⟩)
      · rw [hevents, hbefore, hafter _ hholds', tradeEvents, List.nil_append, ← List.singleton_append]
        apply checkTops_ok
        intro event hevent top
        rw [List.mem_singleton.mp hevent]
        exact terminalEvent_no_top _ _ _ top
  | @replaced request _ _ result side price old sequence _ _ hreplaced =>
      cases hcommand
      rw [hreplaced.answer_eq] at hanswered hevents
      obtain ⟨amended, houtcome, hreplace⟩ := replace_of_accepted hanswered
      cases houtcome
      rw [eventsOf_ok] at hevents
      have hfound := hreplaced.amended.found
      obtain ⟨hmem, hid⟩ := mem_of_find hfound
      have hresult := replace_priority hfound hreplace
      subst hresult
      obtain ⟨index, hslot, hset⟩ := slot_of_mem hholds hdistinct hmem
      have hholds' : Holds (live.setSlot index (some { tableOrder (side, price, old) with
          quantity := request.quantity, price := request.price })) logical'.book.orders := by
        have hentered : Holds (live.setSlot index (some { tableOrder (side, price, old) with
            quantity := request.quantity, price := request.price })) ((side, request.price, ⟨request.orderId,
              request.accountId, request.quantity, sequence⟩) :: logical.book.orders.erase (side, price, old)) := by
          apply (hset _).trans
          apply List.Perm.of_eq
          rw [List.map_cons, ← hid, ← hreplaced.amended.owner]
          rfl
        exact hentered.perm (hreplaced.amended.orders.trans ((filter_perm_erase wf hfound).cons _))
      refine ⟨_, apply_of_parts 0 live hvalid ?_ ?_ ?_, hholds'⟩
      · rw [hevents]
        exact applyTrades_topEvents _ _ _ _ _ _
      · rw [hevents]
        apply (if_pos ⟨rfl, rfl⟩).trans
        unfold LiveOrders.applyReplaced
        dsimp only [terminalEvent, OrderBook.replacedOrder]
        rw [← hid, hslot]
        dsimp only [tableOrder]
        apply if_neg
        simp only [not_or, ne_eq, not_not, true_and]
        refine ⟨hreplaced.amended.owner, hreplaced.amended.quantity, ?_⟩
        cases decide (request.price = price ∧ request.quantity.val < old.quantity.val) <;> exact Bool.noConfusion
      · rw [hevents, hbefore, hafter _ hholds', tradeEvents, List.nil_append, ← List.singleton_append]
        apply checkTops_ok
        intro event hevent top
        rw [List.mem_singleton.mp hevent]
        exact terminalEvent_no_top _ _ _ top

/-- A table that holds the book agrees with its export. -/
theorem validate_of_holds {gateway : Gateway A R L O} (rep : GatewayRep gateway logical)
    (hholds : Holds live logical.book.orders) : live.validate gateway = .ok () := by
  have horders : gateway.exportState.book.orders = logical.book.orders.map entryState := orders_exportState rep.book
  have hlists : (gateway.exportState.book.orders.all live.lists) = true := by
    apply List.all_eq_true.mpr
    intro order horder
    rw [horders] at horder
    obtain ⟨entry, hentry, rfl⟩ := List.mem_map.mp horder
    apply List.any_eq_true.mpr
    exact ⟨tableOrder entry, hholds.symm.subset (List.mem_map_of_mem hentry), decide_eq_true ⟨rfl, rfl, rfl, rfl, rfl⟩⟩
  have hcount : gateway.exportState.book.orders.length = live.len := by
    rw [horders, List.length_map, LiveOrders.len, hholds.length_eq, List.length_map]
  unfold LiveOrders.validate
  dsimp only
  rw [if_pos hlists, if_neg (not_not.mpr hcount)]

end Batches

/-! ### Runs -/

section Runs

variable {engine engine' : BoundedEventEngine A R L O N B Q} {outputs : List (EventOutput B)} {live : LiveOrders K}

/-- Takes the batches of a stream in, one after another. -/
def LiveOrders.replay : LiveOrders K → List (Command × EventBatch B) → Except RoutedError (LiveOrders K)
  | live, [] => .ok live
  | live, (command, batch) :: rest =>
      match live.apply batch command with
      | .error error => .error error
      | .ok (_, live) => replay live rest

/-- A stream is replayed one batch after the other. -/
theorem replay_append {stream more : List (Command × EventBatch B)} {next : LiveOrders K}
    (h : live.replay stream = .ok next) : live.replay (stream ++ more) = next.replay more := by
  induction stream generalizing live with
  | nil =>
      cases h
      rfl
  | cons item rest ih =>
      obtain ⟨command, batch⟩ := item
      rw [LiveOrders.replay] at h
      rw [List.cons_append, LiveOrders.replay]
      cases happly : live.apply batch command with
      | error error =>
          rw [happly] at h
          cases h
      | ok result =>
          obtain ⟨summary, middle⟩ := result
          rw [happly] at h
          exact ih h

/-- The table has taken in all that was published so far, and holds the
book. -/
structure Shadowed (K : Nat) (outputs : List (EventOutput B)) (engine : BoundedEventEngine A R L O N B Q) : Prop where
  matched : (outputs.filterMap EventOutput.command).length = (publishedIn outputs engine).length
  shadow : ∃ logical, ∃ live : LiveOrders K, GatewayRep engine.gateway logical ∧ logical.Sound ∧
    LiveOrders.new.replay (streamOf outputs engine) = .ok live ∧ Holds live logical.book.orders

/-- A call that neither runs a command nor takes a batch out changes nothing
for the table. -/
theorem Shadowed.quiet {output : EventOutput B} (h : Shadowed K outputs engine) (hcommand : output.command = none)
    (hbatch : output.batch = none) : Shadowed K (outputs ++ [output]) engine := by
  obtain ⟨hcommands, hbatches, hstream⟩ := streamOf_quiet engine outputs hcommand hbatch
  refine ⟨?_, ?_⟩
  · rw [hcommands, hbatches]
    exact h.matched
  · rw [hstream]
    exact h.shadow

/-- A command that is run publishes a batch the table can take in. -/
theorem Shadowed.process (hK : R ≤ K) (hN : N + 2 ≤ 2 ^ 16) (hB : N + 2 ≤ B) {command : Command}
    {result : Except EventEngineError Unit} (h : Shadowed K outputs engine)
    (hprocess : engine.processCommand command = some (result, engine')) :
    Shadowed K (outputs ++ [.processed (some command) result]) engine' := by
  obtain ⟨logical, live, rep, sound, hreplay, hholds⟩ := h.shadow
  unfold BoundedEventEngine.processCommand at hprocess
  cases hpreflight : engine.preflight command.sequence with
  | error error =>
      rw [hpreflight] at hprocess
      cases hprocess
      exact h.quiet rfl rfl
  | ok =>
      rw [hpreflight] at hprocess
      obtain ⟨rfl, logical', answer, batch, hanswered, published⟩ :=
        BoundedEventEngine.applyAdmittedCommand_answered hN hB rep sound hpreflight hprocess
      obtain ⟨next, happly, hnext⟩ := apply_published hK hN rep sound hanswered published hholds
      obtain ⟨hcommands, hbatches, hstream⟩ := streamOf_process command h.matched published.queued
      refine ⟨?_, logical', next, published.rep, published.sound, ?_, hnext⟩
      · rw [hcommands, hbatches, List.length_append, List.length_append, h.matched]
        rfl
      · rw [hstream, replay_append hreplay, LiveOrders.replay, happly]
        rfl

/-- Every call keeps the table in step. -/
theorem Shadowed.perform (hK : R ≤ K) (hN : N + 2 ≤ 2 ^ 16) (hB : N + 2 ≤ B) {call : EventCall} {output : EventOutput B}
    (h : Shadowed K outputs engine) (hperform : engine.perform call = some (output, engine')) :
    Shadowed K (outputs ++ [output]) engine' := by
  cases call with
  | command command =>
      obtain ⟨⟨result, next⟩, hprocess, heq⟩ := Option.map_eq_some_iff.mp hperform
      cases heq
      exact h.process hK hN hB hprocess
  | frame bytes =>
      obtain ⟨⟨result, next⟩, hprocess, heq⟩ := Option.map_eq_some_iff.mp hperform
      cases heq
      cases hparse : parseMessage bytes with
      | error error =>
          rw [BoundedEventEngine.processFrame, hparse] at hprocess
          cases hprocess
          exact h.quiet rfl rfl
      | ok message =>
          rw [BoundedEventEngine.processFrame_eq hparse] at hprocess
          exact h.process hK hN hB hprocess
  | pop =>
      unfold BoundedEventEngine.perform at hperform
      cases hpop : engine.queue.tryPop with
      | none =>
          rw [hpop] at hperform
          cases hperform
          exact h.quiet rfl rfl
      | some popped =>
          rw [hpop] at hperform
          cases hperform
          have hitems : engine.queue.items =
              popped.1 :: ({ engine with queue := popped.2 } : BoundedEventEngine A R L O N B Q).queue.items :=
            BoundedQueue.tryPop_eq_some.mp hpop
          obtain ⟨hcommands, hbatches, hstream⟩ := streamOf_pop outputs hitems
          refine ⟨?_, ?_⟩
          · rw [hcommands, hbatches]
            exact h.matched
          · rw [hstream]
            exact h.shadow

/-- The soak runner raises no false alarm: over every run of an event engine on
a new gateway, with the consumer at any point, a table of live orders with room
for the gateway's reservations takes in every published batch without an error,
its tops are the gateway's, and comparing it with the exported book
succeeds. -/
theorem soak_mirror_follows_engine {risk : RiskEngine A R} {instrument : InstrumentId}
    {start : BoundedEventEngine A R L O N B Q} {calls : List EventCall} (hconfigured : Configured risk)
    (hstart : BoundedEventEngine.tryNew (Gateway.new risk instrument) BoundedQueue.empty = .ok start) (hK : R ≤ K)
    (hrun : run BoundedEventEngine.perform start calls = some (outputs, engine)) :
    ∃ live : LiveOrders K, LiveOrders.new.replay (streamOf outputs engine) = .ok live ∧
      live.validate engine.gateway = .ok () ∧
      live.tops = (engine.gateway.topLevel .buy, engine.gateway.topLevel .sell) := by
  obtain ⟨hN, hB, rfl⟩ := BoundedEventEngine.tryNew_eq_ok hstart
  obtain ⟨state, rep, fresh⟩ := hconfigured.ledger
  have hfirst : Shadowed K []
      (⟨Gateway.new risk instrument, BoundedQueue.empty⟩ : BoundedEventEngine A R L O N B Q) :=
    ⟨rfl, LogicalGateway.new state instrument, LiveOrders.new, gatewayRep_new rep instrument,
      sound_new_gateway rep fresh instrument, rfl, holds_new⟩
  have hlast := run_outputs (Shadowed K) (fun h hperform => h.perform hK hN hB hperform) [] hfirst hrun
  obtain ⟨logical, live, rep', sound', hreplay, hholds⟩ := hlast.shadow
  have wf := rep'.book.wellFormed
  refine ⟨live, hreplay, validate_of_holds rep' hholds, ?_⟩
  rw [LiveOrders.tops, top_of_holds wf hholds .buy, top_of_holds wf hholds .sell]
  exact (tops_eq rep').symm

/-- The sample run of the event stream, taken in by a table of four slots. -/
theorem soak_mirror_follows_engine_sample :
    ∃ outputs, ∃ engine : BoundedEventEngine 2 4 2 2 2 4 2,
      run BoundedEventEngine.perform ⟨Gateway.new sampleRisk 7, BoundedQueue.empty⟩ sampleEventCalls =
        some (outputs, engine) ∧
      ∃ live : LiveOrders 4, LiveOrders.new.replay (streamOf outputs engine) = .ok live ∧
        live.validate engine.gateway = .ok () := by
  have hreturns : (run (BoundedEventEngine.perform (A := 2) (R := 4) (L := 2) (O := 2) (N := 2) (B := 4) (Q := 2))
      ⟨Gateway.new sampleRisk 7, BoundedQueue.empty⟩ sampleEventCalls).isSome = true := by decide +kernel
  obtain ⟨⟨outputs, engine⟩, hrun⟩ := Option.isSome_iff_exists.mp hreturns
  obtain ⟨live, hreplay, hvalid, _⟩ := soak_mirror_follows_engine sampleRisk_configured rfl le_rfl hrun
  exact ⟨outputs, engine, hrun, live, hreplay, hvalid⟩

end Runs

end Soak

end HftEngine
