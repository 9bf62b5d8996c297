/-
Module: HftEngine.Proofs.BookSequences
Layer: Proofs
Purpose: The sequence numbers resting orders carry. Every queue stands in the
  order of arrival, no two orders carry the same number, and every number is
  behind the next one to come. Restoring a book demands all of it.
Imports: HftEngine.Proofs.LogicalSteps
Trusted boundary: none (fully proved)
Main exports: Queued, LogicalBook.Stamped, LogicalBook.Stamped.submit,
  LogicalBook.Stamped.replace, LogicalBook.Stamped.cancel
-/
import HftEngine.Proofs.LogicalSteps

namespace HftEngine

open Machine KeyedList

variable {L O N next : Nat} {logical logical' : LogicalBook} {levels levels' : ModelLevels} {side : Side}
  {price : PriceTicks} {queue : List ModelOrder} {order : ModelOrder} {id : OrderId} {entries : List BookEntry}

/-! ### Queues -/

/-- The numbers in a queue, front first. -/
def stamps (queue : List ModelOrder) : List Nat := queue.map fun order => order.sequence.val

/-- Queues in the order of arrival, with numbers from one up to the next
one. -/
def Queued (next : Nat) (levels : ModelLevels) : Prop :=
  ∀ level ∈ levels, (stamps level.2).Pairwise (· < ·) ∧ ∀ stamp ∈ stamps level.2, 1 ≤ stamp ∧ stamp < next

/-- A later bound on the sequence numbers is a weaker one. -/
theorem Queued.mono {later : Nat} (h : Queued next levels) (hle : next ≤ later) : Queued later levels := by
  intro level hlevel
  refine ⟨(h level hlevel).1, fun stamp hstamp => ?_⟩
  have := (h level hlevel).2 stamp hstamp
  omega

/-- Queues that lost orders, or kept them, stay in order. -/
theorem Queued.of_sublist (h : Queued next levels)
    (hsub : ∀ level' ∈ levels', ∃ level ∈ levels, (stamps level'.2).Sublist (stamps level.2)) :
    Queued next levels' := by
  intro level' hlevel'
  obtain ⟨level, hlevel, hstamps⟩ := hsub level' hlevel'
  obtain ⟨hsorted, hrange⟩ := h level hlevel
  exact ⟨hsorted.sublist hstamps, fun stamp hstamp => hrange stamp (hstamps.subset hstamp)⟩

/-- Matching takes makers from the front of a queue and may shorten the next,
so what is left carries some of the old stamps in their old order. -/
theorem stamps_matchQueue (price : PriceTicks) (queue : List ModelOrder) (remaining : Quantity) :
    (stamps (matchQueue price queue remaining).2.1).Sublist (stamps queue) := by
  induction queue generalizing remaining with
  | nil => simp [matchQueue]
  | cons maker rest ih =>
      unfold matchQueue
      split
      · exact List.Sublist.refl _
      split
      · exact List.Sublist.refl _
      · exact (ih _).cons _

/-- Matching a side keeps its queues in the order of their stamps. -/
theorem Queued.matchLevels (h : Queued next levels) (taker : Side) (limit : PriceTicks) (remaining : Quantity) :
    Queued next (matchLevels taker limit levels remaining).2.1 := by
  induction levels generalizing remaining with
  | nil =>
      intro level hlevel
      simp [HftEngine.matchLevels] at hlevel
  | cons level rest ih =>
      obtain ⟨price, queue⟩ := level
      have hrest : Queued next rest := fun level hlevel => h level (by simp [hlevel])
      unfold HftEngine.matchLevels
      split
      · exact h
      · intro level hlevel
        simp only at hlevel
        split at hlevel
        · exact ih hrest _ level hlevel
        · rcases List.mem_cons.mp hlevel with rfl | hmem
          · have hstamps := stamps_matchQueue price queue remaining
            obtain ⟨hsorted, hrange⟩ := h (price, queue) (by simp)
            exact ⟨hsorted.sublist hstamps, fun stamp hstamp => hrange stamp (hstamps.subset hstamp)⟩
          · exact ih hrest _ level hmem

/-- Taking an order out keeps the others in order. -/
theorem Queued.removeOrder (h : Queued next levels) (id : OrderId) : Queued next (removeOrder id levels) := by
  apply h.of_sublist
  clear h
  induction levels with
  | nil =>
      intro level hlevel
      simp [HftEngine.removeOrder] at hlevel
  | cons level rest ih =>
      obtain ⟨price, queue⟩ := level
      intro level' hlevel'
      unfold HftEngine.removeOrder at hlevel'
      split at hlevel'
      · simp only at hlevel'
        split at hlevel'
        · exact ⟨level', by simp [hlevel'], List.Sublist.refl _⟩
        · rcases List.mem_cons.mp hlevel' with rfl | hmem
          · exact ⟨(price, queue), by simp, List.Sublist.map _ List.eraseP_sublist⟩
          · exact ⟨level', by simp [hmem], List.Sublist.refl _⟩
      · rcases List.mem_cons.mp hlevel' with rfl | hmem
        · exact ⟨(price, queue), by simp, List.Sublist.refl _⟩
        · obtain ⟨level, hlevel, hstamps⟩ := ih level' hmem
          exact ⟨level, by simp [hlevel], hstamps⟩

/-- A reduction in place keeps the stamp and the place of an order. -/
theorem Queued.setQuantity (h : Queued next levels) (id : OrderId) (quantity : Quantity) :
    Queued next (setQuantity id quantity levels) := by
  apply h.of_sublist
  intro level' hlevel'
  obtain ⟨level, hlevel, rfl⟩ := List.mem_map.mp hlevel'
  have hsame : stamps (level.2.map fun order => if order.id = id then { order with quantity := quantity } else order)
      = stamps level.2 := by
    rw [stamps, List.map_map]
    refine List.map_congr_left fun order _ => ?_
    simp only [Function.comp_apply]
    split <;> rfl
  refine ⟨level, hlevel, ?_⟩
  rw [hsame]

/-- An order with the next number joins the back of its queue. -/
theorem Queued.addOrder (h : Queued order.sequence.val levels) (hfirst : 1 ≤ order.sequence.val)
    (hlater : order.sequence.val < next) (descending : Bool) :
    Queued next (addOrder descending price order levels) := by
  have halone : (stamps [order]).Pairwise (· < ·) ∧ ∀ stamp ∈ stamps [order], 1 ≤ stamp ∧ stamp < next := by
    simp [stamps, hfirst, hlater]
  induction levels with
  | nil =>
      intro level hlevel
      simp only [HftEngine.addOrder, List.mem_singleton] at hlevel
      subst hlevel
      exact halone
  | cons level rest ih =>
      obtain ⟨listed, queue⟩ := level
      have hold : Queued next ((listed, queue) :: rest) := h.mono hlater.le
      have hrest : Queued order.sequence.val rest := fun level hlevel => h level (by simp [hlevel])
      unfold HftEngine.addOrder
      split
      · intro level hlevel
        rcases List.mem_cons.mp hlevel with rfl | hmem
        · obtain ⟨hsorted, hrange⟩ := h (listed, queue) (by simp)
          simp only [stamps, List.map_append, List.pairwise_append, List.mem_append] at hsorted hrange ⊢
          refine ⟨⟨hsorted, by simp, ?_⟩, ?_⟩
          · intro stamp hstamp last hlast
            simp only [List.map_cons, List.map_nil, List.mem_singleton] at hlast
            rw [hlast]
            exact (hrange stamp hstamp).2
          · rintro stamp (hstamp | hstamp)
            · have := hrange stamp hstamp
              omega
            · exact halone.2 stamp hstamp
        · exact hold level (by simp [hmem])
      split
      · intro level hlevel
        rcases List.mem_cons.mp hlevel with rfl | hmem
        · exact hold _ (by simp)
        · exact ih hrest level hmem
      · intro level hlevel
        rcases List.mem_cons.mp hlevel with rfl | hmem
        · exact halone
        · exact hold level hmem

/-! ### Books -/

/-- Queues in order of arrival, on both sides, and no number twice. -/
structure LogicalBook.Stamped (logical : LogicalBook) (next : Nat) : Prop where
  queued : ∀ side, Queued next (logical.levels side)
  distinct : (logical.orders.map fun entry => entry.2.2.sequence).Nodup

namespace LogicalBook.Stamped

/-- A book stamped below a number is stamped below every later one. -/
theorem mono {later : Nat} (h : logical.Stamped next) (hle : next ≤ later) : logical.Stamped later :=
  ⟨fun side => (h.queued side).mono hle, h.distinct⟩

/-- The stamp of every resting order is a sequence number that was already
given out. -/
theorem range (h : logical.Stamped next) {entry : BookEntry} (hentry : entry ∈ logical.orders) :
    1 ≤ entry.2.2.sequence.val ∧ entry.2.2.sequence.val < next := by
  obtain ⟨side, price, order⟩ := entry
  obtain ⟨queue, hlevel, hmem⟩ := mem_orders.mp hentry
  exact (h.queued side _ hlevel).2 _ (List.mem_map_of_mem hmem)

/-- A number that comes next is carried by no order. -/
theorem absent {sequence : SequenceNumber} (h : logical.Stamped sequence.val) :
    sequence ∉ logical.orders.map fun entry => entry.2.2.sequence := by
  intro hmem
  obtain ⟨entry, hentry, heq⟩ := List.mem_map.mp hmem
  have := (h.range hentry).2
  rw [heq] at this
  exact lt_irrefl _ this

end LogicalBook.Stamped

/-- An empty book is stamped below every number. -/
theorem stamped_new (instrument : InstrumentId) (next : Nat) : (LogicalBook.new instrument).Stamped next := by
  refine ⟨?_, List.nodup_nil⟩
  intro side level hlevel
  cases side <;> cases hlevel

/-- Replacing the levels of one side needs only that side's queues in order. -/
theorem queued_setLevels (side : Side) (h : ∀ side, Queued next (logical.levels side)) (hlevels : Queued next levels) :
    ∀ side', Queued next ((logical.setLevels side levels).levels side') := by
  intro side'
  rw [LogicalBook.levels_setLevels]
  split
  · exact hlevels
  · exact h side'

/-- Fills drop numbers and change none. -/
theorem sequences_fillEntries (fills : List ModelFill) (entries : List BookEntry) :
    ((fillEntries fills entries).map fun entry => entry.2.2.sequence).Sublist
      (entries.map fun entry => entry.2.2.sequence) := by
  induction fills generalizing entries with
  | nil => exact List.Sublist.refl _
  | cons fill fills ih =>
      exact (ih _).trans (sublist_filterMap_fillEntry fun hfill => (fillEntry_kept hfill).2.2.2.2)

/-- The levels an accepted order leaves: matched on one side, the remainder
added on the other. -/
theorem submit_levels {order : NewOrder} {answer : MatchSummary × List ModelFill}
    (h : logical.submit L O order N = some (.ok answer, logical')) :
    ∃ resting, (logical.setLevels order.side.opposite (matchLevels order.side order.price
      (logical.levels order.side.opposite) order.quantity).2.1).restRemainder L O order resting = some logical' := by
  obtain ⟨summary, fills⟩ := answer
  obtain ⟨remaining, makers, matched⟩ := submit_matched h
  refine ⟨if order.timeInForce = .ioc then 0 else remaining, ?_⟩
  rw [matched.matched]
  exact matched.rested

/-- The levels an accepted amend leaves: reduced in place, or moved behind the
destination's queue. -/
theorem replace_levels {request : ReplaceOrder} {replaced : ReplacedOrder}
    (h : logical.replace L O request = (.ok replaced, logical')) :
    ∃ side, logical' = logical.setLevels side (setQuantity request.orderId request.quantity (logical.levels side)) ∨
      logical' = (logical.remove side request.orderId).rest side request.price (LogicalBook.amended request) := by
  unfold LogicalBook.replace at h
  split at h
  · cases h
  cases hfind : logical.find request.orderId with
  | none =>
      rw [hfind] at h
      cases h
  | some entry =>
      obtain ⟨side, price, old⟩ := entry
      rw [hfind] at h
      simp only at h
      split at h
      · cases h
      split at h
      · cases h
      split at h
      · cases h
      split at h
      · cases h
        exact ⟨side, .inl rfl⟩
      · split at h
        · cases h
        · cases h
          exact ⟨side, .inr rfl⟩

namespace LogicalBook.Stamped

/-- An order that rests behind its queue carries the largest stamp so far, so
the queue stays in order. -/
theorem rest (side : Side) (price : PriceTicks) (hqueued : ∀ side, Queued order.sequence.val (logical.levels side))
    (hfirst : 1 ≤ order.sequence.val) (hlater : order.sequence.val < next) :
    ∀ side', Queued next ((logical.rest side price order).levels side') :=
  queued_setLevels side (fun side => (hqueued side).mono hlater.le) ((hqueued side).addOrder hfirst hlater _)

/-- Taking an order off the book keeps the stamps. -/
theorem remove (hqueued : ∀ side, Queued next (logical.levels side)) (side : Side) (id : OrderId) :
    ∀ side', Queued next ((logical.remove side id).levels side') :=
  queued_setLevels side hqueued ((hqueued side).removeOrder id)

/-- A submission keeps the stamps. The remainder, if one rests, is stamped with
the number of its command. -/
theorem submit {order : NewOrder} {result : Except RejectReason (MatchSummary × List ModelFill)}
    (h : logical.Stamped order.sequence.val) (wf : logical.WellFormed) (hfirst : 1 ≤ order.sequence.val)
    (hlater : order.sequence.val < next) (hsubmit : logical.submit L O order N = some (result, logical')) :
    logical'.Stamped next := by
  cases result with
  | error reason =>
      rw [submit_refused hsubmit]
      exact h.mono hlater.le
  | ok answer =>
      obtain ⟨resting, hrest⟩ := submit_levels hsubmit
      obtain ⟨summary, fills⟩ := answer
      obtain ⟨kept, _, submitted⟩ := submit_effect wf hsubmit
      have hmatched := queued_setLevels order.side.opposite h.queued
        ((h.queued order.side.opposite).matchLevels order.side order.price order.quantity)
      refine ⟨?_, ?_⟩
      · unfold LogicalBook.restRemainder at hrest
        split at hrest
        · cases hrest
          exact fun side => (hmatched side).mono hlater.le
        split at hrest
        · cases hrest
          exact rest order.side order.price hmatched hfirst hlater
        · cases hrest
      · have hleft := sequences_fillEntries fills logical.orders
        rw [(submitted.orders.map _).nodup_iff, List.map_append]
        unfold restEntries
        split
        · exact h.distinct.sublist hleft
        · exact List.nodup_cons.mpr ⟨fun hmem => h.absent (hleft.subset hmem), h.distinct.sublist hleft⟩

/-- An amend keeps the stamps: a reduction leaves the old one, and everything
else rests again with the number of its command. -/
theorem replace {request : ReplaceOrder} {result : Except RejectReason ReplacedOrder}
    (h : logical.Stamped request.sequence.val) (wf : logical.WellFormed) (hfirst : 1 ≤ request.sequence.val)
    (hlater : request.sequence.val < next) (hreplace : logical.replace L O request = (result, logical')) :
    logical'.Stamped next := by
  cases result with
  | error reason =>
      rw [replace_refused hreplace]
      exact h.mono hlater.le
  | ok replaced =>
      obtain ⟨side, price, old, sequence, amended⟩ := replace_effect wf hreplace
      have hothers : ((logical.orders.filter fun other => decide (other.2.2.id ≠ request.orderId)).map
          fun entry => entry.2.2.sequence).Sublist (logical.orders.map fun entry => entry.2.2.sequence) :=
        List.filter_sublist.map _
      refine ⟨?_, ?_⟩
      · obtain ⟨side, rfl | rfl⟩ := replace_levels hreplace
        · exact fun side' => (queued_setLevels side h.queued ((h.queued side).setQuantity _ _) side').mono hlater.le
        · exact rest side request.price (remove h.queued side request.orderId) hfirst hlater
      · rw [(amended.orders.map _).nodup_iff, List.map_cons, List.nodup_cons]
        refine ⟨?_, h.distinct.sublist hothers⟩
        rcases amended.sequence_eq with rfl | ⟨rfl, _⟩
        · exact fun hmem => h.absent (hothers.subset hmem)
        · have hsplit := (orders_split wf amended.found).map fun entry => entry.2.2.sequence
          exact (List.nodup_cons.mp (hsplit.nodup_iff.mp h.distinct)).1

/-- A cancel keeps the stamps. -/
theorem cancel {request : CancelOrder} {result : Except RejectReason CancelledOrder} (h : logical.Stamped next)
    (wf : logical.WellFormed) (hcancel : logical.cancel request = (result, logical')) : logical'.Stamped next := by
  cases result with
  | error reason =>
      rw [cancel_refused hcancel]
      exact h
  | ok cancelled =>
      obtain ⟨side, price, order, hfind, _, _, horders, _⟩ := cancel_effect wf hcancel
      refine ⟨?_, ?_⟩
      · unfold LogicalBook.cancel at hcancel
        split at hcancel
        · cases hcancel
        rw [hfind] at hcancel
        simp only at hcancel
        split at hcancel
        · cases hcancel
        · cases hcancel
          exact remove h.queued side request.orderId
      · rw [horders]
        exact h.distinct.sublist (List.filter_sublist.map _)

end LogicalBook.Stamped

end HftEngine
