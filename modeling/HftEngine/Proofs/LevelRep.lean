/-
Module: HftEngine.Proofs.LevelRep
Layer: Proofs
Purpose: The representation invariant of one price level and the effect of
  every level operation on it. A level represents a FIFO of slot-numbered
  orders; the order data carried by the FIFO leaves out links and index slots,
  which are tracked separately as the level's handles.
Imports: HftEngine.Spec.LogicalBook
Trusted boundary: none (fully proved)
Main exports: RestingOrder.view, LevelRep, PriceLevel.handle,
  LevelRep.pushTail_spec, LevelRep.unlink_spec, LevelRep.reduceQuantity_spec,
  LevelRep.liveOrders_eq
-/
import HftEngine.Spec.LogicalBook

namespace HftEngine

open Machine SlotArena

/-- The logical content of a stored order. -/
def RestingOrder.view (order : RestingOrder) : ModelOrder :=
  ⟨order.id, order.accountId, order.quantity, order.sequence⟩

/-- The id stored in a slot and the index cell recorded beside it. -/
def handleAt {O : Nat} (slots : Vector OrderSlot O) (slot : Nat) : Option (OrderId × U32) :=
  (liveAt slots slot).map fun order => (order.id, order.indexSlot)

/-- The handles of a level's slots. -/
def PriceLevel.handle {O : Nat} (level : PriceLevel O) : Nat → Option (OrderId × U32) :=
  handleAt level.slots

/-- The FIFO threaded through the slots of a level. -/
abbrev Threaded {O : Nat} (slots : Vector OrderSlot O) :=
  Linked RestingOrder.prev RestingOrder.next RestingOrder.view slots

/-- The level stores exactly the FIFO `nodes`; the slots not in it are the free
list. -/
structure LevelRep {O : Nat} (level : PriceLevel O) (nodes : List (Nat × ModelOrder))
    (free : List Nat) : Prop where
  threaded : Threaded level.slots none nodes none
  head : level.head = nodes.head?.map Prod.fst
  tail : level.tail = nodes.getLast?.map Prod.fst
  freeChain : FreeChain level.slots level.freeHead free
  partition : (nodes.map Prod.fst ++ free).Perm (List.range O)
  len : level.len = nodes.length
  aggregate : level.aggregateQuantity = (nodes.map fun node => node.2.quantity.val).sum

variable {O : Nat} {level : PriceLevel O} {nodes first second : List (Nat × ModelOrder)}
  {free : List Nat} {slot : Nat} {data : ModelOrder} {slots slots' : Vector OrderSlot O}

/-! ### Slot writes that keep handles -/

/-- Two arenas that differ in links and order data only. -/
structure SameShape (slots slots' : Vector OrderSlot O) : Prop where
  handles : ∀ i, handleAt slots' i = handleAt slots i
  frees : ∀ i, freeAt slots' i = freeAt slots i

theorem SameShape.refl (slots : Vector OrderSlot O) : SameShape slots slots :=
  ⟨fun _ => rfl, fun _ => rfl⟩

/-- Two changes that keep handles and free links keep them together. -/
theorem SameShape.trans {slots'' : Vector OrderSlot O} (h : SameShape slots slots')
    (h' : SameShape slots' slots'') : SameShape slots slots'' :=
  ⟨fun i => (h'.handles i).trans (h.handles i), fun i => (h'.frees i).trans (h.frees i)⟩

/-- Storing an order gives its slot the order's handle and no other slot
one. -/
theorem handleAt_setSlot_live {order : RestingOrder} {i : Nat} (hslot : slot < O) :
    handleAt (setSlot slots slot (.live order)) i
      = if i = slot then some (order.id, order.indexSlot) else handleAt slots i := by
  unfold handleAt
  rw [liveAt_setSlot_live]
  by_cases h : i = slot
  · simp [h, hslot]
  · simp [h, Ne.symm h]

/-- Overwriting a live slot by an order with the same id and index slot. -/
theorem sameShape_setSlot {old order : RestingOrder} (hlive : liveAt slots slot = some old)
    (hid : order.id = old.id) (hindex : order.indexSlot = old.indexSlot) :
    SameShape slots (setSlot slots slot (.live order)) := by
  have hslot := lt_of_liveAt hlive
  refine ⟨fun i => ?_, fun i => ?_⟩
  · rw [handleAt_setSlot_live hslot]
    by_cases h : i = slot
    · simp [h, handleAt, hlive, hid, hindex]
    · simp [h]
  · rw [freeAt_setSlot_live]
    by_cases h : slot = i
    · subst h
      simp [hslot, freeAt_eq_none_of_liveAt hlive]
    · simp [h]

/-! ### Facts read off the invariant -/

namespace LevelRep

/-- No slot of a level is used twice, neither in the queue nor in the free
list. -/
theorem nodup (rep : LevelRep level nodes free) : (nodes.map Prod.fst ++ free).Nodup :=
  rep.partition.nodup_iff.mpr List.nodup_range

theorem slot_lt (rep : LevelRep level nodes free) (slot : Nat) (h : slot ∈ nodes.map Prod.fst) : slot < O :=
  List.mem_range.mp (rep.partition.subset (List.mem_append_left _ h))

theorem free_lt (rep : LevelRep level nodes free) (slot : Nat) (h : slot ∈ free) : slot < O :=
  List.mem_range.mp (rep.partition.subset (List.mem_append_right _ h))

/-- Every slot is in the queue or free. -/
theorem length_add (rep : LevelRep level nodes free) : nodes.length + free.length = O := by
  simpa using rep.partition.length_eq

/-- A node of the queue is a live slot that holds the order as recorded. -/
theorem live (rep : LevelRep level nodes free) (slot : Nat) (data : ModelOrder) (h : (slot, data) ∈ nodes) :
    ∃ order, level.getLive slot = some order ∧ order.view = data := rep.threaded.isLive h

/-- The live slots are the nodes. -/
theorem mem_of_live (rep : LevelRep level nodes free) {order : RestingOrder}
    (h : level.getLive slot = some order) : (slot, order.view) ∈ nodes := by
  have hmem : slot ∈ nodes.map Prod.fst ++ free :=
    rep.partition.symm.subset (List.mem_range.mpr (lt_of_liveAt h))
  rcases List.mem_append.mp hmem with hnode | hfree
  · obtain ⟨⟨i, data⟩, hi, rfl⟩ := List.mem_map.mp hnode
    obtain ⟨order', hlive, hview⟩ := rep.live _ _ hi
    rw [h] at hlive
    cases hlive
    rwa [hview]
  · obtain ⟨link, hlink⟩ := rep.freeChain.isFree hfree
    have hnone := liveAt_eq_none_of_freeAt hlink
    rw [PriceLevel.getLive, hnone] at h
    cases h

/-- The slots with a handle are those of the queue. -/
theorem handle_isSome_iff (rep : LevelRep level nodes free) :
    (level.handle slot).isSome ↔ slot ∈ nodes.map Prod.fst := by
  constructor
  · intro h
    simp only [PriceLevel.handle, handleAt, Option.isSome_map] at h
    obtain ⟨order, hlive⟩ := Option.isSome_iff_exists.mp h
    exact List.mem_map.mpr ⟨_, rep.mem_of_live hlive, rfl⟩
  · intro h
    obtain ⟨⟨i, data⟩, hi, rfl⟩ := List.mem_map.mp h
    obtain ⟨order, hlive, _⟩ := rep.live _ _ hi
    rw [PriceLevel.getLive] at hlive
    simp [PriceLevel.handle, handleAt, hlive]

/-- Walking the level yields its FIFO. -/
theorem liveOrders_eq (rep : LevelRep level nodes free) :
    level.liveOrders.map RestingOrder.view = nodes.map Prod.snd := by
  have hlength := rep.length_add
  rw [PriceLevel.liveOrders, rep.head]
  exact walk_of_linked rep.threaded (by omega)

end LevelRep

/-- A new level is empty. -/
theorem levelRep_new (price : PriceTicks) : LevelRep (PriceLevel.new price : PriceLevel O) [] (List.range O) where
  threaded := trivial
  head := rfl
  tail := rfl
  freeChain := freeChain_freshSlots
  partition := by simp
  len := rfl
  aggregate := rfl

/-- A new level has no orders, hence no handles. -/
theorem handle_new (price : PriceTicks) (slot : Nat) :
    (PriceLevel.new price : PriceLevel O).handle slot = none := by
  rw [← Option.not_isSome_iff_eq_none, (levelRep_new price).handle_isSome_iff]
  simp

/-! ### Appending -/

/-- A level without a free slot takes no order. -/
theorem LevelRep.pushTail_of_full (rep : LevelRep level nodes []) (order : RestingOrder) :
    level.pushTail order = none := by
  have hhead : level.freeHead = none := rep.freeChain
  simp [PriceLevel.pushTail, hhead]

/-- Linking the tail of a FIFO to a slot that follows it. -/
theorem LevelRep.linkTail_spec (rep : LevelRep level nodes free) (slot : Nat) :
    ∃ linked, level.linkTail slot = some linked ∧ Threaded linked none nodes (some slot) ∧
      SameShape level.slots linked := by
  rcases List.eq_nil_or_concat nodes with rfl | ⟨front, ⟨tail, last⟩, hnodes⟩
  · have htail : level.tail = none := by simpa using rep.tail
    exact ⟨level.slots, by simp [PriceLevel.linkTail, htail], trivial, SameShape.refl _⟩
  · rw [List.concat_eq_append] at hnodes
    subst hnodes
    have htail : level.tail = some tail := by simpa using rep.tail
    obtain ⟨order, hlive, hview⟩ := rep.live tail last (by simp)
    have hnodup := rep.nodup
    refine ⟨setSlot level.slots tail (.live { order with next := some slot }), ?_, ?_, ?_⟩
    · simp [PriceLevel.linkTail, htail, hlive]
    · refine rep.threaded.retarget_next ?_ hlive rfl rfl rfl
      simp only [List.map_append, List.map_cons, List.map_nil, List.append_assoc] at hnodup
      have := List.nodup_append.mp hnodup
      intro hmem
      exact this.2.2 tail hmem tail (by simp) rfl
    · exact sameShape_setSlot hlive rfl rfl

/-- Appending takes the first free slot. -/
theorem LevelRep.pushTail_spec (rep : LevelRep level nodes (slot :: free)) (order : RestingOrder) :
    ∃ level', level.pushTail order = some (slot, level') ∧
      LevelRep level' (nodes ++ [(slot, order.view)]) free ∧ level'.price = level.price ∧
      level'.handle = Function.update level.handle slot (some (order.id, order.indexSlot)) ∧
      ∃ stored, level'.getLive slot = some stored := by
  obtain ⟨hhead, link, hlink, hchain⟩ := rep.freeChain
  have hslot := rep.free_lt slot (by simp)
  have hlength := rep.length_add
  have hnodup := rep.nodup
  obtain ⟨linked, hlinked, hthreaded, hshape⟩ := rep.linkTail_spec slot
  have hfresh : slot ∉ nodes.map Prod.fst := by
    intro hmem
    exact (List.nodup_append.mp hnodup).2.2 slot hmem slot (by simp) rfl
  have hfree : slot ∉ free := (List.nodup_cons.mp (List.nodup_append.mp hnodup).2.1).1
  have hpush : level.pushTail order = some (slot,
      { level with
        slots := setSlot linked slot (.live { order with prev := level.tail, next := none })
        freeHead := link
        head := if level.tail.isNone then some slot else level.head
        tail := some slot
        len := level.len + 1
        aggregateQuantity := level.aggregateQuantity + order.quantity.val }) := by
    simp only [PriceLevel.pushTail, hhead, hlink, hlinked, Option.bind_eq_bind, Option.bind_some]
    rw [if_neg (by rw [rep.len]; simp at hlength; omega)]
    rfl
  refine ⟨_, hpush, ?_, rfl, ?_, ?_⟩
  · have hlive : ∀ i ∈ nodes.map Prod.fst, ∀ new : OrderSlot,
        liveAt (setSlot linked slot new) i = liveAt linked i := by
      intro i hi new
      refine liveAt_setSlot_of_ne ?_
      rintro rfl
      exact hfresh hi
    constructor
    · refine Linked.append_iff.mpr ⟨hthreaded.congr fun i hi => hlive i hi _,
        ⟨{ order with prev := level.tail, next := none }, by simp [liveAt_setSlot_live, hslot], ?_, rfl,
          rfl⟩, trivial⟩
      simpa using rep.tail
    · cases nodes with
      | nil => simp [rep.tail]
      | cons node rest =>
          have htail : level.tail.isNone = false := by
            rw [rep.tail]
            cases hlast : (node :: rest).getLast? with
            | none => simp at hlast
            | some last => rfl
          simp [htail, rep.head]
    · simp
    · refine hchain.congr fun i hi => ?_
      rw [freeAt_setSlot_of_ne (by rintro rfl; exact hfree hi), hshape.frees]
    · refine List.Perm.trans ?_ rep.partition
      simp
    · simp [rep.len]
    · simp [rep.aggregate, RestingOrder.view]
  · funext i
    unfold PriceLevel.handle
    rw [handleAt_setSlot_live hslot]
    by_cases h : i = slot
    · subst h
      simp
    · rw [if_neg h, Function.update_of_ne h, hshape.handles]
  · exact ⟨_, by simp [PriceLevel.getLive, liveAt_setSlot_live, hslot]; rfl⟩

/-! ### Unlinking -/

/-- Redirecting the forward link of a FIFO's last node; without nodes there is
nothing to redirect. -/
theorem retarget_last {after : Option Nat} (link : Option Nat) (h : Threaded slots none nodes after)
    (hnodup : (nodes.map Prod.fst).Nodup) :
    ∃ slots', (match nodes.getLast?.map Prod.fst with
        | none => slots
        | some prev => modifyLive slots prev fun order => { order with next := link }) = slots' ∧
      Threaded slots' none nodes link ∧ SameShape slots slots' ∧
      ∀ i, i ∉ nodes.map Prod.fst → liveAt slots' i = liveAt slots i := by
  rcases List.eq_nil_or_concat nodes with rfl | ⟨front, ⟨last, data⟩, hnodes⟩
  · exact ⟨slots, rfl, trivial, SameShape.refl _, fun _ _ => rfl⟩
  · rw [List.concat_eq_append] at hnodes
    subst hnodes
    obtain ⟨order, hlive, _⟩ := h.isLive (i := last) (d := data) (by simp)
    refine ⟨setSlot slots last (.live { order with next := link }), by simp [modifyLive, hlive], ?_,
      sameShape_setSlot hlive rfl rfl, ?_⟩
    · refine h.retarget_next ?_ hlive rfl rfl rfl
      intro hmem
      rw [List.map_append, List.nodup_append] at hnodup
      exact hnodup.2.2 last hmem last (by simp) rfl
    · intro i hi
      refine liveAt_setSlot_of_ne ?_
      rintro rfl
      simp at hi

/-- Redirecting the backward link of a FIFO's first node. -/
theorem retarget_first {before : Option Nat} (link : Option Nat) (h : Threaded slots before nodes none)
    (hnodup : (nodes.map Prod.fst).Nodup) :
    ∃ slots', (match nodes.head?.map Prod.fst with
        | none => slots
        | some next => modifyLive slots next fun order => { order with prev := link }) = slots' ∧
      Threaded slots' link nodes none ∧ SameShape slots slots' ∧
      ∀ i, i ∉ nodes.map Prod.fst → liveAt slots' i = liveAt slots i := by
  cases nodes with
  | nil => exact ⟨slots, rfl, trivial, SameShape.refl _, fun _ _ => rfl⟩
  | cons node rest =>
      obtain ⟨first, data⟩ := node
      obtain ⟨order, hlive, _⟩ := h.isLive (i := first) (d := data) (by simp)
      refine ⟨setSlot slots first (.live { order with prev := link }), by simp [modifyLive, hlive], ?_,
        sameShape_setSlot hlive rfl rfl, ?_⟩
      · exact h.retarget_prev (List.nodup_cons.mp hnodup).1 hlive rfl rfl rfl
      · intro i hi
        refine liveAt_setSlot_of_ne ?_
        rintro rfl
        simp at hi

/-- Links of a represented level never dangle. -/
theorem LevelRep.not_dangling (rep : LevelRep level nodes free) {link : Option Nat}
    (h : ∀ i, link = some i → i ∈ nodes.map Prod.fst) : level.danglingLink link = false := by
  cases link with
  | none => rfl
  | some i =>
      obtain ⟨⟨j, data⟩, hj, rfl⟩ := List.mem_map.mp (h i rfl)
      obtain ⟨order, hlive, _⟩ := rep.live _ _ hj
      simp [PriceLevel.danglingLink, hlive]

/-- Unlinking a node hands its slot back to the free list. -/
theorem LevelRep.unlink_spec (rep : LevelRep level (first ++ (slot, data) :: second) free) :
    ∃ order level', level.unlink slot = some (order, level') ∧ level.getLive slot = some order ∧
      order.view = data ∧ LevelRep level' (first ++ second) (slot :: free) ∧
      level'.price = level.price ∧ level'.handle = Function.update level.handle slot none := by
  have hnodup := rep.nodup
  have hslot := rep.slot_lt slot (by simp)
  obtain ⟨hfirst, ⟨order, hlive, hprev, hnext, hview⟩, hsecond⟩ := Linked.append_iff.mp rep.threaded
  -- the two neighbour links of the removed node
  have hprev' : order.prev = first.getLast?.map Prod.fst := by simpa using hprev
  have hnext' : order.next = second.head?.map Prod.fst := by simpa using hnext
  simp only [List.map_append, List.map_cons, List.append_assoc, List.cons_append] at hnodup
  obtain ⟨hn1, hn2, hdisj⟩ := List.nodup_append.mp hnodup
  obtain ⟨hfresh, hn3⟩ := List.nodup_cons.mp hn2
  have hn4 := (List.nodup_append.mp hn3).1
  obtain ⟨slots1, hslots1, hthread1, hshape1, hsame1⟩ := retarget_last order.next hfirst hn1
  have hkeep : ∀ i ∈ second.map Prod.fst, liveAt slots1 i = liveAt level.slots i := by
    intro i hi
    refine hsame1 i fun hmem => hdisj i hmem i ?_ rfl
    simp only [List.mem_cons, List.mem_append]
    exact .inr (.inl hi)
  obtain ⟨slots2, hslots2, hthread2, hshape2, hsame2⟩ :=
    retarget_first order.prev (hsecond.congr hkeep) hn4
  have hshape := hshape1.trans hshape2
  have hunlink : level.unlink slot = some (order,
      { level with
        slots := setSlot slots2 slot (.free level.freeHead)
        head := if order.prev.isNone then order.next else level.head
        tail := if order.next.isNone then order.prev else level.tail
        freeHead := some slot
        len := level.len - 1
        aggregateQuantity := level.aggregateQuantity - order.quantity.val }) := by
    have hgood1 : level.danglingLink order.prev = false := by
      refine rep.not_dangling fun i hi => ?_
      rw [hprev'] at hi
      obtain ⟨node, hnode, rfl⟩ := Option.map_eq_some_iff.mp hi
      simp only [List.map_append, List.mem_append]
      exact .inl (List.mem_map_of_mem (List.mem_of_getLast? hnode))
    have hgood2 : level.danglingLink order.next = false := by
      refine rep.not_dangling fun i hi => ?_
      rw [hnext'] at hi
      obtain ⟨node, hnode, rfl⟩ := Option.map_eq_some_iff.mp hi
      simp only [List.map_append, List.map_cons, List.mem_append, List.mem_cons]
      exact .inr (.inr (List.mem_map_of_mem (List.mem_of_head? hnode)))
    have hgetLive : level.getLive slot = some order := hlive
    rw [← hprev'] at hslots1
    rw [← hnext'] at hslots2
    -- the counters of the level cover the removed node
    have hlen : 1 ≤ level.len := by
      rw [rep.len]
      simp
      omega
    have haggregate : order.quantity.val ≤ level.aggregateQuantity := by
      have hquantity : order.quantity = data.quantity := by rw [← hview]; rfl
      rw [rep.aggregate, hquantity]
      simp
      omega
    simp only [PriceLevel.unlink, hgetLive, Option.bind_eq_bind, Option.bind_some, hgood1, hgood2,
      guardedSub_of_le hlen, guardedSub_of_le haggregate]
    rw [← hslots2, ← hslots1]
    rfl
  have hfree : slot ∉ free := fun hmem => hfresh (List.mem_append_right _ hmem)
  have hfirstSlot : slot ∉ first.map Prod.fst := fun hmem => hdisj slot hmem slot (by simp) rfl
  have hsecondSlot : slot ∉ second.map Prod.fst := fun hmem => hfresh (List.mem_append_left _ hmem)
  have hkeep2 : ∀ i ∈ first.map Prod.fst, liveAt slots2 i = liveAt slots1 i := by
    intro i hi
    refine hsame2 i fun hmem => hdisj i hi i ?_ rfl
    simp only [List.mem_cons, List.mem_append]
    exact .inr (.inl hmem)
  refine ⟨order, _, hunlink, hlive, hview, ?_, rfl, ?_⟩
  · constructor
    · refine Linked.append_iff.mpr ⟨?_, ?_⟩
      · have hpart : Threaded slots2 none first order.next := hthread1.congr hkeep2
        rw [hnext'] at hpart
        simpa using hpart.congr fun i hi =>
          liveAt_setSlot_of_ne (by rintro rfl; exact hfirstSlot hi)
      · rw [hprev'] at hthread2
        simpa using hthread2.congr fun i hi =>
          liveAt_setSlot_of_ne (by rintro rfl; exact hsecondSlot hi)
    · cases first with
      | nil => simp [hprev', hnext']
      | cons node rest =>
          have hsome : order.prev.isNone = false := by
            rw [hprev']
            cases hlast : (node :: rest).getLast? with
            | none => simp at hlast
            | some last => rfl
          simp [hsome, rep.head]
    · rcases List.eq_nil_or_concat second with rfl | ⟨front, last, rfl⟩
      · simp [hprev', hnext']
      · have hsome : order.next.isNone = false := by
          rw [hnext']
          cases front <;> simp
        have hlast : ∀ (xs ys : List (Nat × ModelOrder)), ((xs ++ ys.concat last).getLast?) = some last := by
          intro xs ys
          rw [List.concat_eq_append, ← List.append_assoc]
          simp
        have htail := rep.tail
        rw [show first ++ (slot, data) :: front.concat last
          = (first ++ (slot, data) :: front) ++ [].concat last by simp, hlast] at htail
        simp [hsome, htail]
    · refine ⟨rfl, level.freeHead, by simp [freeAt_setSlot_free, hslot], ?_⟩
      refine rep.freeChain.congr fun i hi => ?_
      rw [freeAt_setSlot_of_ne (by rintro rfl; exact hfree hi), hshape.frees]
    · refine List.Perm.trans ?_ rep.partition
      simp only [List.map_append, List.map_cons, List.append_assoc, List.cons_append]
      exact List.Perm.append_left _ List.perm_middle
    · have := rep.len
      simp at this ⊢
      omega
    · have hagg := rep.aggregate
      have hquantity : order.quantity = data.quantity := by rw [← hview]; rfl
      simp at hagg ⊢
      rw [hquantity]
      omega
  · funext i
    unfold PriceLevel.handle handleAt
    by_cases h : i = slot
    · subst h
      simp [liveAt_setSlot_free, hslot]
    · rw [liveAt_setSlot_of_ne (Ne.symm h), Function.update_of_ne h]
      exact hshape.handles i

/-! ### In-place rewrites -/

/-- Reducing an order keeps its place. -/
theorem LevelRep.reduceQuantity_spec (rep : LevelRep level (first ++ (slot, data) :: second) free)
    {quantity : Quantity} (hle : quantity.val ≤ data.quantity.val) :
    ∃ level', level.reduceQuantity slot quantity = some level' ∧
      LevelRep level' (first ++ (slot, { data with quantity := satSub data.quantity quantity }) :: second)
        free ∧
      level'.price = level.price ∧ level'.handle = level.handle := by
  obtain ⟨order, hlive, hview⟩ := rep.live slot data (by simp)
  have hnodup := rep.nodup
  have hquantity : order.quantity = data.quantity := by rw [← hview]; rfl
  have hsub : checkedSub order.quantity quantity = some (satSub data.quantity quantity) := by
    rw [checkedSub_eq_some, hquantity, satSub_val]
    omega
  have hreduce : level.reduceQuantity slot quantity = some
      { level with
        slots := setSlot level.slots slot
          (.live { order with quantity := satSub data.quantity quantity })
        aggregateQuantity := level.aggregateQuantity - quantity.val } := by
    have haggregate : quantity.val ≤ level.aggregateQuantity := by
      rw [rep.aggregate]
      simp
      omega
    simp [PriceLevel.reduceQuantity, hlive, hsub, guardedSub_of_le haggregate]
  have hshape : SameShape level.slots (setSlot level.slots slot
      (.live { order with quantity := satSub data.quantity quantity })) :=
    sameShape_setSlot hlive rfl rfl
  refine ⟨_, hreduce, ?_, rfl, funext hshape.handles⟩
  constructor
  · have hrewrite := rep.threaded.rewrite
      { order with quantity := satSub data.quantity quantity } ?_ hlive rfl rfl
    · have hdata : RestingOrder.view { order with quantity := satSub data.quantity quantity }
          = { data with quantity := satSub data.quantity quantity } := by
        rw [← hview]
        rfl
      rwa [hdata] at hrewrite
    · simp only [List.map_append, List.map_cons, List.append_assoc, List.cons_append] at hnodup
      obtain ⟨_, hn2, hdisj⟩ := List.nodup_append.mp hnodup
      rw [List.map_append, List.mem_append]
      rintro (hmem | hmem)
      · exact hdisj slot hmem slot (by simp) rfl
      · exact (List.nodup_cons.mp hn2).1 (List.mem_append_left _ hmem)
  · have hhead := rep.head
    cases first <;> simpa using hhead
  · have htail := rep.tail
    rcases List.eq_nil_or_concat second with rfl | ⟨front, last, rfl⟩
    · simpa using htail
    · simpa [List.getLast?_append, List.getLast?_cons] using htail
  · exact rep.freeChain.congr fun i _ => hshape.frees i
  · simpa using rep.partition
  · simpa using rep.len
  · have hagg := rep.aggregate
    simp at hagg ⊢
    omega

/-- Recording an index slot changes one handle only. -/
theorem LevelRep.setIndexSlot_spec (rep : LevelRep level nodes free) (slot : Nat) (indexSlot : U32) :
    LevelRep (level.setIndexSlot slot indexSlot) nodes free ∧
      (level.setIndexSlot slot indexSlot).handle
        = Function.update level.handle slot ((level.handle slot).map fun h => (h.1, indexSlot)) := by
  cases hlive : liveAt level.slots slot with
  | none =>
      have hsame : level.setIndexSlot slot indexSlot = level := by
        simp [PriceLevel.setIndexSlot, modifyLive, hlive]
      rw [hsame]
      refine ⟨rep, ?_⟩
      have hnone : level.handle slot = none := by simp [PriceLevel.handle, handleAt, hlive]
      simp [hnone]
  | some order =>
      have hslot := lt_of_liveAt hlive
      have heq : level.setIndexSlot slot indexSlot
          = { level with
              slots := setSlot level.slots slot (.live { order with indexSlot := indexSlot }) } := by
        simp [PriceLevel.setIndexSlot, modifyLive, hlive]
      rw [heq]
      constructor
      · have hmem := rep.mem_of_live hlive
        obtain ⟨front, back, rfl⟩ := List.append_of_mem hmem
        have hnodup := rep.nodup
        constructor
        · refine rep.threaded.rewrite { order with indexSlot := indexSlot } ?_ hlive rfl rfl
          simp only [List.map_append, List.map_cons, List.append_assoc, List.cons_append] at hnodup
          obtain ⟨_, hn2, hdisj⟩ := List.nodup_append.mp hnodup
          rw [List.map_append, List.mem_append]
          rintro (hmem | hmem)
          · exact hdisj slot hmem slot (by simp) rfl
          · exact (List.nodup_cons.mp hn2).1 (List.mem_append_left _ hmem)
        · exact rep.head
        · exact rep.tail
        · refine rep.freeChain.congr fun i hi => ?_
          rw [freeAt_setSlot_of_ne]
          rintro rfl
          obtain ⟨link, hlink⟩ := rep.freeChain.isFree hi
          rw [freeAt_eq_none_of_liveAt hlive] at hlink
          cases hlink
        · exact rep.partition
        · exact rep.len
        · exact rep.aggregate
      · funext i
        unfold PriceLevel.handle
        rw [handleAt_setSlot_live hslot]
        by_cases h : i = slot
        · subst h
          simp [handleAt, hlive]
        · rw [if_neg h, Function.update_of_ne h]

end HftEngine
