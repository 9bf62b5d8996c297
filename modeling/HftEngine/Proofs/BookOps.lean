/-
Module: HftEngine.Proofs.BookOps
Layer: Proofs
Purpose: What the storage operations of the book do to its representation:
  looking an order up by id, taking an order out (in both orders the source
  does it), reducing it in place, and appending a new one.
Imports: HftEngine.Proofs.BookRep
Trusted boundary: none (fully proved)
Main exports: BookRep.locate_eq, SideRep.storeOrDrop_spec,
  removeIndexEntry_spec, BookRep.restAtTail_spec
-/
import HftEngine.Proofs.BookRep

namespace HftEngine

open Machine SlotArena OpenAddressing

variable {L O : Nat} {book book' : OrderBook L O} {views : Side → List LevelView} {side : Side}
  {first second : List LevelView} {view : LevelView} {before after : List (Nat × ModelOrder)} {slot : Nat}
  {data : ModelOrder} {id : OrderId} {cell : U32} {location : OrderLocation}

/-! ### Handles -/

/-- Both sides are represented. -/
def SidesRep (book : OrderBook L O) (views : Side → List LevelView) : Prop :=
  ∀ side, SideRep book side (views side)

namespace SidesRep

/-- Every handle belongs to a node of a view. -/
theorem node_of_handle (rep : SidesRep book views) (h : book.handle location = some (id, cell)) :
    ∃ view ∈ views location.side, view.slot = location.levelIndex ∧
      ∃ data, (location.slot, data) ∈ view.nodes ∧ data.id = id := by
  unfold OrderBook.handle at h
  obtain ⟨level, hlevel, hhandle⟩ := Option.bind_eq_some_iff.mp h
  obtain ⟨view, hview, hslot, _, free, hrep⟩ := (rep location.side).view_of_getLevel hlevel
  refine ⟨view, hview, hslot, ?_⟩
  unfold PriceLevel.handle handleAt at hhandle
  obtain ⟨order, hlive, hpair⟩ := Option.map_eq_some_iff.mp hhandle
  cases hpair
  exact ⟨order.view, hrep.mem_of_live hlive, rfl⟩

/-- Every node of a view has a handle. -/
theorem handle_of_node (rep : SidesRep book views) (hview : view ∈ views side)
    (hnode : (slot, data) ∈ view.nodes) :
    ∃ cell, book.handle ⟨side, view.slot, slot⟩ = some (data.id, cell) := by
  obtain ⟨level, free, hlevel, _, hrep⟩ := (rep side).stored view hview
  obtain ⟨order, hlive, rfl⟩ := hrep.live _ _ hnode
  refine ⟨order.indexSlot, ?_⟩
  rw [PriceLevel.getLive] at hlive
  simp [OrderBook.handle, hlevel, PriceLevel.handle, handleAt, hlive, RestingOrder.view]

/-- What touches neither levels nor side indices keeps the representation of
both sides. -/
theorem frame (rep : SidesRep book views) (hlevels : ∀ side i, book'.getLevel side i = book.getLevel side i)
    (hindex : ∀ side, book'.sideIndex side = book.sideIndex side) : SidesRep book' views := fun side =>
  (rep side).frame (hlevels side) (hindex side)

/-- Replacing the views of one side. -/
theorem of_update {replaced : List LevelView} (rep : SidesRep book views)
    (hside : SideRep book' side replaced)
    (hlevels : ∀ other, other ≠ side → ∀ i, book'.getLevel other i = book.getLevel other i)
    (hindex : ∀ other, other ≠ side → book'.sideIndex other = book.sideIndex other) :
    SidesRep book' (Function.update views side replaced) := by
  intro other
  by_cases h : other = side
  · subst h
    rw [Function.update_self]
    exact hside
  · rw [Function.update_of_ne h]
    exact (rep other).frame (hlevels other h) (hindex other h)

end SidesRep

/-! ### Looking an order up -/

namespace OrderBook

/-- Handles exist inside the book only. -/
theorem location_lt (h : (book.handle location).isSome) :
    location.levelIndex < L ∧ location.slot < O := by
  obtain ⟨⟨id, cell⟩, hhandle⟩ := Option.isSome_iff_exists.mp h
  unfold OrderBook.handle at hhandle
  obtain ⟨level, hlevel, hslot⟩ := Option.bind_eq_some_iff.mp hhandle
  refine ⟨OrderBook.lt_of_getLevel hlevel, ?_⟩
  unfold PriceLevel.handle handleAt at hslot
  obtain ⟨order, hlive, _⟩ := Option.map_eq_some_iff.mp hslot
  exact lt_of_liveAt hlive

/-- A location with a handle is one of the locations of the book. -/
theorem mem_allLocations_of_handle (location : OrderLocation) (h : (book.handle location).isSome) :
    location ∈ allLocations L O :=
  mem_allLocations (location_lt h).1 (location_lt h).2

end OrderBook

/-- The id index finds exactly the tracked locations. -/
theorem location_iff {handle : OrderLocation → Option (OrderId × U32)}
    (tracked : IndexTracks L O book.index handle) :
    book.index.location id = some location ↔ ∃ cell, handle location = some (id, cell) := by
  unfold OrderIndex.location
  rw [Option.bind_eq_some_iff]
  constructor
  · rintro ⟨code, hlookup, hdecode⟩
    obtain ⟨w, cell, rfl, hw⟩ := (tracked.lookup_iff fun key => probeStart_lt key).mp hlookup
    rw [tracked.decodes w (by simp [hw])] at hdecode
    cases hdecode
    exact ⟨cell, hw⟩
  · rintro ⟨cell, hhandle⟩
    refine ⟨locationCode O location, ?_, tracked.decodes location (by simp [hhandle])⟩
    exact (tracked.lookup_iff fun key => probeStart_lt key).mpr ⟨location, cell, rfl, hhandle⟩

section Logical

variable {levels front back : ModelLevels} {price : PriceTicks} {queue : List ModelOrder}

/-- An order is not found exactly when no queue holds it. -/
theorem findOrder_eq_none_iff :
    findOrder id levels = none ↔ ∀ level ∈ levels, ∀ order ∈ level.2, order.id ≠ id := by
  induction levels with
  | nil => simp [findOrder]
  | cons level rest ih =>
      obtain ⟨price, queue⟩ := level
      unfold findOrder
      cases hfind : queue.find? fun order => order.id = id with
      | some order =>
          have hid := List.find?_some hfind
          simp only [reduceCtorEq, List.mem_cons, forall_eq_or_imp, false_iff, not_and]
          intro hall
          exact absurd (by simpa using hid) (hall order (List.mem_of_find?_eq_some hfind))
      | none =>
          simp only [ih, List.mem_cons, forall_eq_or_imp]
          simp only [List.find?_eq_none, decide_eq_true_eq] at hfind
          exact ⟨fun h => ⟨hfind, h⟩, fun h => h.2⟩

/-- The search goes through the levels in order and stops at the first hit. -/
theorem findOrder_append :
    findOrder id (front ++ back) = (findOrder id front).or (findOrder id back) := by
  induction front with
  | nil => simp [findOrder]
  | cons level rest ih =>
      obtain ⟨price, queue⟩ := level
      simp only [List.cons_append, findOrder, ih]
      split <;> simp

/-- An order that is the only one with its id in the levels before it and in
its own queue is found. -/
theorem findOrder_of_split {earlier later : List ModelOrder} {order : ModelOrder}
    (hfront : findOrder order.id front = none) (hearlier : ∀ other ∈ earlier, other.id ≠ order.id) :
    findOrder order.id (front ++ (price, earlier ++ order :: later) :: back) = some (price, order) := by
  rw [findOrder_append, hfront]
  have hfind : (earlier ++ order :: later).find? (fun other => decide (other.id = order.id)) = some order := by
    rw [List.find?_append]
    have : earlier.find? (fun other => decide (other.id = order.id)) = none := by
      simpa [List.find?_eq_none] using hearlier
    rw [this]
    simp
  simp [findOrder, hfind]

end Logical

/-- A node at a fixed place of the views. -/
structure Placed (views : Side → List LevelView) (side : Side) (first : List LevelView) (view : LevelView)
    (second : List LevelView) (before : List (Nat × ModelOrder)) (slot : Nat) (data : ModelOrder)
    (after : List (Nat × ModelOrder)) : Prop where
  views_eq : views side = first ++ view :: second
  nodes_eq : view.nodes = before ++ (slot, data) :: after

theorem Placed.mem_views (placed : Placed views side first view second before slot data after) :
    view ∈ views side := by
  simp [placed.views_eq]

theorem Placed.mem_nodes (placed : Placed views side first view second before slot data after) :
    (slot, data) ∈ view.nodes := by
  simp [placed.nodes_eq]

namespace BookRep

variable (rep : BookRep book views)
include rep

theorem sides : SidesRep book views := rep.side

/-- Nodes with one id are one node. -/
theorem node_unique {side' : Side} {view' : LevelView} {slot' : Nat} {data' : ModelOrder}
    (hview : view ∈ views side) (hnode : (slot, data) ∈ view.nodes) (hview' : view' ∈ views side')
    (hnode' : (slot', data') ∈ view'.nodes) (hid : data.id = data'.id) :
    side = side' ∧ view.slot = view'.slot ∧ slot = slot' := by
  obtain ⟨cell, hhandle⟩ := rep.sides.handle_of_node hview hnode
  obtain ⟨cell', hhandle'⟩ := rep.sides.handle_of_node hview' hnode'
  rw [hid] at hhandle
  have := (rep.tracked.unique hhandle hhandle').1
  simpa using this

/-- No other node of the same queue carries the id of a placed node. -/
theorem queue_ids (placed : Placed views side first view second before slot data after)
    {other : ModelOrder} (hother : other ∈ (before ++ after).map Prod.snd) : other.id ≠ data.id := by
  intro hid
  obtain ⟨⟨slot', data'⟩, hmem, rfl⟩ := List.mem_map.mp hother
  have hview := placed.mem_views
  have hnode : (slot', data') ∈ view.nodes := by
    rw [placed.nodes_eq]
    simp only [List.mem_append, List.mem_cons] at hmem ⊢
    tauto
  obtain ⟨_, _, hslot⟩ := rep.node_unique hview hnode hview placed.mem_nodes hid
  obtain ⟨level, free, _, _, hrep⟩ := (rep.side side).stored view hview
  have hnodup := (List.nodup_append.mp hrep.nodup).1
  rw [placed.nodes_eq] at hnodup
  simp only [List.map_append, List.map_cons] at hnodup
  obtain ⟨_, hn2, hdisj⟩ := List.nodup_append.mp hnodup
  subst hslot
  rcases List.mem_append.mp hmem with hmem | hmem
  · exact hdisj _ (List.mem_map_of_mem hmem) slot' (by simp) rfl
  · exact (List.nodup_cons.mp hn2).1 (List.mem_map_of_mem hmem)

/-- No other level of the side holds the id of a placed node. -/
theorem level_ids (placed : Placed views side first view second before slot data after)
    {other : LevelView} (hother : other ∈ first ++ second) {order : ModelOrder}
    (horder : order ∈ other.nodes.map Prod.snd) : order.id ≠ data.id := by
  intro hid
  obtain ⟨⟨slot', data'⟩, hmem, rfl⟩ := List.mem_map.mp horder
  have hview : other ∈ views side := by
    rw [placed.views_eq]
    simp only [List.mem_append, List.mem_cons] at hother ⊢
    tauto
  obtain ⟨_, hslot, _⟩ := rep.node_unique hview hmem placed.mem_views placed.mem_nodes hid
  have hside := rep.side side
  rw [placed.views_eq] at hside
  exact hside.slot_ne _ hother hslot

/-- The logical book finds a placed node. -/
theorem find_of_placed {instrument : InstrumentId}
    (placed : Placed views side first view second before slot data after) :
    (logicalOf instrument views).find data.id = some (side, view.price, data) := by
  have hown : findOrder data.id ((views side).map LevelView.logical) = some (view.price, data) := by
    rw [placed.views_eq, List.map_append, List.map_cons, LevelView.logical, placed.nodes_eq,
      List.map_append, List.map_cons]
    refine findOrder_of_split ?_ ?_
    · rw [findOrder_eq_none_iff]
      intro level hlevel order horder
      obtain ⟨other, hother, rfl⟩ := List.mem_map.mp hlevel
      exact rep.level_ids placed (List.mem_append_left _ hother) horder
    · intro other hother
      exact rep.queue_ids placed (by simp only [List.map_append, List.mem_append]; exact .inl hother)
  unfold LogicalBook.find logicalOf
  cases side with
  | buy => simp [hown]
  | sell =>
      have hbids : findOrder data.id ((views .buy).map LevelView.logical) = none := by
        rw [findOrder_eq_none_iff]
        intro level hlevel order horder hid
        obtain ⟨other, hother, rfl⟩ := List.mem_map.mp hlevel
        obtain ⟨⟨slot', data'⟩, hnode, rfl⟩ := List.mem_map.mp horder
        have hsame := (rep.node_unique hother hnode placed.mem_views placed.mem_nodes hid).1
        cases hsame
      simp [hbids, hown]

/-- The logical book finds nothing for an id without handle. -/
theorem find_of_absent {instrument : InstrumentId}
    (habsent : ∀ location cell, book.handle location ≠ some (id, cell)) :
    (logicalOf instrument views).find id = none := by
  have hnone : ∀ side, findOrder id ((views side).map LevelView.logical) = none := by
    intro side
    rw [findOrder_eq_none_iff]
    intro level hlevel order horder hid
    obtain ⟨view, hview, rfl⟩ := List.mem_map.mp hlevel
    obtain ⟨⟨slot, data⟩, hnode, rfl⟩ := List.mem_map.mp horder
    obtain ⟨cell, hhandle⟩ := rep.sides.handle_of_node hview hnode
    rw [show data.id = id from hid] at hhandle
    exact habsent _ _ hhandle
  simp [LogicalBook.find, logicalOf, hnone]

/-- An id is either placed in the views, or unknown to the index and to the
logical book. -/
theorem lookup (instrument : InstrumentId) (id : OrderId) :
    (∃ side first view second before slot data after,
      Placed views side first view second before slot data after ∧ data.id = id ∧
      book.locate id = some (⟨side, view.slot, slot⟩, data.account) ∧ book.containsOrder id = true ∧
      (logicalOf instrument views).find id = some (side, view.price, data)) ∨
    ((∀ location cell, book.handle location ≠ some (id, cell)) ∧ book.locate id = none ∧
      book.containsOrder id = false ∧ (logicalOf instrument views).find id = none) := by
  by_cases h : ∃ location cell, book.handle location = some (id, cell)
  · left
    obtain ⟨location, cell, hhandle⟩ := h
    obtain ⟨view, hview, hslot, data, hnode, hid⟩ := rep.sides.node_of_handle hhandle
    obtain ⟨first, second, hviews⟩ := List.append_of_mem hview
    obtain ⟨before, after, hnodes⟩ := List.append_of_mem hnode
    have placed : Placed views location.side first view second before location.slot data after :=
      ⟨hviews, hnodes⟩
    have hlocation : book.index.location id = some location :=
      (location_iff rep.tracked).mpr ⟨cell, hhandle⟩
    refine ⟨location.side, first, view, second, before, location.slot, data, after, placed, hid, ?_, ?_, ?_⟩
    · obtain ⟨level, free, hlevel, _, hrep⟩ := (rep.side location.side).stored view hview
      obtain ⟨order, hlive, hview'⟩ := hrep.live _ _ hnode
      have horderId : order.id = id := by
        rw [← hid, ← hview']
        rfl
      have haccount : order.accountId = data.account := by
        rw [← hview']
        rfl
      rw [hslot] at hlevel
      simp [OrderBook.locate, hlocation, OrderBook.liveOrder, hlevel, hlive, horderId, haccount, hslot]
    · simp [OrderBook.containsOrder, hlocation]
    · rw [← hid]
      exact rep.find_of_placed placed
  · right
    push Not at h
    have hlocation : book.index.location id = none := by
      rw [Option.eq_none_iff_forall_ne_some]
      intro location hlocation
      obtain ⟨cell, hhandle⟩ := (location_iff rep.tracked).mp hlocation
      exact h location cell hhandle
    exact ⟨h, by simp [OrderBook.locate, hlocation], by simp [OrderBook.containsOrder, hlocation],
      rep.find_of_absent h⟩

end BookRep

/-! ### Taking an order out -/

namespace OrderBook

variable {i j : Nat} {side' : Side} {price : PriceTicks} {level : PriceLevel O}

/-- Dropping a level empties its slot and leaves every other. -/
theorem getLevel_dropLevel :
    (book.dropLevel side i price).getLevel side' j
      = if side = side' ∧ i = j ∧ i < L then none else book.getLevel side' j := by
  unfold dropLevel
  simp only
  split <;> simp [getLevel_setLevel]

/-- The index of the other side does not change. -/
theorem sideIndex_dropLevel_of_ne (h : side' ≠ side) :
    (book.dropLevel side i price).sideIndex side' = book.sideIndex side' := by
  unfold dropLevel
  simp only
  split <;> simp [Ne.symm h]

@[simp] theorem index_dropLevel : (book.dropLevel side i price).index = book.index := by
  unfold dropLevel
  simp only
  split <;> simp

@[simp] theorem instrument_dropLevel : (book.dropLevel side i price).instrument = book.instrument := by
  unfold dropLevel
  simp only
  split <;> simp

@[simp] theorem index_storeOrDrop : (book.storeOrDrop side i level).index = book.index := by
  unfold storeOrDrop
  split <;> simp

@[simp] theorem instrument_storeOrDrop : (book.storeOrDrop side i level).instrument = book.instrument := by
  unfold storeOrDrop
  split <;> simp

end OrderBook

/-- The views of a side after the queue of one level changed; an emptied level
is gone. -/
def requeue (first : List LevelView) (view : LevelView) (second : List LevelView)
    (nodes : List (Nat × ModelOrder)) : List LevelView :=
  if nodes.isEmpty then first ++ second else first ++ { view with nodes := nodes } :: second

/-- Unlinking a placed node and storing its level, or dropping it when it
emptied. -/
theorem SidesRep.storeOrDrop_spec (rep : SidesRep book views)
    (placed : Placed views side first view second before slot data after) :
    ∃ level order level', book.getLevel side view.slot = some level ∧ level.price = view.price ∧
      level.getLive slot = some order ∧ order.view = data ∧ level.unlink slot = some (order, level') ∧
      SidesRep (book.storeOrDrop side view.slot level')
        (Function.update views side (requeue first view second (before ++ after))) ∧
      (book.storeOrDrop side view.slot level').handle
        = Function.update book.handle ⟨side, view.slot, slot⟩ none := by
  have hside := rep side
  rw [placed.views_eq] at hside
  obtain ⟨level, free, hlevel, hprice, hrep⟩ := hside.stored view (by simp)
  rw [placed.nodes_eq] at hrep
  obtain ⟨order, level', hunlink, hlive, hview, hrep', hprice', hhandle⟩ := hrep.unlink_spec
  refine ⟨level, order, level', hlevel, hprice, hlive, hview, hunlink, ?_⟩
  by_cases hempty : before ++ after = []
  · have hlen : level'.len = 0 := by rw [hrep'.len, hempty]; rfl
    have hstore : book.storeOrDrop side view.slot level' = book.dropLevel side view.slot view.price := by
      rw [OrderBook.storeOrDrop, if_pos hlen, hprice', hprice]
    rw [hstore]
    constructor
    · refine rep.of_update ?_ ?_ fun other hother => OrderBook.sideIndex_dropLevel_of_ne hother
      · rw [requeue, hempty]
        exact hside.drop
      · intro other hother i
        rw [OrderBook.getLevel_dropLevel, if_neg]
        exact fun h => hother h.1.symm
    · -- the dropped level held no other order
      have hlt := OrderBook.lt_of_getLevel hlevel
      funext location
      obtain ⟨side', i, slot'⟩ := location
      unfold OrderBook.handle
      simp only [OrderBook.getLevel_dropLevel]
      by_cases hsame : side = side' ∧ view.slot = i
      · obtain ⟨rfl, rfl⟩ := hsame
        by_cases hslot : slot' = slot
        · subst hslot
          simp [hlt]
        · have hnone : level'.handle slot' = none := by
            rw [← Option.not_isSome_iff_eq_none, hrep'.handle_isSome_iff, hempty]
            simp
          rw [hhandle, Function.update_of_ne hslot] at hnone
          simp [hlt, Function.update_of_ne, hslot, hlevel, hnone]
      · rw [if_neg (fun h => hsame ⟨h.1, h.2.1⟩), Function.update_of_ne]
        intro heq
        cases heq
        exact hsame ⟨rfl, rfl⟩
  · have hlen : ¬level'.len = 0 := by
      rw [hrep'.len]
      simpa using hempty
    have hstore : book.storeOrDrop side view.slot level' = book.setLevel side view.slot (some level') := by
      rw [OrderBook.storeOrDrop, if_neg hlen]
    rw [hstore]
    refine ⟨rep.of_update ?_ ?_ fun other _ => by simp, OrderBook.handle_setLevel hlevel hhandle⟩
    · rw [requeue, if_neg (by simpa using hempty)]
      exact hside.update (by rw [hprice', hprice]) hrep'
    · intro other hother i
      exact OrderBook.getLevel_setLevel_of_ne (.inl (Ne.symm hother))

/-- `book'` stores the same orders as `book` under the given handles. -/
structure Rehandled (book book' : OrderBook L O) (views : Side → List LevelView)
    (handle : OrderLocation → Option (OrderId × U32)) : Prop where
  sides : SidesRep book' views
  handle_eq : book'.handle = handle
  index_eq : book'.index = book.index
  instrument_eq : book'.instrument = book.instrument

/-- Nothing is relocated when the location holds no order of that id. -/
theorem SidesRep.updateReverseSlot_idle (rep : SidesRep book views)
    {m : Move OrderId OrderLocation indexLimit} (hsame : book.updateReverseSlot m = book)
    (hnot : (book.handle m.value).map Prod.fst ≠ some m.key) :
    Rehandled book (book.updateReverseSlot m) views (relocate book.handle m) := by
  rw [hsame]
  refine ⟨rep, funext fun w => ?_, rfl, rfl⟩
  unfold relocate
  rw [if_neg]
  rintro ⟨rfl, h⟩
  exact hnot h

/-- The callback of the index relocates one handle and nothing else. -/
theorem SidesRep.updateReverseSlot_spec (rep : SidesRep book views) (m : Move OrderId OrderLocation indexLimit) :
    Rehandled book (book.updateReverseSlot m) views (relocate book.handle m) := by
  obtain ⟨key, ⟨side, i, slot⟩, cell⟩ := m
  cases hlevel : book.getLevel side i with
  | none =>
      refine rep.updateReverseSlot_idle (by simp [OrderBook.updateReverseSlot, hlevel]) fun h => ?_
      simp [OrderBook.handle, hlevel] at h
  | some level =>
      cases hlive : level.getLive slot with
      | none =>
          refine rep.updateReverseSlot_idle (by simp [OrderBook.updateReverseSlot, hlevel, hlive]) fun h => ?_
          rw [PriceLevel.getLive] at hlive
          simp [OrderBook.handle, hlevel, PriceLevel.handle, handleAt, hlive] at h
      | some resting =>
          have hhandle : level.handle slot = some (resting.id, resting.indexSlot) := by
            rw [PriceLevel.getLive] at hlive
            simp [PriceLevel.handle, handleAt, hlive]
          by_cases hid : resting.id = key
          · have hmoved : book.updateReverseSlot ⟨key, ⟨side, i, slot⟩, cell⟩
                = book.setLevel side i (some (level.setIndexSlot slot cell)) := by
              simp [OrderBook.updateReverseSlot, hlevel, hlive, hid]
            obtain ⟨view, hview, rfl, hprice, free, hrep⟩ := (rep side).view_of_getLevel hlevel
            obtain ⟨hrep', hhandle'⟩ := hrep.setIndexSlot_spec slot cell
            obtain ⟨first, second, hviews⟩ := List.append_of_mem hview
            rw [hmoved]
            refine ⟨?_, ?_, by simp, by simp⟩
            · have hside := rep side
              rw [hviews] at hside
              have hupdated := rep.of_update (hside.update (by exact hprice) hrep')
                (fun other hother j => OrderBook.getLevel_setLevel_of_ne (.inl (Ne.symm hother)))
                (fun other _ => by simp)
              rwa [← hviews, Function.update_eq_self] at hupdated
            · rw [OrderBook.handle_setLevel hlevel hhandle', hhandle]
              funext w
              unfold relocate
              by_cases hw : w = ⟨side, view.slot, slot⟩
              · subst hw
                simp [OrderBook.handle, hlevel, hhandle, hid]
              · rw [Function.update_of_ne hw, if_neg]
                exact fun h => hw h.1
          · refine rep.updateReverseSlot_idle (by simp [OrderBook.updateReverseSlot, hlevel, hlive, hid]) fun h => ?_
            simp [OrderBook.handle, hlevel, hhandle] at h
            exact hid h

/-- All callbacks of one index removal. -/
theorem SidesRep.foldl_updateReverseSlot (rep : SidesRep book views)
    (moves : List (Move OrderId OrderLocation indexLimit)) :
    Rehandled book (moves.foldl OrderBook.updateReverseSlot book) views (relocateAll book.handle moves) := by
  induction moves generalizing book with
  | nil => exact ⟨rep, rfl, rfl, rfl⟩
  | cons m moves ih =>
      obtain ⟨hrep, hhandle, hindex, hinstrument⟩ := rep.updateReverseSlot_spec m
      obtain ⟨hrep', hhandle', hindex', hinstrument'⟩ := ih hrep
      rw [List.foldl_cons]
      refine ⟨hrep', ?_, hindex'.trans hindex, hinstrument'.trans hinstrument⟩
      rw [hhandle', hhandle]
      rfl

/-- Removing the index entry of a location. The book's own handles may already
lack it. -/
theorem SidesRep.removeIndexEntry_spec (rep : SidesRep book views)
    (handle : OrderLocation → Option (OrderId × U32)) (tracked : IndexTracks L O book.index handle)
    (hhandle : handle location = some (id, cell))
    (inside : ∀ w, (handle w).isSome → w.levelIndex < L ∧ w.slot < O) :
    ∃ moves book', book.removeIndexEntry cell id = some (some location, book') ∧
      SidesRep book' views ∧ book'.handle = relocateAll book.handle moves ∧
      IndexTracks L O book'.index (relocateAll (Function.update handle location none) moves) ∧
      (∀ m ∈ moves, m.value ≠ location) ∧ book'.instrument = book.instrument := by
  obtain ⟨hL, hO⟩ := inside location (by simp [hhandle])
  obtain ⟨t', moves, hremove, hne, _, htracked⟩ := tracked.removeAt_spec (fun key => probeStart_lt key)
    hhandle (fun w hw => mem_allLocations (inside w hw).1 (inside w hw).2)
    (card_allLocations_lt (by omega) (by omega))
  have hsides : SidesRep { book with index := t' } views := rep.frame (fun _ _ => rfl) (fun _ => rfl)
  obtain ⟨hrep, hhandle', hindex, hinstrument⟩ := hsides.foldl_updateReverseSlot moves
  refine ⟨moves, _, ?_, hrep, hhandle', ?_, hne, hinstrument⟩
  · simp only [OrderBook.removeIndexEntry, OrderIndex.removeAt, hremove, Option.bind_eq_bind,
      Option.bind_some]
    rfl
  · rw [hindex]
    exact htracked

/-- A level whose queue becomes empty is left out, so no level stays without
orders. -/
theorem requeue_occupied (h : ∀ other ∈ first ++ view :: second, other.nodes ≠ [])
    {nodes : List (Nat × ModelOrder)} : ∀ other ∈ requeue first view second nodes, other.nodes ≠ [] := by
  intro other hother
  unfold requeue at hother
  split at hother
  · refine h other ?_
    simp only [List.mem_append, List.mem_cons] at hother ⊢
    tauto
  · rename_i hne
    simp only [List.mem_append, List.mem_cons] at hother
    rcases hother with hmem | rfl | hmem
    · exact h other (by simp [hmem])
    · simpa using hne
    · exact h other (by simp [hmem])

namespace BookRep

variable (rep : BookRep book views)
include rep

/-- Replacing one side's views by occupied ones. -/
theorem occupied_update {replaced : List LevelView} (h : ∀ view ∈ replaced, view.nodes ≠ []) :
    ∀ other, ∀ view ∈ Function.update views side replaced other, view.nodes ≠ [] := by
  intro other
  by_cases heq : other = side
  · subst heq
    simpa using h
  · rw [Function.update_of_ne heq]
    exact rep.occupied other

/-- A placed order: its stored level, its record and its handle. -/
theorem stored_of_placed (placed : Placed views side first view second before slot data after) :
    ∃ level order, book.getLevel side view.slot = some level ∧ level.price = view.price ∧
      level.getLive slot = some order ∧ order.view = data ∧
      book.handle ⟨side, view.slot, slot⟩ = some (data.id, order.indexSlot) := by
  obtain ⟨level, free, hlevel, hprice, hrep⟩ := (rep.side side).stored view placed.mem_views
  obtain ⟨order, hlive, hview⟩ := hrep.live _ _ placed.mem_nodes
  refine ⟨level, order, hlevel, hprice, hlive, hview, ?_⟩
  rw [PriceLevel.getLive] at hlive
  simp [OrderBook.handle, hlevel, PriceLevel.handle, handleAt, hlive, ← hview, RestingOrder.view]

/-- After taking an order out, no remaining node carries its id. -/
theorem ids_after_removal (placed : Placed views side first view second before slot data after)
    {side' : Side} {view' : LevelView} {slot' : Nat} {data' : ModelOrder}
    (hview : view' ∈ Function.update views side (requeue first view second (before ++ after)) side')
    (hnode : (slot', data') ∈ view'.nodes) : data'.id ≠ data.id := by
  by_cases hside : side' = side
  · subst hside
    rw [Function.update_self, requeue] at hview
    have hdata : data' ∈ view'.nodes.map Prod.snd := List.mem_map.mpr ⟨_, hnode, rfl⟩
    split at hview
    · exact rep.level_ids placed hview hdata
    · simp only [List.mem_append, List.mem_cons] at hview
      rcases hview with hmem | rfl | hmem
      · exact rep.level_ids placed (by simp [hmem]) hdata
      · exact rep.queue_ids placed (List.mem_map.mpr ⟨_, hnode, rfl⟩)
      · exact rep.level_ids placed (by simp [hmem]) hdata
  · rw [Function.update_of_ne hside] at hview
    intro hid
    exact hside (rep.node_unique hview hnode placed.mem_views placed.mem_nodes hid).1

/-- Taking an order out as `cancel` and `replace` do: the level first, the
index last. -/
theorem remove_spec (placed : Placed views side first view second before slot data after) :
    ∃ level order level' book', book.getLevel side view.slot = some level ∧
      level.unlink slot = some (order, level') ∧ order.view = data ∧
      (book.storeOrDrop side view.slot level').removeIndexEntry order.indexSlot data.id
        = some (some ⟨side, view.slot, slot⟩, book') ∧
      BookRep book' (Function.update views side (requeue first view second (before ++ after))) ∧
      book'.instrument = book.instrument ∧
      ∀ location cell, book'.handle location ≠ some (data.id, cell) := by
  obtain ⟨level, order, level', hlevel, hprice, hlive, hview, hunlink, hsides, hhandle⟩ :=
    rep.sides.storeOrDrop_spec placed
  obtain ⟨level₂, order₂, hlevel₂, _, hlive₂, _, hown⟩ := rep.stored_of_placed placed
  rw [hlevel] at hlevel₂
  cases hlevel₂
  rw [hlive] at hlive₂
  cases hlive₂
  obtain ⟨moves, book', hremove, hsides', hhandle', htracked, hne, hinstrument⟩ :=
    hsides.removeIndexEntry_spec book.handle (by simpa using rep.tracked) hown
      fun w hw => OrderBook.location_lt hw
  rw [hhandle] at hhandle'
  rw [← hhandle'] at htracked
  refine ⟨level, order, level', book', hlevel, hunlink, hview, hremove, ⟨hsides', ?_, htracked⟩,
    by simpa using hinstrument, ?_⟩
  · refine rep.occupied_update (requeue_occupied fun other hother => rep.occupied side other ?_)
    rwa [placed.views_eq]
  · intro location cell hfound
    obtain ⟨view', hview', _, data', hnode', hid⟩ := hsides'.node_of_handle hfound
    exact rep.ids_after_removal placed hview' hnode' hid

/-- Taking an order out as a fill does: the index first, the level last. -/
theorem fill_spec (placed : Placed views side first view second before slot data after) :
    ∃ level order book₁ level₁ order₁ level₁', book.getLevel side view.slot = some level ∧
      level.getLive slot = some order ∧ order.view = data ∧
      book.removeIndexEntry order.indexSlot data.id = some (some ⟨side, view.slot, slot⟩, book₁) ∧
      book₁.getLevel side view.slot = some level₁ ∧ level₁.unlink slot = some (order₁, level₁') ∧
      BookRep (book₁.storeOrDrop side view.slot level₁')
        (Function.update views side (requeue first view second (before ++ after))) ∧
      (book₁.storeOrDrop side view.slot level₁').instrument = book.instrument := by
  obtain ⟨level, order, hlevel, _, hlive, hview, hown⟩ := rep.stored_of_placed placed
  obtain ⟨moves, book₁, hremove, hsides₁, hhandle₁, htracked, hne, hinstrument⟩ :=
    rep.sides.removeIndexEntry_spec book.handle rep.tracked hown fun w hw => OrderBook.location_lt hw
  obtain ⟨level₁, order₁, level₁', hlevel₁, _, _, _, hunlink, hsides, hhandle⟩ :=
    hsides₁.storeOrDrop_spec placed
  refine ⟨level, order, book₁, level₁, order₁, level₁', hlevel, hlive, hview, hremove, hlevel₁, hunlink,
    ⟨hsides, ?_, ?_⟩, by simpa using hinstrument⟩
  · refine rep.occupied_update (requeue_occupied fun other hother => rep.occupied side other ?_)
    rwa [placed.views_eq]
  · rw [hhandle, OrderBook.index_storeOrDrop, hhandle₁, ← relocateAll_update_comm hne]
    exact htracked

/-- Reducing an order in place. -/
theorem reduce_spec (placed : Placed views side first view second before slot data after)
    (quantity : Quantity) (hle : quantity.val ≤ data.quantity.val) :
    ∃ level order level', book.getLevel side view.slot = some level ∧ level.price = view.price ∧
      level.getLive slot = some order ∧ order.view = data ∧
      level.reduceQuantity slot quantity = some level' ∧
      BookRep (book.setLevel side view.slot (some level')) (Function.update views side
        (first ++ { view with
          nodes := before ++ (slot, { data with quantity := satSub data.quantity quantity }) :: after } ::
          second)) := by
  have hside := rep.side side
  rw [placed.views_eq] at hside
  obtain ⟨level, free, hlevel, hprice, hrep⟩ := hside.stored view (by simp)
  rw [placed.nodes_eq] at hrep
  obtain ⟨order, hlive, hview⟩ := hrep.live slot data (by simp)
  obtain ⟨level', hreduce, hrep', hprice', hhandle⟩ := hrep.reduceQuantity_spec hle
  refine ⟨level, order, level', hlevel, hprice, hlive, hview, hreduce, ?_, ?_, ?_⟩
  · exact rep.sides.of_update (hside.update (by rw [hprice', hprice]) hrep')
      (fun other hother i => OrderBook.getLevel_setLevel_of_ne (.inl (Ne.symm hother))) (fun _ _ => by simp)
  · refine rep.occupied_update fun other hother => ?_
    simp only [List.mem_append, List.mem_cons] at hother
    rcases hother with hmem | rfl | hmem
    · exact rep.occupied side other (by simp [placed.views_eq, hmem])
    · simp
    · exact rep.occupied side other (by simp [placed.views_eq, hmem])
  · have hupdate : level'.handle = Function.update level.handle slot (level.handle slot) := by
      rw [Function.update_eq_self, hhandle]
    have hsame : book.handle ⟨side, view.slot, slot⟩ = level.handle slot := by
      simp [OrderBook.handle, hlevel]
    rw [OrderBook.handle_setLevel hlevel hupdate, ← hsame, Function.update_eq_self,
      OrderBook.index_setLevel]
    exact rep.tracked

end BookRep

/-! ### Adding an order -/

section AddOrder

variable {levels front back : ModelLevels} {price : PriceTicks} {queue : List ModelOrder}
  {order : ModelOrder} {descending : Bool}

/-- An order at the price of a level joins the end of its queue. -/
theorem addOrder_of_occupied
    (hfront : ∀ level ∈ front, LevelIndex.precedes descending price level.1 = true) :
    addOrder descending price order (front ++ (price, queue) :: back)
      = front ++ (price, queue ++ [order]) :: back := by
  induction front with
  | nil => simp [addOrder]
  | cons level rest ih =>
      obtain ⟨listed, other⟩ := level
      have hlisted := hfront (listed, other) (by simp)
      rw [List.cons_append, addOrder, if_neg (ne_of_precedes hlisted), if_pos hlisted,
        ih fun level hlevel => hfront level (List.mem_cons_of_mem _ hlevel)]
      rfl

/-- An order at a price without a level opens one in its place among the
prices. -/
theorem addOrder_of_vacant
    (hfront : ∀ level ∈ front, LevelIndex.precedes descending price level.1 = true)
    (hback : ∀ level ∈ back, LevelIndex.precedes descending level.1 price = true) :
    addOrder descending price order (front ++ back) = front ++ (price, [order]) :: back := by
  induction front with
  | nil =>
      cases back with
      | nil => simp [addOrder]
      | cons level rest =>
          obtain ⟨listed, other⟩ := level
          have hlisted := hback (listed, other) (by simp)
          rw [List.nil_append, addOrder, if_neg (ne_of_precedes hlisted).symm,
            if_neg (by simpa using precedes_asymm hlisted)]
          rfl
  | cons level rest ih =>
      obtain ⟨listed, other⟩ := level
      have hlisted := hfront (listed, other) (by simp)
      rw [List.cons_append, addOrder, if_neg (ne_of_precedes hlisted), if_pos hlisted,
        ih fun level hlevel => hfront level (List.mem_cons_of_mem _ hlevel)]
      rfl

/-- Whether a side has room for one more order at a price. -/
def RoomAt (L O : Nat) (levels : ModelLevels) (price : PriceTicks) : Prop :=
  match levels.find? fun level => level.1 = price with
  | some (_, queue) => queue.length < O
  | none => levels.length < L

/-- The level at its own price is found behind the levels that precede it. -/
theorem find?_of_occupied
    (hfront : ∀ level ∈ front, LevelIndex.precedes descending price level.1 = true) :
    (front ++ (price, queue) :: back).find? (fun level => decide (level.1 = price)) = some (price, queue) := by
  rw [List.find?_append]
  have hnone : front.find? (fun level => decide (level.1 = price)) = none := by
    rw [List.find?_eq_none]
    intro level hlevel
    simpa using ne_of_precedes (hfront level hlevel)
  rw [hnone]
  simp

/-- At a price between the levels none is found. -/
theorem find?_of_vacant
    (hfront : ∀ level ∈ front, LevelIndex.precedes descending price level.1 = true)
    (hback : ∀ level ∈ back, LevelIndex.precedes descending level.1 price = true) :
    (front ++ back).find? (fun level => decide (level.1 = price)) = none := by
  rw [List.find?_eq_none]
  intro level hlevel
  rcases List.mem_append.mp hlevel with hmem | hmem
  · simpa using ne_of_precedes (hfront level hmem)
  · simpa using (ne_of_precedes (hback level hmem)).symm

end AddOrder

/-- Opening the level of a price: the views then contain it, possibly without
orders. -/
structure Opened (book book' : OrderBook L O) (views : Side → List LevelView) (side : Side)
    (price : PriceTicks) (first : List LevelView) (view : LevelView) (second : List LevelView) : Prop where
  sides : SidesRep book' (Function.update views side (first ++ view :: second))
  others : ∀ other ∈ first ++ second, other ∈ views side
  price_eq : view.price = price
  handle_eq : book'.handle = book.handle
  index_eq : book'.index = book.index
  instrument_eq : book'.instrument = book.instrument
  added : ∀ slot order, addOrder side.descending price order ((views side).map LevelView.logical)
    = (first ++ { view with nodes := view.nodes ++ [(slot, order)] } :: second).map LevelView.logical

/-- The order of the stored levels is the order of the logical ones. -/
theorem logical_precedes {descending : Bool} {price : PriceTicks}
    (h : ∀ other ∈ first, LevelIndex.precedes descending price other.price = true) :
    ∀ level ∈ first.map LevelView.logical, LevelIndex.precedes descending price level.1 = true := by
  intro level hlevel
  obtain ⟨other, hother, rfl⟩ := List.mem_map.mp hlevel
  exact h other hother

/-- What follows a price among the stored levels follows it among the logical
ones. -/
theorem logical_follows {descending : Bool} {price : PriceTicks}
    (h : ∀ other ∈ second, LevelIndex.precedes descending other.price price = true) :
    ∀ level ∈ second.map LevelView.logical, LevelIndex.precedes descending level.1 price = true := by
  intro level hlevel
  obtain ⟨other, hother, rfl⟩ := List.mem_map.mp hlevel
  exact h other hother

/-- With room at the price, its level can be opened and still has a free slot
unless `O` is zero. -/
theorem SidesRep.openLevel_spec (rep : SidesRep book views) {price : PriceTicks}
    (hroom : RoomAt L O ((views side).map LevelView.logical) price) :
    ∃ first view second book', book.openLevel side price = some (view.slot, book') ∧
      Opened book book' views side price first view second ∧ (view.nodes.length < O ∨ O = 0) := by
  have hside := rep side
  rcases split_at LevelView.price side.descending price hside.sorted with
    ⟨first, view, second, hviews, rfl, hfirst⟩ | ⟨first, second, hviews, hfirst, hsecond⟩
  · rw [hviews] at hside hroom
    refine ⟨first, view, second, book, ?_, ⟨?_, ?_, rfl, rfl, rfl, rfl, ?_⟩, ?_⟩
    · simp [OrderBook.openLevel, hside.find_of_occupied]
    · rw [← hviews, Function.update_eq_self]
      exact rep
    · intro other hother
      rw [hviews]
      simp only [List.mem_append, List.mem_cons] at hother ⊢
      tauto
    · intro slot order
      rw [hviews, List.map_append, List.map_cons, LevelView.logical,
        addOrder_of_occupied (logical_precedes hfirst)]
      simp [LevelView.logical]
    · unfold RoomAt at hroom
      rw [List.map_append, List.map_cons, LevelView.logical,
        find?_of_occupied (logical_precedes hfirst)] at hroom
      exact .inl (by simpa using hroom)
  · rw [hviews] at hside hroom
    unfold RoomAt at hroom
    rw [List.map_append, find?_of_vacant (logical_precedes hfirst) (logical_follows hsecond)] at hroom
    obtain ⟨slot, rest, hfree⟩ : ∃ slot rest, (book.sideIndex side).free = slot :: rest := by
      have hlength := hside.length_add
      cases hpool : (book.sideIndex side).free with
      | nil =>
          rw [hpool] at hlength
          simp at hlength hroom
          omega
      | cons slot rest => exact ⟨slot, rest, rfl⟩
    obtain ⟨index, hinsert, hrep⟩ := hside.insert hfree hfirst hsecond
    have hvacant := hside.vacant slot (by simp [hfree])
    refine ⟨first, ⟨price, slot, []⟩, second,
      (book.setSideIndex side index).setLevel side slot (some (PriceLevel.new price)), ?_,
      ⟨?_, ?_, rfl, ?_, by simp, by simp, ?_⟩, ?_⟩
    · simp only [OrderBook.openLevel, hside.find_of_vacant hfirst hsecond, hinsert, Option.bind_eq_bind,
        Option.bind_some]
      rfl
    · refine rep.of_update hrep ?_ ?_
      · intro other hother i
        rw [OrderBook.getLevel_setLevel_of_ne (.inl (Ne.symm hother)), OrderBook.getLevel_setSideIndex]
      · intro other hother
        simp [Ne.symm hother]
    · intro other hother
      rw [hviews]
      exact hother
    · funext location
      obtain ⟨side', i, slot'⟩ := location
      unfold OrderBook.handle
      simp only [OrderBook.getLevel_setLevel, OrderBook.getLevel_setSideIndex]
      by_cases h : side = side' ∧ slot = i ∧ slot < L
      · obtain ⟨rfl, rfl, hlt⟩ := h
        simp [hlt, hvacant, handle_new]
      · rw [if_neg h]
    · intro slot' order
      rw [hviews, List.map_append, addOrder_of_vacant (logical_precedes hfirst) (logical_follows hsecond)]
      simp [LevelView.logical]
    · simp only [List.length_nil]
      omega

/-- The ids held by the logical book are those with a handle. -/
theorem BookRep.holds_iff (rep : BookRep book views) (instrument : InstrumentId) :
    (logicalOf instrument views).Holds id ↔ ∃ location cell, book.handle location = some (id, cell) := by
  rcases rep.lookup instrument id with
    ⟨side, first, view, second, before, slot, data, after, placed, rfl, _, _, hfind⟩ | ⟨habsent, _, _, hfind⟩
  · obtain ⟨cell, hhandle⟩ := rep.sides.handle_of_node placed.mem_views placed.mem_nodes
    simp only [LogicalBook.Holds, hfind, Option.isSome_some, true_iff]
    exact ⟨_, cell, hhandle⟩
  · simp only [LogicalBook.Holds, hfind, Option.isSome_none, Bool.false_eq_true, false_iff, not_exists]
    exact habsent

/-- A key set is indexable only by an index with cells. -/
theorem not_fitsIndex_of_zero {ids : OrderId → Prop} (hO : O = 0) (hid : ids id) : ¬FitsIndex L O ids := by
  rintro ⟨t, _, _, hkeys⟩
  obtain ⟨i, v, hcell⟩ := (hkeys id).mpr hid
  have := lt_of_cell hcell
  simp [hO] at this

/-- Appending a new order where there is room succeeds exactly when the
enlarged id set can be indexed, and adds the order to the logical book. -/
theorem BookRep.restAtTail_spec (rep : BookRep book views) (instrument : InstrumentId) {price : PriceTicks}
    (resting : RestingOrder) (habsent : ∀ location cell, book.handle location ≠ some (resting.id, cell))
    (hroom : RoomAt L O ((views side).map LevelView.logical) price) :
    (∃ book' views', book.restAtTail side price resting = some book' ∧ BookRep book' views' ∧
        book'.instrument = book.instrument ∧
        logicalOf instrument views' = (logicalOf instrument views).rest side price resting.view ∧
        FitsIndex L O fun id => id = resting.id ∨ (logicalOf instrument views).Holds id) ∨
      (book.restAtTail side price resting = none ∧
        ¬FitsIndex L O fun id => id = resting.id ∨ (logicalOf instrument views).Holds id) := by
  obtain ⟨first, view, second, book₁, hopen, opened, hspace⟩ := rep.sides.openLevel_spec hroom
  have hside := opened.sides side
  rw [Function.update_self] at hside
  obtain ⟨level, free, hlevel, hprice, hrep⟩ := hside.stored view (by simp)
  have hlength := hrep.length_add
  cases free with
  | nil =>
      -- a level without slots: nothing can be appended, and no id can be indexed
      right
      have hO : O = 0 := by
        simp at hlength
        omega
      refine ⟨?_, not_fitsIndex_of_zero hO (.inl rfl)⟩
      simp [OrderBook.restAtTail, hopen, hlevel, hrep.pushTail_of_full resting]
  | cons slot free =>
      obtain ⟨level', hpush, hrep', hprice', hhandle, stored, hstored⟩ := hrep.pushTail_spec resting
      have hslot : slot < O := hrep.free_lt slot (by simp)
      have hlevelLt : view.slot < L := OrderBook.lt_of_getLevel hlevel
      have hown : book.handle ⟨side, view.slot, slot⟩ = none := by
        have hnone : level.handle slot = none := by
          rw [← Option.not_isSome_iff_eq_none, hrep.handle_isSome_iff]
          intro hmem
          exact (List.nodup_append.mp hrep.nodup).2.2 slot hmem slot (by simp) rfl
        rw [← opened.handle_eq]
        simp [OrderBook.handle, hlevel, hnone]
      have hkeys : (fun id => id = resting.id ∨ (logicalOf instrument views).Holds id)
          = fun id => id = resting.id ∨ ∃ location cell, book.handle location = some (id, cell) := by
        funext id
        rw [rep.holds_iff instrument]
      have hencode := encodeLocation_eq ⟨side, view.slot, slot⟩ hlevelLt hslot
      rcases rep.tracked.insert_spec (fun key => probeStart_lt key) hown habsent
        (decodeLocation_code (L := L) hlevelLt hslot) OrderBook.mem_allLocations_of_handle
        (mem_allLocations hlevelLt hslot) (card_allLocations_lt (by omega) (by omega)) with
        ⟨cell, t', hinsert, htracked, hfits⟩ | ⟨hinsert, hfits⟩
      · left
        obtain ⟨hrep₂, hhandle₂⟩ := hrep'.setIndexSlot_spec slot cell
        have hupdate : (level'.setIndexSlot slot cell).handle
            = Function.update level.handle slot (some (resting.id, cell)) := by
          rw [hhandle₂, hhandle]
          simp
        have hindex : book₁.index.insert resting.id ⟨side, view.slot, slot⟩ = .ok (cell, t') := by
          rw [opened.index_eq]
          simp [OrderIndex.insert, hencode, hinsert]
        refine ⟨{ book₁.setLevel side view.slot (some (level'.setIndexSlot slot cell)) with index := t' },
          Function.update views side
          (first ++ { view with nodes := view.nodes ++ [(slot, resting.view)] } :: second), ?_, ⟨?_, ?_, ?_⟩,
          ?_, ?_, by rw [hkeys]; exact hfits⟩
        · simp only [OrderBook.restAtTail, hopen, Option.bind_eq_bind, Option.bind_some, hlevel, hpush, hindex,
            Except.toOption, hstored]
          rfl
        · have hsides := opened.sides.of_update (hside.update (by rw [← hprice, ← hprice']; rfl) hrep₂)
            (fun other hother i => OrderBook.getLevel_setLevel_of_ne (.inl (Ne.symm hother)))
            (fun _ _ => by simp)
          rw [Function.update_idem] at hsides
          exact hsides.frame (fun _ _ => rfl) (fun _ => rfl)
        · refine rep.occupied_update fun other hother => ?_
          simp only [List.mem_append, List.mem_cons] at hother
          rcases hother with hmem | rfl | hmem
          · exact rep.occupied side other (opened.others other (by simp [hmem]))
          · simp
          · exact rep.occupied side other (opened.others other (by simp [hmem]))
        · have hset := OrderBook.handle_setLevel hlevel hupdate
          rw [opened.handle_eq] at hset
          have hsame : ∀ (b : OrderBook L O) (t : OrderIndex L O), ({ b with index := t }).handle = b.handle :=
            fun _ _ => rfl
          rw [hsame, hset]
          exact htracked
        · simp [opened.instrument_eq]
        · have hadded := opened.added slot resting.view
          unfold LogicalBook.rest
          rw [levels_logicalOf, hadded]
          cases side <;> simp [logicalOf, LogicalBook.setLevels]
      · right
        rw [hkeys]
        refine ⟨?_, hfits⟩
        have hindex : book₁.index.insert resting.id ⟨side, view.slot, slot⟩ = .error .orderCapacity := by
          rw [opened.index_eq]
          simp [OrderIndex.insert, hencode, hinsert]
        simp [OrderBook.restAtTail, hopen, hlevel, hpush, hindex, Except.toOption]

end HftEngine
