/-
Module: HftEngine.Proofs.BookInvariant
Layer: Proofs
Purpose: The representation invariant of the book spelled out on its storage
  alone (linked lists, free lists, level indices and the id index), derived
  from the representation relation and shown for every state reached by
  submitting, cancelling and amending from an empty or a restored book.
Imports: HftEngine.Proofs.BookRestore, HftEngine.Proofs.ReferenceRuns
Trusted boundary: none (fully proved)
Main exports: LevelInvariant, SideInvariant, IndexInvariant, BookInvariant,
  Represents.invariant, book_invariant_of_run
-/
import HftEngine.Proofs.BookRestore
import HftEngine.Proofs.ReferenceRuns

namespace HftEngine

open Machine SlotArena OpenAddressing Transition

variable {L O : Nat} {book : OrderBook L O} {logical : LogicalBook} {side : Side}

/-- One level. `chain` lists the slots from head to tail, `free` the free list
from its head. -/
structure LevelChain (level : PriceLevel O) (chain free : List Nat) : Prop where
  head : level.head = chain.head?
  tail : level.tail = chain.getLast?
  acyclic : chain.Nodup
  live : ∀ slot, slot ∈ chain ↔ (level.getLive slot).isSome
  next : ∀ i slot order, chain[i]? = some slot → level.getLive slot = some order → order.next = chain[i + 1]?
  prev : ∀ i slot order, chain[i + 1]? = some slot → level.getLive slot = some order → order.prev = chain[i]?
  first : ∀ slot order, chain[0]? = some slot → level.getLive slot = some order → order.prev = none
  len : level.len = chain.length
  aggregate : level.aggregateQuantity
    = ((chain.filterMap level.getLive).map fun order => order.quantity.val).sum
  freeList : FreeChain level.slots level.freeHead free
  partition : (chain ++ free).Perm (List.range O)

/-- The links of a level form one doubly linked list over its live slots,
beside the free list. -/
def LevelInvariant (level : PriceLevel O) : Prop := ∃ chain free, LevelChain level chain free

/-- One side: the index entries are strictly ordered, name distinct occupied
levels of their price, and the other level slots are free. -/
structure SideInvariant (book : OrderBook L O) (side : Side) : Prop where
  sorted : (book.sideIndex side).entries.Pairwise fun first second =>
    LevelIndex.precedes side.descending second.1 first.1 = true
  prices : ((book.sideIndex side).entries.map Prod.fst).Nodup
  slots : ((book.sideIndex side).entries.map Prod.snd).Nodup
  stored : ∀ entry ∈ (book.sideIndex side).entries, ∃ level, book.getLevel side entry.2 = some level ∧
    level.price = entry.1 ∧ 0 < level.len
  partition : ((book.sideIndex side).entries.map Prod.snd ++ (book.sideIndex side).free).Perm (List.range L)
  vacant : ∀ i ∈ (book.sideIndex side).free, book.getLevel side i = none
  levels : ∀ i level, book.getLevel side i = some level → LevelInvariant level

/-- The id index maps exactly the live ids, each to where its order is stored,
and every live order knows its own index cell. -/
structure IndexInvariant (book : OrderBook L O) : Prop where
  locations : ∀ id location, book.index.location id = some location ↔
    ∃ order, book.liveOrder location = some order ∧ order.id = id
  cells : ∀ location order, book.liveOrder location = some order → ∃ code,
    OrderIndex.encodeLocation L O location = some code ∧
      cell book.index order.indexSlot.val = some (order.id, code)

/-- The full representation invariant. -/
structure BookInvariant (book : OrderBook L O) : Prop where
  sides : ∀ side, SideInvariant book side
  index : IndexInvariant book

/-! ### From the representation relation -/

section Level

variable {level : PriceLevel O} {nodes : List (Nat × ModelOrder)} {free : List Nat}

/-- The links of a threaded list, read slot by slot. -/
theorem links_of_threaded {slots : Vector OrderSlot O} {before : Option Nat}
    (h : Threaded slots before nodes none) (i slot : Nat) (order : RestingOrder)
    (hslot : (nodes.map Prod.fst)[i]? = some slot) (hlive : liveAt slots slot = some order) :
    order.next = (nodes.map Prod.fst)[i + 1]? ∧
      order.prev = if i = 0 then before else (nodes.map Prod.fst)[i - 1]? := by
  induction nodes generalizing before i with
  | nil => simp at hslot
  | cons node rest ih =>
      obtain ⟨j, data⟩ := node
      obtain ⟨⟨v, hv, hprev, hnext, _⟩, hrest⟩ := h
      cases i with
      | zero =>
          simp only [List.map_cons, List.getElem?_cons_zero, Option.some.injEq] at hslot
          subst hslot
          rw [hlive] at hv
          cases hv
          refine ⟨?_, by simpa using hprev⟩
          rw [hnext]
          cases rest <;> simp
      | succ i =>
          simp only [List.map_cons, List.getElem?_cons_succ] at hslot
          obtain ⟨hnext', hprev'⟩ := ih hrest i hslot
          refine ⟨by simpa using hnext', ?_⟩
          rw [hprev']
          cases i <;> simp

/-- A represented level is chained in both directions. -/
theorem LevelRep.chain (rep : LevelRep level nodes free) : LevelChain level (nodes.map Prod.fst) free := by
  have hlinks := links_of_threaded rep.threaded
  refine ⟨?_, ?_, (List.nodup_append.mp rep.nodup).1, ?_, ?_, ?_, ?_, ?_, ?_, rep.freeChain, rep.partition⟩
  · rw [rep.head, List.head?_map]
  · rw [rep.tail, List.getLast?_map]
  · intro slot
    rw [← rep.handle_isSome_iff]
    simp [PriceLevel.handle, handleAt, PriceLevel.getLive]
  · intro i slot order hslot hlive
    exact (hlinks i slot order hslot hlive).1
  · intro i slot order hslot hlive
    simpa using (hlinks (i + 1) slot order hslot hlive).2
  · intro slot order hslot hlive
    simpa using (hlinks 0 slot order hslot hlive).2
  · rw [rep.len, List.length_map]
  · rw [rep.aggregate, List.filterMap_map]
    have hvalues : ∀ list : List (Nat × ModelOrder), (∀ node ∈ list, node ∈ nodes) →
        (list.map fun node => node.2.quantity.val)
          = (list.filterMap (level.getLive ∘ Prod.fst)).map fun order => order.quantity.val := by
      intro list hlist
      induction list with
      | nil => rfl
      | cons node rest ih =>
          obtain ⟨order, hlive, hview⟩ := rep.live _ _ (hlist node (by simp))
          rw [List.map_cons, ih fun other hother => hlist other (by simp [hother]),
            List.filterMap_cons_some (show (level.getLive ∘ Prod.fst) node = some order from hlive), List.map_cons,
            ← hview]
          rfl
    rw [hvalues nodes fun _ => id]

end Level

/-- A represented side satisfies the invariant of a side when no level is
empty. -/
theorem SideRep.invariant {views : List LevelView} (rep : SideRep book side views)
    (hoccupied : ∀ view ∈ views, view.nodes ≠ []) : SideInvariant book side := by
  have hentries := rep.entries
  have hslots : (book.sideIndex side).entries.map Prod.snd = views.map LevelView.slot := by
    rw [hentries, List.map_map]
    rfl
  have hsorted : (book.sideIndex side).entries.Pairwise fun first second =>
      LevelIndex.precedes side.descending second.1 first.1 = true := by
    rw [hentries, List.pairwise_map]
    exact rep.sorted
  refine ⟨hsorted, ?_, ?_, ?_, ?_, rep.vacant, ?_⟩
  · rw [List.Nodup, List.pairwise_map]
    exact hsorted.imp fun h => ne_of_precedes h
  · rw [hslots]
    exact (List.nodup_append.mp rep.nodup).1
  · intro entry hentry
    rw [hentries] at hentry
    obtain ⟨view, hview, rfl⟩ := List.mem_map.mp hentry
    obtain ⟨level, free, hlevel, hprice, hrep⟩ := rep.stored view hview
    refine ⟨level, hlevel, hprice, ?_⟩
    rw [hrep.len]
    exact List.length_pos_of_ne_nil (hoccupied view hview)
  · rw [hslots]
    exact rep.partition
  · intro i level hlevel
    obtain ⟨view, _, _, _, free, hrep⟩ := rep.view_of_getLevel hlevel
    exact ⟨_, free, hrep.chain⟩

/-- A handle is that of a live order at the location. -/
theorem handle_eq_some_iff {location : OrderLocation} {id : OrderId} {indexSlot : U32} :
    book.handle location = some (id, indexSlot) ↔
      ∃ order, book.liveOrder location = some order ∧ order.id = id ∧ order.indexSlot = indexSlot := by
  unfold OrderBook.handle OrderBook.liveOrder
  cases book.getLevel location.side location.levelIndex with
  | none => simp
  | some level => simp [PriceLevel.handle, handleAt, PriceLevel.getLive]

/-- In a represented book the order index and the orders name each other. -/
theorem BookRep.index_invariant {views : Side → List LevelView} (rep : BookRep book views) :
    IndexInvariant book := by
  constructor
  · intro id location
    rw [location_iff rep.tracked]
    constructor
    · rintro ⟨indexSlot, hhandle⟩
      obtain ⟨order, hlive, hid, _⟩ := handle_eq_some_iff.mp hhandle
      exact ⟨order, hlive, hid⟩
    · rintro ⟨order, hlive, hid⟩
      exact ⟨order.indexSlot, handle_eq_some_iff.mpr ⟨order, hlive, hid, rfl⟩⟩
  · intro location order hlive
    have hhandle : book.handle location = some (order.id, order.indexSlot) :=
      handle_eq_some_iff.mpr ⟨order, hlive, rfl, rfl⟩
    obtain ⟨hlevel, hslot⟩ := OrderBook.location_lt (by rw [hhandle]; rfl : (book.handle location).isSome)
    exact ⟨_, encodeLocation_eq _ hlevel hslot, rep.tracked.cell_of_handle hhandle⟩

/-- A book that represents a logical book satisfies the invariant. -/
theorem Represents.invariant (h : Represents book logical) : BookInvariant book := by
  obtain ⟨views, rep, _⟩ := h
  exact ⟨fun side => (rep.side side).invariant (rep.occupied side), rep.index_invariant⟩

/-! ### Runs -/

/-- With every id set of the book indexable, a submission is answered. -/
theorem submit_answers {order : NewOrder} {capacity : Nat} (hfits : ∀ ids : OrderId → Prop,
      (∀ id, ids id → id = order.orderId ∨ logical.Holds id) → FitsIndex L O ids) :
    logical.submit L O order capacity ≠ none := by
  have hrest : ∀ quantity, (logical.setLevels order.side.opposite (matchLevels order.side order.price
      (logical.levels order.side.opposite) order.quantity).2.1).restRemainder L O order quantity ≠ none := by
    intro quantity
    unfold LogicalBook.restRemainder
    split
    · simp
    · rw [if_pos]
      · simp
      · refine hfits _ fun id hid => ?_
        rcases hid with rfl | hid
        · exact .inl rfl
        · exact .inr (holds_of_matched rfl hid)
  unfold LogicalBook.submit
  generalize matchLevels order.side order.price (logical.levels order.side.opposite) order.quantity = matched
    at hrest ⊢
  obtain ⟨left, makers, fills⟩ := matched
  simp only
  generalize ModelBook.remainderCheck (logical.levels order.side) order left L O = check
  by_cases hcapacity : capacity < fills.length
  · simp only [if_pos hcapacity]
    split_ifs <;> simp
  · simp only [if_neg hcapacity]
    cases check with
    | error reason => split_ifs <;> simp
    | ok _ =>
        have hremainder := hrest (if order.timeInForce = .ioc then 0 else left)
        split_ifs <;> simp_all

/-- Every call on a represented book returns and leaves a represented book. -/
theorem answer_represents (hL : 1 ≤ L) (hO : 1 ≤ O) (hindex : 4 * L * O ≤ 2 ^ 32)
    (h : ∃ logical, Represents book logical) (command : BookCommand) :
    ∃ answer book', book.answer command = some (answer, book') ∧ ∃ logical', Represents book' logical' := by
  obtain ⟨logical, represents⟩ := h
  cases command with
  | submit order reports =>
      have hbook := submit_refines represents order reports
      cases hlogical : logical.submit L O order reports.remainingCapacity with
      | none =>
          exact absurd hlogical (submit_answers fun ids hids =>
            fitsIndex_of_represents represents hL hO hindex ids hids)
      | some result =>
          rw [hlogical] at hbook
          obtain ⟨outcome, after⟩ := result
          cases outcome with
          | error reason =>
              obtain ⟨hsubmit, rfl⟩ := hbook
              exact ⟨_, book, by simp [OrderBook.answer, hsubmit]; rfl, after, represents⟩
          | ok found =>
              obtain ⟨book', reports', hsubmit, hrep, _, _⟩ := hbook
              exact ⟨_, book', by simp [OrderBook.answer, hsubmit]; rfl, after, hrep⟩
  | cancel request =>
      obtain ⟨book', hcancel, hrep, _⟩ := cancel_refines represents request
      exact ⟨_, book', by simp [OrderBook.answer, hcancel]; rfl, _, hrep⟩
  | replace request =>
      obtain ⟨book', hreplace, hrep, _⟩ := replace_refines represents request
      exact ⟨_, book', by simp [OrderBook.answer, hreplace]; rfl, _, hrep⟩

/-- The representation invariant holds after every run of submissions, cancels
and amends, whatever they return, from an empty book or from a book restored
from a state; and every such run goes through. -/
theorem book_invariant_of_run (hL : 1 ≤ L) (hO : 1 ≤ O) (hindex : 4 * L * O ≤ 2 ^ 32)
    {start : OrderBook L O} (instrument : InstrumentId)
    (hstart : start = OrderBook.new instrument ∨
      ∃ state : BookState L O, OrderBook.fromState instrument state = .ok start)
    (commands : List BookCommand) :
    ∃ answers book, run OrderBook.answer start commands = some (answers, book) ∧ BookInvariant book := by
  have hrep : ∃ logical, Represents start logical := by
    rcases hstart with rfl | ⟨state, hstate⟩
    · exact ⟨_, represents_new instrument⟩
    · exact ⟨_, (represents_of_fromState hstate).2.2⟩
  obtain ⟨answers, book, hrun, logical, hbook⟩ :=
    run_total (fun h command => answer_represents hL hO hindex h command) commands hrep
  exact ⟨answers, book, hrun, hbook.invariant⟩

/-- The sample run from an empty book of two levels a side with two orders
each. -/
theorem book_invariant_of_run_sample :
    ∃ answers, ∃ book : OrderBook 2 2,
      run OrderBook.answer (OrderBook.new 7) sampleCommands = some (answers, book) ∧ BookInvariant book :=
  book_invariant_of_run (by decide) (by decide) (by decide) 7 (.inl rfl) sampleCommands

end HftEngine
