/-
Module: HftEngine.Lib.SlotArena
Layer: Lib
Purpose: Fixed arenas of slots. A slot is live or a link of the free list; live
  slots may in addition be threaded into a doubly linked list through links
  stored in their values. `FreeChain` and `Linked` give the lists the links
  spell out, with the rules for taking and returning a slot and for appending,
  unlinking and rewriting a node.
Imports: HftEngine.Lib.Machine
Trusted boundary: none (fully proved)
Main exports: Slot, liveAt, freeAt, setSlot, FreeChain, freshSlots, Linked,
  walk, Linked.append_iff, Linked.retarget_next, Linked.retarget_prev,
  walk_of_linked, contents, contents_update
-/
import HftEngine.Lib.Machine

namespace HftEngine.SlotArena

variable {α β : Type} {n : Nat}

/-- One slot of an arena. Links are slot numbers; `none` ends a list. -/
inductive Slot (α : Type) where
  | free (nextFree : Option Nat)
  | live (value : α)
deriving DecidableEq, Repr

/-- The value of a live slot. -/
def liveAt (slots : Vector (Slot α) n) (i : Nat) : Option α :=
  match slots[i]? with
  | some (.live value) => some value
  | _ => none

/-- The free-list link of a free slot. -/
def freeAt (slots : Vector (Slot α) n) (i : Nat) : Option (Option Nat) :=
  match slots[i]? with
  | some (.free link) => some link
  | _ => none

/-- Overwrites one slot. -/
def setSlot (slots : Vector (Slot α) n) (i : Nat) (slot : Slot α) : Vector (Slot α) n :=
  slots.setIfInBounds i slot

/-- Rewrites the value of a live slot and leaves any other slot alone. -/
def modifyLive (slots : Vector (Slot α) n) (i : Nat) (f : α → α) : Vector (Slot α) n :=
  match liveAt slots i with
  | some value => setSlot slots i (.live (f value))
  | none => slots

/-- All slots free and chained in increasing order. -/
def freshSlots (n : Nat) : Vector (Slot α) n :=
  Vector.ofFn fun i => .free (if i.val + 1 < n then some (i.val + 1) else none)

section Access

variable {slots : Vector (Slot α) n} {i j : Nat} {slot : Slot α} {value : α}

/-- A slot reads as it was written last; a write past the end has no effect. -/
theorem getElem?_setSlot :
    (setSlot slots i slot)[j]? = if i = j ∧ i < n then some slot else slots[j]? := by
  unfold setSlot
  rw [Vector.getElem?_setIfInBounds]
  by_cases hij : i = j
  · subst hij
    by_cases hi : i < n <;> simp [hi]
  · simp [hij]

/-- Live values after a slot has been filled. -/
theorem liveAt_setSlot_live :
    liveAt (setSlot slots i (.live value)) j = if i = j ∧ i < n then some value else liveAt slots j := by
  unfold liveAt
  rw [getElem?_setSlot]
  by_cases h : i = j ∧ i < n
  · simp only [if_pos h]
  · simp only [if_neg h]

/-- Live values after a slot has been emptied. -/
theorem liveAt_setSlot_free {link : Option Nat} :
    liveAt (setSlot slots i (.free link)) j = if i = j ∧ i < n then none else liveAt slots j := by
  unfold liveAt
  rw [getElem?_setSlot]
  by_cases h : i = j ∧ i < n
  · simp only [if_pos h]
  · simp only [if_neg h]

/-- Free links after a slot has been filled. -/
theorem freeAt_setSlot_live :
    freeAt (setSlot slots i (.live value)) j = if i = j ∧ i < n then none else freeAt slots j := by
  unfold freeAt
  rw [getElem?_setSlot]
  by_cases h : i = j ∧ i < n
  · simp only [if_pos h]
  · simp only [if_neg h]

/-- Free links after a slot has been emptied. -/
theorem freeAt_setSlot_free {link : Option Nat} :
    freeAt (setSlot slots i (.free link)) j = if i = j ∧ i < n then some link else freeAt slots j := by
  unfold freeAt
  rw [getElem?_setSlot]
  by_cases h : i = j ∧ i < n
  · simp only [if_pos h]
  · simp only [if_neg h]

theorem liveAt_setSlot_of_ne (h : i ≠ j) : liveAt (setSlot slots i slot) j = liveAt slots j := by
  unfold liveAt
  simp [getElem?_setSlot, h]

/-- Writing a slot back as it was read changes nothing. -/
theorem setSlot_self (h : slots[i]? = some slot) : setSlot slots i slot = slots := by
  apply Vector.ext
  intro j hj
  unfold setSlot
  rw [Vector.getElem_setIfInBounds]
  by_cases hij : i = j
  · subst hij
    rw [Vector.getElem?_eq_getElem hj] at h
    simpa using h.symm
  · rw [if_neg hij]

theorem freeAt_setSlot_of_ne (h : i ≠ j) : freeAt (setSlot slots i slot) j = freeAt slots j := by
  unfold freeAt
  simp [getElem?_setSlot, h]

theorem getElem?_eq_live_iff : slots[i]? = some (.live value) ↔ liveAt slots i = some value := by
  unfold liveAt
  split <;> simp_all

theorem getElem?_eq_free_iff {link : Option Nat} :
    slots[i]? = some (.free link) ↔ freeAt slots i = some link := by
  unfold freeAt
  split <;> simp_all

/-- Only slots within the arena are live. -/
theorem lt_of_liveAt (h : liveAt slots i = some value) : i < n := by
  by_contra hge
  rw [← getElem?_eq_live_iff, Vector.getElem?_eq_none (by omega)] at h
  cases h

/-- A slot is not live and free at once. -/
theorem liveAt_eq_none_of_freeAt {link : Option Nat} (h : freeAt slots i = some link) :
    liveAt slots i = none := by
  rw [← getElem?_eq_free_iff] at h
  simp [liveAt, h]

theorem freeAt_eq_none_of_liveAt (h : liveAt slots i = some value) : freeAt slots i = none := by
  rw [← getElem?_eq_live_iff] at h
  simp [freeAt, h]

end Access

/-! ### Free lists -/

/-- Following the free links from `head` visits exactly the slots of the
list. -/
def FreeChain (slots : Vector (Slot α) n) : Option Nat → List Nat → Prop
  | head, [] => head = none
  | head, i :: rest => head = some i ∧ ∃ link, freeAt slots i = some link ∧ FreeChain slots link rest

section Free

variable {slots slots' : Vector (Slot α) n} {head : Option Nat} {free : List Nat} {i : Nat}

/-- A free list looks at its own slots only. -/
theorem FreeChain.congr (h : FreeChain slots head free)
    (same : ∀ i ∈ free, freeAt slots' i = freeAt slots i) : FreeChain slots' head free := by
  induction free generalizing head with
  | nil => exact h
  | cons i rest ih =>
      obtain ⟨hhead, link, hlink, hrest⟩ := h
      refine ⟨hhead, link, ?_, ih hrest fun j hj => same j (List.mem_cons_of_mem _ hj)⟩
      rw [same i List.mem_cons_self, hlink]

/-- What a free list passes through is free. -/
theorem FreeChain.isFree (h : FreeChain slots head free) (hi : i ∈ free) :
    ∃ link, freeAt slots i = some link := by
  induction free generalizing head with
  | nil => simp at hi
  | cons j rest ih =>
      obtain ⟨_, link, hlink, hrest⟩ := h
      rcases List.mem_cons.mp hi with rfl | hi
      · exact ⟨link, hlink⟩
      · exact ih hrest hi

/-- The head link names the first free slot, or none if there is none. -/
theorem FreeChain.head_eq (h : FreeChain slots head free) : head = free.head? := by
  cases free with
  | nil => exact h
  | cons i rest => exact h.1

/-- Returning a slot puts it in front of the free list. -/
theorem FreeChain.release (h : FreeChain slots head free) (hi : i < n) (hnew : i ∉ free) :
    FreeChain (setSlot slots i (.free head)) (some i) (i :: free) := by
  refine ⟨rfl, head, by simp [freeAt_setSlot_free, hi], h.congr fun j hj => ?_⟩
  exact freeAt_setSlot_of_ne fun heq => hnew (heq ▸ hj)

/-- A fresh arena links every slot to the next and ends at the last. -/
theorem freeAt_freshSlots (hi : i < n) :
    freeAt (freshSlots n : Vector (Slot α) n) i = some (if i + 1 < n then some (i + 1) else none) := by
  rw [← getElem?_eq_free_iff]
  simp [freshSlots, hi]

theorem liveAt_freshSlots (i : Nat) : liveAt (freshSlots n : Vector (Slot α) n) i = none := by
  by_cases hi : i < n
  · exact liveAt_eq_none_of_freeAt (freeAt_freshSlots hi)
  · simp [liveAt, freshSlots, hi]

/-- In a fresh arena the free list from any slot on is the rest of the
arena. -/
theorem freeChain_of_fresh {first : Nat} (hfirst : first ≤ n)
    (fresh : ∀ i, first ≤ i → i < n → freeAt slots i = some (if i + 1 < n then some (i + 1) else none)) :
    FreeChain slots (if first < n then some first else none) (List.range' first (n - first)) := by
  obtain ⟨count, hcount⟩ : ∃ count, n - first = count := ⟨_, rfl⟩
  induction count generalizing first with
  | zero =>
      rw [hcount]
      simp [FreeChain, show ¬first < n by omega]
  | succ count ih =>
      rw [hcount, List.range'_succ]
      refine ⟨by simp [show first < n by omega], _, fresh first (Nat.le_refl _) (by omega), ?_⟩
      have := @ih (first + 1) (by omega) (fun i hi => fresh i (by omega)) (by omega)
      rwa [show n - (first + 1) = count by omega] at this

/-- The free list of a fresh arena is all of its slots in increasing order. -/
theorem freeChain_freshSlots :
    FreeChain (freshSlots n : Vector (Slot α) n) (if 0 < n then some 0 else none) (List.range n) := by
  have hchain : FreeChain (freshSlots n : Vector (Slot α) n) _ _ :=
    freeChain_of_fresh (Nat.zero_le n) fun i _ hi => freeAt_freshSlots hi
  simpa [List.range_eq_range'] using hchain

end Free

/-! ### Doubly linked lists -/

section List

variable (prev next : α → Option Nat) (data : α → β)

/-- The nodes of the list are live, carry the given data and are linked to
their neighbours; `before` and `after` are the slots next to the two ends. -/
def Linked (slots : Vector (Slot α) n) : Option Nat → List (Nat × β) → Option Nat → Prop
  | _, [], _ => True
  | before, (i, d) :: rest, after =>
      (∃ v, liveAt slots i = some v ∧ prev v = before ∧ next v = (rest.head?.map Prod.fst).or after ∧
        data v = d) ∧ Linked slots (some i) rest after

/-- Follows the forward links from a slot. The walk stops at the end of the
list, at a slot that is not live, or when the fuel is spent. -/
def walk (slots : Vector (Slot α) n) : (fuel : Nat) → Option Nat → List α
  | 0, _ => []
  | _ + 1, none => []
  | fuel + 1, some i =>
      match liveAt slots i with
      | none => []
      | some v => v :: walk slots fuel (next v)

variable {prev next data} {slots slots' : Vector (Slot α) n} {before after : Option Nat}
  {nodes : List (Nat × β)} {i : Nat} {d : β}

/-- A linked list looks at its own nodes only. -/
theorem Linked.congr (h : Linked prev next data slots before nodes after)
    (same : ∀ i ∈ nodes.map Prod.fst, liveAt slots' i = liveAt slots i) :
    Linked prev next data slots' before nodes after := by
  induction nodes generalizing before with
  | nil => trivial
  | cons node rest ih =>
      obtain ⟨i, d⟩ := node
      obtain ⟨⟨v, hv, hlinks⟩, hrest⟩ := h
      refine ⟨⟨v, ?_, hlinks⟩, ih hrest fun j hj => same j (List.mem_cons_of_mem _ hj)⟩
      rw [same i (by simp), hv]

/-- A list splits anywhere; the two parts see each other's ends. -/
theorem Linked.append_iff {first second : List (Nat × β)} :
    Linked prev next data slots before (first ++ second) after ↔
      Linked prev next data slots before first ((second.head?.map Prod.fst).or after) ∧
        Linked prev next data slots ((first.getLast?.map Prod.fst).or before) second after := by
  induction first generalizing before with
  | nil => simp [Linked]
  | cons node rest ih =>
      obtain ⟨i, d⟩ := node
      have hhead : (((rest ++ second).head?.map Prod.fst).or after)
          = ((rest.head?.map Prod.fst).or ((second.head?.map Prod.fst).or after)) := by
        cases rest <;> simp
      have hlast : ((((i, d) :: rest).getLast?.map Prod.fst).or before)
          = ((rest.getLast?.map Prod.fst).or (some i)) := by
        cases hr : rest.getLast? with
        | none =>
            rw [List.getLast?_eq_none_iff] at hr
            subst hr
            simp
        | some last =>
            cases rest with
            | nil => simp at hr
            | cons a rest =>
                rw [List.getLast?_cons_cons, hr]
                simp
      simp only [List.cons_append, Linked, ih, hhead, hlast, and_assoc]

/-- Every node of a linked list is a live slot with the recorded value. -/
theorem Linked.isLive (h : Linked prev next data slots before nodes after)
    (hmem : (i, d) ∈ nodes) : ∃ v, liveAt slots i = some v ∧ data v = d := by
  induction nodes generalizing before with
  | nil => simp at hmem
  | cons node rest ih =>
      obtain ⟨j, e⟩ := node
      obtain ⟨⟨v, hv, _, _, hd⟩, hrest⟩ := h
      rcases List.mem_cons.mp hmem with heq | hmem
      · cases heq
        exact ⟨v, hv, hd⟩
      · exact ih hrest hmem

/-- Rewriting the forward link of the last node. -/
theorem Linked.retarget_next {v v' : α} {after' : Option Nat}
    (h : Linked prev next data slots before (nodes ++ [(i, d)]) after)
    (hnew : i ∉ nodes.map Prod.fst) (hv : liveAt slots i = some v) (hprev : prev v' = prev v)
    (hnext : next v' = after') (hdata : data v' = data v) :
    Linked prev next data (setSlot slots i (.live v')) before (nodes ++ [(i, d)]) after' := by
  rw [Linked.append_iff] at h ⊢
  obtain ⟨hfirst, ⟨u, hu, huprev, _, hudata⟩, _⟩ := h
  rw [hv] at hu
  cases hu
  have hi := lt_of_liveAt hv
  refine ⟨?_, ⟨v', by simp [liveAt_setSlot_live, hi], by rw [hprev, huprev], by simpa using hnext,
    by rw [hdata, hudata]⟩, trivial⟩
  refine Linked.congr (by simpa using hfirst) fun j hj => liveAt_setSlot_of_ne ?_
  rintro rfl
  exact hnew hj

/-- Rewriting the backward link of the first node. -/
theorem Linked.retarget_prev {v v' : α} {before' : Option Nat}
    (h : Linked prev next data slots before ((i, d) :: nodes) after)
    (hnew : i ∉ nodes.map Prod.fst) (hv : liveAt slots i = some v) (hprev : prev v' = before')
    (hnext : next v' = next v) (hdata : data v' = data v) :
    Linked prev next data (setSlot slots i (.live v')) before' ((i, d) :: nodes) after := by
  obtain ⟨⟨u, hu, _, hunext, hudata⟩, hrest⟩ := h
  rw [hv] at hu
  cases hu
  have hi := lt_of_liveAt hv
  refine ⟨⟨v', by simp [liveAt_setSlot_live, hi], hprev, by rw [hnext, hunext],
    by rw [hdata, hudata]⟩, hrest.congr fun j hj => liveAt_setSlot_of_ne ?_⟩
  rintro rfl
  exact hnew hj

/-- Rewriting the data of one node, links untouched. -/
theorem Linked.rewrite {first second : List (Nat × β)} {v : α}
    (h : Linked prev next data slots before (first ++ (i, d) :: second) after) (v' : α)
    (hnew : i ∉ (first ++ second).map Prod.fst) (hv : liveAt slots i = some v)
    (hprev : prev v' = prev v) (hnext : next v' = next v) :
    Linked prev next data (setSlot slots i (.live v')) before (first ++ (i, data v') :: second)
      after := by
  rw [Linked.append_iff] at h ⊢
  obtain ⟨hfirst, ⟨u, hu, huprev, hunext, _⟩, hsecond⟩ := h
  rw [hv] at hu
  cases hu
  have hi := lt_of_liveAt hv
  have hne : ∀ j ∈ (first ++ second).map Prod.fst, i ≠ j := by
    rintro j hj rfl
    exact hnew hj
  refine ⟨?_, ⟨v', by simp [liveAt_setSlot_live, hi], by rw [hprev, huprev], by rw [hnext, hunext], rfl⟩,
    hsecond.congr fun j hj => liveAt_setSlot_of_ne (hne j (by simp at hj ⊢; exact .inr hj))⟩
  refine Linked.congr (by simpa using hfirst) fun j hj => liveAt_setSlot_of_ne ?_
  exact hne j (by simp at hj ⊢; exact .inl hj)

/-- Walking a linked list to its end yields its data. -/
theorem walk_of_linked {fuel : Nat} (h : Linked prev next data slots before nodes none)
    (hfuel : nodes.length ≤ fuel) :
    (walk next slots fuel (nodes.head?.map Prod.fst)).map data = nodes.map Prod.snd := by
  induction nodes generalizing before fuel with
  | nil => cases fuel <;> simp [walk]
  | cons node rest ih =>
      obtain ⟨i, d⟩ := node
      obtain ⟨⟨v, hv, _, hnext, hdata⟩, hrest⟩ := h
      cases fuel with
      | zero => simp at hfuel
      | succ fuel =>
          have hlink : next v = rest.head?.map Prod.fst := by simpa using hnext
          simp only [List.head?_cons, Option.map_some, walk, hv, hlink, List.map_cons, hdata]
          rw [ih hrest (by simpa using hfuel)]

end List

/-! ### Contents -/

section Contents

variable {i : Nat} {f : Nat → Option α} {x : α}

/-- The occupied places of a store, in storage order. -/
def contents (n : Nat) (f : Nat → Option α) : List α := (List.range n).filterMap f

/-- The contents are the values found at the places below `n`. -/
theorem mem_contents : x ∈ contents n f ↔ ∃ i < n, f i = some x := by
  simp [contents, List.mem_filterMap]

/-- Rewriting one place exchanges what it held; the rest stays. -/
theorem contents_update (hi : i < n) : ∃ rest : List α, (contents n f).Perm ((f i).toList ++ rest) ∧
    ∀ y, (contents n (Function.update f i y)).Perm (y.toList ++ rest) := by
  have hperm : (List.range n).Perm (i :: (List.range n).erase i) :=
    List.perm_cons_erase (List.mem_range.mpr hi)
  refine ⟨((List.range n).erase i).filterMap f, ?_, fun y => ?_⟩
  · refine (hperm.filterMap f).trans ?_
    rw [List.filterMap_cons]
    cases f i <;> exact List.Perm.refl _
  · have hrest : ((List.range n).erase i).filterMap (Function.update f i y)
        = ((List.range n).erase i).filterMap f := by
      refine List.filterMap_congr fun j hj => ?_
      have hne : j ≠ i := fun h => (List.nodup_range.not_mem_erase) (h ▸ hj)
      rw [Function.update_of_ne hne]
    refine (hperm.filterMap _).trans ?_
    rw [List.filterMap_cons, Function.update_self, hrest]
    cases y <;> exact List.Perm.refl _

/-- Places from `n` on do not matter for the contents. -/
theorem contents_congr {g : Nat → Option α} (h : ∀ i < n, f i = g i) : contents n f = contents n g :=
  List.filterMap_congr fun i hi => h i (List.mem_range.mp hi)

/-- The occupied places and a list of the empty ones make up the store. -/
theorem length_contents_add {free : List Nat} (hnodup : free.Nodup)
    (hfree : ∀ i, i ∈ free ↔ i < n ∧ f i = none) : (contents n f).length + free.length = n := by
  have hperm : free.Perm ((List.range n).filter fun i => !(f i).isSome) := by
    refine (List.perm_ext_iff_of_nodup hnodup (List.nodup_range.filter _)).mpr fun i => ?_
    simp [hfree]
  have hcount := List.length_eq_countP_add_countP (fun i => (f i).isSome) (l := List.range n)
  have hoccupied : (contents n f).length = (List.range n).countP fun i => (f i).isSome := by
    unfold contents
    rw [List.length_filterMap_eq_countP]
  have hempty : free.length = (List.range n).countP fun i => decide ¬(f i).isSome = true := by
    rw [hperm.length_eq, ← List.countP_eq_length_filter]
    refine List.countP_congr fun i _ => ?_
    simp
  rw [List.length_range] at hcount
  omega

/-- Selecting from a vector is reading its places in order. -/
theorem filterMap_toList {β : Type} {items : Vector β n} {g : β → Option α} :
    items.toList.filterMap g = contents n fun i => items[i]?.bind g := by
  have hplaces : items.toList.map some = (List.range n).map fun i => items[i]? := by
    refine List.ext_getElem? fun i => ?_
    by_cases hi : i < n
    · simp [hi]
    · simp [hi]
  calc items.toList.filterMap g = (items.toList.map some).filterMap fun item => item.bind g := by
        rw [List.filterMap_map]
        rfl
    _ = contents n fun i => items[i]?.bind g := by
        rw [hplaces, List.filterMap_map]
        rfl

end Contents

end HftEngine.SlotArena
