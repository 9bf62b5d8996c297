/-
Module: HftEngine.Proofs.RouteTable
Layer: Proofs
Purpose: The route table is a bijection between the shards and the instruments
  it was built from. The table is built exactly when the shard identifiers are
  a permutation of the shard range and the instruments are distinct; both
  lookups then answer by membership in the input, whatever its order.
Imports: HftEngine.Core.Router
Trusted boundary: none (fully proved)
Main exports: RouteTable.Built, RouteTable.tryNew_built,
  RouteTable.tryNew_refuses, route_table_bijection
-/
import HftEngine.Core.Router

namespace HftEngine

open KeyedList Machine

namespace RouteTable

variable {shards : Nat} {routes : Vector InstrumentRoute shards} {table : RouteTable shards}

/-! ### The scans -/

/-- The shard scan passes when every identifier is in range, not yet seen and
used once. -/
theorem checkShards_ok_iff (seen : Vector Bool shards) (l : List InstrumentRoute) :
    checkShards seen l = .ok () ↔
      (∀ route ∈ l, seen[route.shardId.val]? = some false) ∧ (l.map (·.shardId)).Nodup := by
  induction l generalizing seen with
  | nil => simp [checkShards]
  | cons route rest ih =>
      rw [checkShards]
      split
      · rename_i hlt
        rw [List.map_cons, List.nodup_cons, List.forall_mem_cons, Vector.getElem?_eq_getElem hlt]
        split
        · rename_i hseen
          simp [hseen]
        · rename_i hunseen
          rw [ih]
          have hset : ∀ other : InstrumentRoute, (seen.set route.shardId.val true)[other.shardId.val]? = some false ↔
              route.shardId ≠ other.shardId ∧ seen[other.shardId.val]? = some false := by
            intro other
            rw [Vector.getElem?_set hlt]
            split
            · rename_i heq
              simp [Fin.ext heq]
            · rename_i hne
              simp [Fin.ext_iff, hne]
          simp only [hset, List.mem_map, hunseen]
          constructor
          · rintro ⟨hrest, hnodup⟩
            refine ⟨⟨by simp, fun other hmem => (hrest other hmem).2⟩, ?_, hnodup⟩
            rintro ⟨other, hmem, heq⟩
            exact (hrest other hmem).1 heq.symm
          · rintro ⟨⟨_, hrest⟩, hfresh, hnodup⟩
            refine ⟨fun other hmem => ⟨fun heq => hfresh ⟨other, hmem, heq.symm⟩, hrest other hmem⟩, hnodup⟩
      · rename_i hge
        have hnone : seen[route.shardId.val]? = none := Vector.getElem?_eq_none (Nat.le_of_not_lt hge)
        simp [hnone]

/-- The scan of neighbours in a sorted list passes when no instrument
repeats. -/
theorem checkInstruments_ok_iff (l : List InstrumentRoute)
    (hsorted : l.Pairwise fun first second => first.instrumentId ≤ second.instrumentId) :
    checkInstruments l = .ok () ↔ Ascending (·.instrumentId) l := by
  induction l with
  | nil => simp [checkInstruments, Ascending]
  | cons first tail ih =>
      cases tail with
      | nil => simp [checkInstruments, Ascending]
      | cons second rest =>
          have htail := List.pairwise_cons.mp hsorted
          rw [checkInstruments]
          split
          · rename_i heq
            constructor
            · intro h
              cases h
            · intro h
              exact absurd heq ((List.pairwise_cons.mp h).1 second (by simp)).ne
          · rename_i hne
            rw [ih htail.2]
            refine ⟨fun h => List.pairwise_cons.mpr ⟨?_, h⟩, fun h => (List.pairwise_cons.mp h).2⟩
            have hlt : first.instrumentId < second.instrumentId :=
              lt_of_le_of_ne (htail.1 second (by simp)) hne
            intro other hmem
            rcases List.mem_cons.mp hmem with rfl | hmem
            · exact hlt
            · exact hlt.trans ((List.pairwise_cons.mp h).1 other hmem)

/-- Filling the shard index keeps the entries of other shards and records each
route's position. -/
theorem indexShards_ok (byShard : Vector U16 shards) (index : Nat) (l : List InstrumentRoute)
    (hfits : index + l.length ≤ 2 ^ 16) (hrange : ∀ route ∈ l, route.shardId.val < shards)
    (hnodup : (l.map (·.shardId)).Nodup) :
    ∃ byShard', indexShards byShard index l = some (.ok byShard') ∧
      (∀ shard : ShardId, shard ∉ l.map (·.shardId) → byShard'[shard.val]? = byShard[shard.val]?) ∧
      ∀ i route, l[i]? = some route → byShard'[route.shardId.val]?.map Fin.val = some (index + i) := by
  induction l generalizing byShard index with
  | nil => exact ⟨byShard, rfl, fun _ _ => rfl, fun i route h => by simp at h⟩
  | cons route rest ih =>
      rw [List.length_cons] at hfits
      have hindex : index < 2 ^ 16 := by omega
      have hshard := hrange route (by simp)
      rw [List.map_cons, List.nodup_cons] at hnodup
      obtain ⟨byShard', hbuilt, hkept, hplaced⟩ := ih (byShard.set route.shardId.val ⟨index, hindex⟩) (index + 1)
        (by omega) (fun other hmem => hrange other (by simp [hmem])) hnodup.2
      refine ⟨byShard', by rw [indexShards, dif_pos hindex, dif_pos hshard, hbuilt], ?_, ?_⟩
      · intro shard hfresh
        rw [List.map_cons, List.mem_cons, not_or] at hfresh
        rw [hkept shard hfresh.2, Vector.getElem?_set_ne hshard]
        exact fun heq => hfresh.1 (Fin.ext heq.symm)
      · intro i other hother
        cases i with
        | zero =>
            obtain rfl : route = other := by simpa using hother
            rw [hkept _ hnodup.1, Vector.getElem?_set_self hshard]
            rfl
        | succ i =>
            rw [hplaced i other (by simpa using hother)]
            congr 1
            omega

/-! ### What a built table holds -/

/-- The table holds the input's routes in instrument order, each position under
its shard. -/
structure Built (routes : Vector InstrumentRoute shards) (table : RouteTable shards) : Prop where
  perm : table.byInstrument.toList.Perm routes.toList
  ascending : Ascending (·.instrumentId) table.byInstrument.toList
  placed : ∀ (i : Nat) (route : InstrumentRoute), table.byInstrument[i]? = some route →
    table.byShard[route.shardId.val]?.map Fin.val = some i
  covered : ∀ shard : ShardId, shard.val < shards → ∃ route ∈ routes.toList, route.shardId = shard
  dense_iff : table.dense = true ↔ ∃ (first last : InstrumentRoute), table.byInstrument[0]? = some first ∧
    table.byInstrument[shards - 1]? = some last ∧
    last.instrumentId.val = first.instrumentId.val + (shards - 1)

/-- What the constructor accepts. -/
structure Acceptable (routes : Vector InstrumentRoute shards) : Prop where
  one_le : 1 ≤ shards
  le_max : shards ≤ 65536
  shardIds : (routes.toList.map (·.shardId.val)).Perm (List.range shards)
  instruments : (routes.toList.map (·.instrumentId)).Nodup

/-- No shard of an acceptable list has two routes. -/
theorem Acceptable.shardIds_nodup (h : Acceptable routes) : (routes.toList.map (·.shardId)).Nodup := by
  refine List.Nodup.of_map Fin.val ?_
  rw [List.map_map]
  exact h.shardIds.nodup_iff.mpr List.nodup_range

/-- Every route leads to a shard that is there. -/
theorem Acceptable.shardId_lt (h : Acceptable routes) {route : InstrumentRoute} (hmem : route ∈ routes.toList) :
    route.shardId.val < shards :=
  List.mem_range.mp (h.shardIds.subset (List.mem_map_of_mem hmem))

/-- Distinct shard identifiers in range are all of them. -/
theorem shardIds_perm (hrange : ∀ route ∈ routes.toList, route.shardId.val < shards)
    (hnodup : (routes.toList.map (·.shardId)).Nodup) :
    (routes.toList.map (·.shardId.val)).Perm (List.range shards) := by
  have hvals : (routes.toList.map (·.shardId.val)).Nodup := by
    have := hnodup.map Fin.val_injective
    rwa [List.map_map] at this
  have hsub : routes.toList.map (·.shardId.val) ⊆ List.range shards := by
    intro shard hmem
    obtain ⟨route, hroute, rfl⟩ := List.mem_map.mp hmem
    exact List.mem_range.mpr (hrange route hroute)
  exact (hvals.subperm hsub).perm_of_length_le (by simp)

/-- The constructor's shard scan decides the condition on shard identifiers. -/
theorem checkShards_iff :
    checkShards (Vector.replicate shards false) routes.toList = .ok () ↔
      (routes.toList.map (·.shardId.val)).Perm (List.range shards) := by
  rw [checkShards_ok_iff]
  have hunseen : ∀ route : InstrumentRoute,
      (Vector.replicate shards false)[route.shardId.val]? = some false ↔ route.shardId.val < shards := by
    intro route
    simp [Vector.getElem?_replicate]
  simp only [hunseen]
  constructor
  · rintro ⟨hrange, hnodup⟩
    exact shardIds_perm hrange hnodup
  · intro hperm
    refine ⟨fun route hmem => List.mem_range.mp (hperm.subset (List.mem_map_of_mem hmem)), ?_⟩
    refine List.Nodup.of_map Fin.val ?_
    rw [List.map_map]
    exact hperm.nodup_iff.mpr List.nodup_range

/-- Sorting is insertion sort by instrument, whatever way the source sorts:
acceptable routes have distinct instruments. -/
theorem sortRoutes_toList : (sortRoutes routes).toList =
    routes.toList.insertionSort fun first second => first.instrumentId ≤ second.instrumentId := by
  simp [sortRoutes, Vector.toList]

theorem sortRoutes_perm : (sortRoutes routes).toList.Perm routes.toList := by
  rw [sortRoutes_toList]
  exact List.perm_insertionSort _ _

/-- The constructor's instrument scan decides whether the instruments are
distinct. -/
theorem checkInstruments_iff :
    checkInstruments (sortRoutes routes).toList = .ok () ↔ (routes.toList.map (·.instrumentId)).Nodup := by
  have hsorted : (sortRoutes routes).toList.Pairwise
      fun first second => first.instrumentId ≤ second.instrumentId := by
    have : Std.Total fun a b : InstrumentRoute => a.instrumentId ≤ b.instrumentId := ⟨fun a b => le_total _ _⟩
    have : IsTrans InstrumentRoute fun a b => a.instrumentId ≤ b.instrumentId := ⟨fun _ _ _ => le_trans⟩
    rw [sortRoutes_toList]
    exact List.pairwise_insertionSort _ _
  rw [checkInstruments_ok_iff _ hsorted]
  constructor
  · intro h
    exact (sortRoutes_perm.map _).nodup_iff.mp h.nodup
  · intro h
    rw [sortRoutes_toList]
    exact ascending_insertionSort h

/-- An acceptable input builds a table. -/
theorem tryNew_built (h : Acceptable routes) :
    ∃ table, tryNew routes = some (.ok table) ∧ Built routes table ∧ table.byInstrument = sortRoutes routes := by
  have hpos := h.one_le
  have hle := h.le_max
  have hperm : (sortRoutes routes).toList.Perm routes.toList := sortRoutes_perm
  have hasc : Ascending (·.instrumentId) (sortRoutes routes).toList := by
    rw [sortRoutes_toList]
    exact ascending_insertionSort h.instruments
  obtain ⟨byShard, hindexed, -, hplaced⟩ := indexShards_ok (Vector.replicate shards 0) 0 (sortRoutes routes).toList
    (by simpa using hle) (fun route hmem => h.shardId_lt (hperm.subset hmem))
    ((hperm.map _).nodup_iff.mpr h.shardIds_nodup)
  have hspread : (sortRoutes routes)[0].instrumentId ≤ (sortRoutes routes)[shards - 1].instrumentId := by
    rcases Nat.eq_or_lt_of_le hpos with rfl | hlt
    · exact le_rfl
    · have := List.pairwise_iff_getElem.mp hasc 0 (shards - 1) (by simp; omega) (by simp; omega) (by omega)
      simpa using this.le
  obtain ⟨spread, hsub⟩ : ∃ spread,
      checkedSub (sortRoutes routes)[shards - 1].instrumentId (sortRoutes routes)[0].instrumentId = some spread := by
    rw [← Option.ne_none_iff_exists', ne_eq, checkedSub_eq_none]
    exact Nat.not_lt.mpr hspread
  have hval := checkedSub_eq_some.mp hsub
  refine ⟨⟨sortRoutes routes, byShard, decide (spread.val = shards - 1)⟩, ?_, ?_, rfl⟩
  · rw [tryNew, dif_neg (by omega), if_neg (by omega), checkShards_iff.mpr h.shardIds]
    dsimp only
    rw [checkInstruments_iff.mpr h.instruments]
    dsimp only
    rw [hindexed]
    dsimp only
    rw [hsub]
    dsimp only
    rw [if_pos (by omega)]
  · refine ⟨hperm, hasc, ?_, ?_, ?_⟩
    · intro i route hroute
      have := hplaced i route (by simpa using hroute)
      simpa using this
    · intro shard hlt
      obtain ⟨route, hmem, heq⟩ := List.mem_map.mp (h.shardIds.symm.subset (List.mem_range.mpr hlt))
      exact ⟨route, hmem, Fin.ext heq⟩
    · simp only [decide_eq_true_eq]
      rw [Vector.getElem?_eq_getElem (by omega : 0 < shards),
        Vector.getElem?_eq_getElem (by omega : shards - 1 < shards)]
      constructor
      · intro heq
        exact ⟨_, _, rfl, rfl, by omega⟩
      · rintro ⟨first, last, hfirst, hlast, heq⟩
        obtain rfl := Option.some.inj hfirst
        obtain rfl := Option.some.inj hlast
        omega

/-- Any other input is refused with an error. -/
theorem tryNew_refuses (h : ¬Acceptable routes) : ∃ error, tryNew routes = some (.error error) := by
  rw [tryNew]
  split
  · exact ⟨_, rfl⟩
  rename_i hpos
  split
  · exact ⟨_, rfl⟩
  rename_i hle
  cases hshards : checkShards (Vector.replicate shards false) routes.toList with
  | error error => exact ⟨error, rfl⟩
  | ok =>
      dsimp only
      cases hinstruments : checkInstruments (sortRoutes routes).toList with
      | error error => exact ⟨error, rfl⟩
      | ok =>
          exact absurd ⟨by omega, by omega, checkShards_iff.mp hshards, checkInstruments_iff.mp hinstruments⟩ h

/-! ### Lookups -/

/-- A route is in the input exactly when it stands somewhere in the table. -/
theorem Built.mem_iff (h : Built routes table) {route : InstrumentRoute} :
    route ∈ routes.toList ↔ ∃ i : Nat, table.byInstrument[i]? = some route := by
  rw [← h.perm.mem_iff, List.mem_iff_getElem?]
  simp

/-- The instruments of a dense table count up from the first. -/
theorem Built.dense_instrument (h : Built routes table) (hdense : table.dense = true) :
    ∃ first, table.byInstrument[0]? = some first ∧ ∀ (i : Nat) (route : InstrumentRoute),
      table.byInstrument[i]? = some route → route.instrumentId.val = first.instrumentId.val + i := by
  obtain ⟨first, last, hfirst, hlast, hspan⟩ := h.dense_iff.mp hdense
  refine ⟨first, hfirst, fun i route hroute => ?_⟩
  have hasc : Ascending (fun route : InstrumentRoute => route.instrumentId.val) table.byInstrument.toList :=
    h.ascending
  obtain ⟨hi, rfl⟩ := Vector.getElem?_eq_some_iff.mp hroute
  obtain ⟨h0, rfl⟩ := Vector.getElem?_eq_some_iff.mp hfirst
  obtain ⟨hl, rfl⟩ := Vector.getElem?_eq_some_iff.mp hlast
  -- the positions before and after leave no room for a gap
  have hbefore := hasc.spread (Nat.zero_le i) (by simpa using hi)
  have hafter := hasc.spread (by omega : i ≤ shards - 1) (by simpa using hl)
  simp only [Vector.getElem_toList] at hbefore hafter
  omega

/-- The direct index of a dense table answers by membership in the input. -/
theorem Built.denseShardFor_eq (h : Built routes table) (hdense : table.dense = true) (instrument : InstrumentId) :
    ∃ answer, table.denseShardFor instrument = some answer ∧
      ∀ shard, answer = some shard ↔ ⟨instrument, shard⟩ ∈ routes.toList := by
  obtain ⟨first, hfirst, hcount⟩ := h.dense_instrument hdense
  rw [denseShardFor, hfirst]
  dsimp only
  cases hoffset : checkedSub instrument first.instrumentId with
  | none =>
      refine ⟨none, rfl, fun shard => ⟨fun heq => (nomatch heq), fun hmem => ?_⟩⟩
      obtain ⟨i, hi⟩ := h.mem_iff.mp hmem
      have hlt := checkedSub_eq_none.mp hoffset
      have heq : instrument.val = first.instrumentId.val + i := hcount i _ hi
      omega
  | some offset =>
      have hsum := checkedSub_eq_some.mp hoffset
      refine ⟨_, rfl, fun shard => ?_⟩
      rw [h.mem_iff, Option.map_eq_some_iff]
      constructor
      · rintro ⟨route, hroute, rfl⟩
        have hinstrument := hcount _ route hroute
        have : route.instrumentId = instrument := Fin.ext (by omega)
        exact ⟨offset.val, by rw [hroute, ← this]⟩
      · rintro ⟨i, hi⟩
        have heq : instrument.val = first.instrumentId.val + i := hcount i _ hi
        obtain rfl : offset.val = i := by omega
        exact ⟨_, hi, rfl⟩

/-- So does the binary search, in every table. -/
theorem Built.searchShardFor_eq (h : Built routes table) (instrument : InstrumentId) :
    ∃ answer, table.searchShardFor instrument = some answer ∧
      ∀ shard, answer = some shard ↔ ⟨instrument, shard⟩ ∈ routes.toList := by
  rw [searchShardFor]
  cases hfound : binarySearch (·.instrumentId) instrument table.byInstrument.toList with
  | none =>
      refine ⟨none, rfl, fun shard => ⟨fun heq => (nomatch heq), fun hmem => ?_⟩⟩
      obtain ⟨i, hi⟩ := h.mem_iff.mp hmem
      have hthere : binarySearch (·.instrumentId) instrument table.byInstrument.toList = some i :=
        (binarySearch_eq_some h.ascending).mpr ⟨_, by simpa using hi, rfl⟩
      rw [hfound] at hthere
      cases hthere
  | some i =>
      obtain ⟨route, hroute, rfl⟩ := (binarySearch_eq_some h.ascending).mp hfound
      have hget : table.byInstrument[i]? = some route := by simpa using hroute
      dsimp only
      rw [hget]
      refine ⟨some route.shardId, rfl, fun shard => ?_⟩
      constructor
      · intro heq
        obtain rfl := Option.some.inj heq
        exact h.mem_iff.mpr ⟨i, hget⟩
      · intro hmem
        have hmem' : (⟨route.instrumentId, shard⟩ : InstrumentRoute) ∈ table.byInstrument.toList :=
          h.perm.symm.subset hmem
        have := h.ascending.eq_of_key hmem' (List.mem_of_getElem? hroute) rfl
        rw [← this]

/-- Two answers that agree on every shard are one. -/
theorem answers_eq {first second : Option ShardId} {p : ShardId → Prop} (hfirst : ∀ shard, first = some shard ↔ p shard)
    (hsecond : ∀ shard, second = some shard ↔ p shard) : first = second :=
  Option.ext fun shard => (hfirst shard).trans (hsecond shard).symm

/-- Where the dense path is taken it answers as the search does. -/
theorem Built.dense_agrees (h : Built routes table) (hdense : table.dense = true) (instrument : InstrumentId) :
    table.denseShardFor instrument = table.searchShardFor instrument := by
  obtain ⟨first, hfirst, hfirst_iff⟩ := h.denseShardFor_eq hdense instrument
  obtain ⟨second, hsecond, hsecond_iff⟩ := h.searchShardFor_eq instrument
  rw [hfirst, hsecond, answers_eq hfirst_iff hsecond_iff]

/-- A lookup returns, and answers the shard of the instrument's route or
none. -/
theorem Built.shardFor_eq (h : Built routes table) (instrument : InstrumentId) :
    ∃ answer, table.shardFor instrument = some answer ∧
      ∀ shard, answer = some shard ↔ ⟨instrument, shard⟩ ∈ routes.toList := by
  rw [shardFor]
  split
  · rename_i hdense
    exact h.denseShardFor_eq hdense instrument
  · exact h.searchShardFor_eq instrument

/-- The shard's instrument is the one of the input route with that shard. -/
theorem Built.instrumentFor_eq_some (h : Built routes table) {shard : ShardId} {instrument : InstrumentId} :
    table.instrumentFor shard = some instrument ↔ ⟨instrument, shard⟩ ∈ routes.toList := by
  have hlookup : ∀ (i : Nat) (route : InstrumentRoute), table.byInstrument[i]? = some route →
      table.instrumentFor route.shardId = some route.instrumentId := by
    intro i route hroute
    obtain ⟨index, hindex, hval⟩ := Option.map_eq_some_iff.mp (h.placed i route hroute)
    have hstored : table.byInstrument[index.val]? = some route := by
      rw [hval]
      exact hroute
    simp [instrumentFor, hindex, hstored]
  constructor
  · intro hsome
    obtain ⟨index, hindex, -⟩ := Option.bind_eq_some_iff.mp hsome
    obtain ⟨hlt, -⟩ := Vector.getElem?_eq_some_iff.mp hindex
    obtain ⟨route, hmem, rfl⟩ := h.covered shard hlt
    obtain ⟨i, hroute⟩ := h.mem_iff.mp hmem
    have hsame := (hlookup i route hroute).symm.trans hsome
    rw [← Option.some.inj hsame]
    exact hmem
  · intro hmem
    obtain ⟨i, hroute⟩ := h.mem_iff.mp hmem
    exact hlookup i _ hroute

/-! ### Input order -/

/-- What is acceptable does not depend on the order of the routes. -/
theorem Acceptable.of_perm {routes' : Vector InstrumentRoute shards} (h : Acceptable routes)
    (hperm : routes'.toList.Perm routes.toList) : Acceptable routes' :=
  ⟨h.one_le, h.le_max, (hperm.map _).trans h.shardIds, (hperm.map _).nodup_iff.mpr h.instruments⟩

/-- Routes given in another order are sorted to the same table. -/
theorem sortRoutes_of_perm {routes' : Vector InstrumentRoute shards} (h : Acceptable routes)
    (hperm : routes'.toList.Perm routes.toList) : sortRoutes routes' = sortRoutes routes := by
  have hasc : Ascending (·.instrumentId) (sortRoutes routes).toList := by
    rw [sortRoutes_toList]
    exact ascending_insertionSort h.instruments
  apply Vector.toList_inj.mp
  rw [sortRoutes_toList, insertionSort_eq hasc (hperm.trans sortRoutes_perm.symm)]

/-- The constructor reads the routes in instrument order only. -/
theorem tryNew_of_perm {routes' : Vector InstrumentRoute shards} (h : Acceptable routes)
    (hperm : routes'.toList.Perm routes.toList) : tryNew routes' = tryNew routes := by
  rw [tryNew, tryNew, checkShards_iff.mpr h.shardIds, checkShards_iff.mpr (h.of_perm hperm).shardIds,
    sortRoutes_of_perm h hperm]

end RouteTable

/-! ### The route table -/

/-- Building never panics and succeeds exactly on the acceptable inputs. A
built table answers every instrument by the input's routes, by the direct index
as by the binary search, answers every shard by the inverse, and is the same
for every order of the input. -/
theorem route_table_bijection (shards : Nat) (routes : Vector InstrumentRoute shards) :
    ∃ result, RouteTable.tryNew routes = some result ∧
      ((∃ table, result = .ok table) ↔
        1 ≤ shards ∧ shards ≤ 65536 ∧ (routes.toList.map (·.shardId.val)).Perm (List.range shards) ∧
          (routes.toList.map (·.instrumentId)).Nodup) ∧
      ∀ table, result = .ok table →
        (∀ instrument, ∃ answer, table.shardFor instrument = some answer ∧
          ∀ shard, answer = some shard ↔ ⟨instrument, shard⟩ ∈ routes.toList) ∧
        (∀ shard instrument,
          table.instrumentFor shard = some instrument ↔ table.shardFor instrument = some (some shard)) ∧
        (table.dense = true → ∀ instrument, table.denseShardFor instrument = table.searchShardFor instrument) ∧
        ∀ routes' : Vector InstrumentRoute shards, routes'.toList.Perm routes.toList →
          RouteTable.tryNew routes' = some (.ok table) := by
  by_cases h : RouteTable.Acceptable routes
  · obtain ⟨table, hnew, hbuilt, -⟩ := RouteTable.tryNew_built h
    refine ⟨.ok table, hnew, ?_, ?_⟩
    · exact iff_of_true ⟨table, rfl⟩ ⟨h.one_le, h.le_max, h.shardIds, h.instruments⟩
    · intro table' heq
      obtain rfl := Except.ok.inj heq
      refine ⟨hbuilt.shardFor_eq, ?_, hbuilt.dense_agrees, fun routes' hperm => ?_⟩
      · intro shard instrument
        obtain ⟨answer, hanswer, hiff⟩ := hbuilt.shardFor_eq instrument
        rw [hbuilt.instrumentFor_eq_some, hanswer, Option.some.injEq, hiff]
      · rw [RouteTable.tryNew_of_perm h hperm, hnew]
  · obtain ⟨error, hnew⟩ := RouteTable.tryNew_refuses h
    refine ⟨.error error, hnew, ?_, fun table heq => nomatch heq⟩
    refine iff_of_false (fun ⟨_, heq⟩ => nomatch heq) ?_
    rintro ⟨hpos, hle, hshards, hinstruments⟩
    exact h ⟨hpos, hle, hshards, hinstruments⟩

end HftEngine
