/-
Module: HftEngine.Proofs.OrderIndices
Layer: Proofs
Purpose: The order index of the book and the probe index of the risk engine are
  finite maps through every sequence of insertions and deletions.
Imports: HftEngine.Lib.IndexHistory, HftEngine.Proofs.BookRep,
  HftEngine.Core.Risk
Trusted boundary: none (fully proved)
Main exports: orderIndexOps, probeIndexOps, indices_are_finite_maps
-/
import HftEngine.Lib.IndexHistory
import HftEngine.Proofs.BookRep
import HftEngine.Core.Risk

namespace HftEngine

open OpenAddressing

/-- The operations of the book's index. -/
def orderIndexOps (L O : Nat) : IndexOps (OrderIndex L O) OrderId OrderLocation RejectReason indexLimit where
  empty := OrderIndex.new
  capacity := L * O * orderIndexPlanes
  entries := occupied
  storable location := location.levelIndex < L ∧ location.slot < O
  findSlot := findSlot (probeStart (L * O * orderIndexPlanes))
  lookup := OrderIndex.location
  insert := OrderIndex.insert
  removeAt := OrderIndex.removeAt

/-- The operations of the risk engine's index. -/
def probeIndexOps (plane planes : Nat) : IndexOps (ProbeIndex plane planes) U64 Nat InsertError indexLimit where
  empty := ProbeIndex.new
  capacity := plane * planes
  entries := occupied
  storable value := value + 1 < 2 ^ 64
  findSlot := findSlot (probeStart (plane * planes))
  lookup := ProbeIndex.lookup
  insert := ProbeIndex.insertWord
  removeAt := ProbeIndex.removeAt

/-- The refusals of the book's index. -/
def orderIndexRefusal : Option InsertError → RejectReason
  | some .duplicate => .duplicateOrderId
  | _ => .orderCapacity

/-- The order index is an instance of the table. -/
theorem orderIndexOps_eq (L O : Nat) : orderIndexOps L O = tableOps (probeStart (L * O * orderIndexPlanes))
    (OrderIndex.encodeLocation L O) (OrderIndex.decodeLocation L O) orderIndexRefusal := by
  rw [orderIndexOps, tableOps, IndexOps.mk.injEq]
  refine ⟨rfl, rfl, rfl, ?_, rfl, rfl, ?_, rfl⟩
  · funext location
    rw [OrderIndex.encodeLocation]
    split
    · rename_i hout
      simp only [Option.isSome_none, Bool.false_eq_true, eq_iff_iff, iff_false]
      omega
    · rename_i hin
      simp only [Option.isSome_some, eq_iff_iff, iff_true]
      omega
  funext index orderId location
  rw [OrderIndex.insert]
  cases OrderIndex.encodeLocation L O location with
  | none => rfl
  | some encoded =>
      dsimp only
      cases insert (probeStart (L * O * orderIndexPlanes)) indexLimit index orderId encoded with
      | ok result => rfl
      | error error => cases error <;> rfl

/-- What the probe index stores for a word. -/
def probeCode (value : Nat) : Option Nat := if value + 1 < 2 ^ 64 then some (value + 1) else none

/-- The index of the reservations is an instance of the table, with its values
stored one higher. -/
theorem probeIndexOps_eq (plane planes : Nat) : probeIndexOps plane planes = tableOps (probeStart (plane * planes))
    probeCode (fun value => some (value - 1)) (fun error => error.getD .full) := by
  rw [probeIndexOps, tableOps, IndexOps.mk.injEq]
  refine ⟨rfl, rfl, rfl, ?_, rfl, ?_, ?_, rfl⟩
  · funext value
    simp [probeCode]
  · funext index key
    rw [ProbeIndex.lookup]
    cases lookup (probeStart (plane * planes)) index key <;> rfl
  · funext index key value
    rw [ProbeIndex.insertWord, ProbeIndex.insert, probeCode]
    by_cases hword : value + 1 < 2 ^ 64
    · rw [if_pos hword, if_pos hword]
      dsimp only
      cases insert (probeStart (plane * planes)) indexLimit index key (value + 1) with
      | ok result => rfl
      | error error => rfl
    · rw [if_neg hword, if_neg hword]
      rfl

/-- Locations survive being stored in the index. -/
theorem decodeLocation_encodeLocation {L O : Nat} (location : OrderLocation) (encoded : Nat)
    (h : OrderIndex.encodeLocation L O location = some encoded) :
    OrderIndex.decodeLocation L O encoded = some location := by
  unfold OrderIndex.encodeLocation at h
  split at h
  · cases h
  · rename_i hin
    rw [not_or, Nat.not_le, Nat.not_le] at hin
    cases h
    exact decodeLocation_code hin.1 hin.2

/-! ### The indices -/

/-- Both indices are finite maps, for every capacity: lookups give the last
insertion, a present key is refused and an absent one is taken while a cell is
free, deletions return, remove their key alone and report exactly the entries
they relocated with their final slots, tracked slots are the true ones, and a
stale slot or a wrong key changes nothing. -/
theorem indices_are_finite_maps :
    (∀ L O : Nat, FiniteMap (orderIndexOps L O)) ∧ ∀ plane planes : Nat, FiniteMap (probeIndexOps plane planes) := by
  refine ⟨fun L O => ?_, fun plane planes => ?_⟩
  · rw [orderIndexOps_eq]
    exact tableOps_finiteMap (fun key => probeStart_lt key) decodeLocation_encodeLocation
  · rw [probeIndexOps_eq]
    refine tableOps_finiteMap (fun key => probeStart_lt key) fun value code hcode => ?_
    unfold probeCode at hcode
    split at hcode
    · cases hcode
      rfl
    · cases hcode

end HftEngine
