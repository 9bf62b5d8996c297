/-
Module: HftEngine.Lib.Cursor
Layer: Lib
Purpose: Wrapping cursors over a power-of-two ring. A cursor stands for a
  position that is never reset; the cursor shows it modulo `2 ^ w`, the slot
  index modulo the capacity.
Imports: Mathlib
Trusted boundary: none (fully proved)
Main exports: cursorAt, cursorAt_sub_eq_iff, cursorAt_inj, slotIndex,
  slotIndex_cursorAt, slot_ne
-/
import Mathlib

namespace HftEngine.Cursor

variable {w N : Nat} {start : BitVec w} {i j n : Nat}

/-- The cursor at a position counted from a start. -/
def cursorAt (start : BitVec w) (position : Nat) : BitVec w := start + BitVec.ofNat w position

/-- `cursor & (N - 1)`. -/
def slotIndex (N : Nat) (cursor : BitVec w) : Nat := (cursor &&& BitVec.ofNat w (N - 1)).toNat

@[simp] theorem cursorAt_zero : cursorAt start 0 = start := by simp [cursorAt]

/-- One step of a cursor advances its position by one, also across the wrap. -/
theorem cursorAt_succ (position : Nat) : cursorAt start position + 1 = cursorAt start (position + 1) := by
  rw [cursorAt, cursorAt, BitVec.add_assoc, BitVec.ofNat_add]
  rfl

/-- The difference of two cursors is the distance of their positions, up to the
width of the cursor. -/
theorem cursorAt_sub (h : i ≤ j) : cursorAt start j - cursorAt start i = BitVec.ofNat w (j - i) := by
  obtain ⟨distance, rfl⟩ := Nat.exists_eq_add_of_le h
  rw [Nat.add_sub_cancel_left, cursorAt, cursorAt, BitVec.ofNat_add, ← BitVec.add_assoc,
    BitVec.add_comm _ (BitVec.ofNat w distance), BitVec.add_sub_cancel]

/-- Below the width, a number is recovered from its word. -/
theorem ofNat_inj (hi : i < 2 ^ w) (hj : j < 2 ^ w) : BitVec.ofNat w i = BitVec.ofNat w j ↔ i = j := by
  constructor
  · intro h
    have hval := congrArg BitVec.toNat h
    rwa [BitVec.toNat_ofNat, BitVec.toNat_ofNat, Nat.mod_eq_of_lt hi, Nat.mod_eq_of_lt hj] at hval
  · exact congrArg _

/-- The wrapping distance is the distance, as long as it fits the cursor. -/
theorem cursorAt_sub_eq_iff (h : i ≤ j) (hdistance : j - i < 2 ^ w) (hn : n < 2 ^ w) :
    cursorAt start j - cursorAt start i = BitVec.ofNat w n ↔ j - i = n := by
  rw [cursorAt_sub h, ofNat_inj hdistance hn]

/-- Positions less than a full turn apart have different cursors. -/
theorem cursorAt_inj (h : i ≤ j) (hdistance : j - i < 2 ^ w) : cursorAt start i = cursorAt start j ↔ i = j := by
  have hzero : cursorAt start j - cursorAt start i = BitVec.ofNat w 0 ↔ j - i = 0 :=
    cursorAt_sub_eq_iff h hdistance (Nat.two_pow_pos w)
  constructor
  · intro heq
    have := hzero.mp (by rw [heq, BitVec.sub_self])
    omega
  · rintro rfl
    rfl

/-- A distance below the width is read off the cursors exactly. -/
theorem toNat_cursorAt_sub (h : i ≤ j) (hdistance : j - i < 2 ^ w) :
    (cursorAt start j - cursorAt start i).toNat = j - i := by
  rw [cursorAt_sub h, BitVec.toNat_ofNat, Nat.mod_eq_of_lt hdistance]

/-- The mask picks the slot of the position itself: the capacity divides the
cursor's range. -/
theorem slotIndex_cursorAt {k : Nat} (hN : N = 2 ^ k) (hk : k ≤ w) (position : Nat) :
    slotIndex N (cursorAt start position) = (start.toNat + position) % N := by
  have hdvd : N ∣ 2 ^ w := by
    rw [hN]
    exact Nat.pow_dvd_pow 2 hk
  have hmask : N - 1 < 2 ^ w := by
    have hle := Nat.le_of_dvd (Nat.two_pow_pos w) hdvd
    have hpos : 0 < N := by
      rw [hN]
      exact Nat.two_pow_pos k
    omega
  rw [slotIndex, BitVec.toNat_and, BitVec.toNat_ofNat, Nat.mod_eq_of_lt hmask, hN, Nat.and_two_pow_sub_one_eq_mod,
    cursorAt, BitVec.toNat_add, BitVec.toNat_ofNat, Nat.add_mod_mod, ← hN, Nat.mod_mod_of_dvd _ hdvd]

/-- Positions less than a capacity apart have different slots. -/
theorem slot_ne {s : Nat} (h : i < j) (hdistance : j - i < N) : (s + i) % N ≠ (s + j) % N := by
  intro heq
  have hdvd : N ∣ j - i := by
    have := (Nat.modEq_iff_dvd' (show s + i ≤ s + j by omega)).mp heq
    rwa [Nat.add_sub_add_left] at this
  exact absurd (Nat.le_of_dvd (by omega) hdvd) (by omega)

end HftEngine.Cursor
