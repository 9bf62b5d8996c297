/-
Module: HftEngine.Lib.Machine
Layer: Lib
Purpose: Fixed-width machine integers with checked arithmetic. Unsigned words
  are `Fin (2 ^ w)`, signed words are integers carrying their two's-complement
  range. Every checked operation returns an `Option` and comes with one
  equivalence that reads a successful result back as plain arithmetic.
Imports: Mathlib
Trusted boundary: none (fully proved)
Main exports: U8, U16, U32, U64, U128, I64, I128, checkedAdd, checkedSub,
  checkedMul, satSub, guardedSub, Build, addAssign, mulOperator, bind_eq_ok
-/
import Mathlib

namespace HftEngine

/-- Unsigned words. Arithmetic on `Fin` wraps as the machine's does, and every
place that must not wrap goes through a checked operation below. -/
abbrev U8 := Fin (2 ^ 8)
abbrev U16 := Fin (2 ^ 16)
abbrev U32 := Fin (2 ^ 32)
abbrev U64 := Fin (2 ^ 64)
abbrev U128 := Fin (2 ^ 128)

/-- A signed machine integer in the range `-half ≤ val < half`. -/
@[ext]
structure Signed (half : Nat) where
  val : Int
  lower : -(half : Int) ≤ val
  upper : val < (half : Int)
deriving DecidableEq, Repr

/-- Signed words by half the size of their range. -/
abbrev I64 := Signed (2 ^ 63)
abbrev I128 := Signed (2 ^ 127)

/-- No range is empty, which is what the numerals and the zero of a word rest
on. -/
instance neZeroU8 : NeZero (2 ^ 8) := ⟨by norm_num⟩
instance neZeroU16 : NeZero (2 ^ 16) := ⟨by norm_num⟩
instance neZeroU32 : NeZero (2 ^ 32) := ⟨by norm_num⟩
instance neZeroU64 : NeZero (2 ^ 64) := ⟨by norm_num⟩
instance neZeroU128 : NeZero (2 ^ 128) := ⟨by norm_num⟩
instance neZeroI64 : NeZero (2 ^ 63) := ⟨by norm_num⟩
instance neZeroI128 : NeZero (2 ^ 127) := ⟨by norm_num⟩

namespace Machine

/-! ### Unsigned words -/

section Unsigned

variable {n m : Nat} {a b c : Fin n}

/-- `checked_add` on an unsigned word. -/
def checkedAdd (a b : Fin n) : Option (Fin n) :=
  if h : a.val + b.val < n then some ⟨a.val + b.val, h⟩ else none

/-- `checked_sub` on an unsigned word. -/
def checkedSub (a b : Fin n) : Option (Fin n) :=
  if b.val ≤ a.val then some ⟨a.val - b.val, by omega⟩ else none

/-- `checked_mul` on an unsigned word. -/
def checkedMul (a b : Fin n) : Option (Fin n) :=
  if h : a.val * b.val < n then some ⟨a.val * b.val, h⟩ else none

/-- Subtraction for callers that have already compared the operands: it never
leaves the word. -/
def satSub (a b : Fin n) : Fin n := ⟨a.val - b.val, by omega⟩

/-- Subtraction of counters; `none` where it would underflow. -/
def guardedSub (a b : Nat) : Option Nat := if b ≤ a then some (a - b) else none

/-- How a crate is compiled. A checked build, as for tests, panics where a
native operator leaves its word; a release profile that does not ask for these
checks wraps around. -/
inductive Build where
  | checked
  | release
deriving DecidableEq, Repr

/-- The compound assignment `+=` on an unsigned word. `none` is the panic of a
checked build. -/
def addAssign (build : Build) (a b : Fin n) : Option (Fin n) :=
  match build with
  | .checked => checkedAdd a b
  | .release => some (a + b)

/-- The operator `*` on unsigned words, with the panic of a checked build again
as `none`. -/
def mulOperator (build : Build) (a b : Fin n) : Option (Fin n) :=
  match build with
  | .checked => checkedMul a b
  | .release => some (a * b)

/-- The smaller of two words. -/
def minWord (a b : Fin n) : Fin n := if a.val ≤ b.val then a else b

/-- A lossless conversion into a word at least as wide. -/
def widen (h : n ≤ m) (a : Fin n) : Fin m := ⟨a.val, by omega⟩

/-- Saturating subtraction of words is truncated subtraction of numbers. -/
@[simp] theorem satSub_val : (satSub a b).val = a.val - b.val := rfl

/-- A subtraction under its guard goes through. -/
theorem guardedSub_of_le {a b : Nat} (h : b ≤ a) : guardedSub a b = some (a - b) := if_pos h

@[simp] theorem widen_val (h : n ≤ m) : (widen h a).val = a.val := rfl

@[simp] theorem minWord_val : (minWord a b).val = min a.val b.val := by
  unfold minWord
  split <;> omega

/-- A checked sum is there exactly when it is the sum of the numbers. -/
theorem checkedAdd_eq_some : checkedAdd a b = some c ↔ c.val = a.val + b.val := by
  unfold checkedAdd
  split
  · simp [Fin.ext_iff, eq_comm]
  · simp
    omega

/-- A checked difference is there exactly when it makes up the first number
with the second. -/
theorem checkedSub_eq_some : checkedSub a b = some c ↔ a.val = c.val + b.val := by
  unfold checkedSub
  split
  · simp [Fin.ext_iff]
    omega
  · simp
    omega

/-- A checked product is there exactly when it is the product of the
numbers. -/
theorem checkedMul_eq_some : checkedMul a b = some c ↔ c.val = a.val * b.val := by
  unfold checkedMul
  split
  · simp [Fin.ext_iff, eq_comm]
  · simp
    omega

/-- A sum is refused exactly when it leaves the range of the word. -/
theorem checkedAdd_eq_none : checkedAdd a b = none ↔ n ≤ a.val + b.val := by
  unfold checkedAdd
  split <;> simp <;> omega

/-- A difference is refused exactly when it would be negative. -/
theorem checkedSub_eq_none : checkedSub a b = none ↔ a.val < b.val := by
  unfold checkedSub
  split <;> simp <;> omega

/-- Where a compound assignment returns, it stores the wrapped sum, and in a
checked build nothing wrapped. -/
theorem addAssign_eq_some {build : Build} :
    addAssign build a b = some c ↔ a + b = c ∧ (build = .checked → a.val + b.val < n) := by
  cases build with
  | checked =>
      rw [addAssign, checkedAdd_eq_some, Fin.ext_iff, Fin.val_add]
      have hbound := c.isLt
      constructor
      · intro hsum
        rw [← hsum]
        exact ⟨Nat.mod_eq_of_lt hbound, fun _ => hbound⟩
      · rintro ⟨hsum, hfits⟩
        rw [← hsum, Nat.mod_eq_of_lt (hfits rfl)]
  | release => simp [addAssign]

/-- A sum that stays in its word is stored as it is, whatever the build. -/
theorem addAssign_of_lt {build : Build} (h : a.val + b.val < n) : addAssign build a b = some ⟨a.val + b.val, h⟩ :=
  addAssign_eq_some.mpr ⟨Fin.ext (by rw [Fin.val_add, Nat.mod_eq_of_lt h]), fun _ => h⟩

/-- A product that stays in its word is computed as it is, whatever the
build. -/
theorem mulOperator_of_lt {build : Build} (h : a.val * b.val < n) :
    mulOperator build a b = some ⟨a.val * b.val, h⟩ := by
  cases build with
  | checked => exact checkedMul_eq_some.mpr rfl
  | release => exact congrArg some (Fin.ext (by rw [Fin.val_mul, Nat.mod_eq_of_lt h]))

end Unsigned

/-! ### Signed words -/

section SignedWords

variable {h : Nat} {a b c : Signed h}

/-- The signed word of value `x`, when `x` is in range. -/
def signedOf (h : Nat) (x : Int) : Option (Signed h) :=
  if hx : -(h : Int) ≤ x ∧ x < h then some ⟨x, hx.1, hx.2⟩ else none

/-- An integer as a signed word is that integer. -/
theorem signedOf_eq_some {x : Int} : signedOf h x = some c ↔ c.val = x := by
  unfold signedOf
  split
  · simp [Signed.ext_iff, eq_comm]
  · rename_i hx
    simp only [reduceCtorEq, false_iff]
    intro heq
    exact hx ⟨heq ▸ c.lower, heq ▸ c.upper⟩

/-- Every integer within the range is a signed word. -/
theorem signedOf_isSome (half : Nat) (value : Int) (hlower : -(half : Int) ≤ value) (hupper : value < half) :
    ∃ signed : Signed half, signedOf half value = some signed ∧ signed.val = value :=
  ⟨⟨value, hlower, hupper⟩, signedOf_eq_some.mpr rfl, rfl⟩

/-- `checked_add` on a signed word. -/
def checkedAddSigned (a b : Signed h) : Option (Signed h) := signedOf h (a.val + b.val)

/-- `checked_sub` on a signed word. -/
def checkedSubSigned (a b : Signed h) : Option (Signed h) := signedOf h (a.val - b.val)

/-- `checked_abs` on a signed word: the most negative value has no absolute
value. -/
def checkedAbs (a : Signed h) : Option (Signed h) := signedOf h |a.val|

/-- `u64::try_from` or `u128::try_from` of a signed word: refuses a negative
value. -/
def unsignedOf (n : Nat) (a : Signed h) : Option (Fin n) :=
  if ha : 0 ≤ a.val ∧ a.val < n then some ⟨a.val.toNat, by omega⟩ else none

/-- Conversion to another unsigned width keeps the number or refuses it. -/
theorem unsignedOf_eq_some {n : Nat} {x : Fin n} : unsignedOf n a = some x ↔ a.val = x.val := by
  unfold unsignedOf
  split
  · rename_i ha
    simp only [Option.some.injEq, Fin.ext_iff]
    omega
  · rename_i ha
    simp only [reduceCtorEq, false_iff]
    have := x.isLt
    omega

end SignedWords

/-- `i128::from` of an unsigned 64-bit word. -/
def i128OfU64 (a : U64) : I128 := ⟨a.val, by omega, by have := a.isLt; norm_num; omega⟩

@[simp] theorem i128OfU64_val (a : U64) : (i128OfU64 a).val = a.val := rfl

/-- The widths that `widen` is used at. -/
theorem u16_le_u64 : 2 ^ 16 ≤ 2 ^ 64 := by norm_num

theorem u32_le_u64 : 2 ^ 32 ≤ 2 ^ 64 := by norm_num

theorem u64_le_u128 : 2 ^ 64 ≤ 2 ^ 128 := by norm_num

/-- `u64::from` of an unsigned 32-bit word. -/
def u64OfU32 (a : U32) : U64 := widen u32_le_u64 a

@[simp] theorem u64OfU32_val (a : U32) : (u64OfU32 a).val = a.val := rfl

/-- `u128::from` of an unsigned 64-bit word. -/
def u128OfU64 (a : U64) : U128 := widen u64_le_u128 a

@[simp] theorem u128OfU64_val (a : U64) : (u128OfU64 a).val = a.val := rfl

/-- `i128::try_from` of an unsigned 128-bit word. -/
def i128OfU128 (a : U128) : Option I128 := signedOf (2 ^ 127) a.val

/-- `unsigned_abs` of a 128-bit signed integer. -/
def unsignedAbs (a : I128) : U128 :=
  ⟨a.val.natAbs, by have := a.lower; have := a.upper; norm_num at *; omega⟩

@[simp] theorem unsignedAbs_val (a : I128) : (unsignedAbs a).val = a.val.natAbs := rfl

/-- The signed 64-bit word of a literal. Used for constants only: a literal
outside the range reads as zero. -/
def i64 (x : Int) : I64 := (signedOf (2 ^ 63) x).getD ⟨0, by norm_num, by norm_num⟩

/-- The signed 128-bit zero. -/
def i128Zero : I128 := ⟨0, by norm_num, by norm_num⟩

/-! ### Fallible steps -/

/-- A sequence of two fallible steps succeeds when both do. -/
theorem bind_eq_ok {ε α β : Type} {x : Except ε α} {f : α → Except ε β} {b : β} :
    (x >>= f) = .ok b ↔ ∃ a, x = .ok a ∧ f a = .ok b := by
  cases x with
  | error e => simp [bind, Except.bind]
  | ok a => simp [bind, Except.bind]

end Machine

end HftEngine
