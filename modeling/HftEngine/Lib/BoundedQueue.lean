/-
Module: HftEngine.Lib.BoundedQueue
Layer: Lib
Purpose: A bounded first-in first-out queue at the grain of completed calls.
  This is how a lossless ring answers its two endpoints: a push is refused
  exactly when the queue is full, a pop exactly when it is empty.
Imports: Mathlib
Trusted boundary: none (fully proved)
Main exports: BoundedQueue, BoundedQueue.hasCapacity, BoundedQueue.tryPush,
  BoundedQueue.tryPop
-/
import Mathlib

namespace HftEngine

/-- At most `N` values, the oldest first. -/
structure BoundedQueue (α : Type) (N : Nat) where
  items : List α
  bounded : items.length ≤ N
deriving DecidableEq, Repr

namespace BoundedQueue

variable {α : Type} {N : Nat} {queue queue' : BoundedQueue α N} {value : α}

/-- A queue with nothing in it. -/
def empty : BoundedQueue α N := ⟨[], Nat.zero_le N⟩

@[ext] theorem ext (h : queue.items = queue'.items) : queue = queue' := by
  cases queue
  cases queue'
  cases h
  rfl

/-- Whether one more value can be pushed. -/
def hasCapacity (queue : BoundedQueue α N) : Bool := decide (queue.items.length ≠ N)

/-- Puts a value behind the others, or refuses it when all `N` places are
taken. -/
def tryPush (queue : BoundedQueue α N) (value : α) : Option (BoundedQueue α N) :=
  if h : queue.items.length < N then some ⟨queue.items ++ [value], by simpa using h⟩ else none

/-- Takes the oldest value, if there is one. -/
def tryPop (queue : BoundedQueue α N) : Option (α × BoundedQueue α N) :=
  match h : queue.items with
  | [] => none
  | value :: rest => some (value, ⟨rest, by have := queue.bounded; rw [h] at this; simp at this; omega⟩)

/-- The capacity check answers yes exactly when a push would succeed. -/
theorem hasCapacity_iff : queue.hasCapacity = true ↔ queue.items.length < N := by
  have hbounded := queue.bounded
  rw [hasCapacity, decide_eq_true_eq]
  omega

/-- A push appends its value. -/
theorem tryPush_eq_some : queue.tryPush value = some queue' ↔
    queue.hasCapacity = true ∧ queue'.items = queue.items ++ [value] := by
  rw [hasCapacity_iff, tryPush]
  split
  · rename_i hroom
    rw [Option.some.injEq, BoundedQueue.ext_iff]
    simp [hroom, eq_comm]
  · rename_i hfull
    simp [hfull]

/-- A push is refused exactly when the queue is full. -/
theorem tryPush_eq_none : queue.tryPush value = none ↔ queue.hasCapacity = false := by
  rw [← Bool.not_eq_true, hasCapacity_iff, tryPush]
  split <;> simp_all

/-- A pop takes the oldest value. -/
theorem tryPop_eq_some : queue.tryPop = some (value, queue') ↔ queue.items = value :: queue'.items := by
  unfold tryPop
  split
  · rename_i hnil
    simp [hnil]
  · rename_i first rest hcons
    rw [Option.some.injEq, Prod.mk.injEq, BoundedQueue.ext_iff]
    constructor
    · rintro ⟨rfl, hrest⟩
      exact hcons.trans (congrArg (List.cons first) hrest)
    · intro h
      exact List.cons.inj (hcons.symm.trans h)

/-- Only an empty queue gives nothing. -/
theorem tryPop_eq_none : queue.tryPop = none ↔ queue.items = [] := by
  unfold tryPop
  split
  · rename_i hnil
    simp [hnil]
  · rename_i first rest hcons
    simp [hcons]

end BoundedQueue

end HftEngine
