import Mathlib.Data.List.Range

/-!
# LibShv.Lib.Memory

A memory of bytes by address: what is read from a run of addresses, and what a copy of a
run of bytes leaves there and elsewhere.
-/

namespace LibShv.Memory

variable {β : Type}

/-- The `n` bytes from `p` on. -/
def readAt (mem : Nat → β) (p n : Nat) : List β := (List.range n).map fun i => mem (p + i)

/-- The bytes `bs` copied to `p`. -/
def writeAt (mem : Nat → β) (p : Nat) (bs : List β) : Nat → β :=
  fun a => if a < p then mem a else (bs[a - p]?).getD (mem a)

variable {mem : Nat → β} {p q n : Nat} {bs : List β}

@[simp] theorem readAt_zero : readAt mem p 0 = [] := rfl

@[simp] theorem length_readAt : (readAt mem p n).length = n := by simp [readAt]

theorem readAt_add (m : Nat) : readAt mem p (m + n) = readAt mem p m ++ readAt mem (p + m) n := by
  simp [readAt, List.range_add, Nat.add_assoc]

@[simp] theorem writeAt_nil : writeAt mem p [] = mem := by
  funext a
  simp [writeAt]

/-- The memory before and behind the copied bytes stays. -/
theorem writeAt_outside {a : Nat} (h : a < p ∨ p + bs.length ≤ a) : writeAt mem p bs a = mem a := by
  rw [writeAt]
  split
  · rfl
  · rw [List.getElem?_eq_none (by omega)]
    rfl

theorem readAt_writeAt_self : readAt (writeAt mem p bs) p bs.length = bs := by
  apply List.ext_getElem length_readAt
  intro i hi hlt
  simp [readAt, writeAt, hlt]

theorem readAt_writeAt_below (h : q + n ≤ p) : readAt (writeAt mem p bs) q n = readAt mem q n := by
  apply List.map_congr_left
  intro i hi
  have := List.mem_range.mp hi
  exact writeAt_outside (.inl (by omega))

/-- Bytes that are copied behind others are read behind them. -/
theorem readAt_writeAt_append (h : q + n = p) :
    readAt (writeAt mem p bs) q (n + bs.length) = readAt mem q n ++ bs := by
  rw [readAt_add, readAt_writeAt_below (Nat.le_of_eq h), h, readAt_writeAt_self]

end LibShv.Memory
