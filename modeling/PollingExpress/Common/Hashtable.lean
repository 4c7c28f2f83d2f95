import Mathlib.Algebra.Order.Ring.Int
import Mathlib.Data.Set.Lattice
import Mathlib.Logic.Function.Basic
import Mathlib.Order.CompletePartialOrder
import Mathlib.Tactic.Common

/-!
# The hash table

`hashtable.c`: an array of pointers, in which the place of a key is its hash. The table does not
keep the keys, and a null pointer is an empty place. A `char` is unsigned on this machine, and
an `unsigned long` and a pointer have 32 bits.
-/

namespace PollingExpress

abbrev Char8 := BitVec 8

/-- A pointer; 0 is `NULL`. -/
abbrev Pointer := BitVec 32

/-- The loop body of `hash_function`: `hash * 33 + c`. -/
def hashStep (hash : BitVec 32) (c : Char8) : BitVec 32 := ((hash <<< 5) + hash) + c.setWidth 32

/-- The loop of `hash_function` from a place in the key on, if the key ends. -/
def hashLoop (hash : BitVec 32) : List Char8 → Option (BitVec 32)
  -- the rest of the array has been read, and no zero was in it
  | [] => none
  | c :: key => if c = 0 then some hash else hashLoop (hashStep hash c) key

structure Hashtable (capacity : ℕ) where
  arr : Fin capacity → Pointer

namespace Hashtable

variable {capacity : ℕ} [NeZero capacity]

/-- `hash_function`. -/
def hashFunction (capacity : ℕ) [NeZero capacity] (key : List Char8) : Option (Fin capacity) :=
  (hashLoop 5381 key).map fun hash => Fin.ofNat capacity hash.toNat

/-- `ht_init`. -/
def htInit (capacity : ℕ) : Hashtable capacity := ⟨fun _ => 0⟩

/-- `ht_insert`. -/
def htInsert (ht : Hashtable capacity) (key : List Char8) (value : Pointer) :
    Option (Hashtable capacity) :=
  (hashFunction capacity key).map fun index => ⟨Function.update ht.arr index value⟩

/-- `ht_get`; the inner `none` is `E_KEY_MISSING`. -/
def htGet (ht : Hashtable capacity) (key : List Char8) : Option (Option Pointer) :=
  (hashFunction capacity key).map fun index =>
    if ht.arr index = 0 then none else some (ht.arr index)

end Hashtable

/-- The hash of a key of these bytes. -/
def hashOf (bytes : List Char8) : BitVec 32 := bytes.foldl hashStep 5381

theorem hashLoop_of_zero {bytes : List Char8} (h : 0 ∉ bytes) (hash : BitVec 32)
    (rest : List Char8) :
    hashLoop hash (bytes ++ 0 :: rest) = some (bytes.foldl hashStep hash) := by
  induction bytes generalizing hash with
  | nil => rfl
  | cons c bytes ih =>
    obtain ⟨h_c, h⟩ := not_or.mp fun h_mem => h (List.mem_cons.mpr h_mem)
    rw [List.cons_append, hashLoop, if_neg fun h_eq => h_c h_eq.symm]
    exact ih h _

namespace Hashtable

variable {capacity : ℕ} [NeZero capacity]

/-- The place of a key of these bytes. -/
def place (capacity : ℕ) [NeZero capacity] (bytes : List Char8) : Fin capacity :=
  Fin.ofNat capacity (hashOf bytes).toNat

theorem hashFunction_of_zero {bytes : List Char8} (h : 0 ∉ bytes) (rest : List Char8) :
    hashFunction capacity (bytes ++ 0 :: rest) = some (place capacity bytes) := by
  rw [hashFunction, hashLoop_of_zero h]
  rfl

theorem htInsert_of_zero {bytes : List Char8} (h : 0 ∉ bytes) (rest : List Char8)
    (ht : Hashtable capacity) (value : Pointer) : ht.htInsert (bytes ++ 0 :: rest) value =
      some ⟨Function.update ht.arr (place capacity bytes) value⟩ := by
  rw [htInsert, hashFunction_of_zero h]
  rfl

theorem htGet_of_zero {bytes : List Char8} (h : 0 ∉ bytes) (rest : List Char8)
    (ht : Hashtable capacity) :
    ht.htGet (bytes ++ 0 :: rest) = some (if ht.arr (place capacity bytes) = 0 then none
      else some (ht.arr (place capacity bytes))) := by
  rw [htGet, hashFunction_of_zero h]
  rfl

end Hashtable
end PollingExpress
