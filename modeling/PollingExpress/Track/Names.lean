import Mathlib.Data.List.FinRange
import PollingExpress.Kernel.Task
import PollingExpress.Track.Basic

/-!
# Names

`my_string.c`, and the search for a node by its name. A string is the list of its characters in
front of the NUL.

The loop of `strncmp` never counts `n` down, so it compares the two strings to their ends
(`strncmp_eq_zero`); only for `n = 0` is a string equal to what it begins with.
-/

namespace PollingExpress

/-- The string at a place in memory. -/
def cString (mem : List Byte) : List Byte := mem.takeWhile (· ≠ 0)

/-- `strncmp`. -/
def strncmp : List Byte → List Byte → ℕ → Int
  | a :: s, b :: t, n => if a > b then 1 else if a < b then -1 else strncmp s t n
  | s, t, n =>
    if n = 0 then 0
    else if s ≠ [] then 1
    else if t ≠ [] then -1
    else 0

/-- **The strings are compared to their ends.** The number `n` only has to be positive: the loop
does not count, so that a word is not found by a front part of it. -/
theorem strncmp_eq_zero {s t : List Byte} {n : ℕ} (h : n ≠ 0) : strncmp s t n = 0 ↔ s = t := by
  induction s generalizing t with
  | nil => cases t <;> simp [strncmp, h]
  | cons a s ih =>
    cases t with
    | nil => simp [strncmp, h]
    | cons b t =>
      rw [strncmp, List.cons.injEq]
      -- a difference decides, and two equal characters go on
      split
      · next h_gt =>
        have h_ne : a ≠ b := fun h_eq => UInt8.lt_irrefl b (h_eq ▸ h_gt)
        simp [h_ne]
      · next h_gt =>
        split
        · next h_lt =>
          have h_ne : a ≠ b := fun h_eq => UInt8.lt_irrefl b (h_eq ▸ h_lt)
          simp [h_ne]
        · next h_lt =>
          have h_eq : a = b := UInt8.le_antisymm (UInt8.not_lt.mp h_gt) (UInt8.not_lt.mp h_lt)
          rw [ih, and_iff_right h_eq]

/-- The names of the nodes. -/
abbrev TrackNames := NodeNum → List Byte

/-- `track_name_to_num`, or `none` for -1. -/
def trackNameToNum (names : TrackNames) (name : List Byte) : Option NodeNum :=
  (List.finRange trackMax).find? fun i => strncmp name (names i) name.length = 0

/-- A node is found by its whole name, unless no name is asked for. -/
theorem trackNameToNum_spec {names : TrackNames} {name : List Byte} {n : NodeNum}
    (h : trackNameToNum names name = some n) (h_name : name ≠ []) : names n = name := by
  have h_found :=
    of_decide_eq_true
      (List.find?_some (p := fun i => decide (strncmp name (names i) name.length = 0)) h)
  exact ((strncmp_eq_zero (mt List.length_eq_zero_iff.mp h_name)).mp h_found).symm

end PollingExpress
