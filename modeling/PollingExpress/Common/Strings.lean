import PollingExpress.Track.Names

/-!
# The length argument of the string routines

`strncpy` and `strncmp` of `my_string.c` test `n >= 0`, which is true of any unsigned number, and
`strncmp` does not even count `n` down. So neither ends where its length argument says: `strncpy`
writes the whole string and a NUL behind it (`strncpyStores_eq`), and `strncmp` compares the strings
to their ends (`compares_strncmp`).

A copy keeps to `n` if the string is shorter than that (`copies_iff`). A comparison is one of the
first `n` characters if these differ already, or the strings do not differ at all
(`compares_take_iff`). Characters are unsigned on the board.
-/

namespace PollingExpress

/-- The loop of `strncpy`, and the NUL behind it: what is stored from `dest[i]` on. -/
def strncpyLoop : List Byte → UInt32 → ℕ → List (ℕ × Byte)
  | c :: src, n, i => if n ≥ 0 then (i, c) :: strncpyLoop src (n - 1) (i + 1) else [(i, 0)]
  | [], _, i => [(i, 0)]

def strncpyStores (src : List Byte) (n : UInt32) : List (ℕ × Byte) := strncpyLoop src n 0

/-- `strncpy`. -/
def strncpy (dest : ℕ → Byte) (src : List Byte) (n : UInt32) : ℕ → Byte :=
  (strncpyStores src n).foldl (fun dest s => Function.update dest s.1 s.2) dest

/-- `dest[n]` is not written, nor what is behind it, and the first characters are copied. What comes
behind the end of a shorter `src` is left open here: it is filled up with NULs, up to `n`. -/
structure Copies (dest : ℕ → Byte) (src : List Byte) (n : UInt32) : Prop where
  within : ∀ s ∈ strncpyStores src n, s.1 < n.toNat
  copied : ∀ i < min n.toNat src.length, src[i]? = some (strncpy dest src n i)

/-- `r` has the sign of the lexicographic comparison, as the C library promises of `strncmp`;
nothing is said of its size. -/
structure Compares (r : Int) (s t : List Byte) : Prop where
  neg : r < 0 ↔ s < t
  zero : r = 0 ↔ s = t
  pos : 0 < r ↔ t < s

/-- What the first `n` characters tell of the order of two strings, or the length argument 0.

`strncmp` does not count: it goes on to the end of the shorter string, and looks at `n` only there.
So it gives the order of the first `n` characters where these differ, or where the strings are equal
as a whole. -/
def ToldBy (n : ℕ) (s t : List Byte) : Prop :=
  s.take n ≠ t.take n ∨ s = t ∨ n = 0 ∧ (s <+: t ∨ t <+: s)

section
variable {s t src : List Byte} {dest : ℕ → Byte} {n : UInt32} {r : Int} {k : ℕ} {a b : Byte}

/-! ### Signs -/

theorem byte_trichotomy (a b : Byte) : a < b ∨ a = b ∨ b < a := by
  rw [UInt8.lt_iff_toNat_lt, UInt8.lt_iff_toNat_lt, ← UInt8.toNat_inj]
  exact Nat.lt_trichotomy _ _

theorem compares_self_iff (s : List Byte) : Compares r s s ↔ r = 0 := by
  constructor
  · exact fun h => h.zero.mpr rfl
  · rintro rfl
    exact ⟨by simp [List.lt_irrefl], by simp, by simp [List.lt_irrefl]⟩

theorem compares_of_lt (h : s < t) : Compares (-1) s t := by
  refine ⟨by simpa using h, ?_, by simpa using List.lt_asymm h⟩
  have h_ne : s ≠ t := fun h_eq => List.lt_irrefl t (h_eq ▸ h)
  simpa using h_ne

theorem compares_of_gt (h : t < s) : Compares 1 s t := by
  refine ⟨by simpa using List.lt_asymm h, ?_, by simpa using h⟩
  have h_ne : s ≠ t := fun h_eq => List.lt_irrefl t (h_eq ▸ h)
  simpa using h_ne

theorem Compares.cons (h : Compares r s t) (a : Byte) : Compares r (a :: s) (a :: t) where
  neg := by rw [h.neg, List.cons_lt_cons_self]
  zero := by rw [h.zero, List.cons_inj_right]
  pos := by rw [h.pos, List.cons_lt_cons_self]

/-! ### Comparing -/

theorem strncmp_cons_lt (h : a < b) (s t : List Byte) (k : ℕ) :
    strncmp (a :: s) (b :: t) k = -1 := by
  rw [strncmp, if_neg (UInt8.lt_asymm h), if_pos h]

theorem strncmp_cons_gt (h : b < a) (s t : List Byte) (k : ℕ) :
    strncmp (a :: s) (b :: t) k = 1 := by
  rw [strncmp, if_pos h]

theorem strncmp_cons_self (a : Byte) (s t : List Byte) (k : ℕ) :
    strncmp (a :: s) (a :: t) k = strncmp s t k := by
  rw [strncmp, if_neg (UInt8.lt_irrefl a), if_neg (UInt8.lt_irrefl a)]

/-- The strings are compared to their ends: the first two characters that differ decide, and of two
strings that agree as far as they go the shorter one is the smaller. -/
theorem compares_strncmp (h : k ≠ 0) (s t : List Byte) : Compares (strncmp s t k) s t := by
  induction s generalizing t with
  -- a string that ends first is the smaller one, unless both end
  | nil =>
    cases t with
    | nil =>
      rw [compares_self_iff]
      exact (strncmp_eq_zero h).mpr rfl
    | cons b t =>
      have h_eq : strncmp [] (b :: t) k = -1 := by simp [strncmp, h]
      rw [h_eq]
      exact compares_of_lt (List.nil_lt_cons b t)
  | cons a s ih =>
    cases t with
    | nil =>
      have h_eq : strncmp (a :: s) [] k = 1 := by simp [strncmp, h]
      rw [h_eq]
      exact compares_of_gt (List.nil_lt_cons a s)
    | cons b t =>
      -- the first characters decide, or the rest does if they are equal
      rcases byte_trichotomy a b with h_lt | rfl | h_gt
      · rw [strncmp_cons_lt h_lt]
        exact compares_of_lt (List.cons_lt_cons_iff.mpr (.inl h_lt))
      · rw [strncmp_cons_self]
        exact (ih t).cons a
      · rw [strncmp_cons_gt h_gt]
        exact compares_of_gt (List.cons_lt_cons_iff.mpr (.inl h_gt))

/-- With the length argument 0 a string is equal to what it begins with. -/
theorem strncmp_zero_iff (s t : List Byte) : strncmp s t 0 = 0 ↔ s <+: t ∨ t <+: s := by
  induction s generalizing t with
  | nil => simp [strncmp]
  | cons a s ih =>
    cases t with
    | nil => simp [strncmp]
    | cons b t =>
      rw [List.cons_prefix_cons, List.cons_prefix_cons]
      rcases byte_trichotomy a b with h_lt | rfl | h_gt
      · have h_ne : a ≠ b := fun h_eq => UInt8.lt_irrefl b (h_eq ▸ h_lt)
        simp [strncmp_cons_lt h_lt, h_ne, h_ne.symm]
      · rw [strncmp_cons_self, ih]
        simp
      · have h_ne : a ≠ b := fun h_eq => UInt8.lt_irrefl b (h_eq ▸ h_gt)
        simp [strncmp_cons_gt h_gt, h_ne, h_ne.symm]

/-- Strings that differ in the first characters are in the order of these. -/
theorem take_lt_take_iff (h : s.take k ≠ t.take k) : s.take k < t.take k ↔ s < t := by
  induction k generalizing s t with
  | zero => exact absurd rfl h
  | succ k ih =>
    cases s with
    | nil => cases t <;> simp_all
    | cons a s =>
      cases t with
      | nil => simp
      | cons b t =>
        rw [List.take_succ_cons, List.take_succ_cons] at h ⊢
        rw [List.cons_lt_cons_iff, List.cons_lt_cons_iff]
        -- equal first characters leave the decision to the rest
        by_cases h_eq : a = b
        · subst h_eq
          rw [ih fun h_take => h (congrArg (a :: ·) h_take)]
        · simp [h_eq]

/-- `strncmp` compares the first `k` characters just where these, or the whole strings, tell it.
Where the first `k` are the same and the strings are not, it says that they differ, since it does
not count. -/
theorem compares_take_iff (s t : List Byte) (k : ℕ) :
    Compares (strncmp s t k) (s.take k) (t.take k) ↔ ToldBy k s t := by
  by_cases h_take : s.take k = t.take k
  · -- the characters are the same, so that nothing but 0 is right
    rw [← h_take, compares_self_iff, ToldBy]
    by_cases h_k : k = 0
    · subst h_k
      rw [strncmp_zero_iff]
      constructor
      · exact fun h_prefix => .inr (.inr ⟨rfl, h_prefix⟩)
      · rintro (h_ne | rfl | ⟨-, h_prefix⟩)
        · exact absurd rfl h_ne
        · exact .inl (List.prefix_refl s)
        · exact h_prefix
    · rw [strncmp_eq_zero h_k]
      constructor
      · exact fun h_eq => .inr (.inl h_eq)
      · rintro (h_ne | h_eq | ⟨h_zero, -⟩)
        · exact absurd h_take h_ne
        · exact h_eq
        · exact absurd h_zero h_k
  · have h_k : k ≠ 0 := by
      rintro rfl
      exact h_take rfl
    have h := compares_strncmp h_k s t
    have h_ne : s ≠ t := fun h_eq => h_take (congrArg (List.take k) h_eq)
    refine iff_of_true ⟨?_, ?_, ?_⟩ (.inl h_take)
    · rw [h.neg, take_lt_take_iff h_take]
    · rw [h.zero]
      exact iff_of_false h_ne h_take
    · rw [h.pos, take_lt_take_iff (Ne.symm h_take)]

/-! ### Copying -/

/-- All characters are stored, and the NUL. -/
theorem strncpyLoop_eq (src : List Byte) (n : UInt32) (i : ℕ) :
    strncpyLoop src n i = ((src ++ [0]).zipIdx i).map Prod.swap := by
  induction src generalizing n i with
  | nil => rfl
  | cons c src ih =>
    rw [strncpyLoop, if_pos (UInt32.zero_le : (0 : UInt32) ≤ n), ih]
    rfl

/-- What is at `x` after stores one behind the other. -/
theorem foldl_stores (l : List Byte) (i : ℕ) (dest : ℕ → Byte) (x : ℕ) :
    ((l.zipIdx i).map Prod.swap).foldl (fun dest s => Function.update dest s.1 s.2) dest x =
      if x < i then dest x else (l[x - i]?).getD (dest x) := by
  induction l generalizing i dest with
  | nil => simp
  | cons c l ih =>
    rw [List.zipIdx_cons, List.map_cons, List.foldl_cons, ih]
    -- `x` is in front of the first store, at it, or behind it
    rcases Nat.lt_trichotomy x i with h_lt | rfl | h_gt
    · rw [if_pos (Nat.lt_succ_of_lt h_lt), if_pos h_lt]
      exact Function.update_of_ne (Nat.ne_of_lt h_lt) _ _
    · rw [if_pos (Nat.lt_succ_self x), if_neg (Nat.lt_irrefl x), Nat.sub_self]
      exact Function.update_self _ _ _
    · have h_next : x - i = x - (i + 1) + 1 := by omega
      have h_other : Function.update dest i c x = dest x :=
        Function.update_of_ne (Nat.ne_of_gt h_gt) _ _
      rw [if_neg (by omega), if_neg (by omega), h_next, List.getElem?_cons_succ, Prod.fst_swap,
        Prod.snd_swap, h_other]

theorem strncpy_apply (dest : ℕ → Byte) (src : List Byte) (n : UInt32) (x : ℕ) :
    strncpy dest src n x = ((src ++ [0])[x]?).getD (dest x) := by
  rw [strncpy, strncpyStores, strncpyLoop_eq, foldl_stores, if_neg (Nat.not_lt_zero x),
    Nat.sub_zero]

/-- The NUL is within the first `n` places just for a string that is shorter. -/
theorem copies_iff (dest : ℕ → Byte) (src : List Byte) (n : UInt32) :
    Copies dest src n ↔ src.length < n.toNat := by
  -- the stores are the characters and the NUL behind them, each at its place
  have h_stores : ∀ i c, (i, c) ∈ strncpyStores src n ↔ (src ++ [0])[i]? = some c := by
    intro i c
    rw [strncpyStores, strncpyLoop_eq, ← Prod.swap_prod_mk,
      List.mem_map_of_injective Prod.swap_injective]
    exact List.mem_zipIdx_iff_getElem?
  constructor
  · intro h
    -- the NUL is the store farthest out
    exact h.within (src.length, 0) ((h_stores _ _).mpr (by simp))
  · refine fun h_lt => ⟨fun ⟨i, c⟩ h_s => ?_, fun i h_i => ?_⟩
    · obtain ⟨h_i, -⟩ := List.getElem?_eq_some_iff.mp ((h_stores i c).mp h_s)
      rw [List.length_append, List.length_singleton] at h_i
      exact Nat.lt_of_lt_of_le h_i h_lt
    · have h_src : i < src.length := Nat.lt_of_lt_of_le h_i (Nat.min_le_right _ _)
      rw [strncpy_apply, List.getElem?_append_left h_src, List.getElem?_eq_getElem h_src]
      rfl

/-- **When the string routines honour their length argument.** `strncmp` does not count `n` down:
its answer is that for the first `n` characters only where these tell the strings apart, where the
strings are equal, or where `n` is 0 and the strings do not differ before one of them ends
(`ToldBy`). `strncpy` copies up to the NUL whatever `n` is, so it stays within `n` places just for a
shorter string. -/
theorem string_routines_honour_iff (s t src : List Byte) (dest : ℕ → Byte) (n : UInt32) :
    (Compares (strncmp s t n.toNat) (s.take n.toNat) (t.take n.toNat) ↔ ToldBy n.toNat s t) ∧
      (Copies dest src n ↔ src.length < n.toNat) :=
  ⟨compares_take_iff s t n.toNat, copies_iff dest src n⟩

end

/-- `strncmp("train", "tr", 2)` is 1, and `strncpy` of 30 characters into a task name writes
`name[30]`. -/
theorem string_routines_counterexample :
    ¬Compares (strncmp [116, 114, 97, 105, 110] [116, 114] (2 : UInt32).toNat)
        (([116, 114, 97, 105, 110] : List Byte).take (2 : UInt32).toNat)
        (([116, 114] : List Byte).take (2 : UInt32).toNat) ∧
      ¬Copies (fun _ => 0) (List.replicate 30 97) 30 := by
  refine ⟨fun h => absurd (h.zero.mpr (by decide)) (by decide), fun h => ?_⟩
  exact absurd (h.within (30, 0) (by decide)) (by decide)

end PollingExpress
