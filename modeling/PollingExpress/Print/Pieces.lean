import Mathlib.Data.List.Infix
import PollingExpress.Print.Format

/-!
# A format in pieces

A directive is read from the front, and what is read of it depends on nothing behind its specifier
(`directive_append`). So a format that is gone through can be printed in pieces: two formats one
after the other come to what they come to together, the second one with the arguments that the first
one left (`text_append`).

Every turn reads a character (`turn_suffix`), so the turns that the model counts suffice: what is
printed for a format is what its first turn prints and then what is printed for the rest, with no
count left in it (`text_cons`).
-/

namespace PollingExpress
namespace Print

/-- The same directive, with more behind it. -/
def Directive.more (d : Directive) (format : List Byte) : Directive :=
  { d with format := d.format ++ format }

section
variable {flags flags' : Flags} {format rest more : List Byte} {d d' : Directive} {c : Byte}
  {t : List Byte} {va va' : List Arg} {i i' : UInt32}

/-! ### What is left of the format -/

theorem readFlags_suffix (flags : Flags) (format : List Byte) :
    (readFlags flags format).2 <:+ format := by
  induction format generalizing flags with
  | nil => exact List.suffix_refl _
  | cons c format ih =>
    rw [readFlags]
    split_ifs
    · exact (ih _).trans (List.suffix_cons c format)
    · exact (ih _).trans (List.suffix_cons c format)
    · exact (ih _).trans (List.suffix_cons c format)
    · exact (ih _).trans (List.suffix_cons c format)
    · exact (ih _).trans (List.suffix_cons c format)
    · exact List.suffix_refl _

theorem atoi_suffix (i : UInt32) (format : List Byte) : (atoi i format).2 <:+ format := by
  induction format generalizing i with
  | nil => exact List.suffix_refl _
  | cons c format ih =>
    rw [atoi]
    split
    · exact (ih _).trans (List.suffix_cons c format)
    · exact List.suffix_refl _

/-- The width is read from the front of the format, and what follows it is left as it was. -/
theorem readWidth_suffix (h : readWidth d = .ok d') : d'.format <:+ d.format := by
  rw [readWidth] at h
  split at h
  · obtain rfl := Except.ok.inj h
    exact List.suffix_refl _
  · next c rest h_format =>
    -- the width is a number, or `*`, or not there
    split at h
    · obtain rfl := Except.ok.inj h
      exact atoi_suffix _ _
    · split at h
      · obtain ⟨⟨w, va⟩, -, h⟩ := of_bind_ok h
        dsimp only at h
        split at h
        · obtain rfl := Except.ok.inj h
          exact h_format ▸ List.suffix_cons c rest
        · obtain rfl := Except.ok.inj h
          exact h_format ▸ List.suffix_cons c rest
      · obtain rfl := Except.ok.inj h
        exact List.suffix_refl _

/-- The precision is read from the front of the format, like the width. -/
theorem readPrecision_suffix (h : readPrecision d = .ok d') : d'.format <:+ d.format := by
  rw [readPrecision] at h
  split at h
  · obtain rfl := Except.ok.inj h
    exact List.suffix_refl _
  · next c rest h_format =>
    rw [h_format]
    split at h
    · -- behind the dot comes a number, or `*`, or nothing
      dsimp only at h
      split at h
      · obtain rfl := Except.ok.inj h
        exact List.suffix_cons c []
      · next c' rest' =>
        split at h
        · obtain rfl := Except.ok.inj h
          exact (atoi_suffix _ _).trans (List.suffix_cons c _)
        · split at h
          · obtain ⟨⟨prec, va⟩, -, h⟩ := of_bind_ok h
            obtain rfl := Except.ok.inj h
            exact (List.suffix_cons c' rest').trans (List.suffix_cons c _)
          · obtain rfl := Except.ok.inj h
            exact List.suffix_cons c _
    · obtain rfl := Except.ok.inj h
      exact h_format ▸ List.suffix_refl _

/-- The length is read from the front of the format, like the width and the precision. -/
theorem readLength_suffix (d : Directive) : (readLength d).format <:+ d.format := by
  rw [readLength]
  split
  · exact List.suffix_refl _
  · next c rest h_format =>
    rw [h_format]
    -- `l` and `h` may come twice, the others come once
    split_ifs
    · split
      · next c' rest' =>
        split
        · exact (List.suffix_cons c' rest').trans (List.suffix_cons c _)
        · exact List.suffix_cons c _
      · exact List.suffix_cons c []
    · split
      · next c' rest' =>
        split
        · exact (List.suffix_cons c' rest').trans (List.suffix_cons c _)
        · exact List.suffix_cons c _
      · exact List.suffix_cons c []
    · exact List.suffix_cons c rest
    · exact List.suffix_cons c rest
    · exact h_format ▸ List.suffix_refl _

/-! ### What has been read of it -/

theorem readFlags_append (h : (readFlags flags format).2 ≠ []) (more : List Byte) :
    readFlags flags (format ++ more) =
      ((readFlags flags format).1, (readFlags flags format).2 ++ more) := by
  induction format generalizing flags with
  | nil => exact absurd rfl h
  | cons c format ih =>
    rw [List.cons_append, readFlags, readFlags]
    rw [readFlags] at h
    split_ifs at h ⊢
    · exact ih h
    · exact ih h
    · exact ih h
    · exact ih h
    · exact ih h
    · rfl

theorem atoi_append (h : (atoi i format).2 ≠ []) (more : List Byte) :
    atoi i (format ++ more) = ((atoi i format).1, (atoi i format).2 ++ more) := by
  induction format generalizing i with
  | nil => exact absurd rfl h
  | cons c format ih =>
    rw [List.cons_append, atoi, atoi]
    rw [atoi] at h
    split at h
    · next h_digit =>
      rw [if_pos h_digit, if_pos h_digit]
      exact ih h
    · next h_digit =>
      rw [if_neg h_digit, if_neg h_digit]
      rfl

/-- With more text behind the format the width is read as before, since reading it stopped in front
of the end. -/
theorem readWidth_more (more : List Byte) (h : readWidth d = .ok d') (h_rest : d'.format ≠ []) :
    readWidth (d.more more) = .ok (d'.more more) := by
  rw [readWidth] at h
  split at h
  · next h_format =>
    obtain rfl := Except.ok.inj h
    exact absurd h_format h_rest
  · next c rest h_format =>
    -- the first character is the same, so the same branch is taken
    have h_more : (d.more more).format = c :: (rest ++ more) := congrArg (· ++ more) h_format
    rw [readWidth, h_more]
    dsimp only
    split at h
    · next h_digit =>
      obtain rfl := Except.ok.inj h
      rw [if_pos h_digit, ← List.cons_append, ← h_format, atoi_append h_rest]
      rfl
    · next h_digit =>
      rw [if_neg h_digit]
      split at h
      · next h_star =>
        rw [if_pos h_star]
        obtain ⟨⟨w, va⟩, h_next, h⟩ := of_bind_ok h
        refine (bind_of_ok h_next).trans ?_
        dsimp only at h ⊢
        split at h
        · next h_neg =>
          rw [if_pos h_neg]
          obtain rfl := Except.ok.inj h
          rfl
        · next h_neg =>
          rw [if_neg h_neg]
          obtain rfl := Except.ok.inj h
          rfl
      · next h_star =>
        rw [if_neg h_star]
        obtain rfl := Except.ok.inj h
        rfl

/-- With more text behind the format the precision is read as before. After a dot at the very end
the text would be read as part of it, but then nothing of the format is left. -/
theorem readPrecision_more (more : List Byte) (h : readPrecision d = .ok d')
    (h_rest : d'.format ≠ []) :
    readPrecision (d.more more) = .ok (d'.more more) := by
  rw [readPrecision] at h
  split at h
  · next h_format =>
    obtain rfl := Except.ok.inj h
    exact absurd h_format h_rest
  · next c rest h_format =>
    -- the first character is the same, so the same branch is taken
    have h_more : (d.more more).format = c :: (rest ++ more) := congrArg (· ++ more) h_format
    rw [readPrecision, h_more]
    dsimp only
    split at h
    · next h_dot =>
      rw [if_pos h_dot]
      dsimp only at h
      split at h
      · obtain rfl := Except.ok.inj h
        -- a dot at the end: the directive is not over
        exact absurd rfl h_rest
      · next c' rest' =>
        rw [List.cons_append]
        dsimp only
        split at h
        · next h_digit =>
          obtain rfl := Except.ok.inj h
          rw [if_pos h_digit, ← List.cons_append, atoi_append h_rest]
          rfl
        · next h_digit =>
          rw [if_neg h_digit]
          split at h
          · next h_star =>
            rw [if_pos h_star]
            obtain ⟨⟨prec, va⟩, h_next, h⟩ := of_bind_ok h
            obtain rfl := Except.ok.inj h
            exact bind_of_ok h_next
          · next h_star =>
            rw [if_neg h_star]
            obtain rfl := Except.ok.inj h
            rfl
    · next h_dot =>
      rw [if_neg h_dot]
      obtain rfl := Except.ok.inj h
      rfl

/-- With more text behind the format the length is read as before. Whether a letter is doubled is
seen from the next character, which is in the format itself. -/
theorem readLength_more (more : List Byte) (h_rest : (readLength d).format ≠ []) :
    readLength (d.more more) = (readLength d).more more := by
  rw [readLength] at h_rest
  cases h_format : d.format with
  | nil =>
    rw [h_format] at h_rest
    exact absurd h_format h_rest
  | cons c rest =>
    have h_more : (d.more more).format = c :: (rest ++ more) := congrArg (· ++ more) h_format
    rw [h_format] at h_rest
    rw [readLength, readLength, h_more, h_format]
    dsimp only at h_rest ⊢
    split_ifs at h_rest ⊢
    · -- whether the letter comes twice is seen if something is left
      cases rest with
      | nil => exact absurd rfl h_rest
      | cons c' rest' =>
        rw [List.cons_append]
        dsimp only
        split_ifs <;> rfl
    · cases rest with
      | nil => exact absurd rfl h_rest
      | cons c' rest' =>
        rw [List.cons_append]
        dsimp only
        split_ifs <;> rfl
    · rfl
    · rfl
    · rfl

/-- What a specifier prints, with more behind it. -/
theorem conversion_more {x : Except Fault (List Byte × List Arg)} {rest' : List Byte}
    (more : List Byte)
    (h : (do let (text, va) ← x; Except.ok (text, rest', va)) = Except.ok (t, rest, va)) :
    rest' = rest ∧ (do let (text, va) ← x; Except.ok (text, rest' ++ more, va)) =
      Except.ok (t, rest ++ more, va) := by
  obtain ⟨⟨t', va'⟩, h_x, h⟩ := of_bind_ok h
  obtain ⟨rfl, h_pair⟩ := Prod.mk.inj (Except.ok.inj h)
  obtain ⟨rfl, rfl⟩ := Prod.mk.inj h_pair
  exact ⟨rfl, bind_of_ok h_x⟩

/-- The specifier is the last character that counts. -/
theorem convert_more (more : List Byte) (h : convert d = .ok (t, rest, va)) :
    (∃ c, d.format = c :: rest) ∧ convert (d.more more) = .ok (t, rest ++ more, va) := by
  rw [convert] at h
  split at h
  · cases h
  · next c rest' h_format =>
    have h_more : (d.more more).format = c :: (rest' ++ more) := congrArg (· ++ more) h_format
    rw [convert, h_more]
    dsimp only
    suffices h_all : rest' = rest ∧ _ from ⟨⟨c, h_all.1 ▸ h_format⟩, h_all.2⟩
    -- integers, characters, strings, pointers, and any other character, which is printed
    split_ifs at h ⊢
    · exact conversion_more more h
    · exact conversion_more more h
    · exact conversion_more more h
    · exact conversion_more more h
    · obtain ⟨rfl, h_pair⟩ := Prod.mk.inj (Except.ok.inj h)
      obtain ⟨rfl, rfl⟩ := Prod.mk.inj h_pair
      exact ⟨rfl, rfl⟩

/-- **Nothing behind its specifier counts for a directive.** Flags, width, precision and length are
read in turn, and each reading stops at a character that is there: the specifier at the latest. -/
theorem directive_append (more : List Byte) (h : directive format va = .ok (t, rest, va')) :
    directive (format ++ more) va = .ok (t, rest ++ more, va') := by
  rw [directive] at h
  obtain ⟨d₁, h_width, h⟩ := of_bind_ok h
  obtain ⟨d₂, h_precision, h_convert⟩ := of_bind_ok h
  obtain ⟨⟨c, h_format⟩, h_more⟩ := convert_more more h_convert
  -- each part was left something to read
  have h_length : (readLength d₂).format ≠ [] := h_format ▸ List.cons_ne_nil c rest
  have h_ne : ∀ {xs ys : List Byte}, xs <:+ ys → xs ≠ [] → ys ≠ [] := by
    rintro xs _ h_suffix h_xs rfl
    exact h_xs (List.suffix_nil.mp h_suffix)
  have h_d₂ : d₂.format ≠ [] := h_ne (readLength_suffix d₂) h_length
  have h_d₁ : d₁.format ≠ [] := h_ne (readPrecision_suffix h_precision) h_d₂
  have h_flags : (readFlags .none format).2 ≠ [] := h_ne (readWidth_suffix h_width) h_d₁
  rw [directive, readFlags_append h_flags]
  refine (bind_of_ok (readWidth_more more h_width h_d₁)).trans ?_
  refine (bind_of_ok (readPrecision_more more h_precision h_d₂)).trans ?_
  rw [readLength_more more h_length]
  exact h_more

theorem directive_suffix (h : directive format va = .ok (t, rest, va')) : rest <:+ format := by
  rw [directive] at h
  obtain ⟨d₁, h_width, h⟩ := of_bind_ok h
  obtain ⟨d₂, h_precision, h_convert⟩ := of_bind_ok h
  obtain ⟨⟨c, h_format⟩, -⟩ := convert_more [] h_convert
  calc rest
    _ <:+ (readLength d₂).format := h_format ▸ List.suffix_cons c rest
    _ <:+ d₂.format := readLength_suffix d₂
    _ <:+ d₁.format := readPrecision_suffix h_precision
    _ <:+ (readFlags .none format).2 := readWidth_suffix h_width
    _ <:+ format := readFlags_suffix _ _

theorem turn_append (more : List Byte) (h : turn c format va = .ok (t, rest, va')) :
    turn c (format ++ more) va = .ok (t, rest ++ more, va') := by
  rw [turn] at h ⊢
  split_ifs at h ⊢
  · obtain ⟨rfl, h_pair⟩ := Prod.mk.inj (Except.ok.inj h)
    obtain ⟨rfl, rfl⟩ := Prod.mk.inj h_pair
    rfl
  · exact directive_append more h

theorem turn_suffix (h : turn c format va = .ok (t, rest, va')) : rest <:+ format := by
  rw [turn] at h
  split at h
  · obtain ⟨rfl, h_pair⟩ := Prod.mk.inj (Except.ok.inj h)
    obtain ⟨rfl, rfl⟩ := Prod.mk.inj h_pair
    exact List.suffix_refl _
  · exact directive_suffix h

/-! ### The loop -/

/-- More turns than the format has characters do not matter: each turn takes a character off the
format, and an empty format ends the loop. -/
theorem textLoop_eq {n m : ℕ} (h_n : format.length ≤ n) (h_m : format.length ≤ m) :
    textLoop n format va = textLoop m format va := by
  -- by induction on the turns; each one takes a character off the format
  induction n generalizing m format va with
  | zero =>
    obtain rfl := List.length_eq_zero_iff.mp (Nat.le_zero.mp h_n)
    rw [textLoop, textLoop]
  | succ n ih =>
    cases format with
    | nil => rw [textLoop, textLoop]
    | cons c format =>
      cases m with
      | zero => cases h_m
      | succ m =>
        rw [textLoop, textLoop]
        cases h_turn : turn c format va with
        | error e => rfl
        | ok r =>
          obtain ⟨t, rest, va'⟩ := r
          have h_rest := (turn_suffix h_turn).length_le
          rw [List.length_cons] at h_n h_m
          have h_eq : textLoop n rest va' = textLoop m rest va' := ih (by omega) (by omega)
          change (textLoop n rest va' >>= fun r => .ok (t ++ r.1, r.2)) =
            textLoop m rest va' >>= fun r => .ok (t ++ r.1, r.2)
          rw [h_eq]

/-- A turn, and then the rest. -/
theorem text_cons (h : turn c format va = .ok (t, rest, va')) :
    text (c :: format) va = (text rest va').map fun r => (t ++ r.1, r.2) := by
  rw [text, List.length_cons, textLoop, text,
    textLoop_eq (Nat.le_refl rest.length) (turn_suffix h).length_le]
  refine (bind_of_ok h).trans ?_
  dsimp only
  cases textLoop format.length rest va' <;> rfl

theorem text_cons_error {e : Fault} (h : turn c format va = .error e) :
    text (c :: format) va = .error e := by
  rw [text, List.length_cons, textLoop, h]
  rfl

/-- Formats are read turn by turn. -/
theorem text_induction {P : List Byte → List Arg → Prop} (nil : ∀ va, P [] va)
    (error : ∀ c format va e, turn c format va = .error e → P (c :: format) va)
    (step : ∀ c format va t rest va', turn c format va = .ok (t, rest, va') → P rest va' →
      P (c :: format) va)
    (format : List Byte) (va : List Arg) : P format va := by
  -- what a turn leaves is a suffix of the rest, and shorter than the format
  induction h_length : format.length using Nat.strong_induction_on generalizing format va with
  | _ n ih =>
    cases format with
    | nil => exact nil va
    | cons c format =>
      cases h_turn : turn c format va with
      | error e => exact error c format va e h_turn
      | ok r =>
        have h_rest := (turn_suffix h_turn).length_le
        rw [List.length_cons] at h_length
        exact step c format va _ _ _ h_turn (ih _ (by omega) _ _ rfl)

/-- **Formats one after the other** come to what each comes to, one after the other. The induction
follows the loop, over the format and the arguments that are left; a turn reads the same, whatever
is behind it (`turn_append`). -/
theorem text_append (h : text format va = .ok (t, va')) (more : List Byte) :
    text (format ++ more) va = (text more va').map fun r => (t ++ r.1, r.2) := by
  induction format, va using text_induction generalizing t with
  | nil va =>
    obtain ⟨rfl, rfl⟩ := Prod.mk.inj (Except.ok.inj h)
    rw [List.nil_append]
    cases text more va <;> rfl
  | error c format va e h_turn => cases (text_cons_error h_turn).symm.trans h
  -- a turn reads the same, whatever is behind it
  | step c format va t₀ rest va₀ h_turn ih =>
    rw [text_cons h_turn] at h
    obtain ⟨⟨t₁, va₁⟩, h_rest, h_pair⟩ := of_map_ok h
    obtain ⟨rfl, rfl⟩ := Prod.mk.inj h_pair
    rw [List.cons_append, text_cons (turn_append more h_turn), ih h_rest]
    cases text more va₁ with
    | error e => rfl
    | ok r =>
      change Except.ok (t₀ ++ (t₁ ++ r.1), r.2) = Except.ok (t₀ ++ t₁ ++ r.1, r.2)
      rw [List.append_assoc]

end

end Print
end PollingExpress
