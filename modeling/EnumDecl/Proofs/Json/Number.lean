import Mathlib
import EnumDecl.Json.Reader
import EnumDecl.Json.Writer
import EnumDecl.Proofs.FloatText

/-!
# Numbers and names in JSON

An atom is written without anything around it, so where it ends is told by what comes after it.
Behind a value there is a comma, a bracket or nothing (`Ends`), and none of these can go on a
numeral. An integer and a floating point number are both spellings. They are told apart by the
point or the exponent, of which the spelling of a floating point number has at least one.
-/

namespace EnumDecl.Json

open Binary64 (Spelling NoDigitFirst)

/-- Nothing, or what stands between two values or behind the last one. -/
def Ends (rest : List Char) : Prop := ∀ c ∈ rest.head?, c = ',' ∨ c = ']' ∨ c = '\x7d'

theorem ends_nil : Ends [] := fun c hc => absurd hc (by simp)

theorem ends_cons {c : Char} (h : c = ',' ∨ c = ']' ∨ c = '\x7d') (rest : List Char) :
    Ends (c :: rest) := by
  intro d hd
  cases hd
  exact h

theorem Ends.noDigitFirst {rest : List Char} (h : Ends rest) : NoDigitFirst rest := by
  intro c hc
  rcases h c hc with rfl | rfl | rfl <;> rfl

/-! ## The parts of a numeral -/

variable {s : Spelling} {rest : List Char}

theorem wholePart?_append (h : s.Proper) (hr : NoDigitFirst rest) :
    wholePart? (s.whole ++ rest) = some (s.whole, rest) := by
  rcases h.leading with hz | ⟨d, ds, hd, hne⟩
  · rw [hz]
    rfl
  · have hdigits := h.whole
    rw [hd] at hdigits ⊢
    have hds : ∀ c ∈ ds, c.isDigit = true := fun c hc => hdigits c (List.mem_cons_of_mem _ hc)
    rw [List.cons_append, wholePart?, if_neg hne, if_pos (hdigits d List.mem_cons_self),
      Binary64.takeWhile_digits hds hr, Binary64.dropWhile_digits hds hr]

theorem fractionPart_append (h : s.Proper) (hr : NoDigitFirst rest)
    (hpoint : rest.head? ≠ some '.') :
    fractionPart (s.fractionChars ++ rest) = (s.fractionChars, rest) := by
  unfold Spelling.fractionChars
  cases hf : s.fraction with
  | nil =>
    rw [if_pos rfl, List.nil_append]
    unfold fractionPart
    split
    · exact absurd rfl hpoint
    · rfl
  | cons d ds =>
    have hdigits := h.fraction
    rw [hf] at hdigits
    have hds : ∀ c ∈ ds, c.isDigit = true := fun c hc => hdigits c (List.mem_cons_of_mem _ hc)
    rw [if_neg (by simp), List.cons_append, List.cons_append, fractionPart,
      if_pos (hdigits d List.mem_cons_self), Binary64.takeWhile_digits hds hr,
      Binary64.dropWhile_digits hds hr]

theorem exponentPart_append (h : s.Proper) (hr : Ends rest) :
    exponentPart (s.exponentChars ++ rest) = (s.exponentChars, rest) := by
  unfold Spelling.exponentChars
  cases he : s.exponent with
  | none =>
    cases rest with
    | nil => rfl
    | cons c rest =>
      have hc : ¬ (c = 'e' ∨ c = 'E') := by
        rcases hr c rfl with rfl | rfl | rfl <;> decide
      simp only [List.nil_append]
      unfold exponentPart
      dsimp only
      rw [if_neg (by simpa using hc)]
  | some p =>
    obtain ⟨negative, ds⟩ := p
    obtain ⟨hne, hds⟩ := h.exponent negative ds he
    have hempty : ds.isEmpty = false := by simp [hne]
    cases negative with
    | true =>
      simp [exponentPart, Binary64.takeWhile_digits hds hr.noDigitFirst,
        Binary64.dropWhile_digits hds hr.noDigitFirst, hempty]
    | false =>
      simp [exponentPart, Binary64.takeWhile_digits hds hr.noDigitFirst,
        Binary64.dropWhile_digits hds hr.noDigitFirst, hempty]

/-- **A numeral is read up to its end.** -/
theorem readNumber_chars (h : s.Proper) (hr : Ends rest) (start : List Char) (negative : Bool) :
    readNumber start negative (s.chars ++ rest)
      = (numberOf negative s.whole s.fractionChars s.exponentChars).map fun v => (v, rest) := by
  have hexponent : NoDigitFirst (s.exponentChars ++ rest) :=
    Spelling.noDigitFirst_exponentChars hr.noDigitFirst
  have hfraction : NoDigitFirst (s.fractionChars ++ (s.exponentChars ++ rest)) :=
    Spelling.noDigitFirst_fractionChars hr.noDigitFirst
  have hpoint : (s.exponentChars ++ rest).head? ≠ some '.' := by
    cases hx : s.exponentChars with
    | nil =>
      intro hp
      rcases hr '.' hp with hc | hc | hc <;> exact absurd hc (by decide)
    | cons c cs =>
      have hne := s.head?_exponentChars_ne
      rw [hx] at hne
      exact hne
  unfold readNumber
  rw [Spelling.chars, List.append_assoc, List.append_assoc, wholePart?_append h hfraction]
  dsimp only
  rw [fractionPart_append h hexponent hpoint]
  dsimp only
  rw [exponentPart_append h hr]

/-! ## Integers -/

theorem readNumber_digits {n : Nat} (hn : n < 10 ^ Decimal.digitLimit) (hr : Ends rest)
    (start : List Char) (negative : Bool) :
    readNumber start negative (Decimal.digits n ++ rest)
      = .ok (.int (if negative then -(n : Int) else n), rest) := by
  have hproper : (⟨Decimal.digits n, [], none⟩ : Spelling).Proper := by
    refine ⟨fun c hc => Decimal.isDigit_of_mem_digits hc, ?_, by simp, by simp⟩
    rcases Nat.eq_zero_or_pos n with rfl | hpos
    · exact Or.inl rfl
    · exact Or.inr (Binary64.leading_digits hpos).first
  have hread := readNumber_chars hproper hr start negative
  have hchars : (⟨Decimal.digits n, [], none⟩ : Spelling).chars = Decimal.digits n :=
    List.append_nil _
  rw [hchars] at hread
  rw [hread]
  unfold numberOf
  dsimp only
  rw [if_pos (by rfl), if_pos (Decimal.isReadable_digits hn), Decimal.value_digits]
  rfl

/-! ## Floating point numbers -/

theorem readNumber_textChars (m : Binary64.Magnitude) (hr : Ends rest) (start : List Char)
    (negative : Bool) :
    readNumber start negative (m.textChars numberForm ++ rest)
      = .ok (.float (.finite negative m), rest) := by
  have hproper := m.proper_spelling numberForm
  have hwhole : ¬ ((m.spelling numberForm).fractionChars.isEmpty
      && (m.spelling numberForm).exponentChars.isEmpty) = true := by
    rcases m.spelling_not_whole numberForm with hf | hx
    · simp [Spelling.fractionChars, hf]
    · obtain ⟨p, hp⟩ := Option.ne_none_iff_exists'.mp hx
      simp [Spelling.exponentChars, hp]
  have hchars : (m.spelling numberForm).whole ++ (m.spelling numberForm).fractionChars
      ++ (m.spelling numberForm).exponentChars = (m.spelling numberForm).chars :=
        List.append_assoc _ _ _
  rw [← m.chars_spelling, readNumber_chars hproper hr]
  unfold numberOf
  dsimp only
  rw [if_neg hwhole, hchars, Binary64.readUnsigned?_spelling]
  rfl

/-! ## Atoms -/

theorem readName?_null (rest : List Char) :
    readName? ('n' :: 'u' :: 'l' :: 'l' :: rest) = some (.null, rest) := by rfl

theorem readName?_true (rest : List Char) :
    readName? ('t' :: 'r' :: 'u' :: 'e' :: rest) = some (.bool true, rest) := by rfl

theorem readName?_false (rest : List Char) :
    readName? ('f' :: 'a' :: 'l' :: 's' :: 'e' :: rest) = some (.bool false, rest) := by rfl

theorem readName?_nan (rest : List Char) :
    readName? ("NaN".toList ++ rest) = some (.marked .constant (.float .nan), rest) := by rfl

theorem readName?_infinity (negative : Bool) (rest : List Char) :
    readName? (((Binary64.infinity negative).textIn numberForm).toList ++ rest)
      = some (.float (.infinity negative), rest) := by
  cases negative <;> rfl

/-- No name begins with a digit, or with a sign and a digit. -/
theorem readName?_digit {c : Char} (h : c.isDigit = true) (cs : List Char) :
    readName? (c :: cs) = none ∧ readName? ('-' :: c :: cs) = none := by
  have hne : ∀ d : Char, d.isDigit = false → (d == c) = false := by
    intro d hd
    rw [beq_eq_false_iff_ne]
    rintro rfl
    rw [h] at hd
    exact absurd hd (by simp)
  have hn := hne 'n' rfl
  have ht := hne 't' rfl
  have hf := hne 'f' rfl
  have hN := hne 'N' rfl
  have hI := hne 'I' rfl
  have hminus := hne '-' rfl
  constructor
  · simp [readName?, names, List.isPrefixOf?, hn, ht, hf, hN, hI, hminus]
  · simp [readName?, names, List.isPrefixOf?, hI]

theorem readAtom_digit {c : Char} (h : c.isDigit = true) (cs : List Char) :
    readAtom (c :: cs) = readNumber (c :: cs) false (c :: cs)
      ∧ readAtom ('-' :: c :: cs) = readNumber ('-' :: c :: cs) true (c :: cs) := by
  obtain ⟨hplain, hsigned⟩ := readName?_digit h cs
  unfold readAtom
  rw [hplain, hsigned]
  refine ⟨?_, rfl⟩
  dsimp only
  split
  · rename_i he
    rw [(List.cons.inj he).1] at h
    exact absurd h (by decide)
  · rfl

/-- **An integer within the digit limit is read as it.** -/
theorem readAtom_intDigits {i : Int} (hi : Decimal.isWritable i = true) (hr : Ends rest) :
    readAtom (Decimal.intDigits i ++ rest) = .ok (.int i, rest) := by
  have hnegative : i < 0 → -(i.natAbs : Int) = i := by omega
  have hpositive : ¬ i < 0 → (i.natAbs : Int) = i := by omega
  have hn : i.natAbs < 10 ^ Decimal.digitLimit := Decimal.isWritable_iff.mp hi
  obtain ⟨c, cs, hc⟩ := List.exists_cons_of_ne_nil (Decimal.digits_ne_nil i.natAbs)
  have hdigit : c.isDigit = true := Decimal.isDigit_of_mem_digits (n := i.natAbs) (by simp [hc])
  obtain ⟨hplain, hsigned⟩ := readAtom_digit hdigit (cs ++ rest)
  unfold Decimal.intDigits
  split
  · rename_i hi
    have hread := readNumber_digits hn hr ('-' :: c :: (cs ++ rest)) true
    rw [hc, List.cons_append] at hread
    rw [hc, List.cons_append, List.cons_append, hsigned, hread, if_pos rfl, hnegative hi]
  · rename_i hi
    have hread := readNumber_digits hn hr (c :: (cs ++ rest)) false
    rw [hc, List.cons_append] at hread
    rw [hc, List.cons_append, hplain, hread, if_neg (by simp), hpositive hi]

/-- The number that the text of a number is read as: itself, but not-a-number is the one of all
texts. -/
def reading : Binary64 → Value
  | .nan => .marked .constant (.float .nan)
  | x => .float x

/-- **A floating point number is read as it.** -/
theorem readAtom_textIn (x : Binary64) (hr : Ends rest) :
    readAtom ((x.textIn numberForm).toList ++ rest) = .ok (reading x, rest) := by
  cases x with
  | nan =>
    unfold readAtom
    rw [show ((Binary64.nan.textIn numberForm).toList) = "NaN".toList from rfl, readName?_nan]
    rfl
  | infinity s =>
    unfold readAtom
    rw [readName?_infinity]
    rfl
  | finite s m =>
    have hproper := m.proper_spelling numberForm
    obtain ⟨c, cs, hc⟩ := List.exists_cons_of_ne_nil hproper.whole_ne_nil
    have hdigit : c.isDigit = true := hproper.whole c (by rw [hc]; exact List.mem_cons_self)
    -- a minus is read before the digits, so the two signs go through different branches
    obtain ⟨ds, htext⟩ : ∃ ds, m.textChars numberForm = c :: ds :=
      ⟨_, by rw [← m.chars_spelling, Spelling.chars, hc]; rfl⟩
    obtain ⟨hplain, hsigned⟩ := readAtom_digit hdigit (ds ++ rest)
    cases s with
    | true =>
      have hl : ((Binary64.finite true m).textIn numberForm).toList
          = '-' :: m.textChars numberForm := by
        simp [Binary64.textIn]
      have hread := readNumber_textChars m hr ('-' :: c :: (ds ++ rest)) true
      rw [htext, List.cons_append] at hread
      rw [hl, htext, List.cons_append, List.cons_append, hsigned, hread]
      rfl
    | false =>
      have hl : ((Binary64.finite false m).textIn numberForm).toList = m.textChars numberForm := by
        simp [Binary64.textIn]
      have hread := readNumber_textChars m hr (c :: (ds ++ rest)) false
      rw [htext, List.cons_append] at hread
      rw [hl, htext, List.cons_append, hplain, hread]
      rfl

end EnumDecl.Json
