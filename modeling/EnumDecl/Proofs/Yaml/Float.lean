import EnumDecl.Proofs.Data
import EnumDecl.Proofs.Yaml.Number

/-!
# Floating point numbers in YAML

The text of a finite number is a spelling whose sign stands before it. The same spelling with a
zero behind its point is worth as much, so the point that is put before an exponent changes nothing
(`toMagnitude?_pointed`). Infinities and not-a-number have names.
-/

namespace EnumDecl.Binary64

namespace Spelling

variable {s : Spelling}

/-- The spelling with a zero behind its point where there is no digit. -/
def pointed (s : Spelling) : Spelling :=
  { s with fraction := if s.fraction = [] then ['0'] else s.fraction }

theorem fraction_pointed_ne_nil (s : Spelling) : s.pointed.fraction ≠ [] := by
  unfold pointed
  dsimp only
  split
  · simp
  · assumption

theorem proper_pointed (h : s.Proper) : s.pointed.Proper := by
  refine ⟨h.whole, h.leading, ?_, h.exponent⟩
  unfold pointed
  dsimp only
  split
  · exact fun c hc => by rw [List.mem_singleton.mp hc]; rfl
  · exact h.fraction

/-- A zero behind the point changes nothing. -/
theorem toMagnitude?_pointed (s : Spelling) :
    s.pointed.decimal.toMagnitude? = s.decimal.toMagnitude? := by
  by_cases hf : s.fraction = []
  · have hpointed : s.pointed.decimal = ⟨Decimal.value s.whole * 10, s.power - 1⟩ := by
      have hvalue : Decimal.value (s.whole ++ ['0']) = Decimal.value s.whole * 10 :=
        Decimal.value_append_zeros s.whole 1
      simp [decimal, pointed, hf, hvalue, power]
    have hplain : s.decimal = ⟨Decimal.value s.whole, s.power - 1 + 1⟩ := by
      simp [decimal, hf]
    rw [hpointed, hplain]
    exact DecimalForm.toMagnitude?_mul_ten _ _
  · rw [show s.pointed = s by simp [pointed, hf]]

end Spelling

end EnumDecl.Binary64

namespace EnumDecl.Yaml

open Binary64 (Spelling)

variable {s : Spelling}

theorem isNumeral_exponentChars (h : s.Proper) : IsNumeral s.exponentChars := by
  unfold Spelling.exponentChars
  cases he : s.exponent with
  | none => exact fun c hc => absurd hc (by simp)
  | some p =>
    obtain ⟨negative, ds⟩ := p
    obtain ⟨-, hds⟩ := h.exponent negative ds he
    refine List.forall_mem_cons.mpr
      ⟨by decide, List.forall_mem_cons.mpr ⟨?_, isNumeral_digits hds⟩⟩
    cases negative <;> decide

theorem isNumeral_chars (h : s.Proper) : IsNumeral s.chars := by
  have hfraction : IsNumeral s.fractionChars := by
    unfold Spelling.fractionChars
    split
    · exact fun c hc => absurd hc (by simp)
    · exact List.forall_mem_cons.mpr ⟨by decide, isNumeral_digits h.fraction⟩
  intro c hc
  rw [Spelling.chars, List.mem_append, List.mem_append] at hc
  rcases hc with hc | hc | hc
  · exact isNumeral_digits h.whole c hc
  · exact hfraction c hc
  · exact isNumeral_exponentChars h c hc

/-- The point is put in where the spelling has none. -/
theorem pointBeforeExponent_chars (h : s.Proper) (hn : s.fraction ≠ [] ∨ s.exponent ≠ none)
    {sign : List Char} (hsign : ∀ c ∈ sign, c = '-') :
    pointBeforeExponent (sign ++ s.chars) = sign ++ s.pointed.chars := by
  unfold pointBeforeExponent
  by_cases hf : s.fraction = []
  · obtain ⟨p, hp⟩ := Option.ne_none_iff_exists'.mp (hn.resolve_left fun hne => hne hf)
    obtain ⟨negative, ds⟩ := p
    obtain ⟨-, hds⟩ := h.exponent negative ds hp
    have hexponent : s.exponentChars = 'e' :: (if negative then '-' else '+') :: ds := by
      rw [Spelling.exponentChars, hp]
    have hchars :
      sign ++ s.chars = (sign ++ s.whole) ++ 'e' :: (if negative then '-' else '+') :: ds := by
      simp [Spelling.chars, Spelling.fractionChars, hf, hexponent]
    have hpointed : sign ++ s.pointed.chars
        = (sign ++ s.whole) ++ '.' :: '0' :: 'e' :: (if negative then '-' else '+') :: ds := by
      have hexponent' : s.pointed.exponentChars = s.exponentChars := rfl
      have hwhole : s.pointed.whole = s.whole := rfl
      have hfraction : s.pointed.fractionChars = ['.', '0'] := by
        simp [Spelling.fractionChars, Spelling.pointed, hf]
      rw [Spelling.chars, hexponent', hwhole, hfraction, hexponent]
      simp
    have hbefore : ∀ c ∈ sign ++ s.whole, c = '-' ∨ c.isDigit = true := fun c hc =>
      (List.mem_append.mp hc).imp (hsign c) (h.whole c)
    -- so the first `e` is that of the exponent, and nothing before or behind it is a point
    have hne : ∀ c ∈ sign ++ s.whole, (c != 'e') = true := by
      intro c hc
      rw [bne_iff_ne]
      rintro rfl
      rcases hbefore 'e' hc with he | he <;> exact absurd he (by decide)
    have hpoint : ((sign ++ s.whole)
        ++ 'e' :: (if negative then '-' else '+') :: ds).contains '.' = false := by
      rw [← Bool.not_eq_true, List.contains_iff_mem, List.mem_append, not_or]
      refine ⟨fun hc => ?_, fun hc => ?_⟩
      · rcases hbefore '.' hc with he | he <;> exact absurd he (by decide)
      · simp only [List.mem_cons] at hc
        rcases hc with hc | hc | hc
        · exact absurd hc (by decide)
        · cases negative <;> exact absurd hc (by decide)
        · exact absurd (hds '.' hc) (by decide)
    rw [hchars, hpointed, hpoint]
    rw [List.dropWhile_append_of_pos hne, List.takeWhile_append_of_pos hne]
    simp
  · have hpointed : s.pointed = s := by simp [Spelling.pointed, hf]
    have hpoint : (sign ++ s.chars).contains '.' = true := by
      simp [Spelling.chars, Spelling.fractionChars, hf]
    rw [hpoint, if_pos rfl, hpointed]

/-! ## Told from other texts -/

theorem isFraction_append (h : s.Proper) : isFraction (s.fraction ++ s.exponentChars) = true := by
  have hspaced : ∀ c ∈ s.fraction, isSpacedDigit c = true := fun c hc => by
    rw [isSpacedDigit, h.fraction c hc]
    rfl
  unfold isFraction
  rw [List.dropWhile_append_of_pos hspaced, Spelling.exponentChars]
  cases he : s.exponent with
  | none => rfl
  | some p =>
    obtain ⟨negative, ds⟩ := p
    obtain ⟨hne, hds⟩ := h.exponent negative ds he
    obtain ⟨d, ds, rfl⟩ := List.exists_cons_of_ne_nil hne
    rw [List.dropWhile_cons_of_neg (by decide), isExponent, List.all_eq_true.mpr hds]
    cases negative <;> rfl

theorem isUnsignedFloat_chars (h : s.Proper) (hf : s.fraction ≠ []) :
    isUnsignedFloat s.chars = true := by
  have hne : ∀ c ∈ s.whole, (c != '.') = true := fun c hc =>
    bne_iff_ne.mpr (ne_of_isDigit (h.whole c hc) rfl)
  have hchars : s.chars = s.whole ++ '.' :: (s.fraction ++ s.exponentChars) := by
    simp [Spelling.chars, Spelling.fractionChars, hf]
  unfold isUnsignedFloat
  dsimp only
  rw [hchars, List.takeWhile_append_of_pos hne, List.dropWhile_append_of_pos hne,
    List.takeWhile_cons_of_neg (by simp), List.dropWhile_cons_of_neg (by simp), List.append_nil,
    colonPieces_of_numeral (isNumeral_digits h.whole) h.whole_ne_nil]
  show (isSpacedNumeral s.whole && isFraction (s.fraction ++ s.exponentChars)) = true
  rw [isSpacedNumeral_digits h.whole h.whole_ne_nil, isFraction_append h]
  rfl

/-! ## Read as a number -/

theorem joinDigits?_numeral {cs : List Char} (h : IsNumeral cs) (b : Bool) :
    Numeral.joinDigits? b cs = some cs := by
  induction cs generalizing b with
  | nil => rfl
  | cons c cs ih =>
    have hne := (h.char List.mem_cons_self).neutral.2.2.2.1
    have hrest := ih (fun d hd => h d (List.mem_cons_of_mem _ hd)) c.isDigit
    unfold Numeral.joinDigits?
    split
    · rename_i he
      exact absurd he (by simp)
    · rename_i he
      exact absurd (List.cons.inj he).1 hne
    · rename_i he
      cases he
      rw [if_neg hne, hrest]
      rfl

theorem float?_numeral {cs : List Char} (h : IsNumeral cs) :
    Numeral.float? cs = Binary64.readChars? cs := by
  have hreverse : IsNumeral cs.reverse := fun c hc => h c (List.mem_reverse.mp hc)
  have htrim : Numeral.trim cs = cs := by
    rw [Numeral.trim, dropWhile_isAsciiSpace h, dropWhile_isAsciiSpace hreverse,
      List.reverse_reverse]
  rw [Numeral.float?, map_asciiOf h, htrim, joinDigits?_numeral h]
  rfl

theorem readChars?_digit {c : Char} (h : c.isDigit = true) (cs : List Char) :
    Binary64.readChars? (c :: cs) = Binary64.readUnsigned? false (c :: cs) := by
  unfold Binary64.readChars?
  split
  · rename_i he
    exact absurd (List.cons.inj he).1 (ne_of_isDigit h rfl)
  · rename_i he
    exact absurd (List.cons.inj he).1 (ne_of_isDigit h rfl)
  · rfl

theorem lower_numeral {cs : List Char} (h : IsNumeral cs) : Text.lower cs = cs := by
  have hascii : ∀ c ∈ cs, c.toNat < 0x80 := fun c hc => by
    have := (toNat_of_isOrdinary (h.char hc).ordinary).2
    omega
  rw [Text.lower, Text.lowerAfter_of_ascii hascii, map_toLower h]

/-- What is spelled without a sign is read as the number it is worth. -/
theorem floatAfterSign_chars (h : s.Proper) {m : Binary64.Magnitude}
    (hm : s.decimal.toMagnitude? = some m) :
    s.chars ≠ ".nan".toList ∧ floatAfterSign s.chars = .ok (.finite false m) := by
  have hnumeral := isNumeral_chars h
  have hread := Spelling.readUnsigned?_chars h hm false
  obtain ⟨d, ds, hchars, hdigit⟩ := h.exists_chars
  have hpoint : d ≠ '.' := ne_of_isDigit hdigit rfl
  have hword : ∀ w : List Char, w.head? = some '.' → s.chars ≠ w := by
    rintro w hw rfl
    rw [hchars] at hw
    exact hpoint (Option.some.inj hw)
  refine ⟨hword _ rfl, ?_⟩
  unfold floatAfterSign
  rw [if_neg (hword _ rfl), not_contains_colon hnumeral, plainFloat,
    float?_numeral hnumeral, hchars, readChars?_digit hdigit, ← hchars, hread]
  rfl

/-- A spelling that has a point stands for the number it is worth, behind a minus for the one below
zero. -/
theorem standsFor_chars (h : s.Proper) (hf : s.fraction ≠ []) {m : Binary64.Magnitude}
    (hm : s.decimal.toMagnitude? = some m) (negative : Bool) :
    StandsFor ((if negative then ['-'] else []) ++ s.chars) (.float (.finite negative m)) := by
  have hnumeral : IsNumeral ((if negative then ['-'] else []) ++ s.chars) := by
    intro c hc
    rcases List.mem_append.mp hc with hc | hc
    · cases negative
      · exact absurd hc (by simp)
      · exact List.mem_singleton.mp hc ▸ by decide
    · exact isNumeral_chars h c hc
  have hfloat := isUnsignedFloat_chars h hf
  obtain ⟨hnan, hread⟩ := floatAfterSign_chars h hm
  obtain ⟨d, ds, hchars, hdigit⟩ := h.exists_chars
  have hdrop : dropSign ((if negative then ['-'] else []) ++ s.chars) = s.chars := by
    cases negative
    · rw [hchars]
      exact dropSign_digit hdigit ds
    · rfl
  -- the two signs part only in the first character
  obtain ⟨c, cs, hc, hstarts, hplain⟩ : ∃ c cs, (if negative then ['-'] else []) ++ s.chars
    = c :: cs ∧
      startsNumber c = true ∧ startsPlain (c :: cs) = true := by
    rw [hchars]
    obtain ⟨hstart, hstart'⟩ := startsPlain_digit hdigit ds
    cases negative
    · exact ⟨d, ds, rfl, by rw [startsNumber, hdigit]; rfl, hstart⟩
    · exact ⟨'-', d :: ds, rfl, rfl, hstart'⟩
  have hnumber : resolve ((if negative then ['-'] else []) ++ s.chars) = .float := by
    have hyes : isFloat ((if negative then ['-'] else []) ++ s.chars) = true := by
      unfold isFloat
      rw [hdrop, hfloat]
      rfl
    rw [hc] at hnumeral hyes ⊢
    rw [resolve_number hstarts hnumeral, if_pos hyes]
  refine ⟨hnumeral.standsPlain (hc ▸ hplain), ?_⟩
  have hempty : ((if negative then ['-'] else []) ++ s.chars).isEmpty = false := by rw [hc]; rfl
  rw [hnumber, scalarValue, floatOf, dropUnderscores_of_numeral hnumeral, lower_numeral hnumeral]
  dsimp only
  rw [hempty, hdrop, if_neg hnan, hread]
  cases negative
  · have hminus : d ≠ '-' := ne_of_isDigit hdigit rfl
    rw [hchars]
    simp [hminus]
  · rfl

/-- **A finite number is read as it.** -/
theorem standsFor_finite (negative : Bool) (m : Binary64.Magnitude) :
    StandsFor (floatChars (.finite negative m)) (.float (.finite negative m)) := by
  have hproper := m.proper_spelling numberForm
  have hsign : ∀ c ∈ (if negative then ['-'] else [] : List Char), c = '-' := by
    cases negative <;> simp
  have hwritten : floatChars (.finite negative m)
      = (if negative then ['-'] else []) ++ (m.spelling numberForm).pointed.chars := by
    rw [← pointBeforeExponent_chars hproper (m.spelling_not_whole numberForm) hsign,
      m.chars_spelling, floatChars, Binary64.textIn]
    cases negative <;> simp
  rw [hwritten]
  exact standsFor_chars (Spelling.proper_pointed hproper) (Spelling.fraction_pointed_ne_nil _)
    ((Spelling.toMagnitude?_pointed _).trans (m.toMagnitude?_spelling numberForm)) negative

/-- The names of the numbers that are not finite. -/
theorem floatChars_names : floatChars .nan = ['.', 'n', 'a', 'n'] ∧
    floatChars (.infinity false) = ['.', 'i', 'n', 'f'] ∧
    floatChars (.infinity true) = ['-', '.', 'i', 'n', 'f'] := by
  refine ⟨?_, ?_, ?_⟩ <;> rfl

/-- **A floating point number is read as it**, and not-a-number as the one of all texts. -/
theorem standsFor_float (x : Binary64) : StandsFor (floatChars x) (Value.reread (.float x)) := by
  have hvalue : ∀ {cs : List Char} {v : Value}, resolve cs = .float → floatOf cs = .ok v →
      scalarValue (resolve cs) cs = .ok v := fun hr hv => by rw [hr, scalarValue, hv]
  obtain ⟨hnan, hinf, hminus⟩ := floatChars_names
  cases x with
  | nan =>
    rw [hnan]
    exact ⟨standsPlain_word rfl rfl, hvalue rfl rfl⟩
  | infinity negative =>
    cases negative with
    | false =>
      rw [hinf]
      exact ⟨standsPlain_word rfl rfl, hvalue rfl rfl⟩
    | true =>
      rw [hminus]
      exact ⟨standsPlain_word rfl rfl, hvalue rfl rfl⟩
  | finite negative m => exact standsFor_finite negative m

end EnumDecl.Yaml
