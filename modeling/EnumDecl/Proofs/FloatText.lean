import EnumDecl.Binary64.Text
import EnumDecl.Proofs.Floating

/-!
# The text of a floating point number is read as the number

Every text that is written for a finite number is a *spelling*: digits, perhaps a point and digits
behind it, perhaps an exponent with its sign. A spelling is read as the decimal it spells whatever
the places of its parts (`readDecimal?_chars`), so it remains to see that the spelling of a number
is worth its shortest decimal. In one case the two are not the same decimal: where zeros are filled
in up to the point, and one more behind it.
-/

namespace EnumDecl.Binary64

/-! ## Runs of digits -/

/-- Nothing or something that does not begin with a digit. -/
def NoDigitFirst (rest : List Char) : Prop := ∀ c ∈ rest.head?, c.isDigit = false

theorem takeWhile_digits {ds rest : List Char} (hd : ∀ c ∈ ds, c.isDigit = true)
    (hr : NoDigitFirst rest) : (ds ++ rest).takeWhile Char.isDigit = ds := by
  rw [List.takeWhile_append_of_pos hd]
  cases rest with
  | nil => simp
  | cons c rest => simp [hr c rfl]

theorem dropWhile_digits {ds rest : List Char} (hd : ∀ c ∈ ds, c.isDigit = true)
    (hr : NoDigitFirst rest) : (ds ++ rest).dropWhile Char.isDigit = rest := by
  rw [List.dropWhile_append_of_pos hd]
  cases rest with
  | nil => rfl
  | cons c rest => simp [hr c rfl]

theorem isDigit_of_mem_zeros {n : Nat} {c : Char} (h : c ∈ List.replicate n '0') :
    c.isDigit = true := by
  rw [(List.mem_replicate.mp h).2]
  rfl

/-! ## Spellings -/

/-- The parts of a numeral without a sign. -/
structure Spelling where
  /-- The digits before the point. -/
  whole : List Char
  /-- The digits behind the point, which is left out where there are none. -/
  fraction : List Char
  /-- Whether the exponent is negative, and its digits. -/
  exponent : Option (Bool × List Char)

namespace Spelling

/-- The point and the digits behind it. -/
def fractionChars (s : Spelling) : List Char := if s.fraction = [] then [] else '.' :: s.fraction

/-- The mark, the sign and the digits of the exponent. -/
def exponentChars (s : Spelling) : List Char :=
  match s.exponent with
  | none => []
  | some (negative, ds) => 'e' :: (if negative then '-' else '+') :: ds

def chars (s : Spelling) : List Char := s.whole ++ (s.fractionChars ++ s.exponentChars)

/-- The number that the exponent stands for. -/
def power (s : Spelling) : Int :=
  match s.exponent with
  | none => 0
  | some (negative, ds) => if negative then -(Decimal.value ds : Int) else Decimal.value ds

/-- The decimal that is spelled. -/
def decimal (s : Spelling) : DecimalForm :=
  ⟨Decimal.value (s.whole ++ s.fraction), s.power - s.fraction.length⟩

/-- All that is called digits are digits, the whole part begins with a zero only if it is one, and
an exponent is not empty. -/
structure Proper (s : Spelling) : Prop where
  whole : ∀ c ∈ s.whole, c.isDigit = true
  leading : s.whole = ['0'] ∨ ∃ d ds, s.whole = d :: ds ∧ d ≠ '0'
  fraction : ∀ c ∈ s.fraction, c.isDigit = true
  exponent : ∀ negative ds, s.exponent = some (negative, ds) → ds ≠ [] ∧ ∀ c ∈ ds, c.isDigit = true

variable {s : Spelling}

theorem Proper.whole_ne_nil (h : Proper s) : s.whole ≠ [] := by
  rcases h.leading with h | ⟨d, ds, h, -⟩
  · simp [h]
  · simp [h]

/-- What is spelled begins with a digit. -/
theorem Proper.exists_chars (h : Proper s) : ∃ d ds, s.chars = d :: ds ∧ d.isDigit = true := by
  obtain ⟨d, ds, hd⟩ := List.exists_cons_of_ne_nil h.whole_ne_nil
  exact ⟨d, _, by rw [chars, hd]; rfl, h.whole d (by rw [hd]; exact List.mem_cons_self)⟩

theorem noDigitFirst_exponentChars {rest : List Char} (hr : NoDigitFirst rest) :
    NoDigitFirst (s.exponentChars ++ rest) := by
  unfold exponentChars
  cases s.exponent with
  | none => exact hr
  | some p =>
    intro c hc
    cases hc
    rfl

theorem noDigitFirst_fractionChars {rest : List Char} (hr : NoDigitFirst rest) :
    NoDigitFirst (s.fractionChars ++ (s.exponentChars ++ rest)) := by
  unfold fractionChars
  by_cases hf : s.fraction = []
  · rw [if_pos hf]
    exact noDigitFirst_exponentChars hr
  · rw [if_neg hf]
    intro c hc
    cases hc
    rfl

theorem head?_exponentChars_ne (s : Spelling) : s.exponentChars.head? ≠ some '.' := by
  unfold exponentChars
  cases s.exponent with
  | none => simp
  | some p => simp

theorem noDigitFirst_nil : NoDigitFirst [] := fun c hc => absurd hc (by simp)

theorem readExponent?_exponentChars (h : Proper s) :
    readExponent? s.exponentChars = some s.power := by
  unfold exponentChars power
  cases he : s.exponent with
  | none => rfl
  | some p =>
    obtain ⟨negative, ds⟩ := p
    obtain ⟨hne, hds⟩ := h.exponent negative ds he
    have hempty : ds.isEmpty = false := by simp [hne]
    have hall : ds.all Char.isDigit = true := List.all_eq_true.mpr hds
    cases negative with
    | true => simp [readExponent?, hempty, hall]
    | false => simp [readExponent?, hempty, hall]

/-- **A spelling is read as the decimal it spells.** -/
theorem readDecimal?_chars (h : Proper s) : readDecimal? s.chars = some s.decimal := by
  have hrest : NoDigitFirst (s.fractionChars ++ s.exponentChars) := by
    simpa using noDigitFirst_fractionChars (s := s) noDigitFirst_nil
  have hexponent : NoDigitFirst s.exponentChars := by
    simpa using noDigitFirst_exponentChars (s := s) noDigitFirst_nil
  have hwhole : spanDigits s.chars = (s.whole, s.fractionChars ++ s.exponentChars) := by
    unfold spanDigits chars
    rw [takeWhile_digits h.whole hrest, dropWhile_digits h.whole hrest]
  have hempty : s.whole.isEmpty = false := by simp [h.whole_ne_nil]
  unfold readDecimal?
  rw [hwhole]
  dsimp only
  by_cases hf : s.fraction = []
  · have hnone : s.fractionChars = [] := if_pos hf
    rw [hnone, List.nil_append]
    -- what comes next is the exponent, which begins with no point
    split
    · rename_i rest he
      exact absurd (congrArg List.head? he) (head?_exponentChars_ne s)
    · dsimp only
      rw [hempty, readExponent?_exponentChars h]
      simp [decimal, hf]
  · have hsome : s.fractionChars = '.' :: s.fraction := if_neg hf
    have hspan : spanDigits (s.fraction ++ s.exponentChars) = (s.fraction, s.exponentChars) := by
      unfold spanDigits
      rw [takeWhile_digits h.fraction hexponent, dropWhile_digits h.fraction hexponent]
    rw [hsome, List.cons_append]
    simp only [hspan]
    rw [hempty, readExponent?_exponentChars h]
    rfl

end Spelling

/-! ## What is written for a number -/

/-- The spelling of a decimal in the form without an exponent. -/
def positionalSpelling (ds : List Char) (place : Int) : Spelling :=
  if place ≤ 0 then ⟨['0'], List.replicate (-place).toNat '0' ++ ds, none⟩
  else if ds.length ≤ place.toNat then
    ⟨ds ++ List.replicate (place.toNat - ds.length) '0', ['0'], none⟩
  else ⟨ds.take place.toNat, ds.drop place.toNat, none⟩

/-- The spelling of a decimal with an exponent. -/
def scientificSpelling (width : Nat) (ds : List Char) (place : Int) : Spelling :=
  let power := Decimal.digits (place - 1).natAbs
  ⟨ds.take 1, ds.drop 1,
    some (decide (place - 1 < 0), List.replicate (width - power.length) '0' ++ power)⟩

/-- The spelling of a decimal in a written form. -/
def DecimalForm.spelling (form : WrittenForm) (d : DecimalForm) : Spelling :=
  let ds := Decimal.digits d.digits
  let place := ds.length + d.exponent
  if form.leastPlace ≤ place && place ≤ form.greatestPlace then positionalSpelling ds place
  else scientificSpelling form.exponentWidth ds place

/-- The spelling of a magnitude. -/
def Magnitude.spelling (form : WrittenForm) (m : Magnitude) : Spelling :=
  if m.isZero then ⟨['0'], ['0'], none⟩ else m.shortest.spelling form

theorem chars_positionalSpelling {ds : List Char} (hne : ds ≠ []) (place : Int) :
    (positionalSpelling ds place).chars = positional ds place := by
  unfold positionalSpelling positional
  by_cases h0 : place ≤ 0
  · rw [if_pos h0, if_pos h0]
    simp [Spelling.chars, Spelling.fractionChars, Spelling.exponentChars, hne]
  · rw [if_neg h0, if_neg h0]
    dsimp only
    by_cases hlen : ds.length ≤ place.toNat
    · rw [if_pos hlen, if_pos hlen]
      simp [Spelling.chars, Spelling.fractionChars, Spelling.exponentChars]
    · rw [if_neg hlen, if_neg hlen]
      simp [Spelling.chars, Spelling.fractionChars, Spelling.exponentChars, hlen]

theorem chars_scientificSpelling {ds : List Char} (hne : ds ≠ []) (width : Nat) (place : Int) :
    (scientificSpelling width ds place).chars = scientific width ds place := by
  unfold scientificSpelling scientific Spelling.chars Spelling.fractionChars Spelling.exponentChars
  cases ds with
  | nil => exact absurd rfl hne
  | cons d ds =>
    cases ds with
    | nil => simp
    | cons e ds => simp

/-- What is written is the spelling. -/
theorem Magnitude.chars_spelling (form : WrittenForm) (m : Magnitude) :
    (m.spelling form).chars = m.textChars form := by
  unfold spelling textChars
  by_cases hz : m.isZero = true
  · rw [if_pos hz, if_pos hz]
    rfl
  · rw [if_neg hz, if_neg hz]
    generalize m.shortest = d
    unfold DecimalForm.spelling
    dsimp only
    split
    · exact chars_positionalSpelling (Decimal.digits_ne_nil _) _
    · exact chars_scientificSpelling (Decimal.digits_ne_nil _) _ _

/-- Digits of a number, the first of which is not a zero. -/
structure Leading (ds : List Char) : Prop where
  digits : ∀ c ∈ ds, c.isDigit = true
  first : ∃ d rest, ds = d :: rest ∧ d ≠ '0'

theorem leading_digits {n : Nat} (h : 0 < n) : Leading (Decimal.digits n) := by
  refine ⟨fun c hc => Decimal.isDigit_of_mem_digits hc, ?_⟩
  have hhead := Decimal.head?_digits_ne_zero h
  cases hd : Decimal.digits n with
  | nil => exact absurd hd (Decimal.digits_ne_nil n)
  | cons d rest =>
    rw [hd] at hhead
    exact ⟨d, rest, rfl, fun h0 => hhead (congrArg some h0)⟩

theorem proper_positionalSpelling {ds : List Char} (h : Leading ds) (place : Int) :
    (positionalSpelling ds place).Proper := by
  have hexponent : ∀ negative es, (none : Option (Bool × List Char)) = some (negative, es) →
      es ≠ [] ∧ ∀ c ∈ es, c.isDigit = true := fun negative es he => absurd he (by simp)
  have hzero : ∀ c ∈ ['0'], c.isDigit = true := by simp
  obtain ⟨d, rest, hds, hd⟩ := h.first
  unfold positionalSpelling
  split
  · refine ⟨hzero, Or.inl rfl, fun c hc => ?_, hexponent⟩
    rcases List.mem_append.mp hc with hc | hc
    · exact isDigit_of_mem_zeros hc
    · exact h.digits c hc
  · split
    · refine ⟨fun c hc => ?_, Or.inr ⟨d, _, by rw [hds]; rfl, hd⟩, hzero, hexponent⟩
      rcases List.mem_append.mp hc with hc | hc
      · exact h.digits c hc
      · exact isDigit_of_mem_zeros hc
    · rename_i hpos _
      obtain ⟨n, hn⟩ : ∃ n, place.toNat = n + 1 := ⟨place.toNat - 1, by omega⟩
      rw [hn]
      exact ⟨fun c hc => h.digits c (List.mem_of_mem_take hc),
        Or.inr ⟨d, _, by rw [hds]; rfl, hd⟩, fun c hc => h.digits c (List.mem_of_mem_drop hc),
        hexponent⟩

theorem proper_scientificSpelling {ds : List Char} (h : Leading ds) (width : Nat) (place : Int) :
    (scientificSpelling width ds place).Proper := by
  obtain ⟨d, rest, hds, hd⟩ := h.first
  refine ⟨fun c hc => h.digits c (List.mem_of_mem_take hc),
    Or.inr ⟨d, [], by rw [scientificSpelling, hds]; rfl, hd⟩,
    fun c hc => h.digits c (List.mem_of_mem_drop hc), fun negative es he => ?_⟩
  obtain ⟨-, rfl⟩ := Prod.mk.inj (Option.some.inj he)
  refine ⟨by simp [Decimal.digits_ne_nil], fun c hc => ?_⟩
  rcases List.mem_append.mp hc with hc | hc
  · exact isDigit_of_mem_zeros hc
  · exact Decimal.isDigit_of_mem_digits hc

theorem DecimalForm.proper_spelling (form : WrittenForm) {d : DecimalForm} (h : 0 < d.digits) :
    (d.spelling form).Proper := by
  unfold spelling
  dsimp only
  split
  · exact proper_positionalSpelling (leading_digits h) _
  · exact proper_scientificSpelling (leading_digits h) _ _

theorem Magnitude.proper_spelling (form : WrittenForm) (m : Magnitude) :
    (m.spelling form).Proper := by
  unfold spelling
  by_cases hz : m.isZero = true
  · rw [if_pos hz]
    exact ⟨by simp, Or.inl rfl, by simp, fun negative es he => absurd he (by simp)⟩
  · rw [if_neg hz]
    exact DecimalForm.proper_spelling form (digits_shortest_pos (by simpa using hz))

/-! ## What it is worth -/

theorem decimal_scientificSpelling (width : Nat) (n : Nat) (e : Int) :
    (scientificSpelling width (Decimal.digits n) ((Decimal.digits n).length + e)).decimal
      = ⟨n, e⟩ := by
  have hlen := Decimal.length_digits_pos n
  unfold scientificSpelling Spelling.decimal Spelling.power
  dsimp only
  rw [List.take_append_drop, Decimal.value_digits, Decimal.value_zeros_append,
    Decimal.value_digits, List.length_drop]
  congr 1
  split
  · rename_i hneg
    simp only [decide_eq_true_eq] at hneg
    omega
  · rename_i hneg
    simp only [decide_eq_true_eq] at hneg
    omega

/-- Zeros that are filled in do not change what a decimal is worth. -/
theorem toMagnitude?_positionalSpelling (n : Nat) (e : Int) :
    (positionalSpelling (Decimal.digits n) ((Decimal.digits n).length + e)).decimal.toMagnitude?
      = DecimalForm.toMagnitude? ⟨n, e⟩ := by
  have hlen := Decimal.length_digits_pos n
  unfold positionalSpelling
  split
  · -- all the digits stand behind the point
    unfold Spelling.decimal Spelling.power
    dsimp only
    have hvalue :
      Decimal.value ('0' :: (List.replicate (-((Decimal.digits n).length + e)).toNat '0'
        ++ Decimal.digits n)) = n := by
      refine (Decimal.value_zeros_append 1
        (List.replicate (-((Decimal.digits n).length + e)).toNat '0' ++ Decimal.digits n)).trans ?_
      rw [Decimal.value_zeros_append, Decimal.value_digits]
    rw [List.cons_append, List.nil_append, hvalue, List.length_append, List.length_replicate]
    congr 2
    omega
  · split
    · -- zeros up to the point, and one behind it
      rename_i hpos hle
      unfold Spelling.decimal Spelling.power
      dsimp only
      have hvalue : Decimal.value (Decimal.digits n
          ++ List.replicate (((Decimal.digits n).length + e).toNat - (Decimal.digits n).length) '0'
            ++ ['0'])
          = n * 10 ^ (e.toNat + 1) := by
        rw [List.append_assoc, show ['0'] = List.replicate 1 '0' from rfl,
          List.replicate_append_replicate, Decimal.value_append_zeros, Decimal.value_digits]
        congr 2
        omega
      rw [hvalue, DecimalForm.toMagnitude?_mul_pow]
      congr 2
      simp only [List.length_cons, List.length_nil]
      omega
    · -- the point among the digits
      rename_i hpos hlt
      unfold Spelling.decimal Spelling.power
      dsimp only
      rw [List.take_append_drop, Decimal.value_digits, List.length_drop]
      congr 2
      omega

theorem DecimalForm.toMagnitude?_spelling (form : WrittenForm) (d : DecimalForm) :
    (d.spelling form).decimal.toMagnitude? = d.toMagnitude? := by
  unfold spelling
  dsimp only
  split
  · exact toMagnitude?_positionalSpelling d.digits d.exponent
  · rw [decimal_scientificSpelling]

/-- **The spelling of a number is worth the number.** -/
theorem Magnitude.toMagnitude?_spelling (form : WrittenForm) (m : Magnitude) :
    (m.spelling form).decimal.toMagnitude? = some m := by
  unfold spelling
  by_cases hz : m.isZero = true
  · rw [if_pos hz, eq_zero_of_isZero hz]
    exact DecimalForm.toMagnitude?_of_digits_eq_zero rfl
  · rw [if_neg hz, DecimalForm.toMagnitude?_spelling]
    exact toMagnitude?_shortest (by simpa using hz)

theorem DecimalForm.spelling_not_whole (form : WrittenForm) (d : DecimalForm) :
    (d.spelling form).fraction ≠ [] ∨ (d.spelling form).exponent ≠ none := by
  unfold spelling
  dsimp only
  split
  · left
    unfold positionalSpelling
    split
    · simp [Decimal.digits_ne_nil]
    · split
      · simp
      · rename_i hle
        simpa using hle
  · exact Or.inr (by simp [scientificSpelling])

/-- A spelling has a point or an exponent, so that it is not taken for an integer. -/
theorem Magnitude.spelling_not_whole (form : WrittenForm) (m : Magnitude) :
    (m.spelling form).fraction ≠ [] ∨ (m.spelling form).exponent ≠ none := by
  unfold spelling
  by_cases hz : m.isZero = true
  · rw [if_pos hz]
    exact Or.inl (by simp)
  · rw [if_neg hz]
    exact DecimalForm.spelling_not_whole form _

/-! ## Reading it -/

theorem toLower_of_isDigit {c : Char} (h : c.isDigit = true) : c.toLower = c := by
  simp only [Char.isDigit, Bool.and_eq_true, decide_eq_true_eq] at h
  unfold Char.toLower
  rw [dif_neg]
  rintro ⟨hA, -⟩
  have h9 : c.val ≤ '9'.val := h.2
  exact absurd (UInt32.le_trans hA h9) (by decide)

/-- A numeral that begins with a digit is no word. -/
theorem readUnsigned?_of_digit {c : Char} {cs : List Char} (h : c.isDigit = true)
    (negative : Bool) :
    readUnsigned? negative (c :: cs)
      = (readDecimal? (c :: cs)).map (DecimalForm.toBinary64 negative) := by
  have hword : ∀ w : String, (∃ d, w.toList.head? = some d ∧ d.isDigit = false) →
      String.ofList ((c :: cs).map Char.toLower) ≠ w := by
    rintro w ⟨d, hd, hdigit⟩ he
    rw [← he, String.toList_ofList, List.map_cons, List.head?_cons, toLower_of_isDigit h] at hd
    rw [← Option.some.inj hd, h] at hdigit
    exact absurd hdigit (by simp)
  have hinf := hword "inf" ⟨'i', rfl, rfl⟩
  have hinfinity := hword "infinity" ⟨'i', rfl, rfl⟩
  have hnan := hword "nan" ⟨'n', rfl, rfl⟩
  unfold readUnsigned?
  dsimp only
  simp only [hinf, hinfinity, hnan, decide_false, Bool.or_false, Bool.false_eq_true, if_false]

/-- A spelling that is worth a number is read as it. -/
theorem Spelling.readUnsigned?_chars {s : Spelling} (h : s.Proper) {m : Magnitude}
    (hm : s.decimal.toMagnitude? = some m) (negative : Bool) :
    readUnsigned? negative s.chars = some (.finite negative m) := by
  obtain ⟨c, cs, hc, hdigit⟩ := h.exists_chars
  have hread := readDecimal?_chars h
  rw [hc] at hread ⊢
  rw [readUnsigned?_of_digit hdigit, hread, Option.map_some, DecimalForm.toBinary64, hm]

/-- **What is written for a finite number is read as it.** -/
theorem readUnsigned?_spelling (form : WrittenForm) (m : Magnitude) (negative : Bool) :
    readUnsigned? negative (m.spelling form).chars = some (.finite negative m) :=
  Spelling.readUnsigned?_chars (m.proper_spelling form) (m.toMagnitude?_spelling form) negative

end EnumDecl.Binary64
