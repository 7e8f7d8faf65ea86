import EnumDecl.Proofs.FloatText
import EnumDecl.Proofs.Yaml.Plain
import EnumDecl.Yaml.Content
import EnumDecl.Yaml.Writer

/-!
# Numbers in YAML

A number is written plain and has to be told from a text, from the other plain forms and from the
numbers of other bases. The characters of a number are digits, a point, the mark of an exponent and
signs (`numeralChars`); none of the words for nothing and for truth values begins with one of them.
An integer has no leading zero that would put it into base eight. A floating point number needs a
point, which is added before the exponent where there is none (`Binary64.Spelling.pointed`).
-/

namespace EnumDecl.Yaml

/-! ## The characters of numbers -/

/-- All characters that stand in the text of a number. -/
def numeralChars : List Char :=
  ['0', '1', '2', '3', '4', '5', '6', '7', '8', '9', '.', 'e', '+', '-']

theorem mem_numeralChars_of_isDigit {c : Char} (h : c.isDigit = true) : c ∈ numeralChars := by
  simp only [Char.isDigit, Bool.and_eq_true, decide_eq_true_eq, UInt32.le_iff_toNat_le] at h
  have h0 : '0'.val.toNat = 48 := rfl
  have h9 : '9'.val.toNat = 57 := rfl
  have hn : c.toNat = c.val.toNat := rfl
  rw [← Char.ofNat_toNat c]
  have hlow : 48 ≤ c.toNat := by omega
  have hhigh : c.toNat ≤ 57 := by omega
  generalize c.toNat = n at hlow hhigh
  interval_cases n <;> decide

theorem ne_of_isDigit {c d : Char} (h : c.isDigit = true) (hd : d.isDigit = false) : c ≠ d := by
  rintro rfl
  rw [h] at hd
  exact absurd hd (by simp)

theorem hexValue?_of_isDigit {c : Char} (h : c.isDigit = true) :
    Text.hexValue? c = some (c.toNat - 0x30) := by
  simp only [Char.isDigit, Bool.and_eq_true, decide_eq_true_eq] at h
  have hrange : ('0' ≤ c && c ≤ '9') = true := by
    simp only [Bool.and_eq_true, decide_eq_true_eq]
    exact h
  rw [Text.hexValue?, if_pos hrange]

/-- What no reader of numbers changes or stops at. -/
structure IsNumeralChar (c : Char) : Prop where
  ordinary : isOrdinary c = true
  neutral : c ≠ ' ' ∧ c ≠ ':' ∧ c ≠ '#' ∧ c ≠ '_' ∧ c ≠ '\n'
  free : isIndicator c = false
  ascii : Numeral.asciiOf c = c
  space : Text.isAsciiSpace c = false
  lower : c.toLower = c

theorem isNumeralChar_of_mem {c : Char} (h : c ∈ numeralChars) : IsNumeralChar c := by
  simp only [numeralChars, List.mem_cons, List.not_mem_nil, or_false] at h
  rcases h with rfl | rfl | rfl | rfl | rfl | rfl | rfl | rfl | rfl | rfl | rfl | rfl | rfl
    | rfl <;>
    exact ⟨by decide, by decide, by rfl, by decide, by decide, by decide⟩

variable {cs : List Char}

/-- A text of such characters only. -/
def IsNumeral (cs : List Char) : Prop := ∀ c ∈ cs, c ∈ numeralChars

theorem IsNumeral.char (h : IsNumeral cs) {c : Char} (hc : c ∈ cs) : IsNumeralChar c :=
  isNumeralChar_of_mem (h c hc)

theorem isNumeral_digits {ds : List Char} (h : ∀ c ∈ ds, c.isDigit = true) : IsNumeral ds :=
  fun c hc => mem_numeralChars_of_isDigit (h c hc)

/-! ## Written plain -/

theorem IsNumeral.standsPlain (h : IsNumeral cs) (hs : startsPlain cs = true) :
    StandsPlain cs := by
  refine standsPlain_word hs (List.all_eq_true.mpr fun c hc => ?_)
  obtain ⟨hspace, hcolon, hhash, -⟩ := (h.char hc).neutral
  simp [(h.char hc).ordinary, hspace, hcolon, hhash]

/-! ## Told from words -/

/-- What a number begins with. -/
def startsNumber (c : Char) : Bool := c.isDigit || c == '-' || c == '.'

theorem isWordOf_eq_false {words : List String} {c : Char}
    (h : ∀ w ∈ words, w.toList.head? ≠ some c)
    (cs : List Char) : isWordOf words (c :: cs) = false := by
  rw [isWordOf, List.any_eq_false]
  intro w hw
  rw [beq_iff_eq]
  intro he
  exact h w hw (by rw [he]; rfl)

theorem startsNumber_words : ∀ w ∈ nullWords ++ trueWords ++ falseWords, ∀ c ∈ w.toList.head?,
    startsNumber c = false := by
  simp [nullWords, trueWords, falseWords, startsNumber]

theorem resolve_of_not_mem (h : '\n' ∉ cs) : resolve cs = resolveLine cs := by
  have hdrop : Text.dropFinalBreak cs = cs :=
    Text.dropFinalBreak_eq_self fun hl => h (List.mem_of_getLast? hl)
  have hne : cs ≠ ['\n'] := by
    rintro rfl
    exact h (by simp)
  rw [resolve, if_neg hne, hdrop]

/-- No word means a number. -/
theorem resolve_number {c : Char} (hc : startsNumber c = true) (h : IsNumeral (c :: cs)) :
    resolve (c :: cs) = if isFloat (c :: cs) then .float
      else if isUnsignedInt (dropSign (c :: cs)) then .int
      else if isTimestamp (c :: cs) then .timestamp
      else if c :: cs = ['<', '<'] then .merge
      else if c :: cs = ['='] then .value
      else .text := by
  have hword : ∀ w ∈ nullWords ++ trueWords ++ falseWords, w.toList.head? ≠ some c := by
    intro w hw hd
    rw [startsNumber_words w hw c hd] at hc
    exact absurd hc (by simp)
  -- words for nothing and for truth values have other first characters, so numbers come next
  rw [resolve_of_not_mem fun hn => (h.char hn).neutral.2.2.2.2 rfl, resolveLine,
    isWordOf_eq_false fun w hw => hword w (by simp [hw]),
    isWordOf_eq_false fun w hw => hword w (by simp [hw]),
    isWordOf_eq_false fun w hw => hword w (by simp [hw])]
  rfl

theorem colonPieces_of_numeral (h : IsNumeral cs) (hne : cs ≠ []) : colonPieces cs = [cs] := by
  have hcolon : ∀ c ∈ cs, (c == ':') = false := fun c hc =>
    beq_eq_false_iff_ne.mpr (h.char hc).neutral.2.1
  refine List.splitBy_of_isChain hne (List.pairwise_of_forall_mem_list fun a ha b hb => ?_).isChain
  rw [hcolon a ha, hcolon b hb, beq_self_eq_true]

theorem not_contains_colon (h : IsNumeral cs) : cs.contains ':' = false := by
  rw [← Bool.not_eq_true, List.contains_iff_mem]
  exact fun hc => (h.char hc).neutral.2.1 rfl

theorem dropUnderscores_of_numeral (h : IsNumeral cs) : dropUnderscores cs = cs :=
  List.filter_eq_self.mpr fun _ hc => bne_iff_ne.mpr (h.char hc).neutral.2.2.2.1

theorem map_asciiOf (h : IsNumeral cs) : cs.map Numeral.asciiOf = cs :=
  (List.map_congr_left fun _ hc => (h.char hc).ascii).trans (List.map_id' cs)

theorem map_toLower (h : IsNumeral cs) : cs.map Char.toLower = cs :=
  (List.map_congr_left fun _ hc => (h.char hc).lower).trans (List.map_id' cs)

theorem dropWhile_isAsciiSpace (h : IsNumeral cs) : cs.dropWhile Text.isAsciiSpace = cs := by
  cases cs with
  | nil => rfl
  | cons c cs => rw [List.dropWhile_cons_of_neg (by simp [(h.char List.mem_cons_self).space])]

/-! ## Integers -/

theorem isSpacedNumeral_digits {ds : List Char} (h : ∀ c ∈ ds, c.isDigit = true) (hne : ds ≠ []) :
    isSpacedNumeral ds = true := by
  obtain ⟨c, cs, rfl⟩ := List.exists_cons_of_ne_nil hne
  rw [isSpacedNumeral, h c List.mem_cons_self, Bool.true_and, List.all_eq_true]
  exact fun d hd => by rw [isSpacedDigit, h d (List.mem_cons_of_mem _ hd)]; rfl

/-- The digits of an integer are a zero alone, or do not begin with one. -/
theorem digits_cases (n : Nat) : (n = 0 ∧ Decimal.digits n = ['0']) ∨
    ∃ d ds, Decimal.digits n = d :: ds ∧ d ≠ '0' := by
  rcases Nat.eq_zero_or_pos n with rfl | hn
  · exact Or.inl ⟨rfl, rfl⟩
  · obtain ⟨d, ds, hd⟩ := List.exists_cons_of_ne_nil (Decimal.digits_ne_nil n)
    exact Or.inr ⟨d, ds, hd, fun h0 => Decimal.head?_digits_ne_zero hn (by rw [hd, h0]; rfl)⟩

theorem isUnsignedInt_of_ne_zero {d : Char} (hd : d ≠ '0') (ds : List Char) :
    isUnsignedInt (d :: ds) = match colonPieces (d :: ds) with
      | first :: rest => isSpacedNumeral first && areSixtieths rest
      | [] => false := by
  conv_lhs => unfold isUnsignedInt
  split
  · rename_i he
    exact absurd he (by simp)
  all_goals first
    | exact absurd (List.cons.inj ‹d :: ds = '0' :: _›).1 hd
    | rfl

theorem isUnsignedInt_digits (n : Nat) : isUnsignedInt (Decimal.digits n) = true := by
  have hdigits : ∀ c ∈ Decimal.digits n, c.isDigit = true :=
    fun c hc => Decimal.isDigit_of_mem_digits hc
  rcases digits_cases n with ⟨-, h⟩ | ⟨d, ds, h, hd⟩
  · rw [h]
    rfl
  · -- without a leading zero the digits are the first and only piece between colons
    have hpieces := colonPieces_of_numeral (isNumeral_digits hdigits) (by rw [h]; simp)
    have hspaced := isSpacedNumeral_digits hdigits (by rw [h]; simp)
    rw [h] at hpieces hspaced ⊢
    rw [isUnsignedInt_of_ne_zero hd, hpieces]
    dsimp only
    rw [hspaced]
    rfl

theorem dropSign_digit {c : Char} (h : c.isDigit = true) (cs : List Char) :
    dropSign (c :: cs) = c :: cs := by
  unfold dropSign
  split
  · rename_i he
    exact absurd (List.cons.inj he).1 (ne_of_isDigit h rfl)
  · rename_i he
    exact absurd (List.cons.inj he).1 (ne_of_isDigit h rfl)
  · rfl

/-- Digits without a point are no floating point number. -/
theorem isFloat_digits {ds : List Char} (h : ∀ c ∈ ds, c.isDigit = true) (hne : ds ≠ []) :
    isFloat ds = false ∧ isFloat ('-' :: ds) = false := by
  obtain ⟨c, cs, rfl⟩ := List.exists_cons_of_ne_nil hne
  have hc := h c List.mem_cons_self
  have hpoint : c ≠ '.' := ne_of_isDigit hc rfl
  have hunsigned : isUnsignedFloat (c :: cs) = false := by
    have hdrop : (c :: cs).dropWhile (· != '.') = [] := by
      rw [List.dropWhile_eq_nil_iff]
      exact fun d hd => bne_iff_ne.mpr (ne_of_isDigit (h d hd) rfl)
    unfold isUnsignedFloat
    dsimp only
    rw [hdrop]
  have hinfinity : isWordOf infinityWords (c :: cs) = false :=
    isWordOf_eq_false (by simp [infinityWords, Ne.symm hpoint]) cs
  have hnan : isWordOf nanWords (c :: cs) = false :=
    isWordOf_eq_false (by simp [nanWords, Ne.symm hpoint]) cs
  have hsigned : isWordOf nanWords ('-' :: c :: cs) = false :=
    isWordOf_eq_false (by simp [nanWords]) _
  have hdrop := dropSign_digit hc cs
  refine ⟨?_, ?_⟩
  · unfold isFloat
    rw [hdrop, hunsigned, hinfinity, hnan]
    simp [hpoint]
  · unfold isFloat
    rw [show dropSign ('-' :: c :: cs) = c :: cs from rfl, hunsigned, hinfinity, hsigned]
    rfl

theorem digitsValue_eq {ds : List Char} (h : ∀ c ∈ ds, c.isDigit = true) :
    Numeral.digitsValue 10 ds = Decimal.value ds := by
  have hvalue : ∀ c ∈ ds, (Text.hexValue? c).getD 0 = c.toNat - 0x30 := fun c hc => by
    rw [hexValue?_of_isDigit (h c hc), Option.getD_some]
  exact List.foldl_ext _ _ 0 fun acc c hc => by rw [hvalue c hc]

/-- Digits of base ten are read as the number of base ten. -/
theorem integerIn_digits {n : Nat} (hn : n < 10 ^ Decimal.digitLimit) :
    integerIn 10 (Decimal.digits n) = .ok n := by
  have hdigits : ∀ c ∈ Decimal.digits n, c.isDigit = true :=
    fun c hc => Decimal.isDigit_of_mem_digits hc
  have hnumeral := isNumeral_digits hdigits
  have hten : ∀ c ∈ Decimal.digits n, Numeral.isDigitOf 10 c = true := by
    intro c hc
    have hdigit := hdigits c hc
    rw [Numeral.isDigitOf, hexValue?_of_isDigit hdigit, Option.any_some, decide_eq_true_eq]
    simp only [Char.isDigit, Bool.and_eq_true, decide_eq_true_eq, UInt32.le_iff_toNat_le] at hdigit
    have h9 : '9'.val.toNat = 57 := rfl
    have hv : c.toNat = c.val.toNat := rfl
    omega
  -- no sign and no base stands before the digits, and nothing behind them
  have htake : (Decimal.digits n).takeWhile (Numeral.isDigitOf 10) = Decimal.digits n :=
    List.takeWhile_eq_self_iff.mpr hten
  have hdrop : (Decimal.digits n).dropWhile (Numeral.isDigitOf 10) = [] :=
    List.dropWhile_eq_nil_iff.mpr hten
  have hsign : Numeral.splitSign (Decimal.digits n) = (false, Decimal.digits n) := by
    unfold Numeral.splitSign
    split
    · rename_i he
      exact absurd (hdigits '-' (by rw [he]; simp)) (by decide)
    · rename_i he
      exact absurd (hdigits '+' (by rw [he]; simp)) (by decide)
    · rfl
  have hbase : Numeral.dropBase 10 (Decimal.digits n) = Decimal.digits n := by
    unfold Numeral.dropBase
    split
    · exact if_neg (by simp [Numeral.baseLetter?])
    · rfl
  have hempty : (Decimal.digits n).isEmpty = false := by simp [Decimal.digits_ne_nil]
  unfold integerIn Numeral.integer
  dsimp only
  rw [map_asciiOf hnumeral, dropWhile_isAsciiSpace hnumeral, hsign]
  dsimp only
  rw [hbase, htake, hdrop, Decimal.isReadable_digits hn, hempty, digitsValue_eq hdigits,
    Decimal.value_digits]
  rfl

theorem integerAfterSign_digits {n : Nat} (hn : n < 10 ^ Decimal.digitLimit) :
    integerAfterSign (Decimal.digits n) = .ok n := by
  have hread := integerIn_digits hn
  have hcolon :=
    not_contains_colon (isNumeral_digits fun c hc => Decimal.isDigit_of_mem_digits (n := n) hc)
  rcases digits_cases n with ⟨rfl, h⟩ | ⟨d, ds, h, hd⟩
  · rw [h]
    rfl
  · rw [h] at hread hcolon ⊢
    unfold integerAfterSign
    split
    · rename_i he
      exact absurd he (by simp)
    · rename_i he
      exact absurd (List.cons.inj he).1 hd
    · rename_i he
      exact absurd (List.cons.inj he).1 hd
    · rename_i he
      exact absurd (List.cons.inj he).1 hd
    · rename_i he
      exact absurd (List.cons.inj he).1 hd
    · rw [hcolon]
      exact hread

theorem isNumeral_intDigits (i : Int) : IsNumeral (Decimal.intDigits i) := by
  have hdigits := isNumeral_digits fun c hc => Decimal.isDigit_of_mem_digits (n := i.natAbs) hc
  unfold Decimal.intDigits
  split
  · exact List.forall_mem_cons.mpr ⟨by decide, hdigits⟩
  · exact hdigits

/-- A plain text that stands for a value. -/
structure StandsFor (cs : List Char) (v : Value) : Prop where
  plain : StandsPlain cs
  value : scalarValue (resolve cs) cs = .ok v

theorem startsPlain_digit {d : Char} (h : d.isDigit = true) (ds : List Char) :
    startsPlain (d :: ds) = true ∧ startsPlain ('-' :: d :: ds) = true := by
  have hchar := isNumeralChar_of_mem (mem_numeralChars_of_isDigit h)
  have hblank : isBlank d = false := isBlank_of_isOrdinary hchar.ordinary hchar.neutral.1
  have hne : d ≠ '?' ∧ d ≠ '-' := ⟨ne_of_isDigit h rfl, ne_of_isDigit h rfl⟩
  constructor
  · simp [startsPlain, hchar.free, hchar.neutral.2.1, hne]
  · rw [startsPlain, blankNext, hblank]
    rfl

/-- **An integer within the digit limit is read as it.** -/
theorem standsFor_int {i : Int} (hi : Decimal.isWritable i = true) :
    StandsFor (Decimal.intDigits i) (.int i) := by
  have hnumeral := isNumeral_intDigits i
  have hdigits : ∀ c ∈ Decimal.digits i.natAbs, c.isDigit = true := fun c hc =>
    Decimal.isDigit_of_mem_digits hc
  have hread := integerAfterSign_digits (Decimal.isWritable_iff.mp hi)
  have hint := isUnsignedInt_digits i.natAbs
  obtain ⟨hfloat, hsigned⟩ := isFloat_digits hdigits (Decimal.digits_ne_nil _)
  obtain ⟨d, ds, hd⟩ := List.exists_cons_of_ne_nil (Decimal.digits_ne_nil i.natAbs)
  have hdigit : d.isDigit = true := hdigits d (by simp [hd])
  have hdrop := dropSign_digit hdigit ds
  have hminus : d ≠ '-' := ne_of_isDigit hdigit rfl
  obtain ⟨hstart, hstart'⟩ := startsPlain_digit hdigit ds
  unfold Decimal.intDigits at hnumeral ⊢
  rw [hd] at hnumeral hread hint hfloat hsigned ⊢
  split at hnumeral
  · rename_i hneg
    have hnumber : resolve ('-' :: d :: ds) = .int := by
      rw [resolve_number (by decide) hnumeral, hsigned]
      exact if_pos hint
    rw [if_pos hneg]
    refine ⟨hnumeral.standsPlain hstart', ?_⟩
    rw [hnumber, scalarValue, integerOf, dropUnderscores_of_numeral hnumeral]
    rw [show dropSign ('-' :: d :: ds) = d :: ds from rfl, hread]
    refine congrArg (fun j => Except.ok (Value.int j)) ?_
    show -(i.natAbs : Int) = i
    omega
  · rename_i hneg
    have hnumber : resolve (d :: ds) = .int := by
      rw [resolve_number (by rw [startsNumber, hdigit]; rfl) hnumeral, hfloat, hdrop]
      exact if_pos hint
    rw [if_neg hneg]
    refine ⟨hnumeral.standsPlain hstart, ?_⟩
    rw [hnumber, scalarValue, integerOf, dropUnderscores_of_numeral hnumeral, hdrop, hread]
    refine congrArg (fun j => Except.ok (Value.int j)) ?_
    show (if some d = some '-' then -(i.natAbs : Int) else i.natAbs) = i
    rw [if_neg (by simpa using hminus)]
    omega

end EnumDecl.Yaml
