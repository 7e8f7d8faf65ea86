import EnumDecl.Proofs.Yaml.Character

/-!
# Double quotes in YAML

A text in double quotes is read one character at a time. What stands in front of a rest that is
read as some text, an escape, a character that stands for itself, or a line that is broken behind a
backslash, is read together with it (`doubleReads_escape` and its like), so that the text as a
whole is read back by one induction over its characters (`doubleReads_doubleRest`).

A line is broken where the next one begins with no white space of its own, or with one space that
has a backslash before it. No line is broken twice in one place, because an indentation stays
within the line width.
-/

namespace EnumDecl.Yaml

/-! ## One piece before another -/

/-- With enough fuel the characters are read as a text up to its closing quote, and `after`
remains. -/
def DoubleReads (cs text after : List Char) : Prop :=
  ∀ fuel, cs.length ≤ fuel → doubleQuoted fuel cs = .ok (text, after)

variable {cs text after : List Char}

theorem doubleReads_quote (after : List Char) : DoubleReads ('\x22' :: after) [] after := by
  intro fuel hfuel
  obtain ⟨fuel, rfl⟩ : ∃ f, fuel = f + 1 := ⟨fuel - 1, by simp at hfuel; omega⟩
  rw [doubleQuoted, if_pos rfl]

/-- A character that stands for itself. -/
theorem doubleReads_plain {c : Char} (h : DoubleReads cs text after) (hq : c ≠ '\x22')
    (hb : c ≠ '\\')
    (ho : isOrdinary c = true) (hs : c ≠ ' ') : DoubleReads (c :: cs) (c :: text) after := by
  intro fuel hfuel
  obtain ⟨fuel, rfl⟩ : ∃ f, fuel = f + 1 := ⟨fuel - 1, by simp at hfuel; omega⟩
  have hspace : isQuotedSpace c = false := by
    rw [isQuotedSpace, isSpaceOrTab_of_isOrdinary ho hs, isBreak_of_isOrdinary ho]
    rfl
  rw [doubleQuoted, if_neg hq, if_neg hb, if_neg (by simp [hspace]),
    h fuel (by simp at hfuel; omega)]
  rfl

/-- A run of spaces and something dense after it. -/
def SpacesThenDense (cs : List Char) : Prop :=
  ∃ n rest, cs = List.replicate n ' ' ++ rest ∧ StartsDense rest

theorem SpacesThenDense.cons_space (h : SpacesThenDense cs) : SpacesThenDense (' ' :: cs) := by
  obtain ⟨n, rest, rfl, hd⟩ := h
  exact ⟨n + 1, rest, by rw [List.replicate_succ]; rfl, hd⟩

theorem StartsDense.spaces (h : StartsDense cs) : SpacesThenDense cs := ⟨0, cs, rfl, h⟩

theorem doubleReads_space (h : DoubleReads cs text after) (hs : SpacesThenDense cs) :
    DoubleReads (' ' :: cs) (' ' :: text) after := by
  intro fuel hfuel
  obtain ⟨n, rest, rfl, hd⟩ := hs
  have hstep : ∀ m f, doubleQuoted (f + 1) (List.replicate (m + 1) ' ' ++ rest)
      = prepend (List.replicate (m + 1) ' ') (doubleQuoted f rest) := by
    intro m f
    have hread := quotedSpace_of_dense hd (m + 1)
    rw [List.replicate_succ, List.cons_append] at hread ⊢
    rw [doubleQuoted, if_neg (by decide), if_neg (by decide), if_pos (by decide), hread]
    rfl
  obtain ⟨fuel, rfl⟩ : ∃ f, fuel = f + 1 := ⟨fuel - 1, by simp at hfuel; omega⟩
  rw [List.length_cons] at hfuel
  have hfirst : doubleQuoted (fuel + 1) (' ' :: (List.replicate n ' ' ++ rest)) = _ := hstep n fuel
  rw [hfirst]
  cases n with
  | zero =>
    have hrest : doubleQuoted fuel rest = .ok (text, after) := h fuel (by simpa using hfuel)
    rw [hrest]
    rfl
  | succ m =>
    -- the rest begins with spaces itself, which are read together with this one
    have hrest := h (fuel + 1) (by omega)
    rw [hstep m fuel] at hrest
    rw [List.replicate_succ, ← List.singleton_append, ← prepend_prepend, hrest]
    rfl

/-! ## Escapes -/

theorem doubleQuoted_backslash (fuel : Nat) (cs : List Char) :
    doubleQuoted (fuel + 1) ('\\' :: cs)
      = (escaped cs >>= fun p => prepend p.1 (doubleQuoted fuel p.2)) := by
  rw [doubleQuoted, if_neg (by decide), if_pos rfl]

/-- What stands behind a backslash and is read as some characters. -/
theorem doubleReads_backslash {w chars : List Char} (hw : escaped (w ++ cs) = .ok (chars, cs))
    (h : DoubleReads cs text after) :
    DoubleReads ('\\' :: (w ++ cs)) (chars ++ text) after := by
  intro fuel hfuel
  obtain ⟨fuel, rfl⟩ : ∃ f, fuel = f + 1 := ⟨fuel - 1, by simp at hfuel; omega⟩
  rw [doubleQuoted_backslash, hw]
  show prepend chars (doubleQuoted fuel cs) = _
  rw [h fuel (by simp at hfuel; omega)]
  rfl

theorem escaped_short {c d : Char} (h : shortEscape? c = some d) (cs : List Char) :
    escaped (c :: cs) = .ok ([d], cs) := by
  rw [escaped, h]

/-- The code point of a character stands for it. -/
theorem ofCode_toNat (c : Char) : ofCode c.toNat = .ok c := by
  have hc : c.toNat < 0xD800 ∨ (0xDFFF < c.toNat ∧ c.toNat < 0x110000) := c.valid
  unfold ofCode
  rw [if_neg (by omega), if_neg (by omega), if_neg (by simp; omega), Char.ofNat_toNat]

theorem escaped_code {letter : Char} {width : Nat} (hs : shortEscape? letter = none)
    (hl : codeLength? letter = some width) {c : Char} (hc : c.toNat < 16 ^ width)
    (cs : List Char) :
    escaped (letter :: (Text.upperHex width c.toNat ++ cs)) = .ok ([c], cs) := by
  have hlen : (Text.upperHex width c.toNat).length = width := Text.length_hexWith _ _ _
  have hread : Text.readHex? (Text.upperHex width c.toNat) = some c.toNat := by
    rw [Text.upperHex, Text.readHex?_hexWith Text.hexValue?_upperHexDigit]
    exact congrArg some (Nat.mod_eq_of_lt hc)
  have htake : (Text.upperHex width c.toNat ++ cs).take width = Text.upperHex width c.toNat :=
    List.take_left' hlen
  have hdrop : (Text.upperHex width c.toNat ++ cs).drop width = cs := List.drop_left' hlen
  rw [escaped, hs, hl]
  dsimp only
  rw [htake, hdrop, hread, hlen, beq_self_eq_true]
  dsimp only
  rw [ofCode_toNat]
  rfl

/-- **An escape stands for its character.** -/
theorem escaped_escapeOf? {c : Char} {written : List Char} (h : escapeOf? c = some written) :
    ∃ tail, written = '\\' :: tail ∧ ∀ cs, escaped (tail ++ cs) = .ok ([c], cs) := by
  have hshort : ∀ e ∈ shortEscapes, shortEscape? e.1 = some e.2 := by decide
  unfold escapeOf? at h
  split at h
  · rename_i e he
    cases h
    have hc : e.2 = c := by simpa using List.find?_some he
    exact ⟨[e.1], rfl, escaped_short (hc ▸ hshort e (List.mem_of_find?_eq_some he))⟩
  · split at h
    · exact absurd h (by simp)
    · split at h
      · cases h
        exact ⟨_, rfl, escaped_code (by decide) (by decide) (by omega)⟩
      · split at h
        · cases h
          exact ⟨_, rfl, escaped_code (by decide) (by decide) (by omega)⟩
        · cases h
          have hc : c.toNat < 0xD800 ∨ (0xDFFF < c.toNat ∧ c.toNat < 0x110000) := c.valid
          exact ⟨_, rfl, escaped_code (by decide) (by decide) (by omega)⟩

theorem doubleReads_escape {c : Char} {written : List Char} (hc : escapeOf? c = some written)
    (h : DoubleReads cs text after) : DoubleReads (written ++ cs) (c :: text) after := by
  obtain ⟨tail, rfl, hread⟩ := escaped_escapeOf? hc
  exact doubleReads_backslash (hread cs) h

/-- What has no escape stands for itself, and is neither a quote nor a backslash. -/
theorem of_escapeOf?_eq_none {c : Char} (h : escapeOf? c = none) :
    isOrdinary c = true ∧ c ≠ '\x22' ∧ c ≠ '\\' := by
  unfold escapeOf? at h
  split at h
  · exact absurd h (by simp)
  · rename_i hnone
    have hne : ∀ e ∈ shortEscapes, c ≠ e.2 := fun e he hce =>
      absurd (List.find?_eq_none.mp hnone e he) (by simp [hce])
    refine ⟨?_, hne ('\x22', '\x22') (by decide), hne ('\\', '\\') (by decide)⟩
    by_contra ho
    rw [if_neg ho] at h
    split at h
    · exact absurd h (by simp)
    · split at h <;> exact absurd h (by simp)

/-! ## Broken lines -/

/-- A line that is broken behind a backslash and goes on with something dense. -/
theorem doubleReads_join (n : Nat) (hd : StartsDense cs) (h : DoubleReads cs text after) :
    DoubleReads ('\\' :: '\n' :: (List.replicate (n + 1) ' ' ++ cs)) text after := by
  intro fuel hfuel
  obtain ⟨fuel, rfl⟩ : ∃ f, fuel = f + 1 := ⟨fuel - 1, by simp at hfuel; omega⟩
  have hescaped : escaped ('\n' :: (List.replicate (n + 1) ' ' ++ cs)) = .ok ([], cs) := by
    have hs : shortEscape? '\n' = none := by decide
    have hl : codeLength? '\n' = none := by decide
    rw [escaped, hs, hl]
    simp only [lineBreak?]
    exact quotedBreaks_indented hd n _
  rw [doubleQuoted_backslash, hescaped]
  show prepend [] (doubleQuoted fuel cs) = _
  rw [h fuel (by simp at hfuel; omega)]
  rfl

/-- A space that has a backslash before it. -/
theorem doubleReads_escapedSpace (h : DoubleReads cs text after) :
    DoubleReads ('\\' :: ' ' :: cs) (' ' :: text) after :=
  doubleReads_backslash (w := [' ']) (escaped_short (by decide) cs) h

/-! ## A text as a whole -/

/-- What is written for the rest of a text begins with a space only where the text does, and with
nothing else that could be left out. -/
theorem startsDense_doubleRest {p : Place} {first afterEscape : Bool} {column : Nat} {c : Char}
    {cs : List Char} (hc : c ≠ ' ') (rest : List Char) :
    StartsDense (doubleRest p first afterEscape column (c :: cs) ++ rest) := by
  have hbackslash : ∀ tail : List Char, StartsDense ('\\' :: tail) := fun tail =>
    ⟨'\\', tail, rfl, by decide, by decide⟩
  rw [doubleRest]
  cases he : escapeOf? c with
  | some written =>
    obtain ⟨tail, rfl, -⟩ := escaped_escapeOf? he
    dsimp only
    split <;> exact hbackslash _
  | none =>
    obtain ⟨ho, -, -⟩ := of_escapeOf?_eq_none he
    dsimp only
    split
    · exact hbackslash _
    · exact ⟨c, _, rfl, isSpaceOrTab_of_isOrdinary ho hc, isBreak_of_isOrdinary ho⟩

theorem spacesThenDense_doubleRest {p : Place} {first afterEscape : Bool} {column : Nat}
    (cs rest : List Char) :
    SpacesThenDense (doubleRest p first afterEscape column cs ++ '\x22' :: rest) := by
  induction cs generalizing first afterEscape column with
  | nil => exact StartsDense.spaces ⟨'\x22', rest, rfl, by decide, by decide⟩
  | cons c cs ih =>
    by_cases hc : c = ' '
    · subst hc
      rw [doubleRest, show escapeOf? ' ' = none by decide]
      dsimp only
      split
      · exact StartsDense.spaces ⟨'\\', _, rfl, by decide, by decide⟩
      · exact ih.cons_space
    · exact (startsDense_doubleRest hc _).spaces

/-- Where a line was just broken none is broken again. -/
theorem doubleRest_unbroken {column : Nat} (hcolumn : column ≤ lineWidth) {c : Char}
    (hc : escapeOf? c = none) (p : Place) (first afterEscape : Bool) (cs : List Char) :
    doubleRest p first afterEscape column (c :: cs)
      = c :: doubleRest p false false (column + 1) cs := by
  rw [doubleRest, hc]
  dsimp only
  rw [if_neg (by simp; omega)]

variable {p : Place}

/-- What stands for itself is read together with what follows it. -/
theorem doubleReads_self {c : Char} (hc : escapeOf? c = none) (h : DoubleReads cs text after)
    (hs : SpacesThenDense cs) : DoubleReads (c :: cs) (c :: text) after := by
  obtain ⟨ho, hq, hb⟩ := of_escapeOf?_eq_none hc
  by_cases hspace : c = ' '
  · rw [hspace]
    exact doubleReads_space h hs
  · exact doubleReads_plain h hq hb ho hspace

/-- Behind a break the first character has a backslash before it if it is a space. -/
theorem doubleReads_lineJoin {n : Nat} (hn : p.indent = n + 1) {c : Char} {cs rest : List Char}
    (hdense : c ≠ ' ' → StartsDense rest)
    (hrest : c = ' ' → ∃ tail, rest = ' ' :: tail ∧ DoubleReads tail cs after)
    (h : c ≠ ' ' → DoubleReads rest (c :: cs) after) :
    DoubleReads (lineJoin p (c == ' ') ++ rest) (c :: cs) after := by
  unfold lineJoin newLine
  rw [hn]
  by_cases hc : c = ' '
  · obtain ⟨tail, rfl, htail⟩ := hrest hc
    subst hc
    have hdense : StartsDense ('\\' :: ' ' :: tail) := ⟨'\\', _, rfl, by decide, by decide⟩
    have hjoin := doubleReads_join n hdense (doubleReads_escapedSpace htail)
    simpa using hjoin
  · have hjoin := doubleReads_join n (hdense hc) (h hc)
    simpa [hc] using hjoin

/-- **What is written between double quotes is read back.** -/
theorem doubleReads_doubleRest {n : Nat} (hn : p.indent = n + 1) (hwidth : p.indent < lineWidth)
    (after cs : List Char) (first afterEscape : Bool) (column : Nat) :
    DoubleReads (doubleRest p first afterEscape column cs ++ '\x22' :: after) cs after := by
  -- behind a break two characters are written at once, so the induction is on the length
  induction hlen : cs.length using Nat.strong_induction_on
    generalizing cs first afterEscape column with
  | _ k ih =>
  cases cs with
  | nil => exact doubleReads_quote after
  | cons c cs =>
    rw [List.length_cons] at hlen
    have htail : ∀ first afterEscape column,
        DoubleReads (doubleRest p first afterEscape column cs ++ '\x22' :: after) cs after :=
      fun first afterEscape column => ih cs.length (by omega) cs first afterEscape column rfl
    rw [doubleRest]
    cases he : escapeOf? c with
    | some written =>
      dsimp only
      split
      · rename_i hbreak
        simp only [Bool.and_eq_true, Bool.not_eq_true'] at hbreak
        cases cs with
        | nil => exact absurd hbreak.1.2 (by simp)
        | cons d ds =>
          have hhead : ((d :: ds).head? == some ' ') = (d == ' ') := rfl
          rw [hhead, List.append_assoc, List.append_assoc]
          refine doubleReads_escape he (doubleReads_lineJoin hn
            (fun hd => startsDense_doubleRest hd _) (fun hd => ?_) fun _ => htail _ _ _)
          have hcolumn : joinedColumn p (d == ' ') ≤ lineWidth := by
            unfold joinedColumn
            split <;> omega
          rw [doubleRest_unbroken hcolumn (by rw [hd]; decide), hd]
          exact ⟨_, rfl, ih ds.length (by simp at hlen; omega) ds _ _ _ rfl⟩
      · rw [List.append_assoc]
        exact doubleReads_escape he (htail _ _ _)
    | none =>
      obtain ⟨ho, hq, hb⟩ := of_escapeOf?_eq_none he
      dsimp only
      split
      · rw [List.append_assoc]
        exact doubleReads_lineJoin hn
          (fun hc => ⟨c, _, rfl, isSpaceOrTab_of_isOrdinary ho hc, isBreak_of_isOrdinary ho⟩)
          (fun hc => ⟨_, by rw [hc]; rfl, htail _ _ _⟩)
          fun hc => doubleReads_plain (htail _ _ _) hq hb ho hc
      · exact doubleReads_self he (htail _ _ _) (spacesThenDense_doubleRest cs after)

/-! ## What is written -/

theorem isOrdinary_upperHexDigit :
    ∀ d, d < 16 → isOrdinary (Text.upperHexDigit d) = true := by decide

theorem isOrdinary_hexWith {digit : Nat → Char} (hd : ∀ d, d < 16 → isOrdinary (digit d) = true)
    (width n : Nat) : (Text.hexWith digit width n).all isOrdinary = true := by
  induction width generalizing n with
  | zero => rfl
  | succ w ih => simp [Text.hexWith, ih, hd (n % 16) (Nat.mod_lt n (by omega))]

/-- An escape is written with characters that stand for themselves. -/
theorem isOrdinary_escapeOf? {c : Char} {written : List Char} (h : escapeOf? c = some written) :
    written.all isOrdinary = true := by
  have hshort : ∀ e ∈ shortEscapes, isOrdinary e.1 = true := by decide
  have hcode : ∀ letter width, isOrdinary letter = true →
      ('\\' :: letter :: Text.upperHex width c.toNat).all isOrdinary = true := by
    intro letter width hl
    rw [List.all_cons, List.all_cons, hl, Text.upperHex,
      isOrdinary_hexWith isOrdinary_upperHexDigit]
    rfl
  unfold escapeOf? at h
  split at h
  · rename_i e he
    cases h
    simp [hshort e (List.mem_of_find?_eq_some he)]
    decide
  · split at h
    · exact absurd h (by simp)
    · split at h
      · cases h
        exact hcode 'x' 2 (by decide)
      · split at h
        · cases h
          exact hcode 'u' 4 (by decide)
        · cases h
          exact hcode 'U' 8 (by decide)

theorem isPrintable_lineJoin (p : Place) (spaceNext : Bool) :
    IsPrintable (lineJoin p spaceNext) := by
  refine isPrintable_cons.mpr
    ⟨Or.inr (by decide), isPrintable_append.mpr ⟨isPrintable_newLine _, ?_⟩⟩
  cases spaceNext
  · exact isPrintable_nil
  · exact isPrintable_of_all rfl

theorem isPrintable_doubleRest (cs : List Char) (first afterEscape : Bool) (column : Nat) :
    IsPrintable (doubleRest p first afterEscape column cs) := by
  induction cs generalizing first afterEscape column with
  | nil => exact isPrintable_nil
  | cons c cs ih =>
    rw [doubleRest]
    cases he : escapeOf? c with
    | some written =>
      have hwritten := isPrintable_of_all (isOrdinary_escapeOf? he)
      dsimp only
      split
      · exact isPrintable_append.mpr
          ⟨isPrintable_append.mpr ⟨hwritten, isPrintable_lineJoin _ _⟩, ih _ _ _⟩
      · exact isPrintable_append.mpr ⟨hwritten, ih _ _ _⟩
    | none =>
      obtain ⟨ho, -, -⟩ := of_escapeOf?_eq_none he
      dsimp only
      split
      · exact isPrintable_append.mpr
          ⟨isPrintable_lineJoin _ _, isPrintable_cons.mpr ⟨Or.inr ho, ih _ _ _⟩⟩
      · exact isPrintable_cons.mpr ⟨Or.inr ho, ih _ _ _⟩

end EnumDecl.Yaml
