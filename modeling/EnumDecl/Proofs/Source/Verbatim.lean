import EnumDecl.Proofs.Source.Spelling

/-!
# Identifiers written as they are

A text that passes for an identifier goes into the source as it stands, or with an at sign in front
when it is a reserved word. The grammar of identifiers says in its own way which texts may do so: a
word begins with a letter or an underscore and grows by a letter, an underscore or a digit at a
time (`Grammatical`). For such a text a reader finds one name in what is written, and finds it
whole in front of anything that does not go on with it (`Verbatim`).

The test and the grammar agree on every text that no line feed ends. Of a text that one does end,
the test looks at what is in front of the line feed, so it may say yes where the grammar never does
(`isIdentifier_in_full`), and the line feed goes into the source with the rest
(`isIdentifier_before_break`).
-/

namespace EnumDecl.Source

open Identifier

/-! ## The grammar -/

/-- A letter of ASCII or the underscore. -/
def IsNondigit (c : Char) : Prop := ('a' ≤ c ∧ c ≤ 'z') ∨ ('A' ≤ c ∧ c ≤ 'Z') ∨ c = '_'

/-- A digit of ASCII. -/
def IsDigit (c : Char) : Prop := '0' ≤ c ∧ c ≤ '9'

/-- The words of the grammar of identifiers. -/
inductive Grammatical : List Char → Prop
  | /-- A letter or an underscore is one. -/
    first {c : Char} (h : IsNondigit c) : Grammatical [c]
  | /-- A letter or an underscore may come behind one. -/
    nondigit {cs : List Char} {c : Char} (word : Grammatical cs) (h : IsNondigit c) :
    Grammatical (cs ++ [c])
  | /-- A digit may come behind one. -/
    digit {cs : List Char} {c : Char} (word : Grammatical cs) (h : IsDigit c) :
      Grammatical (cs ++ [c])

theorem isNondigit_iff {c : Char} : (c.isAlpha || c == '_') = true ↔ IsNondigit c := by
  simp only [Char.isAlpha, Char.isUpper, Char.isLower, IsNondigit, Bool.or_eq_true,
    Bool.and_eq_true, decide_eq_true_eq, beq_iff_eq, Char.le_def]
  tauto

theorem isDigit_iff {c : Char} : c.isDigit = true ↔ IsDigit c := by
  simp only [Char.isDigit, IsDigit, Bool.and_eq_true, decide_eq_true_eq, Char.le_def]

theorem isWord_iff {c : Char} : isWord c = true ↔ IsNondigit c ∨ IsDigit c := by
  rw [← isNondigit_iff, ← isDigit_iff, isWord, Char.isAlphanum]
  simp only [Bool.or_eq_true]
  tauto

theorem isIdentifierChars_concat {cs : List Char} (hne : cs ≠ []) (c : Char) :
    isIdentifierChars (cs ++ [c]) = (isIdentifierChars cs && isWord c) := by
  cases cs with
  | nil => exact absurd rfl hne
  | cons d ds => simp [isIdentifierChars, Bool.and_assoc]

theorem Grammatical.ne_nil {cs : List Char} (h : Grammatical cs) : cs ≠ [] := by
  cases h with
  | first => exact List.cons_ne_nil _ _
  | nondigit => exact List.concat_ne_nil _ _
  | digit => exact List.concat_ne_nil _ _

/-- The two ways of saying what an identifier is come to the same. -/
theorem isIdentifierChars_iff {cs : List Char} : isIdentifierChars cs = true ↔ Grammatical cs := by
  constructor
  · intro h
    induction cs using List.reverseRecOn with
    | nil => exact absurd h (by simp [isIdentifierChars])
    | append_singleton cs c ih =>
      by_cases hne : cs = []
      · subst hne
        rw [List.nil_append, isIdentifierChars, List.all_nil, Bool.and_true] at h
        exact .first (isNondigit_iff.mp h)
      · rw [isIdentifierChars_concat hne, Bool.and_eq_true] at h
        rcases isWord_iff.mp h.2 with hc | hc
        · exact (ih h.1).nondigit hc
        · exact (ih h.1).digit hc
  · intro h
    induction h with
    | first hc => rw [isIdentifierChars, List.all_nil, Bool.and_true, isNondigit_iff.mpr hc]
    | nondigit word hc ih =>
      rw [isIdentifierChars_concat word.ne_nil, ih, isWord_iff.mpr (Or.inl hc)]
      rfl
    | digit word hc ih =>
      rw [isIdentifierChars_concat word.ne_nil, ih, isWord_iff.mpr (Or.inr hc)]
      rfl

/-! ## The test -/

/-- On a word that no line feed ends the test is what its name says. -/
theorem isIdentifier_of_isIdentifierChars {s : String} (h : isIdentifierChars s.toList = true) :
    isIdentifier s = true := by
  have hlast : s.toList.getLast? ≠ some '\n' := fun hl =>
    not_mem_identifier h (by decide) (List.mem_of_getLast? hl)
  rw [isIdentifier, Text.dropFinalBreak_eq_self hlast, h]

/-- No word goes over the end of a line. -/
theorem isLineEnd_of_isWord {c : Char} (h : isWord c = true) : isLineEnd c = false := by
  rw [Bool.eq_false_iff]
  intro hend
  simp only [isLineEnd, Bool.or_eq_true, beq_iff_eq] at hend
  rcases hend with (((rfl | rfl) | rfl) | rfl) | rfl
  all_goals exact absurd h (by decide)

/-! ## Reserved words -/

/-- Reserved words are identifiers otherwise. -/
theorem isIdentifierChars_of_mem_keywords {s : String} (h : keywords.contains s = true) :
    isIdentifierChars s.toList = true :=
  have hall : (keywords.all fun s => isIdentifierChars s.toList) = true := by decide +kernel
  List.all_eq_true.mp hall s (List.contains_iff_mem.mp h)

/-- No reserved word is left out by asking for an identifier first. -/
theorem nameText_eq (s : String) :
    nameText s = if isIdentifier s && keywords.contains s then "@" ++ s else s := by
  unfold nameText
  by_cases hk : keywords.contains s = true
  · rw [isIdentifier_of_isIdentifierChars (isIdentifierChars_of_mem_keywords hk), Bool.true_and]
  · rw [Bool.eq_false_iff.mpr hk, Bool.and_false]

/-! ## A name in front of a text -/

/-- What a reader takes for a name: the longest one that the text begins with. -/
structure Takes (cs name rest : List Char) : Prop where
  /-- The text is cut behind the name. -/
  cut : cs = name ++ rest
  /-- It is one name. -/
  isName : isNameToken name = true
  /-- No more of the text is one. -/
  longest : ∀ other, isNameToken other = true → other <+: cs → other.length ≤ name.length

/-- Behind its first character a name has no at sign. -/
theorem isWord_of_mem_tail {c : Char} {cs : List Char} (h : isNameToken (c :: cs) = true) :
    ∀ d ∈ cs, isWord d = true := by
  by_cases hat : c = '@'
  · subst hat
    exact isWord_of_isIdentifierChars h
  · rw [isNameToken_of_ne hat, Bool.and_eq_true] at h
    intro d hd
    exact isWord_of_isIdentifierChars h.1 d (List.mem_cons_of_mem _ hd)

/-- A name is taken in front of anything that does not go on with it. -/
theorem takes_of_isNameToken {name rest : List Char} (h : isNameToken name = true)
    (hrest : ∀ c, rest.head? = some c → isWord c = false) : Takes (name ++ rest) name rest := by
  refine ⟨rfl, h, fun other hother hfront => Nat.not_lt.mp fun hlong => ?_⟩
  obtain ⟨more, rfl⟩ :=
    List.prefix_of_prefix_length_le (List.prefix_append name rest) hfront hlong.le
  have hmore : more <+: rest := (List.prefix_append_right_inj name).mp hfront
  cases more with
  | nil => exact absurd hlong (by simp)
  | cons c more =>
    obtain ⟨behind, rfl⟩ := hmore
    cases name with
    | nil => exact nameToken_ne_nil h rfl
    | cons d ds =>
      have hword : isWord c = true :=
        isWord_of_mem_tail hother c (List.mem_append_right _ List.mem_cons_self)
      rw [hrest c rfl] at hword
      exact absurd hword (by simp)

/-! ## What is written -/

/-- A text is written as one name. -/
structure Verbatim (text : String) : Prop where
  /-- It stands there as it is, but for an at sign in front of a reserved word. -/
  spelled : nameText text = if isIdentifier text && keywords.contains text then "@" ++ text
    else text
  /-- A reader takes all of it, and no more, in front of anything that does not go on with it. -/
  taken : ∀ rest : List Char, (∀ c, rest.head? = some c → isWord c = false) →
    Takes ((nameText text).toList ++ rest) (nameText text).toList rest
  /-- The name is understood as the text. -/
  understood : nameOfToken (nameText text).toList = text.toList
  /-- It does not go over the end of a line. -/
  unbroken : ∀ c ∈ (nameText text).toList, isLineEnd c = false

/-- A text with a line feed at its end is written as it is, and that is no name. -/
structure Broken (text : String) : Prop where
  /-- It is no word of the grammar. -/
  ungrammatical : ¬ Grammatical text.toList
  /-- It stands there as it is, also where a reserved word is in front of the line feed. -/
  spelled : nameText text = text
  /-- No reader takes it for a name. -/
  untaken : isNameToken text.toList = false
  /-- There is the end of a line in it. -/
  broken : ∃ c ∈ text.toList, isLineEnd c = true

theorem verbatim_of_grammatical {text : String} (h : Grammatical text.toList) : Verbatim text := by
  have hchars : isIdentifierChars text.toList = true := isIdentifierChars_iff.mpr h
  have hname : isNameToken (nameText text).toList = true := isNameToken_nameText hchars
  refine ⟨nameText_eq text, fun rest hrest => takes_of_isNameToken hname hrest,
    nameOfToken_nameText hchars, fun c hc => ?_⟩
  rcases of_mem_nameToken hname hc with hword | rfl
  · exact isLineEnd_of_isWord hword
  · rfl

theorem broken_of_line_feed {text : String} {word : List Char} (h : text.toList = word ++ ['\n']) :
    Broken text := by
  have hfeed : '\n' ∈ text.toList := by
    rw [h]
    exact List.mem_append_right _ List.mem_cons_self
  have hchars : isIdentifierChars text.toList ≠ true := fun hchars =>
    not_mem_identifier hchars (by decide) hfeed
  refine ⟨fun hword => hchars (isIdentifierChars_iff.mpr hword), ?_, ?_, ⟨'\n', hfeed, rfl⟩⟩
  · exact if_neg fun hk => hchars (isIdentifierChars_of_mem_keywords hk)
  · exact Bool.eq_false_iff.mpr fun hname => not_mem_nameToken hname (by decide) (by decide) hfeed

/--
**The test for identifiers in full.** It says yes to the words of the grammar, each of which is
written as one name, and to each of them with a line feed behind it, none of which is.
-/
theorem isIdentifier_in_full (text : String) :
    (isIdentifier text = true ↔
      Grammatical text.toList ∨ ∃ word, Grammatical word ∧ text.toList = word ++ ['\n']) ∧
    (Grammatical text.toList → Verbatim text) ∧
    (∀ word, text.toList = word ++ ['\n'] → Broken text) := by
  refine ⟨⟨fun h => ?_, ?_⟩, verbatim_of_grammatical, fun word => broken_of_line_feed⟩
  · have hword : Grammatical (Text.dropFinalBreak text.toList) := isIdentifierChars_iff.mp h
    rcases Text.dropFinalBreak_cases text.toList with hsame | hfeed
    · rw [hsame] at hword
      exact Or.inl hword
    · exact Or.inr ⟨_, hword, hfeed⟩
  · rintro (h | ⟨word, hword, htext⟩)
    · exact isIdentifier_of_isIdentifierChars (isIdentifierChars_iff.mpr h)
    · rw [isIdentifier, htext, Text.dropFinalBreak_concat]
      exact isIdentifierChars_iff.mpr hword

/-- A reserved word is taken with its at sign, up to the bracket behind it. -/
theorem isIdentifier_in_full_class :
    Grammatical "class".toList ∧ Takes "@class(".toList "@class".toList ['('] := by
  have h : Grammatical "class".toList := isIdentifierChars_iff.mp (by decide)
  have hverbatim := (isIdentifier_in_full "class").2.1 h
  refine ⟨h, hverbatim.taken ['('] ?_⟩
  rintro c ⟨⟩
  decide

/-- A word with a line feed behind it passes for an identifier. -/
theorem isIdentifier_before_break :
    isIdentifier "Red\n" = true ∧ ¬ Grammatical "Red\n".toList ∧
      isNameToken (nameText "Red\n").toList = false := by
  have hfeed : "Red\n".toList = ['R', 'e', 'd'] ++ ['\n'] := by decide
  have hbroken := broken_of_line_feed hfeed
  exact ⟨by decide, hbroken.ungrammatical, by rw [hbroken.spelled]; exact hbroken.untaken⟩

end EnumDecl.Source
