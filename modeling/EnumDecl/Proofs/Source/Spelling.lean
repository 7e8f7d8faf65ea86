import EnumDecl.Identifier.Shape
import EnumDecl.Proofs.Decimal
import EnumDecl.Proofs.Equality
import EnumDecl.Proofs.FloatText
import EnumDecl.Proofs.Results
import EnumDecl.Source.Scan

/-!
# How names, numbers and arguments are spelled

Whatever is spelled is spelled in one of a few ways. They are listed here once, as inductive
predicates that the spelling functions agree with (`literalText_eq_ok_iff`,
`argumentText_eq_ok_iff`); what other files need to know of an argument they read off the list.
Beside them stands which characters occur: outside of string literals a literal is made of letters,
digits, points and signs, and an at sign is in front of a name only.
-/

namespace EnumDecl.Source

open Identifier

/-! ## Names -/

theorem nameOf_eq_ok_iff {v : Value} {t : String} :
    nameOf v = .ok t ↔ ∃ s, v.bare = .text s ∧ nameText s = t := by
  unfold nameOf
  cases v.bare with
  | text s => simp
  | _ => simp

theorem mem_nameText {s : String} {c : Char} (h : c ∈ (nameText s).toList) :
    c ∈ s.toList ∨ c = '@' := by
  unfold nameText at h
  split at h
  · rw [String.toList_append] at h
    rcases List.mem_append.mp h with h | h
    · exact Or.inr (List.mem_singleton.mp h)
    · exact Or.inl h
  · exact Or.inl h

/-- The characters of an identifier. -/
theorem isWord_of_isIdentifierChars {cs : List Char} (h : isIdentifierChars cs = true) :
    ∀ c ∈ cs, isWord c = true := by
  cases cs with
  | nil => exact absurd h (by simp [isIdentifierChars])
  | cons d ds =>
    rw [isIdentifierChars, Bool.and_eq_true, List.all_eq_true] at h
    intro c hc
    rcases List.mem_cons.mp hc with rfl | hc
    · rcases (Bool.or_eq_true _ _).mp h.1 with ha | hu
      · simp [isWord, Char.isAlphanum, ha]
      · simp [isWord, hu]
    · exact h.2 c hc

theorem not_mem_identifier {cs : List Char} (h : isIdentifierChars cs = true) {c : Char}
    (hc : isWord c = false) : c ∉ cs := by
  intro hmem
  rw [isWord_of_isIdentifierChars h c hmem] at hc
  exact absurd hc (by simp)

theorem ne_at_of_isWord {c : Char} (h : isWord c = true) : c ≠ '@' := by
  rintro rfl
  exact absurd h (by decide)

/-- A text without an at sign in front is a name when it is an identifier and no reserved word. -/
theorem isNameToken_of_ne {c : Char} {cs : List Char} (h : c ≠ '@') :
    isNameToken (c :: cs)
      = (isIdentifierChars (c :: cs) && !keywords.contains (String.ofList (c :: cs))) := by
  unfold isNameToken
  split
  · rename_i heq
    exact absurd (List.cons.inj heq).1 h
  · rfl

/-- **What is written for an identifier is a name**, also for a reserved word. -/
theorem isNameToken_nameText {s : String} (h : isIdentifierChars s.toList = true) :
    isNameToken (nameText s).toList = true := by
  unfold nameText
  split
  · rw [String.toList_append]
    exact h
  · rename_i hk
    cases hs : s.toList with
    | nil => exact absurd h (by rw [hs]; simp [isIdentifierChars])
    | cons c cs =>
      have hc := isWord_of_isIdentifierChars h c (by rw [hs]; exact List.mem_cons_self)
      rw [isNameToken_of_ne (ne_at_of_isWord hc), ← hs, String.ofList_toList, h]
      simpa using hk

/-- The characters of a name: those of an identifier, and an at sign. -/
theorem of_mem_nameToken {cs : List Char} (h : isNameToken cs = true) {c : Char} (hc : c ∈ cs) :
    isWord c = true ∨ c = '@' := by
  unfold isNameToken at h
  split at h
  · rcases List.mem_cons.mp hc with hc | hc
    · exact Or.inr hc
    · exact Or.inl (isWord_of_isIdentifierChars h c hc)
  · rw [Bool.and_eq_true] at h
    exact Or.inl (isWord_of_isIdentifierChars h.1 c hc)

theorem not_mem_nameToken {cs : List Char} (h : isNameToken cs = true) {c : Char}
    (hw : isWord c = false) (hat : c ≠ '@') : c ∉ cs := by
  intro hmem
  rcases of_mem_nameToken h hmem with hc | hc
  · rw [hw] at hc
    exact absurd hc (by simp)
  · exact hat hc

theorem bne_of_mem_nameToken {cs : List Char} (h : isNameToken cs = true) {d : Char}
    (hw : isWord d = false) (hat : d ≠ '@') : ∀ c ∈ cs, (c != d) = true := by
  intro c hc
  rw [bne_iff_ne]
  rintro rfl
  exact not_mem_nameToken h hw hat hc

theorem not_mem_nameText {s : String} (h : isIdentifierChars s.toList = true) {c : Char}
    (hw : isWord c = false) (hat : c ≠ '@') : c ∉ (nameText s).toList :=
  not_mem_nameToken (isNameToken_nameText h) hw hat

/-- A name begins with a letter, an underscore or an at sign. -/
theorem head_nameToken {c : Char} {cs : List Char} (h : isNameToken (c :: cs) = true) :
    c.isDigit = false ∧ c ≠ '-' ∧ c ≠ '\x22' := by
  refine ⟨?_, ?_, ?_⟩
  · by_cases hat : c = '@'
    · subst hat
      rfl
    · rw [isNameToken_of_ne hat, Bool.and_eq_true, isIdentifierChars, Bool.and_eq_true] at h
      rcases (Bool.or_eq_true _ _).mp h.1.1 with halpha | hunder
      · exact (Bool.or_eq_false_iff.mp (not_leading_of_isAlpha halpha)).1
      · rw [beq_iff_eq.mp hunder]
        rfl
  · rintro rfl
    exact not_mem_nameToken h (by decide) (by decide) List.mem_cons_self
  · rintro rfl
    exact not_mem_nameToken h (by decide) (by decide) List.mem_cons_self

theorem nameToken_ne_nil {cs : List Char} (h : isNameToken cs = true) : cs ≠ [] := by
  rintro rfl
  exact absurd h (by decide)

/-- The name stands for the identifier. -/
theorem nameOfToken_nameText {s : String} (h : isIdentifierChars s.toList = true) :
    nameOfToken (nameText s).toList = s.toList := by
  unfold nameText
  split
  · rw [String.toList_append]
    rfl
  · cases hs : s.toList with
    | nil => rfl
    | cons c cs =>
      have hc := isWord_of_isIdentifierChars h c (by rw [hs]; exact List.mem_cons_self)
      unfold nameOfToken
      split
      · rename_i heq
        exact absurd (List.cons.inj heq).1 (ne_at_of_isWord hc)
      · rfl

/-- Identifiers with one name are one. -/
theorem nameText_inj {s t : String} (hs : isIdentifierChars s.toList = true)
    (ht : isIdentifierChars t.toList = true) (h : nameText s = nameText t) : s = t := by
  have hname := nameOfToken_nameText hs
  rw [h, nameOfToken_nameText ht] at hname
  exact (String.toList_inj.mp hname).symm

/-! ## Numbers -/

/-- The characters of literals other than string literals. -/
def isLiteralChar (c : Char) : Bool :=
  c.isAlphanum || c == '.' || c == '-' || c == '+'

theorem isLiteralChar_of_isDigit {c : Char} (h : c.isDigit = true) : isLiteralChar c = true := by
  simp [isLiteralChar, Char.isAlphanum, h]

theorem isLiteralChar_of_mem_intDigits {i : Int} {c : Char} (h : c ∈ Decimal.intDigits i) :
    isLiteralChar c = true := by
  unfold Decimal.intDigits at h
  split at h
  · rcases List.mem_cons.mp h with rfl | h
    · rfl
    · exact isLiteralChar_of_isDigit (Decimal.isDigit_of_mem_digits h)
  · exact isLiteralChar_of_isDigit (Decimal.isDigit_of_mem_digits h)

theorem isLiteralChar_of_mem_chars {s : Binary64.Spelling} (h : s.Proper) {c : Char}
    (hc : c ∈ s.chars) : isLiteralChar c = true := by
  rcases List.mem_append.mp hc with hc | hc
  · exact isLiteralChar_of_isDigit (h.whole c hc)
  rcases List.mem_append.mp hc with hc | hc
  · unfold Binary64.Spelling.fractionChars at hc
    split at hc
    · exact absurd hc (by simp)
    · rcases List.mem_cons.mp hc with rfl | hc
      · rfl
      · exact isLiteralChar_of_isDigit (h.fraction c hc)
  · unfold Binary64.Spelling.exponentChars at hc
    split at hc
    · exact absurd hc (by simp)
    · rename_i negative ds he
      rcases List.mem_cons.mp hc with rfl | hc
      · rfl
      rcases List.mem_cons.mp hc with rfl | hc
      · cases negative <;> rfl
      · exact isLiteralChar_of_isDigit ((h.exponent negative ds he).2 c hc)

/-- The text of a finite number: a sign if it is negative, and a spelling. -/
theorem toList_floatLiteral_finite (s : Bool) (m : Binary64.Magnitude) :
    (floatLiteral (.finite s m)).toList
      = (if s then ['-'] else []) ++ (m.spelling Binary64.plainForm).chars := by
  rw [m.chars_spelling]
  cases s with
  | true => simp [floatLiteral, Binary64.text, Binary64.textIn]
  | false => simp [floatLiteral, Binary64.text, Binary64.textIn]

theorem isLiteralChar_of_mem_floatLiteral {x : Binary64} {c : Char}
    (h : c ∈ (floatLiteral x).toList) : isLiteralChar c = true := by
  cases x with
  | nan =>
    have hall : (floatLiteral .nan).toList.all isLiteralChar = true := by decide
    exact List.all_eq_true.mp hall c h
  | infinity s =>
    have hall : ∀ s, (floatLiteral (.infinity s)).toList.all isLiteralChar = true := by decide
    exact List.all_eq_true.mp (hall s) c h
  | finite s m =>
    rw [toList_floatLiteral_finite] at h
    rcases List.mem_append.mp h with h | h
    · cases s with
      | true =>
        rw [List.mem_singleton.mp h]
        rfl
      | false => exact absurd h (by simp)
    · exact isLiteralChar_of_mem_chars (m.proper_spelling _) h

/-! ## Literals and arguments -/

/-- The spellings of literals. -/
inductive IsLiteral : Value → String → Prop
  | null : IsLiteral .null "null"
  | bool (b : Bool) : IsLiteral (.bool b) (if b then "true" else "false")
  | int {i : Int} (h : Decimal.isWritable i = true) : IsLiteral (.int i) (Decimal.ofInt i)
  | float (x : Binary64) : IsLiteral (.float x) (floatLiteral x)
  | text (s : String) : IsLiteral (.text s) (stringLiteral s)

theorem literalText_eq_ok_iff {v : Value} {t : String} :
    literalText v = .ok t ↔ IsLiteral v.bare t := by
  unfold literalText
  constructor
  · intro h
    cases hv : v.bare with
    | null => rw [hv] at h; cases h; exact .null
    | bool b => rw [hv] at h; cases h; exact .bool b
    | int i =>
      rw [hv] at h
      dsimp only at h
      split at h
      · rename_i hi
        cases h
        exact .int hi
      · exact absurd h (by simp)
    | float x => rw [hv] at h; cases h; exact .float x
    | text s => rw [hv] at h; cases h; exact .text s
    | _ =>
      rw [hv] at h
      simp only [Fault.showing] at h
      split at h <;> exact absurd h (by simp)
  · intro h
    generalize v.bare = w at h ⊢
    cases h with
    | int hi => exact if_pos hi
    | _ => rfl

/-- The spellings of arguments. -/
inductive IsArgument : Argument → String → Prop
  | literal {v : Value} {t : String} (h : IsLiteral v.bare t) : IsArgument (.literal v) t
  | constant {n o : Value} {s : String} (hn : n.bare = .text s) (ho : o.isTrue = false) :
    IsArgument (.constant n o) (nameText s)
  | owned {n o : Value} {s p : String} (hn : n.bare = .text s) (ho : o.bare = .text p)
      (hp : p ≠ "") :
    IsArgument (.constant n o) (nameText p ++ "." ++ nameText s)

theorem argumentText_eq_ok_iff {a : Argument} {t : String} :
    argumentText a = .ok t ↔ IsArgument a t := by
  cases a with
  | literal v =>
    rw [argumentText, literalText_eq_ok_iff]
    exact ⟨.literal, fun h => by cases h with | literal h => exact h⟩
  | bare v =>
    exact ⟨fun h => absurd h (by simp [argumentText]), by rintro ⟨⟩⟩
  | constant n o =>
    rw [argumentText]
    constructor
    · intro h
      split at h
      · rename_i ho
        obtain ⟨owner, howner, h⟩ := bind_eq_ok_iff.mp h
        obtain ⟨name, hname, h⟩ := bind_eq_ok_iff.mp h
        cases h
        obtain ⟨p, hp, rfl⟩ := nameOf_eq_ok_iff.mp howner
        obtain ⟨s, hs, rfl⟩ := nameOf_eq_ok_iff.mp hname
        refine .owned hs hp fun he => ?_
        rw [← Value.isTrue_bare, hp, he] at ho
        exact absurd ho (by decide)
      · rename_i ho
        obtain ⟨s, hs, rfl⟩ := nameOf_eq_ok_iff.mp h
        exact .constant hs (by simpa using ho)
    · intro h
      cases h with
      | constant hn ho =>
        rw [ho, if_neg (by simp)]
        exact nameOf_eq_ok_iff.mpr ⟨_, hn, rfl⟩
      | owned hn ho hp =>
        have htrue : o.isTrue = true := by
          rw [← Value.isTrue_bare, ho]
          simpa [Value.isTrue] using hp
        rw [if_pos htrue]
        exact bind_eq_ok_iff.mpr ⟨_, nameOf_eq_ok_iff.mpr ⟨_, ho, rfl⟩,
          bind_eq_ok_iff.mpr ⟨_, nameOf_eq_ok_iff.mpr ⟨_, hn, rfl⟩, rfl⟩⟩

theorem IsLiteral.isLiteralChar {v : Value} {t : String} (h : IsLiteral v t)
    (hv : ∀ s, v ≠ .text s) {c : Char} (hc : c ∈ t.toList) : isLiteralChar c = true := by
  cases h with
  | null =>
    have hall : "null".toList.all Source.isLiteralChar = true := by decide
    exact List.all_eq_true.mp hall c hc
  | bool b =>
    have hall : ∀ b : Bool, (if b then "true" else "false").toList.all Source.isLiteralChar
      = true := by
      decide
    exact List.all_eq_true.mp (hall b) c hc
  | int _ =>
    rw [Decimal.ofInt, String.toList_ofList] at hc
    exact isLiteralChar_of_mem_intDigits hc
  | float x => exact isLiteralChar_of_mem_floatLiteral hc
  | text s => exact absurd rfl (hv s)

/-! ## Values on their own -/

/-- The text of a value that is no collection does not depend on where it stands. -/
theorem shownIn_of_bare {v : Value} {s : String} (hv : v.isHashable = true)
    (hs : ∀ around, Value.shownIn around v.bare = s) (around : List Mark) :
    Value.shownIn around v = s := by
  induction v using Value.bare.induct generalizing around with
  | case1 m v ih =>
    have hv' : v.isHashable = true := hv
    rw [Value.shownIn, if_neg (by simp [hv'])]
    exact ih hv' hs _
  | case2 v h =>
    cases v with
    | marked m w => exact absurd rfl (h m w)
    | _ => exact hs around

theorem plain_of_bare_int {v : Value} {i : Int} (h : v.bare = .int i) :
    v.plain = Decimal.ofInt i := by
  have hv : v.isHashable = true := by
    rw [← Value.isHashable_bare, h]
    rfl
  rw [Value.plain, h]
  exact shownIn_of_bare hv (fun around => by rw [h, Value.shownIn]) []

theorem plain_of_bare_bool {v : Value} {b : Bool} (h : v.bare = .bool b) :
    v.plain = Value.boolText b := by
  have hv : v.isHashable = true := by
    rw [← Value.isHashable_bare, h]
    rfl
  rw [Value.plain, h]
  exact shownIn_of_bare hv (fun around => by rw [h, Value.shownIn]) []

theorem plain_of_bare_text {v : Value} {s : String} (h : v.bare = .text s) : v.plain = s := by
  rw [Value.plain, h]

theorem plainText_eq_ok {v : Value} {t : String} (h : plainText v = .ok t) : t = v.plain := by
  unfold plainText at h
  split at h
  · exact (Except.ok.inj h).symm
  · exact absurd h (by simp)

end EnumDecl.Source
