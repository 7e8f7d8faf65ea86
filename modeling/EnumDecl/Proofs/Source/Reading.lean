import EnumDecl.Proofs.Source.Literal
import EnumDecl.Proofs.Source.Spelling
import EnumDecl.Source.Reading
import Mathlib.Data.List.TakeWhile

/-!
# An argument says one thing

Every spelling of an argument is read as that argument (`exists_readArgument?`), so that no two
arguments that differ are spelled in one way. The delicate neighbours are words and names: `true`
is a literal and `@true` a constant, `double.NaN` a literal and `@double.NaN` a constant with an
owner. They are told apart because a reserved word is a name with a sign in front only, and the
words begin with reserved words.
-/

namespace EnumDecl.Source

open Identifier

/-- What an argument says, apart from marks; an owner that counts as nothing says nothing. -/
inductive Says : Argument → Reading → Prop
  | literal (v : Value) : Says (.literal v) (.literal v.bare)
  | constant {n o : Value} {s : String} (hn : n.bare = .text s) (ho : o.isTrue = false) :
    Says (.constant n o) (.constant s.toList)
  | owned {n o : Value} {s p : String} (hn : n.bare = .text s) (ho : o.bare = .text p)
      (hp : p ≠ "") :
    Says (.constant n o) (.owned p.toList s.toList)

/-- A value that is an identifier. -/
def IsIdentifier (v : Value) : Prop := ∃ s, v.bare = .text s ∧ isIdentifierChars s.toList = true

/-- If an argument is a constant, its name is an identifier, and so is its owner if it has one. -/
def NamesConstant (a : Argument) : Prop :=
  ∀ n o, a = .constant n o → IsIdentifier n ∧ (o.bare = .null ∨ o.bare = .text "" ∨ IsIdentifier o)

theorem IsIdentifier.isIdentifierChars {v : Value} (h : IsIdentifier v) {s : String}
    (hv : v.bare = .text s) : isIdentifierChars s.toList = true := by
  obtain ⟨t, ht, hident⟩ := h
  rw [Value.text.inj (hv.symm.trans ht)]
  exact hident

theorem NamesConstant.name {n o : Value} (h : NamesConstant (.constant n o)) {s : String}
    (hn : n.bare = .text s) : isIdentifierChars s.toList = true :=
  (h n o rfl).1.isIdentifierChars hn

theorem NamesConstant.owner {n o : Value} (h : NamesConstant (.constant n o)) {p : String}
    (ho : o.bare = .text p) (hp : p ≠ "") : isIdentifierChars p.toList = true := by
  rcases (h n o rfl).2 with hnull | hempty | hident
  · exact absurd (ho.symm.trans hnull) (by simp)
  · exact absurd (Value.text.inj (ho.symm.trans hempty)) hp
  · exact hident.isIdentifierChars ho

/-! ## Words and names -/

theorem readWord?_eq_none {cs : List Char} (h : ∀ w ∈ wordLiterals, w.1 ≠ cs) :
    readWord? cs = none := by
  rw [readWord?, List.find?_eq_none.mpr fun w hw => by simpa using h w hw]
  rfl

/-- What does not begin with the letter of a word is none. -/
theorem readWord?_of_head {c : Char} {cs : List Char} (h : c ∉ ['n', 't', 'f', 'd']) :
    readWord? (c :: cs) = none := by
  have hheads : ∀ w ∈ wordLiterals, ∃ d ds, w.1 = d :: ds ∧ d ∈ ['n', 't', 'f', 'd'] := by
    simp [wordLiterals]
  refine readWord?_eq_none fun w hw he => ?_
  obtain ⟨d, ds, hd, hmem⟩ := hheads w hw
  rw [hd] at he
  exact h ((List.cons.inj he).1 ▸ hmem)

/-- What has a name up to its first point is none: a word has a reserved word there. -/
theorem readWord?_of_nameToken {cs : List Char}
    (h : isNameToken (cs.takeWhile (· != '.')) = true) :
    readWord? cs = none := by
  have hreserved : ∀ w ∈ wordLiterals, isNameToken (w.1.takeWhile (· != '.')) = false := by decide
  refine readWord?_eq_none fun w hw he => ?_
  rw [← he, hreserved w hw] at h
  exact absurd h (by simp)

theorem ne_point_of_nameToken {cs : List Char} (h : isNameToken cs = true) :
    ∀ c ∈ cs, (c != '.') = true :=
  bne_of_mem_nameToken h (by decide) (by decide)

theorem takeWhile_nameToken {cs : List Char} (h : isNameToken cs = true) :
    cs.takeWhile (· != '.') = cs :=
  List.takeWhile_eq_self_iff.mpr (ne_point_of_nameToken h)

theorem takeWhile_owned {cs : List Char} (h : isNameToken cs = true) (ds : List Char) :
    (cs ++ '.' :: ds).takeWhile (· != '.') = cs := by
  rw [List.takeWhile_append_of_pos (ne_point_of_nameToken h)]
  exact List.append_nil _

/-- What begins as a name and is no word is read as a constant. -/
theorem readArgument?_of_head {c : Char} {cs : List Char} (hword : readWord? (c :: cs) = none)
    (hdigit : c.isDigit = false) (hsign : c ≠ '-') (hquote : c ≠ '\x22') :
    readArgument? (c :: cs) = some (readConstant (c :: cs)) := by
  rw [readArgument?, hword]
  dsimp only
  rw [if_neg hquote, if_neg hsign, hdigit, if_neg (by simp)]

theorem readArgument?_nameToken {cs : List Char} (h : isNameToken cs = true) :
    readArgument? cs = some (.constant (nameOfToken cs)) := by
  -- a word would have to be a name itself
  have hword : readWord? cs = none :=
    readWord?_of_nameToken (by rw [takeWhile_nameToken h]; exact h)
  obtain ⟨c, rest, rfl⟩ := List.exists_cons_of_ne_nil (nameToken_ne_nil h)
  obtain ⟨hdigit, hsign, hquote⟩ := head_nameToken h
  rw [readArgument?_of_head hword hdigit hsign hquote, readConstant,
    List.dropWhile_eq_nil_iff.mpr (ne_point_of_nameToken h)]

theorem readArgument?_owned {cs ds : List Char} (h : isNameToken cs = true) :
    readArgument? (cs ++ '.' :: ds) = some (.owned (nameOfToken cs) (nameOfToken ds)) := by
  have hword : readWord? (cs ++ '.' :: ds) = none :=
    readWord?_of_nameToken (by rw [takeWhile_owned h]; exact h)
  have hconstant : readConstant (cs ++ '.' :: ds) = .owned (nameOfToken cs) (nameOfToken ds) := by
    rw [readConstant, List.dropWhile_append_of_pos (ne_point_of_nameToken h), takeWhile_owned h]
    rfl
  obtain ⟨c, rest, rfl⟩ := List.exists_cons_of_ne_nil (nameToken_ne_nil h)
  obtain ⟨hdigit, hsign, hquote⟩ := head_nameToken h
  rw [List.cons_append] at hword hconstant ⊢
  rw [readArgument?_of_head hword hdigit hsign hquote, hconstant]

/-! ## Numbers and texts -/

/-- A number is read with its sign, or without one. -/
theorem readArgument?_number (negative : Bool) {c : Char} {cs : List Char} (h : c.isDigit = true)
    {v : Value} (hv : readNumber? negative (c :: cs) = some v) :
    readArgument? ((if negative then ['-'] else []) ++ c :: cs) = some (.literal v) := by
  have hc : c ∉ ['n', 't', 'f', 'd'] := by
    intro hmem
    have hletters : ['n', 't', 'f', 'd'].all (fun d => !d.isDigit) = true := by decide
    have hletter := List.all_eq_true.mp hletters c hmem
    rw [h] at hletter
    exact absurd hletter (by simp)
  cases negative with
  | true =>
    show readArgument? ('-' :: c :: cs) = _
    rw [readArgument?, readWord?_of_head (by decide)]
    dsimp only
    rw [if_neg (by decide), if_pos rfl, hv]
    rfl
  | false =>
    have hquote : c ≠ '\x22' := by
      rintro rfl
      exact absurd h (by decide)
    have hsign : c ≠ '-' := by
      rintro rfl
      exact absurd h (by decide)
    show readArgument? (c :: cs) = _
    rw [readArgument?, readWord?_of_head hc]
    dsimp only
    rw [if_neg hquote, if_neg hsign, if_pos h, hv]
    rfl

theorem readArgument?_intDigits (i : Int) :
    readArgument? (Decimal.intDigits i) = some (.literal (.int i)) := by
  have hall : (Decimal.digits i.natAbs).all Char.isDigit = true :=
    List.all_eq_true.mpr fun c hc => Decimal.isDigit_of_mem_digits hc
  have hread : ∀ negative, readNumber? negative (Decimal.digits i.natAbs)
      = some (.int (if negative then -(i.natAbs : Int) else i.natAbs)) := by
    intro negative
    rw [readNumber?, if_pos hall, Decimal.value_digits]
  obtain ⟨c, cs, hcs⟩ := List.exists_cons_of_ne_nil (Decimal.digits_ne_nil i.natAbs)
  have hdigit : c.isDigit = true := Decimal.isDigit_of_mem_digits (hcs ▸ List.mem_cons_self)
  unfold Decimal.intDigits
  rw [hcs] at hread ⊢
  split
  · rename_i hneg
    have hi : -(i.natAbs : Int) = i := by omega
    have hnumber := readArgument?_number true hdigit (hread true)
    rw [if_pos rfl, hi] at hnumber
    exact hnumber
  · rename_i hneg
    have hi : (i.natAbs : Int) = i := by omega
    have hnumber := readArgument?_number false hdigit (hread false)
    rw [if_neg (by simp), if_neg (by simp), hi] at hnumber
    exact hnumber

/-- A point or an exponent is no digit. -/
theorem not_all_isDigit_spelling (m : Binary64.Magnitude) :
    (m.spelling Binary64.plainForm).chars.all Char.isDigit = false := by
  rw [List.all_eq_false]
  rcases m.spelling_not_whole Binary64.plainForm with hf | he
  · refine ⟨'.', ?_, by decide⟩
    simp [Binary64.Spelling.chars, Binary64.Spelling.fractionChars, hf]
  · obtain ⟨⟨negative, ds⟩, he⟩ := Option.ne_none_iff_exists'.mp he
    refine ⟨'e', ?_, by decide⟩
    simp [Binary64.Spelling.chars, Binary64.Spelling.exponentChars, he]

theorem readArgument?_finite (s : Bool) (m : Binary64.Magnitude) :
    readArgument? (floatLiteral (.finite s m)).toList
      = some (.literal (.float (.finite s m))) := by
  have hproper := m.proper_spelling Binary64.plainForm
  have hread : readNumber? s (m.spelling Binary64.plainForm).chars
    = some (.float (.finite s m)) := by
    rw [readNumber?, not_all_isDigit_spelling, if_neg (by simp), Binary64.readUnsigned?_spelling]
    rfl
  rw [toList_floatLiteral_finite]
  obtain ⟨c, cs, hcs⟩ := List.exists_cons_of_ne_nil hproper.whole_ne_nil
  have hdigit : c.isDigit = true := hproper.whole c (hcs ▸ List.mem_cons_self)
  rw [Binary64.Spelling.chars, hcs, List.cons_append] at hread ⊢
  exact readArgument?_number s hdigit hread

theorem readArgument?_stringLiteral (s : String) :
    readArgument? (stringLiteral s).toList = some (.literal (.text s)) := by
  have hread := readString?_stringChars s.toList []
  rw [List.append_nil] at hread
  rw [stringLiteral, String.toList_ofList]
  show readArgument? ('\x22' :: (s.toList.flatMap escape ++ ['\x22'])) = _
  rw [readArgument?, readWord?_of_head (by decide)]
  dsimp only
  rw [if_pos rfl]
  show (readText? (stringChars s.toList)).map Reading.literal = _
  rw [readText?, hread]
  simp

/-! ## All arguments -/

theorem readArgument?_literal {v : Value} {t : String} (h : IsLiteral v t) :
    readArgument? t.toList = some (.literal v) := by
  cases h with
  | null => rfl
  | bool b => cases b <;> rfl
  | @int i _ =>
    rw [Decimal.ofInt, String.toList_ofList]
    exact readArgument?_intDigits i
  | float x =>
    cases x with
    | nan => rfl
    | infinity s => cases s <;> rfl
    | finite s m => exact readArgument?_finite s m
  | text s => exact readArgument?_stringLiteral s

/-- **An argument is read as what it says.** -/
theorem exists_readArgument? {a : Argument} {t : String} (h : IsArgument a t)
    (hc : NamesConstant a) :
    ∃ r, readArgument? t.toList = some r ∧ Says a r := by
  cases h with
  | @literal v _ h => exact ⟨_, readArgument?_literal h, .literal v⟩
  | @constant n o s hn ho =>
    have hident := hc.name hn
    refine ⟨_, readArgument?_nameToken (isNameToken_nameText hident), ?_⟩
    rw [nameOfToken_nameText hident]
    exact .constant hn ho
  | @owned n o s p hn ho hp =>
    have hident := hc.name hn
    have howner := hc.owner ho hp
    have htext : (nameText p ++ "." ++ nameText s).toList
        = (nameText p).toList ++ '.' :: (nameText s).toList := by simp
    refine ⟨_, ?_, .owned hn ho hp⟩
    rw [htext, readArgument?_owned (isNameToken_nameText howner), nameOfToken_nameText howner,
      nameOfToken_nameText hident]

end EnumDecl.Source
