import EnumDecl.Enumeration.Add

/-!
# The shape of names

What the rules for names produce, said without the rules: a type name is a letter and then letters,
digits and underscores; a member name is made of these too, without two underscores in a row and
without a digit in front. Names of either shape are left as they are, which the lemmas here say, so
making a name twice is the same as making it once.

The chain of next names of a member is described by its stem, the part that renaming never changes,
and the number it starts at.
-/

namespace EnumDecl.Identifier

/-- Nothing, or a letter and after it letters, digits and underscores. -/
def isTypeName : List Char → Bool
  | [] => true
  | c :: cs => c.isAlpha && cs.all isWord

/-- Tells whether two underscores stand side by side. -/
def hasDoubleUnderscore : List Char → Bool
  | a :: b :: cs => (a == '_' && b == '_') || hasDoubleUnderscore (b :: cs)
  | _ => false

/-- Tells whether a text begins with a digit. -/
def startsWithDigit : List Char → Bool
  | [] => false
  | c :: _ => c.isDigit

/-- Letters, digits and underscores, no two underscores in a row and no digit in front. -/
def isMemberName (cs : List Char) : Bool :=
  cs.all isWord && !hasDoubleUnderscore cs && !startsWithDigit cs

/-- The longest runs of characters that are all of a class or all outside of it, in order. -/
def runs (keep : Char → Bool) (cs : List Char) : List (List Char) :=
  cs.splitBy fun a b => keep a == keep b

/-- A text with one underscore in place of each longest run of characters outside of a class. -/
def bridged (keep : Char → Bool) (cs : List Char) : List Char :=
  (runs keep cs).flatMap fun run => if run.all keep then run else ['_']

/-- The name after some renames. -/
def renamedTimes : Nat → String → Except SuffixFault String
  | 0, name => .ok name
  | k + 1, name => renamed name >>= renamedTimes k

/-- The text after some texts that follow on it, each the next name after the one before. -/
def nextTimes : Nat → String → Except SuffixFault String
  | 0, text => .ok text
  | k + 1, text => nextName text >>= nextTimes k

/-- The part of a member name that renaming keeps, up to and with the underscore before the
number. -/
def stem (cs : List Char) : List Char :=
  match splitSuffix? cs with
  | some (stem, _) => stem
  | none => if cs.getLast? = some '_' then cs else cs ++ ['_']

/-- The number that a member name ends in, zero where there is none. -/
def suffixNumber (cs : List Char) : Nat :=
  match splitSuffix? cs with
  | some (_, digits) => Decimal.value digits
  | none => 0

/-! ## Names are left as they are -/

/-- A text of the class alone is not changed by collapsing. -/
theorem collapse_eq_self {keep : Char → Bool} {cs : List Char} (h : cs.all keep = true)
    (inRun : Bool) :
    collapse keep inRun cs = cs := by
  induction cs generalizing inRun with
  | nil => rfl
  | cons c cs ih =>
    simp only [List.all_cons, Bool.and_eq_true] at h
    rw [collapse, if_pos h.1, ih h.2]

/-- A letter is neither a digit nor an underscore. -/
theorem not_leading_of_isAlpha {c : Char} (h : c.isAlpha = true) :
    (c.isDigit || c == '_') = false := by
  have h : (decide ('A'.val ≤ c.val ∧ c.val ≤ 'Z'.val)
      || decide ('a'.val ≤ c.val) && decide (c.val ≤ 'z'.val)) = true := h
  show (decide ('0'.val ≤ c.val) && decide (c.val ≤ '9'.val) || c == '_') = false
  simp only [Bool.or_eq_true, Bool.and_eq_true, decide_eq_true_eq] at h
  simp only [Bool.or_eq_false_iff, Bool.and_eq_false_iff, decide_eq_false_iff_not,
    beq_eq_false_iff_ne, ne_eq]
  refine ⟨?_, ?_⟩
  · rcases h with ⟨h, _⟩ | ⟨h, _⟩
    · exact Or.inr (fun hn => absurd (UInt32.le_trans h hn) (by decide))
    · exact Or.inr (fun hn => absurd (UInt32.le_trans h hn) (by decide))
  · rintro rfl
    revert h
    decide

/-- A type name is made into itself. -/
theorem typeChars_eq_self {cs : List Char} (h : isTypeName cs = true) : typeChars cs = cs := by
  cases cs with
  | nil => rfl
  | cons c cs =>
    simp only [isTypeName, Bool.and_eq_true] at h
    have hw : (c :: cs).all isWord = true := by
      simp [isWord, Char.isAlphanum, h.1, h.2]
    rw [typeChars, collapse_eq_self hw, List.dropWhile_cons, not_leading_of_isAlpha h.1]
    simp

/-- Without two underscores in a row, collapsing runs of underscores changes nothing. -/
theorem collapse_alphanum_eq_self {cs : List Char} (hw : cs.all isWord = true)
    (hd : hasDoubleUnderscore cs = false) (inRun : Bool)
    (hr : inRun = true → cs.head? ≠ some '_') :
    collapse Char.isAlphanum inRun cs = cs := by
  induction cs generalizing inRun with
  | nil => rfl
  | cons c cs ih =>
    simp only [List.all_cons, Bool.and_eq_true] at hw
    have htail : hasDoubleUnderscore cs = false := by
      cases cs with
      | nil => rfl
      | cons b bs =>
        simp only [hasDoubleUnderscore, Bool.or_eq_false_iff] at hd
        exact hd.2
    by_cases hc : c.isAlphanum = true
    · rw [collapse, if_pos hc, ih hw.2 htail false (by simp)]
    · have hu : c = '_' := by simpa [isWord, hc] using hw.1
      subst hu
      have hin : inRun = false := by
        cases inRun with
        | false => rfl
        | true => exact absurd rfl (hr rfl)
      subst hin
      have hnext : cs.head? ≠ some '_' := by
        cases cs with
        | nil => simp
        | cons b bs =>
          simp only [hasDoubleUnderscore, Bool.or_eq_false_iff] at hd
          simpa using hd.1
      rw [collapse, if_neg hc, if_neg (by simp), ih hw.2 htail true (fun _ => hnext)]

/-- A member name is made into itself. -/
theorem memberChars_eq_self {cs : List Char} (h : isMemberName cs = true) :
    memberChars cs = cs := by
  simp only [isMemberName, Bool.and_eq_true, Bool.not_eq_true'] at h
  rw [memberChars, collapse_alphanum_eq_self h.1.1 h.1.2 false (by simp)]
  cases cs with
  | nil => rfl
  | cons c cs => simp [guardDigit, show c.isDigit = false from h.2]

end EnumDecl.Identifier
