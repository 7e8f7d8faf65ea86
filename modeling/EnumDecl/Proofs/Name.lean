import Mathlib.Data.List.TakeWhile
import EnumDecl.Identifier.Shape

/-!
# Names are made once

`Identifier.Shape` says which texts the rules for names leave alone. This file says that every name
they make is such a text, so that making a name of a name changes nothing. An enumeration relies on
this in two places: a renamed member is put through the rule again, and a dump is loaded by asking
for its members anew.

The underscores are the delicate part of a member name. Collapsing remembers whether the underscore
of the current run is written already, and that memory is what keeps two of them apart.
-/

namespace EnumDecl.Identifier

/-! ## Characters -/

theorem isWord_of_isAlphanum {c : Char} (h : c.isAlphanum = true) : isWord c = true := by
  simp [isWord, h]

theorem isWord_underscore : isWord '_' = true := by decide

theorem ne_underscore_of_isAlphanum {c : Char} (h : c.isAlphanum = true) : c ≠ '_' := by
  rintro rfl
  exact absurd h (by decide)

theorem isAlphanum_of_isDigit {c : Char} (h : c.isDigit = true) : c.isAlphanum = true := by
  simp [Char.isAlphanum, h]

/-- What is neither a digit nor an underscore, and yet may stand in a name, is a letter. -/
theorem isAlpha_of_isWord {c : Char} (hw : isWord c = true)
    (hn : (c.isDigit || c == '_') = false) : c.isAlpha = true := by
  simp only [Bool.or_eq_false_iff] at hn
  simpa [isWord, Char.isAlphanum, hn.1, hn.2] using hw

/-! ## Collapsing -/

/-- Collapsing leaves characters of the class, and underscores. -/
theorem of_mem_collapse {keep : Char → Bool} {cs : List Char} {inRun : Bool} {c : Char}
    (h : c ∈ collapse keep inRun cs) : (keep c = true ∧ c ∈ cs) ∨ c = '_' := by
  induction cs generalizing inRun with
  | nil => exact absurd h (by simp [collapse])
  | cons d ds ih =>
    have hrest : ∀ {inRun}, c ∈ collapse keep inRun ds → (keep c = true ∧ c ∈ d :: ds) ∨ c = '_' :=
      fun hc => (ih hc).imp_left (And.imp_right (List.mem_cons_of_mem d))
    rw [collapse] at h
    split at h
    · rename_i hd
      rcases List.mem_cons.mp h with rfl | h
      · exact Or.inl ⟨hd, List.mem_cons_self⟩
      · exact hrest h
    · split at h
      · exact hrest h
      · rcases List.mem_cons.mp h with h | h
        · exact Or.inr h
        · exact hrest h

/-- Collapsing loses no character of the class. -/
theorem mem_collapse {keep : Char → Bool} {cs : List Char} {inRun : Bool} {c : Char} (h : c ∈ cs)
    (hc : keep c = true) : c ∈ collapse keep inRun cs := by
  induction cs generalizing inRun with
  | nil => exact absurd h (by simp)
  | cons d ds ih =>
    rw [collapse]
    rcases List.mem_cons.mp h with rfl | h
    · rw [if_pos hc]
      exact List.mem_cons_self
    · split
      · exact List.mem_cons_of_mem _ (ih h)
      · split
        · exact ih h
        · exact List.mem_cons_of_mem _ (ih h)

theorem all_isWord_collapse_alphanum (cs : List Char) (inRun : Bool) :
    (collapse Char.isAlphanum inRun cs).all isWord = true := by
  rw [List.all_eq_true]
  intro c hc
  rcases of_mem_collapse hc with ⟨h, -⟩ | h
  · exact isWord_of_isAlphanum h
  · exact h ▸ isWord_underscore

theorem all_isWord_collapse_isWord (cs : List Char) (inRun : Bool) :
    (collapse isWord inRun cs).all isWord = true := by
  rw [List.all_eq_true]
  intro c hc
  rcases of_mem_collapse hc with ⟨h, -⟩ | h
  · exact h
  · exact h ▸ isWord_underscore

/-- Inside a run whose underscore is written, no other one comes first. -/
theorem head?_collapse_inRun (cs : List Char) :
    (collapse Char.isAlphanum true cs).head? ≠ some '_' := by
  induction cs with
  | nil => simp [collapse]
  | cons c cs ih =>
    rw [collapse]
    split
    · rename_i hc
      simpa using ne_underscore_of_isAlphanum hc
    · exact ih

theorem hasDoubleUnderscore_cons {c : Char} {cs : List Char}
    (h : c = '_' → cs.head? ≠ some '_') (hcs : hasDoubleUnderscore cs = false) :
    hasDoubleUnderscore (c :: cs) = false := by
  cases cs with
  | nil => rfl
  | cons d ds =>
    rw [hasDoubleUnderscore, hcs, Bool.or_false, Bool.and_eq_false_iff]
    by_cases hc : c = '_'
    · exact Or.inr (by simpa using h hc)
    · exact Or.inl (by simpa using hc)

theorem hasDoubleUnderscore_collapse (cs : List Char) (inRun : Bool) :
    hasDoubleUnderscore (collapse Char.isAlphanum inRun cs) = false := by
  induction cs generalizing inRun with
  | nil => rfl
  | cons c cs ih =>
    rw [collapse]
    split
    · rename_i hc
      exact hasDoubleUnderscore_cons (fun h => absurd h (ne_underscore_of_isAlphanum hc))
        (ih false)
    · split
      · exact ih true
      · exact hasDoubleUnderscore_cons (fun _ => head?_collapse_inRun cs) (ih true)

theorem collapse_eq_nil_iff {keep : Char → Bool} {cs : List Char} :
    collapse keep false cs = [] ↔ cs = [] := by
  cases cs with
  | nil => simp [collapse]
  | cons c cs =>
    rw [collapse]
    split <;> simp

/-! ## Member names -/

theorem guardDigit_eq_nil_iff {cs : List Char} : guardDigit cs = [] ↔ cs = [] := by
  cases cs with
  | nil => rfl
  | cons c cs =>
    rw [guardDigit]
    split <;> simp

/-- An underscore in front of a digit makes a member name. -/
theorem isMemberName_guardDigit {cs : List Char} (hw : cs.all isWord = true)
    (hd : hasDoubleUnderscore cs = false) : isMemberName (guardDigit cs) = true := by
  cases cs with
  | nil => rfl
  | cons c cs =>
    rw [guardDigit]
    split
    · rename_i hc
      have hne : c ≠ '_' := ne_underscore_of_isAlphanum (isAlphanum_of_isDigit hc)
      have hdd : hasDoubleUnderscore ('_' :: c :: cs) = false :=
        hasDoubleUnderscore_cons (fun _ => by simpa using hne) hd
      have hww : ('_' :: c :: cs).all isWord = true := by
        rw [List.all_cons, isWord_underscore, hw]
        rfl
      simp [isMemberName, hww, hdd, startsWithDigit]
    · rename_i hc
      simp only [Bool.not_eq_true] at hc
      simp [isMemberName, hw, hd, startsWithDigit, hc]

/-- Whatever a member name is made of, it has the shape of one. -/
theorem isMemberName_memberChars (cs : List Char) : isMemberName (memberChars cs) = true :=
  isMemberName_guardDigit (all_isWord_collapse_alphanum cs false)
    (hasDoubleUnderscore_collapse cs false)

theorem memberChars_eq_nil_iff {cs : List Char} : memberChars cs = [] ↔ cs = [] := by
  rw [memberChars, guardDigit_eq_nil_iff, collapse_eq_nil_iff]

theorem memberName_eq_empty_iff {text : String} : memberName text = "" ↔ text = "" := by
  rw [memberName, ← String.toList_eq_nil_iff, String.toList_ofList, memberChars_eq_nil_iff,
    String.toList_eq_nil_iff]

theorem toList_memberName (text : String) : (memberName text).toList = memberChars text.toList :=
  String.toList_ofList

/-- A text of the shape of a member name that is not empty. -/
structure IsMember (name : String) : Prop where
  /-- There is a character. -/
  nonempty : name ≠ ""
  /-- All characters are in their places. -/
  shape : isMemberName name.toList = true

theorem isMember_memberName {text : String} (h : text ≠ "") : IsMember (memberName text) where
  nonempty := fun he => h (memberName_eq_empty_iff.mp he)
  shape := by rw [toList_memberName]; exact isMemberName_memberChars _

theorem IsMember.memberName_eq {name : String} (h : IsMember name) : memberName name = name := by
  rw [memberName, memberChars_eq_self h.shape, String.ofList_toList]

theorem IsMember.toList_ne_nil {name : String} (h : IsMember name) : name.toList ≠ [] :=
  fun he => h.nonempty (String.toList_eq_nil_iff.mp he)

theorem IsMember.all_isWord {name : String} (h : IsMember name) :
    name.toList.all isWord = true := by
  have hs := h.shape
  simp only [isMemberName, Bool.and_eq_true] at hs
  exact hs.1.1

/-- A member name is an identifier. -/
theorem IsMember.isIdentifierChars {name : String} (h : IsMember name) :
    isIdentifierChars name.toList = true := by
  have hs := h.shape
  have hne := h.toList_ne_nil
  cases hl : name.toList with
  | nil => exact absurd hl hne
  | cons c cs =>
    rw [hl] at hs
    simp only [isMemberName, startsWithDigit, List.all_cons, Bool.and_eq_true,
      Bool.not_eq_true'] at hs
    obtain ⟨⟨⟨hc, hcs⟩, -⟩, hd⟩ := hs
    rw [Identifier.isIdentifierChars, hcs, Bool.and_true]
    by_cases hu : c = '_'
    · simp [hu]
    · rw [isAlpha_of_isWord hc (by simp [hd, hu])]
      rfl

/-! ## Type names -/

theorem dropWhile_head {p : Char → Bool} {cs : List Char} {c : Char} {rest : List Char}
    (h : cs.dropWhile p = c :: rest) : p c = false := by
  have := List.head?_dropWhile_not p cs
  rw [h] at this
  simpa using this

/-- Whatever a type name is made of, it has the shape of one. -/
theorem isTypeName_typeChars (cs : List Char) : isTypeName (typeChars cs) = true := by
  have hall := all_isWord_collapse_isWord cs false
  have hsub : ∀ c ∈ typeChars cs, isWord c = true := fun c hc =>
    List.all_eq_true.mp hall c ((List.dropWhile_sublist _).subset hc)
  cases ht : typeChars cs with
  | nil => rfl
  | cons c rest =>
    rw [ht] at hsub
    have hc := isAlpha_of_isWord (hsub c (by simp)) (dropWhile_head ht)
    have hrest : rest.all isWord = true :=
      List.all_eq_true.mpr fun d hd => hsub d (List.mem_cons_of_mem _ hd)
    rw [isTypeName, hc, hrest]
    rfl

theorem typeName_typeName (text : String) : typeName (typeName text) = typeName text := by
  have h := typeChars_eq_self (isTypeName_typeChars text.toList)
  rw [typeName, show (typeName text).toList = typeChars text.toList from String.toList_ofList, h]
  rfl

/-- A text with a letter has a type name. -/
theorem typeName_ne_empty {text : String} {c : Char} (h : c ∈ text.toList)
    (hc : c.isAlpha = true) :
    typeName text ≠ "" := by
  have hword : isWord c = true := isWord_of_isAlphanum (by simp [Char.isAlphanum, hc])
  have hnot : ¬ (c.isDigit || c == '_') = true := Bool.eq_false_iff.mp (not_leading_of_isAlpha hc)
  intro he
  have hnil : typeChars text.toList = [] := by
    rw [← String.toList_ofList (l := typeChars text.toList)]
    exact String.toList_eq_nil_iff.mpr he
  exact hnot (List.dropWhile_eq_nil_iff.mp hnil c (mem_collapse h hword))

/-- A type name that is not empty begins with a letter. -/
theorem typeName_head {text : String} (h : typeName text ≠ "") :
    ∃ c cs, (typeName text).toList = c :: cs ∧ c.isAlpha = true := by
  have hs := isTypeName_typeChars text.toList
  have hl : (typeName text).toList = typeChars text.toList := String.toList_ofList
  cases ht : typeChars text.toList with
  | nil => exact absurd (String.toList_eq_nil_iff.mp (hl.trans ht)) h
  | cons c cs =>
    rw [ht, isTypeName, Bool.and_eq_true] at hs
    exact ⟨c, cs, hl.trans ht, hs.1⟩

/-- A type name that is not empty is an identifier. -/
theorem isIdentifierChars_typeName {text : String} (h : typeName text ≠ "") :
    isIdentifierChars (typeName text).toList = true := by
  have hs := isTypeName_typeChars text.toList
  rw [show typeChars text.toList = (typeName text).toList from String.toList_ofList.symm] at hs
  obtain ⟨c, cs, hcs, -⟩ := typeName_head h
  rw [hcs, isTypeName, Bool.and_eq_true] at hs
  rw [hcs, isIdentifierChars, hs.1, hs.2]
  rfl

end EnumDecl.Identifier
