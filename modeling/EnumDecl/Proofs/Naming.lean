import EnumDecl.Proofs.Invariant
import Mathlib.Data.List.SplitBy

/-!
# What a name keeps of a text

A member name has the letters and digits of the text it is made of, in their order and side by side
where they were. All that stood between two of them comes to one underscore, and what stood in
front of the first or behind the last leaves one there (`memberName_in_full`). That is why a name
may be made of a name and what follows it as well as of the whole text.

A type name is made the other way about: runs are collapsed first, and digits and underscores
dropped from the front afterwards. It comes to the same as looking for the first letter and
collapsing what is behind it, because no run reaches across a letter (`typeName_in_full`).
-/

namespace EnumDecl.Identifier

/-! ## Runs -/

theorem endsInRun_of_getLast? {keep : Char → Bool} {inRun : Bool} {cs : List Char} {c : Char}
    (h : cs.getLast? = some c) : endsInRun keep inRun cs = !keep c := by
  rw [endsInRun, h]

/-- Inside a run nothing more is written. -/
theorem collapse_gap_inRun {keep : Char → Bool} {gap : List Char} (h : ∀ c ∈ gap, keep c = false) :
    collapse keep true gap = [] := by
  induction gap with
  | nil => rfl
  | cons c cs ih =>
    have hc := h c List.mem_cons_self
    rw [collapse, hc]
    exact ih fun d hd => h d (List.mem_cons_of_mem _ hd)

/-- A run of other characters becomes one underscore, and no run becomes nothing. -/
theorem collapse_gap {keep : Char → Bool} {gap : List Char} (h : ∀ c ∈ gap, keep c = false) :
    collapse keep false gap = if gap = [] then [] else ['_'] := by
  cases gap with
  | nil => rfl
  | cons c cs =>
    have hc := h c List.mem_cons_self
    rw [collapse, hc, collapse_gap_inRun fun d hd => h d (List.mem_cons_of_mem _ hd)]
    rfl

/-- A character of the class ends a run. -/
theorem collapse_kept {keep : Char → Bool} {x : Char} (hx : keep x = true) (inRun : Bool)
    (rest : List Char) : collapse keep inRun (x :: rest) = x :: collapse keep false rest := by
  rw [collapse, if_pos hx]

/-- It makes no difference to be in a run that is over. -/
theorem collapse_inRun_eq {keep : Char → Bool} {rest : List Char}
    (h : ∀ c ∈ rest.head?, keep c = true) :
    collapse keep true rest = collapse keep false rest := by
  cases rest with
  | nil => rfl
  | cons c cs =>
    have hc : keep c = true := h c rfl
    rw [collapse_kept hc, collapse_kept hc]

/-- All characters of a run are of the class if the first one is, and none is otherwise. -/
theorem keep_of_isChain {keep : Char → Bool} {c : Char} {cs : List Char}
    (h : (c :: cs).IsChain fun a b => (keep a == keep b) = true) :
    ∀ d ∈ c :: cs, keep d = keep c := by
  induction cs generalizing c with
  | nil =>
    intro d hd
    rw [List.mem_singleton.mp hd]
  | cons e es ih =>
    rw [List.isChain_cons_cons] at h
    have he : keep e = keep c := (beq_iff_eq.mp h.1).symm
    intro d hd
    rcases List.mem_cons.mp hd with rfl | hd
    · rfl
    · exact (ih h.2 d hd).trans he

/-- Runs one after another, each of another kind than the one before it, are collapsed one by
one. -/
theorem collapse_flatten {keep : Char → Bool} {rs : List (List Char)} (hn : [] ∉ rs)
    (hc : ∀ r ∈ rs, r.IsChain fun a b => (keep a == keep b) = true)
    (hb : rs.IsChain fun a b => ∃ ha hb, (keep (a.getLast ha) == keep (b.head hb)) = false) :
    collapse keep false rs.flatten
      = rs.flatMap fun run => if run.all keep then run else ['_'] := by
  induction rs with
  | nil => rfl
  | cons r rs ih =>
    obtain ⟨c, cs, rfl⟩ := List.exists_cons_of_ne_nil fun he : r = [] => hn (by simp [he])
    have hrest := ih (fun h => hn (List.mem_cons_of_mem _ h))
      (fun r hr => hc r (List.mem_cons_of_mem _ hr)) hb.tail
    have hsame := keep_of_isChain (hc _ List.mem_cons_self)
    have hlast : (c :: cs).getLast? = some ((c :: cs).getLast (by simp)) :=
      List.getLast?_eq_some_getLast (by simp)
    have hend := hsame _ (List.getLast_mem (l := c :: cs) (by simp))
    rw [List.flatten_cons, List.flatMap_cons, ← hrest, collapse_append,
      endsInRun_of_getLast? hlast, hend]
    cases hkeep : keep c with
    | true =>
      have hall : (c :: cs).all keep = true :=
        List.all_eq_true.mpr fun d hd => (hsame d hd).trans hkeep
      rw [collapse_eq_self hall, if_pos hall]
      rfl
    | false =>
      have hnone : ∀ d ∈ c :: cs, keep d = false := fun d hd => (hsame d hd).trans hkeep
      have hall : (c :: cs).all keep = false := by rw [List.all_cons, hkeep, Bool.false_and]
      rw [collapse_gap hnone, if_neg (by simp), hall]
      -- the run behind this one is of the class
      refine congrArg (['_'] ++ ·) (collapse_inRun_eq fun d hd => ?_)
      cases rs with
      | nil => exact absurd hd (by simp)
      | cons s ss =>
        obtain ⟨⟨_, hs, hdiff⟩, -⟩ := List.isChain_cons_cons.mp hb
        obtain ⟨e, es, rfl⟩ := List.exists_cons_of_ne_nil hs
        obtain rfl : e = d := by simpa using hd
        rw [hend, hkeep, List.head_cons] at hdiff
        simpa using hdiff

/-- **Collapsing puts one underscore in place of each longest run of other characters.** -/
theorem collapse_eq_bridged (keep : Char → Bool) (cs : List Char) :
    collapse keep false cs = bridged keep cs := by
  have h := collapse_flatten (List.nil_notMem_splitBy _ cs) (fun _ => List.isChain_of_mem_splitBy)
    (List.isChain_getLast_head_splitBy (fun a b => keep a == keep b) cs)
  rwa [List.flatten_splitBy] at h

/-! ## What is kept -/

/-- The characters of the class are kept in their order. -/
theorem filter_collapse {keep : Char → Bool} (hu : keep '_' = false) (inRun : Bool)
    (cs : List Char) :
    (collapse keep inRun cs).filter keep = cs.filter keep := by
  induction cs generalizing inRun with
  | nil => rfl
  | cons c cs ih =>
    cases hc : keep c with
    | true => rw [collapse_kept hc, List.filter_cons_of_pos hc, List.filter_cons_of_pos hc, ih]
    | false =>
      rw [collapse, hc, List.filter_cons_of_neg (by simp [hc])]
      cases inRun with
      | true => exact ih true
      | false =>
        show ('_' :: collapse keep true cs).filter keep = _
        rw [List.filter_cons_of_neg (by simp [hu]), ih]

/-- The last character is kept, or it is an underscore in the end. -/
theorem getLast?_collapse {keep : Char → Bool} (cs : List Char) :
    (collapse keep false cs).getLast? = cs.getLast?.map fun c => if keep c then c else '_' := by
  induction cs using List.reverseRecOn with
  | nil => rfl
  | append_singleton cs c ih =>
    rw [List.getLast?_concat, collapse_append]
    cases hc : keep c with
    | true =>
      rw [collapse_kept hc, collapse, List.getLast?_concat]
      simp [hc]
    | false =>
      have hone : ∀ d ∈ [c], keep d = false := fun d hd => List.mem_singleton.mp hd ▸ hc
      cases hend : endsInRun keep false cs with
      | false =>
        rw [collapse_gap hone, if_neg (by simp), List.getLast?_concat]
        simp [hc]
      | true =>
        -- the underscore of the run is written already
        rw [collapse_gap_inRun hone, List.append_nil, ih]
        cases hlast : cs.getLast? with
        | none =>
          rw [endsInRun, hlast] at hend
          exact absurd hend (by simp)
        | some d =>
          rw [endsInRun_of_getLast? hlast] at hend
          simp [hc, show keep d = false by simpa using hend]

/-- A guard is put in front of whatever follows, and has no letter or digit in it. -/
theorem exists_guardDigit_append (front rest : List Char) :
    ∃ front', guardDigit (front ++ rest) = front' ++ rest
      ∧ front'.filter Char.isAlphanum = front.filter Char.isAlphanum := by
  have hu : Char.isAlphanum '_' = false := by decide
  cases front with
  | nil =>
    cases rest with
    | nil => exact ⟨[], rfl, rfl⟩
    | cons c cs =>
      cases hc : c.isDigit with
      | true => exact ⟨['_'], by simp [guardDigit, hc], by simp [hu]⟩
      | false => exact ⟨[], by simp [guardDigit, hc], rfl⟩
  | cons c cs =>
    cases hc : c.isDigit with
    | true => exact ⟨'_' :: c :: cs, by simp [guardDigit, hc], by simp [hu]⟩
    | false => exact ⟨c :: cs, by simp [guardDigit, hc], rfl⟩

theorem getLast?_guardDigit (cs : List Char) : (guardDigit cs).getLast? = cs.getLast? := by
  cases cs with
  | nil => rfl
  | cons c cs =>
    rw [guardDigit]
    split
    · rw [List.getLast?_cons_cons]
    · rfl

/-- What follows a text that is not empty does not change what is put in front of it. -/
theorem guardDigit_append {front : List Char} (h : front ≠ []) (rest : List Char) :
    guardDigit (front ++ rest) = guardDigit front ++ rest := by
  cases front with
  | nil => exact absurd rfl h
  | cons c cs =>
    rw [List.cons_append, guardDigit, guardDigit]
    split <;> rfl

/-! ## Member names -/

/-- What a member name has of the text it is made of. -/
structure MadeMember (text name : List Char) : Prop where
  /-- There is no name of nothing, and of nothing else. -/
  empty : name = [] ↔ text = []
  /-- Letters, digits and underscores, no two underscores in a row and no digit in front. -/
  shape : isMemberName name = true
  /-- The letters and digits are those of the text, in their order. -/
  kept : name.filter Char.isAlphanum = text.filter Char.isAlphanum
  /-- Two of them that follow each other stay side by side, or come to stand on either side of one
  underscore. -/
  between : ∀ before x gap y behind, text = before ++ x :: (gap ++ y :: behind) →
    x.isAlphanum = true → y.isAlphanum = true → (∀ c ∈ gap, c.isAlphanum = false) →
    ∃ before' behind', name = before' ++ x :: ((if gap = [] then [] else ['_']) ++ y :: behind')
      ∧ before'.filter Char.isAlphanum = before.filter Char.isAlphanum
      ∧ behind'.filter Char.isAlphanum = behind.filter Char.isAlphanum
  /-- An underscore is in front when the text begins with anything but a letter. -/
  front : name.head? = some '_' ↔ ∃ c, text.head? = some c ∧ c.isAlpha = false
  /-- An underscore is at the end when the text ends in anything but a letter or a digit. -/
  back : name.getLast? = some '_' ↔ ∃ c, text.getLast? = some c ∧ c.isAlphanum = false

theorem filter_memberChars (cs : List Char) :
    (memberChars cs).filter Char.isAlphanum = cs.filter Char.isAlphanum := by
  obtain ⟨front, hfront, hkept⟩ := exists_guardDigit_append (collapse Char.isAlphanum false cs) []
  rw [List.append_nil, List.append_nil] at hfront
  rw [memberChars, hfront, hkept, filter_collapse (by decide)]

theorem head?_memberChars_iff (cs : List Char) :
    (memberChars cs).head? = some '_' ↔ ∃ c, cs.head? = some c ∧ c.isAlpha = false := by
  cases cs with
  | nil => simp [memberChars, collapse, guardDigit]
  | cons c cs =>
    rw [memberChars]
    cases hc : c.isAlphanum with
    | true =>
      rw [collapse_kept hc, guardDigit]
      have hu := ne_underscore_of_isAlphanum hc
      cases hd : c.isDigit with
      | true =>
        have hnot : c.isAlpha = false := by
          rw [Bool.eq_false_iff]
          intro ha
          exact absurd hd (by have := not_leading_of_isAlpha ha; simp_all)
        simp [hnot]
      | false =>
        have ha : c.isAlpha = true := by simpa [Char.isAlphanum, hd] using hc
        simp [ha, hu]
    | false =>
      have ha : c.isAlpha = false := by
        rw [Char.isAlphanum, Bool.or_eq_false_iff] at hc
        exact hc.1
      rw [collapse, hc]
      simp [guardDigit, isDigit_underscore, ha]

theorem getLast?_memberChars_iff (cs : List Char) :
    (memberChars cs).getLast? = some '_' ↔ ∃ c, cs.getLast? = some c ∧ c.isAlphanum = false := by
  rw [memberChars, getLast?_guardDigit, getLast?_collapse, Option.map_eq_some_iff]
  refine exists_congr fun c => and_congr_right fun _ => ?_
  cases hc : c.isAlphanum with
  | true => simp [ne_underscore_of_isAlphanum hc]
  | false => simp

/-- Two letters or digits with nothing but other characters between them. -/
theorem exists_between_memberChars {before gap behind : List Char} {x y : Char}
    (hx : x.isAlphanum = true) (hy : y.isAlphanum = true)
    (hgap : ∀ c ∈ gap, c.isAlphanum = false) :
    ∃ before' behind', memberChars (before ++ x :: (gap ++ y :: behind))
        = before' ++ x :: ((if gap = [] then [] else ['_']) ++ y :: behind')
      ∧ before'.filter Char.isAlphanum = before.filter Char.isAlphanum
      ∧ behind'.filter Char.isAlphanum = behind.filter Char.isAlphanum := by
  have hu : Char.isAlphanum '_' = false := by decide
  obtain ⟨front, hfront, hkept⟩ := exists_guardDigit_append (collapse Char.isAlphanum false before)
    (x :: ((if gap = [] then [] else ['_']) ++ y :: collapse Char.isAlphanum false behind))
  refine ⟨front, collapse Char.isAlphanum false behind, ?_, hkept.trans (filter_collapse hu _ _),
    filter_collapse hu _ _⟩
  rw [memberChars, collapse_append, collapse_kept hx, collapse_append, collapse_gap hgap,
    collapse_kept hy, hfront]

theorem madeMember_memberChars (cs : List Char) : MadeMember cs (memberChars cs) where
  empty := memberChars_eq_nil_iff
  shape := isMemberName_memberChars cs
  kept := filter_memberChars cs
  between := by
    rintro before x gap y behind rfl hx hy hgap
    exact exists_between_memberChars hx hy hgap
  front := head?_memberChars_iff cs
  back := getLast?_memberChars_iff cs

/-- A name ends inside a run when the text it is made of does. -/
theorem endsInRun_memberChars (cs : List Char) :
    endsInRun Char.isAlphanum false (memberChars cs) = endsInRun Char.isAlphanum false cs := by
  unfold endsInRun
  rw [memberChars, getLast?_guardDigit, getLast?_collapse]
  cases cs.getLast? with
  | none => rfl
  | some c => cases hc : c.isAlphanum <;> simp [hc]

/-- A name is not given another underscore in front. -/
theorem guardDigit_eq_self {cs : List Char} (h : startsWithDigit cs = false) :
    guardDigit cs = cs := by
  cases cs with
  | nil => rfl
  | cons c cs => rw [guardDigit, if_neg (by simpa [startsWithDigit] using h)]

/-- **A name may be made of a name and what follows it.** -/
theorem memberChars_append (a b : List Char) :
    memberChars (memberChars a ++ b) = memberChars (a ++ b) := by
  by_cases ha : a = []
  · rw [ha]
    rfl
  have hshape := isMemberName_memberChars a
  simp only [isMemberName, Bool.and_eq_true, Bool.not_eq_true'] at hshape
  have hself : collapse Char.isAlphanum false (memberChars a) = memberChars a :=
    collapse_alphanum_eq_self hshape.1.1 hshape.1.2 false (by simp)
  calc memberChars (memberChars a ++ b)
      = guardDigit (memberChars a
          ++ collapse Char.isAlphanum (endsInRun Char.isAlphanum false a) b) := by
        rw [memberChars, collapse_append, hself, endsInRun_memberChars]
    _ = guardDigit (collapse Char.isAlphanum false a)
          ++ collapse Char.isAlphanum (endsInRun Char.isAlphanum false a) b := by
        rw [guardDigit_append fun he => ha (memberChars_eq_nil_iff.mp he),
          guardDigit_eq_self hshape.2, memberChars]
    _ = memberChars (a ++ b) := by
        rw [memberChars, collapse_append,
          guardDigit_append fun he => ha (collapse_eq_nil_iff.mp he)]

theorem memberName_eq_self_iff (text : String) :
    memberName text = text ↔ isMemberName text.toList = true := by
  constructor
  · intro h
    rw [← h, toList_memberName]
    exact isMemberName_memberChars _
  · intro h
    rw [memberName, memberChars_eq_self h, String.ofList_toList]

/--
**A member name in full.** What is made of a text has its letters and digits, and one underscore
for all else between them, at the front and at the end. A text is left as it is exactly when it has
the shape of a name, and it makes no difference whether a part of a text was made a name before.
-/
theorem memberName_in_full : (∀ text, MadeMember text.toList (memberName text).toList)
    ∧ (∀ text, memberName text = text ↔ isMemberName text.toList = true)
    ∧ (∀ text, memberName (memberName text) = memberName text)
    ∧ ∀ a b, memberName (memberName a ++ b) = memberName (a ++ b) := by
  have happend : ∀ a b, memberName (memberName a ++ b) = memberName (a ++ b) := by
    intro a b
    show String.ofList (memberChars (memberName a ++ b).toList)
      = String.ofList (memberChars (a ++ b).toList)
    rw [String.toList_append, String.toList_append, toList_memberName, memberChars_append]
  refine ⟨fun text => ?_, memberName_eq_self_iff, fun text => ?_, happend⟩
  · rw [toList_memberName]
    exact madeMember_memberChars _
  · rw [memberName_eq_self_iff, toList_memberName]
    exact isMemberName_memberChars _

example : memberName "2nd, and last!" = "_2nd_and_last_" := by cbv

/-! ## Type names -/

/-- **A type name begins at the first letter.** No run reaches across it, and all in front of it
comes to digits and underscores. -/
theorem typeChars_eq (cs : List Char) :
    typeChars cs = bridged isWord (cs.dropWhile fun c => !c.isAlpha) := by
  have hfront : ∀ c ∈ collapse isWord false (cs.takeWhile fun c => !c.isAlpha),
      (c.isDigit || c == '_') = true := by
    intro c hc
    rcases of_mem_collapse hc with ⟨hword, hmem⟩ | rfl
    · have hnot : c.isAlpha = false := by simpa using List.mem_takeWhile_imp hmem
      simpa [isWord, Char.isAlphanum, hnot] using hword
    · rfl
  rw [← collapse_eq_bridged, typeChars]
  conv_lhs => rw [← List.takeWhile_append_dropWhile (p := fun c => !c.isAlpha) (l := cs)]
  rw [collapse_append, List.dropWhile_append_of_pos hfront]
  cases hrest : cs.dropWhile fun c => !c.isAlpha with
  | nil => rfl
  | cons c rest =>
    have hletter : c.isAlpha = true := by simpa using dropWhile_head hrest
    have hword : isWord c = true := isWord_of_isAlphanum (by simp [Char.isAlphanum, hletter])
    rw [collapse_kept hword, collapse_kept hword, List.dropWhile_cons,
      not_leading_of_isAlpha hletter]
    simp

theorem toList_typeName (text : String) : (typeName text).toList = typeChars text.toList :=
  String.toList_ofList

/-- A text has no type name when it has no letter. -/
theorem typeName_eq_empty_iff (text : String) :
    typeName text = "" ↔ ∀ c ∈ text.toList, c.isAlpha = false := by
  constructor
  · intro h c hc
    by_contra hletter
    exact typeName_ne_empty hc (by simpa using hletter) h
  · intro h
    have hnone : text.toList.dropWhile (fun c => !c.isAlpha) = [] :=
      List.dropWhile_eq_nil_iff.mpr fun c hc => by simp [h c hc]
    rw [← String.toList_eq_nil_iff, toList_typeName, typeChars_eq, hnone]
    rfl

theorem typeName_eq_self_iff (text : String) :
    typeName text = text ↔ isTypeName text.toList = true := by
  constructor
  · intro h
    rw [← h, toList_typeName]
    exact isTypeName_typeChars _
  · intro h
    rw [typeName, typeChars_eq_self h, String.ofList_toList]

/-- A type name is a member name as well unless two underscores stand side by side in it. -/
theorem isMemberName_of_isTypeName {cs : List Char} (h : isTypeName cs = true) :
    isMemberName cs = true ↔ hasDoubleUnderscore cs = false := by
  have hword : cs.all isWord = true := by
    cases cs with
    | nil => rfl
    | cons c cs =>
      rw [isTypeName, Bool.and_eq_true] at h
      rw [List.all_cons, isWord_of_isAlphanum (by simp [Char.isAlphanum, h.1]), h.2]
      rfl
  have hdigit : startsWithDigit cs = false := by
    cases cs with
    | nil => rfl
    | cons c cs =>
      rw [isTypeName, Bool.and_eq_true] at h
      have hc := not_leading_of_isAlpha h.1
      rw [Bool.or_eq_false_iff] at hc
      exact hc.1
  simp [isMemberName, hword, hdigit]

end EnumDecl.Identifier

namespace EnumDecl

open Identifier

/-- What a text comes to as a type name, and where it is the name of an enumeration. -/
structure MadeType (text : String) : Prop where
  /-- There is no name without a letter. -/
  empty : typeName text = "" ↔ ∀ c ∈ text.toList, c.isAlpha = false
  /-- An enumeration is refused for want of a name when it is to be named by such a text. -/
  refused : ∀ d : Declaration, d.name.bare = .text text →
    (Enumeration.declare d = .error (.unusableName text .enumeration)
      ↔ ∀ c ∈ text.toList, c.isAlpha = false)
  /-- And it is declared under the name otherwise. -/
  declared : ∀ d : Declaration, d.name.bare = .text text → (∃ c ∈ text.toList, c.isAlpha = true) →
    ∃ e, Enumeration.declare d = .ok e ∧ e.name = typeName text
  /-- The name begins at the first letter and has one underscore for each run of other
  characters. -/
  made : (typeName text).toList = bridged isWord (text.toList.dropWhile fun c => !c.isAlpha)
  /-- It is the name of a member too when no two underscores stand side by side in it. -/
  member : memberName (typeName text) = typeName text
    ↔ hasDoubleUnderscore (typeName text).toList = false

theorem Enumeration.declare_text {d : Declaration} {text : String} (h : d.name.bare = .text text) :
    declare d = if typeName text = "" then .error (.unusableName text .enumeration)
      else .ok ⟨typeName text, d.container, d.noValue.markedBy .sentinel, d.autoResolve,
        d.attemptCap, [], [], []⟩ := by
  rw [declare, h]

/--
**A type name in full.** What is made of a text is what follows its first letter, runs of other
characters collapsed; a text without a letter names nothing. A text is left as it is exactly when
it is empty or has the shape of a type name.
-/
theorem typeName_in_full : (∀ text, MadeType text)
    ∧ (∀ text, typeName text = text ↔ isTypeName text.toList = true)
    ∧ ∀ text, typeName (typeName text) = typeName text := by
  refine ⟨fun text => ?_, typeName_eq_self_iff, typeName_typeName⟩
  have hempty := typeName_eq_empty_iff text
  refine ⟨hempty, fun d hd => ?_, ?_, ?_, ?_⟩
  · rw [Enumeration.declare_text hd, ← hempty]
    by_cases h : typeName text = ""
    · simp [h]
    · simp [h]
  · rintro d hd ⟨c, hc, hletter⟩
    rw [Enumeration.declare_text hd, if_neg (typeName_ne_empty hc hletter)]
    exact ⟨_, rfl, rfl⟩
  · rw [toList_typeName, typeChars_eq]
  · rw [memberName_eq_self_iff]
    exact isMemberName_of_isTypeName (by rw [toList_typeName]; exact isTypeName_typeChars _)

example : typeName "_2. Web  Colors_" = "Web_Colors_" := by cbv

end EnumDecl
