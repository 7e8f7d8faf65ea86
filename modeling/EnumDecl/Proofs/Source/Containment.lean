import EnumDecl.Proofs.Invariant
import EnumDecl.Proofs.Source.Layout
import EnumDecl.Proofs.Source.Literal

/-!
# A text stays inside its literal

Any text at all may be the argument of an annotation. Whatever it is, the source text falls apart
into characters and string literals, the literals are those texts in their order, and what stands
around them would be the same for other texts (`pieces?_render`).

Both halves are one statement about two enumerations that differ in such texts only. Their source
texts are compared piece by piece (`ReadAlike`): a character outside of literals stands in both, a
literal in one faces a literal in the other, and nothing else is a piece. The first half is the
case that the two are the same. No other spelling may have a quote, which is assumed of the names
and namespaces that are written as they are given (`QuoteFree`), and holds of identifiers and
numbers.
-/

namespace EnumDecl.Source

open Enumeration Identifier

/-! ## Texts with literals in the same places -/

/-- Two texts with the same pieces but for what their literals stand for. -/
def ReadAlike (t u : List Char) (xs ys : List (List Char)) : Prop :=
  ∃ ps qs, MadeOf t ps ∧ MadeOf u qs ∧ stringTexts ps = xs ∧ stringTexts qs = ys ∧
    withoutTexts ps = withoutTexts qs

namespace ReadAlike

theorem outside {cs : List Char} (h : '\x22' ∉ cs) : ReadAlike cs cs [] [] := by
  have htexts : stringTexts (cs.map .outside) = [] := by
    rw [stringTexts, List.filterMap_map]
    exact List.filterMap_eq_nil_iff.mpr fun c _ => rfl
  exact ⟨_, _, .outside h, .outside h, htexts, htexts, rfl⟩

theorem string (text other : List Char) :
    ReadAlike (stringChars text) (stringChars other) [text] [other] :=
  ⟨_, _, .string text, .string other, rfl, rfl, rfl⟩

theorem append {t u v w : List Char} {xs ys xs' ys' : List (List Char)} (h : ReadAlike t u xs ys)
    (k : ReadAlike v w xs' ys') : ReadAlike (t ++ v) (u ++ w) (xs ++ xs') (ys ++ ys') := by
  obtain ⟨ps, qs, hp, hq, rfl, rfl, hsame⟩ := h
  obtain ⟨ps', qs', hp', hq', rfl, rfl, hsame'⟩ := k
  refine ⟨ps ++ ps', qs ++ qs', hp.append hp', hq.append hq', List.filterMap_append,
    List.filterMap_append, ?_⟩
  unfold withoutTexts at hsame hsame' ⊢
  rw [List.map_append, List.map_append, hsame, hsame']

/-- The same characters may stand around both texts. -/
theorem between {before after t u : List Char} {xs ys : List (List Char)} (hb : '\x22' ∉ before)
    (ha : '\x22' ∉ after) (h : ReadAlike t u xs ys) :
    ReadAlike (before ++ (t ++ after)) (before ++ (u ++ after)) xs ys := by
  have hall := (outside hb).append (h.append (outside ha))
  rw [List.append_nil, List.append_nil] at hall
  exact hall

end ReadAlike

/-- Two lists of lines that read alike as texts. -/
def LinesAlike (ls ks : List String) (xs ys : List (List Char)) : Prop :=
  ReadAlike (unlines ls).toList (unlines ks).toList xs ys

namespace LinesAlike

theorem append {ls ks ls' ks' : List String} {xs ys xs' ys' : List (List Char)}
    (h : LinesAlike ls ks xs ys) (k : LinesAlike ls' ks' xs' ys') :
    LinesAlike (ls ++ ls') (ks ++ ks') (xs ++ xs') (ys ++ ys') := by
  unfold LinesAlike
  rw [unlines_append, unlines_append, String.toList_append, String.toList_append]
  exact ReadAlike.append h k

/-- Lines without quotes are alike. -/
theorem same {ls : List String} (h : ∀ line ∈ ls, '\x22' ∉ line.toList) :
    LinesAlike ls ls [] [] := by
  refine .outside fun hmem => ?_
  rw [toList_unlines] at hmem
  obtain ⟨line, hline, hc⟩ := List.mem_flatMap.mp hmem
  rcases List.mem_append.mp hc with hc | hc
  · exact h line hline hc
  · exact absurd hc (by decide)

theorem line {pad s t : String} {xs ys : List (List Char)} (hpad : '\x22' ∉ pad.toList)
    (h : ReadAlike s.toList t.toList xs ys) : LinesAlike [pad ++ s] [pad ++ t] xs ys := by
  unfold LinesAlike
  rw [toList_unlines, toList_unlines, List.flatMap_singleton, List.flatMap_singleton,
    String.toList_append, String.toList_append, List.append_assoc, List.append_assoc]
  exact h.between hpad (by decide)

end LinesAlike

/-! ## Literal texts -/

theorem literalString?_eq_some_iff {a : Argument} {s : String} :
    literalString? a = some s ↔ ∃ v, a = .literal v ∧ v.bare = .text s := by
  constructor
  · intro h
    unfold literalString? at h
    split at h
    · rename_i v
      split at h
      · rename_i s' hv
        cases h
        exact ⟨v, rfl, hv⟩
      · exact absurd h (by simp)
    · exact absurd h (by simp)
  · rintro ⟨v, rfl, hv⟩
    simp [literalString?, hv]

theorem hideString_of_none {a : Argument} (h : literalString? a = none) : hideString a = a := by
  unfold hideString
  split
  · rename_i v
    split
    · rename_i s hv
      rw [literalString?_eq_some_iff.mpr ⟨v, rfl, hv⟩] at h
      exact absurd h (by simp)
    · rfl
  · rfl

theorem hideString_of_some {a : Argument} {s : String} (h : literalString? a = some s) :
    hideString a = .literal (.text "") := by
  obtain ⟨v, rfl, hv⟩ := literalString?_eq_some_iff.mp h
  simp [hideString, hv]

/-- Arguments that differ in a literal text only are the same one or both such texts. -/
theorem hideString_eq_cases {a b : Argument} (h : hideString a = hideString b) :
    (a = b ∧ literalString? a = none) ∨
      ∃ s t, literalString? a = some s ∧ literalString? b = some t := by
  cases ha : literalString? a with
  | none =>
    cases hb : literalString? b with
    | none =>
      rw [hideString_of_none ha, hideString_of_none hb] at h
      exact Or.inl ⟨h, rfl⟩
    | some t =>
      rw [hideString_of_none ha, hideString_of_some hb] at h
      rw [h] at ha
      exact absurd ha (by simp [literalString?, Value.bare])
  | some s =>
    cases hb : literalString? b with
    | none =>
      rw [hideString_of_some ha, hideString_of_none hb] at h
      rw [← h] at hb
      exact absurd hb (by simp [literalString?, Value.bare])
    | some t => exact Or.inr ⟨s, t, rfl, rfl⟩

theorem argumentText_of_literalString {a : Argument} {s : String} (h : literalString? a = some s) :
    argumentText a = .ok (stringLiteral s) := by
  obtain ⟨v, rfl, hv⟩ := literalString?_eq_some_iff.mp h
  refine argumentText_eq_ok_iff.mpr (.literal ?_)
  rw [hv]
  exact .text s

/-- The literal texts of annotations in order. -/
def textsOf (as : List Annotation) : List (List Char) :=
  (as.filterMap fun a => literalString? a.argument).map String.toList

theorem textsOf_singleton (a : Annotation) :
    textsOf [a] = (literalString? a.argument).toList.map String.toList := by
  unfold textsOf
  rw [List.filterMap_cons]
  cases literalString? a.argument <;> rfl

theorem textsOf_append (as bs : List Annotation) :
    textsOf (as ++ bs) = textsOf as ++ textsOf bs := by
  simp [textsOf]

/-! ## Where no quote stands -/

/-- No quote is in a value as it is written. -/
def QuoteFree (v : Value) : Prop := '\x22' ∉ v.plain.toList

instance (v : Value) : Decidable (QuoteFree v) := inferInstanceAs (Decidable (¬ _))

/-- No quote is in what an annotation refers to. -/
structure QuoteFreeReferences (a : Annotation) : Prop where
  type : QuoteFree a.type.name
  container : QuoteFree a.type.container
  constant : ∀ n o, a.argument = .constant n o → QuoteFree n ∧ QuoteFree o

/-- No quote is in the namespaces of an enumeration nor in what its annotations refer to, and its
numbers are numbers. -/
structure QuoteFreeAround (e : Enumeration) : Prop where
  container : QuoteFree e.container
  annotations : ∀ a ∈ allAnnotations e, QuoteFreeReferences a
  numbers : ∀ m ∈ e.members, e.isNoValue m.value = false →
    (∃ i, m.value.bare = .int i) ∨ ∃ b, m.value.bare = .bool b

/-! ## Where no mark stands -/

theorem quote_mem_marks : '\x22' ∈ marks := List.mem_cons_self

/-- No mark is a part of a word, nor a sign or a point in a number, nor white space. -/
theorem not_written_of_mem_marks {c : Char} (h : c ∈ marks) :
    isWord c = false ∧ c ≠ '@' ∧ isLiteralChar c = false ∧ isIndent c = false := by
  have hall : (marks.all fun c => !isWord c && c != '@' && !isLiteralChar c && !isIndent c)
    = true := by
    decide
  have hc := List.all_eq_true.mp hall c h
  simpa only [Bool.and_eq_true, Bool.not_eq_true', bne_iff_ne, and_assoc] using hc

section

variable {c : Char} (hc : c ∈ marks)

include hc

theorem mark_not_mem_nameText {s : String} (h : c ∉ s.toList) : c ∉ (nameText s).toList := by
  intro hmem
  rcases mem_nameText hmem with hmem | he
  · exact h hmem
  · exact (not_written_of_mem_marks hc).2.1 he

theorem mark_not_mem_identifier {s : String} (h : isIdentifierChars s.toList = true) :
    c ∉ (nameText s).toList :=
  not_mem_nameText h (not_written_of_mem_marks hc).1 (not_written_of_mem_marks hc).2.1

theorem mark_not_mem_nameOf {v : Value} (hv : c ∉ v.plain.toList) {t : String}
    (h : nameOf v = .ok t) :
    c ∉ t.toList := by
  obtain ⟨s, hs, rfl⟩ := nameOf_eq_ok_iff.mp h
  rw [plain_of_bare_text hs] at hv
  exact mark_not_mem_nameText hc hv

/-- An argument that is no literal text has no mark. -/
theorem mark_not_mem_argument {a : Argument} {t : String} (h : argumentText a = .ok t)
    (hs : literalString? a = none)
    (hq : ∀ n o, a = .constant n o → c ∉ n.plain.toList ∧ c ∉ o.plain.toList) : c ∉ t.toList := by
  have hliteral := (not_written_of_mem_marks hc).2.2.1
  cases argumentText_eq_ok_iff.mp h with
  | @literal v _ hl =>
    intro hmem
    refine absurd (hl.isLiteralChar (fun s hv => ?_) hmem) (by simp [hliteral])
    rw [literalString?_eq_some_iff.mpr ⟨v, rfl, hv⟩] at hs
    exact absurd hs (by simp)
  | @constant n o s hn ho =>
    have hname := (hq n o rfl).1
    rw [plain_of_bare_text hn] at hname
    exact mark_not_mem_nameText hc hname
  | @owned n o s p hn ho hp =>
    obtain ⟨hname, howner⟩ := hq n o rfl
    rw [plain_of_bare_text hn] at hname
    rw [plain_of_bare_text ho] at howner
    have hpoint : c ≠ '.' := by
      rintro rfl
      exact absurd hliteral (by decide)
    simp [mark_not_mem_nameText hc hname, mark_not_mem_nameText hc howner, hpoint]

theorem mark_not_mem_number {noValue : Value} {m : Member} {n : String}
    (hm : m.value.eqv noValue = false → (∃ i, m.value.bare = .int i) ∨ ∃ b, m.value.bare = .bool b)
    (h : numberText noValue m = .ok (some n)) : c ∉ n.toList := by
  obtain ⟨hword, -, hliteral, -⟩ := not_written_of_mem_marks hc
  obtain ⟨hexplicit, hn⟩ := numberText_eq_some_iff.mp h
  rw [plainText_eq_ok hn]
  rcases hm hexplicit with ⟨i, hi⟩ | ⟨b, hb⟩
  · rw [plain_of_bare_int hi, Decimal.ofInt, String.toList_ofList]
    exact fun hmem => absurd (isLiteralChar_of_mem_intDigits hmem) (by simp [hliteral])
  · rw [plain_of_bare_bool hb]
    have hwords : ∀ b, isIdentifierChars (Value.boolText b).toList = true := by decide
    exact not_mem_identifier (hwords b) hword

theorem mark_not_mem_pad {l : Layout} (hl : l.IsBlank) (depth : Nat) : c ∉ (l.pad depth).toList :=
  fun hmem => absurd (isIndent_of_mem_pad hl hmem) (by simp [(not_written_of_mem_marks hc).2.2.2])

theorem mark_not_mem_declaration {m : MemberOutline} (hname : c ∉ m.name.toList)
    (hnumber : ∀ n ∈ m.number, c ∉ n.toList) : c ∉ m.declaration.toList := by
  have hfixed : (marks.all fun c => c != ' ' && c != '=' && c != ',') = true := by decide
  have hc := List.all_eq_true.mp hfixed c hc
  simp only [Bool.and_eq_true, bne_iff_ne] at hc
  rw [toList_declaration]
  cases hn : m.number with
  | none => simp [hname, hc]
  | some n => simp [hname, hnumber n hn, hc]

end

/-! ## Annotations and members -/

theorem argument_alike {a b : Argument} (h : hideString a = hideString b)
    (hq : ∀ n o, a = .constant n o → QuoteFree n ∧ QuoteFree o) {t : String}
    (ht : argumentText a = .ok t) :
    ∃ u, argumentText b = .ok u ∧ ReadAlike t.toList u.toList
      ((literalString? a).toList.map String.toList)
      ((literalString? b).toList.map String.toList) := by
  rcases hideString_eq_cases h with ⟨rfl, hnone⟩ | ⟨r, s, ha, hb⟩
  · rw [hnone]
    exact ⟨t, ht, .outside (mark_not_mem_argument quote_mem_marks ht hnone hq)⟩
  · rw [argumentText_of_literalString ha] at ht
    cases ht
    rw [ha, hb, stringLiteral, String.toList_ofList]
    refine ⟨_, argumentText_of_literalString hb, ?_⟩
    rw [stringLiteral, String.toList_ofList]
    exact .string _ _

/-- An annotation with the contents of a literal text left out. -/
def hideIn (a : Annotation) : Annotation := { a with argument := hideString a.argument }

theorem annotation_alike {a b : Annotation} (h : hideIn a = hideIn b) (hq : QuoteFreeReferences a)
    {p : AnnotationOutline} (hp : annotationOutline a = .ok p) :
    ∃ q, annotationOutline b = .ok q ∧ ReadAlike p.text.toList q.text.toList (textsOf [a])
      (textsOf [b]) := by
  obtain ⟨htype, hargument⟩ := Annotation.mk.inj h
  obtain ⟨hpa, hpt⟩ := annotationOutline_eq_ok_iff.mp hp
  obtain ⟨u, hu, halike⟩ := argument_alike hargument hq.constant hpa
  refine ⟨⟨p.type, u⟩, annotationOutline_eq_ok_iff.mpr ⟨hu, htype ▸ hpt⟩, ?_⟩
  have hbefore : '\x22' ∉ '[' :: (p.type.toList ++ ['(']) := by
    simp [mark_not_mem_nameOf quote_mem_marks hq.type hpt]
  have hafter : '\x22' ∉ [')', ']'] := by decide
  have hall := halike.between hbefore hafter
  rw [toList_annotationText, toList_annotationText, textsOf_singleton, textsOf_singleton]
  simpa [List.append_assoc] using hall

theorem annotations_alike {as bs : List Annotation} (h : as.map hideIn = bs.map hideIn)
    (hq : ∀ a ∈ as, QuoteFreeReferences a) {ps : List AnnotationOutline}
    (hps : List.Forall₂ (fun a p => annotationOutline a = .ok p) as ps) :
    ∃ qs, List.Forall₂ (fun b q => annotationOutline b = .ok q) bs qs ∧
      ∀ pad : String, '\x22' ∉ pad.toList →
        LinesAlike (ps.map (pad ++ ·.text)) (qs.map (pad ++ ·.text)) (textsOf as)
        (textsOf bs) := by
  induction hps generalizing bs with
  | nil =>
    rw [List.map_nil, eq_comm, List.map_eq_nil_iff] at h
    subst h
    exact ⟨[], .nil, fun pad _ => .same (by simp)⟩
  | @cons a p as ps hp _ ih =>
    obtain ⟨b, bs, rfl, hb, hbs⟩ := List.map_eq_cons_iff.mp h.symm
    obtain ⟨q, hq', halike⟩ := annotation_alike hb.symm (hq a List.mem_cons_self) hp
    obtain ⟨qs, hqs, hrest⟩ := ih hbs.symm fun x hx => hq x (List.mem_cons_of_mem _ hx)
    refine ⟨q :: qs, .cons hq' hqs, fun pad hpad => ?_⟩
    have hlines := (LinesAlike.line hpad halike).append (hrest pad hpad)
    rw [← textsOf_append, ← textsOf_append] at hlines
    exact hlines

/-- What is assumed of a member of an enumeration around which no quote stands. -/
structure QuoteFreeMember (noValue : Value) (m : Member) : Prop where
  name : isIdentifierChars m.name.toList = true
  annotations : ∀ a ∈ m.annotations, QuoteFreeReferences a
  number : m.value.eqv noValue = false →
    (∃ i, m.value.bare = .int i) ∨ ∃ b, m.value.bare = .bool b

theorem member_alike {noValue : Value} {m n : Member} (h : hideStrings m = hideStrings n)
    (hq : QuoteFreeMember noValue m) {p : MemberOutline} (hp : memberOutline noValue m = .ok p) :
    ∃ q, memberOutline noValue n = .ok q ∧ ∀ pad : String, '\x22' ∉ pad.toList →
      LinesAlike (p.texts.map (pad ++ ·)) (q.texts.map (pad ++ ·)) (textsOf m.annotations)
        (textsOf n.annotations) := by
  obtain ⟨hname, hvalue, hannotations⟩ := Member.mk.inj h
  have hp' := memberOutline_eq_ok_iff.mp hp
  obtain ⟨qs, hqs, halike⟩ := annotations_alike hannotations hq.annotations hp'.annotations
  have hnumber := hp'.number
  have hdeclaration : '\x22' ∉ p.declaration.toList := by
    refine mark_not_mem_declaration quote_mem_marks ?_ fun k hk => ?_
    · rw [hp'.name]
      exact mark_not_mem_identifier quote_mem_marks hq.name
    · rw [Option.mem_def] at hk
      rw [hk] at hnumber
      exact mark_not_mem_number quote_mem_marks hq.number hnumber
  refine ⟨⟨qs, p.name, p.number⟩, memberOutline_eq_ok_iff.mpr ⟨hqs, hname ▸ hp'.name, ?_⟩,
    fun pad hpad => ?_⟩
  · rw [← hnumber, numberText, numberText, Member.hasExplicitValue,
      Member.hasExplicitValue, hvalue]
  · have hlines := (halike pad hpad).append
      (.line hpad (.outside hdeclaration))
    rw [List.append_nil, List.append_nil] at hlines
    unfold MemberOutline.texts
    rw [List.map_append, List.map_append, List.map_map, List.map_map]
    exact hlines

theorem members_alike {noValue : Value} {ms ns : List Member}
    (h : ms.map hideStrings = ns.map hideStrings) (hq : ∀ m ∈ ms, QuoteFreeMember noValue m)
    {ps : List MemberOutline}
    (hps : List.Forall₂ (fun m p => memberOutline noValue m = .ok p) ms ps) :
    ∃ qs, List.Forall₂ (fun n q => memberOutline noValue n = .ok q) ns qs ∧
      ∀ (l : Layout), l.IsBlank → ∀ depth first,
        LinesAlike (memberOutlineLines l depth first ps) (memberOutlineLines l depth first qs)
          (textsOf (ms.flatMap (·.annotations))) (textsOf (ns.flatMap (·.annotations))) := by
  induction hps generalizing ns with
  | nil =>
    rw [List.map_nil, eq_comm, List.map_eq_nil_iff] at h
    subst h
    exact ⟨[], .nil, fun l hl depth first => .same (by simp [memberOutlineLines])⟩
  | @cons m p ms ps hp _ ih =>
    obtain ⟨n, ns, rfl, hn, hns⟩ := List.map_eq_cons_iff.mp h.symm
    obtain ⟨q, hq', halike⟩ := member_alike hn.symm (hq m List.mem_cons_self) hp
    obtain ⟨qs, hqs, hrest⟩ := ih hns.symm fun x hx => hq x (List.mem_cons_of_mem _ hx)
    refine ⟨q :: qs, .cons hq' hqs, fun l hl depth first => ?_⟩
    -- a gap, if there is one, is the same in both
    have hpad := mark_not_mem_pad quote_mem_marks hl depth
    have hgap : LinesAlike (if !first && l.blankLines then [""] else [])
        (if !first && l.blankLines then [""] else []) [] [] := by
      refine .same fun line hline => ?_
      split at hline
      · rw [List.mem_singleton.mp hline]
        decide
      · exact absurd hline (by simp)
    have hlines := (hgap.append (halike _ hpad)).append (hrest l hl depth false)
    rw [List.nil_append, List.nil_append, ← textsOf_append, ← textsOf_append] at hlines
    exact hlines

/-! ## The whole text -/

/-- What is imported depends on the types of annotations only. -/
theorem importsAfter_congr {as bs : List Annotation} (h : as.map hideIn = bs.map hideIn)
    (seen : List Value) : importsAfter seen as = importsAfter seen bs := by
  induction as generalizing bs seen with
  | nil =>
    rw [List.map_nil, eq_comm, List.map_eq_nil_iff] at h
    rw [h]
  | cons a as ih =>
    obtain ⟨b, bs, rfl, hb, hbs⟩ := List.map_eq_cons_iff.mp h.symm
    obtain ⟨htype, -⟩ := Annotation.mk.inj hb
    simp only [importsAfter, htype, ih hbs.symm]

/-- An enumeration that differs from another in the contents of literal texts only. -/
structure SameButTexts (e f : Enumeration) : Prop where
  name : f.name = e.name
  container : f.container = e.container
  noValue : f.noValue = e.noValue
  members : f.members.map hideStrings = e.members.map hideStrings

theorem SameButTexts.annotations {e f : Enumeration} (h : SameButTexts e f) :
    (allAnnotations e).map hideIn = (allAnnotations f).map hideIn := by
  have hmap : ∀ g : Enumeration, (allAnnotations g).map hideIn
      = (g.members.map hideStrings).flatMap (·.annotations) := by
    intro g
    rw [allAnnotations, List.map_flatMap, List.flatMap_map]
    rfl
  rw [hmap, hmap, h.members]

theorem SameButTexts.refl (e : Enumeration) : SameButTexts e e := ⟨rfl, rfl, rfl, rfl⟩

/-- No quote is in what stands around the members. -/
structure Outline.QuoteFree (o : Outline) : Prop where
  container : ∀ c ∈ o.container, '\x22' ∉ c.toList
  imports : ∀ c ∈ o.imports, '\x22' ∉ c.toList
  name : '\x22' ∉ o.name.toList

theorem quote_not_mem_openBlock {l : Layout} (hl : l.IsBlank) (depth : Nat) {header : String}
    (h : '\x22' ∉ header.toList) : ∀ line ∈ l.openBlock depth header, '\x22' ∉ line.toList := by
  have hpad := mark_not_mem_pad quote_mem_marks hl depth
  unfold Layout.openBlock
  cases l.braces with
  | endOfLine => simp [hpad, h]
  | ownLine => simp [hpad, h]

theorem body_alike {o : Outline} (ho : o.QuoteFree) {l : Layout} (hl : l.IsBlank)
    {ps : List MemberOutline} {xs ys : List (List Char)}
    (h : ∀ depth first, LinesAlike (memberOutlineLines l depth first o.members)
      (memberOutlineLines l depth first ps) xs ys) (depth : Nat) :
    LinesAlike (o.bodyLines l depth) ({ o with members := ps }.bodyLines l depth) xs ys := by
  have hpad := mark_not_mem_pad quote_mem_marks hl depth
  have himports : LinesAlike (importOutlineLines l depth o.imports)
      (importOutlineLines l depth o.imports) [] [] := by
    refine .same fun line hline => ?_
    unfold importOutlineLines at hline
    split at hline
    · exact absurd hline (by simp)
    · rcases List.mem_append.mp hline with hline | hline
      · obtain ⟨c, hc, rfl⟩ := List.mem_map.mp hline
        simp [importText, hpad, ho.imports c hc]
      · rw [List.mem_singleton.mp hline]
        decide
  have hopen : LinesAlike (l.openBlock depth ("public enum " ++ o.name))
      (l.openBlock depth ("public enum " ++ o.name)) [] [] :=
    .same (quote_not_mem_openBlock hl depth (by simp [ho.name]))
  have hclose : LinesAlike [l.closeBlock depth] [l.closeBlock depth] [] [] :=
    .same (by simp [Layout.closeBlock, hpad])
  have hbody := himports.append ((hopen.append (h (depth + 1) true)).append hclose)
  rw [List.nil_append, List.nil_append, List.append_nil, List.nil_append, List.nil_append,
    List.append_nil] at hbody
  exact hbody

theorem lines_alike {o : Outline} (ho : o.QuoteFree) {l : Layout} (hl : l.IsBlank)
    {ps : List MemberOutline} {xs ys : List (List Char)}
    (h : ∀ depth first, LinesAlike (memberOutlineLines l depth first o.members)
      (memberOutlineLines l depth first ps) xs ys) :
    LinesAlike (o.lines l) ({ o with members := ps }.lines l) xs ys := by
  unfold Outline.lines
  cases hc : o.container with
  | none => exact body_alike ho hl h 0
  | some c =>
    have hpad := mark_not_mem_pad quote_mem_marks hl 0
    have hopen : LinesAlike (l.openBlock 0 ("namespace " ++ c)) (l.openBlock 0 ("namespace " ++ c))
        [] [] :=
      .same (quote_not_mem_openBlock hl 0 (by simp [ho.container c hc]))
    have hclose : LinesAlike [l.closeBlock 0] [l.closeBlock 0] [] [] :=
      .same (by simp [Layout.closeBlock, hpad])
    have hlines := (hopen.append (body_alike ho hl h 1)).append hclose
    rw [List.nil_append, List.append_nil, List.nil_append, List.append_nil] at hlines
    exact hlines

theorem quoteFree_outline {e : Enumeration} (h : Sound e) (hq : QuoteFreeAround e) {o : Outline}
    (ho : Outlines e o) : o.QuoteFree where
  container := by
    intro c hc
    have hcontainer := ho.container
    rw [Option.mem_def] at hc
    rw [hc] at hcontainer
    rw [plainText_eq_ok (containerText_eq_some_iff.mp hcontainer).2]
    exact hq.container
  imports := by
    intro c hc
    obtain ⟨v, hv, ht⟩ := exists_of_forall₂ ho.imports hc
    rw [plainText_eq_ok ht]
    rcases mem_importsAfter hv with hv | ⟨a, ha, rfl⟩
    · exact absurd hv (by simp)
    · exact (hq.annotations a ha).container
  name := by
    rw [ho.name]
    exact mark_not_mem_identifier quote_mem_marks h.isIdentifierChars_name

/-- Enumerations that differ in literal texts only are rendered alike, if at all. -/
theorem render_alike {e f : Enumeration} (h : Sound e) (hq : QuoteFreeAround e)
    (hf : SameButTexts e f) {l : Layout} (hl : l.IsBlank) {text : String}
    (hr : render e l = .ok text) :
    ∃ other, render f l = .ok other ∧ ReadAlike text.toList other.toList
      ((literalStrings e).map String.toList) ((literalStrings f).map String.toList) := by
  obtain ⟨o, ho, rfl⟩ := render_eq_ok_iff.mp hr
  have hs := outline_eq_ok_iff.mp ho
  have hmember : ∀ m ∈ e.members, QuoteFreeMember e.noValue m := fun m hm =>
    ⟨h.isIdentifierChars_member hm,
      fun a ha => hq.annotations a (List.mem_flatMap.mpr ⟨m, hm, ha⟩), hq.numbers m hm⟩
  obtain ⟨ps, hps, halike⟩ := members_alike hf.members.symm hmember hs.members
  have hf' : Outlines f { o with members := ps } := by
    refine ⟨?_, ?_, ?_, ?_⟩
    · rw [← hs.container, containerText, containerText, hf.container]
    · rw [imports, ← importsAfter_congr hf.annotations]
      exact hs.imports
    · rw [hf.name]
      exact hs.name
    · rw [hf.noValue]
      exact hps
  exact ⟨_, render_eq_ok_iff.mpr ⟨_, outline_eq_ok_iff.mpr hf', rfl⟩,
    lines_alike (quoteFree_outline h hq hs) hl (halike l hl)⟩

/--
**A text stays inside its literal.** Where the names and namespaces that an enumeration refers to
have no quotes, its source text falls apart into characters and string literals that are the
literal texts of its annotations in their order. With other texts in their place there is a source
text too, and nothing but the literals is different in it.
-/
theorem pieces?_render {e : Enumeration} (h : Reachable e) (hq : QuoteFreeAround e) {l : Layout}
    (hl : l.IsBlank) {text : String} (hr : render e l = .ok text) :
    ∃ ps, pieces? text.toList = some ps ∧
      stringTexts ps = (literalStrings e).map String.toList ∧
      ∀ f, SameButTexts e f → ∃ other qs, render f l = .ok other ∧
        pieces? other.toList = some qs ∧
        stringTexts qs = (literalStrings f).map String.toList ∧
        withoutTexts qs = withoutTexts ps := by
  have hs := sound_reachable h
  -- the literals of an enumeration are found by comparing it with itself
  obtain ⟨_, _, ps, _, hps, _, htexts, _, _⟩ := render_alike hs hq (.refl e) hl hr
  refine ⟨ps, hps.pieces?_eq, htexts, fun f hf => ?_⟩
  obtain ⟨other, hother, ps', qs, hps', hqs, -, hqtexts, hsame⟩ := render_alike hs hq hf hl hr
  -- a text falls apart in one way only
  have he : ps' = ps := Option.some.inj (hps'.pieces?_eq.symm.trans hps.pieces?_eq)
  subst he
  exact ⟨other, qs, hother, hqs.pieces?_eq, hqtexts, hsame.symm⟩

/-- A text that would close its literal and the block around it, a constant named by reserved
words, and a text in which an end of a line stands between digits. -/
def signEntries : List Entry := [
  ⟨.text "Stop", .int 1, [⟨⟨.text "Note", .text "Zoo.Marks"⟩, .literal (.text "\x22)]\n\x7d\\")⟩]⟩,
  ⟨.text "class", .null, [⟨⟨.text "Kind", .text ""⟩, .constant (.text "true") (.text "bool")⟩,
    ⟨⟨.text "Note", .text "Zoo.Marks"⟩, .literal (.text "0\u20280")⟩]⟩]

def signRequests : List Request := signEntries.map Entry.request

/-- The enumeration that they are asked of. -/
def signs : Enumeration := ⟨"Signs", .text "Zoo", .int (-1), .bool false, .null, [], [], []⟩

theorem allAnnotations_signs : allAnnotations (signs.run signRequests).enumeration
    = signEntries.flatMap (·.annotations) := by cbv

theorem quoteFreeAround_signs : QuoteFreeAround (signs.run signRequests).enumeration := by
  have hvalues : (signs.run signRequests).enumeration.members.map (·.value)
    = [.int 1, .int (-1)] := by
    cbv
  have hcontainer : (signs.run signRequests).enumeration.container = .text "Zoo" := by cbv
  refine ⟨by rw [hcontainer]; decide, fun a ha => ?_, fun m hm _ => ?_⟩
  · rw [allAnnotations_signs] at ha
    simp only [signEntries, List.flatMap_cons, List.flatMap_nil, List.cons_append, List.nil_append,
      List.mem_cons, List.not_mem_nil, or_false] at ha
    rcases ha with rfl | rfl | rfl
    · exact ⟨by decide, by decide, by rintro n o ⟨⟩⟩
    · exact ⟨by decide, by decide, by rintro n o ⟨⟩; decide⟩
    · exact ⟨by decide, by decide, by rintro n o ⟨⟩⟩
  · have hv : m.value ∈ [Value.int 1, .int (-1)] := by
      rw [← hvalues]
      exact List.mem_map_of_mem hm
    simp only [List.mem_cons, List.not_mem_nil, or_false] at hv
    rcases hv with hv | hv
    · exact Or.inl ⟨1, by rw [hv]; rfl⟩
    · exact Or.inl ⟨-1, by rw [hv]; rfl⟩

/-- What is written for them. -/
def signText : String :=
  "namespace Zoo \x7b\n\tusing Zoo.Marks;\n\n\tpublic enum Signs \x7b\n" ++
  "\t\t[Note(\x22\\\x22)]\\n\x7d\\\\\x22)]\n\t\tStop = 1,\n\n" ++
  "\t\t[Kind(@bool.@true)]\n\t\t[Note(\x220\\u20280\x22)]\n\t\t@class,\n\t\x7d\n\x7d\n"

theorem reachable_signs : Reachable (signs.run signRequests).enumeration := by
  have hd : declare ⟨.text "Signs", .text "Zoo", .bool false, .int (-1), .null⟩ = .ok signs := by
    cbv
  exact reachable_run (.declared hd) signRequests

theorem render_signs :
    render (signs.run signRequests).enumeration ⟨.endOfLine, true, "\t"⟩ = .ok signText :=
  eq_ok_of_toOption (by decide +kernel)

theorem pieces?_render_signs : ∃ ps,
    Reachable (signs.run signRequests).enumeration ∧
    render (signs.run signRequests).enumeration ⟨.endOfLine, true, "\t"⟩ = .ok signText ∧
    pieces? signText.toList = some ps ∧
    stringTexts ps = ["\x22)]\n\x7d\\".toList, "0\u20280".toList] ∧
    ∀ f, SameButTexts (signs.run signRequests).enumeration f →
      ∃ other qs, render f ⟨.endOfLine, true, "\t"⟩ = .ok other ∧ pieces? other.toList = some qs ∧
        stringTexts qs = (literalStrings f).map String.toList
        ∧ withoutTexts qs = withoutTexts ps := by
  have hl : Layout.IsBlank ⟨.endOfLine, true, "\t"⟩ := isBlank_of_all (by decide)
  obtain ⟨ps, hps, htexts, hall⟩ :=
    pieces?_render reachable_signs quoteFreeAround_signs hl render_signs
  have hstrings : literalStrings (signs.run signRequests).enumeration
      = ["\x22)]\n\x7d\\", "0\u20280"] := by cbv
  exact ⟨ps, reachable_signs, render_signs, hps, by rw [htexts, hstrings]; rfl, hall⟩

end EnumDecl.Source
