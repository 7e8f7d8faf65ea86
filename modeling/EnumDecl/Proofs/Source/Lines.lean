import EnumDecl.Proofs.Source.Layout

/-!
# The lines of an outline determine it

A line shows by its first character what it is: an import, an annotation, a member, or the head of
a block. Nothing that is spelled on it holds the character that ends it, for which the names on it
have to be names (`MemberOutline.IsNamed`). So the lines without a layout can be cut into the
outline they came from, and two outlines with the same lines are one (`plainLines_inj`).
-/

namespace EnumDecl.Source

/-! ## Cutting at a mark -/

/-- Where two lists are cut at their first item of some kind, one list has one pair of parts. -/
theorem append_cons_inj {α : Type} {p : α → Bool} {xs ys as bs : List α} {a b : α}
    (hxs : ∀ x ∈ xs, p x = true) (ha : p a = false) (hys : ∀ y ∈ ys, p y = true) (hb : p b = false)
    (h : xs ++ a :: as = ys ++ b :: bs) : xs = ys ∧ a :: as = b :: bs := by
  have htake : ∀ {zs cs : List α} {c : α}, (∀ z ∈ zs, p z = true) → p c = false →
      (zs ++ c :: cs).takeWhile p = zs := by
    intro zs cs c hzs hc
    rw [List.takeWhile_append_of_pos hzs, List.takeWhile_cons_of_neg (by simp [hc])]
    exact List.append_nil _
  have hxy : xs = ys := by rw [← htake hxs ha, h, htake hys hb]
  rw [hxy] at h
  exact ⟨hxy, List.append_cancel_left h⟩

/-- Tells whether a line begins with a character. -/
def startsWith (c : Char) (line : String) : Bool := line.toList.head? == some c

/-! ## Lines of members -/

/-- A member's name is a name, and so are the types of its annotations. -/
structure MemberOutline.IsNamed (m : MemberOutline) : Prop where
  name : isNameToken m.name.toList = true
  types : ∀ a ∈ m.annotations, isNameToken a.type.toList = true

theorem annotationText_inj {a b : AnnotationOutline} (ha : isNameToken a.type.toList = true)
    (hb : isNameToken b.type.toList = true) (h : a.text = b.text) : a = b := by
  have hopen : ∀ {cs : List Char}, isNameToken cs = true → ∀ c ∈ cs, (c != '(') = true :=
    fun hcs => bne_of_mem_nameToken hcs (by decide) (by decide)
  have hchars := congrArg String.toList h
  rw [toList_annotationText, toList_annotationText] at hchars
  obtain ⟨htype, hrest⟩ := append_cons_inj (hopen ha) (by decide) (hopen hb) (by decide)
    (List.cons.inj hchars).2
  have hargument := List.append_cancel_right (List.cons.inj hrest).2
  cases a
  cases b
  rw [AnnotationOutline.mk.injEq]
  exact ⟨String.toList_inj.mp htype, String.toList_inj.mp hargument⟩

/-- Behind a name on its line stands a blank or a comma. -/
theorem declaration_inj {m n : MemberOutline} (hm : isNameToken m.name.toList = true)
    (hn : isNameToken n.name.toList = true) (h : m.declaration = n.declaration) :
    m.name = n.name ∧ m.number = n.number := by
  have hend : ∀ {cs : List Char}, isNameToken cs = true →
    ∀ c ∈ cs, (c != ' ' && c != ',') = true := by
    intro cs hcs c hc
    rw [Bool.and_eq_true]
    exact ⟨bne_of_mem_nameToken hcs (by decide) (by decide) c hc,
      bne_of_mem_nameToken hcs (by decide) (by decide) c hc⟩
  have hchars := congrArg String.toList h
  rw [toList_declaration, toList_declaration] at hchars
  -- with a number on one side only, a blank would stand where a comma does
  cases hk : m.number with
  | none =>
    cases hl : n.number with
    | none =>
      rw [hk, hl] at hchars
      exact ⟨String.toList_inj.mp (List.append_cancel_right hchars), rfl⟩
    | some l =>
      rw [hk, hl] at hchars
      have hrest := (append_cons_inj (hend hm) (by decide) (hend hn) (by decide) hchars).2
      exact absurd (List.cons.inj hrest).1 (by decide)
  | some k =>
    cases hl : n.number with
    | none =>
      rw [hk, hl] at hchars
      have hrest := (append_cons_inj (hend hm) (by decide) (hend hn) (by decide) hchars).2
      exact absurd (List.cons.inj hrest).1 (by decide)
    | some l =>
      rw [hk, hl] at hchars
      obtain ⟨hname, hrest⟩ := append_cons_inj (hend hm) (by decide) (hend hn) (by decide) hchars
      have hblank : [' ', '=', ' '] ++ k.toList = [' ', '=', ' '] ++ l.toList :=
        List.append_cancel_right hrest
      have hnumber := List.append_cancel_left hblank
      exact ⟨String.toList_inj.mp hname, congrArg some (String.toList_inj.mp hnumber)⟩

theorem startsWith_annotationText (a : AnnotationOutline) : startsWith '[' a.text = true := by
  rw [startsWith, toList_annotationText]
  rfl

theorem startsWith_declaration {m : MemberOutline} (h : isNameToken m.name.toList = true) :
    startsWith '[' m.declaration = false := by
  obtain ⟨c, cs, hname⟩ := List.exists_cons_of_ne_nil (nameToken_ne_nil h)
  have hne : c ≠ '[' := by
    rintro rfl
    exact not_mem_nameToken h (by decide) (by decide) (hname ▸ List.mem_cons_self)
  rw [startsWith, toList_declaration, hname]
  simpa using hne

/-- Members are told apart line by line: annotations begin with a bracket, and the first line that
does not ends a member. -/
theorem texts_inj {ms ns : List MemberOutline} (hm : ∀ m ∈ ms, m.IsNamed)
    (hn : ∀ n ∈ ns, n.IsNamed)
    (h : ms.flatMap MemberOutline.texts = ns.flatMap MemberOutline.texts) : ms = ns := by
  have hcons : ∀ (m : MemberOutline) (ms : List MemberOutline),
    (m :: ms).flatMap MemberOutline.texts
      = m.annotations.map AnnotationOutline.text
        ++ m.declaration :: ms.flatMap MemberOutline.texts := by
    intro m ms
    rw [List.flatMap_cons, MemberOutline.texts, List.append_assoc]
    rfl
  induction ms generalizing ns with
  | nil =>
    cases ns with
    | nil => rfl
    | cons n ns =>
      rw [hcons] at h
      exact absurd h (by simp)
  | cons m ms ih =>
    cases ns with
    | nil =>
      rw [hcons] at h
      exact absurd h (by simp)
    | cons n ns =>
      have hm' := hm m List.mem_cons_self
      have hn' := hn n List.mem_cons_self
      have hbracket : ∀ as : List AnnotationOutline, ∀ line ∈ as.map AnnotationOutline.text,
          startsWith '[' line = true := by
        intro as line hline
        obtain ⟨a, -, rfl⟩ := List.mem_map.mp hline
        exact startsWith_annotationText a
      rw [hcons, hcons] at h
      -- both members end at the first line without a bracket
      obtain ⟨hannotations, hrest⟩ :=
        append_cons_inj (hbracket _) (startsWith_declaration hm'.name)
        (hbracket _) (startsWith_declaration hn'.name) h
      obtain ⟨hdeclaration, hrest⟩ := List.cons.inj hrest
      obtain ⟨hname, hnumber⟩ := declaration_inj hm'.name hn'.name hdeclaration
      have has :=
        map_inj_of_mem (fun a ha b hb => annotationText_inj (hm'.types a ha) (hn'.types b hb))
        hannotations
      have hmn : m = n := by
        cases m
        cases n
        rw [MemberOutline.mk.injEq]
        exact ⟨has, hname, hnumber⟩
      rw [hmn, ih (fun x hx => hm x (List.mem_cons_of_mem _ hx))
        (fun x hx => hn x (List.mem_cons_of_mem _ hx)) hrest]

/-! ## All lines -/

theorem importText_inj {c d : String} (h : importText c = importText d) : c = d := by
  have hchars := congrArg String.toList h
  rw [toList_importText, toList_importText] at hchars
  exact String.toList_inj.mp (List.append_cancel_right (List.append_cancel_left hchars))

theorem openText_inj {s t : String} (h : openText s = openText t) : s = t := by
  have hchars := congrArg String.toList h
  rw [toList_openText, toList_openText] at hchars
  exact String.toList_inj.mp (List.append_cancel_right hchars)

theorem enumHeader_inj {s t : String} (h : enumHeader s = enumHeader t) : s = t := by
  have hchars := congrArg String.toList h
  rw [toList_enumHeader, toList_enumHeader] at hchars
  exact String.toList_inj.mp (List.append_cancel_left hchars)

theorem containerHeader_inj {s t : String} (h : containerHeader s = containerHeader t) :
    s = t := by
  have hchars := congrArg String.toList h
  rw [toList_containerHeader, toList_containerHeader] at hchars
  exact String.toList_inj.mp (List.append_cancel_left hchars)

theorem head?_importText (c : String) : (importText c).toList.head? = some 'u' := by
  rw [toList_importText]
  rfl

theorem head?_openEnum (name : String) : (openText (enumHeader name)).toList.head? = some 'p' := by
  rw [toList_openText, toList_enumHeader]
  rfl

theorem head?_openContainer (c : String) :
    (openText (containerHeader c)).toList.head? = some 'n' := by
  rw [toList_openText, toList_containerHeader]
  rfl

theorem bodyTexts_inj {o p : Outline} (ho : ∀ m ∈ o.members, m.IsNamed)
    (hp : ∀ m ∈ p.members, m.IsNamed)
    (h : o.bodyTexts = p.bodyTexts) : o.imports = p.imports ∧ o.name = p.name
    ∧ o.members = p.members := by
  have himport : ∀ imported : List String, ∀ line ∈ imported.map importText,
      startsWith 'u' line = true := by
    intro imported line hline
    obtain ⟨c, -, rfl⟩ := List.mem_map.mp hline
    rw [startsWith, head?_importText]
    rfl
  have henum : ∀ name, startsWith 'u' (openText (enumHeader name)) = false := by
    intro name
    rw [startsWith, head?_openEnum]
    rfl
  obtain ⟨himports, hrest⟩ := append_cons_inj (himport _) (henum _) (himport _) (henum _) h
  obtain ⟨hname, hmembers⟩ := List.cons.inj hrest
  exact ⟨map_inj_of_mem (fun _ _ _ _ => importText_inj) himports,
    enumHeader_inj (openText_inj hname), texts_inj ho hp (List.append_cancel_right hmembers)⟩

/-- Without a namespace the first line is that of an import or of the enumeration. -/
theorem bodyTexts_ne_cons_openContainer (o : Outline) (c : String) (rest : List String) :
    o.bodyTexts ≠ openText (containerHeader c) :: rest := by
  intro h
  unfold Outline.bodyTexts at h
  have hhead := congrArg (fun lines => lines.head?.map (·.toList.head?)) h
  cases himports : o.imports with
  | nil =>
    rw [himports] at hhead
    simp [head?_openEnum, head?_openContainer] at hhead
  | cons d ds =>
    rw [himports] at hhead
    simp [head?_importText, head?_openContainer] at hhead

/-- **The lines of an outline determine it.** -/
theorem plainLines_inj {o p : Outline} (ho : ∀ m ∈ o.members, m.IsNamed)
    (hp : ∀ m ∈ p.members, m.IsNamed) (h : o.plainLines = p.plainLines) : o = p := by
  have hbody : ∀ {c}, o.container = c → p.container = c → o.bodyTexts = p.bodyTexts → o = p := by
    intro c hoc hpc hlines
    obtain ⟨himports, hname, hmembers⟩ := bodyTexts_inj ho hp hlines
    cases o
    cases p
    rw [Outline.mk.injEq]
    exact ⟨hoc.trans hpc.symm, himports, hname, hmembers⟩
  unfold Outline.plainLines at h
  cases hoc : o.container with
  | none =>
    cases hpc : p.container with
    | none =>
      rw [hoc, hpc] at h
      exact hbody hoc hpc h
    | some d =>
      rw [hoc, hpc] at h
      exact absurd h (bodyTexts_ne_cons_openContainer o d _)
  | some c =>
    cases hpc : p.container with
    | none =>
      rw [hoc, hpc] at h
      exact absurd h.symm (bodyTexts_ne_cons_openContainer p c _)
    | some d =>
      rw [hoc, hpc] at h
      obtain ⟨hheader, hlines⟩ := List.cons.inj h
      rw [← containerHeader_inj (openText_inj hheader)] at hpc
      exact hbody hoc hpc (List.append_cancel_right hlines)

end EnumDecl.Source
