import EnumDecl.Proofs.Source.Outline
import EnumDecl.Proofs.Source.Spelling
import EnumDecl.Source.Normal

/-!
# A layout changes white space

The normal form of a laid out outline is the list of its own lines (`normalLines_text`), whatever
the layout was. Three things have to be told apart from what is spelled: an indentation, a gap
between members, and a brace on a line of its own. They can be, because every line begins with
something that is no white space and only an opening brace is a brace by itself. None of this holds
if a spelling breaks a line, so that none does is assumed (`Outline.IsTidy`).
-/

namespace EnumDecl.Source

/-! ## Lines and indentation -/

theorem unlines_append (ls ks : List String) : unlines (ls ++ ks) = unlines ls ++ unlines ks := by
  rw [← String.toList_inj]
  simp [unlines, String.toList_join]

theorem toList_unlines (ls : List String) :
    (unlines ls).toList = ls.flatMap fun line => line.toList ++ ['\n'] := by
  simp [unlines, String.toList_join, List.flatMap_map]

theorem isBlank_of_all {l : Layout} (h : l.indent.toList.all isIndent = true) : l.IsBlank :=
  List.all_eq_true.mp h

theorem isIndent_of_mem_pad {l : Layout} (hl : l.IsBlank) {depth : Nat} {c : Char}
    (h : c ∈ (l.pad depth).toList) : isIndent c = true := by
  rw [Layout.pad, String.toList_join] at h
  obtain ⟨s, hs, hc⟩ := List.mem_flatMap.mp h
  rw [(List.mem_replicate.mp hs).2] at hc
  exact hl c hc

/-- Texts without the character that separates them are its pieces. -/
theorem pieces_flatMap {sep : Char} {lines : List (List Char)} (h : ∀ line ∈ lines, sep ∉ line) :
    Text.pieces sep (lines.flatMap (· ++ [sep])) = lines ++ [[]] := by
  induction lines with
  | nil => rfl
  | cons line lines ih =>
    have hrest := ih fun x hx => h x (List.mem_cons_of_mem _ hx)
    rw [List.flatMap_cons, List.append_assoc, List.singleton_append, Text.pieces_append,
      Text.pieces_of_not_mem (h line List.mem_cons_self), hrest]
    rfl

/-- Lines without the white space in front of them and without the empty ones. -/
def bare (lines : List String) : List (List Char) :=
  (lines.map fun line => line.toList.dropWhile isIndent).filter fun line => !line.isEmpty

/-- Lines that are not broken, and what is on them. -/
structure LaidOut (lines : List String) (texts : List (List Char)) : Prop where
  unbroken : ∀ line ∈ lines, '\n' ∉ line.toList
  bare_eq : bare lines = texts

/-- Something that can stand on a line. -/
structure IsLine (line : List Char) : Prop where
  unbroken : '\n' ∉ line
  start : ∃ c cs, line = c :: cs ∧ isIndent c = false

namespace LaidOut

theorem bareLines_eq {lines : List String} {texts : List (List Char)} (h : LaidOut lines texts) :
    bareLines (unlines lines).toList = texts := by
  have hunbroken : ∀ line ∈ lines.map String.toList, '\n' ∉ line := by
    intro line hline
    obtain ⟨s, hs, rfl⟩ := List.mem_map.mp hline
    exact h.unbroken s hs
  have hpieces : Text.pieces '\n' (unlines lines).toList = lines.map String.toList ++ [[]] := by
    rw [toList_unlines, ← pieces_flatMap hunbroken, List.flatMap_map]
  rw [bareLines, hpieces, List.map_append, List.filter_append, List.map_map, ← h.bare_eq]
  exact List.append_nil _

theorem append {ls ks : List String} {ts us : List (List Char)} (h : LaidOut ls ts)
    (k : LaidOut ks us) : LaidOut (ls ++ ks) (ts ++ us) where
  unbroken := fun line hline => (List.mem_append.mp hline).elim (h.unbroken line) (k.unbroken line)
  bare_eq := by
    rw [← h.bare_eq, ← k.bare_eq]
    simp [bare]

theorem nil : LaidOut [] [] := ⟨fun line hline => absurd hline (by simp), rfl⟩

theorem gap : LaidOut [""] [] where
  unbroken := by
    intro line hline
    rw [List.mem_singleton.mp hline]
    decide
  bare_eq := rfl

/-- A line keeps what it says when it loses its indentation. -/
theorem line {l : Layout} (hl : l.IsBlank) (depth : Nat) {line : String} (h : IsLine line.toList) :
    LaidOut [l.pad depth ++ line] [line.toList] where
  unbroken := by
    intro s hs
    rw [List.mem_singleton.mp hs, String.toList_append]
    intro hmem
    rcases List.mem_append.mp hmem with hmem | hmem
    · exact absurd (isIndent_of_mem_pad hl hmem) (by decide)
    · exact h.unbroken hmem
  bare_eq := by
    obtain ⟨c, cs, hline, hc⟩ := h.start
    have hdrop : (l.pad depth ++ line).toList.dropWhile isIndent = line.toList := by
      rw [String.toList_append, List.dropWhile_append_of_pos fun d hd => isIndent_of_mem_pad hl hd,
        hline, List.dropWhile_cons, hc]
      rfl
    rw [bare, List.map_singleton, hdrop, hline]
    rfl

theorem lines {l : Layout} (hl : l.IsBlank) (depth : Nat) {lines : List String}
    (h : ∀ line ∈ lines, IsLine line.toList) :
    LaidOut (lines.map (l.pad depth ++ ·)) (lines.map String.toList) := by
  induction lines with
  | nil => exact nil
  | cons line lines ih =>
    have hrest := ih fun x hx => h x (List.mem_cons_of_mem _ hx)
    exact append (LaidOut.line hl depth (h line List.mem_cons_self)) hrest

end LaidOut

/-! ## Braces -/

/-- A brace on a line of its own. -/
def brace : List Char := ['\x7b']

/-- The line that opens a block, without a layout. -/
def openText (header : String) : String := header ++ " \x7b"

/-- What stands first is no brace by itself. -/
def NoBraceFirst (lines : List (List Char)) : Prop := lines.head? ≠ some brace

theorem noBraceFirst_append {lines rest : List (List Char)} (hlines : brace ∉ lines)
    (hrest : NoBraceFirst rest) : NoBraceFirst (lines ++ rest) := by
  cases lines with
  | nil => exact hrest
  | cons line lines =>
    intro he
    exact hlines (Option.some.inj he ▸ List.mem_cons_self)

theorem joinedLines_cons {line : List Char} {rest : List (List Char)} (h : NoBraceFirst rest) :
    joinedLines (line :: rest) = line :: joinedLines rest := by
  cases rest with
  | nil => rfl
  | cons next rest =>
    have hne : next ≠ ['\x7b'] := fun he => h (by rw [he]; rfl)
    rw [joinedLines, joinBraces, if_neg hne]
    rfl

theorem joinedLines_append {lines rest : List (List Char)} (hlines : brace ∉ lines)
    (hrest : NoBraceFirst rest) : joinedLines (lines ++ rest) = lines ++ joinedLines rest := by
  induction lines with
  | nil => rfl
  | cons line lines ih =>
    have hlines' : brace ∉ lines := fun hmem => hlines (List.mem_cons_of_mem _ hmem)
    rw [List.cons_append, joinedLines_cons (noBraceFirst_append hlines' hrest), ih hlines']
    rfl

theorem toList_openText (header : String) :
    (openText header).toList = header.toList ++ ' ' :: brace :=
  String.toList_append ..

theorem openText_ne_brace {header : String} (h : IsLine header.toList) :
    (openText header).toList ≠ brace := by
  obtain ⟨c, cs, hheader, -⟩ := h.start
  rw [toList_openText, hheader]
  simp [brace]

/-- The lines that open a block, without their indentation. -/
def openLines (l : Layout) (header : String) : List (List Char) :=
  match l.braces with
  | .endOfLine => [(openText header).toList]
  | .ownLine => [header.toList, brace]

theorem laidOut_openBlock {l : Layout} (hl : l.IsBlank) (depth : Nat) {header : String}
    (h : IsLine header.toList) : LaidOut (l.openBlock depth header) (openLines l header) := by
  have hopen : IsLine (openText header).toList := by
    obtain ⟨c, cs, hheader, hc⟩ := h.start
    rw [toList_openText]
    exact ⟨by simp [h.unbroken, brace], c, cs ++ ' ' :: brace, by rw [hheader]; rfl, hc⟩
  have hbrace : IsLine "\x7b".toList := ⟨by decide, _, _, rfl, rfl⟩
  unfold Layout.openBlock openLines
  cases l.braces with
  | endOfLine =>
    dsimp only
    rw [String.append_assoc]
    exact .line hl depth hopen
  | ownLine => exact .append (.line hl depth h) (.line hl depth hbrace)

/-- **Both brace styles say the same.** -/
theorem joinedLines_openLines (l : Layout) (header : String) {rest : List (List Char)}
    (hrest : NoBraceFirst rest) :
    joinedLines (openLines l header ++ rest) = (openText header).toList :: joinedLines rest := by
  unfold openLines
  cases l.braces with
  | endOfLine => exact joinedLines_cons hrest
  | ownLine =>
    rw [toList_openText, ← joinedLines_cons hrest]
    rfl

theorem noBraceFirst_openLines (l : Layout) {header : String} (h : IsLine header.toList)
    (hne : header.toList ≠ brace) (rest : List (List Char)) :
    NoBraceFirst (openLines l header ++ rest) := by
  unfold openLines
  cases l.braces with
  | endOfLine => exact fun he => openText_ne_brace h (Option.some.inj he)
  | ownLine => exact fun he => hne (Option.some.inj he)

/-! ## The lines of an outline -/

/-- No spelling of a member breaks a line, and its name is a name. -/
structure MemberOutline.IsTidy (m : MemberOutline) : Prop where
  annotations : ∀ a ∈ m.annotations, '\n' ∉ a.type.toList ∧ '\n' ∉ a.argument.toList
  name : isNameToken m.name.toList = true
  number : ∀ n ∈ m.number, '\n' ∉ n.toList

/-- No spelling breaks a line. -/
structure Outline.IsTidy (o : Outline) : Prop where
  container : ∀ c ∈ o.container, '\n' ∉ c.toList
  imports : ∀ c ∈ o.imports, '\n' ∉ c.toList
  name : '\n' ∉ o.name.toList
  members : ∀ m ∈ o.members, m.IsTidy

/-- The line before the members, without a layout. -/
def enumHeader (name : String) : String := "public enum " ++ name

/-- The first line of a source text with a namespace, without a layout. -/
def containerHeader (container : String) : String := "namespace " ++ container

/-- The lines of the imports and the enumeration without a layout. -/
def Outline.bodyTexts (o : Outline) : List String :=
  o.imports.map importText ++
    openText (enumHeader o.name) :: (o.members.flatMap MemberOutline.texts ++ ["\x7d"])

/-- The lines of an outline without a layout. -/
def Outline.plainLines (o : Outline) : List String :=
  match o.container with
  | some c => openText (containerHeader c) :: (o.bodyTexts ++ ["\x7d"])
  | none => o.bodyTexts

theorem toList_annotationText (a : AnnotationOutline) :
    a.text.toList = '[' :: (a.type.toList ++ '(' :: (a.argument.toList ++ [')', ']'])) := by
  simp [AnnotationOutline.text]

theorem toList_declaration (m : MemberOutline) : m.declaration.toList = m.name.toList ++
    ((match m.number with
      | some n => [' ', '=', ' '] ++ n.toList
      | none => []) ++ [',']) := by
  unfold MemberOutline.declaration
  cases m.number with
  | none => simp
  | some n => simp

theorem toList_importText (c : String) :
    (importText c).toList = "using ".toList ++ (c.toList ++ [';']) := by
  simp [importText]

theorem toList_enumHeader (name : String) :
    (enumHeader name).toList = "public enum ".toList ++ name.toList := String.toList_append ..

theorem toList_containerHeader (c : String) :
    (containerHeader c).toList = "namespace ".toList ++ c.toList := String.toList_append ..

theorem isLine_annotationText {a : AnnotationOutline}
    (h : '\n' ∉ a.type.toList ∧ '\n' ∉ a.argument.toList) : IsLine a.text.toList := by
  rw [toList_annotationText]
  exact ⟨by simp [h.1, h.2], _, _, rfl, rfl⟩

theorem isLine_importText {c : String} (h : '\n' ∉ c.toList) : IsLine (importText c).toList := by
  rw [toList_importText]
  exact ⟨by simp [h], _, _, rfl, rfl⟩

theorem isLine_enumHeader {name : String} (h : '\n' ∉ name.toList) :
    IsLine (enumHeader name).toList := by
  rw [toList_enumHeader]
  exact ⟨by simp [h], _, _, rfl, rfl⟩

theorem isLine_containerHeader {c : String} (h : '\n' ∉ c.toList) :
    IsLine (containerHeader c).toList := by
  rw [toList_containerHeader]
  exact ⟨by simp [h], _, _, rfl, rfl⟩

theorem isLine_declaration {m : MemberOutline} (h : m.IsTidy) : IsLine m.declaration.toList := by
  obtain ⟨c, cs, hname⟩ := List.exists_cons_of_ne_nil (nameToken_ne_nil h.name)
  have hmem : c ∈ m.name.toList := by rw [hname]; exact List.mem_cons_self
  have hfeed := not_mem_nameToken h.name (c := '\n') (by decide) (by decide)
  have hspace := not_mem_nameToken h.name (c := ' ') (by decide) (by decide)
  have htab := not_mem_nameToken h.name (c := '\t') (by decide) (by decide)
  rw [toList_declaration]
  refine ⟨?_, c, cs ++ _, by rw [hname]; rfl, ?_⟩
  · cases hn : m.number with
    | none => simp [hfeed]
    | some n => simp [hfeed, h.number n hn]
  · have hc : c ≠ ' ' ∧ c ≠ '\t' := ⟨fun he => hspace (he ▸ hmem), fun he => htab (he ▸ hmem)⟩
    simp [isIndent, hc]

theorem isLine_texts {m : MemberOutline} (h : m.IsTidy) :
    ∀ line ∈ m.texts, IsLine line.toList := by
  intro line hline
  rcases List.mem_append.mp hline with hline | hline
  · obtain ⟨a, ha, rfl⟩ := List.mem_map.mp hline
    exact isLine_annotationText (h.annotations a ha)
  · rw [List.mem_singleton.mp hline]
    exact isLine_declaration h

theorem brace_not_mem_texts {m : MemberOutline} (h : m.IsTidy) :
    brace ∉ m.texts.map String.toList := by
  intro hmem
  obtain ⟨line, hline, he⟩ := List.mem_map.mp hmem
  rcases List.mem_append.mp hline with hline | hline
  · obtain ⟨a, -, rfl⟩ := List.mem_map.mp hline
    rw [toList_annotationText] at he
    exact absurd (List.cons.inj he).1 (by decide)
  · obtain ⟨c, cs, hname⟩ := List.exists_cons_of_ne_nil (nameToken_ne_nil h.name)
    rw [List.mem_singleton.mp hline, toList_declaration, hname] at he
    refine not_mem_nameToken h.name (c := '\x7b') (by decide) (by decide) ?_
    rw [hname, ← (List.cons.inj he).1]
    exact List.mem_cons_self

theorem brace_not_mem_imports (imported : List String) :
    brace ∉ (imported.map importText).map String.toList := by
  intro hmem
  obtain ⟨line, hline, he⟩ := List.mem_map.mp hmem
  obtain ⟨c, -, rfl⟩ := List.mem_map.mp hline
  rw [toList_importText] at he
  exact absurd (List.cons.inj he).1 (by decide)

theorem brace_not_mem_members {ms : List MemberOutline} (h : ∀ m ∈ ms, m.IsTidy) :
    brace ∉ (ms.flatMap MemberOutline.texts).map String.toList := by
  rw [List.map_flatMap]
  intro hmem
  obtain ⟨m, hm, hline⟩ := List.mem_flatMap.mp hmem
  exact brace_not_mem_texts (h m hm) hline

/-! ## The normal form -/

/-- Members are laid out line by line, whether or not a gap stands between them. -/
theorem laidOut_members {l : Layout} (hl : l.IsBlank) (depth : Nat) (first : Bool)
    {ms : List MemberOutline} (h : ∀ m ∈ ms, m.IsTidy) :
    LaidOut (memberOutlineLines l depth first ms)
      ((ms.flatMap MemberOutline.texts).map String.toList) := by
  induction ms generalizing first with
  | nil => exact .nil
  | cons m ms ih =>
    have hgap : LaidOut (if (!first && l.blankLines) = true then [""] else []) [] := by
      split
      · exact .gap
      · exact .nil
    have hm : LaidOut (m.texts.map (l.pad depth ++ ·)) (m.texts.map String.toList) :=
      .lines hl depth (isLine_texts (h m List.mem_cons_self))
    have hrest := ih false fun x hx => h x (List.mem_cons_of_mem _ hx)
    rw [List.flatMap_cons, List.map_append]
    exact (hgap.append hm).append hrest

theorem laidOut_imports {l : Layout} (hl : l.IsBlank) (depth : Nat) {imported : List String}
    (h : ∀ c ∈ imported, '\n' ∉ c.toList) :
    LaidOut (importOutlineLines l depth imported)
    ((imported.map importText).map String.toList) := by
  have hlines : ∀ line ∈ imported.map importText, IsLine line.toList := by
    intro line hline
    obtain ⟨c, hc, rfl⟩ := List.mem_map.mp hline
    exact isLine_importText (h c hc)
  unfold importOutlineLines
  split
  · rename_i hempty
    rw [List.isEmpty_iff.mp hempty]
    exact .nil
  · have himports := (LaidOut.lines hl depth hlines).append .gap
    rw [List.map_map, List.append_nil] at himports
    exact himports

theorem laidOut_closeBlock {l : Layout} (hl : l.IsBlank) (depth : Nat) :
    LaidOut [l.closeBlock depth] [['\x7d']] :=
  .line hl depth ⟨by decide, _, _, rfl, rfl⟩

theorem laidOut_body {o : Outline} (h : o.IsTidy) {l : Layout} (hl : l.IsBlank) (depth : Nat) :
    LaidOut (o.bodyLines l depth) ((o.imports.map importText).map String.toList ++
      (openLines l (enumHeader o.name)
        ++ ((o.members.flatMap MemberOutline.texts).map String.toList ++ [['\x7d']]))) := by
  have hblock := ((laidOut_openBlock hl depth (isLine_enumHeader h.name)).append
    (laidOut_members hl (depth + 1) true h.members)).append (laidOut_closeBlock hl depth)
  rw [List.append_assoc (openLines l (enumHeader o.name))] at hblock
  exact (laidOut_imports hl depth h.imports).append hblock

/-- The body of a source text in front of what closes it. -/
theorem joinedLines_body {o : Outline} (h : o.IsTidy) (l : Layout) {rest : List (List Char)}
    (hrest : NoBraceFirst rest) :
    joinedLines
    ((o.imports.map importText).map String.toList ++ (openLines l (enumHeader o.name) ++
      ((o.members.flatMap MemberOutline.texts).map String.toList ++ (['\x7d'] :: rest))))
      = o.bodyTexts.map String.toList ++ joinedLines rest := by
  have hne : (enumHeader o.name).toList ≠ brace := by rw [toList_enumHeader]; simp [brace]
  have hclose : NoBraceFirst (['\x7d'] :: rest) := by simp [NoBraceFirst, brace]
  have hmembers := brace_not_mem_members h.members
  rw [joinedLines_append (brace_not_mem_imports o.imports)
      (noBraceFirst_openLines l (isLine_enumHeader h.name) hne _),
    joinedLines_openLines l _ (noBraceFirst_append hmembers hclose),
    joinedLines_append hmembers hclose, joinedLines_cons hrest]
  simp [Outline.bodyTexts]

/-- **The normal form of a source text is its outline's lines**, whatever the layout. -/
theorem normalLines_text {o : Outline} (h : o.IsTidy) {l : Layout} (hl : l.IsBlank) :
    normalLines (o.text l).toList = o.plainLines.map String.toList := by
  rw [normalLines, Outline.text]
  unfold Outline.lines Outline.plainLines
  cases hc : o.container with
  | none =>
    have hend : NoBraceFirst [] := by simp [NoBraceFirst]
    have hjoined := joinedLines_body h l hend
    rw [(laidOut_body h hl 0).bareLines_eq, hjoined]
    exact List.append_nil _
  | some c =>
    -- around the body stand a line in front and a brace behind it
    have hheader := isLine_containerHeader (h.container c hc)
    have hlines := ((laidOut_openBlock hl 0 hheader).append (laidOut_body h hl 1)).append
      (laidOut_closeBlock hl 0)
    have hfirst := noBraceFirst_append (brace_not_mem_imports o.imports)
      (noBraceFirst_openLines l (isLine_enumHeader h.name)
        (by rw [toList_enumHeader]; simp [brace])
        ((o.members.flatMap MemberOutline.texts).map String.toList ++ [['\x7d'], ['\x7d']]))
    have hclose : NoBraceFirst [['\x7d']] := by simp [NoBraceFirst, brace]
    have hjoined := joinedLines_body h l hclose
    refine (congrArg joinedLines hlines.bareLines_eq).trans ?_
    simp only [List.append_assoc, List.cons_append, List.nil_append]
    rw [joinedLines_openLines l _ hfirst, hjoined]
    simp [joinedLines, joinBraces]

end EnumDecl.Source
