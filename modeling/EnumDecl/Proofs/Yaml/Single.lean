import EnumDecl.Proofs.Yaml.Runs

/-!
# Single quotes in YAML

A text in single quotes is read run by run. A quote in it is doubled. Spaces stay where something
dense follows them; a broken line is one space; and a run of line feeds is written with one feed
more, which is left out again. A text in which a space stands next to a line feed is not written
this way, because that space would be lost (`singleReads_singleRuns`).
-/

namespace EnumDecl.Yaml

/-! ## One piece before another -/

/-- With enough fuel the characters are read as a text up to its closing quote, and `after`
remains. -/
def SingleReads (cs text after : List Char) : Prop :=
  ∀ fuel, cs.length ≤ fuel → singleQuoted fuel cs = .ok (text, after)

variable {cs text after : List Char}

theorem singleReads_quote (h : after.head? ≠ some '\x27') :
    SingleReads ('\x27' :: after) [] after := by
  intro fuel hfuel
  obtain ⟨fuel, rfl⟩ : ∃ f, fuel = f + 1 := ⟨fuel - 1, by simp at hfuel; omega⟩
  unfold singleQuoted
  rw [if_pos rfl]
  split
  · exact absurd rfl h
  · rfl

/-- What is no quote is white space, which is read as a whole, or stands for itself. -/
theorem singleQuoted_cons {c : Char} (hq : c ≠ '\x27') (fuel : Nat) (cs : List Char) :
    singleQuoted (fuel + 1) (c :: cs)
      = if isQuotedSpace c then
          quotedSpace (c :: cs) >>= fun r => prepend r.1 (singleQuoted fuel r.2)
        else prepend [c] (singleQuoted fuel cs) := by
  conv_lhs => unfold singleQuoted
  rw [if_neg hq]

/-- A character of a word, which is written twice if it is a quote. -/
theorem singleReads_char {c : Char} (h : SingleReads cs text after) (ho : isOrdinary c = true)
    (hs : c ≠ ' ') : SingleReads (doubleQuotes [c] ++ cs) (c :: text) after := by
  intro fuel hfuel
  by_cases hq : c = '\x27'
  · subst hq
    have hlen : cs.length + 1 < fuel := by simpa [doubleQuotes] using hfuel
    obtain ⟨fuel, rfl⟩ : ∃ f, fuel = f + 1 := ⟨fuel - 1, by omega⟩
    show singleQuoted (fuel + 1) ('\x27' :: '\x27' :: cs) = _
    rw [singleQuoted, if_pos rfl, h fuel (by omega)]
    rfl
  · have hwritten : doubleQuotes [c] = [c] := by simp [doubleQuotes, hq]
    rw [hwritten] at hfuel ⊢
    have hlen : cs.length + 1 ≤ fuel := by simpa using hfuel
    obtain ⟨fuel, rfl⟩ : ∃ f, fuel = f + 1 := ⟨fuel - 1, by omega⟩
    have hspace : isQuotedSpace c = false := by
      rw [isQuotedSpace, isSpaceOrTab_of_isOrdinary ho hs, isBreak_of_isOrdinary ho]
      rfl
    rw [List.singleton_append, singleQuoted_cons hq, if_neg (by simp [hspace]), h fuel (by omega)]
    rfl

theorem singleReads_word {w : List Char} (h : SingleReads cs text after)
    (hw : ∀ c ∈ w, isOrdinary c = true ∧ c ≠ ' ') :
    SingleReads (doubleQuotes w ++ cs) (w ++ text) after := by
  induction w with
  | nil => exact h
  | cons c w ih =>
    have hrest := ih fun d hd => hw d (List.mem_cons_of_mem _ hd)
    obtain ⟨ho, hs⟩ := hw c List.mem_cons_self
    have hcons : doubleQuotes (c :: w) = doubleQuotes [c] ++ doubleQuotes w := by
      simp [doubleQuotes, List.flatMap_cons]
    rw [hcons, List.append_assoc]
    exact singleReads_char hrest ho hs

/-- White space of any sort in front of a rest. -/
theorem singleReads_space {c : Char} {white space : List Char} (hq : c ≠ '\x27')
    (hc : isQuotedSpace c = true) (hread : quotedSpace (c :: (white ++ cs)) = .ok (space, cs))
    (h : SingleReads cs text after) : SingleReads (c :: (white ++ cs)) (space ++ text) after := by
  intro fuel hfuel
  obtain ⟨fuel, rfl⟩ : ∃ f, fuel = f + 1 := ⟨fuel - 1, by simp at hfuel; omega⟩
  rw [singleQuoted_cons hq, if_pos hc, hread]
  show prepend space (singleQuoted fuel cs) = _
  rw [h fuel (by simp at hfuel; omega)]
  rfl

theorem singleReads_spaces (n : Nat) (hd : StartsDense cs) (h : SingleReads cs text after) :
    SingleReads (List.replicate (n + 1) ' ' ++ cs) (List.replicate (n + 1) ' ' ++ text) after := by
  have hread := quotedSpace_of_dense hd (n + 1)
  exact singleReads_space (by decide) (by decide) hread h

/-! ## Line ends -/

theorem quotedBreaks_feeds (k n : Nat) (hd : StartsDense cs) {fuel : Nat} (hfuel : k < fuel) :
    quotedBreaks fuel (List.replicate k '\n' ++ (List.replicate (n + 1) ' ' ++ cs))
      = .ok (List.replicate k '\n', cs) := by
  induction k generalizing fuel with
  | zero =>
    obtain ⟨fuel, rfl⟩ : ∃ f, fuel = f + 1 := ⟨fuel - 1, by omega⟩
    exact quotedBreaks_indented hd n fuel
  | succ k ih =>
    obtain ⟨fuel, rfl⟩ : ∃ f, fuel = f + 1 := ⟨fuel - 1, by omega⟩
    have hmarker : ∀ rest, atMarker ('\n' :: rest) = false := fun rest => by simp [atMarker]
    have hbreak : ∀ rest, lineBreak? ('\n' :: rest) = some ('\n', rest) := fun rest => rfl
    rw [List.replicate_succ, List.cons_append, quotedBreaks, if_neg (by simp [hmarker])]
    dsimp only
    rw [List.dropWhile_cons_of_neg (by decide), hbreak]
    dsimp only
    rw [ih (by omega)]
    rfl

/-- The end of a line and empty lines after it: without empty lines they are a space. -/
theorem singleReads_feeds (k n : Nat) (hd : StartsDense cs) (h : SingleReads cs text after) :
    SingleReads ('\n' :: (List.replicate k '\n' ++ (List.replicate (n + 1) ' ' ++ cs)))
      (foldBreaks '\n' (List.replicate k '\n') ++ text) after := by
  rw [← List.append_assoc]
  refine singleReads_space (by decide) (by decide) ?_ h
  have hdrop : ∀ rest, ('\n' :: rest : List Char).dropWhile isSpaceOrTab = '\n' :: rest :=
    fun rest => rfl
  have hbreak : ∀ rest, lineBreak? ('\n' :: rest) = some ('\n', rest) := fun rest => rfl
  unfold quotedSpace
  dsimp only
  rw [hdrop, hbreak, List.append_assoc]
  dsimp only
  rw [quotedBreaks_feeds k n hd (by rw [List.length_append, List.length_replicate]; omega)]
  rfl

/-! ## A text as a whole -/

variable {p : Place}

/-- What is written for a text is dense at its front unless the text begins with a space or a
feed. -/
theorem startsDense_singleRuns {rs : List (List Char)} (hrs : AreRuns rs)
    (ho : ∀ c ∈ rs.flatten, c = '\n' ∨ isOrdinary c = true) (hs : rs.flatten.head? ≠ some ' ')
    (hf : rs.flatten.head? ≠ some '\n') (first : Bool) (column : Nat) (after : List Char) :
    StartsDense (singleRuns p first column rs ++ '\x27' :: after) := by
  cases hrs with
  | nil => exact ⟨'\x27', after, rfl, by decide, by decide⟩
  | spaces n _ _ => exact absurd (by simp [List.replicate_succ]) hs
  | feeds n _ _ => exact absurd (by simp [List.replicate_succ]) hf
  | @word w rs hw _ _ =>
    obtain ⟨c, w, rfl⟩ := List.exists_cons_of_ne_nil hw.nonempty
    obtain ⟨hspace, hfeed⟩ := hw.chars c List.mem_cons_self
    have hord : isOrdinary c = true := (ho c (by simp)).resolve_left hfeed
    have hwritten : ∃ tail, doubleQuotes (c :: w) = c :: tail := by
      by_cases hq : c = '\x27'
      · exact ⟨_, by rw [hq]; rfl⟩
      · exact ⟨doubleQuotes w, by simp [doubleQuotes, List.flatMap_cons, hq]⟩
    obtain ⟨tail, htail⟩ := hwritten
    rw [singleRuns, if_neg (by simpa using hfeed), hw.beq_space, htail]
    exact ⟨c, _, rfl, isSpaceOrTab_of_isOrdinary hord hspace, isBreak_of_isOrdinary hord⟩

theorem hasSpaceAtFeed_cons {c : Char} (h : hasSpaceAtFeed (c :: cs) = false) :
    hasSpaceAtFeed cs = false ∧ (c = ' ' → cs.head? ≠ some '\n')
    ∧ (c = '\n' → cs.head? ≠ some ' ') := by
  cases cs with
  | nil => exact ⟨rfl, by simp, by simp⟩
  | cons d cs =>
    simp only [hasSpaceAtFeed, Bool.or_eq_false_iff, Bool.and_eq_false_iff,
      beq_eq_false_iff_ne] at h
    obtain ⟨⟨h1, h2⟩, h3⟩ := h
    refine ⟨h3, ?_, ?_⟩
    · rintro rfl hd
      simp_all
    · rintro rfl hd
      simp_all

theorem hasSpaceAtFeed_append {w : List Char} (h : hasSpaceAtFeed (w ++ cs) = false) :
    hasSpaceAtFeed cs = false := by
  induction w with
  | nil => exact h
  | cons c w ih => exact ih (hasSpaceAtFeed_cons h).1

/-- After a run of one character the rest has no space at a feed, and does not put one there. -/
theorem hasSpaceAtFeed_run {c : Char} (n : Nat)
    (h : hasSpaceAtFeed (List.replicate (n + 1) c ++ cs) = false) :
    hasSpaceAtFeed cs = false ∧ (c = ' ' → cs.head? ≠ some '\n')
    ∧ (c = '\n' → cs.head? ≠ some ' ') := by
  rw [List.replicate_succ', List.append_assoc] at h
  exact hasSpaceAtFeed_cons (hasSpaceAtFeed_append h)

/-- **A text in single quotes is read back.** -/
theorem singleReads_singleRuns {n : Nat} (hn : p.indent = n + 1)
    (hafter : after.head? ≠ some '\x27') {rs : List (List Char)} (hrs : AreRuns rs)
    (ho : ∀ c ∈ rs.flatten, c = '\n' ∨ isOrdinary c = true)
    (hs : hasSpaceAtFeed rs.flatten = false) (first : Bool) (column : Nat) :
    SingleReads (singleRuns p first column rs ++ '\x27' :: after) rs.flatten after := by
  induction hrs generalizing first column with
  | nil => exact singleReads_quote hafter
  | @spaces m rs hrs hne ih =>
    rw [List.flatten_cons] at ho hs ⊢
    have hrest : ∀ c ∈ rs.flatten, c = '\n' ∨ isOrdinary c = true := fun c hc =>
      ho c (List.mem_append_right _ hc)
    obtain ⟨hs, hfeed, -⟩ := hasSpaceAtFeed_run m hs
    have hdense := startsDense_singleRuns (p := p) hrs hrest hne (hfeed rfl)
    have hquotes : doubleQuotes (List.replicate (m + 1) ' ') = List.replicate (m + 1) ' ' := by
      simp [doubleQuotes, List.flatMap_replicate]
    rw [singleRuns, if_neg (by simp [List.replicate_succ])]
    split
    · -- the one space is written as a broken line
      rename_i hbroken
      simp only [Bool.and_eq_true, beq_iff_eq] at hbroken
      have hone : List.replicate (m + 1) ' ' = [' '] := hbroken.1.1.1.1
      rw [hone, newLine, hn]
      have := singleReads_feeds 0 n (hdense false (n + 1) after) (ih hrest hs false (n + 1))
      simpa [foldBreaks] using this
    · dsimp only
      rw [hquotes, List.append_assoc]
      exact singleReads_spaces m (hdense _ _ _) (ih hrest hs _ _)
  | @feeds m rs hrs hne ih =>
    rw [List.flatten_cons] at ho hs ⊢
    have hrest : ∀ c ∈ rs.flatten, c = '\n' ∨ isOrdinary c = true := fun c hc =>
      ho c (List.mem_append_right _ hc)
    obtain ⟨hs, -, hspace⟩ := hasSpaceAtFeed_run m hs
    have hdense := startsDense_singleRuns (p := p) hrs hrest (hspace rfl) hne
    -- the feed too many ends the line, and the others are empty lines
    rw [singleRuns, if_pos (by simp [List.replicate_succ]), hn]
    have := singleReads_feeds (m + 1) n (hdense false (n + 1) after) (ih hrest hs false (n + 1))
    simpa [foldBreaks, List.replicate_succ] using this
  | @word w rs hw hrs hnext ih =>
    rw [List.flatten_cons] at ho hs ⊢
    have hrest : ∀ c ∈ rs.flatten, c = '\n' ∨ isOrdinary c = true := fun c hc =>
      ho c (List.mem_append_right _ hc)
    have hchars : ∀ c ∈ w, isOrdinary c = true ∧ c ≠ ' ' := fun c hc =>
      ⟨(ho c (List.mem_append_left _ hc)).resolve_left (hw.chars c hc).2, (hw.chars c hc).1⟩
    have hfeed : w.head? ≠ some '\n' := fun h => (hw.chars _ (List.mem_of_mem_head? h)).2 rfl
    rw [singleRuns, if_neg hfeed, hw.beq_space]
    simp only [Bool.false_and, Bool.false_eq_true, if_false, List.append_assoc]
    exact singleReads_word (ih hrest (hasSpaceAtFeed_append hs) _ _) hchars

theorem isPrintable_doubleQuotes (h : IsPrintable cs) : IsPrintable (doubleQuotes cs) := by
  intro d hd
  obtain ⟨c, hc, hd⟩ := List.mem_flatMap.mp hd
  split at hd
  · exact (isPrintable_of_all rfl : IsPrintable ['\x27', '\x27']) d hd
  · rw [List.mem_singleton.mp hd]
    exact h c hc

theorem isPrintable_singleRuns {rs : List (List Char)} (h : IsPrintable rs.flatten) (first : Bool)
    (column : Nat) : IsPrintable (singleRuns p first column rs) := by
  induction rs generalizing first column with
  | nil => exact isPrintable_nil
  | cons r rs ih =>
    obtain ⟨hr, hrs⟩ := isPrintable_append.mp h
    rw [singleRuns]
    split
    · have hspaces := (isPrintable_cons.mp (isPrintable_newLine p.indent)).2
      exact isPrintable_cons.mpr ⟨Or.inl rfl, isPrintable_append.mpr
        ⟨isPrintable_append.mpr ⟨hr, hspaces⟩, ih hrs _ _⟩⟩
    · split
      · exact isPrintable_append.mpr ⟨isPrintable_newLine _, ih hrs _ _⟩
      · exact isPrintable_append.mpr ⟨isPrintable_doubleQuotes hr, ih hrs _ _⟩

end EnumDecl.Yaml
