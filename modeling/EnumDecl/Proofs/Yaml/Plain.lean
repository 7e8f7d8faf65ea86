import EnumDecl.Proofs.Yaml.Runs
import EnumDecl.Yaml.Plain

/-!
# Plain text in YAML

A plain text is read word by word, with the white space between two words: spaces, which stay, or a
broken line, which becomes one space again. It ends where a line is indented less than the text
needs, and what follows has been looked at by then (`readPlain_plainChars`).
-/

namespace EnumDecl.Yaml

/-- What a token begins with, or the end of the text: no white space and no comment. -/
structure BeginsToken (tail : List Char) : Prop where
  space : tail.head? ≠ some ' '
  comment : tail.head? ≠ some '#'
  lineBreak : lineBreak? tail = none
  /-- Nor is it the mark that a file may begin with. -/
  byteOrder : tail.head? ≠ some '\uFEFF'

/-- What may stand in a line behind its indentation, so that a token begins there. -/
structure Resumes (tail : List Char) : Prop extends BeginsToken tail where
  /-- The mark between documents may stand in the first column. -/
  marker : atMarker tail = false

variable {cs w tail : List Char}

/-! ## White space -/

theorem dropWhile_spaces (n : Nat) (h : cs.head? ≠ some ' ') :
    (List.replicate n ' ' ++ cs).dropWhile (· == ' ') = cs := by
  rw [List.dropWhile_append_of_pos fun d hd => by rw [(List.mem_replicate.mp hd).2]; rfl]
  cases cs with
  | nil => rfl
  | cons c cs => rw [List.dropWhile_cons_of_neg (by simpa using h)]

theorem takeWhile_spaces (n : Nat) (h : cs.head? ≠ some ' ') :
    (List.replicate n ' ' ++ cs).takeWhile (· == ' ') = List.replicate n ' ' := by
  rw [List.takeWhile_append_of_pos fun d hd => by rw [(List.mem_replicate.mp hd).2]; rfl]
  cases cs with
  | nil => simp
  | cons c cs => rw [List.takeWhile_cons_of_neg (by simpa using h), List.append_nil]

theorem plainGap_spaces (n : Nat) (hs : cs.head? ≠ some ' ') (hl : lineBreak? cs = none) :
    plainGap (List.replicate n ' ' ++ cs) = ⟨List.replicate n ' ', false, 0, cs⟩ := by
  unfold plainGap
  dsimp only
  rw [dropWhile_spaces n hs, hl, takeWhile_spaces n hs]

theorem plainBreaks_indented (n fuel : Nat) (hs : cs.head? ≠ some ' ') (hl : lineBreak? cs = none)
    (hm : n = 0 → atMarker cs = false) :
    plainBreaks (fuel + 1) (List.replicate n ' ' ++ cs) = (some [], n, cs) := by
  have hmarker : atMarker (List.replicate n ' ' ++ cs) = false := by
    cases n with
    | zero => exact hm rfl
    | succ n => exact atMarker_indented n cs
  rw [plainBreaks, if_neg (by simp [hmarker])]
  dsimp only
  rw [dropWhile_spaces n hs, hl, takeWhile_spaces n hs, List.length_replicate]

/-- The end of a line becomes a space, and the indentation of the next one is measured. -/
theorem plainGap_newLine (n : Nat) (hs : cs.head? ≠ some ' ') (hl : lineBreak? cs = none)
    (hm : n = 0 → atMarker cs = false) : plainGap (newLine n ++ cs) = ⟨[' '], true, n, cs⟩ := by
  have hdrop : (newLine n ++ cs).dropWhile (· == ' ') = '\n' :: (List.replicate n ' ' ++ cs) := rfl
  have hbreak : ∀ rest, lineBreak? ('\n' :: rest) = some ('\n', rest) := fun _ => rfl
  unfold plainGap
  dsimp only
  rw [hdrop, hbreak]
  dsimp only
  rw [plainBreaks_indented n _ hs hl hm]
  rfl

/-! ## Words -/

/-- A word ends before white space, unless a colon is its last character. -/
theorem plainWord_word (hw : ∀ c ∈ w, isBlank c = false) (hc : blankNext cs = true)
    (hlast : w.getLast? ≠ some ':') : plainWord false (w ++ cs) = (w, cs) := by
  induction w with
  | nil =>
    cases cs with
    | nil => rfl
    | cons c cs =>
      have hblank : isBlank c = true := hc
      rw [List.nil_append, plainWord]
      simp [hblank]
  | cons c w ih =>
    have hblank := hw c List.mem_cons_self
    have hrest := ih (fun d hd => hw d (List.mem_cons_of_mem _ hd)) fun hl => hlast (by
      cases w with
      | nil => exact absurd hl (by simp)
      | cons d ds => rwa [List.getLast?_cons_cons])
    -- a colon inside the word has a character of the word after it
    have hcolon : (c == ':' && isBlank ((w ++ cs).headD endMark)) = false := by
      cases w with
      | nil =>
        have hne : c ≠ ':' := by simpa using hlast
        simp [hne]
      | cons d ds => simp [hw d (by simp)]
    rw [List.cons_append, plainWord]
    dsimp only
    rw [hrest, if_neg (by simpa [hblank] using hcolon)]

/-- A word in a text that stays whole has no colon at its end, and what follows it stays whole. -/
theorem keepsWhole_word {b : Bool} (hne : w ≠ []) (hw : ∀ c ∈ w, isBlank c = false)
    (h : keepsWhole b (w ++ cs) = true) :
    (blankNext cs = true → w.getLast? ≠ some ':') ∧ keepsWhole false cs = true := by
  induction w generalizing b with
  | nil => exact absurd rfl hne
  | cons c w ih =>
    have hblank := hw c List.mem_cons_self
    rw [List.cons_append, keepsWhole, hblank] at h
    simp only [Bool.and_eq_true, Bool.not_eq_true', Bool.and_eq_false_iff] at h
    obtain ⟨⟨hcolon, -⟩, hrest⟩ := h
    cases w with
    | nil =>
      refine ⟨fun hb => ?_, hrest⟩
      rw [List.nil_append, hb] at hcolon
      simpa using hcolon
    | cons d ds =>
      obtain ⟨hl, hk⟩ := ih (by simp) (fun e he => hw e (List.mem_cons_of_mem _ he)) hrest
      exact ⟨fun hb => by rw [List.getLast?_cons_cons]; exact hl hb, hk⟩

theorem keepsWhole_spaces {b : Bool} (n : Nat)
    (h : keepsWhole b (List.replicate (n + 1) ' ' ++ cs) = true) : keepsWhole true cs = true := by
  induction n generalizing b with
  | zero =>
    rw [List.replicate_one, List.singleton_append, keepsWhole] at h
    simp only [Bool.and_eq_true] at h
    exact h.2
  | succ n ih =>
    rw [List.replicate_succ, List.cons_append, keepsWhole] at h
    simp only [Bool.and_eq_true] at h
    exact ih h.2

theorem IsWord.isBlank (hw : IsWord w) (ho : ∀ c ∈ w, isOrdinary c = true) :
    ∀ c ∈ w, Yaml.isBlank c = false := fun c hc =>
  isBlank_of_isOrdinary (ho c hc) (hw.chars c hc).1

/-! ## Texts -/

variable {p : Place}

theorem plainRuns_word {column : Nat} {rs : List (List Char)} (hw : IsWord w) :
    plainRuns p column (w :: rs) = w ++ plainRuns p (column + w.length) rs := by
  rw [plainRuns, hw.beq_space]
  rfl

/-- Spaces are written as they are, or one of them as a broken line. -/
theorem plainRuns_spaces (column n : Nat) (rs : List (List Char)) : ∃ column',
    plainRuns p column (List.replicate (n + 1) ' ' :: rs)
        = List.replicate (n + 1) ' ' ++ plainRuns p column' rs ∨
      (n = 0 ∧ plainRuns p column (List.replicate (n + 1) ' ' :: rs)
        = newLine p.indent ++ plainRuns p column' rs) := by
  rw [plainRuns]
  split
  · rename_i hb
    simp only [Bool.and_eq_true, beq_iff_eq] at hb
    have hn : n = 0 := by simpa using congrArg List.length hb.1.1
    exact ⟨_, Or.inr ⟨hn, rfl⟩⟩
  · exact ⟨_, Or.inl rfl⟩

/-- Words with spaces between them, which are the runs of a plain text. -/
inductive AreWords : List (List Char) → Prop
  | last {w : List Char} (hw : IsWord w) (ho : ∀ c ∈ w, isOrdinary c = true) : AreWords [w]
  | more {w : List Char} {rs : List (List Char)} (hw : IsWord w)
      (ho : ∀ c ∈ w, isOrdinary c = true)
      (n : Nat) (h : AreWords rs) : AreWords (w :: List.replicate (n + 1) ' ' :: rs)

/-- Runs that end with a word, and in which no line ends, are words, perhaps with spaces before
them. -/
theorem areWords_of_areRuns {rs : List (List Char)} (h : AreRuns rs) (hne : rs ≠ [])
    (ho : ∀ c ∈ rs.flatten, isOrdinary c = true) (hlast : rs.flatten.getLast? ≠ some ' ') :
    AreWords rs ∨ ∃ n rs', rs = List.replicate (n + 1) ' ' :: rs' ∧ AreWords rs' := by
  -- what is behind the first run ends as the whole does
  have hbehind : ∀ {r : List Char} {rs : List (List Char)}, (r :: rs).flatten.getLast? ≠ some ' ' →
      rs.flatten.getLast? ≠ some ' ' := fun hl he => hl (by
    rw [List.flatten_cons, List.getLast?_append, he]
    rfl)
  induction h with
  | nil => exact absurd rfl hne
  | @spaces n rs _ hnext ih =>
    have hsome : rs ≠ [] := by
      rintro rfl
      exact absurd (by simp [List.replicate_succ']) hlast
    have hrest := ih hsome (fun c hc => ho c (List.mem_append_right _ hc)) (hbehind hlast)
    rcases hrest with h | ⟨m, rs', rfl, -⟩
    · exact Or.inr ⟨n, rs, rfl, h⟩
    · exact absurd (by simp [List.replicate_succ]) hnext
  | feeds n _ _ _ => exact absurd (ho '\n' (by simp)) (by decide)
  | @word w rs hw _ hnext ih =>
    have how : ∀ c ∈ w, isOrdinary c = true := fun c hc => ho c (List.mem_append_left _ hc)
    by_cases hsome : rs = []
    · subst hsome
      exact Or.inl (.last hw how)
    · have hrest := ih hsome (fun c hc => ho c (List.mem_append_right _ hc)) (hbehind hlast)
      rcases hrest with h | ⟨m, rs', rfl, h⟩
      · -- two words would be one
        obtain ⟨w', rs', rfl, hw'⟩ : ∃ w' rs', rs = w' :: rs' ∧ IsWord w' := by
          cases h with
          | last hw' _ => exact ⟨_, _, rfl, hw'⟩
          | more hw' _ _ _ => exact ⟨_, _, rfl, hw'⟩
        obtain ⟨c, w', rfl⟩ := List.exists_cons_of_ne_nil hw'.nonempty
        obtain ⟨hspace, hfeed⟩ := hw'.chars c List.mem_cons_self
        exact absurd (hnext c (by simp)) (not_or.mpr ⟨hspace, hfeed⟩)
      · exact Or.inl (.more hw how m h)

theorem length_plainRuns {rs : List (List Char)} (h : AreWords rs) (column : Nat) :
    rs.length ≤ (plainRuns p column rs).length := by
  induction h generalizing column with
  | last hw _ =>
    rw [plainRuns_word hw, plainRuns, List.append_nil]
    exact List.length_pos_iff.mpr hw.nonempty
  | @more w rs hw _ n _ ih =>
    have hpos := List.length_pos_iff.mpr hw.nonempty
    rw [plainRuns_word hw]
    obtain ⟨column', hkept | ⟨-, hbroken⟩⟩ := plainRuns_spaces (p := p) (column + w.length) n rs
    · have hrest := ih column'
      rw [hkept]
      simp only [List.length_cons, List.length_append, List.length_replicate]
      omega
    · have hrest := ih column'
      rw [hbroken]
      simp only [newLine, List.length_cons, List.length_append, List.length_replicate]
      omega

/-- What is written for words begins as their text does. -/
theorem AreWords.begins {rs : List (List Char)} (h : AreWords rs) : ∃ c cs, rs.flatten = c :: cs ∧
    isOrdinary c = true ∧ c ≠ ' ' ∧ ∀ column, ∃ written, plainRuns p column rs = c :: written := by
  obtain ⟨w, rs, rfl, hw, ho⟩ : ∃ w rs', rs = w :: rs' ∧ IsWord w
    ∧ ∀ c ∈ w, isOrdinary c = true := by
    cases h with
    | last hw ho => exact ⟨_, _, rfl, hw, ho⟩
    | more hw ho _ _ => exact ⟨_, _, rfl, hw, ho⟩
  obtain ⟨c, w, rfl⟩ := List.exists_cons_of_ne_nil hw.nonempty
  refine ⟨c, _, rfl, ho c List.mem_cons_self, (hw.chars c List.mem_cons_self).1, fun column => ?_⟩
  rw [plainRuns_word hw]
  exact ⟨_, rfl⟩

/-- The lines of a text are indented far enough, and the line after it is not. -/
structure Bounded (p : Place) (indent : Int) (n : Nat) : Prop where
  inside : indent ≤ p.indent
  positive : 0 < p.indent
  outside : (n : Int) < indent

/-- The white space between two words is read as the spaces it was written for. -/
theorem plainGap_plainRuns {indent : Int} {n : Nat} (hp : Bounded p indent n) (column m : Nat)
    {rs : List (List Char)} {after : List Char}
    (hs : ∀ column, (plainRuns p column rs ++ after).head? ≠ some ' ')
    (hl : ∀ column, lineBreak? (plainRuns p column rs ++ after) = none) :
    ∃ column' crossed depth,
    blankNext (plainRuns p column (List.replicate (m + 1) ' ' :: rs) ++ after) ∧
      plainGap (plainRuns p column (List.replicate (m + 1) ' ' :: rs) ++ after)
        = ⟨List.replicate (m + 1) ' ', crossed, depth, plainRuns p column' rs ++ after⟩ ∧
      (crossed = true → indent ≤ depth) := by
  obtain ⟨column', hkept | ⟨rfl, hbroken⟩⟩ := plainRuns_spaces (p := p) column m rs
  · refine ⟨column', false, 0, ?_, ?_, by simp⟩
    · rw [hkept]
      rfl
    · rw [hkept, List.append_assoc, plainGap_spaces (m + 1) (hs column') (hl column')]
  · refine ⟨column', true, p.indent, ?_, ?_, fun _ => hp.inside⟩
    · rw [hbroken]
      rfl
    · rw [hbroken, List.append_assoc, plainGap_newLine p.indent (hs column') (hl column')
        fun h => absurd hp.positive (by omega)]
      rfl

/-- A text goes on after a word where the white space after it ends neither the text nor the line
too early. -/
theorem plainText_goesOn {indent : Int} {fuel : Nat} {gap after : PlainGap} (hne : w ≠ [])
    (hword : plainWord false gap.rest = (w, cs)) (hgap : plainGap cs = after)
    (htext : after.text ≠ [])
    (hhash : after.rest.head? ≠ some '#') (hdeep : after.crossed = true → indent ≤ after.column) :
    plainText false indent (fuel + 1) gap = { plainText false indent fuel after with
      text := gap.text ++ w ++ (plainText false indent fuel after).text } := by
  have hin : ¬ (after.crossed = true ∧ (after.column : Int) < indent) := fun h => by
    have := hdeep h.1
    omega
  rw [plainText, hword]
  dsimp only
  rw [hgap]
  simp [hne, htext, hhash, hin]

/-- **A text is read word by word, and ends with the line it ends in.** -/
theorem plainText_plainRuns {indent : Int} {n : Nat} (hp : Bounded p indent n) (ht : Resumes tail)
    {rs : List (List Char)} (h : AreWords rs) {b : Bool} (hk : keepsWhole b rs.flatten = true)
    {fuel : Nat} (hfuel : rs.length ≤ fuel) {gap : PlainGap} {column : Nat}
    (hgap : gap.rest = plainRuns p column rs ++ (newLine n ++ tail)) :
    plainText false indent fuel gap = ⟨gap.text ++ rs.flatten, true, tail⟩ := by
  induction h generalizing b fuel gap column with
  | @last w hw ho =>
    obtain ⟨fuel, rfl⟩ : ∃ f, fuel = f + 1 := ⟨fuel - 1, by simp at hfuel; omega⟩
    have hblank := hw.isBlank ho
    have hcolon := (keepsWhole_word hw.nonempty hblank hk).1 rfl
    have hread : plainWord false (w ++ (newLine n ++ tail)) = (w, newLine n ++ tail) :=
      plainWord_word hblank rfl hcolon
    have hend := plainGap_newLine n ht.space ht.lineBreak fun _ => ht.marker
    have hempty : w.isEmpty = false := by simp [hw.nonempty]
    rw [plainRuns_word hw, plainRuns, List.append_nil] at hgap
    rw [plainText, hgap, hread]
    dsimp only
    rw [hend, hempty]
    simp [hp.outside]
  | @more w rs hw ho m h ih =>
    simp only [List.length_cons] at hfuel
    obtain ⟨fuel, rfl⟩ : ∃ f, fuel = f + 1 := ⟨fuel - 1, by omega⟩
    rw [List.flatten_cons] at hk
    have hblank := hw.isBlank ho
    obtain ⟨hcolon, hkrest⟩ := keepsWhole_word hw.nonempty hblank hk
    have hkwords : keepsWhole true rs.flatten = true := keepsWhole_spaces m hkrest
    obtain ⟨c, cs, hflat, hc, hs, hbegins⟩ := h.begins (p := p)
    -- the next word begins with none of the characters that would end the text or the line
    have hhash : c ≠ '#' := by
      rintro rfl
      rw [hflat, keepsWhole] at hkwords
      simp at hkwords
    have hspace : ∀ column, (plainRuns p column rs ++ (newLine n ++ tail)).head? ≠ some ' ' := by
      intro column
      obtain ⟨written, hwritten⟩ := hbegins column
      simpa [hwritten] using hs
    have hbreak : ∀ column, lineBreak? (plainRuns p column rs ++ (newLine n ++ tail)) = none := by
      intro column
      obtain ⟨written, hwritten⟩ := hbegins column
      rw [hwritten]
      exact lineBreak?_of_not_isBreak (isBreak_of_isOrdinary hc) _
    obtain ⟨column', crossed, depth, hb, hafter, hdepth⟩ :=
      plainGap_plainRuns hp (column + w.length) m hspace hbreak
    have hread :=
      plainWord_word hblank hb (hcolon (by simp [List.replicate_succ, blankNext]; decide))
    have hothers := ih hkwords (by omega : rs.length ≤ fuel)
      (rfl : (⟨List.replicate (m + 1) ' ', crossed, depth, _⟩ : PlainGap).rest
        = plainRuns p column' rs ++ (newLine n ++ tail))
    obtain ⟨written, hwritten⟩ := hbegins column'
    rw [plainRuns_word hw, List.append_assoc] at hgap
    rw [plainText_goesOn hw.nonempty (by rw [hgap, hread]) hafter (by simp)
      (by simpa [hwritten] using hhash) hdepth, hothers]
    simp

/-- A text that is written plain without harm to its characters, whatever it stands for then. -/
structure StandsPlain (cs : List Char) : Prop where
  starts : startsPlain cs = true
  ordinary : ∀ c ∈ cs, isOrdinary c = true
  first : cs.head? ≠ some ' '
  last : cs.getLast? ≠ some ' '
  whole : keepsWhole false cs = true

theorem standsPlain_of_allowsPlain {cs : List Char} (h : allowsPlain cs = true) :
    StandsPlain cs := by
  simp only [allowsPlain, Bool.and_eq_true, bne_iff_ne, List.all_eq_true] at h
  obtain ⟨⟨⟨⟨⟨⟨hstart, -⟩, ho⟩, hfirst⟩, hlast⟩, hk⟩, -⟩ := h
  exact ⟨hstart, ho, hfirst, hlast, hk⟩

theorem keepsWhole_of_ne (h : ∀ c ∈ cs, c ≠ ':' ∧ c ≠ '#') (b : Bool) :
    keepsWhole b cs = true := by
  induction cs generalizing b with
  | nil => rfl
  | cons c cs ih =>
    obtain ⟨hcolon, hhash⟩ := h c List.mem_cons_self
    rw [keepsWhole, ih fun d hd => h d (List.mem_cons_of_mem _ hd)]
    simp [hcolon, hhash]

/-- A word is written plain without harm if no character of it means anything. -/
theorem standsPlain_word (hs : startsPlain cs = true)
    (h : cs.all (fun c => isOrdinary c && c != ' ' && c != ':' && c != '#') = true) :
    StandsPlain cs := by
  have hall : ∀ c ∈ cs, isOrdinary c = true ∧ c ≠ ' ' ∧ c ≠ ':' ∧ c ≠ '#' := by
    intro c hc
    have hchar := List.all_eq_true.mp h c hc
    simp only [Bool.and_eq_true, bne_iff_ne] at hchar
    exact ⟨hchar.1.1.1, hchar.1.1.2, hchar.1.2, hchar.2⟩
  have hwhole := keepsWhole_of_ne (fun c hc => (hall c hc).2.2) false
  exact ⟨hs, fun c hc => (hall c hc).1, fun hf => (hall _ (List.mem_of_mem_head? hf)).2.1 rfl,
    fun hl => (hall _ (List.mem_of_getLast? hl)).2.1 rfl, hwhole⟩

/-- The runs of such a text are words. -/
theorem StandsPlain.words {cs : List Char} (h : StandsPlain cs) : AreWords (runs cs) := by
  have hflat := flatten_runs cs
  have hne : runs cs ≠ [] := by
    intro he
    rw [he] at hflat
    exact absurd h.starts (by rw [← hflat]; decide)
  rcases areWords_of_areRuns (areRuns_runs cs) hne (by rw [hflat]; exact h.ordinary)
    (by rw [hflat]; exact h.last) with hwords | ⟨n, rs, hspaces, -⟩
  · exact hwords
  · rw [hspaces, List.flatten_cons] at hflat
    exact absurd (by rw [← hflat]; simp [List.replicate_succ]) h.first

/-- **A plain text is read back**, and with it the end of its line and the indentation of the next
one. -/
theorem readPlain_plainChars {indent : Int} {n : Nat} (hp : Bounded p indent n) (ht : Resumes tail)
    {cs : List Char} (h : StandsPlain cs) :
    readPlain false indent (plainChars p cs ++ (newLine n ++ tail)) = ⟨cs, true, tail⟩ := by
  have hlength : (runs cs).length ≤ (plainChars p cs).length := length_plainRuns h.words p.column
  have hflat := flatten_runs cs
  have hwhole : keepsWhole false (runs cs).flatten = true := by rw [hflat]; exact h.whole
  have hfuel : (runs cs).length ≤ (plainChars p cs ++ (newLine n ++ tail)).length + 1 := by
    rw [List.length_append]
    omega
  have hread := plainText_plainRuns hp ht h.words hwhole hfuel
    (rfl : (⟨[], false, 0, plainChars p cs ++ (newLine n ++ tail)⟩ : PlainGap).rest = _)
  rw [hflat] at hread
  exact hread

/-- What is written begins with the first character of the text, and has white space behind it
where the text has. -/
theorem plainChars_cons {c : Char} {cs : List Char} (h : StandsPlain (c :: cs)) (p : Place)
    {after : List Char} (ha : blankNext after = true) : ∃ written,
      plainChars p (c :: cs) ++ after = c :: written
      ∧ isBlank (written.headD endMark) = blankNext cs := by
  have hblank : ∀ after : List Char, isBlank (after.headD endMark) = blankNext after := by
    intro after
    cases after <;> rfl
  have hflat := flatten_runs (c :: cs)
  have hwords := h.words
  rw [plainChars]
  generalize runs (c :: cs) = rs at *
  cases hwords with
  | last hw _ =>
    rw [plainRuns_word hw, plainRuns, List.append_nil]
    rw [List.flatten_singleton] at hflat
    subst hflat
    refine ⟨cs ++ after, rfl, ?_⟩
    cases cs with
    | nil => rw [List.nil_append, hblank, ha]; rfl
    | cons d cs => rfl
  | @more w rs hw _ n _ =>
    obtain ⟨d, w, rfl⟩ := List.exists_cons_of_ne_nil hw.nonempty
    rw [List.flatten_cons, List.cons_append, List.cons.injEq] at hflat
    obtain ⟨rfl, rfl⟩ := hflat
    rw [plainRuns_word hw, List.append_assoc]
    refine ⟨_, rfl, ?_⟩
    cases w with
    | cons e w => rfl
    | nil =>
      -- the word is one character, so what comes after it is white space
      obtain ⟨column', hkept | ⟨-, hbroken⟩⟩ :=
        plainRuns_spaces (p := p) (p.column + [d].length) n rs
      · rw [hkept]
        rfl
      · rw [hbroken]
        rfl

theorem isPrintable_plainRuns {rs : List (List Char)} (h : IsPrintable rs.flatten) (column : Nat) :
    IsPrintable (plainRuns p column rs) := by
  induction rs generalizing column with
  | nil => exact isPrintable_nil
  | cons r rs ih =>
    obtain ⟨hr, hrs⟩ := isPrintable_append.mp h
    rw [plainRuns]
    split
    · exact isPrintable_append.mpr ⟨isPrintable_newLine _, ih hrs _⟩
    · exact isPrintable_append.mpr ⟨hr, ih hrs _⟩

end EnumDecl.Yaml
