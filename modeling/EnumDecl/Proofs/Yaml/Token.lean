import EnumDecl.Proofs.Yaml.Scan

/-!
# Single tokens of a written text

One lemma for each sort of token that the text of a dump is made of, with the spot before it and
the spot behind it: a text, plain or in quotes, a key with its colon, the dash of an item and an
empty list. A plain text takes the end of its line and the indentation of the next one with it, and
the other ways to write a text are led on until the same spot.
-/

namespace EnumDecl.Yaml

open Spot (Leads)

/-! ## The next token -/

/-- At a column within the open collections none of them is closed. -/
theorem unwind_inside {p : Spot} (h : p.indent ≤ p.column) (index line : Nat) :
    (p.scan index line).unwind p.column = p.scan index line := by
  have hstay : Scan.unwindTo p.column p.outer p.indent p.tokens
    = (p.indent, p.outer, p.tokens) := by
    cases hp : p.outer with
    | nil => rfl
    | cons i outer => exact if_neg (by omega)
  unfold Scan.unwind Spot.scan
  dsimp only
  rw [hstay]
  rfl

/-- A token is found where the scan stands, and everything behind it from there on. -/
theorem finds_of_token {s t : Scan} {ts : List Token} {c : Char} {cs : List Char}
    (ha : s.arrive = .ok s) (hr : s.cursor.rest = c :: cs) (htoken : s.token c cs = .ok t)
    (hlt : t.cursor.rest.length ≤ cs.length) (ht : t.Finds ts) : s.Finds ts := by
  refine .more (t := t) ?_ (by rw [hr, List.length_cons]; omega) ht
  unfold Scan.next
  rw [ha]
  simp only [bind, Except.bind, hr, htoken]
  rfl

theorem arrive_spot {p : Spot} (hb : BeginsToken p.rest) (hin : p.indent ≤ p.column)
    (index line : Nat) :
    (p.scan index line).arrive = .ok (p.scan index line) := by
  rw [Scan.arrive_eq hb (Spot.dropStale_scan p index line)]
  exact congrArg Except.ok (unwind_inside hin index line)

variable {tail cs : List Char} {column n : Nat} {T : List Token} {indent : Int} {outer : List Int}
  {allowed : Bool}

/-! ## Plain texts -/

theorem ne_of_isIndicator {c d : Char} (h : isIndicator c = false) (hd : isIndicator d = true) :
    c ≠ d := by
  rintro rfl
  rw [h] at hd
  exact absurd hd (by simp)

/-- Where a plain text may begin it does, unless it looks like a mark between documents. -/
theorem token_plain {s : Scan} (hflow : s.flowKeys = []) {c : Char} {written : List Char}
    (hstart : startsPlain (c :: cs) = true) (hblank : isBlank c = false)
    (hnext : isBlank (written.headD endMark) = blankNext cs)
    (hline : s.cursor.column = 0 → c ≠ '-' ∧ c ≠ '.') : s.token c written = s.plain := by
  simp only [startsPlain, Bool.and_eq_true, Bool.not_eq_true', Bool.and_eq_false_iff,
    Bool.or_eq_false_iff, beq_eq_false_iff_ne] at hstart
  obtain ⟨hind, hdash⟩ := hstart
  have hne : ∀ d, isIndicator d = true → c ≠ d := fun d => ne_of_isIndicator hind
  have hin : s.inFlow = false := by simp [Scan.inFlow, hflow]
  -- these three are marks of their own in front of a blank
  have hfollows : c = '-' ∨ c = '?' ∨ c = ':' → isBlank (written.headD endMark) = false := by
    intro hc
    rw [hnext]
    rcases hdash with h | h
    · obtain ⟨⟨h1, h2⟩, h3⟩ := h
      rcases hc with hc | hc | hc
      · exact absurd hc h3
      · exact absurd hc h1
      · exact absurd hc h2
    · exact h
  have hbegins : s.beginsPlain c (written.headD endMark) = true := by
    unfold Scan.beginsPlain
    rw [hblank, hind, hin]
    by_cases hc : c = '-' ∨ c = '?' ∨ c = ':'
    · rw [hfollows hc]
      rcases hc with rfl | rfl | rfl <;> rfl
    · rw [not_or, not_or] at hc
      simp [hc]
  have hdash : c = '-' → isBlank (written.headD endMark) = false := fun h => hfollows (Or.inl h)
  have hquestion : c = '?' → isBlank (written.headD endMark) = false :=
    fun h => hfollows (Or.inr (Or.inl h))
  have hcolon : c = ':' → isBlank (written.headD endMark) = false :=
    fun h => hfollows (Or.inr (Or.inr h))
  -- every mark that is asked for before a plain text is ruled out in turn
  unfold Scan.token
  dsimp only
  rw [if_neg (by simp [hne '%' rfl]), if_neg (by simp; intro h h0; exact absurd h (hline h0).1),
    if_neg (by simp; intro h h0; exact absurd h (hline h0).2), if_neg (hne '[' rfl),
    if_neg (hne '\x7b' rfl), if_neg (hne ']' rfl), if_neg (hne '\x7d' rfl), if_neg (hne ',' rfl),
    if_neg (by simpa using hdash), if_neg (by simpa [hin] using hquestion),
    if_neg (by simpa [hin] using hcolon), if_neg (hne '*' rfl), if_neg (hne '&' rfl),
    if_neg (hne '!' rfl), if_neg (by simp [hne '|' rfl]), if_neg (by simp [hne '>' rfl]),
    if_neg (hne '\x27' rfl), if_neg (hne '\x22' rfl), if_pos hbegins]

theorem beginsToken_of_isOrdinary {c : Char} (ho : isOrdinary c = true) (hs : c ≠ ' ')
    (hc : c ≠ '#') (cs : List Char) : BeginsToken (c :: cs) := by
  refine ⟨by simpa using hs, by simpa using hc,
    lineBreak?_of_not_isBreak (isBreak_of_isOrdinary ho) cs, ?_⟩
  rintro h
  cases h
  exact absurd ho (by decide)

theorem beginsToken_plainChars {p : Place} (h : StandsPlain cs) {after : List Char}
    (ha : blankNext after = true) : BeginsToken (plainChars p cs ++ after) := by
  obtain ⟨c, cs, rfl⟩ : ∃ c ds, cs = c :: ds := List.exists_cons_of_ne_nil fun he =>
    absurd h.starts (by rw [he]; decide)
  obtain ⟨written, hwritten, -⟩ := plainChars_cons h p ha
  have hstart := h.starts
  simp only [startsPlain, Bool.and_eq_true, Bool.not_eq_true'] at hstart
  rw [hwritten]
  exact beginsToken_of_isOrdinary (h.ordinary c List.mem_cons_self) (by simpa using h.first)
    (ne_of_isIndicator hstart.1 rfl) written

/-- A plain text is read to where it ends. -/
theorem plain_eq {s t : Scan} {read : PlainText} {c : Cursor} (hsave : s.savePending = .ok t)
    (hflow : t.flowKeys = []) (hread : readPlain false (t.indent + 1) t.cursor.rest = read)
    (hmove : t.cursor.moveTo read.rest = c) : s.plain = .ok { t with
      cursor := c, keyAllowed := read.crossed, tokens := .scalar read.text true :: t.tokens } := by
  have hin : t.inFlow = false := by simp [Scan.inFlow, hflow]
  unfold Scan.plain
  rw [hsave]
  show (pure _ : Except Fault Scan) = _
  rw [hin, hread]
  dsimp only [Scan.moveTo, Scan.withCursor, Scan.push]
  rw [hmove]
  rfl

/-- **A plain text** is a token, and the end of its line is read with it. -/
theorem leads_plain {p : Place} (h : StandsPlain cs) (hp : Bounded p (indent + 1) n)
    (ht : Resumes tail) (hcolumn : 0 < column) (hin : indent ≤ column) :
    Leads ⟨plainChars p cs ++ (newLine n ++ tail), column, T, indent, outer, false⟩
      ⟨tail, n, .scalar cs true :: T, indent, outer, true⟩ := by
  intro ts hts index line
  have hread := readPlain_plainChars hp ht h
  obtain ⟨c, cs, rfl⟩ : ∃ c ds, cs = c :: ds := List.exists_cons_of_ne_nil fun he =>
    absurd h.starts (by rw [he]; decide)
  have hblank : blankNext (newLine n ++ tail) = true := rfl
  obtain ⟨written, hwritten, hnext⟩ := plainChars_cons h p hblank
  have ho := h.ordinary c List.mem_cons_self
  have hs : c ≠ ' ' := by simpa using h.first
  obtain ⟨index', line', hmove⟩ := Cursor.moveTo_newLine
    (c := ⟨plainChars p (c :: cs) ++ (newLine n ++ tail), index, line, column⟩) rfl
  have htoken :=
    token_plain (s := Spot.scan ⟨plainChars p (c :: cs) ++ (newLine n ++ tail), column, T,
    indent, outer, false⟩ index line) rfl h.starts (isBlank_of_isOrdinary ho hs) hnext
    (fun h0 => absurd h0 (Nat.ne_of_gt hcolumn))
  refine finds_of_token (t := Spot.scan ⟨tail, n, .scalar (c :: cs) true :: T, indent, outer, true⟩
    index' line') (arrive_spot (beginsToken_plainChars h rfl) hin index line) hwritten ?_ ?_
    (hts index' line')
  · rw [htoken]
    exact plain_eq (t := Spot.scan ⟨_, column, T, indent, outer, false⟩ index line) rfl rfl
      hread hmove
  · have hlength := congrArg List.length hwritten
    simp [newLine] at hlength
    show tail.length ≤ written.length
    omega

/-! ## Texts in quotes -/

/-- A text in quotes is a token, and its line is led to its end. -/
theorem leads_quoted {q : Char} {read : (fuel : Nat) → List Char → TextStep}
    {body text : List Char}
    (hbegins : ∀ cs, BeginsToken (q :: cs)) (hq : ∀ s : Scan, ∀ cs, s.token q cs = s.quoted read)
    (hread : ∀ fuel, (body ++ (newLine n ++ tail)).length ≤ fuel →
      read fuel (body ++ (newLine n ++ tail)) = .ok (text, newLine n ++ tail))
    (ht : Resumes tail) (hin : indent ≤ column) :
    Leads ⟨q :: (body ++ (newLine n ++ tail)), column, T, indent, outer, false⟩
      ⟨tail, n, .scalar text false :: T, indent, outer, true⟩ := by
  intro ts hts index line
  obtain ⟨index', line', column', hmove⟩ := Cursor.exists_moveTo (u := q :: body)
    (v := newLine n ++ tail) (c := ⟨q :: (body ++ (newLine n ++ tail)), index, line, column⟩) rfl
  have hend :
    Spot.Finds ⟨newLine n ++ tail, column', .scalar text false :: T, indent, outer, false⟩ ts :=
    Spot.leads_newLine ht.toBeginsToken ts hts
  refine finds_of_token (arrive_spot (hbegins _) hin index line) rfl ?_ ?_ (hend index' line')
  · rw [hq]
    unfold Scan.quoted Scan.keyLike
    show (read ((body ++ (newLine n ++ tail)).length + 1) (body ++ (newLine n ++ tail)) >>= _
      : Except Fault Scan) = _
    rw [hread _ (Nat.le_succ _)]
    show (pure _ : Except Fault Scan) = _
    dsimp only [Scan.moveTo, Scan.withCursor, Scan.push, Spot.scan]
    rw [hmove]
    rfl
  · simp [Spot.scan]

/-! ## Keys -/

/-- The name of a field: a short word that is written plain and stands for a text. -/
structure IsFieldName (k : List Char) : Prop where
  nonempty : k ≠ []
  chars : ∀ c ∈ k, c.isAlphanum = true ∨ c = '_'
  short : k.length ≤ 100
  text : resolve k = .text

/-- The characters of names are none of those that mean something. -/
theorem IsFieldName.ordinary {k : List Char} (h : IsFieldName k) {c : Char} (hc : c ∈ k) :
    isOrdinary c = true ∧ isIndicator c = false ∧ c ≠ ' ' ∧ c ≠ ':' ∧ c ≠ '-' ∧ c ≠ '?'
    ∧ c ≠ '.' := by
  have hne : ∀ d : Char, d.isAlphanum = false → d ≠ '_' → c ≠ d := by
    rintro d hd hu rfl
    rcases h.chars c hc with h | h
    · rw [h] at hd
      exact absurd hd (by simp)
    · exact hu h
  refine ⟨?_, ?_, hne _ rfl (by decide), hne _ rfl (by decide), hne _ rfl (by decide),
    hne _ rfl (by decide), hne _ rfl (by decide)⟩
  · rcases h.chars c hc with h | rfl
    · have h : ((decide ('A'.val ≤ c.val ∧ c.val ≤ 'Z'.val)
          || decide ('a'.val ≤ c.val) && decide (c.val ≤ 'z'.val))
          || decide ('0'.val ≤ c.val) && decide (c.val ≤ '9'.val)) = true := h
      simp only [Bool.or_eq_true, Bool.and_eq_true, decide_eq_true_eq, UInt32.le_iff_toNat_le] at h
      have hA : 'A'.val.toNat = 65 := rfl
      have hZ : 'Z'.val.toNat = 90 := rfl
      have ha : 'a'.val.toNat = 97 := rfl
      have hz : 'z'.val.toNat = 122 := rfl
      have h0 : '0'.val.toNat = 48 := rfl
      have h9 : '9'.val.toNat = 57 := rfl
      have hn : c.toNat = c.val.toNat := rfl
      simp only [isOrdinary, Bool.and_eq_true, decide_eq_true_eq]
      omega
    · decide
  · rw [← Bool.not_eq_true]
    intro hi
    have hall : ∀ d, isIndicator d = true → d.isAlphanum = false ∧ d ≠ '_' := by
      intro d hd
      simp only [isIndicator, List.contains_iff_mem] at hd
      revert d
      simp
    exact hne c (hall c hi).1 (hall c hi).2 rfl

variable {k : List Char}

theorem IsFieldName.exists_cons (h : IsFieldName k) : ∃ c cs, k = c :: cs :=
  List.exists_cons_of_ne_nil h.nonempty

theorem IsFieldName.beginsToken (h : IsFieldName k) (after : List Char) :
    BeginsToken (k ++ after) := by
  obtain ⟨c, cs, rfl⟩ := h.exists_cons
  obtain ⟨ho, hi, hs, -⟩ := h.ordinary List.mem_cons_self
  exact beginsToken_of_isOrdinary ho hs (ne_of_isIndicator hi rfl) _

/-- A key is read up to its colon. -/
theorem readPlain_key (h : IsFieldName k) {after : List Char} (ha : blankNext after = true)
    (indent : Int) :
    readPlain false indent (k ++ ':' :: after) = ⟨k, false, ':' :: after⟩ := by
  have hend : plainWord false (':' :: after) = ([], ':' :: after) := by
    have hblank : isBlank (after.headD endMark) = true := by cases after <;> exact ha
    rw [plainWord]
    dsimp only
    rw [hblank]
    rfl
  have hword : ∀ w : List Char, (∀ c ∈ w, c ∈ k) →
      plainWord false (w ++ ':' :: after) = (w, ':' :: after) := by
    intro w hw
    induction w with
    | nil => exact hend
    | cons c w ih =>
      obtain ⟨ho, -, hs, hcolon, -⟩ := h.ordinary (hw c List.mem_cons_self)
      rw [List.cons_append, plainWord]
      dsimp only
      rw [ih fun d hd => hw d (List.mem_cons_of_mem _ hd),
        if_neg (by simp [isBlank_of_isOrdinary ho hs, hcolon])]
  have hgap : plainGap (':' :: after) = ⟨[], false, 0, ':' :: after⟩ := rfl
  have hempty : k.isEmpty = false := by simp [h.nonempty]
  unfold readPlain
  rw [plainText, hword k fun c hc => hc]
  dsimp only
  rw [hgap, hempty]
  simp

/-- The collections that are open at a key: a mapping is opened by its first key and is open at the
others. -/
inductive Opens (c : Nat) (T : List Token) (indent : Int) (outer : List Int) :
    List Token → List Int → Prop
  | first (h : indent < c) : Opens c T indent outer (.blockMappingStart :: T) (indent :: outer)
  | other (h : indent = c) : Opens c T indent outer T outer

theorem Opens.le {c : Nat} {T' : List Token} {outer' : List Int}
    (h : Opens c T indent outer T' outer') :
    indent ≤ c := by
  cases h with
  | first h => exact Int.le_of_lt h
  | other h => exact Int.le_of_eq h

/-- The scan behind a key, which is pending until its colon. -/
def behindKey (k after : List Char) (c : Nat) (T : List Token) (indent : Int) (outer : List Int)
    (index line : Nat) : Scan :=
  ⟨⟨':' :: after, index + k.length, line, c + k.length⟩, .scalar k true :: T, indent, outer, false,
    some ⟨T.length, indent == c, index, line, c⟩, []⟩

theorem token_key (h : IsFieldName k) {after : List Char} (ha : blankNext after = true) {c : Nat}
    (index line : Nat) {d : Char} {ds : List Char} (hk : k = d :: ds) :
    (Spot.scan ⟨k ++ ':' :: after, c, T, indent, outer, true⟩ index line).token d
    (ds ++ ':' :: after)
      = .ok (behindKey k after c T indent outer index line) := by
  obtain ⟨ho, hi, hs, hcolon, hdash, hquestion, hpoint⟩ := h.ordinary (hk ▸ List.mem_cons_self)
  have hstart : startsPlain (d :: 'a' :: ds) = true := by
    simp [startsPlain, hi, hcolon, hdash, hquestion]
  have hnext : isBlank ((ds ++ ':' :: after).headD endMark) = blankNext ('a' :: ds) := by
    cases ds with
    | nil => rfl
    | cons e es =>
      obtain ⟨he, -, hes, -⟩ := h.ordinary (c := e) (by simp [hk])
      exact isBlank_of_isOrdinary he hes
  have hmove : Cursor.moveTo ⟨k ++ ':' :: after, index, line, c⟩ (':' :: after)
      = ⟨':' :: after, index + k.length, line, c + k.length⟩ := by
    rw [Cursor.moveTo_append rfl]
    exact Cursor.skip_ordinary (fun e he => (h.ordinary he).1) _ _ _ _
  rw [token_plain rfl hstart (isBlank_of_isOrdinary ho hs) hnext fun _ => ⟨hdash, hpoint⟩]
  exact plain_eq (t := { Spot.scan ⟨k ++ ':' :: after, c, T, indent, outer, true⟩ index line with
    blockKey := some ⟨T.length, indent == c, index, line, c⟩ }) rfl rfl
      (readPlain_key h ha _) hmove

/-- A token is put in front of the later ones. -/
theorem insertAt_eq {s : Scan} (later : List Token) {earlier : List Token}
    (h : s.tokens = later ++ earlier) (t : Token) :
    s.insertAt earlier.length t = { s with tokens := later ++ t :: earlier } := by
  have hlater : s.tokens.length - earlier.length = later.length := by
    rw [h, List.length_append, Nat.add_sub_cancel]
  unfold Scan.insertAt
  dsimp only
  rw [hlater, h, List.take_left, List.drop_left]

/-- The pending key is made a key, in front of which its mapping is opened. -/
theorem confirmKey_behindKey {after : List Char} {c : Nat} (index line : Nat) {required : Bool}
    {T' : List Token} {outer' : List Int} (ho : Opens c T indent outer T' outer') :
    (behindKey k after c T indent outer index line).confirmKey ⟨T.length, required, index, line, c⟩
      = Spot.scan ⟨':' :: after, c + k.length, .scalar k true :: .key :: T', c, outer', false⟩
        (index + k.length) line := by
  have hkey :
    ((behindKey k after c T indent outer index line).setPending none).insertAt T.length .key
      = Spot.scan ⟨':' :: after, c + k.length, .scalar k true :: .key :: T, indent, outer, false⟩
        (index + k.length) line :=
    insertAt_eq [.scalar k true] rfl .key
  unfold Scan.confirmKey
  dsimp only
  rw [hkey]
  cases ho with
  | first h =>
    -- the mapping is opened in front of the key that was put there just before
    have hopen :
      Scan.indentTo (Spot.scan ⟨':' :: after, c + k.length, .scalar k true :: .key :: T, indent,
        outer, false⟩ (index + k.length) line) c
        = some (Spot.scan ⟨':' :: after, c + k.length, .scalar k true :: .key :: T, c,
        indent :: outer,
          false⟩ (index + k.length) line) := if_pos h
    have hstart := insertAt_eq [.scalar k true, .key]
      (s := Spot.scan ⟨':' :: after, c + k.length, .scalar k true :: .key :: T, c,
      indent :: outer, false⟩
        (index + k.length) line) rfl .blockMappingStart
    rw [hopen]
    dsimp only
    rw [hstart]
    rfl
  | other h =>
    have hopen :
      Scan.indentTo (Spot.scan ⟨':' :: after, c + k.length, .scalar k true :: .key :: T, indent,
        outer, false⟩ (index + k.length) line) c = none :=
      if_neg (by show ¬ indent < (c : Int); omega)
    rw [hopen, ← h]
    rfl

/-- The colon makes a key of what is pending. -/
theorem token_colon {after : List Char} (ha : blankNext after = true) {c : Nat} (index line : Nat)
    {T' : List Token} {outer' : List Int} (ho : Opens c T indent outer T' outer') :
    (behindKey k after c T indent outer index line).token ':' after
      = .ok (Spot.scan ⟨after, c + k.length + 1, .value :: .scalar k true :: .key :: T', c,
      outer', false⟩
        (index + k.length + 1) line) := by
  have hblank : isBlank (after.headD endMark) = true := by cases after <;> exact ha
  have htoken : (behindKey k after c T indent outer index line).token ':' after
      = (behindKey k after c T indent outer index line).value := by
    unfold Scan.token
    dsimp only
    rw [hblank]
    rfl
  rw [htoken]
  unfold Scan.value
  show Except.ok (((behindKey k after c T indent outer index line).confirmKey
    ⟨T.length, _, index, line, c⟩).take 1 .value) = _
  rw [confirmKey_behindKey index line ho]
  rfl

/-- The pending key is not too far away at its colon. -/
theorem arrive_behindKey (h : IsFieldName k) (after : List Char) {c : Nat} (hin : indent ≤ c)
    (index line : Nat) : (behindKey k after c T indent outer index line).arrive
      = .ok (behindKey k after c T indent outer index line) := by
  have hbegins : BeginsToken (behindKey k after c T indent outer index line).cursor.rest :=
    beginsToken_of_isOrdinary (by decide) (by decide) (by decide) after
  have hfresh : Scan.freshOrNone ⟨':' :: after, index + k.length, line, c + k.length⟩
      (some ⟨T.length, indent == c, index, line, c⟩)
      = .ok (some ⟨T.length, indent == c, index, line, c⟩) := by
    -- a pending key is given up on the next line or too many characters later
    have hshort := h.short
    refine if_pos ?_
    simp [Scan.isStale, Scan.keyReach]
    omega
  have hstale : (behindKey k after c T indent outer index line).dropStale
      = .ok (behindKey k after c T indent outer index line) := by
    unfold Scan.dropStale behindKey
    dsimp only
    rw [hfresh]
    rfl
  have hunwind : Scan.unwindTo ((c + k.length : Nat) : Int) outer indent (.scalar k true :: T)
      = (indent, outer, .scalar k true :: T) := by
    cases outer with
    | nil => rfl
    | cons i outer => exact if_neg (by omega)
  rw [Scan.arrive_eq hbegins hstale]
  show Except.ok ((behindKey k after c T indent outer index line).unwind (c + k.length : Nat)) = _
  unfold Scan.unwind behindKey
  dsimp only
  rw [hunwind]
  rfl

/-- **A key and its colon** are four tokens where the key is the first one of its mapping, and
three where it is not. -/
theorem leads_key (h : IsFieldName k) {after : List Char} (ha : blankNext after = true) {c : Nat}
    {T' : List Token} {outer' : List Int} (ho : Opens c T indent outer T' outer') :
    Leads ⟨k ++ ':' :: after, c, T, indent, outer, true⟩
      ⟨after, c + k.length + 1, .value :: .scalar k true :: .key :: T', c, outer', false⟩ := by
  intro ts hts index line
  obtain ⟨d, ds, hk⟩ := h.exists_cons
  -- two steps: the text is read as a plain one that may become a key, and the colon makes it one
  refine finds_of_token (arrive_spot (h.beginsToken _) ho.le index line) (by rw [hk]; rfl)
    (token_key h ha index line hk) ?_ ?_
  · simp [behindKey]
  · exact finds_of_token (arrive_behindKey h after ho.le index line) rfl
      (token_colon ha index line ho) (Nat.le_refl _) (hts _ _)

/-! ## Items and empty lists -/

/-- **The dash of an item** of a list under a key, which is not indented. -/
theorem leads_dash {c : Nat} (after : List Char) :
    Leads ⟨'-' :: ' ' :: after, c, T, c, outer, true⟩
      ⟨' ' :: after, c + 1, .blockEntry :: T, c, outer, true⟩ := by
  intro ts hts index line
  refine finds_of_token (arrive_spot ?_ (Int.le_refl _) index line) rfl ?_ (Nat.le_refl _)
    (hts (index + 1) line)
  · exact beginsToken_of_isOrdinary (by decide) (by decide) (by decide) _
  · have htoken :
        (Spot.scan ⟨'-' :: ' ' :: after, c, T, c, outer, true⟩ index line).token '-' (' ' :: after)
        = (Spot.scan ⟨'-' :: ' ' :: after, c, T, c, outer, true⟩ index line).blockEntry := by
      have hmarker : atMarker ('-' :: ' ' :: after) = false := by simp [atMarker]
      unfold Scan.token
      dsimp only
      rw [hmarker, Bool.and_false]
      rfl
    have hopen : (Spot.scan ⟨'-' :: ' ' :: after, c, T, c, outer, true⟩ index line).openAt
        .blockSequenceStart
          = Spot.scan ⟨'-' :: ' ' :: after, c, T, c, outer, true⟩ index line := by
      -- the list is open already, at this very column
      have hnone :
        Scan.indentTo (Spot.scan ⟨'-' :: ' ' :: after, c, T, c, outer, true⟩ index line) c
          = none := if_neg (Int.lt_irrefl _)
      unfold Scan.openAt
      rw [show ((Spot.scan ⟨'-' :: ' ' :: after, c, T, c, outer, true⟩ index line).cursor.column)
        = c
        from rfl, hnone]
    rw [htoken]
    unfold Scan.blockEntry
    show (Scan.dropPending
      { Scan.openAt (Spot.scan ⟨'-' :: ' ' :: after, c, T, c, outer, true⟩ index line)
      .blockSequenceStart with keyAllowed := true } >>= fun s => pure (s.take 1 .blockEntry)) = _
    rw [hopen]
    rfl

/-- **An empty list** is two tokens. -/
theorem leads_brackets (ht : Resumes tail) (hin : indent ≤ column) :
    Leads ⟨'[' :: ']' :: (newLine n ++ tail), column, T, indent, outer, false⟩
      ⟨tail, n, .flowSequenceEnd :: .flowSequenceStart :: T, indent, outer, true⟩ := by
  intro ts hts index line
  have hend :
    Spot.Finds ⟨newLine n ++ tail, column + 2, .flowSequenceEnd :: .flowSequenceStart :: T,
      indent, outer, false⟩ ts := Spot.leads_newLine ht.toBeginsToken ts hts
  -- the brackets are open between the two tokens
  refine finds_of_token
    (arrive_spot (beginsToken_of_isOrdinary (by decide) (by decide) (by decide) _) hin
    index line) rfl (t := ⟨⟨']' :: (newLine n ++ tail), index + 1, line, column + 1⟩,
      .flowSequenceStart :: T, indent, outer, true, none, [none]⟩) rfl (Nat.le_refl _) ?_
  refine finds_of_token ?_ rfl rfl (Nat.le_refl _) (hend (index + 2) line)
  exact Scan.arrive_eq (beginsToken_of_isOrdinary (by decide) (by decide) (by decide) _) rfl

/-! ## The end -/

/-- At the end of the text all collections are closed. -/
theorem finds_end (T : List Token) :
    Spot.Finds ⟨[], 0, T, 0, [-1], true⟩ (T.reverse ++ [.blockEnd]) := by
  intro index line
  have hb : BeginsToken ([] : List Char) := ⟨by simp, by simp, rfl, by simp⟩
  have hnext : (Spot.scan ⟨[], 0, T, 0, [-1], true⟩ index line).next
      = .ok (true, Spot.scan ⟨[], 0, .blockEnd :: T, -1, [], false⟩ index line) := by
    unfold Scan.next
    rw [arrive_spot hb (Int.le_refl _)]
    rfl
  have hfinds := Scan.Finds.last hnext
  rwa [show (Spot.scan ⟨[], 0, .blockEnd :: T, -1, [], false⟩ index line).tokens
    = .blockEnd :: T from rfl, List.reverse_cons] at hfinds

end EnumDecl.Yaml
