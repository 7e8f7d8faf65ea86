import EnumDecl.Source.Scan
import Mathlib.Tactic.SplitIfs

/-!
# The grammar of string literals

`Source.Scan` reads a literal from left to right and decides on each character as it comes. The
grammar says without any reading which texts are literals, and of what: between two quotes stands
one character after another, each as itself or as an escape (`IsStringLiteral`). What ends the
literal or the line, or begins an escape, does not stand for itself.

The reader finds the literals of the grammar and no others (`readString?_eq_some_iff`). As it reads
in one way only, a text begins with one literal at most, and that is the literal of one text
(`IsStringLiteral.unique`).
-/

namespace EnumDecl.Source

/-! ## The grammar -/

/-- A character that may stand for itself. -/
structure IsOrdinary (c : Char) : Prop where
  /-- It does not end the literal. -/
  notQuote : c ≠ '\x22'
  /-- It does not begin an escape. -/
  notBackslash : c ≠ '\\'
  /-- It does not end the line. -/
  notLineEnd : c ∉ ['\n', '\r', '\u0085', '\u2028', '\u2029']

/-- The letters that may come behind a backslash, and what they stand for there. -/
def letterEscapes : List (Char × Char) :=
  [('\\', '\\'), ('\x22', '\x22'), ('n', '\n'), ('r', '\r'), ('t', '\t'), ('0', '\x00')]

/-- A hexadecimal digit of either case and its number. -/
inductive HexDigit : Char → Nat → Prop
  | /-- One of the ten digits. -/
    decimal {c : Char} {n : Nat} (hn : n < 10) (hc : c.toNat = '0'.toNat + n) : HexDigit c n
  | /-- One of six small letters. -/
    small {c : Char} {n : Nat} (hn : n < 6) (hc : c.toNat = 'a'.toNat + n) : HexDigit c (10 + n)
  | /-- One of six capital letters. -/
    capital {c : Char} {n : Nat} (hn : n < 6) (hc : c.toNat = 'A'.toNat + n) : HexDigit c (10 + n)

/-- What stands for a character inside of a literal. -/
inductive StandsFor : List Char → Char → Prop
  | /-- An ordinary character stands for itself. -/
    plain {c : Char} (h : IsOrdinary c) : StandsFor [c] c
  | /-- A backslash and a letter. -/
    letter {l c : Char} (h : (l, c) ∈ letterEscapes) : StandsFor ['\\', l] c
  | /-- A backslash, a `u` and the code point in exactly four digits. -/
    code {w x y z c : Char} {i j k l : Nat} (hw : HexDigit w i) (hx : HexDigit x j)
      (hy : HexDigit y k)
    (hz : HexDigit z l) (hc : c.toNat = 0x1000 * i + 0x100 * j + 0x10 * k + l) :
    StandsFor ['\\', 'u', w, x, y, z] c

/-- What stands for a text inside of a literal. -/
inductive Contents : List Char → List Char → Prop
  | /-- Nothing stands for nothing. -/
    nil : Contents [] []
  | /-- A character comes before the others. -/
    cons {unit cs text : List Char} {c : Char} (first : StandsFor unit c)
      (others : Contents cs text) :
    Contents (unit ++ cs) (c :: text)

/-- A literal and the text it is the literal of. -/
inductive IsStringLiteral : List Char → List Char → Prop
  | /-- What stands for a text, between quotes. -/
    quoted {cs text : List Char} (inside : Contents cs text) :
    IsStringLiteral ('\x22' :: cs ++ ['\x22']) text

/-! ## One character -/

theorem hexValue?_eq_some_iff {c : Char} {n : Nat} : Text.hexValue? c = some n ↔ HexDigit c n := by
  have h0 : '0'.toNat = 0x30 := rfl
  have h9 : '9'.toNat = 0x39 := rfl
  have ha : 'a'.toNat = 0x61 := rfl
  have hf : 'f'.toNat = 0x66 := rfl
  have hA : 'A'.toNat = 0x41 := rfl
  have hF : 'F'.toNat = 0x46 := rfl
  unfold Text.hexValue?
  simp only [Bool.and_eq_true, decide_eq_true_eq, Char.le_def, UInt32.le_iff_toNat_le,
    Char.toNat_val]
  constructor
  · intro h
    split_ifs at h with hdecimal hsmall hcapital
    · cases h
      exact .decimal (by omega) (by omega)
    · obtain rfl : 10 + (c.toNat - 0x61) = n := by
        have := Option.some.inj h
        omega
      exact .small (by omega) (by omega)
    · obtain rfl : 10 + (c.toNat - 0x41) = n := by
        have := Option.some.inj h
        omega
      exact .capital (by omega) (by omega)
  · rintro (⟨hn, hc⟩ | ⟨hn, hc⟩ | ⟨hn, hc⟩)
    · rw [if_pos (by omega), hc]
      exact congrArg some (by omega)
    · rw [if_neg (by omega), if_pos (by omega), hc]
      exact congrArg some (by omega)
    · rw [if_neg (by omega), if_neg (by omega), if_pos (by omega), hc]
      exact congrArg some (by omega)

/-- Four digits are read as one number. -/
theorem readHex?_eq_some_iff {w x y z : Char} {n : Nat} :
    Text.readHex? [w, x, y, z] = some n ↔ ∃ i j k l, HexDigit w i ∧ HexDigit x j ∧ HexDigit y k
      ∧ HexDigit z l ∧ n = 0x1000 * i + 0x100 * j + 0x10 * k + l := by
  simp only [Text.readHex?, List.foldl_cons, List.foldl_nil, Option.bind_eq_bind, Option.pure_def,
    Option.bind_eq_some_iff, Option.some.injEq, hexValue?_eq_some_iff]
  constructor
  · rintro ⟨_, ⟨_, ⟨_, ⟨_, rfl, i, hi, rfl⟩, j, hj, rfl⟩, k, hk, rfl⟩, l, hl, rfl⟩
    exact ⟨i, j, k, l, hi, hj, hk, hl, by omega⟩
  · rintro ⟨i, j, k, l, hi, hj, hk, hl, rfl⟩
    exact ⟨_, ⟨_, ⟨_, ⟨_, rfl, i, hi, rfl⟩, j, hj, rfl⟩, k, hk, rfl⟩, l, hl, by omega⟩

theorem letterEscape?_eq_some_iff {l c : Char} :
    letterEscape? l = some c ↔ (l, c) ∈ letterEscapes := by
  constructor
  · intro h
    unfold letterEscape? at h
    split_ifs at h with hself hfeed hreturn htab hnul
    · cases h
      simp only [Bool.or_eq_true, decide_eq_true_eq] at hself
      rcases hself with rfl | rfl
      · decide
      · decide
    all_goals
      subst l
      cases h
      decide
  · intro h
    simp only [letterEscapes, List.mem_cons, List.not_mem_nil, or_false, Prod.mk.injEq] at h
    rcases h with ⟨rfl, rfl⟩ | ⟨rfl, rfl⟩ | ⟨rfl, rfl⟩ | ⟨rfl, rfl⟩ | ⟨rfl, rfl⟩ | ⟨rfl, rfl⟩
    all_goals rfl

/-- What is not escaped by its number is escaped by a letter. -/
theorem readEscape?_of_ne {l : Char} (hl : l ≠ 'u') (rest : List Char) :
    readEscape? (l :: rest) = (letterEscape? l).map fun c => (c, rest) := by
  unfold readEscape?
  split
  · rename_i heq
    exact absurd (List.cons.inj heq).1 hl
  · rename_i heq
    obtain ⟨rfl, rfl⟩ := List.cons.inj heq
    rfl
  · rename_i heq
    exact absurd heq (List.cons_ne_nil _ _)

theorem isLineEnd_eq_true_iff {c : Char} :
    isLineEnd c = true ↔ c ∈ ['\n', '\r', '\u0085', '\u2028', '\u2029'] := by
  simp [isLineEnd, or_assoc]

/-- What stands for a character does not begin with a quote. -/
theorem StandsFor.head?_ne {unit : List Char} {c : Char} (h : StandsFor unit c) :
    ∃ d ds, unit = d :: ds ∧ d ≠ '\x22' := by
  cases h with
  | plain h => exact ⟨_, _, rfl, h.notQuote⟩
  | letter h => exact ⟨_, _, rfl, by decide⟩
  | code => exact ⟨_, _, rfl, by decide⟩

/-- **What stands for a character is read as that character**, in front of anything. -/
theorem StandsFor.readUnit?_eq {unit : List Char} {c : Char} (h : StandsFor unit c)
    (rest : List Char) :
    readUnit? (unit ++ rest) = some (c, rest) := by
  cases h with
  | plain h =>
    have hend : isLineEnd c = false := by
      rw [Bool.eq_false_iff]
      exact fun hc => h.notLineEnd (isLineEnd_eq_true_iff.mp hc)
    rw [List.singleton_append, readUnit?, if_neg h.notBackslash,
      if_neg (by simp [h.notQuote, hend])]
  | @letter l _ h =>
    have hl : l ≠ 'u' := by
      rintro rfl
      exact absurd h (by simp [letterEscapes])
    show readEscape? (l :: rest) = _
    rw [readEscape?_of_ne hl, letterEscape?_eq_some_iff.mpr h]
    rfl
  | @code w x y z _ i j k l hw hx hy hz hc =>
    have hread : Text.readHex? [w, x, y, z] = some c.toNat :=
      readHex?_eq_some_iff.mpr ⟨i, j, k, l, hw, hx, hy, hz, hc⟩
    have hvalid : c.toNat.isValidChar := c.valid
    show readEscape? ('u' :: w :: x :: y :: z :: rest) = _
    simp only [readEscape?, hread, Option.bind_eq_bind, Option.bind_some, if_pos hvalid,
      Char.ofNat_toNat]

/-- What is read behind a backslash is an escape. -/
theorem exists_of_readEscape? {cs rest : List Char} {c : Char}
    (h : readEscape? cs = some (c, rest)) :
    ∃ unit, StandsFor ('\\' :: unit) c ∧ cs = unit ++ rest := by
  cases cs with
  | nil => exact absurd h (by simp [readEscape?])
  | cons l cs =>
    by_cases hl : l = 'u'
    · subst hl
      unfold readEscape? at h
      split at h
      · rename_i w x y z behind heq
        obtain ⟨-, rfl⟩ := List.cons.inj heq
        simp only [Option.bind_eq_bind, Option.bind_eq_some_iff] at h
        obtain ⟨n, hread, h⟩ := h
        split_ifs at h with hvalid
        obtain ⟨rfl, rfl⟩ := Prod.mk.inj (Option.some.inj h)
        obtain ⟨i, j, k, l, hw, hx, hy, hz, hn⟩ := readHex?_eq_some_iff.mp hread
        have hcode : (Char.ofNat n).toNat = n := by
          rw [Char.ofNat, dif_pos hvalid]
          rfl
        exact ⟨['u', w, x, y, z], .code hw hx hy hz (hcode.trans hn), rfl⟩
      · rename_i heq
        obtain ⟨rfl, -⟩ := List.cons.inj heq
        exact absurd h (by simp [letterEscape?])
      · exact absurd h (by simp)
    · rw [readEscape?_of_ne hl, Option.map_eq_some_iff] at h
      obtain ⟨d, hd, h⟩ := h
      obtain ⟨rfl, rfl⟩ := Prod.mk.inj h
      exact ⟨[l], .letter (letterEscape?_eq_some_iff.mp hd), rfl⟩

/-- **What is read as a character stands for it.** -/
theorem exists_of_readUnit? {cs rest : List Char} {c : Char} (h : readUnit? cs = some (c, rest)) :
    ∃ unit, StandsFor unit c ∧ cs = unit ++ rest := by
  cases cs with
  | nil => exact absurd h (by simp [readUnit?])
  | cons d cs =>
    rw [readUnit?] at h
    split_ifs at h with hbackslash hends
    · subst hbackslash
      obtain ⟨unit, hunit, rfl⟩ := exists_of_readEscape? h
      exact ⟨_, hunit, rfl⟩
    · obtain ⟨rfl, rfl⟩ := Prod.mk.inj (Option.some.inj h)
      simp only [Bool.or_eq_true, decide_eq_true_eq, not_or] at hends
      exact ⟨[d],
        .plain ⟨hends.1, hbackslash, fun hc => hends.2 (isLineEnd_eq_true_iff.mpr hc)⟩, rfl⟩

/-! ## A whole literal -/

theorem Contents.length_le {cs text : List Char} (h : Contents cs text) :
    text.length ≤ cs.length := by
  induction h with
  | nil => exact Nat.le_refl 0
  | cons first others ih =>
    obtain ⟨d, ds, rfl, -⟩ := first.head?_ne
    rw [List.length_append, List.length_cons, List.length_cons]
    omega

/-- One character is read, and then the others. -/
theorem StandsFor.readUnits?_eq {unit : List Char} {c : Char} (h : StandsFor unit c) (fuel : Nat)
    (rest : List Char) :
    readUnits? (fuel + 1) (unit ++ rest)
      = (readUnits? fuel rest).map fun p => (c :: p.1, p.2) := by
  have hread := h.readUnit?_eq rest
  obtain ⟨d, ds, rfl, hne⟩ := h.head?_ne
  rw [List.cons_append] at hread ⊢
  rw [readUnits?.eq_def (fuel + 1)]
  dsimp only
  split
  · rename_i heq
    exact absurd (List.cons.inj heq).1 hne
  · rw [hread]
    show (readUnits? fuel rest >>= fun p => some (c :: p.1, p.2)) = _
    cases readUnits? fuel rest with
    | none => rfl
    | some p => rfl

theorem Contents.readUnits?_eq {cs text : List Char} (h : Contents cs text) {fuel : Nat}
    (hfuel : text.length < fuel) (rest : List Char) :
    readUnits? fuel (cs ++ '\x22' :: rest) = some (text, rest) := by
  induction h generalizing fuel with
  | nil =>
    obtain ⟨fuel, rfl⟩ := Nat.exists_eq_add_one_of_ne_zero (Nat.ne_of_gt hfuel)
    rfl
  | cons first others ih =>
    obtain ⟨fuel, rfl⟩ := Nat.exists_eq_add_one_of_ne_zero (Nat.ne_zero_of_lt hfuel)
    rw [List.append_assoc, first.readUnits?_eq, ih (Nat.lt_of_succ_lt_succ hfuel)]
    rfl

theorem exists_of_readUnits? {fuel : Nat} {cs text rest : List Char}
    (h : readUnits? fuel cs = some (text, rest)) :
    ∃ inside, Contents inside text ∧ cs = inside ++ '\x22' :: rest := by
  induction fuel generalizing cs text with
  | zero => exact absurd h (by simp [readUnits?])
  | succ fuel ih =>
    rw [readUnits?.eq_def (fuel + 1)] at h
    dsimp only at h
    split at h
    · obtain ⟨rfl, rfl⟩ := Prod.mk.inj (Option.some.inj h)
      exact ⟨[], .nil, rfl⟩
    · simp only [Option.bind_eq_bind, Option.bind_eq_some_iff] at h
      obtain ⟨⟨c, behind⟩, hfirst, ⟨others, after⟩, hothers, h⟩ := h
      obtain ⟨rfl, rfl⟩ := Prod.mk.inj (Option.some.inj h)
      obtain ⟨unit, hunit, rfl⟩ := exists_of_readUnit? hfirst
      obtain ⟨inside, hinside, rfl⟩ := ih hothers
      exact ⟨unit ++ inside, .cons hunit hinside, (List.append_assoc ..).symm⟩

/-- **A reader finds the literals of the grammar and no others**, and leaves what comes after. -/
theorem readString?_eq_some_iff {cs text rest : List Char} :
    readString? cs = some (text, rest)
      ↔ ∃ literal, IsStringLiteral literal text ∧ cs = literal ++ rest := by
  constructor
  · intro h
    unfold readString? at h
    split at h
    · obtain ⟨inside, hinside, rfl⟩ := exists_of_readUnits? h
      exact ⟨_, .quoted hinside, by simp⟩
    · exact absurd h (by simp)
  · rintro ⟨_, @⟨inside, _, hinside⟩, rfl⟩
    have hlength := hinside.length_le
    have hcs : '\x22' :: inside ++ ['\x22'] ++ rest = '\x22' :: (inside ++ '\x22' :: rest) := by
      simp
    rw [hcs, readString?]
    refine hinside.readUnits?_eq ?_ rest
    rw [List.length_append, List.length_cons]
    omega

/-- A digit behind an escape is one of the text, and one behind the literal is left. -/
example : readString? ['\x22', '\\', '0', '7', '\x22', '5'] = some (['\x00', '7'], ['5']) := by
  decide

/-- **A text begins with one literal at most**, and that is the literal of one text. -/
theorem IsStringLiteral.unique {literal literal' text text' rest rest' : List Char}
    (h : IsStringLiteral literal text) (h' : IsStringLiteral literal' text')
    (he : literal ++ rest = literal' ++ rest') :
    literal = literal' ∧ text = text' ∧ rest = rest' := by
  have hread : readString? (literal ++ rest) = some (text, rest) :=
    readString?_eq_some_iff.mpr ⟨literal, h, rfl⟩
  rw [readString?_eq_some_iff.mpr ⟨literal', h', he⟩] at hread
  obtain ⟨rfl, rfl⟩ := Prod.mk.inj (Option.some.inj hread)
  exact ⟨List.append_cancel_right he, rfl, rfl⟩

end EnumDecl.Source
