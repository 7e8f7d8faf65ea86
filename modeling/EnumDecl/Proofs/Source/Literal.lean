import EnumDecl.Proofs.Source.Quotation

/-!
# A reader finds the literals that were written

A string literal is read up to its own closing quote and no further, and as the text it was made
of, whatever stands behind it (`stringLiteral_in_any_context`). No character of the text can bring
this about any earlier: what would end the literal, or a line, is written as an escape
(`standsFor_escape`), and an escape is never read as a part of what follows it.

So a text that is put together from characters other than the quote and from whole literals falls
apart into the same pieces again (`MadeOf.pieces?_eq`).
-/

namespace EnumDecl.Source

/-! ## One character -/

/-- A character whose code point has four digits at most may be escaped by it. -/
theorem standsFor_hex {c : Char} (h : c.toNat < 0x10000) :
    StandsFor ('\\' :: 'u' :: Text.hex 4 c.toNat) c := by
  have hread : Text.readHex? (Text.hex 4 c.toNat) = some c.toNat := by
    rw [Text.hex, Text.readHex?_hexWith Text.hexValue?_hexDigit]
    exact congrArg some (Nat.mod_eq_of_lt h)
  obtain ⟨w, x, y, z, hdigits⟩ : ∃ w x y z, Text.hex 4 c.toNat = [w, x, y, z] := ⟨_, _, _, _, rfl⟩
  rw [hdigits] at hread ⊢
  obtain ⟨i, j, k, l, hw, hx, hy, hz, hc⟩ := readHex?_eq_some_iff.mp hread
  exact .code hw hx hy hz hc

/-- **The escape of a character stands for it.** -/
theorem standsFor_escape (c : Char) : StandsFor (escape c) c := by
  unfold escape
  split_ifs with hbackslash hquote hfeed hreturn htab hnul hline
  · subst hbackslash
    exact .letter (by decide)
  · subst hquote
    exact .letter (by decide)
  · subst hfeed
    exact .letter (by decide)
  · subst hreturn
    exact .letter (by decide)
  · subst htab
    exact .letter (by decide)
  · subst hnul
    exact .letter (by decide)
  · simp only [Bool.or_eq_true, decide_eq_true_eq] at hline
    rcases hline with (rfl | rfl) | rfl
    · exact standsFor_hex (by decide)
    · exact standsFor_hex (by decide)
    · exact standsFor_hex (by decide)
  · simp only [Bool.or_eq_true, decide_eq_true_eq, not_or] at hline
    exact .plain ⟨hquote, hbackslash, by simp [hfeed, hreturn, hline]⟩

/-! ## A whole literal -/

theorem contents_flatMap_escape (cs : List Char) : Contents (cs.flatMap escape) cs := by
  induction cs with
  | nil => exact .nil
  | cons c cs ih =>
    rw [List.flatMap_cons]
    exact .cons (standsFor_escape c) ih

theorem isStringLiteral_stringChars (cs : List Char) : IsStringLiteral (stringChars cs) cs :=
  .quoted (contents_flatMap_escape cs)

/-- **A literal is read as the text it was made of, and nothing after it is touched.** -/
theorem readString?_stringChars (cs rest : List Char) :
    readString? (stringChars cs ++ rest) = some (cs, rest) :=
  readString?_eq_some_iff.mpr ⟨_, isStringLiteral_stringChars cs, rfl⟩

/--
**A text written as a literal is found in any context.** Whatever comes after it, a reader takes
the literal and no more, and as the text it was made of. By the grammar there is no other literal
in that place, and it is the literal of no other text.
-/
theorem stringLiteral_in_any_context (s : String) (rest : List Char) :
    readString? ((stringLiteral s).toList ++ rest) = some (s.toList, rest) ∧
    ∀ literal text behind,
      (IsStringLiteral literal text ∧ literal ++ behind = (stringLiteral s).toList ++ rest) ↔
        literal = (stringLiteral s).toList ∧ text = s.toList ∧ behind = rest := by
  have hchars : (stringLiteral s).toList = stringChars s.toList := String.toList_ofList
  rw [hchars]
  refine ⟨readString?_stringChars s.toList rest, fun literal text behind => ⟨?_, ?_⟩⟩
  · rintro ⟨hliteral, hcut⟩
    exact hliteral.unique (isStringLiteral_stringChars s.toList) hcut
  · rintro ⟨rfl, rfl, rfl⟩
    exact ⟨isStringLiteral_stringChars s.toList, rfl⟩

/-! ## Pieces -/

/-- The text of a piece. -/
def Piece.chars : Piece → List Char
  | .outside c => [c]
  | .string text => stringChars text

/-- A text put together from pieces, none of which is a quote by itself. -/
structure MadeOf (cs : List Char) (ps : List Piece) : Prop where
  chars : ps.flatMap Piece.chars = cs
  quoteless : Piece.outside '\x22' ∉ ps

theorem readPieces?_flatMap_chars {ps : List Piece} (h : Piece.outside '\x22' ∉ ps) {fuel : Nat}
    (hfuel : (ps.flatMap Piece.chars).length < fuel) :
    readPieces? fuel (ps.flatMap Piece.chars) = some ps := by
  induction ps generalizing fuel with
  | nil =>
    obtain ⟨fuel, rfl⟩ := Nat.exists_eq_add_one_of_ne_zero (Nat.ne_of_gt hfuel)
    rfl
  | cons p ps ih =>
    obtain ⟨fuel, rfl⟩ := Nat.exists_eq_add_one_of_ne_zero (Nat.ne_zero_of_lt hfuel)
    have hps : Piece.outside '\x22' ∉ ps := fun hmem => h (List.mem_cons_of_mem _ hmem)
    rw [List.flatMap_cons, List.length_append] at hfuel
    rw [List.flatMap_cons]
    cases p with
    | outside c =>
      have hne : c ≠ '\x22' := by
        rintro rfl
        exact h List.mem_cons_self
      have hless : (ps.flatMap Piece.chars).length < fuel := by
        simp only [Piece.chars, List.length_singleton] at hfuel
        omega
      rw [Piece.chars, List.singleton_append, readPieces?, if_neg hne, ih hps hless]
      rfl
    | string text =>
      have hread := readString?_stringChars text (ps.flatMap Piece.chars)
      -- of the fuel one is taken, and of the text two quotes at least
      have hless : (ps.flatMap Piece.chars).length < fuel := by
        simp only [Piece.chars, stringChars, List.length_append, List.length_cons] at hfuel
        omega
      rw [Piece.chars]
      rw [show stringChars text ++ ps.flatMap Piece.chars
        = '\x22' :: (text.flatMap escape ++ ['\x22'] ++ ps.flatMap Piece.chars) from
        rfl] at hread ⊢
      rw [readPieces?, if_pos rfl, hread]
      show (readPieces? fuel (ps.flatMap Piece.chars) >>= fun qs => some (.string text :: qs)) = _
      rw [ih hps hless]
      rfl

namespace MadeOf

/-- **A text falls apart into the pieces it was made of.** -/
theorem pieces?_eq {cs : List Char} {ps : List Piece} (h : MadeOf cs ps) :
    pieces? cs = some ps := by
  rw [← h.chars]
  exact readPieces?_flatMap_chars h.quoteless (Nat.lt_succ_self _)

theorem append {cs ds : List Char} {ps qs : List Piece} (h : MadeOf cs ps) (k : MadeOf ds qs) :
    MadeOf (cs ++ ds) (ps ++ qs) where
  chars := by rw [List.flatMap_append, h.chars, k.chars]
  quoteless := fun hmem => (List.mem_append.mp hmem).elim h.quoteless k.quoteless

theorem string (text : List Char) : MadeOf (stringChars text) [.string text] where
  chars := List.flatMap_singleton ..
  quoteless := by simp

/-- A text without quotes is made of its characters. -/
theorem outside {cs : List Char} (h : '\x22' ∉ cs) : MadeOf cs (cs.map .outside) where
  chars := by
    rw [List.flatMap_map]
    exact List.flatMap_singleton' cs
  quoteless := by
    intro hmem
    obtain ⟨c, hc, he⟩ := List.mem_map.mp hmem
    rw [Piece.outside.inj he] at hc
    exact h hc

end MadeOf

end EnumDecl.Source
