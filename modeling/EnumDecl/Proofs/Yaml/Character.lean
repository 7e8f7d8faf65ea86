import EnumDecl.Yaml.Quoted
import Mathlib

/-!
# What the readers of YAML text leave out

The characters that stand for themselves are those that can be printed. Of the white space among
them there is only the space, and none of them ends a line.

Where a line of a text is broken, the next one is indented, and its indentation is left out when it
is read. That works because what follows the indentation is dense: it begins with a character that
is neither white space nor the end of a line.
-/

namespace EnumDecl.Yaml

/-! ## Characters -/

theorem toNat_of_isOrdinary {c : Char} (h : isOrdinary c = true) :
    0x20 ≤ c.toNat ∧ c.toNat ≤ 0x7E := by
  simpa [isOrdinary] using h

/-- A character that stands for itself in quotes is none of those that end a line. -/
theorem isBreakOrEnd_of_isOrdinary {c : Char} (h : isOrdinary c = true) :
    isBreakOrEnd c = false := by
  have hc := toNat_of_isOrdinary h
  have hne : ∀ d : Char, d.toNat < 0x20 ∨ 0x7E < d.toNat → c ≠ d := by
    rintro d hd rfl
    omega
  simp [isBreakOrEnd, isBreak, isFeed, endMark, hne]

/-- The only white space among such characters is the space. -/
theorem isBlank_of_isOrdinary {c : Char} (h : isOrdinary c = true) (hs : c ≠ ' ') :
    isBlank c = false := by
  have htab : c ≠ '\t' := by
    rintro rfl
    exact absurd h (by decide)
  simp [isBlank, isSpaceOrEnd, isBreakOrEnd_of_isOrdinary h, hs, htab]

theorem isSpaceOrTab_of_isOrdinary {c : Char} (h : isOrdinary c = true) (hs : c ≠ ' ') :
    isSpaceOrTab c = false := by
  have htab : c ≠ '\t' := by
    rintro rfl
    exact absurd h (by decide)
  simp [isSpaceOrTab, hs, htab]

theorem isBreak_of_isOrdinary {c : Char} (h : isOrdinary c = true) : isBreak c = false := by
  have := isBreakOrEnd_of_isOrdinary h
  rw [isBreakOrEnd, Bool.or_eq_false_iff] at this
  exact this.2

theorem lineBreak?_of_not_isBreak {c : Char} (h : isBreak c = false) (cs : List Char) :
    lineBreak? (c :: cs) = none := by
  simp only [isBreak, isFeed, Bool.or_eq_false_iff, beq_eq_false_iff_ne] at h
  simp [lineBreak?, h]

/-! ## Texts -/

/-- Text of line feeds and characters that stand for themselves, as all that is written. -/
def IsPrintable (cs : List Char) : Prop := ∀ c ∈ cs, c = '\n' ∨ isOrdinary c = true

variable {cs ds : List Char}

theorem isPrintable_append : IsPrintable (cs ++ ds) ↔ IsPrintable cs ∧ IsPrintable ds :=
  List.forall_mem_append

theorem isPrintable_cons {c : Char} :
    IsPrintable (c :: cs) ↔ (c = '\n' ∨ isOrdinary c = true) ∧ IsPrintable cs :=
  List.forall_mem_cons

theorem isPrintable_nil : IsPrintable [] := fun c hc => absurd hc (by simp)

theorem isPrintable_of_all (h : cs.all isOrdinary = true) : IsPrintable cs :=
  fun c hc => Or.inr (List.all_eq_true.mp h c hc)

theorem isPrintable_newLine (n : Nat) : IsPrintable (newLine n) :=
  isPrintable_cons.mpr ⟨Or.inl rfl, fun c hc => Or.inr (by rw [(List.mem_replicate.mp hc).2]; rfl)⟩

/-- Such text may be read. -/
theorem IsPrintable.isAllowed (h : IsPrintable cs) : cs.all Yaml.isAllowed = true := by
  rw [List.all_eq_true]
  intro c hc
  rcases h c hc with rfl | ho
  · rfl
  · obtain ⟨hlow, hhigh⟩ := toNat_of_isOrdinary ho
    simp [Yaml.isAllowed, hlow, hhigh]

/-! ## The white space that is left out -/

/-- A rest that begins with a character that is no white space and ends no line. -/
def StartsDense (cs : List Char) : Prop :=
  ∃ c rest, cs = c :: rest ∧ isSpaceOrTab c = false ∧ isBreak c = false

theorem StartsDense.lineBreak? {cs : List Char} (h : StartsDense cs) :
    Yaml.lineBreak? cs = none := by
  obtain ⟨c, rest, rfl, -, hb⟩ := h
  exact lineBreak?_of_not_isBreak hb rest

theorem StartsDense.dropWhile {cs : List Char} (h : StartsDense cs) (n : Nat) :
    (List.replicate n ' ' ++ cs).dropWhile isSpaceOrTab = cs := by
  obtain ⟨c, rest, rfl, hs, -⟩ := h
  rw [List.dropWhile_append_of_pos fun d hd => by rw [(List.mem_replicate.mp hd).2]; rfl,
    List.dropWhile_cons_of_neg (by simp [hs])]

/-- An indented line does not begin with the mark between documents. -/
theorem atMarker_indented (n : Nat) (cs : List Char) :
    atMarker (List.replicate (n + 1) ' ' ++ cs) = false := by
  simp [atMarker, List.replicate_succ]

/-- The indentation of a line is left out. -/
theorem quotedBreaks_indented {cs : List Char} (h : StartsDense cs) (n fuel : Nat) :
    quotedBreaks (fuel + 1) (List.replicate (n + 1) ' ' ++ cs) = .ok ([], cs) := by
  rw [quotedBreaks, if_neg (by simp [atMarker_indented])]
  dsimp only
  rw [h.dropWhile, h.lineBreak?]

/-! ## White space that is kept -/

theorem prepend_prepend (a b : List Char) (r : TextStep) :
    prepend a (prepend b r) = prepend (a ++ b) r := by
  cases r with
  | error f => rfl
  | ok p => simp [prepend, Except.map]

/-- White space within a line stays. -/
theorem quotedSpace_of_dense {cs : List Char} (h : StartsDense cs) (n : Nat) :
    quotedSpace (List.replicate n ' ' ++ cs) = .ok (List.replicate n ' ', cs) := by
  have htake : (List.replicate n ' ' ++ cs).takeWhile isSpaceOrTab = List.replicate n ' ' := by
    obtain ⟨c, rest, rfl, hs, -⟩ := h
    rw [List.takeWhile_append_of_pos fun d hd => by rw [(List.mem_replicate.mp hd).2]; rfl,
      List.takeWhile_cons_of_neg (by simp [hs]), List.append_nil]
  unfold quotedSpace
  dsimp only
  rw [h.dropWhile, h.lineBreak?, htake]
  obtain ⟨c, rest, rfl, -, -⟩ := h
  rfl

end EnumDecl.Yaml
