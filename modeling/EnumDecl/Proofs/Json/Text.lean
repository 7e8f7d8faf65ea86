import EnumDecl.Json.Reader
import EnumDecl.Json.Writer
import Mathlib

/-!
# Texts in JSON

Every character is written as the units that stand for it, each as itself or as an escape, and the
reader collects units before it makes characters of them. So there are two halves. An escape is
read as the units of its character (`readUnits_escape`), and the units of characters make those
characters again (`ofUnits_units`). The second would fail if one character's last unit could go
together with the next one's first. It cannot, because half of a surrogate pair is not a character.
-/

namespace EnumDecl.Json

/-! ## Units are read as they are written -/

/-- The units that stand for a character: its code point, or a surrogate pair. -/
def units (c : Char) : List Nat :=
  if c.toNat ≤ 0xFFFF then [c.toNat] else [highUnit c.toNat, lowUnit c.toNat]

/-- Puts units in front of those that are read after them. -/
def pushUnits (ns : List Nat) (r : Step (List Nat)) : Step (List Nat) := ns.foldr pushUnit r

variable {start rest : List Char}

theorem readUnits_plain {c : Char} (hq : c ≠ '\x22') (hb : c ≠ '\\') (hc : 0x20 ≤ c.toNat) :
    readUnits start (c :: rest) = pushUnit c.toNat (readUnits start rest) := by
  rw [readUnits.eq_def]
  dsimp only
  rw [if_neg hq, if_neg (Nat.not_lt.mpr hc), if_pos hb]

theorem readUnits_short {x y : Char} (hy : shortEscape? x = some y) :
    readUnits start ('\\' :: x :: rest) = pushUnit y.toNat (readUnits start rest) := by
  have hu : x ≠ 'u' := by
    rintro rfl
    exact absurd hy (by simp [shortEscape?])
  rw [readUnits.eq_def]
  dsimp only
  rw [if_neg (by decide), if_neg (by decide), if_neg (not_not_intro rfl)]
  split
  · rename_i he
    exact absurd he (by simp)
  · rename_i he
    exact absurd (List.cons.inj he).1 hu
  · rename_i he
    obtain ⟨rfl, rfl⟩ := List.cons.inj he
    rw [if_neg hu, hy]

theorem readUnits_escapeUnit {n : Nat} (hn : n < 0x10000) (hrest : rest ≠ []) :
    readUnits start (escapeUnit n ++ rest) = pushUnit n (readUnits start rest) := by
  have hhex : Text.readHex? (Text.hex 4 n) = some n := by
    have hpow : n < Nat.pow 16 4 := hn
    rw [Text.hex, Text.readHex?_hexWith Text.hexValue?_hexDigit, Nat.mod_eq_of_lt hpow]
  unfold escapeUnit
  have hlen : (Text.hex 4 n).length = 4 := Text.length_hexWith _ 4 n
  match hd : Text.hex 4 n, hlen with
  | [p, q, r, s], _ =>
    rw [hd] at hhex
    have hempty : rest.isEmpty = false := by simp [hrest]
    simp only [List.cons_append, List.nil_append]
    rw [readUnits.eq_def]
    dsimp only
    rw [if_neg (by decide), if_neg (by decide), if_neg (not_not_intro rfl)]
    simp only [hempty, hhex]

/-- A character is no half of a surrogate pair. -/
theorem toNat_cases (c : Char) : c.toNat < 0xD800 ∨ (0xDFFF < c.toNat ∧ c.toNat < 0x110000) :=
  c.valid

theorem high_lt (c : Char) : highUnit c.toNat < 0x10000 := by
  have hc := toNat_cases c
  unfold highUnit
  omega

theorem low_lt (n : Nat) : lowUnit n < 0x10000 := by
  unfold lowUnit
  omega

/-- **An escape is read as the units of its character.** -/
theorem readUnits_escape (c : Char) (hrest : rest ≠ []) :
    readUnits start (escape c ++ rest) = pushUnits (units c) (readUnits start rest) := by
  have hsingle : c.toNat ≤ 0xFFFF → pushUnits (units c) (readUnits start rest)
      = pushUnit c.toNat (readUnits start rest) := by
    intro h
    rw [units, if_pos h]
    rfl
  have hshort : ∀ x, shortEscape? x = some c → c.toNat ≤ 0xFFFF →
      readUnits start (['\\', x] ++ rest) = pushUnits (units c) (readUnits start rest) := by
    intro x hx h
    rw [hsingle h]
    exact readUnits_short hx
  unfold escape
  split_ifs with hb hq hp hn hr ht hB hF hunit
  · subst hb
    exact hshort '\\' rfl (by decide)
  · subst hq
    exact hshort '\x22' rfl (by decide)
  · simp only [Bool.and_eq_true, decide_eq_true_eq] at hp
    rw [hsingle (by omega)]
    exact readUnits_plain hq hb hp.1
  · subst hn
    exact hshort 'n' rfl (by decide)
  · subst hr
    exact hshort 'r' rfl (by decide)
  · subst ht
    exact hshort 't' rfl (by decide)
  · subst hB
    exact hshort 'b' rfl (by decide)
  · subst hF
    exact hshort 'f' rfl (by decide)
  · rw [hsingle hunit]
    exact readUnits_escapeUnit (by omega) hrest
  · -- the escapes of a surrogate pair, one after the other
    rw [units, if_neg hunit, List.append_assoc,
      readUnits_escapeUnit (high_lt c) (by simp [escapeUnit]),
      readUnits_escapeUnit (low_lt _) hrest]
    rfl

theorem pushUnits_ok (ns ms : List Nat) :
    pushUnits ns (.ok (ms, rest)) = .ok (ns ++ ms, rest) := by
  induction ns with
  | nil => rfl
  | cons n ns ih =>
    show pushUnit n (pushUnits ns (.ok (ms, rest))) = _
    rw [ih]
    rfl

theorem readUnits_flatMap_escape (cs : List Char) :
    readUnits start (cs.flatMap escape ++ '\x22' :: rest) = .ok (cs.flatMap units, rest) := by
  induction cs with
  | nil =>
    rw [List.flatMap_nil, List.nil_append, readUnits.eq_def]
    rfl
  | cons c cs ih =>
    rw [List.flatMap_cons, List.append_assoc, readUnits_escape c (by simp), ih, pushUnits_ok]
    rfl

/-! ## Units make characters -/

theorem ofUnits_cons {n : Nat} (h : isHighUnit n = false) (ns : List Nat) :
    ofUnits (n :: ns) = ofUnit n :: ofUnits ns := by
  cases ns with
  | nil => rfl
  | cons m ns =>
    rw [ofUnits, h]
    rfl

/-- **The units of characters make the characters.** -/
theorem ofUnits_units (cs : List Char) : ofUnits (cs.flatMap units) = cs := by
  induction cs with
  | nil => rfl
  | cons c cs ih =>
    have hvalid := toNat_cases c
    rw [List.flatMap_cons, units]
    split
    · rename_i h
      have hhigh : isHighUnit c.toNat = false := by
        simp only [isHighUnit, Bool.and_eq_false_iff, decide_eq_false_iff_not]
        omega
      have hlow : isLowUnit c.toNat = false := by
        simp only [isLowUnit, Bool.and_eq_false_iff, decide_eq_false_iff_not]
        omega
      rw [List.cons_append, List.nil_append, ofUnits_cons hhigh, ih, ofUnit, hhigh, hlow,
        if_neg (by simp), Char.ofNat_toNat]
    · rename_i h
      have hhigh : isHighUnit (highUnit c.toNat) = true := by
        rw [isHighUnit, highUnit, Bool.and_eq_true]
        exact ⟨decide_eq_true (by omega), decide_eq_true (by omega)⟩
      have hlow : isLowUnit (lowUnit c.toNat) = true := by
        rw [isLowUnit, lowUnit, Bool.and_eq_true]
        exact ⟨decide_eq_true (by omega), decide_eq_true (by omega)⟩
      have hcode : 0x10000 + (highUnit c.toNat - 0xD800) * 0x400 + (lowUnit c.toNat - 0xDC00)
          = c.toNat := by
        simp only [highUnit, lowUnit]
        omega
      simp only [List.cons_append, List.nil_append]
      rw [ofUnits, hhigh, hlow, if_pos (by rfl), hcode, ih, Char.ofNat_toNat]

/-- **A text is read as it was written.** -/
theorem readText_quoted (cs : List Char) :
    readText start (cs.flatMap escape ++ '\x22' :: rest) = .ok (String.ofList cs, rest) := by
  unfold readText
  rw [readUnits_flatMap_escape]
  show Except.ok (String.ofList (ofUnits (cs.flatMap units)), rest) = _
  rw [ofUnits_units]

end EnumDecl.Json
