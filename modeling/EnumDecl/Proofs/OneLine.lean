import EnumDecl.Value.Text
import EnumDecl.Proofs.Source.Spelling

/-!
# The text of a value stays on its line

What is shown of a value is made of digits, signs, words and texts in quotes, and in quotes a line
feed is an escape. So the only value that can break a line is a text that stands for itself
(`oneLine_plain`), however deep in lists and mappings other texts are.
-/

namespace EnumDecl

namespace Text

/-- A text without a line feed. -/
def OneLine (s : String) : Prop := '\n' ∉ s.toList

instance (s : String) : Decidable (OneLine s) := inferInstanceAs (Decidable ('\n' ∉ s.toList))

@[simp] theorem oneLine_append {s t : String} : OneLine (s ++ t) ↔ OneLine s ∧ OneLine t := by
  simp [OneLine]

theorem oneLine_ofList {cs : List Char} : OneLine (String.ofList cs) ↔ '\n' ∉ cs := by
  simp [OneLine]

theorem oneLine_ite {c : Prop} [Decidable c] {s t : String} (hs : OneLine s) (ht : OneLine t) :
    OneLine (if c then s else t) := by
  split
  · exact hs
  · exact ht

/-- Texts of one line with such a text between them are one line. -/
theorem oneLine_intercalate {sep : String} {ss : List String} (hsep : OneLine sep)
    (h : ∀ s ∈ ss, OneLine s) : OneLine (String.intercalate sep ss) := by
  induction ss with
  | nil => simp [OneLine]
  | cons s ss ih =>
    have hs := h s List.mem_cons_self
    cases ss with
    | nil => simpa using hs
    | cons t ts =>
      have hrest := ih fun x hx => h x (List.mem_cons_of_mem _ hx)
      rw [String.intercalate_cons_cons]
      exact oneLine_append.mpr ⟨oneLine_append.mpr ⟨hs, hsep⟩, hrest⟩

/-! ## Quotes -/

theorem feed_not_mem_hex (width n : Nat) : '\n' ∉ hex width n := by
  have hdigit : ∀ d, d < 16 → hexDigit d ≠ '\n' := by decide
  unfold hex
  induction width generalizing n with
  | zero => simp [hexWith]
  | succ width ih =>
    rw [hexWith, List.mem_append, List.mem_singleton, not_or]
    exact ⟨ih _, fun he => hdigit _ (Nat.mod_lt _ (by omega)) he.symm⟩

theorem feed_ne_quoteFor (cs : List Char) : quoteFor cs ≠ '\n' := by
  unfold quoteFor
  split <;> decide

/-- In quotes a line feed is an escape. -/
theorem feed_not_mem_escapeIn {quote : Char} (hq : quote ≠ '\n') (c : Char) :
    '\n' ∉ escapeIn quote c := by
  unfold escapeIn
  split_ifs with h1 h2 h3 h4 h5 h6 h7
  · have hc : c ≠ '\n' := by
      rintro rfl
      simp [hq.symm] at h1
    simpa using hc.symm
  · decide
  · decide
  · decide
  · simpa using fun he : '\n' = c => h2 he.symm
  · simp [feed_not_mem_hex]
  · simp [feed_not_mem_hex]
  · simp [feed_not_mem_hex]

theorem oneLine_quoted (s : String) : OneLine (quoted s) := by
  have hquote := feed_ne_quoteFor s.toList
  rw [quoted, oneLine_ofList, quotedChars]
  simp [hquote.symm, feed_not_mem_escapeIn hquote]

theorem oneLine_quotedBytes (bytes : List UInt8) : OneLine (quotedBytes bytes) := by
  have hquote := feed_ne_quoteFor (bytes.map fun b => Char.ofNat b.toNat)
  have hbyte : ∀ b, '\n' ∉ escapeByteIn (quoteFor (bytes.map fun b => Char.ofNat b.toNat)) b := by
    intro b
    unfold escapeByteIn
    dsimp only
    split
    · exact feed_not_mem_escapeIn hquote _
    · simp [feed_not_mem_hex]
  rw [quotedBytes, oneLine_ofList, quotedByteChars]
  simp [hquote.symm, hbyte]

end Text

open Text

/-! ## Numbers and dates -/

namespace Decimal

theorem feed_not_mem_digits (n : Nat) : '\n' ∉ digits n := fun h =>
  absurd (isDigit_of_mem_digits h) (by decide)

theorem oneLine_ofNat (n : Nat) : OneLine (ofNat n) := oneLine_ofList.mpr (feed_not_mem_digits n)

theorem oneLine_ofInt (i : Int) : OneLine (ofInt i) := by
  rw [ofInt, oneLine_ofList, intDigits]
  split <;> simp [feed_not_mem_digits]

theorem oneLine_padded (width n : Nat) : OneLine (padded width n) := by
  rw [padded, oneLine_ofList]
  simp [feed_not_mem_digits, List.mem_replicate]

end Decimal

namespace Binary64

theorem oneLine_text (x : Binary64) : OneLine x.text := by
  cases x with
  | nan => decide
  | infinity s => cases s <;> decide
  | finite s m =>
    have hchars : '\n' ∉ m.textChars plainForm := by
      rw [← m.chars_spelling]
      exact fun h =>
        absurd (Source.isLiteralChar_of_mem_chars (m.proper_spelling plainForm) h) (by decide)
    have hsign : OneLine (if s then "-" else "") := oneLine_ite (by decide) (by decide)
    exact oneLine_append.mpr ⟨hsign, oneLine_ofList.mpr hchars⟩

end Binary64

namespace Calendar

theorem oneLine_offsetText (o : Int) : OneLine (offsetText o) := by
  have hsign : OneLine (if o < 0 then "-" else "+") := oneLine_ite (by decide) (by decide)
  have hseconds : OneLine (if o.natAbs % 60 = 0 then "" else
      ":" ++ Decimal.padded 2 (o.natAbs % 60)) :=
    oneLine_ite (by decide) (oneLine_append.mpr ⟨by decide, Decimal.oneLine_padded _ _⟩)
  have hcolon : OneLine ":" := by decide
  simp only [offsetText, oneLine_append]
  exact ⟨⟨⟨⟨hsign, Decimal.oneLine_padded _ _⟩, hcolon⟩, Decimal.oneLine_padded _ _⟩, hseconds⟩

theorem Date.oneLine_text (d : Date) : OneLine d.text := by
  have hdash : OneLine "-" := by decide
  simp [Date.text, Decimal.oneLine_padded, hdash]

theorem DateTime.oneLine_text (t : DateTime) : OneLine t.text := by
  have hmicroseconds : OneLine (if t.microsecond = 0 then "" else
      "." ++ Decimal.padded 6 t.microsecond) :=
    oneLine_ite (by decide) (oneLine_append.mpr ⟨by decide, Decimal.oneLine_padded _ _⟩)
  have hspace : OneLine " " := by decide
  have hcolon : OneLine ":" := by decide
  unfold DateTime.text
  simp only [oneLine_append]
  refine ⟨⟨⟨⟨⟨⟨⟨⟨t.date.oneLine_text, hspace⟩, Decimal.oneLine_padded _ _⟩, hcolon⟩,
    Decimal.oneLine_padded _ _⟩, hcolon⟩, Decimal.oneLine_padded _ _⟩, hmicroseconds⟩, ?_⟩
  cases t.offset with
  | none => decide
  | some o => exact oneLine_offsetText o

theorem oneLine_commaSeparated (ns : List Nat) : OneLine (commaSeparated ns) := by
  refine oneLine_intercalate (by decide) fun s hs => ?_
  obtain ⟨n, -, rfl⟩ := List.mem_map.mp hs
  exact Decimal.oneLine_ofNat n

theorem Date.oneLine_constructorText (d : Date) : OneLine d.constructorText := by
  have hopen : OneLine "datetime.date(" := by decide
  have hclose : OneLine ")" := by decide
  simp [Date.constructorText, oneLine_commaSeparated, hopen, hclose]

theorem oneLine_durationText (seconds : Int) : OneLine (durationText seconds) := by
  have hdays : ∀ i, OneLine ("days=" ++ Decimal.ofInt i) := fun i =>
    oneLine_append.mpr ⟨by decide, Decimal.oneLine_ofInt i⟩
  have hseconds : ∀ i, OneLine ("seconds=" ++ Decimal.ofInt i) := fun i =>
    oneLine_append.mpr ⟨by decide, Decimal.oneLine_ofInt i⟩
  have hparts :
    ∀ s ∈ (if seconds / 86400 = 0 then [] else ["days=" ++ Decimal.ofInt (seconds / 86400)]) ++
      (if seconds % 86400 = 0 then [] else ["seconds=" ++ Decimal.ofInt (seconds % 86400)]),
      OneLine s := by
    intro s hs
    rcases List.mem_append.mp hs with hs | hs
    · split at hs
      · exact absurd hs (by simp)
      · exact List.mem_singleton.mp hs ▸ hdays _
    · split at hs
      · exact absurd hs (by simp)
      · exact List.mem_singleton.mp hs ▸ hseconds _
  unfold durationText
  dsimp only
  rw [oneLine_append, oneLine_append]
  exact ⟨⟨by decide, oneLine_ite (by decide) (oneLine_intercalate (by decide) hparts)⟩, by decide⟩

theorem oneLine_zoneText (o : Int) : OneLine (zoneText o) := by
  refine oneLine_ite (by decide) ?_
  rw [oneLine_append, oneLine_append]
  exact ⟨⟨by decide, oneLine_durationText o⟩, by decide⟩

theorem DateTime.oneLine_constructorText (t : DateTime) : OneLine t.constructorText := by
  unfold DateTime.constructorText
  simp only [oneLine_append]
  refine ⟨⟨⟨by decide, oneLine_commaSeparated _⟩, ?_⟩, by decide⟩
  cases t.offset with
  | none => decide
  | some o => exact oneLine_append.mpr ⟨by decide, oneLine_zoneText o⟩

end Calendar

/-! ## Values -/

namespace Value

theorem Kind.oneLine_repeatedText (k : Kind) : OneLine k.repeatedText := by
  cases k <;> decide

mutual

/-- **What is shown of a value is one line.** -/
theorem oneLine_shownIn (around : List Mark) (v : Value) : OneLine (shownIn around v) := by
  cases v with
  | null => rw [shownIn]; decide
  | bool b => rw [shownIn]; cases b <;> decide
  | int i => rw [shownIn]; exact Decimal.oneLine_ofInt i
  | float x => rw [shownIn]; exact x.oneLine_text
  | text s => rw [shownIn]; exact oneLine_quoted s
  | bytes bs => rw [shownIn]; exact oneLine_quotedBytes bs
  | date d => rw [shownIn]; exact d.oneLine_constructorText
  | dateTime t => rw [shownIn]; exact t.oneLine_constructorText
  | list xs =>
    rw [shownIn, oneLine_append, oneLine_append]
    exact ⟨⟨by decide, oneLine_shownItems around xs⟩, by decide⟩
  | pair a b =>
    simp only [shownIn, oneLine_append]
    exact ⟨⟨⟨⟨by decide, oneLine_shownIn around a⟩, by decide⟩,
      oneLine_shownIn around b⟩, by decide⟩
  | set xs =>
    cases xs with
    | nil => rw [shownIn]; decide
    | cons x xs =>
      rw [shownIn, oneLine_append, oneLine_append]
      exact ⟨⟨by decide, oneLine_shownItems around (x :: xs)⟩, by decide⟩
  | mapping es =>
    rw [shownIn, oneLine_append, oneLine_append]
    exact ⟨⟨by decide, oneLine_shownEntries around es⟩, by decide⟩
  | marked m v =>
    rw [shownIn]
    exact oneLine_ite (Kind.oneLine_repeatedText _) (oneLine_shownIn (m :: around) v)
  | again m k => rw [shownIn]; exact k.oneLine_repeatedText

/-- So is what is shown of the items of a list. -/
theorem oneLine_shownItems (around : List Mark) (xs : List Value) :
    OneLine (shownItems around xs) := by
  match xs with
  | [] => rw [shownItems]; decide
  | [x] => rw [shownItems]; exact oneLine_shownIn around x
  | x :: y :: xs =>
    rw [shownItems, oneLine_append, oneLine_append]
    exact ⟨⟨oneLine_shownIn around x, by decide⟩, oneLine_shownItems around (y :: xs)⟩

/-- And of the entries of a mapping. -/
theorem oneLine_shownEntries (around : List Mark) (es : List (Value × Value)) :
    OneLine (shownEntries around es) := by
  match es with
  | [] => rw [shownEntries]; decide
  | [(k, v)] =>
    rw [shownEntries, oneLine_append, oneLine_append]
    exact ⟨⟨oneLine_shownIn around k, by decide⟩, oneLine_shownIn around v⟩
  | (k, v) :: e :: es =>
    simp only [shownEntries, oneLine_append]
    exact ⟨⟨⟨⟨oneLine_shownIn around k, by decide⟩, oneLine_shownIn around v⟩, by decide⟩,
      oneLine_shownEntries around (e :: es)⟩

end

/-- A value whose text on its own is one line: all but texts that hold a line feed. -/
def Unbroken (v : Value) : Prop := ∀ s, v.bare = .text s → OneLine s

/-- **Only a text can break a line.** -/
theorem oneLine_plain {v : Value} (h : v.Unbroken) : OneLine v.plain := by
  unfold plain
  split
  · rename_i s hs
    exact h s hs
  · rename_i d _
    exact d.oneLine_text
  · rename_i t _
    exact t.oneLine_text
  · exact oneLine_shownIn [] v

end Value

end EnumDecl
