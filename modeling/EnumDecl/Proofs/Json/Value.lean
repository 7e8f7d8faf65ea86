import EnumDecl.Proofs.Data
import EnumDecl.Proofs.Json.Number
import EnumDecl.Proofs.Json.Text
import EnumDecl.Proofs.Results

/-!
# Values in JSON

Characters *spell* a value if the reader takes the value off the front of them whatever comes
behind, as long as it is something that may come behind a value. What is written for a value spells
it, or rather what the value is without its marks (`spells_valueChars`), by induction on the value.
A list is spelled by what spells its items, and a mapping by what spells its entries, put in the
order of their keys.

Two bounds go with the induction. The reader's fuel is to be twice the length of the text, which
leaves one unit for each item beside its characters. And the writer never meets a mark inside
itself, since the thing a mark stands for would have to be smaller than itself.
-/

namespace EnumDecl.Json

/-- Characters from which the reader takes a value. -/
structure Spells (chars : List Char) (v : Value) : Prop where
  /-- They begin with something that is no white space and does not end a list. -/
  starts : ∃ c cs, chars = c :: cs ∧ isSpace c = false ∧ c ≠ ']' ∧ c ≠ '\uFEFF'
  reads : ∀ rest fuel, Ends rest → 2 * chars.length ≤ fuel →
    readValue fuel (chars ++ rest) = .ok (v, rest)

/-! ## Atoms -/

theorem readValue_atom {c : Char} (hq : c ≠ '\x22') (hl : c ≠ '[') (hm : c ≠ '\x7b') (fuel : Nat)
    (cs : List Char) : readValue (fuel + 1) (c :: cs) = readAtom (c :: cs) := by
  rw [readValue]
  · exact fun rest he => hq (List.cons.inj he).1
  · exact fun rest he => hl (List.cons.inj he).1
  · exact fun rest he => hm (List.cons.inj he).1

/-- The first character of a name or a numeral. -/
def startsAtom (c : Char) : Bool := c.isAlphanum || c == '-'

theorem ne_of_startsAtom {c d : Char} (h : startsAtom c = true) (hd : startsAtom d = false) :
    c ≠ d := by
  rintro rfl
  rw [h] at hd
  exact absurd hd (by simp)

theorem spells_of_readAtom {c : Char} {cs : List Char} {v : Value} (hc : startsAtom c = true)
    (h : ∀ rest, Ends rest → readAtom (c :: cs ++ rest) = .ok (v, rest)) : Spells (c :: cs) v := by
  refine ⟨⟨c, cs, rfl, ?_, ne_of_startsAtom hc rfl, ne_of_startsAtom hc rfl⟩,
    fun rest fuel hr hf => ?_⟩
  · simp only [isSpace, Bool.or_eq_false_iff, beq_eq_false_iff_ne]
    exact ⟨⟨⟨ne_of_startsAtom hc rfl, ne_of_startsAtom hc rfl⟩, ne_of_startsAtom hc rfl⟩,
      ne_of_startsAtom hc rfl⟩
  · obtain ⟨fuel, rfl⟩ : ∃ f, fuel = f + 1 := ⟨fuel - 1, by rw [List.length_cons] at hf; omega⟩
    rw [List.cons_append, readValue_atom (ne_of_startsAtom hc rfl) (ne_of_startsAtom hc rfl)
      (ne_of_startsAtom hc rfl)]
    exact h rest hr

theorem startsAtom_of_isDigit {c : Char} (h : c.isDigit = true) : startsAtom c = true := by
  simp [startsAtom, Char.isAlphanum, h]

theorem readAtom_of_readName? {cs rest : List Char} {v : Value}
    (h : readName? cs = some (v, rest)) : readAtom cs = .ok (v, rest) := by
  unfold readAtom
  rw [h]

theorem spells_null : Spells ['n', 'u', 'l', 'l'] .null :=
  spells_of_readAtom rfl fun rest _ => readAtom_of_readName? (readName?_null rest)

theorem spells_true : Spells ['t', 'r', 'u', 'e'] (.bool true) :=
  spells_of_readAtom rfl fun rest _ => readAtom_of_readName? (readName?_true rest)

theorem spells_false : Spells ['f', 'a', 'l', 's', 'e'] (.bool false) :=
  spells_of_readAtom rfl fun rest _ => readAtom_of_readName? (readName?_false rest)

theorem spells_int {i : Int} (hi : Decimal.isWritable i = true) :
    Spells (Decimal.intDigits i) (.int i) := by
  obtain ⟨c, cs, hc, hstart⟩ : ∃ c cs, Decimal.intDigits i = c :: cs ∧ startsAtom c = true := by
    obtain ⟨d, ds, hd⟩ := List.exists_cons_of_ne_nil (Decimal.digits_ne_nil i.natAbs)
    have hdigit : d.isDigit = true := Decimal.isDigit_of_mem_digits (n := i.natAbs) (by simp [hd])
    unfold Decimal.intDigits
    split
    · exact ⟨'-', _, rfl, rfl⟩
    · exact ⟨d, ds, hd, startsAtom_of_isDigit hdigit⟩
  rw [hc]
  refine spells_of_readAtom hstart fun rest hr => ?_
  rw [← hc]
  exact readAtom_intDigits hi hr

theorem spells_float (x : Binary64) : Spells (x.textIn numberForm).toList (reading x) := by
  obtain ⟨c, cs, hc, hstart⟩ : ∃ c cs, (x.textIn numberForm).toList = c :: cs
      ∧ startsAtom c = true := by
    cases x with
    | nan => exact ⟨'N', _, rfl, rfl⟩
    | infinity s =>
      cases s with
      | true => exact ⟨'-', _, rfl, rfl⟩
      | false => exact ⟨'I', _, rfl, rfl⟩
    | finite s m =>
      have hproper := m.proper_spelling numberForm
      obtain ⟨d, ds, hd⟩ := List.exists_cons_of_ne_nil hproper.whole_ne_nil
      have hdigit : d.isDigit = true := hproper.whole d (by rw [hd]; exact List.mem_cons_self)
      have htext : m.textChars numberForm
          = d :: (ds
              ++ ((m.spelling numberForm).fractionChars
                ++ (m.spelling numberForm).exponentChars)) := by
        rw [← m.chars_spelling, Binary64.Spelling.chars, hd]
        rfl
      cases s with
      | true => exact ⟨'-', m.textChars numberForm, by simp [Binary64.textIn], rfl⟩
      | false => exact ⟨d, _, by simpa [Binary64.textIn] using htext, startsAtom_of_isDigit hdigit⟩
  rw [hc]
  refine spells_of_readAtom hstart fun rest hr => ?_
  rw [← hc]
  exact readAtom_textIn x hr

theorem spells_text (s : String) : Spells (quoted s.toList) (.text s) := by
  refine ⟨⟨'\x22', _, rfl, rfl, by decide, by decide⟩, fun rest fuel _ hf => ?_⟩
  obtain ⟨fuel, rfl⟩ : ∃ f, fuel = f + 1 :=
    ⟨fuel - 1, by simp only [quoted, List.length_append, List.length_cons] at hf; omega⟩
  have htext :
    quoted s.toList ++ rest = '\x22' :: (s.toList.flatMap escape ++ '\x22' :: rest) := by
    simp [quoted]
  rw [htext, readValue, readText_quoted, String.ofList_toList]
  rfl

/-! ## Lists -/

theorem skipSpace_of_starts {c : Char} (h : isSpace c = false) (cs : List Char) :
    skipSpace (c :: cs) = c :: cs := by
  rw [skipSpace, List.dropWhile_cons, h]
  rfl

theorem skipSpace_blank (cs : List Char) : skipSpace (' ' :: cs) = skipSpace cs := rfl

theorem Spells.skipSpace_append {chars : List Char} {v : Value} (h : Spells chars v)
    (rest : List Char) : skipSpace (chars ++ rest) = chars ++ rest := by
  obtain ⟨c, cs, rfl, hc, -, -⟩ := h.starts
  exact skipSpace_of_starts hc _

theorem exists_separated (cs : List Char) (css : List (List Char)) :
    ∃ tail, separated (cs :: css) = cs ++ tail := by
  cases css with
  | nil => exact ⟨[], (List.append_nil cs).symm⟩
  | cons ds css => exact ⟨_, rfl⟩

theorem Spells.skipSpace_separated {cs : List Char} {v : Value} (h : Spells cs v)
    (css : List (List Char)) (rest : List Char) :
    skipSpace (separated (cs :: css) ++ rest) = separated (cs :: css) ++ rest := by
  obtain ⟨tail, ht⟩ := exists_separated cs css
  rw [ht, List.append_assoc]
  exact h.skipSpace_append _

theorem length_separated (cs ds : List Char) (css : List (List Char)) :
    (separated (cs :: ds :: css)).length = cs.length + 2 + (separated (ds :: css)).length := by
  simp only [separated, List.length_append, List.length_cons]
  omega

/-- **Items are read one after another.** -/
theorem readItems_separated {css : List (List Char)} {vs : List Value}
    (h : List.Forall₂ Spells css vs) (hne : css ≠ []) (rest : List Char) :
    ∀ fuel, 2 * (separated css).length + 1 ≤ fuel →
      readItems fuel (separated css ++ ']' :: rest) = .ok (vs, rest) := by
  induction h with
  | nil => exact absurd rfl hne
  | @cons cs v css vs hv hrest ih =>
    intro fuel hf
    obtain ⟨fuel, rfl⟩ : ∃ f, fuel = f + 1 := ⟨fuel - 1, by omega⟩
    cases hrest with
    | nil =>
      have hread := hv.reads (']' :: rest) fuel (ends_cons (by decide) _) (by
        rw [separated] at hf
        omega)
      rw [separated, readItems, hread]
      rfl
    | @cons ds w css vs hw hrest =>
      have hlen := length_separated cs ds css
      have hread := hv.reads (',' :: ' ' :: (separated (ds :: css) ++ ']' :: rest)) fuel
        (ends_cons (by decide) _) (by omega)
      have hothers := ih (by simp) fuel (by omega)
      have htext : separated (cs :: ds :: css) ++ ']' :: rest
          = cs ++ ',' :: ' ' :: (separated (ds :: css) ++ ']' :: rest) := by
        simp [separated]
      have hskip := hw.skipSpace_separated css (']' :: rest)
      rw [← skipSpace_blank] at hskip
      rw [htext, readItems, hread]
      simp only [bind, Except.bind]
      rw [skipSpace_of_starts (by decide)]
      simp only [hskip, hothers]
      rfl

theorem spells_list {css : List (List Char)} {vs : List Value} (h : List.Forall₂ Spells css vs) :
    Spells ('[' :: separated css ++ [']']) (.list vs) := by
  refine ⟨⟨'[', _, rfl, rfl, by decide, by decide⟩, fun rest fuel _ hf => ?_⟩
  simp only [List.length_append, List.length_cons, List.length_nil] at hf
  obtain ⟨fuel, rfl⟩ : ∃ f, fuel = f + 1 := ⟨fuel - 1, by omega⟩
  have htext : '[' :: separated css ++ [']'] ++ rest = '[' :: (separated css ++ ']' :: rest) :=
    by simp
  rw [htext, readValue]
  cases h with
  | nil =>
    rw [separated, List.nil_append, skipSpace_of_starts (by decide)]
    rfl
  | @cons cs v css vs hv hrest =>
    rw [hv.skipSpace_separated]
    split
    · -- the first item does not begin with the bracket of an empty list
      rename_i he
      obtain ⟨tail, ht⟩ := exists_separated cs css
      obtain ⟨c, ds, rfl, -, hne, -⟩ := hv.starts
      rw [ht] at he
      exact absurd (List.cons.inj he).1 hne
    · rw [readItems_separated (.cons hv hrest) (by simp) rest fuel (by omega)]
      rfl

/-! ## Mappings -/

/-- Characters that spell a key and a value. -/
def SpellsEntry (chars : List Char) (e : String × Value) : Prop :=
  ∃ cs, chars = quoted e.1.toList ++ ':' :: ' ' :: cs ∧ Spells cs e.2

theorem quoted_append (s : String) (rest : List Char) :
    quoted s.toList ++ rest = '\x22' :: (s.toList.flatMap escape ++ '\x22' :: rest) := by
  simp [quoted]

/-- One entry is read, and what comes next is left to what stands behind it. -/
theorem readEntries_entry {e : String × Value} {cs tail : List Char} (hv : Spells cs e.2)
    (ht : Ends tail) {fuel : Nat} (hf : 2 * cs.length ≤ fuel) (before : List (Value × Value)) :
    readEntries (fuel + 1) before (quoted e.1.toList ++ ':' :: ' ' :: (cs ++ tail)) =
      match skipSpace tail with
      | '\x7d' :: rest => .ok (Value.insert (.text e.1) e.2 before, rest)
      | ',' :: rest => readEntries fuel (Value.insert (.text e.1) e.2 before) (skipSpace rest)
      | rest => .error (.problem .expectedComma rest) := by
  rw [quoted_append, readEntries]
  simp only [bind, Except.bind, readText_quoted, String.ofList_toList]
  rw [skipSpace_of_starts (by decide)]
  simp only [skipSpace_blank, hv.skipSpace_append, hv.reads tail fuel ht hf]
  rfl

/-- **Entries are read one after another, with their keys in the order in which they stand.** -/
theorem readEntries_separated {css : List (List Char)} {es : List (String × Value)}
    (h : List.Forall₂ SpellsEntry css es) (hne : css ≠ []) (rest : List Char) :
    ∀ bs fuel, ((bs ++ es).map (·.1)).Nodup → 2 * (separated css).length + 1 ≤ fuel →
      readEntries fuel (bs.map Value.keyed) (separated css ++ '\x7d' :: rest)
        = .ok ((bs ++ es).map Value.keyed, rest) := by
  induction h with
  | nil => exact absurd rfl hne
  | @cons c e css es hc hrest ih =>
    intro bs fuel hnodup hf
    obtain ⟨fuel, rfl⟩ : ∃ f, fuel = f + 1 := ⟨fuel - 1, by omega⟩
    obtain ⟨cs, rfl, hv⟩ := hc
    have hnew : e.1 ∉ bs.map (·.1) := by
      rw [List.map_append] at hnodup
      exact fun hm => List.disjoint_of_nodup_append hnodup hm (by simp)
    have hassoc : (bs ++ [e]) ++ es = bs ++ e :: es := by simp
    -- the last entry is followed by the brace, any other by a comma
    cases hrest with
    | nil =>
      rw [separated, List.length_append, List.length_cons, List.length_cons] at hf
      rw [separated, List.append_assoc, List.cons_append, List.cons_append,
        readEntries_entry hv (ends_cons (by decide) _) (by omega), skipSpace_of_starts (by decide),
        Value.insert_keyed hnew]
      rfl
    | @cons d f css es hd hrest =>
      have hlen := length_separated (quoted e.1.toList ++ ':' :: ' ' :: cs) d css
      rw [List.length_append, List.length_cons, List.length_cons] at hlen
      have hothers := ih (by simp) (bs ++ [e]) fuel (by rw [hassoc]; exact hnodup) (by omega)
      have hskip : skipSpace (' ' :: (separated (d :: css) ++ '\x7d' :: rest))
          = separated (d :: css) ++ '\x7d' :: rest := by
        obtain ⟨tail, ht⟩ := exists_separated d css
        obtain ⟨ds, rfl, -⟩ := hd
        rw [skipSpace_blank, ht, List.append_assoc, List.append_assoc, quoted_append]
        exact skipSpace_of_starts (by decide) _
      have htext :
        separated ((quoted e.1.toList ++ ':' :: ' ' :: cs) :: d :: css) ++ '\x7d' :: rest
          = quoted e.1.toList
              ++ ':' :: ' ' :: (cs ++ ',' :: ' ' :: (separated (d :: css) ++ '\x7d' :: rest)) := by
        simp [separated]
      rw [htext, readEntries_entry hv (ends_cons (by decide) _) (by omega),
        skipSpace_of_starts (by decide)]
      simp only [Value.insert_keyed hnew, hskip, hothers, hassoc]

theorem spells_mapping {css : List (List Char)} {es : List (String × Value)}
    (h : List.Forall₂ SpellsEntry css es) (hk : (es.map (·.1)).Nodup) :
    Spells ('\x7b' :: separated css ++ ['\x7d']) (.mapping (es.map Value.keyed)) := by
  refine ⟨⟨'\x7b', _, rfl, rfl, by decide, by decide⟩, fun rest fuel _ hf => ?_⟩
  simp only [List.length_append, List.length_cons, List.length_nil] at hf
  obtain ⟨fuel, rfl⟩ : ∃ f, fuel = f + 1 := ⟨fuel - 1, by omega⟩
  have htext : '\x7b' :: separated css ++ ['\x7d'] ++ rest
      = '\x7b' :: (separated css ++ '\x7d' :: rest) := by simp
  rw [htext, readValue]
  cases h with
  | nil =>
    rw [separated, List.nil_append, skipSpace_of_starts (by decide)]
    rfl
  | @cons c e css es hc hrest =>
    have hentries := readEntries_separated (.cons hc hrest) (by simp) rest [] fuel hk (by omega)
    obtain ⟨tail, ht⟩ := exists_separated c css
    obtain ⟨cs, rfl, -⟩ := hc
    rw [ht, List.append_assoc, List.append_assoc, quoted_append] at hentries ⊢
    rw [skipSpace_of_starts (by decide)]
    show (readEntries fuel [] _).map _ = _
    rw [List.map_nil, List.nil_append] at hentries
    rw [hentries]
    rfl

/-! ## What is written -/

open Value (IsData reread keyed sortKeys)

theorem itemsChars_eq (around : List Mark) (xs : List Value) :
    itemsChars around xs = xs.mapM (valueChars around) := by
  induction xs with
  | nil => rfl
  | cons x xs ih => rw [itemsChars, ih, List.mapM_cons]

theorem entriesChars_eq (around : List Mark) (es : List (String × Value)) :
    entriesChars around (es.map keyed)
      = (es.map fun e => (e.1, valueChars around e.2)).map keyed := by
  induction es with
  | nil => rfl
  | cons e es ih =>
    rw [List.map_cons, keyed, entriesChars, ih]
    rfl

theorem sortEntries_keyed {α : Type} (es : List (String × α)) :
    sortEntries (es.map keyed) = .ok ((sortKeys es).map keyed) := by
  have hall : (es.map keyed).all (fun e => isText e.1) = true := by
    rw [List.all_map, List.all_eq_true]
    exact fun _ _ => rfl
  unfold sortEntries
  rw [if_pos hall]
  refine congrArg Except.ok (Eq.symm (List.map_mergeSort fun a _ b _ => ?_))
  rfl

theorem entryChars_keyed {e : String × Except Fault (List Char)} {cs : List Char}
    (h : e.2 = .ok cs) : entryChars (keyed e) = .ok (quoted e.1.toList ++ ':' :: ' ' :: cs) := by
  unfold entryChars keyed
  rw [h]
  rfl

/-- A list is spelled by what spells its items. -/
theorem spells_listChars {around : List Mark} {xs : List Value}
    (h : ∀ x ∈ xs, ∃ cs, valueChars around x = .ok cs ∧ Spells cs (reread x)) :
    ∃ chars, valueChars around (.list xs) = .ok chars ∧ Spells chars (reread (.list xs)) := by
  obtain ⟨css, hcss⟩ := exists_forall₂ h
  have hmap : xs.mapM (valueChars around) = .ok css :=
    mapM_eq_ok_iff.mpr (hcss.imp fun _ _ hc => hc.1)
  have hspells : List.Forall₂ Spells css (xs.map reread) :=
    List.forall₂_map_right_iff.mpr (List.Forall₂.flip (hcss.imp fun _ _ hc => hc.2))
  refine ⟨'[' :: separated css ++ [']'], ?_, ?_⟩
  · rw [valueChars, itemsChars_eq, hmap]
    rfl
  · rw [Value.reread_list]
    exact spells_list hspells

/-- A mapping is spelled by what spells its entries, in the order of their keys. -/
theorem spells_mappingChars {around : List Mark} {es : List (String × Value)}
    (keys : (es.map (·.1)).Nodup)
    (h : ∀ e ∈ es, ∃ cs, valueChars around e.2 = .ok cs ∧ Spells cs (reread e.2)) :
    ∃ chars, valueChars around (.mapping (es.map keyed)) = .ok chars
      ∧ Spells chars (reread (.mapping (es.map keyed))) := by
  have hentries : ∀ e ∈ sortKeys es, ∃ c, entryChars (keyed (e.1, valueChars around e.2)) = .ok c
      ∧ SpellsEntry c (e.1, reread e.2) := by
    intro e he
    obtain ⟨cs, hcs, hspells⟩ := h e ((Value.perm_sortKeys es).mem_iff.mp he)
    exact ⟨_, entryChars_keyed hcs, cs, rfl, hspells⟩
  obtain ⟨css, hcss⟩ := exists_forall₂ hentries
  have hmap : ((sortKeys (es.map fun e => (e.1, valueChars around e.2))).map keyed).mapM entryChars
      = .ok css := by
    rw [Value.sortKeys_map, List.map_map, mapM_eq_ok_iff, List.forall₂_map_left_iff]
    exact hcss.imp fun _ _ hc => hc.1
  have hspells : List.Forall₂ SpellsEntry css (sortKeys (es.map fun e => (e.1, reread e.2))) := by
    rw [Value.sortKeys_map, List.forall₂_map_right_iff]
    exact List.Forall₂.flip (hcss.imp fun _ _ hc => hc.2)
  refine ⟨'\x7b' :: separated css ++ ['\x7d'], ?_, ?_⟩
  · rw [valueChars, mappingChars, entriesChars_eq, sortEntries_keyed]
    show (List.mapM entryChars _ >>= _) = _
    rw [hmap]
    rfl
  · rw [Value.reread_mapping]
    exact spells_mapping hspells (Value.nodup_sortKeys (by rw [List.map_map]; exact keys))

/-- **What is written for a value is read as the value without its marks.** No thing whose mark is
on the way from the whole to a part is smaller than the part. -/
theorem spells_valueChars {thing : Mark → Value} {v : Value} (h : IsData thing v) :
    ∀ around : List Mark, (∀ m ∈ around, sizeOf v ≤ sizeOf (thing m)) →
      ∃ chars, valueChars around v = .ok chars ∧ Spells chars (reread v) := by
  induction h with
  | null => exact fun around _ => ⟨_, by rw [valueChars], spells_null⟩
  | bool b =>
    intro around _
    cases b with
    | true => exact ⟨_, by rw [valueChars], spells_true⟩
    | false => exact ⟨_, by rw [valueChars], spells_false⟩
  | @int i hi => exact fun around _ => ⟨_, by rw [valueChars, intChars, if_pos hi], spells_int hi⟩
  | float x =>
    intro around _
    have hreading : reread (.float x) = reading x := by cases x <;> rfl
    exact ⟨_, by rw [valueChars], hreading ▸ spells_float x⟩
  | text s => exact fun around _ => ⟨_, by rw [valueChars], spells_text s⟩
  | @list xs _ ih =>
    intro around hsize
    refine spells_listChars fun x hx => ih x hx around fun m hm => ?_
    have hle := hsize m hm
    have hlt := List.sizeOf_lt_of_mem hx
    rw [Value.list.sizeOf_spec] at hle
    omega
  | @mapping es keys _ ih =>
    intro around hsize
    refine spells_mappingChars keys fun e he => ih e he around fun m hm => ?_
    have hle := hsize m hm
    have hlt := List.sizeOf_lt_of_mem (List.mem_map_of_mem (f := keyed) he)
    rw [Value.mapping.sizeOf_spec] at hle
    rw [keyed, Prod.mk.sizeOf_spec] at hlt
    omega
  | @marked m v stands _ _ _ ih =>
    intro around hsize
    -- the thing would be smaller than itself
    have hnew : m ∉ around := by
      intro hm
      have hle := hsize m hm
      rw [stands, Value.marked.sizeOf_spec] at hle
      omega
    obtain ⟨chars, hchars, hspells⟩ := ih (m :: around) fun n hn => by
      rcases List.mem_cons.mp hn with rfl | hn
      · exact Nat.le_of_eq (by rw [stands])
      · have hle := hsize n hn
        rw [Value.marked.sizeOf_spec] at hle
        omega
    refine ⟨chars, ?_, hspells⟩
    rw [valueChars, if_neg (by simp [hnew]), hchars]

/-- **A value that a text can hold is written, and read again without its marks.** -/
theorem read_write {thing : Mark → Value} {v : Value} (h : IsData thing v) :
    ∃ text, write v = .ok text ∧ read text = .ok (reread v) := by
  obtain ⟨chars, hchars, hspells⟩ := spells_valueChars h [] fun m hm => absurd hm (by simp)
  refine ⟨String.ofList chars, by rw [write, hchars]; rfl, ?_⟩
  have hread := hspells.reads [] (2 * chars.length + 2) ends_nil (by omega)
  have hskip := hspells.skipSpace_append []
  rw [List.append_nil] at hread hskip
  obtain ⟨c, cs, rfl, -, -, hmark⟩ := hspells.starts
  have hall : readAll (c :: cs) = .ok (reread v) := by
    unfold readAll
    split
    · rename_i he
      exact absurd (List.cons.inj he).1 hmark
    · rw [hskip, hread]
      rfl
  rw [read, String.toList_ofList, hall]
  rfl

end EnumDecl.Json
