import EnumDecl.Proofs.Suffix

/-!
# Counting up any text

`Proofs.Suffix` follows the names of members. The rule itself takes any text: where an underscore
and a number end it the number is replaced by the next one, and any other text gets a first number
behind it. Nothing but the number is touched, and what comes out ends in a number again, so that
doing it some times adds as many to the number (`nextName_in_full`).

What counts as the end is the delicate point. A number is found in front of a line feed that ends
the text as well as at the very end, but what is put together afterwards stops at the number. A
line feed behind a number is lost (`nextName_drops_break`).
-/

namespace EnumDecl.Identifier

/-- A text that an underscore and a number end. -/
structure EndsInNumber (cs front ds : List Char) : Prop where
  /-- The number reaches the very end. -/
  cut : cs = front ++ '_' :: ds
  /-- It has a digit at least. -/
  nonempty : ds ≠ []
  /-- It has nothing but digits. -/
  digits : ∀ c ∈ ds, c.isDigit = true

/-- A text is counted up from a stem and the digits behind it, of which there may be none. -/
structure CountsFrom (text : String) (stem ds : List Char) : Prop where
  /-- The next text has the same stem and the next number, which has no zeros in front. -/
  next : ds.length ≤ Decimal.digitLimit → Decimal.value ds + 1 < 10 ^ Decimal.digitLimit →
    nextName text = .ok (String.ofList (stem ++ Decimal.digits (Decimal.value ds + 1)))
  /-- So many texts later the stem is the same, and the number is greater by so many. -/
  counted : ds.length ≤ Decimal.digitLimit → ∀ k, 1 ≤ k →
    Decimal.value ds + k < 10 ^ Decimal.digitLimit →
    nextTimes k text = .ok (String.ofList (stem ++ Decimal.digits (Decimal.value ds + k)))
  /-- More digits than the limit are not read, zeros in front of the number counted. -/
  unreadable : Decimal.digitLimit < ds.length → nextName text = .error (.unreadable ds.length)
  /-- A next number of more digits than the limit is not written. -/
  unwritable : ds.length ≤ Decimal.digitLimit → 10 ^ Decimal.digitLimit ≤ Decimal.value ds + 1 →
    nextName text = .error .unwritable

/-! ## Where a text is cut -/

theorem splitSuffix?_eq_some_iff {cs front ds : List Char} :
    splitSuffix? cs = some (front ++ ['_'], ds)
      ↔ EndsInNumber (Text.dropFinalBreak cs) front ds := by
  constructor
  · intro h
    obtain ⟨hcut, -, hne, hds⟩ := cut_of_splitSuffix? h
    exact ⟨by rw [hcut, List.append_assoc]; rfl, hne, hds⟩
  · intro h
    refine splitSuffix?_of_cut ?_ List.getLast?_concat h.nonempty h.digits
    rw [h.cut, List.append_assoc]
    rfl

theorem splitSuffix?_eq_none {cs : List Char}
    (h : ∀ front ds, ¬ EndsInNumber (Text.dropFinalBreak cs) front ds) :
    splitSuffix? cs = none := by
  cases hs : splitSuffix? cs with
  | none => rfl
  | some p =>
    obtain ⟨st, ds⟩ := p
    obtain ⟨front, rfl⟩ := List.getLast?_eq_some_iff.mp (cut_of_splitSuffix? hs).2.1
    exact absurd (splitSuffix?_eq_some_iff.mp hs) (h front ds)

theorem EndsInNumber.isDigit_of_getLast? {cs front ds : List Char} (h : EndsInNumber cs front ds)
    {c : Char} (hc : cs.getLast? = some c) : c.isDigit = true := by
  rw [h.cut, List.getLast?_append_of_ne_nil _ (List.cons_ne_nil _ _),
    List.getLast?_cons_of_ne_nil h.nonempty] at hc
  exact h.digits c (List.mem_of_getLast? hc)

theorem EndsInNumber.getLast?_ne {cs front ds : List Char} (h : EndsInNumber cs front ds) :
    cs.getLast? ≠ some '\n' := fun hl =>
  absurd (h.isDigit_of_getLast? hl) (by decide)

/-! ## Many texts later -/

/-- **From a number the count goes on**: a stem with a number behind it is counted up by one each
time. -/
theorem nextTimes_digits {st : List Char} (hst : st.getLast? = some '_') {n k : Nat}
    (h : n + k < 10 ^ Decimal.digitLimit) :
    nextTimes k (String.ofList (st ++ Decimal.digits n))
      = .ok (String.ofList (st ++ Decimal.digits (n + k))) := by
  induction k generalizing n with
  | zero => rfl
  | succ k ih =>
    have hsplit : splitSuffix? (String.ofList (st ++ Decimal.digits n)).toList
        = some (st, Decimal.digits n) := by
      rw [String.toList_ofList]
      exact splitSuffix?_append hst (Decimal.digits_ne_nil n) fun _ =>
        Decimal.isDigit_of_mem_digits
    have hlength : (Decimal.digits n).length ≤ Decimal.digitLimit :=
      (Decimal.length_digits_le_iff (by decide)).mpr (by omega)
    have hstep := nextName_of_split hsplit
    rw [if_neg (by omega), Decimal.value_digits, if_neg (by omega)] at hstep
    rw [nextTimes, hstep]
    show nextTimes k (String.ofList (st ++ Decimal.digits (n + 1))) = _
    rw [ih (by omega), Nat.add_assoc, Nat.add_comm 1 k]

/-- What comes after one text counts on from there. -/
theorem nextTimes_of_next {text : String} {st : List Char} (hst : st.getLast? = some '_') {n : Nat}
    (h : nextName text = .ok (String.ofList (st ++ Decimal.digits (n + 1)))) {k : Nat} (hk : 1 ≤ k)
    (hn : n + k < 10 ^ Decimal.digitLimit) :
    nextTimes k text = .ok (String.ofList (st ++ Decimal.digits (n + k))) := by
  obtain ⟨k, rfl⟩ : ∃ j, k = j + 1 := ⟨k - 1, by omega⟩
  rw [nextTimes, h]
  show nextTimes k (String.ofList (st ++ Decimal.digits (n + 1))) = _
  rw [nextTimes_digits hst (by omega), Nat.add_assoc, Nat.add_comm 1 k]

theorem countsFrom_of_split {text : String} {st ds : List Char}
    (h : splitSuffix? text.toList = some (st, ds)) : CountsFrom text st ds := by
  have hnext := nextName_of_split h
  refine ⟨fun hread hn => ?_, fun hread k hk hn => ?_, fun hlong => ?_, fun hread hgreat => ?_⟩
  · rw [hnext, if_neg (by omega), if_neg (by omega)]
  · rw [if_neg (by omega), if_neg (by omega)] at hnext
    exact nextTimes_of_next (cut_of_splitSuffix? h).2.1 hnext hk hn
  · rw [hnext, if_pos hlong]
  · rw [hnext, if_neg (by omega), if_pos hgreat]

theorem countsFrom_of_none {text : String} (h : splitSuffix? text.toList = none) :
    CountsFrom text (text.toList ++ ['_']) [] := by
  have hpow : 1 < 10 ^ Decimal.digitLimit := Nat.one_lt_pow (by decide) (by omega)
  have hzero : Decimal.value [] = 0 := rfl
  refine ⟨fun _ _ => nextName_of_none h, fun _ k hk hn => ?_, fun hlong => absurd hlong (by simp),
    fun _ hgreat => ?_⟩
  · exact nextTimes_of_next List.getLast?_concat (nextName_of_none h) hk hn
  · rw [hzero] at hgreat
    omega

/-! ## All of it -/

/--
**The next text in full.** A text that a number ends is counted up from that number, and so is one
that a number and a line feed end; any other text is counted up from nothing, an underscore put
behind it.
-/
theorem nextName_in_full (text : String) :
    (∀ front ds, EndsInNumber text.toList front ds → CountsFrom text (front ++ ['_']) ds) ∧
    (∀ body front ds, text.toList = body ++ ['\n'] → EndsInNumber body front ds →
      CountsFrom text (front ++ ['_']) ds) ∧
    ((∀ front ds, ¬ EndsInNumber text.toList front ds) →
      (∀ body front ds, text.toList = body ++ ['\n'] → ¬ EndsInNumber body front ds) →
      CountsFrom text (text.toList ++ ['_']) []) := by
  refine ⟨fun front ds h => ?_, fun body front ds hbody h => ?_, fun hnumber hbreak => ?_⟩
  · refine countsFrom_of_split (splitSuffix?_eq_some_iff.mpr ?_)
    rwa [Text.dropFinalBreak_eq_self h.getLast?_ne]
  · refine countsFrom_of_split (splitSuffix?_eq_some_iff.mpr ?_)
    rwa [hbody, Text.dropFinalBreak_concat]
  · refine countsFrom_of_none (splitSuffix?_eq_none fun front ds h => ?_)
    rcases Text.dropFinalBreak_cases text.toList with hsame | hfeed
    · rw [hsame] at h
      exact hnumber front ds h
    · exact hbreak _ front ds hfeed h

/-- Zeros in front of a number are not kept, and other numbers are not touched. -/
theorem nextName_in_full_zeros :
    EndsInNumber "A_1_098".toList ['A', '_', '1'] ['0', '9', '8'] ∧
      nextTimes 3 "A_1_098" = .ok "A_1_101" := by
  have h : EndsInNumber "A_1_098".toList ['A', '_', '1'] ['0', '9', '8'] :=
    ⟨by decide, by decide, List.all_eq_true.mp rfl⟩
  have hpow : 10 ^ 3 ≤ 10 ^ Decimal.digitLimit := Nat.pow_le_pow_right (by omega) (by decide)
  have hvalue : Decimal.value ['0', '9', '8'] = 98 := rfl
  have hcount := ((nextName_in_full "A_1_098").1 _ _ h).counted (by decide) 3 (by decide)
    (by rw [hvalue]; omega)
  exact ⟨h, hcount.trans (by cbv)⟩

/-- No number reaches the end of this text, and its last character is dropped. -/
theorem nextName_drops_break :
    (∀ front ds, ¬ EndsInNumber "a_1\n".toList front ds) ∧ nextName "a_1\n" = .ok "a_2" := by
  have hpow : 10 ^ 1 ≤ 10 ^ Decimal.digitLimit := Nat.pow_le_pow_right (by omega) (by decide)
  have hvalue : Decimal.value ['1'] = 1 := rfl
  have hsplit : splitSuffix? "a_1\n".toList = some (['a', '_'], ['1']) := by decide
  have hnext := (countsFrom_of_split hsplit).next (by decide) (by rw [hvalue]; omega)
  exact ⟨fun _ _ h => h.getLast?_ne (by simp), hnext.trans (by cbv)⟩

end EnumDecl.Identifier
