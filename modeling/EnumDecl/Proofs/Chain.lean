import EnumDecl.Proofs.Numbering

/-!
# Where renaming leads

`Proofs.Suffix` follows the chain of a member name one step at a time. Here all of it is told from
the name alone, which is cut into a stem and digits, of which there may be none: so many renames
later the stem has a number behind it that is greater by so many than that of the digits
(`chain_in_full`). Every name on the way is a member name, and no two of them are the same. The way
ends where the next number is past the digit limit.

On each step the next text goes through the rule for names again. This matters for a name that an
underscore ends and for no other: the underscore of its first number stands behind another one, and
the two become one. All other next texts are names already (`Seam`).
-/

namespace EnumDecl.Identifier

/-- A stem with a number behind it. -/
def numbered (stem : List Char) (n : Nat) : String := String.ofList (stem ++ Decimal.digits n)

/-- Renaming leads from a name to its stem with greater and greater numbers, counted on from that
of some digits. -/
structure Chain (name : String) (stem ds : List Char) : Prop where
  /-- So many renames later the number is greater by so many. -/
  named : ds.length ≤ Decimal.digitLimit → ∀ k, 1 ≤ k →
    Decimal.value ds + k < 10 ^ Decimal.digitLimit →
    renamedTimes k name = .ok (numbered stem (Decimal.value ds + k))
  /-- There is no name without a character. -/
  nonempty : ∀ n, numbered stem n ≠ ""
  /-- Every name is made into itself. -/
  kept : ∀ n, memberName (numbered stem n) = numbered stem n
  /-- The name and all that come of it are different. -/
  distinct : ds.length ≤ Decimal.digitLimit → ∀ k, Decimal.value ds + k < 10 ^ Decimal.digitLimit →
    ((List.range (k + 1)).map fun i => renamedTimes i name).Nodup
  /-- Digits past the limit are not read, zeros in front of the number counted. -/
  unreadable : Decimal.digitLimit < ds.length → ∀ k, 1 ≤ k →
    renamedTimes k name = .error (.unreadable ds.length)
  /-- A number past the limit is not written. -/
  unwritable : ds.length ≤ Decimal.digitLimit → ∀ k, 1 ≤ k →
    10 ^ Decimal.digitLimit ≤ Decimal.value ds + k → renamedTimes k name = .error .unwritable

/-- What the rule for names does to the next text after a name. -/
structure Seam (name : String) : Prop where
  /-- Where an underscore ends the name the next text has two in a row, of which one is left. -/
  merged : name.toList.getLast? = some '_' →
    nextName name = .ok (name ++ "_1") ∧ memberName (name ++ "_1") = name ++ "1"
  /-- Any other next text is left as it is. -/
  kept : name.toList.getLast? ≠ some '_' → ∀ next, nextName name = .ok next →
    memberName next = next

/-! ## Where a name is cut -/

theorem splitSuffix?_of_endsInNumber {cs front ds : List Char} (h : EndsInNumber cs front ds) :
    splitSuffix? cs = some (front ++ ['_'], ds) := by
  rw [splitSuffix?_eq_some_iff, Text.dropFinalBreak_eq_self h.getLast?_ne]
  exact h

theorem splitSuffix?_eq_none_of_isWord {cs : List Char} (hw : cs.all isWord = true)
    (h : ∀ front ds, ¬ EndsInNumber cs front ds) : splitSuffix? cs = none := by
  refine splitSuffix?_eq_none ?_
  rwa [Text.dropFinalBreak_eq_self (getLast?_ne_break hw)]

/-- An underscore is no digit, so no number ends what it ends. -/
theorem splitSuffix?_eq_none_of_underscore {cs : List Char} (hw : cs.all isWord = true)
    (hlast : cs.getLast? = some '_') : splitSuffix? cs = none :=
  splitSuffix?_eq_none_of_isWord hw fun _ _ hends =>
    absurd (hends.isDigit_of_getLast? hlast) (by decide)

theorem suffixDigits_of_none {cs : List Char} (hs : splitSuffix? cs = none) :
    suffixDigits cs = [] := by
  rw [suffixDigits, hs]

/-- A name that an underscore ends is its own stem. -/
theorem stem_of_underscore {cs : List Char} (hs : splitSuffix? cs = none)
    (hlast : cs.getLast? = some '_') : stem cs = cs := by
  rw [stem, hs]
  exact if_pos hlast

/-- The stem of any other name that no number ends has an underscore more. -/
theorem stem_of_none {cs : List Char} (hs : splitSuffix? cs = none)
    (hlast : cs.getLast? ≠ some '_') :
    stem cs = cs ++ ['_'] := by
  rw [stem, hs]
  exact if_neg hlast

/-! ## Along the chain -/

theorem isMember_numbered {name : String} (h : IsMember name) (n : Nat) :
    IsMember (numbered (stem name.toList) n) where
  nonempty := by
    rw [numbered, Ne, ← String.toList_eq_nil_iff, String.toList_ofList, List.append_eq_nil_iff]
    exact fun hnil => Decimal.digits_ne_nil n hnil.2
  shape := by
    rw [numbered, String.toList_ofList]
    exact isMemberName_stem_digits h.shape h.toList_ne_nil n

/-- The next name has the same stem. -/
theorem stem_following {name : String} (h : IsMember name) :
    stem (following name).toList = stem name.toList := by
  rw [stem, splitSuffix?_following h]

/-- **So far along the chain the stem is the same and the number greater by so many.** -/
theorem iterate_following_eq {name : String} (h : IsMember name) (k : Nat) :
    following^[k + 1] name = numbered (stem name.toList) (suffixNumber name.toList + (k + 1)) := by
  induction k generalizing name with
  | zero => rfl
  | succ k ih =>
    rw [Function.iterate_succ_apply, ih h.following, stem_following h, suffixNumber_following h,
      Nat.add_assoc, Nat.add_comm 1]

/-- Digits within the limit stand for a number that does not reach it. -/
theorem suffixNumber_lt {name : String} (h : IsMember name)
    (hr : (suffixDigits name.toList).length ≤ Decimal.digitLimit) :
    suffixNumber name.toList < 10 ^ Decimal.digitLimit := by
  have hdigits : ∀ c ∈ suffixDigits name.toList, c.isDigit = true := by
    unfold suffixDigits
    split
    · rename_i hs
      exact (splitSuffix?_eq_some h.all_isWord hs).2.2.2
    · simp
  rw [suffixNumber_eq]
  exact Nat.lt_of_lt_of_le (Decimal.value_lt hdigits) (Nat.pow_le_pow_right (by omega) hr)

/-- **The chain breaks off at the digit limit**, and nothing comes after. -/
theorem renamedTimes_eq_unwritable {name : String} (h : IsMember name)
    (hr : (suffixDigits name.toList).length ≤ Decimal.digitLimit) {k : Nat} (hk : 1 ≤ k)
    (hn : 10 ^ Decimal.digitLimit ≤ suffixNumber name.toList + k) :
    renamedTimes k name = .error .unwritable := by
  have hlt := suffixNumber_lt h hr
  induction k generalizing name with
  | zero => omega
  | succ k ih =>
    rw [renamedTimes]
    by_cases hlast : suffixNumber name.toList + 1 = 10 ^ Decimal.digitLimit
    · rw [renamed_eq_unwritable hr hlast]
      rfl
    · have hone : Countable name 1 := ⟨hr, by omega⟩
      have hsuffix := suffixNumber_following h
      rw [renamed_eq h hone]
      show renamedTimes k (following name) = _
      exact ih h.following (hone.following h).readable (by omega) (by omega) (by omega)

theorem chain_of_isMember {name : String} (h : IsMember name) :
    Chain name (stem name.toList) (suffixDigits name.toList) := by
  have hvalue := suffixNumber_eq name.toList
  refine ⟨fun hread k hk hn => ?_, fun n => (isMember_numbered h n).nonempty,
    fun n => (isMember_numbered h n).memberName_eq, fun hread k hn => ?_, fun hlong k hk => ?_,
    fun hread k hk hn => renamedTimes_eq_unwritable h hread hk (hvalue ▸ hn)⟩
  · obtain ⟨k, rfl⟩ : ∃ j, k = j + 1 := ⟨k - 1, by omega⟩
    rw [renamedTimes_eq h ⟨hread, hvalue ▸ hn⟩, iterate_following_eq h, hvalue]
  · have hreached : ∀ i ∈ List.range (k + 1), renamedTimes i name = .ok (following^[i] name) := by
      intro i hi
      have hik := List.mem_range.mp hi
      exact renamedTimes_eq h ⟨hread, by omega⟩
    refine List.nodup_range.map_on fun i hi j hj he => ?_
    rw [hreached i hi, hreached j hj] at he
    exact iterate_following_inj h (Except.ok.inj he)
  · obtain ⟨k, rfl⟩ : ∃ j, k = j + 1 := ⟨k - 1, by omega⟩
    cases hs : splitSuffix? name.toList with
    | none => exact absurd hlong (by simp [suffixDigits_of_none hs])
    | some p =>
      obtain ⟨st, ds⟩ := p
      have hd : suffixDigits name.toList = ds := by rw [suffixDigits, hs]
      rw [hd] at hlong ⊢
      rw [renamedTimes, renamed, (countsFrom_of_split hs).unreadable hlong]
      rfl

/-! ## The seam -/

/-- Behind a name that no underscore ends the next text is the next name. -/
theorem eq_following_of_nextName {name next : String} (hlast : name.toList.getLast? ≠ some '_')
    (hnext : nextName name = .ok next) : next = following name := by
  rw [following, suffixNumber_eq]
  cases hs : splitSuffix? name.toList with
  | none =>
    rw [nextName_of_none hs] at hnext
    rw [stem_of_none hs hlast, suffixDigits_of_none hs]
    exact (Except.ok.inj hnext).symm
  | some p =>
    obtain ⟨st, ds⟩ := p
    rw [nextName_of_split hs] at hnext
    rw [stem, suffixDigits, hs]
    split_ifs at hnext
    exact (Except.ok.inj hnext).symm

theorem seam_of_isMember {name : String} (h : IsMember name) : Seam name := by
  refine ⟨fun hlast => ?_, fun hlast next hnext => ?_⟩
  · have hs := splitSuffix?_eq_none_of_underscore h.all_isWord hlast
    have htext : (name ++ "_1").toList = name.toList ++ ['_', '1'] := String.toList_append
    refine ⟨?_, String.toList_inj.mp ?_⟩
    · rw [nextName_of_none hs, List.append_assoc]
      exact congrArg Except.ok (String.toList_inj.mp (String.toList_ofList.trans htext.symm))
    · rw [toList_memberName, htext, memberChars_first h.shape h.toList_ne_nil hs,
        stem_of_underscore hs hlast, String.toList_append]
      rfl
  · rw [eq_following_of_nextName hlast hnext]
    exact h.following.memberName_eq

/-! ## All of it -/

/--
**The chain of a member name in full.** A name that a number ends goes on from that number, with
the underscore in front of it; a name that an underscore ends gets its first number right behind
that, and any other name behind an underscore of its own.
-/
theorem chain_in_full {name : String} (hne : name ≠ "") (hself : memberName name = name) :
    (∀ front ds, EndsInNumber name.toList front ds → Chain name (front ++ ['_']) ds) ∧
    (name.toList.getLast? = some '_' → Chain name name.toList []) ∧
    (name.toList.getLast? ≠ some '_' → (∀ front ds, ¬ EndsInNumber name.toList front ds) →
      Chain name (name.toList ++ ['_']) []) ∧
    Seam name := by
  have h : IsMember name := hself ▸ isMember_memberName hne
  have hchain := chain_of_isMember h
  refine ⟨fun front ds hends => ?_, fun hlast => ?_, fun hlast hnone => ?_, seam_of_isMember h⟩
  · have hs := splitSuffix?_of_endsInNumber hends
    rwa [stem, suffixDigits, hs] at hchain
  · have hs := splitSuffix?_eq_none_of_underscore h.all_isWord hlast
    rwa [stem_of_underscore hs hlast, suffixDigits_of_none hs] at hchain
  · have hs := splitSuffix?_eq_none_of_isWord h.all_isWord hnone
    rwa [stem_of_none hs hlast, suffixDigits_of_none hs] at hchain

/-- The first number comes behind an underscore of its own or behind the one that is there, and a
number that is there goes on without its zeros. -/
theorem chain_in_full_merging :
    ("A" ≠ "" ∧ memberName "A" = "A" ∧ "A".toList.getLast? ≠ some '_' ∧
      (∀ front ds, ¬ EndsInNumber "A".toList front ds) ∧ renamedTimes 12 "A" = .ok "A_12") ∧
    ("A_" ≠ "" ∧ memberName "A_" = "A_" ∧ "A_".toList.getLast? = some '_' ∧
      nextName "A_" = .ok "A__1" ∧ renamedTimes 12 "A_" = .ok "A_12") ∧
    ("A_098" ≠ "" ∧ memberName "A_098" = "A_098" ∧
      EndsInNumber "A_098".toList ['A'] ['0', '9', '8']
      ∧ renamedTimes 3 "A_098" = .ok "A_101") := by
  have hpow : 10 ^ 3 ≤ 10 ^ Decimal.digitLimit := Nat.pow_le_pow_right (by omega) (by decide)
  have hzero : Decimal.value [] = 0 := rfl
  have hvalue : Decimal.value ['0', '9', '8'] = 98 := rfl
  have hletter : ∀ front ds, ¬ EndsInNumber "A".toList front ds := fun _ _ hends =>
    absurd (hends.isDigit_of_getLast? (show "A".toList.getLast? = some 'A' from rfl)) (by decide)
  have hnumber : EndsInNumber "A_098".toList ['A'] ['0', '9', '8'] :=
    ⟨by decide, by decide, List.all_eq_true.mp rfl⟩
  obtain ⟨-, -, hfresh, -⟩ := @chain_in_full "A" (by decide) (by decide)
  obtain ⟨-, hmerged, -, hseam⟩ := @chain_in_full "A_" (by decide) (by decide)
  obtain ⟨hgoes, -, -, -⟩ := @chain_in_full "A_098" (by decide) (by decide)
  refine ⟨⟨by decide, by decide, by decide, hletter, ?_⟩,
    ⟨by decide, by decide, rfl, (hseam.merged rfl).1, ?_⟩, ⟨by decide, by decide, hnumber, ?_⟩⟩
  · exact ((hfresh (by decide) hletter).named (by decide) 12 (by decide)
      (by rw [hzero]; omega)).trans
      (by cbv)
  · exact ((hmerged rfl).named (by decide) 12 (by decide) (by rw [hzero]; omega)).trans (by cbv)
  · exact ((hgoes _ _ hnumber).named (by decide) 3 (by decide) (by rw [hvalue]; omega)).trans
      (by cbv)

end EnumDecl.Identifier
