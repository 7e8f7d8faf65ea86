import EnumDecl.Proofs.Decimal
import EnumDecl.Proofs.Name
import Mathlib.Data.List.Basic
import Mathlib.Data.List.TakeWhile
import Mathlib.Logic.Function.Iterate

/-!
# The chain of next names

Renaming a member appends a number or counts one up, and puts the outcome through the rule for
member names again. On a name of the right shape all of this comes to one thing: the stem stays,
and the number behind it grows by one (`renamed_eq`). Repeated renaming therefore never comes back
to a name it has left, because the number tells how often it was done.

`following` is that one thing, said without the digit limit. The limit stands apart in `Countable`:
a name's number can be read, and stays within the limit for so many steps.
-/

namespace EnumDecl.Identifier

/-! ## Cutting off a suffix -/

theorem ne_break_of_isWord {c : Char} (h : isWord c = true) : c ≠ '\n' := by
  rintro rfl
  exact absurd h (by decide)

theorem getLast?_ne_break {cs : List Char} (h : cs.all isWord = true) :
    cs.getLast? ≠ some '\n' := by
  intro hl
  exact ne_break_of_isWord (List.all_eq_true.mp h _ (List.mem_of_getLast? hl)) rfl

theorem isDigit_underscore : Char.isDigit '_' = false := by decide

/-- A text that is, but for a line feed behind it, a stem that an underscore ends and digits, is
cut there. -/
theorem splitSuffix?_of_cut {cs st ds : List Char} (hcut : Text.dropFinalBreak cs = st ++ ds)
    (hst : st.getLast? = some '_') (hne : ds ≠ []) (hds : ∀ c ∈ ds, c.isDigit = true) :
    splitSuffix? cs = some (st, ds) := by
  have hrev : st.reverse.head? = some '_' := by rw [List.head?_reverse, hst]
  obtain ⟨back, hback⟩ : ∃ back, st.reverse = '_' :: back := by
    cases hr : st.reverse with
    | nil => rw [hr] at hrev; exact absurd hrev (by simp)
    | cons c back =>
      rw [hr] at hrev
      exact ⟨back, by rw [Option.some.inj hrev]⟩
  have htake : (ds.reverse ++ '_' :: back).takeWhile Char.isDigit = ds.reverse := by
    rw [List.takeWhile_append_of_pos (by simpa using hds),
      List.takeWhile_cons_of_neg (by simp [isDigit_underscore]), List.append_nil]
  have hdrop : (ds.reverse ++ '_' :: back).dropWhile Char.isDigit = '_' :: back := by
    rw [List.dropWhile_append_of_pos (by simpa using hds),
      List.dropWhile_cons_of_neg (by simp [isDigit_underscore])]
  unfold splitSuffix?
  dsimp only
  rw [hcut, List.reverse_append, hback, htake, hdrop, ← hback]
  simp [hne, hrev]

/-- A text cut into a stem that an underscore ends and digits is cut there. -/
theorem splitSuffix?_append {st ds : List Char} (hst : st.getLast? = some '_') (hne : ds ≠ [])
    (hds : ∀ c ∈ ds, c.isDigit = true) : splitSuffix? (st ++ ds) = some (st, ds) := by
  refine splitSuffix?_of_cut (Text.dropFinalBreak_eq_self ?_) hst hne hds
  rw [List.getLast?_append_of_ne_nil _ hne]
  intro hl
  exact absurd (hds _ (List.mem_of_getLast? hl)) (by decide)

/-- Where a suffix is found, what is left of the text without a line feed at its end is cut at
it. -/
theorem cut_of_splitSuffix? {cs st ds : List Char} (h : splitSuffix? cs = some (st, ds)) :
    Text.dropFinalBreak cs = st ++ ds ∧ st.getLast? = some '_' ∧ ds ≠ []
      ∧ ∀ c ∈ ds, c.isDigit = true := by
  unfold splitSuffix? at h
  dsimp only at h
  split at h
  · exact absurd h (by simp)
  · rename_i hcond
    simp only [Bool.not_eq_true, Bool.or_eq_false_iff, List.isEmpty_eq_false_iff,
      bne_eq_false_iff_eq]
      at hcond
    obtain ⟨rfl, rfl⟩ := Prod.mk.inj (Option.some.inj h)
    refine ⟨?_, ?_, by simpa using hcond.1, ?_⟩
    · rw [← List.reverse_append, List.takeWhile_append_dropWhile, List.reverse_reverse]
    · rw [List.getLast?_reverse, hcond.2]
    · intro c hc
      exact List.mem_takeWhile_imp (List.mem_reverse.mp hc)

/-- A name is cut as it is. -/
theorem splitSuffix?_eq_some {cs st ds : List Char} (hw : cs.all isWord = true)
    (h : splitSuffix? cs = some (st, ds)) :
    cs = st ++ ds ∧ st.getLast? = some '_' ∧ ds ≠ [] ∧ ∀ c ∈ ds, c.isDigit = true := by
  obtain ⟨hcut, hrest⟩ := cut_of_splitSuffix? h
  rw [Text.dropFinalBreak_eq_self (getLast?_ne_break hw)] at hcut
  exact ⟨hcut, hrest⟩

/-! ## The next text -/

/-- The next text after one that is cut at a suffix. -/
theorem nextName_of_split {text : String} {st ds : List Char}
    (h : splitSuffix? text.toList = some (st, ds)) :
    nextName text =
      if Decimal.digitLimit < ds.length then .error (.unreadable ds.length)
      else if 10 ^ Decimal.digitLimit ≤ Decimal.value ds + 1 then .error .unwritable
      else .ok (String.ofList (st ++ Decimal.digits (Decimal.value ds + 1))) := by
  have hread : (!Decimal.isReadable ds) = true ↔ Decimal.digitLimit < ds.length := by
    simp [Decimal.isReadable]
  have hwrite : (!Decimal.isWritable ((Decimal.value ds + 1 : Nat) : Int)) = true
      ↔ 10 ^ Decimal.digitLimit ≤ Decimal.value ds + 1 := by
    rw [Bool.not_eq_true', Bool.eq_false_iff, Ne, Decimal.isWritable_iff, Int.natAbs_natCast,
      Nat.not_lt]
  unfold nextName nextChars
  rw [h]
  simp only [hread, hwrite]
  split
  · rfl
  · split
    · rfl
    · rfl

/-- The next text after one that is not. -/
theorem nextName_of_none {text : String} (h : splitSuffix? text.toList = none) :
    nextName text = .ok (String.ofList (text.toList ++ ['_'] ++ Decimal.digits 1)) := by
  unfold nextName nextChars
  rw [h, List.append_assoc]
  rfl

/-! ## Stems -/

/-- The digits a text ends in, where an underscore stands before them. -/
def suffixDigits (cs : List Char) : List Char :=
  match splitSuffix? cs with
  | some (_, digits) => digits
  | none => []

theorem suffixNumber_eq (cs : List Char) : suffixNumber cs = Decimal.value (suffixDigits cs) := by
  unfold suffixNumber suffixDigits
  cases splitSuffix? cs with
  | none => rfl
  | some p => rfl

/-- The part of a name that renaming keeps ends in an underscore. -/
theorem getLast?_stem {cs : List Char} (hw : cs.all isWord = true) :
    (stem cs).getLast? = some '_' := by
  unfold stem
  split
  · rename_i hs
    exact (splitSuffix?_eq_some hw hs).2.1
  · split
    · assumption
    · exact List.getLast?_concat ..

theorem splitSuffix?_stem_digits {cs : List Char} (hw : cs.all isWord = true) (n : Nat) :
    splitSuffix? (stem cs ++ Decimal.digits n) = some (stem cs, Decimal.digits n) :=
  splitSuffix?_append (getLast?_stem hw) (Decimal.digits_ne_nil n) fun _ =>
    Decimal.isDigit_of_mem_digits

/-- A text that has no two underscores in a row has none at its front either. -/
theorem hasDoubleUnderscore_left {a b : List Char} (h : hasDoubleUnderscore (a ++ b) = false) :
    hasDoubleUnderscore a = false := by
  induction a with
  | nil => rfl
  | cons c cs ih =>
    cases cs with
    | nil => rfl
    | cons d ds =>
      simp only [List.cons_append, hasDoubleUnderscore, Bool.or_eq_false_iff] at h ⊢
      exact ⟨h.1, ih h.2⟩

/-- What has no underscore may follow any text without bringing two of them together. -/
theorem hasDoubleUnderscore_append {a b : List Char} (ha : hasDoubleUnderscore a = false)
    (hb : '_' ∉ b) : hasDoubleUnderscore (a ++ b) = false := by
  have hb' : ∀ b : List Char, '_' ∉ b → hasDoubleUnderscore b = false := by
    intro b
    induction b with
    | nil => intro _; rfl
    | cons c cs ih =>
      intro h
      simp only [List.mem_cons, not_or] at h
      exact hasDoubleUnderscore_cons (fun hc => absurd hc.symm h.1) (ih h.2)
  induction a with
  | nil => exact hb' b hb
  | cons c cs ih =>
    have hcs : hasDoubleUnderscore cs = false := by
      cases cs with
      | nil => rfl
      | cons d ds =>
        simp only [hasDoubleUnderscore, Bool.or_eq_false_iff] at ha
        exact ha.2
    refine hasDoubleUnderscore_cons (fun hc => ?_) (ih hcs)
    cases cs with
    | nil =>
      intro hbad
      exact hb (List.mem_of_head? hbad)
    | cons d ds =>
      simp only [hasDoubleUnderscore, Bool.or_eq_false_iff] at ha
      simpa [hc] using ha.1

/-- An underscore may be put behind a text that does not end in one. -/
theorem hasDoubleUnderscore_snoc {cs : List Char} (hd : hasDoubleUnderscore cs = false)
    (hlast : cs.getLast? ≠ some '_') : hasDoubleUnderscore (cs ++ ['_']) = false := by
  induction cs with
  | nil => rfl
  | cons c cs ih =>
    cases cs with
    | nil => exact hasDoubleUnderscore_cons (fun hc => absurd (by rw [hc]; rfl) hlast) rfl
    | cons d ds =>
      simp only [hasDoubleUnderscore, Bool.or_eq_false_iff] at hd
      refine hasDoubleUnderscore_cons (fun hc => by simpa [hc] using hd.1) (ih hd.2 ?_)
      rwa [List.getLast?_cons_cons] at hlast

theorem underscore_not_mem_digits (n : Nat) : '_' ∉ Decimal.digits n := fun h =>
  absurd (Decimal.isDigit_of_mem_digits h) (by decide)

/-- The stem of a member name is a member name, and not empty. -/
theorem isMemberName_stem {cs : List Char} (h : isMemberName cs = true) (hne : cs ≠ []) :
    isMemberName (stem cs) = true := by
  simp only [isMemberName, Bool.and_eq_true, Bool.not_eq_true'] at h ⊢
  obtain ⟨⟨hw, hd⟩, hs⟩ := h
  unfold stem
  split
  · rename_i st ds hsplit
    obtain ⟨rfl, hlast, -, -⟩ := splitSuffix?_eq_some hw hsplit
    rw [List.all_append, Bool.and_eq_true] at hw
    refine ⟨⟨hw.1, hasDoubleUnderscore_left hd⟩, ?_⟩
    cases st with
    | nil => rfl
    | cons c st => simpa [startsWithDigit] using hs
  · split
    · exact ⟨⟨hw, hd⟩, hs⟩
    · rename_i hlast
      refine ⟨⟨by rw [List.all_append, hw]; rfl, ?_⟩, ?_⟩
      · exact hasDoubleUnderscore_snoc hd hlast
      · cases cs with
        | nil => exact absurd rfl hne
        | cons c cs => simpa [startsWithDigit] using hs

theorem stem_ne_nil {cs : List Char} (hw : cs.all isWord = true) : stem cs ≠ [] := by
  intro h
  have := getLast?_stem hw
  rw [h] at this
  exact absurd this (by simp)

/-- A stem with a number behind it is a member name. -/
theorem isMemberName_stem_digits {cs : List Char} (h : isMemberName cs = true) (hne : cs ≠ [])
    (n : Nat) : isMemberName (stem cs ++ Decimal.digits n) = true := by
  have hs := isMemberName_stem h hne
  have hw : cs.all isWord = true := by
    simp only [isMemberName, Bool.and_eq_true] at h
    exact h.1.1
  simp only [isMemberName, Bool.and_eq_true, Bool.not_eq_true'] at hs ⊢
  obtain ⟨⟨hsw, hsd⟩, hss⟩ := hs
  refine ⟨⟨?_, hasDoubleUnderscore_append hsd (underscore_not_mem_digits n)⟩, ?_⟩
  · rw [List.all_append, hsw, Bool.true_and, List.all_eq_true]
    exact fun c hc =>
      isWord_of_isAlphanum (isAlphanum_of_isDigit (Decimal.isDigit_of_mem_digits hc))
  · cases hst : stem cs with
    | nil => exact absurd hst (stem_ne_nil hw)
    | cons c st => rw [hst] at hss; exact hss

/-! ## One step -/

/-- The name after another one, whatever the digit limit: the number behind the stem is one
greater. -/
def following (name : String) : String :=
  String.ofList (stem name.toList ++ Decimal.digits (suffixNumber name.toList + 1))

/-- The number of a name can be read, and counted up so many times. -/
structure Countable (name : String) (times : Nat) : Prop where
  /-- The digits are within the limit, leading zeros counted. -/
  readable : (suffixDigits name.toList).length ≤ Decimal.digitLimit
  /-- So is every number that is reached. -/
  writable : suffixNumber name.toList + times < 10 ^ Decimal.digitLimit

theorem Countable.mono {name : String} {k l : Nat} (h : Countable name l) (hkl : k ≤ l) :
    Countable name k :=
  ⟨h.readable, Nat.lt_of_le_of_lt (Nat.add_le_add_left hkl _) h.writable⟩

/-- Small numbers come nowhere near the limit. -/
theorem countable_of_lt {name : String} {times : Nat}
    (hr : (suffixDigits name.toList).length ≤ Decimal.digitLimit)
    (h : suffixNumber name.toList + times < 1000) : Countable name times := by
  have hpow : 10 ^ 3 ≤ 10 ^ Decimal.digitLimit := Nat.pow_le_pow_right (by omega) (by decide)
  exact ⟨hr, by omega⟩

theorem IsMember.following {name : String} (h : IsMember name) : IsMember (following name) := by
  have hl : (Identifier.following name).toList
      = stem name.toList ++ Decimal.digits (suffixNumber name.toList + 1) := String.toList_ofList
  refine ⟨fun he => ?_, ?_⟩
  · have hnil := String.toList_eq_nil_iff.mpr he
    rw [hl] at hnil
    exact Decimal.digits_ne_nil _ (List.append_eq_nil_iff.mp hnil).2
  · rw [hl]
    exact isMemberName_stem_digits h.shape h.toList_ne_nil _

theorem splitSuffix?_following {name : String} (h : IsMember name) :
    splitSuffix? (following name).toList
      = some (stem name.toList, Decimal.digits (suffixNumber name.toList + 1)) := by
  rw [following, String.toList_ofList]
  exact splitSuffix?_stem_digits h.all_isWord _

/-- The number of the next name is one greater. -/
theorem suffixNumber_following {name : String} (h : IsMember name) :
    suffixNumber (following name).toList = suffixNumber name.toList + 1 := by
  rw [suffixNumber, splitSuffix?_following h]
  exact Decimal.value_digits _

theorem Countable.following {name : String} {k : Nat} (hm : IsMember name)
    (h : Countable name (k + 1)) : Countable (following name) k := by
  have hw := h.writable
  refine ⟨?_, by rw [suffixNumber_following hm]; omega⟩
  rw [suffixDigits, splitSuffix?_following hm]
  exact (Decimal.length_digits_le_iff (by decide)).mpr (by omega)

/-- The names that are reached are within the limit too. -/
theorem Countable.iterate {name : String} {k : Nat} (hm : IsMember name) (h : Countable name k) :
    Countable (Identifier.following^[k] name) 0 := by
  induction k generalizing name with
  | zero => exact h
  | succ k ih =>
    rw [Function.iterate_succ_apply]
    exact ih hm.following (h.following hm)

/-! ## The rule behind a step -/

/-- Whether a text ends inside a run of characters outside of a class. -/
def endsInRun (keep : Char → Bool) (inRun : Bool) (cs : List Char) : Bool :=
  match cs.getLast? with
  | some c => !keep c
  | none => inRun

theorem endsInRun_cons (keep : Char → Bool) (inRun : Bool) (c : Char) (cs : List Char) :
    endsInRun keep inRun (c :: cs) = endsInRun keep (!keep c) cs := by
  cases cs with
  | nil => rfl
  | cons d ds =>
      rw [endsInRun, endsInRun, List.getLast?_cons_cons, List.getLast?_eq_some_getLast (by simp)]

/-- Collapsing goes on behind a text as its end says. -/
theorem collapse_append (keep : Char → Bool) (inRun : Bool) (a b : List Char) :
    collapse keep inRun (a ++ b)
      = collapse keep inRun a ++ collapse keep (endsInRun keep inRun a) b := by
  induction a generalizing inRun with
  | nil => rfl
  | cons c cs ih =>
    rw [List.cons_append, collapse, collapse, endsInRun_cons]
    by_cases hc : keep c = true
    · rw [if_pos hc, if_pos hc, ih, hc]
      rfl
    · rw [Bool.not_eq_true] at hc
      rw [hc]
      cases inRun with
      | true => simp [ih]
      | false => simp [ih]

/-- Behind a member name the first suffix makes its stem and a one. -/
theorem memberChars_first {cs : List Char} (h : isMemberName cs = true) (hne : cs ≠ [])
    (hs : splitSuffix? cs = none) : memberChars (cs ++ ['_', '1']) = stem cs ++ ['1'] := by
  have hst : stem cs = if cs.getLast? = some '_' then cs else cs ++ ['_'] := by
    rw [stem, hs]
  have hall := h
  simp only [isMemberName, Bool.and_eq_true, Bool.not_eq_true'] at hall
  have hself : collapse Char.isAlphanum false cs = cs :=
    collapse_alphanum_eq_self hall.1.1 hall.1.2 false (by simp)
  have hguard : ∀ tail : List Char, guardDigit (cs ++ tail) = cs ++ tail := by
    intro tail
    cases cs with
    | nil => exact absurd rfl hne
    | cons c cs =>
      have hc : c.isDigit = false := hall.2
      rw [List.cons_append, guardDigit, hc]
      rfl
  rw [memberChars, collapse_append, hself, hst]
  by_cases hl : cs.getLast? = some '_'
  · -- the underscore of the suffix falls into the run that ends the name
    rw [if_pos hl, endsInRun, hl]
    exact hguard _
  · rw [if_neg hl]
    have hrun : endsInRun Char.isAlphanum false cs = false := by
      unfold endsInRun
      split
      · rename_i c hc
        have hw : isWord c = true := List.all_eq_true.mp hall.1.1 c (List.mem_of_getLast? hc)
        have hcu : c ≠ '_' := fun he => hl (he ▸ hc)
        simpa [isWord, hcu] using hw
      · rfl
    rw [hrun, List.append_assoc]
    exact hguard _

/-- **Renaming a member keeps its stem and counts its number up.** -/
theorem renamed_eq {name : String} (h : IsMember name) (hc : Countable name 1) :
    renamed name = .ok (following name) := by
  have hmade :
    ∀ cs, memberChars cs = stem name.toList ++ Decimal.digits (suffixNumber name.toList + 1) →
      nextName name = .ok (String.ofList cs) → renamed name = .ok (following name) := by
    intro cs hcs hnext
    rw [renamed, hnext]
    show Except.ok (memberName (String.ofList cs)) = _
    rw [memberName, String.toList_ofList, hcs]
    rfl
  cases hs : splitSuffix? name.toList with
  | none =>
    have hn : suffixNumber name.toList = 0 := by rw [suffixNumber, hs]
    refine hmade _ ?_ (nextName_of_none hs)
    rw [List.append_assoc, hn]
    exact memberChars_first h.shape h.toList_ne_nil hs
  | some p =>
    obtain ⟨st, ds⟩ := p
    have hst : stem name.toList = st := by rw [stem, hs]
    have hd : suffixDigits name.toList = ds := by rw [suffixDigits, hs]
    have hn : suffixNumber name.toList = Decimal.value ds := by rw [suffixNumber_eq, hd]
    have hread : ¬ Decimal.digitLimit < ds.length := Nat.not_lt.mpr (hd ▸ hc.readable)
    have hwrite : ¬ 10 ^ Decimal.digitLimit ≤ Decimal.value ds + 1 :=
      Nat.not_le.mpr (hn ▸ hc.writable)
    have hnext := nextName_of_split hs
    rw [if_neg hread, if_neg hwrite] at hnext
    refine hmade _ ?_ hnext
    have hshape := isMemberName_stem_digits h.shape h.toList_ne_nil (Decimal.value ds + 1)
    rw [hst] at hshape
    rw [hst, hn]
    exact memberChars_eq_self hshape

/-- The greatest number within the digit limit is not counted up. -/
theorem renamed_eq_unwritable {name : String}
    (hr : (suffixDigits name.toList).length ≤ Decimal.digitLimit)
    (hn : suffixNumber name.toList + 1 = 10 ^ Decimal.digitLimit) :
    renamed name = .error .unwritable := by
  cases hs : splitSuffix? name.toList with
  | none =>
    -- a name without a number is far from the limit
    have hzero : suffixNumber name.toList = 0 := by rw [suffixNumber, hs]
    have hpow : 1 < 10 ^ Decimal.digitLimit := Nat.one_lt_pow (by decide) (by omega)
    omega
  | some p =>
    obtain ⟨st, ds⟩ := p
    have hd : suffixDigits name.toList = ds := by rw [suffixDigits, hs]
    rw [suffixNumber_eq, hd] at hn
    rw [renamed, nextName_of_split hs, if_neg (Nat.not_lt.mpr (hd ▸ hr)),
      if_pos (Nat.le_of_eq hn.symm)]
    rfl

/-- A text that is renamed has a number that can be counted up. -/
theorem countable_of_renamed {name next : String} (h : renamed name = .ok next) :
    Countable name 1 := by
  cases hs : splitSuffix? name.toList with
  | none =>
    have hd : suffixDigits name.toList = [] := by rw [suffixDigits, hs]
    exact countable_of_lt (by simp [hd]) (by simp [suffixNumber_eq, hd, Decimal.value])
  | some p =>
    obtain ⟨st, ds⟩ := p
    have hd : suffixDigits name.toList = ds := by rw [suffixDigits, hs]
    rw [renamed, nextName_of_split hs] at h
    split at h
    · exact absurd h (by simp [Except.map])
    · rename_i hread
      split at h
      · exact absurd h (by simp [Except.map])
      · rename_i hwrite
        refine ⟨hd ▸ Nat.not_lt.mp hread, ?_⟩
        rw [suffixNumber_eq, hd]
        exact Nat.not_le.mp hwrite

/-- A member that is renamed is called the next one. -/
theorem eq_following_of_renamed {name next : String} (hm : IsMember name)
    (h : renamed name = .ok next) : next = following name :=
  Except.ok.inj (h.symm.trans (renamed_eq hm (countable_of_renamed h)))

/-- Whatever a renamed member is called, it is a member name. -/
theorem isMember_of_renamed {name next : String} (h : renamed name = .ok next) :
    IsMember next := by
  have hnext : ∃ cs, cs ≠ [] ∧ nextName name = .ok (String.ofList cs) := by
    cases hs : splitSuffix? name.toList with
    | none => exact ⟨_, by simp, nextName_of_none hs⟩
    | some p =>
      have hc := countable_of_renamed h
      obtain ⟨st, ds⟩ := p
      have hd : suffixDigits name.toList = ds := by rw [suffixDigits, hs]
      have hwrite := hc.writable
      rw [suffixNumber_eq, hd] at hwrite
      refine ⟨st ++ Decimal.digits (Decimal.value ds + 1), by simp [Decimal.digits_ne_nil], ?_⟩
      rw [nextName_of_split hs, if_neg (Nat.not_lt.mpr (hd ▸ hc.readable)),
        if_neg (Nat.not_le.mpr hwrite)]
  obtain ⟨cs, hcs, hok⟩ := hnext
  rw [renamed, hok] at h
  have hn : memberName (String.ofList cs) = next := Except.ok.inj h
  rw [← hn]
  exact isMember_memberName fun hs => hcs (by simpa using hs)

/-! ## Many steps -/

/-- **So many renames lead that far along the chain.** -/
theorem renamedTimes_eq {name : String} (h : IsMember name) {k : Nat} (hc : Countable name k) :
    renamedTimes k name = .ok (following^[k] name) := by
  induction k generalizing name with
  | zero => rfl
  | succ k ih =>
    have hone := renamed_eq h (hc.mono (Nat.succ_le_succ (Nat.zero_le k)))
    rw [renamedTimes, hone]
    exact ih h.following (Countable.following h hc)

theorem suffixNumber_iterate {name : String} (h : IsMember name) (k : Nat) :
    suffixNumber (following^[k] name).toList = suffixNumber name.toList + k := by
  induction k generalizing name with
  | zero => rfl
  | succ k ih =>
    rw [Function.iterate_succ_apply, ih h.following, suffixNumber_following h]
    omega

/-- **The names of a chain are all different**: the number tells them apart. -/
theorem iterate_following_inj {name : String} (h : IsMember name) {i j : Nat}
    (he : following^[i] name = following^[j] name) : i = j := by
  have hi := suffixNumber_iterate h i
  rw [he, suffixNumber_iterate h j] at hi
  omega

end EnumDecl.Identifier
