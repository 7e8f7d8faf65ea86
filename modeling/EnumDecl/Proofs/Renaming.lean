import EnumDecl.Proofs.Deciding

/-!
# Where renaming ends

Where names are settled without a cap, nothing counts the renames of a request. They come to an end
all the same: the numbers at the end of the names tried go up, so the names are all different, and
each but the last belongs to a member. A request is granted under the first name of its chain that
no member has, after at most as many renames as there are members (`add_takes_first_free`).

Two things can stand against it. A value that equals nothing may still be the one that a member
holds. And the number of a name cannot pass the digit limit, which takes very many members where a
name begins without a number (`refused_of_free_value`).
-/

namespace EnumDecl.Enumeration

open Identifier

/-- How a request for a name is settled: after so many renames, under a name. -/
structure SettledAs (e : Enumeration) (r : Request) (requested : String) (renames : Nat)
    (name : String) : Prop where
  /-- The name is what so many renames make of the one asked for. -/
  reached : renamedTimes renames (memberName requested) = .ok name
  /-- No member has it. -/
  free : ¬ e.HasMemberNamed name
  /-- Some member has what any smaller number of renames makes of the one asked for. -/
  taken : ∀ j < renames, ∃ n, renamedTimes j (memberName requested) = .ok n ∧ e.HasMemberNamed n
  /-- No more names are given up than there are members. -/
  bound : renames ≤ e.size
  /-- It is the free name that ends the search: it ends there however many names may be tried. -/
  unbounded : ∀ limit, renames ≤ limit →
    (search e.hasName limit (memberName requested)).final = .free name
  /-- What was asked for is stored under the name, and each name given up is reported. -/
  stored : ∃ given : List (String × String), given.length = renames
    ∧ (∀ j < renames, ∃ n next, given[j]? = some (n, next)
      ∧ renamedTimes j (memberName requested) = .ok n
      ∧ renamedTimes (j + 1) (memberName requested) = .ok next)
    ∧ e.add r = e.store ⟨name, e.effectiveValue r.value, r.annotations.toList⟩
      (given.map fun p => Event.renamed e.name p.1 p.2)

/--
**A request takes the first free name of its chain.** In an enumeration that anyone can come by,
that settles names and has no cap, a request for a name whose annotations can be had, and whose
value means that there is none, or can be kept in a set and is not kept yet, is granted, as long as
the number of the name stays within the digit limit for as many steps as there are members.
-/
theorem add_takes_first_free {e : Enumeration} (h : Reachable e)
    (hauto : e.autoResolve.isTrue = true) (hcap : e.attemptCap = .null) {r : Request}
    {requested : String} (hr : r.name.bare = .text requested) (hne : requested ≠ "")
    (ha : r.annotations.fault? = none)
    (hv : e.Gives r → (e.effectiveValue r.value).isHashable = true
      ∧ ¬ e.HasSameValue (e.effectiveValue r.value))
    (hc : Countable (memberName requested) e.size) :
    ∃ renames name, SettledAs e r requested renames name := by
  have hs := sound_reachable h
  have hm := isMember_memberName hne
  have hvalue := valueFree_of_not_hasSameValue hs.indexed hv
  obtain ⟨k, hk, hfree, htaken, hadd⟩ := add_first_free hs hauto hcap hr hne ha hvalue hc
  have hreached : ∀ j, j ≤ k →
      renamedTimes j (memberName requested) = .ok (following^[j] (memberName requested)) :=
    fun j hj => renamedTimes_eq hm (hc.mono (Nat.le_trans hj hk))
  have hnamed : ∀ n, n ∈ e.memberNames ↔ e.HasMemberNamed n := fun n =>
    (hasName_iff hs.indexed n).symm.trans (hasName_iff_hasMemberNamed hs.indexed n)
  refine ⟨k, _, hreached k (Nat.le_refl k), fun hn => hfree ((hnamed _).mpr hn), ?_, hk, ?_, ?_⟩
  · exact fun j hj => ⟨_, hreached j (Nat.le_of_lt hj), (hnamed _).mp (htaken j hj)⟩
  · intro limit hlimit
    rw [search_of_first_free hm (hc.mono hk) hlimit
      (fun j hj => (hasName_iff hs.indexed _).mpr (htaken j hj))
      ((hasName_eq_false_iff hs.indexed _).mpr hfree)]
  · refine ⟨(List.range k).map fun j =>
      (following^[j] (memberName requested), following^[j + 1] (memberName requested)), by simp,
        ?_, ?_⟩
    · exact fun j hj => ⟨_, _, by simp [hj], hreached j (Nat.le_of_lt hj), hreached (j + 1) hj⟩
    · rw [hadd, List.map_map]
      rfl

/-- The name asked for is taken and the next one is free. -/
theorem add_takes_first_free_merging : Reachable merging
    ∧ SettledAs merging ⟨.text "Foo", .text "7", .none⟩ "Foo" 1 "Foo_1" := by
  have hfresh : merging.values.any (fun w => w.same (.text "7")) = false := by cbv
  obtain ⟨k, name, hk⟩ :=
    add_takes_first_free reachable_merging (r := ⟨.text "Foo", .text "7", .none⟩) rfl rfl rfl
    (by decide) rfl (fun _ => ⟨by cbv, fun hsame => by
      rw [← any_same_iff (indexed_reachable reachable_merging)] at hsame
      exact absurd hsame (by simp [effectiveValue, hfresh])⟩)
    (countable_of_lt (by cbv) (by cbv))
  obtain ⟨given, hlength, -, hstored⟩ := hk.stored
  have hresult : merging.add ⟨.text "Foo", .text "7", .none⟩
    = merging.store ⟨"Foo_1", .text "7", []⟩
      [.renamed "Word" "Foo" "Foo_1"] := by cbv
  rw [hresult] at hstored
  obtain rfl : "Foo_1" = name :=
    congrArg Member.name (Except.ok.inj (congrArg Addition.result hstored))
  obtain rfl : k = 1 := by
    simpa [store, hlength] using congrArg (List.length ∘ Addition.events) hstored
  exact ⟨reachable_merging, hk⟩

/-! ## Where it does not end so -/

/-- A search whose chain breaks off behind names that are all taken fails as the last one does. -/
theorem search_of_last {taken : String → Bool} {name : String} (hm : IsMember name) {k limit : Nat}
    (hc : Countable name k) (hk : k < limit) (htaken : ∀ j ≤ k, taken (following^[j] name) = true)
    {fault : SuffixFault} (hlast : renamed (following^[k] name) = .error fault) :
    (search taken limit name).final = .failed fault := by
  induction k generalizing name limit with
  | zero =>
    obtain ⟨limit, rfl⟩ : ∃ l, limit = l + 1 := ⟨limit - 1, by omega⟩
    have h0 : taken name = true := htaken 0 (Nat.le_refl 0)
    rw [Function.iterate_zero_apply] at hlast
    unfold search
    simp [h0, hlast]
  | succ k ih =>
    obtain ⟨limit, rfl⟩ : ∃ l, limit = l + 1 := ⟨limit - 1, by omega⟩
    have h0 : taken name = true := htaken 0 (Nat.zero_le _)
    have hone := renamed_eq hm (hc.mono (Nat.succ_le_succ (Nat.zero_le k)))
    unfold search
    simp only [h0, hone, Bool.not_true, Bool.false_eq_true, if_false]
    exact ih hm.following (Countable.following hm hc) (Nat.lt_of_succ_lt_succ hk)
      (fun j hj => htaken (j + 1) (Nat.succ_le_succ hj)) hlast

/-- The names of a chain from its beginning. -/
def chain (name : String) (length : Nat) : List String :=
  (List.range length).map fun j => following^[j] name

/-- Up to the digit limit a name can be asked for again and again. -/
theorem exists_chain {requested : String} (hne : requested ≠ "") {n : Nat}
    (hc : ∀ j < n, Countable (memberName requested) j) :
    ∃ e, Reachable e ∧ e.autoResolve.isTrue = true ∧ e.attemptCap = .null ∧ e.noValue = .int (-1)
      ∧ e.memberNames = chain (memberName requested) n := by
  have hm := isMember_memberName hne
  induction n with
  | zero => exact ⟨_, .declared declare_word, rfl, rfl, rfl, rfl⟩
  | succ n ih =>
    obtain ⟨e, he, hauto, hcap, hno, hnames⟩ := ih fun j hj => hc j (Nat.lt_succ_of_lt hj)
    have hlen : e.members.length = n := by
      simpa [memberNames, chain] using congrArg List.length hnames
    have hvalue : e.ValueFree (e.effectiveValue .null) := by
      intro hg
      rw [isNoValue, effectiveValue, hno] at hg
      exact absurd hg (by cbv; simp)
    obtain ⟨k, hk, hfree, -, hadd⟩ := add_first_free (sound_reachable he) hauto hcap
      (r := ⟨.text requested, .null, .none⟩) rfl hne rfl hvalue
      (hlen.symm ▸ hc n (Nat.lt_succ_self n))
    -- the first free name is the one behind all of them
    obtain rfl : k = n := by
      by_contra hkn
      refine hfree (hnames ▸ List.mem_map.mpr ⟨k, List.mem_range.mpr (by omega), rfl⟩)
    have hfields := add_unchanged e ⟨.text requested, .null, .none⟩
    refine ⟨_, he.added ⟨.text requested, .null, .none⟩, ?_, ?_, ?_, ?_⟩
    · rw [hfields.2.2.2.1]; exact hauto
    · rw [hfields.2.2.2.2]; exact hcap
    · rw [hfields.2.2.1]; exact hno
    · rw [hadd, store_enumeration, record_memberNames, hnames, chain, chain, List.range_succ,
        List.map_append]
      rfl

/-- All names of a chain that begins without a number may be taken, up to the digit limit. The
search for a free one ends at the limit then, if it may go on for so long. -/
theorem exists_full_chain : ∃ e n, n + 1 = 10 ^ Decimal.digitLimit ∧ Reachable e
    ∧ e.autoResolve.isTrue = true ∧ e.attemptCap = .null ∧ e.noValue = .int (-1) ∧ e.size = n + 1
    ∧ (∀ j ≤ n, e.hasName (following^[j] (memberName "Foo")) = true)
    ∧ ∀ limit, n < limit →
      (search e.hasName limit (memberName "Foo")).final = .failed .unwritable := by
  have hm : IsMember (memberName "Foo") := isMember_memberName (by decide)
  have hnum : suffixNumber (memberName "Foo").toList = 0 := by cbv
  have hlen : (suffixDigits (memberName "Foo").toList).length ≤ Decimal.digitLimit := by cbv
  -- the chain has as many names as there are numbers within the limit, zero among them
  obtain ⟨n, hn⟩ : ∃ n, n + 1 = 10 ^ Decimal.digitLimit :=
    ⟨10 ^ Decimal.digitLimit - 1, Nat.sub_add_cancel (Nat.one_le_pow _ _ (by decide))⟩
  have hcount : ∀ j ≤ n, Countable (memberName "Foo") j := fun j hj => ⟨hlen, by omega⟩
  obtain ⟨e, he, hauto, hcap, hno, hnames⟩ :=
    exists_chain (by decide : "Foo" ≠ "") fun j hj => hcount j (Nat.le_of_lt_succ hj)
  have htaken : ∀ j ≤ n, e.hasName (following^[j] (memberName "Foo")) = true := fun j hj =>
    (hasName_iff (indexed_reachable he) _).mpr
      (hnames ▸ List.mem_map.mpr ⟨j, List.mem_range.mpr (Nat.lt_succ_of_le hj), rfl⟩)
  have hlast : renamed (following^[n] (memberName "Foo")) = .error .unwritable := by
    refine renamed_eq_unwritable (Countable.iterate hm (hcount n (Nat.le_refl n))).readable ?_
    rw [suffixNumber_iterate hm, hnum, Nat.zero_add, hn]
  refine ⟨e, n, hn, he, hauto, hcap, hno, ?_, htaken, fun limit hlimit =>
    search_of_last hm (hcount n (Nat.le_refl n)) hlimit htaken hlast⟩
  simpa [memberNames, chain, size] using congrArg List.length hnames

/--
That no member has an equal value is not enough, and neither is that a name begins without a
number. The same not-a-number given twice is refused though it equals nothing; and in an
enumeration that holds the whole chain of a name up to the digit limit, the name is refused for its
number.
-/
theorem refused_of_free_value :
    (∃ e : Enumeration, Reachable e ∧ e.autoResolve.isTrue = true ∧ e.attemptCap = .null
      ∧ ¬ e.HasMemberValued (.marked .constant (.float .nan))
      ∧ (e.add ⟨.text "A", .marked .constant (.float .nan), .none⟩).result
        = .error (.valueConflict ⟨"A", .marked .constant (.float .nan), true, true⟩))
    ∧ ∃ e : Enumeration, Reachable e ∧ e.autoResolve.isTrue = true ∧ e.attemptCap = .null
      ∧ splitSuffix? (memberName "Foo").toList = none ∧ e.isNoValue (e.effectiveValue .null) = true
      ∧ (e.add ⟨.text "Foo", .null, .none⟩).result = .error (.ofSuffix .unwritable) := by
  constructor
  · refine ⟨_,
      (Reachable.declared declare_word).added ⟨.text "A", .marked .constant (.float .nan), .none⟩,
      by cbv, by cbv, ?_, by cbv⟩
    have hadd : (add ⟨"Word", .text "", .int (-1), .bool true, .null, [], [], []⟩
        ⟨.text "A", .marked .constant (.float .nan), .none⟩).enumeration.members
        = [⟨"A", .marked .constant (.float .nan), []⟩] := by cbv
    rintro ⟨m, hm, -, hvalue⟩
    obtain rfl := List.mem_singleton.mp (hadd ▸ hm)
    have hne : (Value.marked .constant (.float .nan)).eqv (.marked .constant (.float .nan)) = false
      := by cbv
    exact absurd hvalue (by simp [hne])
  · obtain ⟨e, n, -, he, hauto, hcap, hno, hsize, htaken, hsearch⟩ := exists_full_chain
    have hfree : e.isNoValue (e.effectiveValue .null) = true := by
      rw [isNoValue, effectiveValue, hno]
      cbv
    have hname : e.hasName (memberName "Foo") = true := htaken 0 (Nat.zero_le n)
    have hvalue : e.ValueFree (e.effectiveValue .null) :=
      fun hg => absurd (hg.symm.trans hfree) (by simp)
    have hlimit : e.renameLimit = .ok e.size := by rw [renameLimit, hcap]; rfl
    refine ⟨e, he, hauto, hcap, by cbv, hfree, ?_⟩
    rw [add_text rfl (by decide) rfl, place_of_valueFree hvalue, if_neg (by simp [hname]),
      if_neg (by simp [hauto]), settle, hlimit]
    dsimp only
    rw [hsearch e.size (hsize ▸ Nat.lt_succ_self n)]

end EnumDecl.Enumeration
