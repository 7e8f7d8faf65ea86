import EnumDecl.Proofs.Granted
import EnumDecl.Proofs.Policy
import EnumDecl.Proofs.Renaming

/-!
# Where a cap ends renaming

A cap says how many names may be given up for one member, so one name more is tried than it counts.
A request that only names stand against is granted under the first of them that no member has.
Where members have them all, the last one is reported beside the first, and nothing is stored
(`CappedAt`).

The search does not look at the cap before it has to give up. What is granted is therefore granted
alike under a greater cap, and also without one, as the names given up are all different and belong
to members (`run_of_allows`).

Values come before names here as well: what cannot be kept in a set is refused whether or not a
name is free. And a cap past the digit limit is never met (`refused_of_free_name`).
-/

namespace EnumDecl.Enumeration

open Identifier

/-! ## Caps -/

/-- The cap is a whole number, as a truth value is too. -/
def IsBound (cap : Value) (c : Nat) : Prop :=
  cap.bare = .int c ∨ ∃ b, cap.bare = .bool b ∧ Value.ofBool b = c

/-- A cap under which `c` names may be given up at least: a number that is no smaller, or none. -/
def Allows (cap : Value) (c : Nat) : Prop := cap.bare = .null ∨ ∃ d, c ≤ d ∧ IsBound cap d

theorem renameLimit_of_isBound {e : Enumeration} {c : Nat} (h : IsBound e.attemptCap c) :
    e.renameLimit = .ok c := by
  unfold renameLimit
  rcases h with h | ⟨b, h, hb⟩
  · rw [h]
    rfl
  · rw [h]
    exact congrArg Except.ok (congrArg Int.toNat hb)

theorem exists_renameLimit_of_allows {e : Enumeration} {c : Nat} (h : Allows e.attemptCap c) :
    ∃ limit, e.renameLimit = .ok limit ∧ (c ≤ limit ∨ e.size ≤ limit) := by
  rcases h with h | ⟨d, hd, h⟩
  · exact ⟨e.size, by rw [renameLimit, h]; rfl, Or.inr (Nat.le_refl _)⟩
  · exact ⟨d, renameLimit_of_isBound h, Or.inl hd⟩

theorem isWritable_of_isBound {cap : Value} {c : Nat} (h : IsBound cap c)
    (hc : c < 10 ^ Decimal.digitLimit) : cap.isWritable = true := by
  rw [← Value.isWritable_bare]
  rcases h with h | ⟨b, h, -⟩
  · rw [h]
    exact Decimal.isWritable_iff.mpr hc
  · rw [h]
    rfl

/-! ## What a search comes to -/

theorem search_of_free {taken : String → Bool} {name : String} (h : taken name = false)
    (limit : Nat) : search taken limit name = ⟨[], .free name⟩ := by
  unfold search
  rw [h]
  rfl

theorem search_of_renamed {taken : String → Bool} {name next : String} (ht : taken name = true)
    (hn : renamed name = .ok next) (limit : Nat) :
    search taken (limit + 1) name = ⟨(name, next) :: (search taken limit next).renames,
      (search taken limit next).final⟩ := by
  rw [search, ht, hn]
  rfl

/-- **A search that finds a name needs no more than the names it gives up.** -/
theorem exists_of_search_free {taken : String → Bool} {limit : Nat} {name n : String}
    (hm : IsMember name) (h : (search taken limit name).final = .free n) :
    ∃ k ≤ limit, (∀ j < k, taken (following^[j] name) = true) ∧
      ∀ l, k ≤ l → search taken l name = search taken limit name := by
  have hstop : ∀ {limit name}, taken name = false →
      ∃ k ≤ limit, (∀ j < k, taken (following^[j] name) = true) ∧
        ∀ l, k ≤ l → search taken l name = search taken limit name := fun hfree =>
    ⟨0, Nat.zero_le _, fun j hj => absurd hj (Nat.not_lt_zero j), fun l _ => by
      rw [search_of_free hfree, search_of_free hfree]⟩
  induction limit generalizing name with
  | zero =>
    cases hname : taken name with
    | false => exact hstop hname
    | true =>
      rw [search, hname] at h
      exact absurd h (by simp)
  | succ limit ih =>
    cases hname : taken name with
    | false => exact hstop hname
    | true =>
      cases hnext : renamed name with
      | error fault =>
        rw [search, hname, hnext] at h
        exact absurd h (by simp)
      | ok next =>
        rw [search_of_renamed hname hnext] at h
        -- one rename more than the rest of the search needs
        obtain rfl := eq_following_of_renamed hm hnext
        obtain ⟨k, hk, htaken, hsame⟩ := ih hm.following h
        refine ⟨k + 1, Nat.succ_le_succ hk, fun j hj => ?_, fun l hl => ?_⟩
        · cases j with
          | zero => exact hname
          | succ j => exact htaken j (Nat.lt_of_succ_lt_succ hj)
        · obtain ⟨l, rfl⟩ : ∃ i, l = i + 1 := ⟨l - 1, by omega⟩
          rw [search_of_renamed hname hnext, search_of_renamed hname hnext,
            hsame l (Nat.le_of_succ_le_succ hl)]

/-- **A greater limit makes no difference to a search that finds a name**, and as many names as
there are members are always enough. -/
theorem search_of_greater {e : Enumeration} (hi : Indexed e) {name n : String} (hm : IsMember name)
    {limit l : Nat} (h : (search e.hasName limit name).final = .free n)
    (hl : limit ≤ l ∨ e.size ≤ l) : search e.hasName l name = search e.hasName limit name := by
  obtain ⟨k, hk, htaken, hsame⟩ := exists_of_search_free hm h
  refine hsame l ?_
  rcases hl with hl | hl
  · exact Nat.le_trans hk hl
  · obtain ⟨i, hi', hfree, -⟩ := exists_first_free hm e.memberNames
    have hki : k ≤ i := by
      by_contra hlt
      exact hfree ((hasName_iff hi _).mp (htaken i (Nat.lt_of_not_le hlt)))
    rw [memberNames, List.length_map] at hi'
    exact Nat.le_trans hki (Nat.le_trans hi' hl)

/-- Where names are settled and no value stands against it, a request comes to what the search
comes to. -/
theorem place_of_search {e : Enumeration} {m : Member} {limit : Nat}
    (hauto : e.autoResolve.isTrue = true) (hlimit : e.renameLimit = .ok limit)
    (hv : e.valueTaken m.value = .ok false) :
    e.place m =
      match (search e.hasName limit m.name).final with
      | .free name => e.enlist { m with name := name } (e.renames limit m.name)
      | .exhausted name => ⟨e, e.renames limit m.name, .error (Fault.showing e.attemptCap
          (.attemptsExhausted ⟨name, m.value, true, false⟩ m.name e.attemptCap))⟩
      | .failed fault => ⟨e, e.renames limit m.name, .error (.ofSuffix fault)⟩ := by
  rw [place_of_valueTaken hv]
  by_cases hname : e.hasName m.name = false
  · rw [if_pos ⟨hname, rfl⟩, renames, search_of_free hname]
    rfl
  · rw [if_neg (by simp [hname]), if_neg (by simp [hauto]), if_neg (by simp), settle, hlimit]
    rfl

/-! ## One request -/

/-- Members have the name and all that fewer than `k` renames make of it. -/
def TakenBefore (e : Enumeration) (name : String) (k : Nat) : Prop :=
  ∀ j < k, ∀ n, renamedTimes j name = .ok n → e.HasMemberNamed n

/-- What a request for a name comes to where `c` names may be given up for it. -/
structure CappedAt (e : Enumeration) (r : Request) (requested : String) (c : Nat) : Prop where
  /-- It is granted when the name made of the one asked for is free, or one of the next `c` is. -/
  granted : (∃ m, (e.add r).result = .ok m) ↔
    ∃ k ≤ c, ∃ name, renamedTimes k (memberName requested) = .ok name ∧ ¬ e.HasMemberNamed name
  /-- What is stored has the first name that is free. -/
  stored : ∀ k ≤ c, ∀ name, renamedTimes k (memberName requested) = .ok name →
    ¬ e.HasMemberNamed name → e.TakenBefore (memberName requested) k →
      e.add r = e.store ⟨name, e.effectiveValue r.value, r.annotations.toList⟩
        (e.renames c (memberName requested))
  /-- Where none is free the last of them is reported, and the enumeration stays as it is. -/
  refused : e.TakenBefore (memberName requested) (c + 1) →
    ∃ last, renamedTimes c (memberName requested) = .ok last ∧
      e.add r = ⟨e, e.renames c (memberName requested), .error (.attemptsExhausted
        ⟨last, e.effectiveValue r.value, true, false⟩ (memberName requested) e.attemptCap)⟩

section

variable {e : Enumeration} {c k : Nat} {r : Request} {requested : String} (hi : Indexed e)
  (hauto : e.autoResolve.isTrue = true) (hcap : IsBound e.attemptCap c)
  (hr : r.name.bare = .text requested) (hne : requested ≠ "") (ha : r.annotations.fault? = none)
  (hv : e.ValueFree (e.effectiveValue r.value))

include hi hauto hcap hr hne ha hv

/-- The first free name within the cap is the name of what is stored. -/
theorem add_eq_store (hc : Countable (memberName requested) k) (hk : k ≤ c)
    (hfree : following^[k] (memberName requested) ∉ e.memberNames)
    (hbefore : ∀ j, j < k → following^[j] (memberName requested) ∈ e.memberNames) :
    e.add r = e.store
      ⟨following^[k] (memberName requested), e.effectiveValue r.value, r.annotations.toList⟩
      (e.renames c (memberName requested)) := by
  rw [add_text hr hne ha,
    place_of_search hauto (renameLimit_of_isBound hcap) (valueTaken_of_valueFree hv),
    search_of_first_free (isMember_memberName hne) hc hk
      (fun j hj => (hasName_iff hi _).mpr (hbefore j hj)) ((hasName_eq_false_iff hi _).mpr hfree)]
  exact enlist_of_valueFree
    (m := ⟨following^[k] (memberName requested), e.effectiveValue r.value, r.annotations.toList⟩)
    hv _

/-- Where all names within the cap are taken the last of them is reported. Its number is no smaller
than the cap, so the cap can be written. -/
theorem add_eq_exhausted (hc : Countable (memberName requested) c)
    (htaken : ∀ j, j ≤ c → following^[j] (memberName requested) ∈ e.memberNames) :
    e.add r = ⟨e, e.renames c (memberName requested), .error (.attemptsExhausted
      ⟨following^[c] (memberName requested), e.effectiveValue r.value, true, false⟩
      (memberName requested) e.attemptCap)⟩ := by
  have hwrite : e.attemptCap.isWritable = true :=
    isWritable_of_isBound hcap (Nat.lt_of_le_of_lt (Nat.le_add_left c _) hc.writable)
  rw [add_text hr hne ha,
    place_of_search hauto (renameLimit_of_isBound hcap) (valueTaken_of_valueFree hv),
    search_of_taken (isMember_memberName hne) (Or.inr hc)
      fun j hj => (hasName_iff hi _).mpr (htaken j hj)]
  dsimp only
  rw [Fault.showing, if_pos hwrite]

/-- **A request that only names stand against is decided by the names within the cap.** -/
theorem cappedAt (hc : Countable (memberName requested) (min c e.size)) :
    CappedAt e r requested c := by
  have hm := isMember_memberName hne
  obtain ⟨k, hk, hfree, hbefore⟩ := exists_first_free hm e.memberNames
  replace hk : k ≤ e.size := by rwa [memberNames, List.length_map] at hk
  have hcount : ∀ j ≤ c, j ≤ k → Countable (memberName requested) j := fun j hjc hjk =>
    hc.mono (Nat.le_min.mpr ⟨hjc, Nat.le_trans hjk hk⟩)
  have hreached : ∀ j ≤ c, j ≤ k →
      renamedTimes j (memberName requested) = .ok (following^[j] (memberName requested)) :=
    fun j hjc hjk => renamedTimes_eq hm (hcount j hjc hjk)
  -- no name before that one is free, whatever way it is reached
  have hleast : ∀ j ≤ c, ∀ n, renamedTimes j (memberName requested) = .ok n →
      ¬ e.HasMemberNamed n → k ≤ j := by
    intro j hj n hn hnfree
    by_contra hlt
    have hjk : j < k := Nat.lt_of_not_le hlt
    obtain rfl := Except.ok.inj (hn.symm.trans (hreached j hj (Nat.le_of_lt hjk)))
    exact hnfree ((mem_memberNames_iff e _).mp (hbefore j hjk))
  by_cases hkc : k ≤ c
  · have hat := hreached k hkc (Nat.le_refl k)
    have hnfree : ¬ e.HasMemberNamed (following^[k] (memberName requested)) :=
      fun h => hfree ((mem_memberNames_iff e _).mpr h)
    have hstore := add_eq_store hi hauto hcap hr hne ha hv (hcount k hkc (Nat.le_refl k)) hkc hfree
      hbefore
    refine ⟨⟨fun _ => ⟨k, hkc, _, hat, hnfree⟩, fun _ => ⟨_, by rw [hstore]; rfl⟩⟩, ?_,
      fun htaken => absurd (htaken k (Nat.lt_succ_of_le hkc) _ hat) hnfree⟩
    intro j hj n hn hjfree htaken
    obtain rfl : j = k := by
      refine Nat.le_antisymm ?_ (hleast j hj n hn hjfree)
      by_contra hlt
      exact hnfree (htaken k (Nat.lt_of_not_le hlt) _ hat)
    obtain rfl := Except.ok.inj (hn.symm.trans hat)
    exact hstore
  · have hck : c < k := Nat.lt_of_not_le hkc
    have hrefuse := add_eq_exhausted hi hauto hcap hr hne ha hv
      (hcount c (Nat.le_refl c) (Nat.le_of_lt hck))
      fun j hj => hbefore j (Nat.lt_of_le_of_lt hj hck)
    have hnone : ∀ j ≤ c, ∀ n, renamedTimes j (memberName requested) = .ok n →
        e.HasMemberNamed n := by
      intro j hj n hn
      by_contra hnfree
      exact absurd (hleast j hj n hn hnfree) (by omega)
    refine ⟨⟨?_, ?_⟩, fun j hj n hn hnfree => absurd (hnone j hj n hn) hnfree,
      fun _ => ⟨_, hreached c (Nat.le_refl c) (Nat.le_of_lt hck), hrefuse⟩⟩
    · rintro ⟨m, hok⟩
      rw [hrefuse] at hok
      exact absurd hok (by simp)
    · rintro ⟨j, hj, n, hn, hnfree⟩
      exact absurd (hnone j hj n hn) hnfree

end

/-! ## A greater cap -/

/-- **A request that is granted under a cap is granted alike under a greater one.** -/
theorem add_of_allows {e : Enumeration} (hi : Indexed e) (hauto : e.autoResolve.isTrue = true)
    {c : Nat} (hcap : IsBound e.attemptCap c) {cap : Value} (hallows : Allows cap c) {r : Request}
    {m : Member} (h : (e.add r).result = .ok m) :
    (e.withPolicy e.autoResolve cap).add r = (e.add r).withPolicy e.autoResolve cap := by
  obtain ⟨-, hadmits, hvalue, -⟩ := store_of_ok h
  obtain ⟨requested, hr, hne, ha⟩ := exists_text_of_ok h
  have hv : e.ValueFree (e.effectiveValue r.value) := hvalue ▸ hadmits.valueFree
  obtain ⟨limit, hlimit, hle⟩ :=
    exists_renameLimit_of_allows (e := e.withPolicy e.autoResolve cap) hallows
  have hadd := (add_text hr hne ha).trans
    (place_of_search hauto (renameLimit_of_isBound hcap) (valueTaken_of_valueFree hv))
  have hother := (add_text (e := e.withPolicy e.autoResolve cap) hr hne ha).trans
    (place_of_search hauto hlimit (valueTaken_of_valueFree hv))
  rw [hother]
  rw [hadd] at h ⊢
  cases hfinal : (search e.hasName c (memberName requested)).final with
  | free name =>
    have hsearch : search (e.withPolicy e.autoResolve cap).hasName limit (memberName requested)
        = search e.hasName c (memberName requested) :=
      search_of_greater hi (isMember_memberName hne) hfinal hle
    unfold renames
    dsimp only
    rw [hsearch, hfinal]
    exact enlist_withPolicy e _ _ _ _
  | _ =>
    rw [hfinal] at h
    exact absurd h (by simp)

/-- **So is a list of requests.** -/
theorem run_of_allows {e : Enumeration} (hi : Indexed e) (hauto : e.autoResolve.isTrue = true)
    {c : Nat} (hcap : IsBound e.attemptCap c) {cap : Value} (hallows : Allows cap c)
    {rs : List Request} (h : AllGranted (e.run rs).results) :
    (e.withPolicy e.autoResolve cap).run rs = ⟨(e.run rs).enumeration.withPolicy e.autoResolve cap,
      (e.run rs).events, (e.run rs).results⟩ := by
  induction rs generalizing e with
  | nil => rfl
  | cons r rs ih =>
    rw [run, allGranted_cons] at h
    obtain ⟨⟨m, hm⟩, hrest⟩ := h
    obtain ⟨-, -, -, hpolicy, hsame⟩ := add_unchanged e r
    have htail := ih (indexed_add hi r) (by rw [hpolicy]; exact hauto) (by rw [hsame]; exact hcap)
      hrest
    rw [hpolicy] at htail
    rw [run, add_of_allows hi hauto hcap hallows hm]
    dsimp only [Addition.withPolicy]
    rw [htail]
    rfl

/-! ## The enumeration with another cap -/

theorem fill_withPolicy (e : Enumeration) (policy cap : Value) (ms : List Member) :
    (e.withPolicy policy cap).fill ms = (e.fill ms).withPolicy policy cap := by
  induction ms generalizing e with
  | nil => rfl
  | cons m ms ih => exact ih (e.record m)

theorem fits_withPolicy {e : Enumeration} (policy cap : Value) {ms : List Member} (h : Fits e ms) :
    Fits (e.withPolicy policy cap) ms := by
  induction ms generalizing e with
  | nil => trivial
  | cons m ms ih =>
    exact ⟨⟨⟨h.1.shape, h.1.nameFree, h.1.null⟩, h.1.keepable, h.1.fresh⟩, ih h.2⟩

/-- A member that can stand in the list is put there when it is asked for, be its value kept or
not. -/
theorem record_of_enters {e : Enumeration} (hi : Indexed e) {m : Member} (h : Enters e m) :
    (e.add m.request).enumeration = e.record m := by
  by_cases hh : e.isNoValue m.value = false → m.value.isHashable = true
  · rw [add_of_admits (h.admits hh), store_enumeration]
  · obtain ⟨hn, hnot⟩ := Classical.not_imp.mp hh
    have hs : m.value.isSet = true := (h.keepable hn).resolve_left hnot
    have hname : memberName m.name = m.name := h.shape.memberName_eq
    have hvalue : e.effectiveValue m.request.value = m.value := effectiveValue_eq_self h.null
    have hgives : e.GivesSet m.request := by
      rw [GivesSet, Gives, hvalue]
      exact ⟨hn, hs⟩
    rw [add_of_givesSet hi (r := m.request) rfl h.shape.nonempty rfl hgives
      (hname.symm ▸ (hasName_eq_false_iff hi _).mp h.nameFree), hname, hvalue]
    rfl

theorem reachable_fill {e : Enumeration} (h : Reachable e) {ms : List Member} (hf : Fits e ms) :
    Reachable (e.fill ms) := by
  induction ms generalizing e with
  | nil => exact h
  | cons m ms ih =>
    have hadd := h.added m.request
    rw [record_of_enters (indexed_reachable h) hf.1] at hadd
    exact ih hadd hf.2

/-- **Another policy or another cap makes nothing that cannot be come by**: the members can be
asked for under the names that they have. -/
theorem reachable_withPolicy {e : Enumeration} (h : Reachable e) (policy cap : Value) :
    Reachable (e.withPolicy policy cap) := by
  have hs := sound_reachable h
  have hempty := declare_withPolicy (declare_emptied hs.declared hs.declared.marked) policy cap
  have hfill := reachable_fill (.declared hempty) (fits_withPolicy policy cap (fits_emptied hs))
  rw [fill_withPolicy, fill_emptied hs.indexed] at hfill
  exact hfill

/-! ## All of it -/

/--
**A cap is exact, and a greater one changes nothing that is granted.** In an enumeration that
anyone can come by, that settles names and has a whole number for a cap, a request for a name is
decided by the names that the cap allows, if its annotations can be had, its value means that there
is none, or can be kept in a set and is not kept yet, and the number of its name stays within the
digit limit. Requests that are all granted come to the same in the enumeration with a greater cap
and in the one without a cap.
-/
theorem add_capped {e : Enumeration} (h : Reachable e) (hauto : e.autoResolve.isTrue = true)
    {c : Nat} (hcap : IsBound e.attemptCap c) :
    (∀ r requested, r.name.bare = .text requested → requested ≠ "" → r.annotations.fault? = none →
      (e.Gives r → (e.effectiveValue r.value).isHashable = true
        ∧ ¬ e.HasSameValue (e.effectiveValue r.value)) →
      Countable (memberName requested) (min c e.size) → CappedAt e r requested c) ∧
    ∀ cap, Allows cap c → Reachable (e.withPolicy e.autoResolve cap) ∧
      ∀ rs, AllGranted (e.run rs).results →
        (e.withPolicy e.autoResolve cap).run rs
          = ⟨(e.run rs).enumeration.withPolicy e.autoResolve cap, (e.run rs).events,
            (e.run rs).results⟩ := by
  have hi := indexed_reachable h
  refine ⟨fun r requested hr hne ha hv hc => ?_, fun cap hallows =>
    ⟨reachable_withPolicy h _ _, fun rs hall => run_of_allows hi hauto hcap hallows hall⟩⟩
  exact cappedAt hi hauto hcap hr hne ha (valueFree_of_not_hasSameValue hi hv) hc

/-- Two members of one name; the second takes the only rename there is. -/
def twoReds : List Request := [⟨.text "Red", .int 1, .none⟩, ⟨.text "Red", .int 2, .none⟩]

/-- A third one is refused, and the cap was of no account before. -/
theorem add_capped_twoReds : ∃ e, declare capped = .ok e ∧
    CappedAt (e.run twoReds).enumeration ⟨.text "Red", .int 3, .none⟩ "Red" 1 ∧
    ((e.run twoReds).enumeration.add ⟨.text "Red", .int 3, .none⟩).result
      = .error (.attemptsExhausted ⟨"Red_1", .int 3, true, false⟩ "Red" (.int 1)) ∧
    ((e.withPolicy e.autoResolve .null).run twoReds).results
      = [.ok ⟨"Red", .int 1, []⟩, .ok ⟨"Red_1", .int 2, []⟩] := by
  have hreach := Reachable.declared declare_capped
  have hresults :
    (run ⟨"Colors", .text "", .int (-1), .bool true, .int 1, [], [], []⟩ twoReds).results
      = [.ok ⟨"Red", .int 1, []⟩, .ok ⟨"Red_1", .int 2, []⟩] := by cbv
  have hmembers : (run ⟨"Colors", .text "", .int (-1), .bool true, .int 1, [], [], []⟩
      twoReds).enumeration.members = [⟨"Red", .int 1, []⟩, ⟨"Red_1", .int 2, []⟩] := by cbv
  have hafter := reachable_run hreach twoReds
  have hthree : (run ⟨"Colors", .text "", .int (-1), .bool true, .int 1, [], [], []⟩
      twoReds).enumeration.values.any (fun w => w.same (.int 3)) = false := by cbv
  have hcapped := (add_capped hafter (by cbv) (c := 1) (Or.inl (by cbv))).1
    ⟨.text "Red", .int 3, .none⟩ "Red" rfl (by decide) rfl
    (fun _ => ⟨by cbv, fun hsame => by
      rw [← any_same_iff (indexed_reachable hafter)] at hsame
      exact absurd hsame (by simp [effectiveValue, hthree])⟩)
    (countable_of_lt (by cbv) (by cbv))
  have htaken : (run ⟨"Colors", .text "", .int (-1), .bool true, .int 1, [], [], []⟩
      twoReds).enumeration.TakenBefore (memberName "Red") 2 := by
    intro j hj n hn
    obtain rfl | rfl : j = 0 ∨ j = 1 := by omega
    · exact ⟨_, hmembers ▸ List.mem_cons_self, Except.ok.inj (Eq.trans (by cbv) hn)⟩
    · exact ⟨⟨"Red_1", .int 2, []⟩, hmembers ▸ List.mem_cons_of_mem _ List.mem_cons_self,
        Except.ok.inj (Eq.trans (by cbv) hn)⟩
  obtain ⟨last, hlast, hadd⟩ := hcapped.refused htaken
  obtain rfl : "Red_1" = last := Except.ok.inj (Eq.trans (by cbv) hlast)
  have hall := (add_capped hreach rfl (c := 1) (Or.inl rfl)).2 .null (Or.inl rfl)
  have hrun := hall.2 twoReds (by rw [hresults]; simp [AllGranted])
  exact ⟨_, declare_capped, hcapped, (congrArg Addition.result hadd).trans (by cbv),
    (congrArg Run.results hrun).trans hresults⟩

/--
That no value clashes is not enough: a list is refused under a free name. And where the whole chain
of a name is taken up to the digit limit, a cap past the limit is not what ends the search.
-/
theorem refused_of_free_name :
    (∃ e : Enumeration, Reachable e ∧ e.autoResolve.isTrue = true ∧ IsBound e.attemptCap 1
      ∧ ¬ e.HasMemberNamed (memberName "A") ∧ ¬ e.HasSameValue (.list [])
      ∧ (e.add ⟨.text "A", .list [], .none⟩).result = .error (.unhashable .list))
    ∧ ∃ (e : Enumeration) (c : Nat), Reachable e ∧ e.autoResolve.isTrue = true
      ∧ IsBound e.attemptCap c ∧ splitSuffix? (memberName "Foo").toList = none
      ∧ e.isNoValue (e.effectiveValue .null) = true
      ∧ (e.add ⟨.text "Foo", .null, .none⟩).result = .error (.ofSuffix .unwritable) := by
  constructor
  · refine ⟨_, .declared declare_capped, rfl, Or.inl rfl, ?_, ?_, by cbv⟩
    · rintro ⟨m, hm, -⟩
      exact absurd hm (by simp)
    · rintro ⟨m, hm, -⟩
      exact absurd hm (by simp)
  · obtain ⟨e, n, -, he, hauto, -, hno, -, -, hsearch⟩ := exists_full_chain
    have hfree : e.isNoValue (e.effectiveValue .null) = true := by
      rw [isNoValue, effectiveValue, hno]
      cbv
    have hcap : IsBound (e.withPolicy e.autoResolve (.int (n + 1 : Nat))).attemptCap (n + 1) :=
      Or.inl rfl
    refine ⟨_, n + 1, reachable_withPolicy he e.autoResolve (.int (n + 1 : Nat)), hauto,
      hcap, by cbv, hfree, ?_⟩
    have hadd := (add_text (e := e.withPolicy e.autoResolve (.int (n + 1 : Nat)))
      (r := ⟨.text "Foo", .null, .none⟩) rfl (by decide) rfl).trans
      (place_of_search hauto (renameLimit_of_isBound hcap) (if_pos hfree))
    rw [hadd]
    dsimp only
    rw [show (e.withPolicy e.autoResolve (.int (n + 1 : Nat))).hasName = e.hasName from rfl,
      hsearch (n + 1) (Nat.lt_succ_self n)]

end EnumDecl.Enumeration
