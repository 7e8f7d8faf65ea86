import EnumDecl.Proofs.Invariant
import Mathlib.Data.List.Perm.Basic

/-!
# Settled names do not depend on the order of requests

Where names are settled, a request takes the first free name of the chain that its own name begins.
Chains run into each other: `Foo`, `Foo_`, `Foo_0` and `Foo_007` all lead to names `Foo_1`, `Foo_2`
and so on, and a request that comes early may take the name that a later one would have had by
itself.

Which names are taken in the end is the same in any order all the same. The reason is local. Two
requests that aim at different names do not meet. Two that aim at one name take it and the first
free name behind it, and the chain behind a name does not remember where it was entered
(`firstFree_swap`). So two neighbours in a list of requests may change places, and with them the
whole list may be put in any order.
-/

namespace EnumDecl.Identifier

/-- The first name of a chain that is not in a list. -/
def FirstFree (names : List String) (name x : String) : Prop :=
  ∃ k, following^[k] name = x ∧ x ∉ names ∧ ∀ j, j < k → following^[j] name ∈ names

theorem FirstFree.unique {names : List String} {name x y : String} (hx : FirstFree names name x)
    (hy : FirstFree names name y) : x = y := by
  obtain ⟨i, rfl, hi, hi'⟩ := hx
  obtain ⟨j, rfl, hj, hj'⟩ := hy
  rcases Nat.lt_trichotomy i j with h | h | h
  · exact absurd (hj' i h) hi
  · rw [h]
  · exact absurd (hi' j h) hj

/-- Only which names are in the list matters. -/
theorem FirstFree.congr {names others : List String} {name x : String}
    (he : ∀ n, n ∈ names ↔ n ∈ others) (h : FirstFree names name x) : FirstFree others name x := by
  obtain ⟨k, hk, hx, hj⟩ := h
  exact ⟨k, hk, fun ho => hx ((he x).mpr ho), fun j hjk => (he _).mp (hj j hjk)⟩

/-- Another name that is taken does no harm. -/
theorem FirstFree.snoc_of_ne {names : List String} {name x y : String} (h : FirstFree names name y)
    (hne : y ≠ x) : FirstFree (names ++ [x]) name y := by
  obtain ⟨k, hk, hy, hj⟩ := h
  refine ⟨k, hk, fun hm => ?_, fun j hjk => List.mem_append_left _ (hj j hjk)⟩
  rcases List.mem_append.mp hm with hm | hm
  · exact hy hm
  · exact hne (List.mem_singleton.mp hm)

/-- **Once its first free name is taken, a chain goes on from there.** -/
theorem FirstFree.behind {names : List String} {name x z : String} (hx : FirstFree names name x)
    (hz : FirstFree (names ++ [x]) name z) : FirstFree (names ++ [x]) x z := by
  obtain ⟨i, hi, -, hib⟩ := hx
  obtain ⟨j, hj, hjn, hjb⟩ := hz
  have hij : i < j := by
    by_contra hle
    -- the chain would end at or before the name that is taken now
    rcases Nat.lt_or_eq_of_le (Nat.le_of_not_lt hle) with h | h
    · exact hjn (List.mem_append_left _ (hj ▸ hib j h))
    · exact hjn (List.mem_append_right _ (by rw [← hj, h, hi]; exact List.mem_singleton.mpr rfl))
  have hshift : ∀ l, following^[l] x = following^[i + l] name := by
    intro l
    rw [← hi, ← Function.iterate_add_apply, Nat.add_comm]
  refine ⟨j - i, ?_, hjn, fun l hl => ?_⟩
  · rw [hshift, show i + (j - i) = j by omega, hj]
  · rw [hshift]
    exact hjb (i + l) (by omega)

/-- **Two requests take the same two names, whichever comes first.** -/
theorem firstFree_swap {names : List String} {a b x x' y y' : String} (hx : FirstFree names a x)
    (hy' : FirstFree (names ++ [x]) b y') (hy : FirstFree names b y)
    (hx' : FirstFree (names ++ [y]) a x') : [x, y'].Perm [y, x'] := by
  by_cases hxy : x = y
  · subst hxy
    have hsame : y' = x' := (hy.behind hy').unique (hx.behind hx')
    rw [hsame]
  · have h1 : y' = y := hy'.unique (hy.snoc_of_ne fun h => hxy h.symm)
    have h2 : x' = x := hx'.unique (hx.snoc_of_ne hxy)
    rw [h1, h2]
    exact List.Perm.swap y x []

end EnumDecl.Identifier

namespace EnumDecl.Enumeration

open Identifier

/-! ## One request -/

/-- A request that only a taken name stands against is granted under the first free name of its
chain, and the names before that one are given up one by one. -/
theorem add_first_free {e : Enumeration} (hs : Sound e) (hauto : e.autoResolve.isTrue = true)
    (hcap : e.attemptCap = .null) {r : Request} {text : String} (hr : r.name.bare = .text text)
    (hne : text ≠ "") (ha : r.annotations.fault? = none)
    (hv : e.ValueFree (e.effectiveValue r.value))
    (hc : Countable (memberName text) e.members.length) :
    ∃ k, k ≤ e.members.length ∧ following^[k] (memberName text) ∉ e.memberNames
      ∧ (∀ j, j < k → following^[j] (memberName text) ∈ e.memberNames)
      ∧ e.add r = e.store
          ⟨following^[k] (memberName text), e.effectiveValue r.value, r.annotations.toList⟩
          ((List.range k).map fun j => Event.renamed e.name
            (following^[j] (memberName text)) (following^[j + 1] (memberName text))) := by
  have hm := isMember_memberName hne
  obtain ⟨k, hk, hfree, htaken⟩ := exists_first_free hm e.memberNames
  rw [memberNames, List.length_map] at hk
  refine ⟨k, hk, hfree, htaken, ?_⟩
  rw [add_text hr hne ha, place_of_valueFree hv]
  cases k with
  | zero =>
    -- the name asked for is free, so the chain ends where it begins
    exact if_pos ((hasName_eq_false_iff hs.indexed _).mpr hfree)
  | succ k =>
    have hname : e.hasName (memberName text) = true :=
      (hasName_iff hs.indexed _).mpr (htaken 0 (Nat.succ_pos k))
    rw [if_neg (by simp [hname]), if_neg (by simp [hauto])]
    exact settle_of_taken hcap hm hv hk (hc.mono hk)
      (fun j hj => (hasName_iff hs.indexed _).mpr (htaken j hj))
      ((hasName_eq_false_iff hs.indexed _).mpr hfree)

/-- A request that only a taken name stands against is granted under the first free name. -/
theorem add_settled {e : Enumeration} (hs : Sound e) (hauto : e.autoResolve.isTrue = true)
    (hcap : e.attemptCap = .null) {r : Request} {text : String} (hr : r.name.bare = .text text)
    (hne : text ≠ "") (ha : r.annotations.fault? = none)
    (hv : e.ValueFree (e.effectiveValue r.value))
    (hc : Countable (memberName text) e.members.length) :
    ∃ x evs, FirstFree e.memberNames (memberName text) x
      ∧ e.add r = e.store ⟨x, e.effectiveValue r.value, r.annotations.toList⟩ evs := by
  obtain ⟨k, -, hfree, htaken, hadd⟩ := add_first_free hs hauto hcap hr hne ha hv hc
  exact ⟨_, _, ⟨k, rfl, hfree, htaken⟩, hadd⟩

/-! ## Lists of requests -/

/-- Requests that names alone stand against, in an enumeration that settles names. -/
structure Settleable (e : Enumeration) (rs : List Request) : Prop where
  /-- Names are settled. -/
  auto : e.autoResolve.isTrue = true
  /-- There is no bound on the number of renames. -/
  uncapped : e.attemptCap = .null
  /-- Each request has a name whose number, zero where it has none, stays within the digit limit
  for as many steps as there will be members. -/
  named : ∀ r ∈ rs, ∃ text, r.name.bare = .text text ∧ text ≠ ""
    ∧ Countable (memberName text) (e.members.length + rs.length)
  /-- Their annotations can be had. -/
  readable : ∀ r ∈ rs, r.annotations.fault? = none
  /-- Values that are given can be kept in a set. -/
  hashable : ∀ r ∈ rs, e.Gives r → (e.effectiveValue r.value).isHashable = true
  /-- None of them is a value of the enumeration. -/
  unused : ∀ r ∈ rs, e.Gives r → ∀ w ∈ e.values, w.same (e.effectiveValue r.value) = false
  /-- No two requests give the same value. -/
  distinct : rs.Pairwise fun r s => e.Gives r → e.Gives s →
    (e.effectiveValue r.value).same (e.effectiveValue s.value) = false

/-- What the members hold, apart from their names. -/
def contents (e : Enumeration) : List (Value × List Annotation) :=
  e.members.map fun m => (m.value, m.annotations)

/-- The same members up to their order and up to who has which name. -/
structure Alike (e f : Enumeration) : Prop where
  names : e.memberNames.Perm f.memberNames
  contents : e.contents.Perm f.contents
  noValue : e.noValue = f.noValue
  autoResolve : e.autoResolve = f.autoResolve
  attemptCap : e.attemptCap = f.attemptCap

theorem Alike.refl (e : Enumeration) : Alike e e := ⟨.refl _, .refl _, rfl, rfl, rfl⟩

theorem Alike.symm {e f : Enumeration} (h : Alike e f) : Alike f e :=
  ⟨h.names.symm, h.contents.symm, h.noValue.symm, h.autoResolve.symm, h.attemptCap.symm⟩

theorem Alike.trans {e f g : Enumeration} (h : Alike e f) (k : Alike f g) : Alike e g :=
  ⟨h.names.trans k.names, h.contents.trans k.contents, h.noValue.trans k.noValue,
    h.autoResolve.trans k.autoResolve, h.attemptCap.trans k.attemptCap⟩

theorem Alike.isNoValue {e f : Enumeration} (h : Alike e f) (v : Value) :
    e.isNoValue v = f.isNoValue v := by
  rw [Enumeration.isNoValue, h.noValue, Enumeration.isNoValue]

theorem Alike.effectiveValue {e f : Enumeration} (h : Alike e f) (v : Value) :
    e.effectiveValue v = f.effectiveValue v := by
  cases v with
  | null => exact h.noValue
  | _ => rfl

theorem Alike.length {e f : Enumeration} (h : Alike e f) :
    e.members.length = f.members.length := by
  have := h.names.length_eq
  rwa [memberNames, memberNames, List.length_map, List.length_map] at this

theorem mem_values_iff_contents {e : Enumeration} (h : Indexed e) (v : Value) :
    v ∈ e.values ↔ ∃ p ∈ e.contents, e.isKept p.1 = true ∧ p.1 = v := by
  rw [mem_values_iff h, contents]
  constructor
  · rintro ⟨m, hm, hv⟩
    exact ⟨_, List.mem_map_of_mem hm, hv⟩
  · rintro ⟨p, hp, hv⟩
    obtain ⟨m, hm, rfl⟩ := List.mem_map.mp hp
    exact ⟨m, hm, hv⟩

theorem Alike.mem_values {e f : Enumeration} (h : Alike e f) (he : Indexed e) (hf : Indexed f)
    (v : Value) : v ∈ e.values ↔ v ∈ f.values := by
  rw [mem_values_iff_contents he, mem_values_iff_contents hf]
  simp only [h.contents.mem_iff, isKept, h.isNoValue]

/-- Storing members of equal content keeps enumerations alike as long as the names are. -/
theorem alike_record {e f : Enumeration} (h : Alike e f) {m n : Member} (hv : m.value = n.value)
    (ha : m.annotations = n.annotations)
    (hn : (e.memberNames ++ [m.name]).Perm (f.memberNames ++ [n.name])) :
    Alike (e.record m) (f.record n) := by
  refine ⟨by simpa using hn, ?_, h.noValue, h.autoResolve, h.attemptCap⟩
  simp only [contents, record_members, List.map_append, List.map_cons, List.map_nil, hv, ha]
  exact h.contents.append_right _

@[simp] theorem contents_record (e : Enumeration) (m : Member) :
    (e.record m).contents = e.contents ++ [(m.value, m.annotations)] := by
  simp [contents]

/-- **Two requests in either order make enumerations that are alike.** -/
theorem alike_swap {e f : Enumeration} (h : Alike e f) {r s : Request} {a b x x' y y' : String}
    (hx : FirstFree f.memberNames a x) (hy' : FirstFree (f.memberNames ++ [x]) b y')
    (hy : FirstFree e.memberNames b y) (hx' : FirstFree (e.memberNames ++ [y]) a x') :
    Alike ((e.record ⟨y, e.effectiveValue s.value, s.annotations.toList⟩).record
        ⟨x', e.effectiveValue r.value, r.annotations.toList⟩)
      ((f.record ⟨x, f.effectiveValue r.value, r.annotations.toList⟩).record
        ⟨y', f.effectiveValue s.value, s.annotations.toList⟩) := by
  have hmem : ∀ n, n ∈ f.memberNames ↔ n ∈ e.memberNames := fun n => h.names.mem_iff.symm
  have hmem' : ∀ n, n ∈ f.memberNames ++ [x] ↔ n ∈ e.memberNames ++ [x] := by
    intro n
    rw [List.mem_append, List.mem_append, hmem]
  have hpair := firstFree_swap (hx.congr hmem) (hy'.congr hmem') hy hx'
  refine ⟨?_, ?_, h.noValue, h.autoResolve, h.attemptCap⟩
  · simp only [record_memberNames, List.append_assoc, List.cons_append, List.nil_append]
    exact h.names.append hpair.symm
  · simp only [contents_record, List.append_assoc, List.cons_append, List.nil_append,
      h.effectiveValue]
    exact h.contents.append (List.Perm.swap _ _ [])

theorem Settleable.valueFree {e : Enumeration} {r : Request} {rs : List Request}
    (h : Settleable e (r :: rs)) : e.ValueFree (e.effectiveValue r.value) := fun hv =>
  ⟨h.hashable r (by simp) hv, h.unused r (by simp) hv⟩

/-- The first of several requests is granted, and leaves the others as they were. -/
theorem settleable_cons {e : Enumeration} (hs : Sound e) {r : Request} {rs : List Request}
    (h : Settleable e (r :: rs)) :
    ∃ text x evs, r.name.bare = .text text ∧ FirstFree e.memberNames (memberName text) x
      ∧ e.add r = e.store ⟨x, e.effectiveValue r.value, r.annotations.toList⟩ evs
      ∧ Settleable (e.record ⟨x, e.effectiveValue r.value, r.annotations.toList⟩) rs := by
  obtain ⟨text, hr, hne, hc⟩ := h.named r (by simp)
  obtain ⟨x, evs, hx, hadd⟩ := add_settled hs h.auto h.uncapped hr hne
    (h.readable r (by simp)) h.valueFree
    (hc.mono (Nat.le_add_right _ _))
  refine ⟨text, x, evs, hr, hx, hadd, h.auto, h.uncapped, ?_,
    fun s hs => h.readable s (List.mem_cons_of_mem _ hs), ?_, ?_, ?_⟩
  · intro s hsm
    obtain ⟨t, ht, htne, htc⟩ := h.named s (List.mem_cons_of_mem _ hsm)
    refine ⟨t, ht, htne, htc.mono ?_⟩
    simp only [record_members, List.length_append, List.length_cons, List.length_nil]
    omega
  · intro s hsm hg
    rw [record_effectiveValue]
    exact h.hashable s (List.mem_cons_of_mem _ hsm) (by simpa [Gives] using hg)
  · intro s hsm hg w hw
    rw [record_effectiveValue]
    have hg' : e.Gives s := by simpa [Gives] using hg
    -- the only value that is new is the one just given
    rw [record] at hw
    dsimp only at hw
    split at hw
    · rename_i hkept
      rcases List.mem_append.mp hw with hw | hw
      · exact h.unused s (List.mem_cons_of_mem _ hsm) hg' w hw
      · rw [List.mem_singleton.mp hw]
        exact (List.pairwise_cons.mp h.distinct).1 s hsm (isKept_iff.mp hkept).1 hg'
    · exact h.unused s (List.mem_cons_of_mem _ hsm) hg' w hw
  · refine (List.pairwise_cons.mp h.distinct).2.imp fun {s t} hst hgs hgt => ?_
    rw [record_effectiveValue, record_effectiveValue]
    exact hst (by simpa [Gives] using hgs) (by simpa [Gives] using hgt)

/-- That no two requests give the same value does not depend on their order: to be the same has no
direction for what can be kept in a set. -/
theorem distinct_perm {e : Enumeration} {rs ss : List Request} (hp : rs.Perm ss)
    (hh : ∀ r ∈ rs, e.Gives r → (e.effectiveValue r.value).isHashable = true)
    (hd : rs.Pairwise fun r s => e.Gives r → e.Gives s →
      (e.effectiveValue r.value).same (e.effectiveValue s.value) = false) :
    ss.Pairwise fun r s => e.Gives r → e.Gives s →
      (e.effectiveValue r.value).same (e.effectiveValue s.value) = false := by
  let Apart (r s : Request) : Prop := e.Gives r → e.Gives s →
    (e.effectiveValue r.value).isHashable = true ∧ (e.effectiveValue s.value).isHashable = true
      ∧ (e.effectiveValue r.value).same (e.effectiveValue s.value) = false
  have hsymm : ∀ {r s}, Apart r s → Apart s r := by
    intro r s hrs hgs hgr
    obtain ⟨h1, h2, h3⟩ := hrs hgr hgs
    exact ⟨h2, h1, by rwa [Value.same_comm h2 h1]⟩
  have hapart : rs.Pairwise Apart := hd.imp_of_mem fun {r s} hrm hsm hrs hgr hgs =>
    ⟨hh r hrm hgr, hh s hsm hgs, hrs hgr hgs⟩
  exact ((hp.pairwise_iff hsymm).mp hapart).imp fun hrs hgr hgs => (hrs hgr hgs).2.2

/-- Enumerations that are alike settle the same requests, in any order of them. -/
theorem settleable_perm {e f : Enumeration} (he : Indexed e) (hf : Indexed f) (h : Alike e f)
    {rs ss : List Request} (hp : rs.Perm ss) (hr : Settleable e rs) : Settleable f ss := by
  have hg : ∀ r, f.Gives r ↔ e.Gives r := by
    intro r
    rw [Gives, Gives, h.isNoValue, h.effectiveValue]
  refine ⟨h.autoResolve ▸ hr.auto, h.attemptCap ▸ hr.uncapped, ?_,
    fun s hs => hr.readable s (hp.mem_iff.mpr hs), ?_, ?_, ?_⟩
  · intro s hsm
    rw [← h.length, ← hp.length_eq]
    exact hr.named s (hp.mem_iff.mpr hsm)
  · intro s hsm hgs
    rw [← h.effectiveValue]
    exact hr.hashable s (hp.mem_iff.mpr hsm) ((hg s).mp hgs)
  · intro s hsm hgs w hw
    rw [← h.effectiveValue]
    exact hr.unused s (hp.mem_iff.mpr hsm) ((hg s).mp hgs) w ((h.mem_values he hf w).mpr hw)
  · refine (distinct_perm hp hr.hashable hr.distinct).imp fun {r s} hrs hgr hgs => ?_
    rw [← h.effectiveValue, ← h.effectiveValue]
    exact hrs ((hg r).mp hgr) ((hg s).mp hgs)

/-- All requests of a list are granted. -/
def AllGranted (results : List (Except Fault Member)) : Prop := ∀ x ∈ results, ∃ m, x = .ok m

/-- What a list of requests comes to after a first one that is granted. -/
theorem run_cons_of_store {e : Enumeration} {r : Request} {rs : List Request} {m : Member}
    {evs : List Event} (h : e.add r = e.store m evs) :
    (e.run (r :: rs)).enumeration = ((e.record m).run rs).enumeration
      ∧ (AllGranted (e.run (r :: rs)).results ↔ AllGranted ((e.record m).run rs).results) := by
  have he : e.run (r :: rs) = ⟨((e.record m).run rs).enumeration,
      (e.store m evs).events ++ ((e.record m).run rs).events,
      .ok m :: ((e.record m).run rs).results⟩ := by
    rw [run, h]
    rfl
  rw [he]
  refine ⟨rfl, fun hall x hx => hall x (List.mem_cons_of_mem _ hx), fun hall x hx => ?_⟩
  rcases List.mem_cons.mp hx with hx | hx
  · exact ⟨m, hx⟩
  · exact hall x hx

/-- The first of several requests is stored under a name, and the others are left to be settled. -/
structure GrantsFirst (e : Enumeration) (r : Request) (rs : List Request) (text x : String) :
    Prop where
  name : r.name.bare = .text text
  /-- The name it is stored under. -/
  free : FirstFree e.memberNames (memberName text) x
  sound : Sound (e.record ⟨x, e.effectiveValue r.value, r.annotations.toList⟩)
  rest : Settleable (e.record ⟨x, e.effectiveValue r.value, r.annotations.toList⟩) rs
  run : (e.run (r :: rs)).enumeration
    = ((e.record ⟨x, e.effectiveValue r.value, r.annotations.toList⟩).run rs).enumeration
  granted : AllGranted (e.run (r :: rs)).results ↔
    AllGranted ((e.record ⟨x, e.effectiveValue r.value, r.annotations.toList⟩).run rs).results

theorem exists_grantsFirst {e : Enumeration} (hs : Sound e) {r : Request} {rs : List Request}
    (h : Settleable e (r :: rs)) : ∃ text x, GrantsFirst e r rs text x := by
  obtain ⟨text, x, evs, hr, hx, hadd, hrest⟩ := settleable_cons hs h
  have hsound := sound_add hs r
  rw [hadd, store_enumeration] at hsound
  obtain ⟨hrun, hgranted⟩ := run_cons_of_store hadd
  exact ⟨text, x, hr, hx, hsound, hrest, hrun, hgranted⟩

/-- **Requests in any order are all granted and end in enumerations that are alike.** -/
theorem run_alike {rs ss : List Request} (hp : rs.Perm ss) :
    ∀ {e f : Enumeration}, Sound e → Sound f → Alike e f → Settleable e rs →
      AllGranted (e.run rs).results ∧ AllGranted (f.run ss).results
        ∧ Alike (e.run rs).enumeration (f.run ss).enumeration := by
  induction hp using List.Perm.recOnSwap' with
  | nil =>
    intro e f _ _ h _
    exact ⟨fun x hx => absurd hx (by simp [run]), fun x hx => absurd hx (by simp [run]), h⟩
  | cons r hp ih =>
    intro e f he hf h hr
    have hr' := settleable_perm he.indexed hf.indexed h (List.Perm.cons r hp) hr
    obtain ⟨text, x, h₁⟩ := exists_grantsFirst he hr
    obtain ⟨text', y, k₁⟩ := exists_grantsFirst hf hr'
    obtain rfl : text = text' := Value.text.inj (h₁.name.symm.trans k₁.name)
    -- the same names are taken in both, so the same name is the first free one
    have hxy : x = y := (h₁.free.congr fun n => h.names.mem_iff).unique k₁.free
    rw [h₁.run, h₁.granted, k₁.run, k₁.granted]
    exact ih h₁.sound k₁.sound (alike_record h (h.effectiveValue _) rfl
      (by rw [hxy]; exact h.names.append_right _)) h₁.rest
  | swap' r s hp ih =>
    intro e f he hf h hr
    have hr' := settleable_perm he.indexed hf.indexed h (List.Perm.swap' r s hp) hr
    obtain ⟨b, y, h₁⟩ := exists_grantsFirst he hr
    obtain ⟨a, x', h₂⟩ := exists_grantsFirst h₁.sound h₁.rest
    obtain ⟨a', x, k₁⟩ := exists_grantsFirst hf hr'
    obtain ⟨b', y', k₂⟩ := exists_grantsFirst k₁.sound k₁.rest
    obtain rfl : a = a' := Value.text.inj (h₂.name.symm.trans k₁.name)
    obtain rfl : b = b' := Value.text.inj (h₁.name.symm.trans k₂.name)
    have hx' := h₂.free
    have hy' := k₂.free
    rw [record_memberNames] at hx' hy'
    have hlike := alike_swap h (r := r) (s := s) k₁.free hy' h₁.free hx'
    rw [h₁.run, h₁.granted, h₂.run, h₂.granted, k₁.run, k₁.granted, k₂.run, k₂.granted]
    refine ih h₂.sound k₂.sound ?_ h₂.rest
    simp only [record_effectiveValue]
    exact hlike
  | trans hp₁ hp₂ ih₁ ih₂ =>
    intro e f he hf h hr
    obtain ⟨h1, -, h3⟩ := ih₁ he he (Alike.refl e) hr
    obtain ⟨-, k2, k3⟩ := ih₂ he hf h (settleable_perm he.indexed he.indexed (Alike.refl e) hp₁ hr)
    exact ⟨h1, k2, h3.trans k3⟩

/--
**The order of requests decides only who gets which name.** Requests that an enumeration can settle
are all granted in any order of them, and in any order the same names are taken and the same values
are stored with the same annotations.
-/
theorem run_perm {e : Enumeration} (h : Reachable e) {rs ss : List Request} (hr : Settleable e rs)
    (hp : rs.Perm ss) :
    AllGranted (e.run rs).results ∧ AllGranted (e.run ss).results
      ∧ (e.run rs).enumeration.memberNames.Perm (e.run ss).enumeration.memberNames
      ∧ (e.run rs).enumeration.contents.Perm (e.run ss).enumeration.contents := by
  have hs := sound_reachable h
  obtain ⟨hrs, hss, halike⟩ := run_alike hp hs hs (Alike.refl e) hr
  exact ⟨hrs, hss, halike.names, halike.contents⟩

/-- An enumeration that settles names, with one member in it. -/
def merging : Enumeration :=
  ⟨"Word", .text "", .int (-1), .bool true, .null, [⟨"Foo", .int 7, []⟩],
  [("Foo", ⟨"Foo", .int 7, []⟩)], [.int 7]⟩

theorem declare_word : declare ⟨.text "Word", .text "", .bool true, .int (-1), .null⟩
    = .ok ⟨"Word", .text "", .int (-1), .bool true, .null, [], [], []⟩ := by cbv

theorem reachable_merging : Reachable merging := by
  have hadd : (add ⟨"Word", .text "", .int (-1), .bool true, .null, [], [], []⟩
      ⟨.text "Foo", .int 7, .none⟩).enumeration = merging := by cbv
  exact hadd ▸ (Reachable.declared declare_word).added ⟨.text "Foo", .int 7, .none⟩

/-- Three names that lead into one chain, at different places. -/
def mergingRequests : List Request :=
  [⟨.text "Foo", .int 1, .none⟩, ⟨.text "Foo_", .null, .none⟩, ⟨.text "Foo_007", .text "1", .none⟩]

theorem run_perm_merging : Reachable merging ∧ Settleable merging mergingRequests ∧
    (merging.run mergingRequests).enumeration.memberNames.Perm
      (merging.run mergingRequests.reverse).enumeration.memberNames := by
  have hsettle : Settleable merging mergingRequests := by
    refine ⟨rfl, rfl, ?_, by simp [mergingRequests, Annotations.fault?],
      of_decide_eq_true (by cbv), of_decide_eq_true (by cbv), of_decide_eq_true (by cbv)⟩
    intro r hr
    simp only [mergingRequests, List.mem_cons, List.not_mem_nil, or_false] at hr
    rcases hr with rfl | rfl | rfl
    · exact ⟨"Foo", rfl, by decide, countable_of_lt (by cbv) (by cbv)⟩
    · exact ⟨"Foo_", rfl, by decide, countable_of_lt (by cbv) (by cbv)⟩
    · exact ⟨"Foo_007", rfl, by decide, countable_of_lt (by cbv) (by cbv)⟩
  obtain ⟨-, -, hnames, -⟩ := run_perm reachable_merging hsettle mergingRequests.reverse_perm.symm
  exact ⟨reachable_merging, hsettle, hnames⟩

/--
A value that equals nothing cannot mean that there is none. It is one thing all the same, and the
set of values finds it again: the second member that has no value of its own is refused.
-/
theorem refused_of_unequal_noValue : ∃ e : Enumeration, Reachable e ∧ e.autoResolve.isTrue = true ∧
    e.attemptCap = .null ∧ e.memberNames = ["A"] ∧
    ¬ AllGranted (e.run [⟨.text "B", .null, .none⟩]).results := by
  have hd : declare ⟨.text "E", .text "N", .bool true, .marked .constant (.float .nan), .null⟩
      = .ok ⟨"E", .text "N", .marked .constant (.float .nan), .bool true, .null, [], [], []⟩ :=
        by cbv
  refine ⟨_, (Reachable.declared hd).added ⟨.text "A", .marked .constant (.float .nan), .none⟩,
    by cbv, by cbv, by cbv, fun hall => ?_⟩
  obtain ⟨m, hm⟩ := hall (.error (.valueConflict
    ⟨"B", .marked .constant (.float .nan), false, true⟩)) (List.mem_singleton.mpr (by cbv))
  exact absurd hm (by simp)

end EnumDecl.Enumeration
