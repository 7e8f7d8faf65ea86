import EnumDecl.Enumeration.History
import EnumDecl.Proofs.Equality
import EnumDecl.Proofs.Suffix
import Mathlib.Data.List.Nodup
import Mathlib.Data.Nat.Find

/-!
# What a request can come to

A request for a member ends in one of three ways (`add_cases`): it fails and leaves the enumeration
as it was; one member is stored that the enumeration admits, with the value and the annotations
asked for; or the value is a set, and the member that holds it is left behind by a request that
fails. Every invariant of an enumeration is read off these cases, and none of their proofs looks at
the steps of adding again.

The other half is when a request is granted. A member that is admitted is stored as it is when it
is asked for (`add_of_admits`). Where names are settled without a bound a taken one does no harm
either (`settle_of_taken`): the names of a chain are all different, so one of the first so many of
them is free.
-/

namespace EnumDecl.Enumeration

open Identifier

/-! ## Outcomes -/

@[simp] theorem store_enumeration (e : Enumeration) (m : Member) (evs : List Event) :
    (e.store m evs).enumeration = e.record m := rfl

@[simp] theorem store_result (e : Enumeration) (m : Member) (evs : List Event) :
    (e.store m evs).result = .ok m := rfl

@[simp] theorem record_members (e : Enumeration) (m : Member) :
    (e.record m).members = e.members ++ [m] := rfl

@[simp] theorem record_isNoValue (e : Enumeration) (m : Member) (v : Value) :
    (e.record m).isNoValue v = e.isNoValue v := rfl

@[simp] theorem record_effectiveValue (e : Enumeration) (m : Member) (v : Value) :
    (e.record m).effectiveValue v = e.effectiveValue v := by
  cases v <;> rfl

@[simp] theorem leave_result (e : Enumeration) (m : Member) (evs : List Event)
    (kind : Value.Kind) :
    (e.leave m evs kind).result = .error (.unhashable kind) := rfl

theorem isKept_iff {e : Enumeration} {v : Value} :
    e.isKept v = true ↔ e.isNoValue v = false ∧ v.isHashable = true := by
  simp [isKept]

theorem hasName_record (e : Enumeration) (m : Member) (name : String) :
    (e.record m).hasName name = (e.hasName name || m.name == name) := by
  simp [hasName, record]

@[simp] theorem record_memberNames (e : Enumeration) (m : Member) :
    (e.record m).memberNames = e.memberNames ++ [m.name] := by
  simp [memberNames]

/-! ## The indexes -/

/-- A name is taken when it is in the list. -/
theorem hasName_iff {e : Enumeration} (h : Indexed e) (name : String) :
    e.hasName name = true ↔ name ∈ e.memberNames := by
  rw [hasName, h.byName, memberNames, List.any_map, List.any_eq_true, List.mem_map]
  constructor
  · rintro ⟨m, hm, hn⟩
    exact ⟨m, hm, by simpa using hn⟩
  · rintro ⟨m, hm, rfl⟩
    exact ⟨m, hm, by simp⟩

theorem hasName_eq_false_iff {e : Enumeration} (h : Indexed e) (name : String) :
    e.hasName name = false ↔ name ∉ e.memberNames := by
  rw [← hasName_iff h, Bool.not_eq_true]

/-- A value is among those that are kept when it is kept of some member. -/
theorem mem_values_iff {e : Enumeration} (h : Indexed e) (v : Value) :
    v ∈ e.values ↔ ∃ m ∈ e.members, e.isKept m.value = true ∧ m.value = v := by
  rw [h.values, keptValues, List.mem_filter, List.mem_map]
  constructor
  · rintro ⟨⟨m, hm, rfl⟩, hv⟩
    exact ⟨m, hm, hv, rfl⟩
  · rintro ⟨m, hm, hv, rfl⟩
    exact ⟨⟨m, hm, rfl⟩, hv⟩

/-! ## Values -/

/-- A value that nothing stands against: the one that means there is none, or one that can be kept
in a set and is not kept yet. -/
def ValueFree (e : Enumeration) (v : Value) : Prop :=
  e.isNoValue v = false → v.isHashable = true ∧ ∀ w ∈ e.values, w.same v = false

/-- A request gives a value of its own, and not the one that means there is none. -/
def Gives (e : Enumeration) (r : Request) : Prop := e.isNoValue (e.effectiveValue r.value) = false

instance (e : Enumeration) (r : Request) : Decidable (e.Gives r) :=
  inferInstanceAs (Decidable (e.isNoValue (e.effectiveValue r.value) = false))

/-- A request gives a set for a value. -/
def GivesSet (e : Enumeration) (r : Request) : Prop :=
  e.Gives r ∧ (e.effectiveValue r.value).isSet = true

instance (e : Enumeration) (r : Request) : Decidable (e.GivesSet r) :=
  inferInstanceAs (Decidable (e.Gives r ∧ (e.effectiveValue r.value).isSet = true))

theorem valueTaken_of_valueFree {e : Enumeration} {v : Value} (h : e.ValueFree v) :
    e.valueTaken v = .ok false := by
  unfold valueTaken
  cases hn : e.isNoValue v with
  | true => rfl
  | false =>
    obtain ⟨hhash, hfree⟩ := h hn
    rw [Value.isSet_of_isHashable hhash, Option.isNone_iff_eq_none.mp hhash]
    simpa using hfree

/-- What is not taken stands against nothing, or is a set. -/
theorem valueFree_or_isSet {e : Enumeration} {v : Value} (h : e.valueTaken v = .ok false) :
    e.ValueFree v ∨ (e.isNoValue v = false ∧ v.isSet = true) := by
  unfold valueTaken at h
  cases hn : e.isNoValue v with
  | true => exact Or.inl fun he => absurd (hn.symm.trans he) (by simp)
  | false =>
    cases hs : v.isSet with
    | true => exact Or.inr ⟨rfl, rfl⟩
    | false =>
      refine Or.inl fun _ => ?_
      rw [hn, hs] at h
      cases hu : v.unhashable? with
      | some kind => exact absurd h (by simp [hu])
      | none => exact ⟨Option.isNone_iff_eq_none.mpr hu, by simpa [hu] using h⟩

/-- What can be kept is stored with its member. -/
theorem enlist_of_valueFree {e : Enumeration} {m : Member} (h : e.ValueFree m.value)
    (before : List Event) : e.enlist m before = e.store m before := by
  unfold enlist
  cases hn : e.isNoValue m.value with
  | true => rfl
  | false =>
    rw [Option.isNone_iff_eq_none.mp (h hn).1]
    rfl

/-- A set is not. -/
theorem enlist_of_isSet {e : Enumeration} {m : Member} (hn : e.isNoValue m.value = false)
    (hs : m.value.isSet = true) (before : List Event) :
    e.enlist m before = e.leave m before .set := by
  rw [enlist, hn, Value.unhashable?_of_isSet hs]
  rfl

/-- A member that an enumeration puts into its list when it is asked for it. -/
structure Listable (e : Enumeration) (m : Member) : Prop where
  /-- The rule for member names leaves its name alone. -/
  shape : IsMember m.name
  /-- The name is not taken. -/
  nameFree : e.hasName m.name = false
  /-- Nothing at all is a value only where it means that there is none. -/
  null : m.value = .null → e.noValue = .null

/-- A member that an enumeration stores when it is asked for it. -/
structure Admits (e : Enumeration) (m : Member) : Prop extends Listable e m where
  /-- Nothing stands against the value either. -/
  valueFree : e.ValueFree m.value

/-- A member that can stand in the list next. -/
structure Enters (e : Enumeration) (m : Member) : Prop extends Listable e m where
  /-- A value that was given is kept, but for a set. -/
  keepable : e.isNoValue m.value = false → m.value.isHashable = true ∨ m.value.isSet = true
  /-- What is kept is not kept yet. -/
  fresh : e.isKept m.value = true → ∀ w ∈ e.values, w.same m.value = false

theorem Admits.enters {e : Enumeration} {m : Member} (h : Admits e m) : Enters e m :=
  ⟨h.toListable, fun hn => Or.inl (h.valueFree hn).1,
    fun hk => (h.valueFree (isKept_iff.mp hk).1).2⟩

theorem Listable.enters_of_isSet {e : Enumeration} {m : Member} (h : Listable e m)
    (hs : m.value.isSet = true) : Enters e m :=
  ⟨h, fun _ => Or.inr hs,
    fun hk => absurd hs (by simp [Value.isSet_of_isHashable (isKept_iff.mp hk).2])⟩

theorem Enters.admits {e : Enumeration} {m : Member} (h : Enters e m)
    (hh : e.isNoValue m.value = false → m.value.isHashable = true) : Admits e m :=
  ⟨h.toListable, fun hn => ⟨hh hn, h.fresh (isKept_iff.mpr ⟨hn, hh hn⟩)⟩⟩

theorem noValue_of_effectiveValue {e : Enumeration} {v : Value} (h : e.effectiveValue v = .null) :
    e.noValue = .null := by
  cases v with
  | null => exact h
  | _ => exact absurd h (by simp [effectiveValue])

/-- A value that is nothing only where nothing means that there is none is taken as it is. -/
theorem effectiveValue_eq_self {e : Enumeration} {v : Value} (h : v = .null → e.noValue = .null) :
    e.effectiveValue v = v := by
  cases v with
  | null => exact h rfl
  | _ => rfl

/-! ## The three cases -/

/-- What a search ends at is free, and is a name if the search began at one. -/
theorem search_final_free {taken : String → Bool} {limit : Nat} {name n : String}
    (hm : IsMember name)
    (h : (search taken limit name).final = .free n) : IsMember n ∧ taken n = false := by
  induction limit generalizing name with
  | zero =>
    unfold search at h
    split at h
    · rename_i ht
      cases h
      exact ⟨hm, by simpa using ht⟩
    · exact absurd h (by simp)
  | succ limit ih =>
    unfold search at h
    split at h
    · rename_i ht
      cases h
      exact ⟨hm, by simpa using ht⟩
    · dsimp only at h
      split at h
      · exact absurd h (by simp)
      · rename_i next hnext
        exact ih (isMember_of_renamed hnext) h

/-- What a request came to: it was refused, granted, or left a member behind. -/
inductive Outcome (e : Enumeration) (r : Request) (added : Addition) : Prop
  | refused (before : List Event) (fault : Fault) (h : added = ⟨e, before, .error fault⟩)
  | granted (m : Member) (before : List Event) (h : added = e.store m before) (admits : Admits e m)
      (value : m.value = e.effectiveValue r.value)
      (annotations : m.annotations = r.annotations.toList)
  | left (m : Member) (before : List Event) (h : added = e.leave m before .set)
      (listable : Listable e m) (set : e.GivesSet r) (value : m.value = e.effectiveValue r.value)
      (annotations : m.annotations = r.annotations.toList)

/-- A member that is put into the list is stored or left behind there. -/
theorem outcome_enlist {e : Enumeration} {r : Request} {m : Member} (hm : Listable e m)
    (hv : e.valueTaken m.value = .ok false) (value : m.value = e.effectiveValue r.value)
    (annotations : m.annotations = r.annotations.toList) (before : List Event) :
    Outcome e r (e.enlist m before) := by
  rcases valueFree_or_isSet hv with hfree | ⟨hn, hs⟩
  · exact .granted m before (enlist_of_valueFree hfree before) ⟨hm, hfree⟩ value annotations
  · have hset : e.GivesSet r := by
      rw [GivesSet, Gives, ← value]
      exact ⟨hn, hs⟩
    exact .left m before (enlist_of_isSet hn hs before) hm hset value annotations

theorem outcome_settle {e : Enumeration} {r : Request} {m : Member} (hm : IsMember m.name)
    (hv : e.valueTaken m.value = .ok false) (value : m.value = e.effectiveValue r.value)
    (annotations : m.annotations = r.annotations.toList) : Outcome e r (e.settle m) := by
  unfold settle
  split
  · exact .refused _ _ rfl
  · dsimp only
    split
    · rename_i name hname
      obtain ⟨hshape, hfree⟩ := search_final_free hm hname
      have hlistable : Listable e { m with name := name } :=
        ⟨hshape, hfree, fun hnull => noValue_of_effectiveValue (value ▸ hnull)⟩
      exact outcome_enlist hlistable hv value annotations _
    · exact .refused _ _ rfl
    · exact .refused _ _ rfl

theorem outcome_place {e : Enumeration} {r : Request} {m : Member} (hm : IsMember m.name)
    (value : m.value = e.effectiveValue r.value)
    (annotations : m.annotations = r.annotations.toList) : Outcome e r (e.place m) := by
  unfold place
  split
  · exact .refused _ _ rfl
  · rename_i taken hv
    dsimp only
    split
    · rename_i hfree
      simp only [Bool.and_eq_true, Bool.not_eq_true'] at hfree
      obtain ⟨hn, rfl⟩ := hfree
      exact outcome_enlist ⟨hm, hn, fun hnull => noValue_of_effectiveValue (value ▸ hnull)⟩
        hv value
        annotations _
    · split
      · exact .refused _ _ rfl
      · split
        · exact .refused _ _ rfl
        · rename_i htaken
          rw [Bool.not_eq_true] at htaken
          exact outcome_settle hm (htaken ▸ hv) value annotations

/-- **A request fails and changes nothing, or puts one member into the list.** The member is one
that is admitted, or it holds a set and the request fails all the same. -/
theorem add_cases (e : Enumeration) (r : Request) : Outcome e r (e.add r) := by
  unfold add
  split
  · dsimp only
    split
    · exact .refused _ _ rfl
    · rename_i hne
      split
      · exact .refused _ _ rfl
      · exact outcome_place
          (isMember_memberName fun he => hne (memberName_eq_empty_iff.mpr he)) rfl rfl
  · exact .refused _ _ rfl

/-- **A request that is granted stores one member that is admitted.** -/
theorem store_of_ok {e : Enumeration} {r : Request} {m : Member} (h : (e.add r).result = .ok m) :
    (∃ before, e.add r = e.store m before) ∧ Admits e m ∧ m.value = e.effectiveValue r.value
      ∧ m.annotations = r.annotations.toList := by
  cases add_cases e r with
  | refused before fault he => exact absurd (he ▸ h) (by simp)
  | granted n before he admits value annotations =>
    obtain rfl : n = m := Except.ok.inj ((congrArg Addition.result he).symm.trans h)
    exact ⟨⟨before, he⟩, admits, value, annotations⟩
  | left n before he _ _ _ _ => exact absurd (he ▸ h) (by simp)

/-- **A request that is granted is for a name, and its annotations can be had.** -/
theorem exists_text_of_ok {e : Enumeration} {r : Request} {m : Member}
    (h : (e.add r).result = .ok m) :
    ∃ text, r.name.bare = .text text ∧ text ≠ "" ∧ r.annotations.fault? = none := by
  unfold add at h
  split at h
  · rename_i text hr
    dsimp only at h
    split at h
    · exact absurd h (by simp [refuse])
    · rename_i hne
      refine ⟨text, hr, fun he => hne (memberName_eq_empty_iff.mpr he), ?_⟩
      split at h
      · exact absurd h (by simp [refuse])
      · assumption
  · exact absurd h (by simp [refuse])

/-! ## When a request is granted -/

/-- A request for a name goes through to placing a member when its annotations can be had. -/
theorem add_text {e : Enumeration} {r : Request} {text : String} (hr : r.name.bare = .text text)
    (hne : text ≠ "") (ha : r.annotations.fault? = none) :
    e.add r = e.place ⟨memberName text, e.effectiveValue r.value, r.annotations.toList⟩ := by
  unfold add
  rw [hr]
  dsimp only
  rw [if_neg fun he => hne (memberName_eq_empty_iff.mp he), ha]

/-- How a member is placed once its value was asked for. -/
theorem place_of_valueTaken {e : Enumeration} {m : Member} {taken : Bool}
    (h : e.valueTaken m.value = .ok taken) :
    e.place m =
      if e.hasName m.name = false ∧ taken = false then e.enlist m []
      else if e.autoResolve.isTrue = false then
        e.refuse (Fault.showing m.value (.conflict ⟨m.name, m.value, e.hasName m.name, taken⟩))
      else if taken = true then
        e.refuse (Fault.showing m.value
          (.valueConflict ⟨m.name, m.value, e.hasName m.name, taken⟩))
      else e.settle m := by
  unfold place
  rw [h]
  dsimp only
  simp only [Bool.and_eq_true, Bool.not_eq_true']

/-- How a member whose value is free is placed: it is stored, refused for its name, or settled. -/
theorem place_of_valueFree {e : Enumeration} {m : Member} (h : e.ValueFree m.value) :
    e.place m =
      if e.hasName m.name = false then e.store m []
      else if e.autoResolve.isTrue = false then
        e.refuse (Fault.showing m.value (.conflict ⟨m.name, m.value, e.hasName m.name, false⟩))
      else e.settle m := by
  rw [place_of_valueTaken (valueTaken_of_valueFree h), enlist_of_valueFree h]
  simp

/-- A free name and a free value are stored as they are. -/
theorem place_of_free {e : Enumeration} {m : Member} (hn : e.hasName m.name = false)
    (hv : e.ValueFree m.value) : e.place m = e.store m [] := by
  rw [place_of_valueFree hv, if_pos hn]

/-- **A member that is admitted is stored as it is.** -/
theorem add_of_admits {e : Enumeration} {m : Member} (h : Admits e m) :
    e.add m.request = e.store m [] := by
  have hname : memberName m.name = m.name := h.shape.memberName_eq
  have htext : m.request.name.bare = .text m.name := rfl
  rw [add_text htext h.shape.nonempty rfl]
  show e.place ⟨memberName m.name, e.effectiveValue m.value, m.annotations⟩ = _
  rw [hname, effectiveValue_eq_self h.null]
  exact place_of_free h.nameFree h.valueFree

/-- The search stops at the first name of the chain that is free. -/
theorem search_of_first_free {taken : String → Bool} {name : String} (hm : IsMember name)
    {k limit : Nat} (hc : Countable name k) (hk : k ≤ limit)
    (htaken : ∀ j, j < k → taken (following^[j] name) = true)
    (hfree : taken (following^[k] name) = false) :
    search taken limit name
      = ⟨(List.range k).map fun j => (following^[j] name, following^[j + 1] name),
      .free (following^[k] name)⟩ := by
  induction k generalizing name limit with
  | zero =>
    unfold search
    rw [Function.iterate_zero_apply] at hfree
    rw [hfree]
    rfl
  | succ k ih =>
    obtain ⟨limit, rfl⟩ : ∃ l, limit = l + 1 := ⟨limit - 1, by omega⟩
    have hrest := ih hm.following (Countable.following hm hc) (Nat.le_of_succ_le_succ hk)
      (fun j hj => htaken (j + 1) (Nat.succ_lt_succ hj)) hfree
    have h0 : taken name = true := htaken 0 (Nat.succ_pos k)
    unfold search
    rw [h0]
    dsimp only
    rw [renamed_eq hm (hc.mono (Nat.succ_le_succ (Nat.zero_le k)))]
    dsimp only
    rw [hrest, List.range_succ_eq_map, List.map_cons, List.map_map]
    rfl

/-- Of a chain one name past the length of a list is not in the list. -/
theorem exists_first_free {name : String} (hm : IsMember name) (names : List String) :
    ∃ k, k ≤ names.length ∧ following^[k] name ∉ names
      ∧ ∀ j, j < k → following^[j] name ∈ names := by
  classical
  have hex : ∃ k, k ≤ names.length ∧ following^[k] name ∉ names := by
    by_contra hall
    -- otherwise the list holds more names than it is long
    have hsub : (List.range (names.length + 1)).map (fun j => following^[j] name) ⊆ names := by
      intro x hx
      obtain ⟨j, hj, rfl⟩ := List.mem_map.mp hx
      by_contra hn
      exact hall ⟨j, Nat.le_of_lt_succ (List.mem_range.mp hj), hn⟩
    have hnd : ((List.range (names.length + 1)).map fun j => following^[j] name).Nodup :=
      List.nodup_range.map fun i j he => iterate_following_inj hm he
    have hlen := List.Nodup.length_le_of_subset hnd hsub
    rw [List.length_map, List.length_range] at hlen
    omega
  refine ⟨Nat.find hex, (Nat.find_spec hex).1, (Nat.find_spec hex).2, fun j hj => ?_⟩
  by_contra hn
  exact Nat.find_min hex hj ⟨Nat.le_trans (Nat.le_of_lt hj) (Nat.find_spec hex).1, hn⟩

/-- Without a cap a member is stored under the first free name of its chain. -/
theorem settle_of_taken {e : Enumeration} {m : Member} (hcap : e.attemptCap = .null)
    (hm : IsMember m.name) (hv : e.ValueFree m.value) {k : Nat} (hk : k ≤ e.members.length)
    (hc : Countable m.name k) (htaken : ∀ j, j < k → e.hasName (following^[j] m.name) = true)
    (hfree : e.hasName (following^[k] m.name) = false) :
    e.settle m = e.store { m with name := following^[k] m.name } ((List.range k).map fun j =>
      Event.renamed e.name (following^[j] m.name) (following^[j + 1] m.name)) := by
  have hlimit : e.renameLimit = .ok e.members.length := by rw [renameLimit, hcap]; rfl
  unfold settle
  rw [hlimit]
  dsimp only
  rw [search_of_first_free hm hc hk htaken hfree, List.map_map]
  exact enlist_of_valueFree (m := { m with name := following^[k] m.name }) hv _

end EnumDecl.Enumeration
