import EnumDecl.Proofs.Invariant

/-!
# What is refused might as well not have been asked

A request fails in many places: before its name is looked at, where its annotations break off, at a
clash, after some renames, or where a suffix has too many digits. Wherever it does, the list, the
names and the values are those from before; and one that is granted adds one member to each of
them, the value only where it is one (`Stored`). Only a request for a set can fail after its member
is in the list.

So a history in which no set is given may be cleared of every request that was refused. What is
left leads to the same enumeration, and each request that is left has the result that it had
(`run_granted`). The same is true of the calls behind the requests as long as no two of them share
an iterator: a call that fails has taken what a later one would have been given
(`failures_are_not_forgotten`).
-/

namespace EnumDecl.Enumeration

open Identifier

/-- What a granted request comes to: the enumeration `f` is `e` with the member `m` in it. -/
structure Stored (e : Enumeration) (r : Request) (m : Member) (f : Enumeration) : Prop where
  /-- The member holds what was asked for. -/
  requested : m.value = e.effectiveValue r.value ∧ m.annotations = r.annotations.toList
  /-- It is put at the end of the list. -/
  members : f.members = e.members ++ [m]
  /-- It is put into the table under its name, which led nowhere before. -/
  byName : f.byName = e.byName ++ [(m.name, m)] ∧ e.member? m.name = none
  /-- Its name leads to it, and any other name where it led before. -/
  found : f.member? m.name = some m ∧ ∀ n, n ≠ m.name → f.member? n = e.member? n
  /-- Its value is one more of those that were given, unless it means that there is none. -/
  values : f.values = e.values ++ if m.value.eqv e.noValue then [] else [m.value]
  /-- No value that was given before is the same. -/
  fresh : m.value.eqv e.noValue = false → ∀ w ∈ e.values, w.same m.value = false
  /-- All else is as it was. -/
  unchanged : f.name = e.name ∧ f.container = e.container ∧ f.noValue = e.noValue
    ∧ f.autoResolve = e.autoResolve ∧ f.attemptCap = e.attemptCap

/-- The requests that are granted when some are made one after another. -/
def granted (e : Enumeration) (rs : List Request) : List Request :=
  ((rs.zip (e.run rs).results).filter fun p => p.2.isOk).map (·.1)

/-! ## One request -/

/-- **A request that fails changes nothing**, unless the member of a set is left behind. -/
theorem add_of_error {e : Enumeration} {r : Request} {fault : Fault}
    (h : (e.add r).result = .error fault) (hset : ¬ (e.GivesSet r ∧ fault = .unhashable .set)) :
    (e.add r).enumeration = e := by
  cases add_cases e r with
  | refused _ _ he => rw [he]
  | granted m _ he _ _ _ =>
    rw [he, store_result] at h
    exact absurd h (by simp)
  | left m _ he _ set _ _ =>
    rw [he, leave_result] at h
    exact absurd ⟨set, (Except.error.inj h).symm⟩ hset

/-- A set is not among the values that are kept, so nothing stands against it but a name. -/
theorem valueTaken_of_isSet {e : Enumeration} (h : Indexed e) {v : Value} (hs : v.isSet = true) :
    e.valueTaken v = .ok false := by
  rw [valueTaken, hs]
  split
  · rfl
  · show Except.ok _ = _
    rw [Except.ok.injEq, List.any_eq_false]
    intro w hw
    obtain ⟨m, -, hk, rfl⟩ := (mem_values_iff h w).mp hw
    rw [Value.isLike_of_isSet (isKept_iff.mp hk).2 hs]
    simp

/-- **A set under a free name is refused too late**: its member is in the list. -/
theorem add_of_givesSet {e : Enumeration} (h : Indexed e) {r : Request} {requested : String}
    (hr : r.name.bare = .text requested) (hne : requested ≠ "") (ha : r.annotations.fault? = none)
    (hs : e.GivesSet r) (hfree : memberName requested ∉ e.memberNames) :
    e.add r
      = e.leave ⟨memberName requested, e.effectiveValue r.value, r.annotations.toList⟩ []
        .set := by
  rw [add_text hr hne ha, place_of_valueTaken (valueTaken_of_isSet h hs.2),
    if_pos ⟨(hasName_eq_false_iff h _).mpr hfree, rfl⟩]
  exact enlist_of_isSet
    (m := ⟨memberName requested, e.effectiveValue r.value, r.annotations.toList⟩)
    hs.1 hs.2 []

theorem find?_record {e : Enumeration} {m : Member} (hfree : e.hasName m.name = false) :
    (e.record m).member? m.name = some m ∧
      ∀ n, n ≠ m.name → (e.record m).member? n = e.member? n := by
  have hnone : (e.byName.find? fun p => p.1 == m.name) = none := by
    rw [List.find?_eq_none]
    intro p hp he
    exact absurd (List.any_eq_true.mpr ⟨p, hp, he⟩) (by rw [← hasName, hfree]; simp)
  constructor
  · simp [member?, record, List.find?_append, hnone]
  · intro n hn
    have hne : (m.name == n) = false := by simpa using fun he => hn he.symm
    simp [member?, record, List.find?_append, hne]

/-- **A granted request stores one member and does nothing else.** -/
theorem stored_of_ok {e : Enumeration} (h : Sound e) {r : Request} {m : Member}
    (hr : (e.add r).result = .ok m) : Stored e r m (e.add r).enumeration := by
  obtain ⟨⟨before, he⟩, hadmits, hvalue, hannotations⟩ := store_of_ok hr
  have hfree := hadmits.nameFree
  have hnamed : ¬ HasMemberNamed e m.name := fun hn =>
    (hasName_eq_false_iff h.indexed m.name).mp hfree (List.mem_map.mpr hn)
  rw [he, store_enumeration]
  refine ⟨⟨hvalue, hannotations⟩, rfl, ⟨rfl, (member?_eq_none_iff h m.name).mpr hnamed⟩,
    find?_record hfree, ?_, fun hv => (hadmits.valueFree hv).2, rfl, rfl, rfl, rfl, rfl⟩
  show (if e.isKept m.value then e.values ++ [m.value] else e.values) = _
  cases hv : m.value.eqv e.noValue with
  | true => simp [isKept, isNoValue, hv]
  | false => simp [isKept, isNoValue, hv, (hadmits.valueFree hv).1]

/-! ## A history -/

/-- Each request has a result. -/
theorem length_results (e : Enumeration) (rs : List Request) :
    (e.run rs).results.length = rs.length := by
  induction rs generalizing e with
  | nil => rfl
  | cons r rs ih => rw [run, List.length_cons, List.length_cons, ih]

theorem granted_cons_of_ok {e : Enumeration} {r : Request} {rs : List Request}
    (h : (e.add r).result.isOk = true) :
    e.granted (r :: rs) = r :: (e.add r).enumeration.granted rs := by
  simp [granted, run, h]

theorem granted_cons_of_error {e : Enumeration} {r : Request} {rs : List Request}
    (h : (e.add r).result.isOk = false) :
    e.granted (r :: rs) = (e.add r).enumeration.granted rs := by
  simp [granted, run, h]

/-- **A history cleared of what was refused** leads to the same enumeration with the same
results. -/
theorem run_granted {e : Enumeration} {rs : List Request} (hset : ∀ r ∈ rs, ¬ e.GivesSet r) :
    (e.run (e.granted rs)).enumeration = (e.run rs).enumeration ∧
      (e.run (e.granted rs)).results = (e.run rs).results.filter (·.isOk) := by
  induction rs generalizing e with
  | nil => exact ⟨rfl, rfl⟩
  | cons r rs ih =>
    obtain ⟨hfirst, hrest⟩ := List.forall_mem_cons.mp hset
    obtain ⟨hsame, hresults⟩ := ih (givesNoSet_add hrest r)
    cases hr : (e.add r).result with
    | ok m =>
      rw [granted_cons_of_ok (by rw [hr]; rfl)]
      refine ⟨hsame, ?_⟩
      rw [run, run, hresults, List.filter_cons_of_pos (by rw [hr]; rfl)]
    | error fault =>
      -- the request is not asked again, and without it the rest begins where it began before
      rw [granted_cons_of_error (by rw [hr]; rfl)]
      have he := add_of_error hr fun h => hfirst h.1
      rw [he] at hsame hresults ⊢
      refine ⟨?_, ?_⟩
      · rw [run, he]
        exact hsame
      · rw [run, List.filter_cons_of_neg (by rw [hr]; simp [Except.isOk, Except.toBool]), he]
        exact hresults

/-- The members that are granted stand behind the others in the order of the requests. -/
theorem members_run {e : Enumeration} (h : Sound e) {rs : List Request}
    (hset : ∀ r ∈ rs, ¬ e.GivesSet r) :
    (e.run rs).enumeration.members
      = e.members ++ (e.run rs).results.filterMap Except.toOption := by
  induction rs generalizing e with
  | nil => exact (List.append_nil _).symm
  | cons r rs ih =>
    obtain ⟨hfirst, hrest⟩ := List.forall_mem_cons.mp hset
    have htail := ih (sound_add h r) (givesNoSet_add hrest r)
    rw [run]
    cases hr : (e.add r).result with
    | error fault =>
      rw [add_of_error hr fun h => hfirst h.1] at htail ⊢
      exact htail
    | ok m =>
      rw [(stored_of_ok h hr).members, List.append_assoc] at htail
      exact htail

/-- What a request with a result puts into the list. -/
inductive Appends : Except Fault Member → List Member → Prop
  | granted (m : Member) : Appends (.ok m) [m]
  | refused (fault : Fault) : Appends (.error fault) []
  | /-- The member of a set is there all the same. -/
    left (m : Member) (h : m.value.isSet = true) : Appends (.error (.unhashable .set)) [m]

/-- **Each request puts at most one member into the list**, and none but a set is put there in
vain. -/
theorem exists_appended (e : Enumeration) (rs : List Request) :
    ∃ appended, (e.run rs).enumeration.members = e.members ++ appended.flatten
      ∧ List.Forall₂ Appends (e.run rs).results appended := by
  induction rs generalizing e with
  | nil => exact ⟨[], (List.append_nil _).symm, .nil⟩
  | cons r rs ih =>
    obtain ⟨appended, hmembers, hsteps⟩ := ih (e.add r).enumeration
    obtain ⟨step, hstep, happends⟩ : ∃ step,
        (e.add r).enumeration.members = e.members ++ step ∧ Appends (e.add r).result step := by
      cases add_cases e r with
      | refused _ fault he =>
        rw [he]
        exact ⟨[], (List.append_nil _).symm, .refused fault⟩
      | granted m _ he _ _ _ =>
        rw [he]
        exact ⟨[m], rfl, .granted m⟩
      | left m _ he _ set value _ =>
        rw [he]
        exact ⟨[m], rfl, .left m (value ▸ set.2)⟩
    refine ⟨step :: appended, ?_, .cons happends hsteps⟩
    rw [run, List.flatten_cons, ← List.append_assoc, ← hstep]
    exact hmembers

/-! ## Calls -/

/-- The calls that are granted when some are made one after another. -/
def grantedCalls (e : Enumeration) (left : Iterators) (cs : List Call) : List Call :=
  ((cs.zip (e.run (requests left cs)).results).filter fun p => p.2.isOk).map (·.1)

/-- The calls that are granted are those whose requests are. -/
theorem requests_grantedCalls {e : Enumeration} {left : Iterators} {cs : List Call}
    (h : Unshared cs) :
    requests left (e.grantedCalls left cs) = e.granted (requests left cs) := by
  have hlength : cs.length ≤ (e.run (requests left cs)).results.length := by
    rw [length_results, requests_of_unshared h, List.length_map]
  have hkept : (e.grantedCalls left cs).Sublist cs := by
    have hall := (List.filter_sublist (p := fun p => p.2.isOk)
      (l := cs.zip (e.run (requests left cs)).results)).map (·.1)
    rwa [List.map_fst_zip hlength] at hall
  have hunshared : Unshared (e.grantedCalls left cs) := List.Pairwise.sublist hkept h
  rw [requests_of_unshared hunshared, grantedCalls, granted]
  rw [requests_of_unshared h, List.map_map, List.zip_map_left, List.filter_map, List.map_map]
  rfl

/--
**What is refused leaves no trace.** A request that fails leaves the enumeration as it was, unless
it is one for a set that fails as such; one that is granted stores one member under a name that was
free. A history in which no set is given and no iterator is shared comes to the same without the
calls that failed.
-/
theorem refused_leaves_no_trace {e : Enumeration} (h : Reachable e) :
    (∀ r fault, (e.add r).result = .error fault → ¬ (e.GivesSet r ∧ fault = .unhashable .set) →
      (e.add r).enumeration = e) ∧
    (∀ r m, (e.add r).result = .ok m → Stored e r m (e.add r).enumeration) ∧
    ∀ left cs, Unshared cs → (∀ r ∈ requests left cs, ¬ e.GivesSet r) →
      (e.run (requests left (e.grantedCalls left cs))).enumeration
        = (e.run (requests left cs)).enumeration
      ∧ (e.run (requests left (e.grantedCalls left cs))).results
        = (e.run (requests left cs)).results.filter (·.isOk) := by
  refine ⟨fun _ _ => add_of_error, fun _ _ => stored_of_ok (sound_reachable h),
    fun left cs hcs hset => ?_⟩
  rw [requests_grantedCalls hcs]
  exact run_granted hset

/-- At most one name is given up for a member. -/
def capped : Declaration := ⟨.text "Colors", .text "", .bool true, .int (-1), .int 1⟩

/-- A mark for members. -/
def faded : Annotation := ⟨⟨.text "Faded", .text ""⟩, .literal .null⟩

/-- Three members of one name, of which the third has no rename left, a value given before, a list,
a name that is no text, annotations that break off, and one that takes them from an iterator. -/
def cappedCalls : List Call := [⟨.text "Red", .int 1, .argument .none⟩,
  ⟨.text "Red", .int 2, .argument (.one faded)⟩, ⟨.text "Red", .int 3, .argument .none⟩,
  ⟨.text "Blue", .bool true, .argument .none⟩, ⟨.text "All", .list [], .argument .none⟩,
  ⟨.int 7, .int 7, .argument .none⟩, ⟨.text "Pink", .int 8, .argument (.broken [faded] "lost")⟩,
  ⟨.text "Green", .null, .iterator 0⟩]

theorem declare_capped :
    declare capped = .ok ⟨"Colors", .text "", .int (-1), .bool true, .int 1, [], [], []⟩ := by cbv

theorem refused_leaves_no_trace_capped : ∃ e, declare capped = .ok e ∧ Reachable e ∧
    (let left : Iterators := fun _ => .many [faded]
    (e.run (requests left cappedCalls)).results.map (·.isOk)
      = [true, true, false, false, false, false, false, true] ∧
    ((e.grantedCalls left cappedCalls).map fun c => (c.name.plain, c.value.plain))
      = [("Red", "1"), ("Red", "2"), ("Green", "None")] ∧
    (e.run (requests left (e.grantedCalls left cappedCalls))).enumeration
      = (e.run (requests left cappedCalls)).enumeration ∧
    (e.run (requests left (e.grantedCalls left cappedCalls))).results
      = (e.run (requests left cappedCalls)).results.filter (·.isOk)) ∧
    Stored e ⟨.text "Red", .int 1, .none⟩ ⟨"Red", .int 1, []⟩
      (e.add ⟨.text "Red", .int 1, .none⟩).enumeration ∧
    (e.add ⟨.int 7, .int 7, .none⟩).enumeration = e := by
  have h := Reachable.declared declare_capped
  obtain ⟨hrefused, hstored, hhistory⟩ := refused_leaves_no_trace h
  obtain ⟨hsame, hresults⟩ := hhistory (fun _ => .many [faded]) cappedCalls
    (by simp [cappedCalls, Unshared]) (by decide +kernel)
  exact ⟨_, declare_capped, h, ⟨by decide +kernel, by decide +kernel, hsame, hresults⟩,
    hstored _ _ (by cbv), hrefused _ (.notText .int) (by cbv) (by simp)⟩

/--
A request for a set fails and leaves its member in the list; without the request the list is
another one. And where two calls are given one iterator, the second one gets the annotations when
the first one, which fails, is taken out of the history.
-/
theorem failures_are_not_forgotten : ∃ e, declare mixed = .ok e ∧ Reachable e ∧
    (∃ fault, (e.add ⟨.text "A", .set [.int 1], .none⟩).result = .error fault ∧
      (e.add ⟨.text "A", .set [.int 1], .none⟩).enumeration.memberNames = ["A"] ∧
      (e.run (e.granted [⟨.text "A", .set [.int 1], .none⟩])).enumeration.memberNames = []) ∧
    (let left : Iterators := fun _ => .many [faded]
    let cs : List Call :=
      [⟨.text "Red", .list [], .iterator 0⟩, ⟨.text "Blue", .null, .iterator 0⟩]
    ((e.run (requests left cs)).enumeration.members.map fun m => (m.name, m.annotations.length))
      = [("Blue", 0)] ∧
    ((e.run (requests left (e.grantedCalls left cs))).enumeration.members.map fun m =>
      (m.name, m.annotations.length)) = [("Blue", 1)]) :=
  ⟨_, declare_mixed, .declared declare_mixed,
    ⟨.unhashable .set, by cbv, by cbv, by cbv⟩, by cbv, by cbv⟩

end EnumDecl.Enumeration
