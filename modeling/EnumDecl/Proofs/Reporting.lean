import EnumDecl.Proofs.Capped

/-!
# What the log tells

An enumeration keeps its members in a list, and what happens to it is reported to a log. The two
are written apart from each other: each name that is given up is reported while the search for a
free one goes on, and what is stored is reported at the end. Still they tell the same
(`log_tells_history`).

The reports of one request are those of the names tried for it, each one renamed into the next
(`Tried`). Behind them stands the report of what was stored, or nothing where the request was
refused in the end. A request that is refused without a search leaves nothing in the log. So the
members are the ones that the log has as stored, in its order. Only a set is not reported: its
member is in the list by the time the request fails (`unreported_set`).
-/

namespace EnumDecl

/-- Tells whether a report is about a member that was stored. -/
def Event.isAdded : Event → Bool
  | .added .. => true
  | _ => false

/-- Tells whether a fault is that all names which may be tried are taken. -/
def Fault.isExhausted : Fault → Bool
  | .attemptsExhausted .. => true
  | _ => false

namespace Enumeration

open Identifier

/-- The reports of some names, each of which but the last was given up for the next. -/
def retries (enumeration : String) : List String → List Event
  | old :: new :: rest => .renamed enumeration old new :: retries enumeration (new :: rest)
  | _ => []

/-- From a name on some names are given up, as members have them, and each is renamed into the next
one. The last one is only reached. -/
inductive Tried (e : Enumeration) :
    (name : String) → (given : List String) → (last : String) → Prop
  | reached (name : String) : Tried e name [] name
  | given {name next last : String} {given : List String} (taken : e.HasMemberNamed name)
      (hnext : renamed name = .ok next) (rest : Tried e next given last) :
      Tried e name (name :: given) last

/-- What a request comes to, with the reports that belong to it. -/
inductive Told (e : Enumeration) (r : Request) : Addition → Prop
  | /-- A member is stored under the first of the names that is free, and reported behind them. -/
    granted {requested : String} {given : List String} {m : Member}
    (hr : r.name.bare = .text requested)
    (tried : e.Tried (memberName requested) given m.name) (free : ¬ e.HasMemberNamed m.name)
    (value : m.value = e.effectiveValue r.value)
    (annotations : m.annotations = r.annotations.toList) :
    Told e r ⟨e.record m,
      retries e.name (given ++ [m.name]) ++ [.added e.name m.name m.value], .ok m⟩
  | /-- The member of a set is under that name when it turns out to be one, and is not reported. -/
    left {requested : String} {given : List String} {m : Member} (set : e.GivesSet r)
    (hr : r.name.bare = .text requested) (tried : e.Tried (memberName requested) given m.name)
    (free : ¬ e.HasMemberNamed m.name) :
    Told e r ⟨e.record m, retries e.name (given ++ [m.name]), .error (.unhashable .set)⟩
  | /-- As many names are given up as the cap says, and the next one is taken as well. -/
    capped {requested last : String} {given : List String} (hr : r.name.bare = .text requested)
    (tried : e.Tried (memberName requested) given last) (taken : e.HasMemberNamed last)
    (cap : IsBound e.attemptCap given.length) :
    Told e r ⟨e, retries e.name (given ++ [last]), .error (.attemptsExhausted
      ⟨last, e.effectiveValue r.value, true, false⟩ (memberName requested) e.attemptCap)⟩
  | /-- The last name is taken as well, and no next one can be made of it within the digit
    limit. -/
    ended {requested last : String} {given : List String} {fault : SuffixFault}
    (hr : r.name.bare = .text requested) (tried : e.Tried (memberName requested) given last)
    (taken : e.HasMemberNamed last) (hlast : renamed last = .error fault) :
    Told e r ⟨e, retries e.name (given ++ [last]), .error (.ofSuffix fault)⟩
  | /-- Nothing is tried, and nothing is reported. -/
    silent {fault : Fault} (early : fault.isExhausted = false) : Told e r (e.refuse fault)

/-! ## Names tried -/

/-- Where the last name is taken too, all of them are. -/
theorem Tried.all_taken {e : Enumeration} {name last : String} {given : List String}
    (h : e.Tried name given last) (hm : IsMember name) (hlast : e.HasMemberNamed last) :
    ∀ j ≤ given.length, e.HasMemberNamed (following^[j] name) := by
  induction h with
  | reached =>
    intro j hj
    obtain rfl : j = 0 := Nat.le_zero.mp hj
    exact hlast
  | given taken hnext _ ih =>
    obtain rfl := eq_following_of_renamed hm hnext
    intro j hj
    cases j with
    | zero => exact taken
    | succ j => exact ih hm.following hlast j (Nat.le_of_succ_le_succ hj)

/-- Names that are all taken are fewer than members, as they are all different. -/
theorem Tried.length_lt_size {e : Enumeration} {name last : String} {given : List String}
    (h : e.Tried name given last) (hm : IsMember name) (hlast : e.HasMemberNamed last) :
    given.length < e.size := by
  obtain ⟨k, hk, hfree, -⟩ := exists_first_free hm e.memberNames
  rw [memberNames, List.length_map] at hk
  by_contra hlt
  exact hfree ((mem_memberNames_iff e _).mpr
    (h.all_taken hm hlast k (Nat.le_trans hk (Nat.not_lt.mp hlt))))

/-- A number is counted up for each name given up, so that there are not too many of them to be
shown. -/
theorem Tried.length_lt {e : Enumeration} {name last : String} {given : List String}
    (h : e.Tried name given last) (hm : IsMember name) :
    given.length < 10 ^ Decimal.digitLimit := by
  have hpos : 0 < 10 ^ Decimal.digitLimit := Nat.one_le_pow _ _ (by decide)
  suffices hcount : given = []
    ∨ suffixNumber name.toList + given.length < 10 ^ Decimal.digitLimit by
    rcases hcount with rfl | hcount
    · exact hpos
    · omega
  induction h with
  | reached => exact Or.inl rfl
  | given _ hnext _ ih =>
    have hone := (countable_of_renamed hnext).writable
    obtain rfl := eq_following_of_renamed hm hnext
    refine Or.inr ?_
    rw [List.length_cons]
    rcases ih hm.following with rfl | hrest
    · exact hone
    · rw [suffixNumber_following hm] at hrest
      omega

/-! ## A search -/

theorem not_hasMemberNamed {e : Enumeration} (hi : Indexed e) {name : String}
    (h : e.hasName name = false) : ¬ e.HasMemberNamed name := by
  rw [← hasName_iff_hasMemberNamed hi, h]
  exact Bool.false_ne_true

theorem retries_cons {e : Enumeration} {name next last : String} {given : List String}
    (h : e.Tried next given last) (enumeration : String) :
    retries enumeration (name :: (given ++ [last]))
      = .renamed enumeration name next :: retries enumeration (given ++ [last]) := by
  cases h with
  | reached => rfl
  | given => rfl

/-- How a search ends at the last name it tries. -/
inductive Ended (e : Enumeration) (limit : Nat) (given : List String) (last : String) :
    SearchEnd → Prop
  | free (h : ¬ e.HasMemberNamed last) : Ended e limit given last (.free last)
  | exhausted (h : e.HasMemberNamed last) (length : given.length = limit) :
    Ended e limit given last (.exhausted last)
  | failed (h : e.HasMemberNamed last) {fault : SuffixFault}
      (hlast : renamed last = .error fault) :
    Ended e limit given last (.failed fault)

/-- What a search reports and how it ends. -/
def Searched (e : Enumeration) (limit : Nat) (name : String) : Prop :=
  ∃ given last, e.Tried name given last ∧ e.renames limit name = retries e.name (given ++ [last])
    ∧ Ended e limit given last (search e.hasName limit name).final

/-- A search that ends at once gives up no name. -/
theorem searched_of_no_renames {e : Enumeration} {limit : Nat} {name : String} {final : SearchEnd}
    (h : search e.hasName limit name = ⟨[], final⟩) (hend : Ended e limit [] name final) :
    Searched e limit name := by
  refine ⟨[], name, .reached name, ?_, ?_⟩
  · rw [renames, h]
    rfl
  · rw [h]
    exact hend

theorem searched_of_free {e : Enumeration} (hi : Indexed e) {name : String}
    (hname : e.hasName name = false) (limit : Nat) : Searched e limit name :=
  searched_of_no_renames (search_of_free hname limit) (.free (not_hasMemberNamed hi hname))

/-- A search that goes on from the next name gives up one name more. -/
theorem Searched.of_renamed {e : Enumeration} {limit : Nat} {name next : String}
    (h : Searched e limit next) (hname : e.hasName name = true)
    (htaken : e.HasMemberNamed name) (hnext : renamed name = .ok next) :
    Searched e (limit + 1) name := by
  obtain ⟨given, last, htried, hreports, hend⟩ := h
  refine ⟨name :: given, last, .given htaken hnext htried, ?_, ?_⟩
  · rw [List.cons_append, retries_cons htried, ← hreports, renames, renames,
      search_of_renamed hname hnext]
    rfl
  · rw [search_of_renamed hname hnext]
    dsimp only
    generalize (search e.hasName limit next).final = final at hend ⊢
    cases hend with
    | free h => exact .free h
    | exhausted h length => exact .exhausted h (congrArg Nat.succ length)
    | failed h hlast => exact .failed h hlast

/-- **A search reports the names it tries.** -/
theorem searched {e : Enumeration} (hi : Indexed e) (limit : Nat) (name : String) :
    Searched e limit name := by
  induction limit generalizing name with
  | zero =>
    cases hname : e.hasName name with
    | false => exact searched_of_free hi hname _
    | true =>
      have hsearch : search e.hasName 0 name = ⟨[], .exhausted name⟩ := by
        rw [search, hname]
        rfl
      exact searched_of_no_renames hsearch
        (.exhausted ((hasName_iff_hasMemberNamed hi name).mp hname) rfl)
  | succ limit ih =>
    cases hname : e.hasName name with
    | false => exact searched_of_free hi hname _
    | true =>
      have htaken := (hasName_iff_hasMemberNamed hi name).mp hname
      cases hnext : renamed name with
      | ok next => exact (ih next).of_renamed hname htaken hnext
      | error fault =>
        have hsearch : search e.hasName (limit + 1) name = ⟨[], .failed fault⟩ := by
          rw [search, hname, hnext]
          rfl
        exact searched_of_no_renames hsearch (.failed htaken hnext)

/-! ## One request -/

theorem isExhausted_showing (v : Value) {fault : Fault} (h : fault.isExhausted = false) :
    (Fault.showing v fault).isExhausted = false := by
  unfold Fault.showing
  split
  · exact h
  · rfl

/-- A member under the last name tried is stored, or left there if its value is a set. -/
theorem told_of_enlist {e : Enumeration} {r : Request} {requested last : String}
    {given : List String}
    (hr : r.name.bare = .text requested) (htried : e.Tried (memberName requested) given last)
    (hfree : ¬ e.HasMemberNamed last) (hv : e.valueTaken (e.effectiveValue r.value) = .ok false) :
    Told e r (e.enlist ⟨last, e.effectiveValue r.value, r.annotations.toList⟩
      (retries e.name (given ++ [last]))) := by
  rcases valueFree_or_isSet hv with hvalue | ⟨hn, hs⟩
  · rw [enlist_of_valueFree (m := ⟨last, e.effectiveValue r.value, r.annotations.toList⟩) hvalue]
    exact .granted (m := ⟨last, e.effectiveValue r.value, r.annotations.toList⟩) hr htried
      hfree rfl rfl
  · rw [enlist_of_isSet (m := ⟨last, e.effectiveValue r.value, r.annotations.toList⟩) hn hs]
    exact .left (m := ⟨last, e.effectiveValue r.value, r.annotations.toList⟩) ⟨hn, hs⟩ hr
      htried hfree

/-- A name that is looked for comes to what is told of the search, be there a cap or none. -/
theorem told_of_search {e : Enumeration} (hi : Indexed e)
    (hcap : e.attemptCap.bare = .null ∨ ∃ c, IsBound e.attemptCap c)
    (hauto : e.autoResolve.isTrue = true) {r : Request} {requested : String}
    (hr : r.name.bare = .text requested) (hne : requested ≠ "")
    (hv : e.valueTaken (e.effectiveValue r.value) = .ok false) :
    Told e r (e.place ⟨memberName requested, e.effectiveValue r.value, r.annotations.toList⟩) := by
  have hm := isMember_memberName hne
  obtain ⟨limit, hlimit, hbound⟩ : ∃ limit, e.renameLimit = .ok limit
      ∧ (limit = e.size ∨ IsBound e.attemptCap limit) := by
    rcases hcap with hnull | ⟨c, hc⟩
    · exact ⟨e.size, by rw [renameLimit, hnull]; rfl, Or.inl rfl⟩
    · exact ⟨c, renameLimit_of_isBound hc, Or.inr hc⟩
  obtain ⟨given, last, htried, hreports, hend⟩ := searched hi limit (memberName requested)
  rw [place_of_search hauto hlimit hv]
  dsimp only
  rw [hreports]
  generalize (search e.hasName limit (memberName requested)).final = final at hend ⊢
  cases hend with
  | free hfree => exact told_of_enlist hr htried hfree hv
  | exhausted htaken hlength =>
    rcases hbound with rfl | hbound
    · -- without a cap there are names enough
      exact absurd (htried.length_lt_size hm htaken) (by omega)
    · subst hlength
      have hshown : e.attemptCap.isWritable = true :=
        isWritable_of_isBound hbound (htried.length_lt hm)
      dsimp only
      rw [Fault.showing, if_pos hshown]
      exact .capped hr htried htaken hbound
  | failed htaken hlast => exact .ended hr htried htaken hlast

/-- What is put into the list at once is reported alone, and what is refused at once is not
reported. -/
theorem told_of_no_search {e : Enumeration} (hi : Indexed e) {r : Request} {requested : String}
    (hr : r.name.bare = .text requested) {taken : Bool}
    (hv : e.valueTaken (e.effectiveValue r.value) = .ok taken)
    (hnone : e.autoResolve.isTrue = true → taken = true) :
    Told e r (e.place ⟨memberName requested, e.effectiveValue r.value, r.annotations.toList⟩) := by
  rw [place_of_valueTaken hv]
  dsimp only
  by_cases hfree : e.hasName (memberName requested) = false ∧ taken = false
  · obtain ⟨hn, rfl⟩ := hfree
    rw [if_pos ⟨hn, rfl⟩]
    exact told_of_enlist hr (.reached _) (not_hasMemberNamed hi hn) hv
  · rw [if_neg hfree]
    cases hauto : e.autoResolve.isTrue with
    | false =>
      rw [if_pos rfl]
      exact .silent (isExhausted_showing _ rfl)
    | true =>
      rw [if_neg (by simp), if_pos (hnone hauto)]
      exact .silent (isExhausted_showing _ rfl)

theorem isExhausted_of_fault? {as : Annotations} {fault : Fault} (h : as.fault? = some fault) :
    fault.isExhausted = false := by
  cases as <;> cases h <;> rfl

/-- **What one request reports.** -/
theorem told_of_add {e : Enumeration} (hi : Indexed e)
    (hcap : e.attemptCap.bare = .null ∨ ∃ c, IsBound e.attemptCap c) (r : Request) :
    Told e r (e.add r) := by
  unfold add
  split
  · rename_i requested hr
    dsimp only
    split
    · exact .silent rfl
    · rename_i hne
      split
      · rename_i fault ha
        exact .silent (isExhausted_of_fault? ha)
      · cases hv : e.valueTaken (e.effectiveValue r.value) with
        | error fault =>
          obtain ⟨kind, rfl⟩ := valueTaken_error hv
          unfold place
          rw [hv]
          exact .silent rfl
        | ok taken =>
          by_cases hsearch : e.autoResolve.isTrue = true ∧ taken = false
          · obtain ⟨hauto, rfl⟩ := hsearch
            exact told_of_search hi hcap hauto hr
              (fun he => hne (memberName_eq_empty_iff.mpr he)) hv
          · refine told_of_no_search hi hr hv fun hauto => ?_
            cases taken with
            | false => exact absurd ⟨hauto, rfl⟩ hsearch
            | true => rfl
  · exact .silent rfl

/-! ## A whole run -/

/-- Requests one after another report one after another. -/
theorem run_append (e : Enumeration) (before after : List Request) :
    e.run (before ++ after) = ⟨((e.run before).enumeration.run after).enumeration,
      (e.run before).events ++ ((e.run before).enumeration.run after).events,
      (e.run before).results ++ ((e.run before).enumeration.run after).results⟩ := by
  induction before generalizing e with
  | nil => rfl
  | cons r before ih =>
    rw [List.cons_append, run, ih, run]
    dsimp only
    rw [List.append_assoc]
    rfl

theorem filter_retries (enumeration : String) (names : List String) :
    (retries enumeration names).filter (·.isAdded) = [] := by
  induction names with
  | nil => rfl
  | cons name names ih =>
    cases names with
    | nil => rfl
    | cons next rest => exact ih

/-- What a request reports as stored is what it stores. -/
theorem Told.filter_events {e : Enumeration} {r : Request} {x : Addition} (h : Told e r x) :
    x.events.filter (·.isAdded)
      = x.result.toOption.toList.map fun m => Event.added e.name m.name m.value := by
  cases h with
  | granted =>
    dsimp only
    rw [List.filter_append, filter_retries]
    rfl
  | left => exact filter_retries _ _
  | capped => exact filter_retries _ _
  | ended => exact filter_retries _ _
  | silent => rfl

theorem filter_events_run {e : Enumeration} (hi : Indexed e)
    (hcap : e.attemptCap.bare = .null ∨ ∃ c, IsBound e.attemptCap c) (rs : List Request) :
    (e.run rs).events.filter (·.isAdded)
      = ((e.run rs).results.filterMap Except.toOption).map fun m =>
        Event.added e.name m.name m.value := by
  induction rs generalizing e with
  | nil => rfl
  | cons r rs ih =>
    obtain ⟨hname, -, -, -, hsame⟩ := add_unchanged e r
    have hrest := ih (indexed_add hi r) (by rw [hsame]; exact hcap)
    rw [hname] at hrest
    rw [run]
    dsimp only
    rw [List.filter_append, (told_of_add hi hcap r).filter_events, hrest]
    cases (e.add r).result with
    | ok m => rfl
    | error fault => rfl

/--
**The log tells what happened to the members.** In an enumeration that anyone can come by, with a
whole number for a cap or none, each of some requests reports the names that are tried for it and
what is stored in the end, and adds this to what was reported before. What the log has as stored is
what was granted, in its order. Where no set is given those are the members that have come to the
list.
-/
theorem log_tells_history {e : Enumeration} (h : Reachable e)
    (hcap : e.attemptCap.bare = .null ∨ ∃ c, IsBound e.attemptCap c) :
    (∀ before r after,
      Told (e.run before).enumeration r ((e.run before).enumeration.add r) ∧
      (e.run (before ++ r :: after)).events = (e.run before).events
        ++ ((e.run before).enumeration.add r).events
        ++ (((e.run before).enumeration.add r).enumeration.run after).events) ∧
    ∀ rs, (e.run rs).events.filter (·.isAdded)
        = ((e.run rs).results.filterMap Except.toOption).map
          (fun m => Event.added e.name m.name m.value)
      ∧ ((∀ r ∈ rs, ¬ e.GivesSet r) →
        ∃ appended, (e.run rs).enumeration.members = e.members ++ appended
          ∧ (e.run rs).events.filter (·.isAdded)
            = appended.map fun m => Event.added e.name m.name m.value) := by
  refine ⟨fun before r after => ⟨?_, ?_⟩, fun rs => ?_⟩
  · obtain ⟨-, -, -, -, hsame⟩ := run_unchanged e before
    exact told_of_add (indexed_reachable (reachable_run h before)) (by rw [hsame]; exact hcap) r
  · rw [run_append, run, List.append_assoc]
  · have hevents := filter_events_run (indexed_reachable h) hcap rs
    exact ⟨hevents, fun hset => ⟨_, members_run (sound_reachable h) hset, hevents⟩⟩

/-- The third of three members of one name, of which one may be renamed, is reported as given up
once. -/
theorem log_tells_history_twoReds : ∃ e, declare capped = .ok e ∧ IsBound e.attemptCap 1 ∧
    Told (e.run twoReds).enumeration ⟨.text "Red", .int 3, .none⟩
      ((e.run twoReds).enumeration.add ⟨.text "Red", .int 3, .none⟩) ∧
    (e.run (twoReds ++ [⟨.text "Red", .int 3, .none⟩])).events.map Event.message = [
      "Enum Colors: added member Red = 1",
      "Enum Colors: member Red already defined, retrying as Red_1",
      "Enum Colors: added member Red_1 = 2",
      "Enum Colors: member Red already defined, retrying as Red_1"] ∧
    ∃ appended, (e.run twoReds).enumeration.members = e.members ++ appended ∧
      (e.run twoReds).events.filter (·.isAdded)
        = appended.map fun m => Event.added e.name m.name m.value := by
  have hcap : IsBound (.int 1) 1 := Or.inl rfl
  obtain ⟨hone, hall⟩ := log_tells_history (.declared declare_capped) (Or.inr ⟨1, hcap⟩)
  obtain ⟨htold, hevents⟩ := hone twoReds ⟨.text "Red", .int 3, .none⟩ []
  refine ⟨_, declare_capped, hcap, htold, ?_, (hall twoReds).2 (by decide +kernel)⟩
  rw [hevents]
  decide +kernel

/-- A set under a name that is taken: a rename is reported, the member is in the list, and nothing
is reported as stored. -/
theorem unreported_set : ∃ e, declare mixed = .ok e ∧
    (let first := e.add ⟨.text "A", .int 1, .none⟩
    let second := first.enumeration.add ⟨.text "A", .set [.int 2], .none⟩
    second.result = .error (.unhashable .set) ∧ second.events = [.renamed "Colors" "A" "A_1"] ∧
      second.enumeration.memberNames = ["A", "A_1"] ∧
      second.events.filter (·.isAdded) = []) :=
  ⟨_, declare_mixed, by cbv, by cbv, by cbv, by cbv⟩

end Enumeration

end EnumDecl
