import EnumDecl.Proofs.Invariant
import EnumDecl.Proofs.Reread
import EnumDecl.Proofs.Settling

/-!
# Requests are decided by the list

Whether a request clashes is looked up in the two indexes. In an enumeration that anyone can come
by the answer is the one that a look through the list of members gives: a name is taken when some
member has it, and a value when some member was given the same one, which is kept (`add_decided`).

The same value is an equal one, with one exception. Not-a-number equals nothing, but where one and
the same thing is given twice it is found again. A report that shows a value has nothing to show
where the value's text is past the digit limit; then the limit is what is reported.
-/

namespace EnumDecl

theorem Value.same_iff {x y : Value} :
    x.same y = true ↔ x.eqv y = true ∨ (x.isOne y = true ∧ x.isNan = true) := by
  rw [same, eqv]
  cases x.isOne y <;> cases x.isNan <;> simp

namespace Enumeration

open Identifier

/-- A member of the list was given the same value, which is kept: an equal one, or the same
not-a-number. -/
def HasSameValue (e : Enumeration) (v : Value) : Prop :=
  ∃ m ∈ e.members, e.isKept m.value = true ∧
    (m.value.eqv v = true ∨ (m.value.isOne v = true ∧ m.value.isNan = true))

/-- Of any value but not-a-number the same is the equal. -/
theorem hasSameValue_iff (e : Enumeration) {v : Value} (hv : v.isNan = false) :
    e.HasSameValue v ↔ e.HasMemberValued v := by
  constructor
  · rintro ⟨m, hm, hgiven, heqv | ⟨hone, -⟩⟩
    · exact ⟨m, hm, hgiven, heqv⟩
    · have hnan := (Value.isNan_of_isOne (isKept_iff.mp hgiven).2 hone).2
      exact absurd hnan (by simp [hv])
  · rintro ⟨m, hm, hgiven, heqv⟩
    exact ⟨m, hm, hgiven, Or.inl heqv⟩

theorem mem_memberNames_iff (e : Enumeration) (name : String) :
    name ∈ e.memberNames ↔ e.HasMemberNamed name :=
  List.mem_map

theorem hasName_iff_hasMemberNamed {e : Enumeration} (h : Indexed e) (name : String) :
    e.hasName name = true ↔ e.HasMemberNamed name := by
  rw [hasName_iff h, mem_memberNames_iff]

/-- The set of values finds a value when a member was given the same one. -/
theorem any_same_iff {e : Enumeration} (h : Indexed e) (v : Value) :
    (e.values.any fun w => w.same v) = true ↔ e.HasSameValue v := by
  rw [List.any_eq_true]
  constructor
  · rintro ⟨w, hw, hsame⟩
    obtain ⟨m, hm, hgiven, rfl⟩ := (mem_values_iff h w).mp hw
    exact ⟨m, hm, hgiven, Value.same_iff.mp hsame⟩
  · rintro ⟨m, hm, hgiven, hsame⟩
    exact ⟨m.value, (mem_values_iff h m.value).mpr ⟨m, hm, hgiven, rfl⟩, Value.same_iff.mpr hsame⟩

/-- Asking for a value that means there is none, or that can be kept in a set, gets an answer. -/
theorem exists_valueTaken {e : Enumeration} (h : Indexed e) {v : Value}
    (hv : e.isNoValue v = false → v.isHashable = true) :
    ∃ taken, e.valueTaken v = .ok taken
      ∧ (taken = true ↔ e.isNoValue v = false ∧ e.HasSameValue v) := by
  unfold valueTaken
  cases hn : e.isNoValue v with
  | true => exact ⟨false, by simp, by simp⟩
  | false =>
    rw [Value.isSet_of_isHashable (hv hn), Option.isNone_iff_eq_none.mp (hv hn)]
    refine ⟨e.values.any fun w => w.same v, by simp, ?_⟩
    rw [any_same_iff h, and_iff_right rfl]

/-- Nothing stands against a value that can be kept in a set and that no member was given. -/
theorem valueFree_of_not_hasSameValue {e : Enumeration} (h : Indexed e) {v : Value}
    (hv : e.isNoValue v = false → v.isHashable = true ∧ ¬ e.HasSameValue v) : e.ValueFree v := by
  refine fun hn => ⟨(hv hn).1, fun w hw => ?_⟩
  rw [← Bool.not_eq_true]
  exact fun hsame => (hv hn).2 ((any_same_iff h v).mp (List.any_eq_true.mpr ⟨w, hw, hsame⟩))

/-- Where clashes are refused, the report shows the value. -/
theorem place_of_clash {e : Enumeration} {m : Member} {taken : Bool}
    (hstrict : e.autoResolve.isTrue = false) (hv : e.valueTaken m.value = .ok taken)
    (hclash : ¬ (e.hasName m.name = false ∧ taken = false)) :
    e.place m
      = e.refuse (Fault.showing m.value
        (.conflict ⟨m.name, m.value, e.hasName m.name, taken⟩)) := by
  rw [place_of_valueTaken hv, if_neg hclash, if_pos hstrict]

/-- What is decided about a request for a name: a clash describes the state of the list, and the
outcome follows from it. -/
structure Decided (e : Enumeration) (r : Request) (requested : String) (c : Clash) : Prop where
  name : c.name = memberName requested
  value : c.value = e.effectiveValue r.value
  /-- The name is taken when it is in the list. -/
  nameTaken : c.nameTaken = true ↔ e.HasMemberNamed c.name
  /-- The value is taken when it does not mean that there is none and the same is in the list. -/
  valueTaken : c.valueTaken = true ↔ e.isNoValue c.value = false ∧ e.HasSameValue c.value
  /-- For any value but not-a-number that is an equal one. -/
  valueTaken_of_not_nan : c.value.isNan = false →
    (c.valueTaken = true ↔ e.isNoValue c.value = false ∧ e.HasMemberValued c.value)
  /-- What does not clash is stored as it is, whatever the policy. -/
  stored : c.nameTaken = false → c.valueTaken = false →
    e.add r = e.store ⟨c.name, c.value, r.annotations.toList⟩ []
  /-- Any clash is refused where names are not settled. -/
  refused : e.autoResolve.isTrue = false → (c.nameTaken = true ∨ c.valueTaken = true) →
    e.add r = e.refuse (Fault.showing c.value (.conflict c))
  /-- A clash of values is refused, without any rename, where they are. -/
  valueRefused : e.autoResolve.isTrue = true → c.valueTaken = true →
    e.add r = e.refuse (Fault.showing c.value (.valueConflict c))

/--
**What clashes can be told from the list alone.** In an enumeration that anyone can come by, a
request for a name, whose annotations can be had and whose value means that there is none or can be
kept in a set, is decided by the members that have the name or were given the value.
-/
theorem add_decided {e : Enumeration} (h : Reachable e) {r : Request} {requested : String}
    (hr : r.name.bare = .text requested) (hne : requested ≠ "") (ha : r.annotations.fault? = none)
    (hv : e.Gives r → (e.effectiveValue r.value).isHashable = true) :
    ∃ c, Decided e r requested c := by
  have hs := sound_reachable h
  obtain ⟨taken, htaken, hiff⟩ := exists_valueTaken hs.indexed hv
  have hadd : e.add r = _ := (add_text hr hne ha).trans (place_of_valueTaken htaken)
  refine ⟨⟨memberName requested, e.effectiveValue r.value,
    e.hasName (memberName requested), taken⟩,
    rfl, rfl, hasName_iff_hasMemberNamed hs.indexed _, hiff,
    fun hnan => hiff.trans (and_congr_right fun _ => hasSameValue_iff e hnan), ?_, ?_, ?_⟩
  · intro hname hvalue
    have hfree : e.ValueFree (e.effectiveValue r.value) :=
      (valueFree_or_isSet (hvalue ▸ htaken)).resolve_right fun ⟨hg, hset⟩ =>
        absurd hset (by simp [Value.isSet_of_isHashable (hv hg)])
    rw [hadd, if_pos ⟨hname, hvalue⟩]
    exact enlist_of_valueFree (m := ⟨_, e.effectiveValue r.value, r.annotations.toList⟩) hfree []
  · intro hstrict hclash
    have hnot : ¬ (e.hasName (memberName requested) = false ∧ taken = false) := by
      rintro ⟨hn, ht⟩
      rcases hclash with hclash | hclash
      · exact absurd hclash (by simp [hn])
      · exact absurd hclash (by simp [ht])
    exact (add_text hr hne ha).trans (place_of_clash hstrict htaken hnot)
  · intro hauto hvalue
    rw [hadd, if_neg fun hfree => absurd hvalue (by simp [hfree.2]), if_neg (by simp [hauto]),
      if_pos hvalue]

/-- The truth value is equal to the number that was given. -/
theorem add_decided_mixed : ∃ e c, Reachable e ∧ e.memberNames = ["Red", "Red_1", "Both", "_1st"]
    ∧ Decided e ⟨.text "Red", .bool true, .none⟩ "Red" c
    ∧ c.nameTaken = true ∧ c.valueTaken = true := by
  have hreach := reachable_run (Reachable.declared declare_mixed) mixedRequests
  have hred : ∃ ms, (run ⟨"Colors", .text "", .int 0, .bool true, .null, [], [], []⟩
      mixedRequests).enumeration.members = ⟨"Red", .int 1, []⟩ :: ms := ⟨_, by cbv⟩
  obtain ⟨ms, hms⟩ := hred
  obtain ⟨c, hc⟩ := add_decided hreach (r := ⟨.text "Red", .bool true, .none⟩) rfl (by decide)
    rfl (fun _ => by cbv)
  have hmem := hms ▸ List.mem_cons_self (l := ms)
  refine ⟨_, c, hreach, by cbv, hc, hc.nameTaken.mpr ⟨_, hmem, ?_⟩,
    hc.valueTaken.mpr ⟨?_, _, hmem, by cbv, Or.inl ?_⟩⟩
  · rw [hc.name]
    cbv
  · rw [hc.value]
    cbv
  · rw [hc.value]
    cbv

/-- An enumeration without members that refuses clashes. -/
def refusing (noValue : Value) : Enumeration :=
  ⟨"E", .text "N", noValue, .bool false, .null, [], [], []⟩

/--
To compare values is not all. The same not-a-number given twice is refused though it equals
nothing; and where what means that there is none is past the digit limit, a name that is taken is
not reported as such.
-/
theorem refused_of_unequal_value :
    (∃ e : Enumeration, Reachable e ∧ e.autoResolve.isTrue = false ∧ ¬ e.HasMemberNamed "B"
      ∧ ¬ e.HasMemberValued (.marked .constant (.float .nan))
      ∧ (e.add ⟨.text "B", .marked .constant (.float .nan), .none⟩).result
        = .error (.conflict ⟨"B", .marked .constant (.float .nan), false, true⟩))
    ∧ ∃ e : Enumeration, Reachable e ∧ e.autoResolve.isTrue = false ∧ e.HasMemberNamed "A"
      ∧ e.isNoValue (e.effectiveValue .null) = true
      ∧ (e.add ⟨.text "A", .null, .none⟩).result = .error .unwritableNumber := by
  have hdeclare : ∀ i, Reachable (refusing (.int i)) := fun i =>
    .declared (d := ⟨.text "E", .text "N", .bool false, .int i, .null⟩) (by cbv)
  constructor
  · have hreach := (hdeclare (-1)).added ⟨.text "A", .marked .constant (.float .nan), .none⟩
    have hadd : ((refusing (.int (-1))).add
        ⟨.text "A", .marked .constant (.float .nan), .none⟩).enumeration.members
        = [⟨"A", .marked .constant (.float .nan), []⟩] := by cbv
    refine ⟨_, hreach, by cbv, ?_, ?_, by cbv⟩
    · rintro ⟨m, hm, hname⟩
      obtain rfl := List.mem_singleton.mp (hadd ▸ hm)
      exact absurd hname (by decide)
    · rintro ⟨m, hm, -, hvalue⟩
      obtain rfl := List.mem_singleton.mp (hadd ▸ hm)
      have hne :
        (Value.marked .constant (.float .nan)).eqv (.marked .constant (.float .nan)) = false
        := by cbv
      exact absurd hvalue (by simp [hne])
  · -- that the number is past the limit is all that matters
    obtain ⟨i, hi⟩ : ∃ i : Int, (Value.int i).isWritable = false := by
      refine ⟨((10 ^ Decimal.digitLimit : Nat) : Int), ?_⟩
      rw [Value.isWritable, Bool.eq_false_iff, Ne, Decimal.isWritable_iff, Int.natAbs_natCast]
      exact Nat.lt_irrefl _
    have hno : (Value.int i).eqv (.int i) = true := by
      simp [Value.eqv, Value.isOne, Value.isLike, Value.bare, Value.eqvAtom, Value.mark?]
    have hfirst : (refusing (.int i)).add ⟨.text "A", .null, .none⟩
        = (refusing (.int i)).store ⟨memberName "A", .int i, []⟩ [] :=
      (add_text rfl (by decide) rfl).trans
        (place_of_free rfl fun h => absurd (h.symm.trans hno) (by simp))
    have hvalue : ((refusing (.int i)).record ⟨memberName "A", .int i, []⟩).valueTaken (.int i)
        = .ok false := if_pos hno
    refine ⟨_, (hdeclare i).added ⟨.text "A", .null, .none⟩, ?_⟩
    rw [hfirst, store_enumeration]
    refine ⟨rfl, ⟨_, List.mem_singleton.mpr rfl, by cbv⟩, hno, ?_⟩
    rw [add_text rfl (by decide) rfl]
    have hclash := place_of_clash (m := ⟨memberName "A", .int i, []⟩) rfl hvalue
      fun hfree => absurd hfree.1 (by simp [hasName_record])
    exact (congrArg Addition.result hclash).trans (congrArg Except.error (if_neg (by simp [hi])))

end Enumeration

end EnumDecl
