import Mathlib
import EnumDecl.Proofs.Adding
import EnumDecl.Proofs.Equality

/-!
# What holds of an enumeration at any time

Whatever is asked of an enumeration, granted or not, its members have different names of the right
shape and different values, and the two indexes beside the list say what the list says. The values
are compared in the order in which they were given, each with those before it; equality being
symmetric for what can be kept in a set, the order does not matter in the end.

Two kinds of values need a word. The value that means there is none is exempt from all comparison,
it is the only place where nothing at all can stand as a value, and it is one thing for all members
that hold it. And a value that is a set itself has no place among the others: a request for one
fails, but its member is in the list by then, and the next request for an equal one finds nothing
to clash with (`equal_sets_stay`). Where no set is given all values are kept.
-/

namespace EnumDecl.Enumeration

open Identifier

/-- Every name is one that the rule for member names leaves alone. -/
def NamesShaped (e : Enumeration) : Prop := ∀ m ∈ e.members, IsMember m.name

/-- No two members have one name. -/
def NamesDistinct (e : Enumeration) : Prop := e.members.Pairwise fun m n => m.name ≠ n.name

/-- No two members were given the same value, as far as values are kept. -/
def ValuesDistinct (e : Enumeration) : Prop :=
  e.members.Pairwise fun m n => e.isKept m.value = true → e.isKept n.value = true →
    m.value.same n.value = false

/-- Values that were given are kept, but for sets. -/
def ValuesKeepable (e : Enumeration) : Prop :=
  ∀ m ∈ e.members, e.isNoValue m.value = false → m.value.isHashable = true ∨ m.value.isSet = true

/-- All values that were given are kept. -/
def ValuesHashable (e : Enumeration) : Prop :=
  ∀ m ∈ e.members, e.isNoValue m.value = false → m.value.isHashable = true

/-- Nothing at all is a value only where it means that there is none. -/
def NullsMeant (e : Enumeration) : Prop := ∀ m ∈ e.members, m.value = .null → e.noValue = .null

/-- The type name is one that its rule leaves alone, and the value that means there is none is one
thing. -/
structure Declared (e : Enumeration) : Prop where
  /-- There is a name. -/
  nonempty : e.name ≠ ""
  /-- It is a type name already. -/
  typeName : typeName e.name = e.name
  /-- The value that means there is none needs no other mark. -/
  marked : e.noValue.markedBy .sentinel = e.noValue

/-- The invariants of an enumeration. -/
structure Sound (e : Enumeration) : Prop where
  declared : Declared e
  /-- The indexes say what the list says. -/
  indexed : Indexed e
  names : NamesShaped e
  distinct : NamesDistinct e
  values : ValuesDistinct e
  keepable : ValuesKeepable e
  nulls : NullsMeant e

theorem markedBy_markedBy (m : Mark) (v : Value) : (v.markedBy m).markedBy m = v.markedBy m := by
  unfold Value.markedBy
  by_cases h : (v.mark?.isNone && (v.kind.hasIdentity || v.isNan)) = true
  · rw [if_pos h, if_neg (by simp [Value.mark?])]
  · rw [if_neg h, if_neg h]

/-- A new enumeration is what its declaration says, without members. -/
theorem eq_of_declare {d : Declaration} {e : Enumeration} (h : declare d = .ok e) :
    ∃ name, e = ⟨name, d.container, d.noValue.markedBy .sentinel, d.autoResolve, d.attemptCap,
      [], [], []⟩ := by
  unfold declare at h
  split at h
  · dsimp only at h
    split at h
    · exact absurd h (by simp)
    · exact ⟨_, (Except.ok.inj h).symm⟩
  · exact absurd h (by simp)

theorem sound_declare {d : Declaration} {e : Enumeration} (h : declare d = .ok e) : Sound e := by
  have hi := indexed_declare h
  unfold declare at h
  split at h
  · dsimp only at h
    split at h
    · exact absurd h (by simp)
    · rename_i hne
      cases h
      refine ⟨⟨hne, typeName_typeName _, markedBy_markedBy _ _⟩, hi, ?_, ?_, ?_, ?_, ?_⟩
      · exact fun m hm => absurd hm (by simp)
      · exact List.Pairwise.nil
      · exact List.Pairwise.nil
      · exact fun m hm => absurd hm (by simp)
      · exact fun m hm => absurd hm (by simp)
  · exact absurd h (by simp)

theorem pairwise_snoc {α : Type} {R : α → α → Prop} {xs : List α} {x : α} (h : xs.Pairwise R)
    (hx : ∀ y ∈ xs, R y x) : (xs ++ [x]).Pairwise R := by
  refine List.pairwise_append.mpr ⟨h, List.pairwise_singleton R x, ?_⟩
  intro y hy z hz
  rw [List.mem_singleton.mp hz]
  exact hx y hy

theorem forall_mem_snoc {α : Type} {P : α → Prop} {xs : List α} {x : α} (h : ∀ y ∈ xs, P y)
    (hx : P x) : ∀ y ∈ xs ++ [x], P y := by
  intro y hy
  rcases List.mem_append.mp hy with hy | hy
  · exact h y hy
  · rw [List.mem_singleton.mp hy]
    exact hx

/-- **A member that is put into the list keeps the invariants.** -/
theorem sound_record {e : Enumeration} {m : Member} (h : Sound e) (hm : Enters e m) :
    Sound (e.record m) := by
  refine ⟨⟨h.declared.nonempty, h.declared.typeName, h.declared.marked⟩,
    indexed_record h.indexed m, ?_, ?_, ?_, ?_, ?_⟩
  · exact forall_mem_snoc h.names hm.shape
  · refine pairwise_snoc h.distinct fun n hn he => ?_
    have hfree := (hasName_eq_false_iff h.indexed m.name).mp hm.nameFree
    exact hfree (List.mem_map.mpr ⟨n, hn, he⟩)
  · refine pairwise_snoc h.values fun n hn hkn hkm => ?_
    exact hm.fresh hkm n.value ((mem_values_iff h.indexed n.value).mpr ⟨n, hn, hkn, rfl⟩)
  · exact forall_mem_snoc h.keepable hm.keepable
  · exact forall_mem_snoc h.nulls hm.null

/-- **The invariants are kept by every request, granted or not.** -/
theorem sound_add {e : Enumeration} (h : Sound e) (r : Request) : Sound (e.add r).enumeration := by
  cases add_cases e r with
  | refused _ _ he =>
    rw [he]
    exact h
  | granted m _ he admits _ _ =>
    rw [he]
    exact sound_record h admits.enters
  | left m _ he listable set value _ =>
    rw [he]
    exact sound_record h (listable.enters_of_isSet (value ▸ set.2))

theorem sound_run {e : Enumeration} (h : Sound e) (rs : List Request) :
    Sound (e.run rs).enumeration := by
  induction rs generalizing e with
  | nil => exact h
  | cons r rs ih => exact ih (sound_add h r)

theorem sound_reachable {e : Enumeration} (h : Reachable e) : Sound e := by
  induction h with
  | declared h => exact sound_declare h
  | added _ r ih => exact sound_add ih r

theorem Sound.isIdentifierChars_name {e : Enumeration} (h : Sound e) :
    isIdentifierChars e.name.toList = true := by
  have hne : typeName e.name ≠ "" := by
    rw [h.declared.typeName]
    exact h.declared.nonempty
  have hname := isIdentifierChars_typeName hne
  rw [h.declared.typeName] at hname
  exact hname

theorem Sound.isIdentifierChars_member {e : Enumeration} (h : Sound e) {m : Member}
    (hm : m ∈ e.members) : isIdentifierChars m.name.toList = true :=
  (h.names m hm).isIdentifierChars

/-- What a request gives does not depend on the members. -/
theorem givesSet_add (e : Enumeration) (r s : Request) :
    (e.add r).enumeration.GivesSet s ↔ e.GivesSet s := by
  obtain ⟨-, -, hno, -, -⟩ := add_unchanged e r
  have heffective : (e.add r).enumeration.effectiveValue s.value = e.effectiveValue s.value := by
    cases s.value with
    | null => exact hno
    | _ => rfl
  rw [GivesSet, GivesSet, Gives, Gives, heffective, isNoValue, isNoValue, hno]

/-- Requests of which none gives a set give none after another request either. -/
theorem givesNoSet_add {e : Enumeration} {rs : List Request} (h : ∀ s ∈ rs, ¬ e.GivesSet s)
    (r : Request) : ∀ s ∈ rs, ¬ (e.add r).enumeration.GivesSet s :=
  fun s hs hg => h s hs ((givesSet_add e r s).mp hg)

/-- A request that gives no set puts in no value that is not kept. -/
theorem valuesHashable_add {e : Enumeration} (h : ValuesHashable e) {r : Request}
    (hr : ¬ e.GivesSet r) : ValuesHashable (e.add r).enumeration := by
  cases add_cases e r with
  | refused _ _ he =>
    rw [he]
    exact h
  | granted m _ he admits _ _ =>
    rw [he]
    exact forall_mem_snoc h fun hn => (admits.valueFree hn).1
  | left _ _ _ _ set _ _ => exact absurd set hr

theorem valuesHashable_run {e : Enumeration} (h : ValuesHashable e) {rs : List Request}
    (hr : ∀ r ∈ rs, ¬ e.GivesSet r) : ValuesHashable (e.run rs).enumeration := by
  induction rs generalizing e with
  | nil => exact h
  | cons r rs ih =>
    obtain ⟨hfirst, hrest⟩ := List.forall_mem_cons.mp hr
    exact ih (valuesHashable_add h hfirst) (givesNoSet_add hrest r)

/-- No sequence of requests changes anything but the members. -/
theorem run_unchanged (e : Enumeration) (rs : List Request) :
    (e.run rs).enumeration.name = e.name ∧ (e.run rs).enumeration.container = e.container
      ∧ (e.run rs).enumeration.noValue = e.noValue
      ∧ (e.run rs).enumeration.autoResolve = e.autoResolve
      ∧ (e.run rs).enumeration.attemptCap = e.attemptCap := by
  induction rs generalizing e with
  | nil => exact ⟨rfl, rfl, rfl, rfl, rfl⟩
  | cons r rs ih =>
    obtain ⟨h1, h2, h3, h4, h5⟩ := add_unchanged e r
    obtain ⟨k1, k2, k3, k4, k5⟩ := ih (e.add r).enumeration
    exact ⟨k1.trans h1, k2.trans h2, k3.trans h3, k4.trans h4, k5.trans h5⟩

/-! ## The views -/

theorem memberNames_nodup {e : Enumeration} (h : Sound e) : e.memberNames.Nodup :=
  List.pairwise_map.mpr h.distinct

/-- Members of one name are one member. -/
theorem eq_of_name_eq {e : Enumeration} (h : Sound e) {m n : Member} (hm : m ∈ e.members)
    (hn : n ∈ e.members) (he : m.name = n.name) : m = n :=
  List.inj_on_of_nodup_map (memberNames_nodup h) hm hn he

/-- Looking up a name finds the one member of that name. -/
theorem member?_eq_some_iff {e : Enumeration} (h : Sound e) (name : String) (m : Member) :
    e.member? name = some m ↔ m ∈ e.members ∧ m.name = name := by
  have hfind : e.member? name = e.members.find? fun m => m.name == name := by
    rw [member?, h.indexed.byName, List.find?_map, Option.map_map]
    exact Option.map_id'
  rw [hfind]
  constructor
  · intro hm
    exact ⟨List.mem_of_find?_eq_some hm, by simpa using List.find?_some hm⟩
  · rintro ⟨hm, rfl⟩
    cases hf : e.members.find? fun n => n.name == m.name with
    | none => exact absurd (List.find?_eq_none.mp hf m hm) (by simp)
    | some n =>
      have hn : n.name = m.name := by simpa using List.find?_some hf
      rw [eq_of_name_eq h (List.mem_of_find?_eq_some hf) hm hn]

theorem member?_eq_none_iff {e : Enumeration} (h : Sound e) (name : String) :
    e.member? name = none ↔ ¬ HasMemberNamed e name := by
  rw [Option.eq_none_iff_forall_ne_some]
  constructor
  · rintro hn ⟨m, hm, he⟩
    exact hn m ((member?_eq_some_iff h name m).mpr ⟨hm, he⟩)
  · intro hn m hm
    obtain ⟨hmem, he⟩ := (member?_eq_some_iff h name m).mp hm
    exact hn ⟨m, hmem, he⟩

theorem contains_text_iff {e : Enumeration} (h : Sound e) (name : String) :
    e.contains (.text name) = .ok true ↔ HasMemberNamed e name := by
  have hc : e.contains (.text name) = .ok (e.hasName name) := rfl
  rw [hc, Except.ok.injEq, hasName_iff h.indexed]
  exact List.mem_map

/-- Asking for a name always gets an answer. -/
theorem contains_text_eq_false_iff {e : Enumeration} (h : Sound e) (name : String) :
    e.contains (.text name) = .ok false ↔ ¬ HasMemberNamed e name := by
  have hc : e.contains (.text name) = .ok (e.hasName name) := rfl
  rw [← contains_text_iff h, hc, Except.ok.injEq, Except.ok.injEq, Bool.not_eq_true]

/-- Values that are kept are unequal, whichever is compared with which. -/
theorem values_unequal {e : Enumeration} (h : Sound e) :
    e.members.Pairwise fun m n => e.isKept m.value = true → e.isKept n.value = true →
      m.value.eqv n.value = false ∧ n.value.eqv m.value = false := by
  refine h.values.imp fun {m n} hmn hkm hkn => ?_
  have hs := hmn hkm hkn
  refine ⟨Value.eqv_eq_false_of_same hs, Value.eqv_eq_false_of_same ?_⟩
  rw [Value.same_comm (isKept_iff.mp hkn).2 (isKept_iff.mp hkm).2]
  exact hs

/-- What a set holds is there once. -/
theorem values_distinct {e : Enumeration} (h : Sound e) :
    e.values.Pairwise fun v w => v.same w = false := by
  rw [h.indexed.values, keptValues, List.pairwise_filter, List.pairwise_map]
  exact h.values

/-! ## All of it -/

/-- An enumeration as anyone finds it who looks at it, beside the one it was when it was
declared. -/
structure WellKept (start e : Enumeration) : Prop where
  /-- No name stands twice in the list. -/
  names_nodup : e.memberNames.Nodup
  /-- Each name is an identifier, and the rule for member names leaves it alone. -/
  names : ∀ n ∈ e.memberNames, n ≠ "" ∧ memberName n = n ∧ isIdentifierChars n.toList = true
  /-- Of two members with values of their own, which can be kept in a set, neither equals the
  other's. -/
  values : e.members.Pairwise fun m n =>
    (m.value.eqv e.noValue = false ∧ m.value.isHashable = true) →
    (n.value.eqv e.noValue = false ∧ n.value.isHashable = true) →
      m.value.eqv n.value = false ∧ n.value.eqv m.value = false
  /-- A name leads to the entry of the list that has it. -/
  found : ∀ n m, e.member? n = some m ↔ m ∈ e.members ∧ m.name = n
  /-- A name that no entry has leads nowhere. -/
  missing : ∀ n, e.member? n = none ↔ ¬ ∃ m ∈ e.members, m.name = n
  /-- A name is in the enumeration when some entry has it. -/
  contains : ∀ n, e.contains (.text n) = .ok true ↔ ∃ m ∈ e.members, m.name = n
  /-- It is not when none has it. -/
  lacks : ∀ n, e.contains (.text n) = .ok false ↔ ¬ ∃ m ∈ e.members, m.name = n
  /-- The set of values holds those of the list that do not mean that there is none and can be
  kept. -/
  given : ∀ v, v ∈ e.values ↔
    ∃ m ∈ e.members, (m.value.eqv e.noValue = false ∧ m.value.isHashable = true) ∧ m.value = v
  /-- It holds none of them twice. -/
  given_distinct : e.values.Pairwise fun v w => v.same w = false
  /-- What it does not hold of the list are sets. -/
  left : ∀ m ∈ e.members, m.value.eqv e.noValue = false → m.value.isHashable = false →
    m.value.isSet = true
  /-- All that is not a member is as it was declared. -/
  unchanged : e.name = start.name ∧ e.container = start.container ∧ e.noValue = start.noValue
    ∧ e.autoResolve = start.autoResolve ∧ e.attemptCap = start.attemptCap
  /-- The type name begins with a letter, and the rule for type names leaves it alone. -/
  typeName : e.name ≠ "" ∧ typeName e.name = e.name
    ∧ ∃ c cs, e.name.toList = c :: cs ∧ c.isAlpha = true

/--
**List and indexes agree after every run.** An enumeration is declared in any way that is accepted,
and is asked for any members in any order. Then names and values are different, what is found by a
name or counted as a value is what the list says, and nothing but the members has changed. Of the
values this is said as far as they can be kept in a set; where no request gives a set those are
all.
-/
theorem wellKept_run {d : Declaration} {start : Enumeration} (h : declare d = .ok start)
    (rs : List Request) : WellKept start (start.run rs).enumeration ∧
      ((∀ r ∈ rs, ¬ start.GivesSet r) → ∀ m ∈ (start.run rs).enumeration.members,
        m.value.eqv start.noValue = false → m.value.isHashable = true) := by
  have hs : Sound (start.run rs).enumeration := sound_run (sound_declare h) rs
  have hsame := run_unchanged start rs
  constructor
  · refine ⟨memberNames_nodup hs, fun n hn => ?_, ?_, member?_eq_some_iff hs,
      member?_eq_none_iff hs, contains_text_iff hs, contains_text_eq_false_iff hs, fun v => ?_,
      values_distinct hs, fun m hm hn hh => ?_, hsame, hs.declared.nonempty,
      hs.declared.typeName, ?_⟩
    · obtain ⟨m, hm, rfl⟩ := List.mem_map.mp hn
      have hshape := hs.names m hm
      exact ⟨hshape.nonempty, hshape.memberName_eq, hshape.isIdentifierChars⟩
    · exact (values_unequal hs).imp fun hmn hm hn => hmn (isKept_iff.mpr hm) (isKept_iff.mpr hn)
    · rw [mem_values_iff hs.indexed]
      simp only [isKept_iff, isNoValue]
    · exact (hs.keepable m hm hn).resolve_left (by simp [hh])
    · rw [← hs.declared.typeName]
      exact typeName_head (by rw [hs.declared.typeName]; exact hs.declared.nonempty)
  · obtain ⟨name, hfields⟩ := eq_of_declare h
    intro hr m hm hn
    have hnone : ValuesHashable start := fun m hm => absurd hm (by simp [hfields])
    exact valuesHashable_run hnone hr m hm (by rw [isNoValue, hsame.2.2.1]; exact hn)

/-- A declaration whose type name has to be changed. -/
def mixed : Declaration := ⟨.text "2 Colors", .text "", .bool true, .int 0, .null⟩

/-- A name that is taken, a truth value equal to a number, a list, which is no value of a member,
and a set, whose member stays in the list. -/
def mixedRequests : List Request := [⟨.text "Red", .int 1, .none⟩, ⟨.text "Red", .null, .none⟩,
  ⟨.text "On", .bool true, .none⟩, ⟨.text "All", .list [], .none⟩,
  ⟨.text "Both", .set [.int 1], .none⟩, ⟨.text "1st", .bool false, .none⟩]

theorem declare_mixed :
    declare mixed = .ok ⟨"Colors", .text "", .int 0, .bool true, .null, [], [], []⟩ := by cbv

theorem wellKept_run_mixed : ∃ start, declare mixed = .ok start ∧
    WellKept start (start.run mixedRequests).enumeration ∧
    (start.run mixedRequests).enumeration.memberNames = ["Red", "Red_1", "Both", "_1st"] :=
  ⟨_, declare_mixed, (wellKept_run declare_mixed mixedRequests).1, by cbv⟩

/-- Members that are given the same set. -/
def twoSets : List Request :=
  [⟨.text "A", .set [.int 1], .none⟩, ⟨.text "B", .set [.int 1], .none⟩]

/-- Equal sets are no clash, as none of them is kept: both stay in the list, and the set of values
is empty. -/
theorem equal_sets_stay : ∃ start, declare mixed = .ok start ∧
    (let e := (start.run twoSets).enumeration
    e.memberNames = ["A", "B"] ∧ e.values = [] ∧
      ¬ (e.members.Pairwise fun m n => m.value.eqv e.noValue = false →
        n.value.eqv e.noValue = false → m.value.eqv n.value = false) ∧
      ¬ ∀ v, v ∈ e.values ↔ ∃ m ∈ e.members, m.value.eqv e.noValue = false ∧ m.value = v) := by
  refine ⟨_, declare_mixed, ?_⟩
  have hrun :
      (run ⟨"Colors", .text "", .int 0, .bool true, .null, [], [], []⟩ twoSets).enumeration
      = ⟨"Colors", .text "", .int 0, .bool true, .null,
        [⟨"A", .set [.int 1], []⟩, ⟨"B", .set [.int 1], []⟩],
        [("A", ⟨"A", .set [.int 1], []⟩), ("B", ⟨"B", .set [.int 1], []⟩)], []⟩ := by cbv
  have hgiven : (Value.set [.int 1]).eqv (.int 0) = false := by cbv
  have hequal : (Value.set [.int 1]).eqv (.set [.int 1]) = true := by cbv
  rw [hrun]
  refine ⟨rfl, rfl, fun h => ?_, fun h => ?_⟩
  · simp [hgiven, hequal] at h
  · exact absurd ((h (.set [.int 1])).mpr ⟨_, List.mem_cons_self, hgiven, rfl⟩) (by simp)

end EnumDecl.Enumeration
