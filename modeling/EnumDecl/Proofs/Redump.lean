import EnumDecl.Proofs.Rebuild
import EnumDecl.Proofs.Reread

/-!
# An enumeration that is read back

A text of an enumeration is read as the dump of another one, which holds the same things read back
(`Enumeration.reread`), whatever the format is. It is declared and filled like any other, so the
text makes it if it keeps the invariants of an enumeration. It does, with one exception. A text has
one not-a-number, and two members that have not-a-number as their values, each its own, clash when
they come from a text.
-/

namespace EnumDecl

variable {thing : Mark → Value}

/-! ## Objects that can be written -/

/-- A literal or a constant whose parts can be written. -/
def Argument.IsData (thing : Mark → Value) : Argument → Prop
  | .literal v => Value.IsData thing v
  | .constant name owner => Value.IsData thing name ∧ Value.IsData thing owner
  | .bare _ => False

/-- An annotation all of whose parts can be written. -/
structure Annotation.IsData (thing : Mark → Value) (a : Annotation) : Prop where
  name : Value.IsData thing a.type.name
  container : Value.IsData thing a.type.container
  argument : a.argument.IsData thing

/-- A member with a value and annotations that can be written. -/
structure Member.IsData (thing : Mark → Value) (m : Member) : Prop where
  value : Value.IsData thing m.value
  annotations : ∀ a ∈ m.annotations, a.IsData thing

/-- An enumeration that can be written. -/
structure Enumeration.IsData (thing : Mark → Value) (e : Enumeration) : Prop where
  container : Value.IsData thing e.container
  noValue : Value.IsData thing e.noValue
  autoResolve : Value.IsData thing e.autoResolve
  members : ∀ m ∈ e.members, m.IsData thing

/-- At most one member has not-a-number as its value. -/
def Enumeration.AtMostOneNan (e : Enumeration) : Prop :=
  e.members.Pairwise fun m n => ¬ (m.value.isNan = true ∧ n.value.isNan = true)

/-! ## Objects that are read back -/

/-- An argument after it was written and read. -/
def Argument.reread : Argument → Argument
  | .literal v => .literal v.reread
  | .constant name owner => .constant name.reread owner.reread
  | .bare v => .bare v

/-- An annotation after it was written and read. -/
def Annotation.reread (a : Annotation) : Annotation :=
  ⟨⟨a.type.name.reread, a.type.container.reread⟩, a.argument.reread⟩

/-- A member after it was written and read. -/
def Member.reread (m : Member) : Member :=
  ⟨m.name, m.value.reread, m.annotations.map Annotation.reread⟩

/-- What an enumeration is declared as when its text is read. -/
def Enumeration.redeclared (e : Enumeration) : Enumeration :=
  ⟨e.name, e.container.reread, e.noValue.reread.markedBy .sentinel, e.autoResolve.reread,
    .null, [], [], []⟩

/-- An enumeration after it was written and read. -/
def Enumeration.reread (e : Enumeration) : Enumeration :=
  e.redeclared.fill (e.members.map Member.reread)

theorem Argument.tells_reread {a : Argument} {d : Value} (h : Value.IsData thing d)
    (ht : a.Tells d) : a.reread.Tells d.reread := by
  cases a with
  | literal v => exact ⟨Value.field_reread h ht.1, Value.field_reread h ht.2⟩
  | constant name owner =>
    exact ⟨Value.field_reread h ht.1, Value.field_reread h ht.2.1, Value.field_reread h ht.2.2⟩
  | bare v => exact ht.elim

theorem Annotation.tells_reread {a : Annotation} {d : Value} (h : Value.IsData thing d)
    (ht : a.Tells d) : a.reread.Tells d.reread := by
  obtain ⟨kind, argument, hkind, hargument, htype, harg⟩ := ht
  have hk := Value.isData_of_field h hkind
  refine ⟨kind.reread, argument.reread, Value.field_reread h hkind, Value.field_reread h hargument,
    ?_, ?_⟩
  · exact ⟨Value.field_reread hk htype.1, Value.field_reread hk htype.2⟩
  · exact Argument.tells_reread (Value.isData_of_field h hargument) harg

/-- The items of a list in a dump tell what they told. -/
theorem tells_reread_items {α : Type} {Tells : Value → α → Prop} {reread : α → α} {ds : List Value}
    {as : List α} (h : Value.IsData thing (.list ds)) (ht : List.Forall₂ Tells ds as)
    (hr : ∀ {d a}, Value.IsData thing d → Tells d a → Tells d.reread (reread a)) :
    List.Forall₂ Tells (ds.map Value.reread) (as.map reread) := by
  cases h with
  | list hds =>
    rw [List.forall₂_map_left_iff, List.forall₂_map_right_iff]
    exact forall₂_imp_of_mem ht fun d hd a _ htells => hr (hds d hd) htells

theorem Member.tells_reread {m : Member} {d : Value} (h : Value.IsData thing d) (ht : m.Tells d) :
    m.reread.Tells d.reread := by
  obtain ⟨annotations, hname, hvalue, hlist, hann⟩ := ht
  refine ⟨annotations.map Value.reread, Value.field_reread h hname, Value.field_reread h hvalue,
    ?_, ?_⟩
  · rw [← Value.reread_list]
    exact Value.field_reread h hlist
  · exact tells_reread_items (Value.isData_of_field h hlist) hann Annotation.tells_reread

namespace Enumeration

/-- The fields of an enumeration that is read back. -/
theorem reread_fields (e : Enumeration) : e.reread.members = e.members.map Member.reread
    ∧ e.reread.name = e.name ∧ e.reread.container = e.container.reread
    ∧ e.reread.noValue = e.noValue.reread.markedBy .sentinel
    ∧ e.reread.autoResolve = e.autoResolve.reread ∧ e.reread.attemptCap = .null :=
  fill_unchanged e.redeclared (e.members.map Member.reread)

/-- **The dump that is read back tells the enumeration that is read back.** -/
theorem tells_reread {e : Enumeration} {d : Value} (h : Value.IsData thing d) (ht : e.Tells d) :
    e.reread.Tells d.reread := by
  obtain ⟨hmembers, hname, hcontainer, hnoValue, hpolicy, -⟩ := reread_fields e
  obtain ⟨v, hv, hmarked⟩ := ht.noValue
  obtain ⟨dumps, hdumps, hall⟩ := ht.members
  refine ⟨?_, ?_, ⟨v.reread, Value.field_reread h hv, ?_⟩, ?_, dumps.map Value.reread, ?_, ?_⟩
  · rw [hname]
    exact Value.field_reread h ht.name
  · rw [hcontainer]
    exact Value.field_reread h ht.container
  · rw [hnoValue, ← hmarked, Value.reread_markedBy]
  · rw [hpolicy]
    exact Value.field_reread h ht.autoResolve
  · rw [← Value.reread_list]
    exact Value.field_reread h hdumps
  · rw [hmembers]
    exact tells_reread_items (Value.isData_of_field h hdumps) hall Member.tells_reread

/-! ## The invariants -/

theorem isNoValue_of_reread {e : Enumeration} (hd : e.IsData thing) {v : Value}
    (hv : Value.IsData thing v)
    (h : e.reread.isNoValue v.reread = false) : e.isNoValue v = false := by
  rw [isNoValue, (reread_fields e).2.2.2.1] at h
  rw [← Bool.not_eq_true] at h ⊢
  exact fun he => h (Value.eqv_reread hv hd.noValue he .sentinel)

theorem declared_reread {e : Enumeration} (h : Declared e) : Declared e.reread := by
  obtain ⟨-, hname, -, hnoValue, -, -⟩ := reread_fields e
  refine ⟨?_, ?_, ?_⟩
  · rw [hname]
    exact h.nonempty
  · rw [hname]
    exact h.typeName
  · rw [hnoValue, markedBy_markedBy]

/-- A set cannot be written. -/
theorem isSet_eq_false_of_isData {v : Value} (h : Value.IsData thing v) : v.isSet = false := by
  induction h with
  | marked _ _ _ _ ih => exact ih
  | _ => rfl

/-- What can be written was kept. -/
theorem valuesHashable_of_isData {e : Enumeration} (h : Sound e) (hd : e.IsData thing) :
    ValuesHashable e := fun m hm hv =>
  (h.keepable m hm hv).resolve_right (by simp [isSet_eq_false_of_isData (hd.members m hm).value])

/-- What is read back is kept. -/
theorem valuesHashable_reread {e : Enumeration} (h : Sound e) (hd : e.IsData thing) :
    ValuesHashable e.reread := by
  rw [ValuesHashable, (reread_fields e).1, List.forall_mem_map]
  intro m hm hv
  have hdm := (hd.members m hm).value
  exact (Value.isHashable_reread hdm).trans
    (valuesHashable_of_isData h hd m hm (isNoValue_of_reread hd hdm hv))

/-- **What is read back keeps the invariants** if not-a-number is the value of at most one
member. -/
theorem sound_reread {e : Enumeration} (h : Sound e) (hd : e.IsData thing) (hn : e.AtMostOneNan) :
    Sound e.reread := by
  obtain ⟨hmembers, -, -, hnoValue, -, -⟩ := reread_fields e
  refine ⟨declared_reread h.declared, indexed_fill ⟨rfl, rfl⟩ _, ?_, ?_, ?_, ?_, ?_⟩
  · rw [NamesShaped, hmembers, List.forall_mem_map]
    exact h.names
  · rw [NamesDistinct, hmembers, List.pairwise_map]
    exact h.distinct
  · rw [ValuesDistinct, hmembers, List.pairwise_map]
    refine (h.values.and hn).imp_of_mem ?_
    rintro m n hm hmn ⟨hdistinct, hnan⟩ hvm hvn
    have hdm := (hd.members m hm).value
    have hdn := (hd.members n hmn).value
    have hem := isNoValue_of_reread hd hdm (isKept_iff.mp hvm).1
    have hen := isNoValue_of_reread hd hdn (isKept_iff.mp hvn).1
    have hhm := valuesHashable_of_isData h hd m hm hem
    have hhn := valuesHashable_of_isData h hd n hmn hen
    have hdiffer := hdistinct (isKept_iff.mpr ⟨hem, hhm⟩) (isKept_iff.mpr ⟨hen, hhn⟩)
    rw [← Bool.not_eq_true] at hdiffer ⊢
    exact fun hs => hdiffer (Value.same_of_same_reread hdm hdn hhm hhn hnan hs)
  · exact fun m hm hv => Or.inl (valuesHashable_reread h hd m hm hv)
  · rw [NullsMeant, hmembers, List.forall_mem_map, hnoValue]
    intro m hm hv
    rw [h.nulls m hm (Value.eq_null_of_reread (hd.members m hm).value hv)]
    rfl

end Enumeration

/-! ## Two dumps -/

/-- Two dumps, of which the first can be written and the second is the same up to marks and the
order of keys. -/
def Redumped (thing : Mark → Value) (x y : Except Fault Value) : Prop :=
  ∃ d c, x = .ok d ∧ y = .ok c ∧ Value.Kept thing d c

/-- The dumps of a list of objects, each with one that is related to it. -/
theorem exists_dumps {α : Type} {R : Value → Value → Prop} (dump : α → Except Fault Value)
    (reread : α → α)
    {as : List α} (h : ∀ a ∈ as, ∃ d c, dump a = .ok d ∧ dump (reread a) = .ok c ∧ R d c) :
    ∃ ds cs, as.mapM dump = .ok ds ∧ (as.map reread).mapM dump = .ok cs
    ∧ List.Forall₂ R ds cs := by
  induction as with
  | nil => exact ⟨[], [], rfl, rfl, .nil⟩
  | cons a as ih =>
    obtain ⟨⟨d, c, hd, hc, hr⟩, htail⟩ := List.forall_mem_cons.mp h
    obtain ⟨ds, cs, hds, hcs, hall⟩ := ih htail
    simp only [mapM_eq_ok_iff] at hds hcs
    exact ⟨d :: ds, c :: cs, mapM_eq_ok_iff.mpr (.cons hd hds), mapM_eq_ok_iff.mpr (.cons hc hcs),
      .cons hr hall⟩

theorem redumped_items {α : Type} (dump : α → Except Fault Value) (reread : α → α) {as : List α}
    (h : ∀ a ∈ as, Redumped thing (dump a) (dump (reread a))) :
    ∃ ds cs, as.mapM dump = .ok ds ∧ (as.map reread).mapM dump = .ok cs
      ∧ Value.Kept thing (.list ds) (.list cs) := by
  obtain ⟨ds, cs, hds, hcs, hall⟩ := exists_dumps dump reread h
  exact ⟨ds, cs, hds, hcs, Value.kept_list hall⟩

theorem Argument.redumped {a : Argument} (h : a.IsData thing) :
    Redumped thing a.toValue a.reread.toValue := by
  cases a with
  | literal v =>
    refine ⟨_, _, rfl, rfl, Value.kept_object (by simp) (.cons ⟨rfl, ?_⟩ (.cons ⟨rfl, ?_⟩ .nil))⟩
    · exact Value.kept_reread (.text "lit")
    · exact Value.kept_reread h
  | constant name owner =>
    refine ⟨_, _, rfl, rfl, Value.kept_object (by simp)
      (.cons ⟨rfl, ?_⟩ (.cons ⟨rfl, ?_⟩ (.cons ⟨rfl, ?_⟩ .nil)))⟩
    · exact Value.kept_reread (.text "const")
    · exact Value.kept_reread h.1
    · exact Value.kept_reread h.2
  | bare v => exact h.elim

theorem Annotation.redumped {a : Annotation} (h : a.IsData thing) :
    Redumped thing a.toValue a.reread.toValue := by
  obtain ⟨d, c, hd, hc, hkept⟩ := Argument.redumped h.argument
  refine ⟨_, _, bind_eq_ok_iff.mpr ⟨d, hd, rfl⟩, bind_eq_ok_iff.mpr ⟨c, hc, rfl⟩, ?_⟩
  refine Value.kept_object (by simp) (.cons ⟨rfl, ?_⟩ (.cons ⟨rfl, hkept⟩ .nil))
  refine Value.kept_object (by simp) (.cons ⟨rfl, ?_⟩ (.cons ⟨rfl, ?_⟩ .nil))
  · exact Value.kept_reread h.name
  · exact Value.kept_reread h.container

theorem Member.redumped {m : Member} (h : m.IsData thing) :
    Redumped thing m.toValue m.reread.toValue := by
  obtain ⟨ds, cs, hds, hcs, hkept⟩ :=
    redumped_items Annotation.toValue Annotation.reread fun a ha =>
    Annotation.redumped (h.annotations a ha)
  refine ⟨_, _, bind_eq_ok_iff.mpr ⟨ds, hds, rfl⟩, bind_eq_ok_iff.mpr ⟨cs, hcs, rfl⟩, ?_⟩
  refine Value.kept_object (by simp) (.cons ⟨rfl, ?_⟩ (.cons ⟨rfl, ?_⟩ (.cons ⟨rfl, hkept⟩ .nil)))
  · exact Value.kept_reread (.text m.name)
  · exact Value.kept_reread h.value

/-- **The dump of what is read back is the dump that was written.** -/
theorem Enumeration.redumped {e : Enumeration} (h : e.IsData thing) :
    Redumped thing e.toValue e.reread.toValue := by
  obtain ⟨hmembers, hname, hcontainer, hnoValue, hpolicy, -⟩ := reread_fields e
  obtain ⟨ds, cs, hds, hcs, hkept⟩ := redumped_items Member.toValue Member.reread fun m hm =>
    Member.redumped (h.members m hm)
  rw [← hmembers] at hcs
  refine ⟨_, _, toValue_eq_ok_iff.mpr ⟨ds, hds, rfl⟩, toValue_eq_ok_iff.mpr ⟨cs, hcs, rfl⟩, ?_⟩
  rw [hname, hcontainer, hnoValue, hpolicy]
  refine Value.kept_object (by simp) (.cons ⟨rfl, ?_⟩ (.cons ⟨rfl, ?_⟩ (.cons ⟨rfl, ?_⟩
    (.cons ⟨rfl, ?_⟩ (.cons ⟨rfl, hkept⟩ .nil)))))
  · exact Value.kept_reread (.text e.name)
  · exact Value.kept_reread h.container
  · exact Value.kept_markedBy (Value.kept_reread h.noValue) .sentinel
  · exact Value.kept_reread h.autoResolve

/-! ## More than one not-a-number -/

namespace Enumeration

/-- What is added from dumps are their members with the values that they ask for. -/
theorem values_addDumped {e f : Enumeration} {ds : List Value} {ms : List Member}
    (ht : List.Forall₂ (fun d m => m.Tells d) ds ms) (h : (e.addDumped ds).result = .ok f) :
    f.members.map (·.value)
      = e.members.map (·.value) ++ ms.map fun m => e.effectiveValue m.value := by
  induction ht generalizing e with
  | nil =>
    cases h
    simp
  | @cons d m ds ms hd _ ih =>
    unfold addDumped at h
    rw [Member.ofValue_of_tells hd] at h
    dsimp only at h
    cases hadd : (e.add m.toEntry.request).result with
    | error fault =>
      rw [hadd] at h
      exact absurd h (by simp)
    | ok n =>
      obtain ⟨⟨before, ha⟩, -, hvalue, -⟩ := store_of_ok hadd
      rw [ha, store_result] at h
      have hrest := ih h
      rw [store_enumeration, record_members] at hrest
      simpa [hvalue, Member.toEntry] using hrest

theorem isNoValue_nan (e : Enumeration) :
    e.isNoValue (.marked .constant (.float .nan)) = false := by
  have hlike : Value.isLike (.marked .constant (.float .nan)) e.noValue = false := by
    cases hb : e.noValue.bare <;>
      simp [Value.isLike, Value.eqvAtom, Binary64.eqv, Binary64.eqvInt, hb]
  rw [isNoValue, Value.eqv, hlike]
  simp [Value.isNan]

theorem isKept_nan (e : Enumeration) : e.isKept (.marked .constant (.float .nan)) = true :=
  isKept_iff.mpr ⟨isNoValue_nan e, rfl⟩

/-- **Two members whose values are not-a-number do not come from one text.** -/
theorem refused_of_not_atMostOneNan {e : Enumeration} {d : Value} (h : Declared e)
    (hd : e.IsData thing) (ht : e.reread.Tells d) (hn : ¬ e.AtMostOneNan) :
    ∃ fault, (ofValue d).result = .error fault := by
  cases hresult : (ofValue d).result with
  | error fault => exact ⟨fault, rfl⟩
  | ok f =>
    refine absurd (List.pairwise_iff_forall_sublist.mpr fun {a b} hab ⟨ha, hb⟩ => ?_) hn
    have hdistinct : (f.members.map (·.value)).Pairwise fun v w =>
        f.isKept v = true → f.isKept w = true → v.same w = false :=
      List.pairwise_map.mpr (sound_reachable (loaded_ofValue hresult).reachable).values
    obtain ⟨dumps, hmembers, hof⟩ :=
      exists_addDumped_of_tells (declared_reread h) ht
    rw [hof] at hresult
    have hvalues := values_addDumped hmembers hresult
    rw [(reread_fields e).1, List.map_map] at hvalues
    have hnan : ∀ m ∈ e.members, m.value.isNan = true →
        e.reread.emptied.effectiveValue m.reread.value = .marked .constant (.float .nan) := by
      intro m hm hv
      rw [Member.reread, Value.reread_of_isNan (hd.members m hm).value hv]
      rfl
    have hsub : [.marked .constant (.float .nan), .marked .constant (.float .nan)].Sublist
        (f.members.map (·.value)) := by
      have hpair := hab.map fun m => e.reread.emptied.effectiveValue m.reread.value
      rw [List.map_cons, List.map_cons, List.map_nil, hnan a (hab.subset (by simp)) ha,
        hnan b (hab.subset (by simp)) hb] at hpair
      rw [hvalues]
      exact hpair
    have hsame :=
      List.pairwise_iff_forall_sublist.mp hdistinct hsub (isKept_nan f) (isKept_nan f)
    exact absurd hsame (by simp [Value.same, Value.isOne, Value.mark?, Value.isNan])

/-- A dump of two members whose values are not-a-number. -/
def nans : Value := .object [("name", .text "E"), ("members",
  .list [.object [("name", .text "A"), ("value", .float .nan)],
    .object [("name", .text "B"), ("value", .float .nan)]])]

/-- What is made of it. Each not-a-number is a thing of its own, so the values do not clash. -/
def nansType : Enumeration := ⟨"E", .text "", .int (-1), .bool false, .null,
  [⟨"A", .float .nan, []⟩, ⟨"B", .float .nan, []⟩],
  [("A", ⟨"A", .float .nan, []⟩), ("B", ⟨"B", .float .nan, []⟩)], [.float .nan, .float .nan]⟩

theorem reachable_nansType : Reachable nansType := by
  have hmade : (ofValue nans).result = .ok nansType := by cbv
  exact (loaded_ofValue hmade).reachable

theorem not_atMostOneNan_nansType : ¬ nansType.AtMostOneNan := by
  simp [AtMostOneNan, nansType, Value.isNan]

end Enumeration

end EnumDecl
