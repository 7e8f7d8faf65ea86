import EnumDecl.Proofs.Codec
import EnumDecl.Proofs.Invariant
import EnumDecl.Source.Render
import Mathlib.Data.List.Induction

/-!
# An enumeration and the one its dump makes

A dump is not copied into an enumeration. The enumeration is declared anew and asked for its
members one after another, and each of them might be renamed, refused or given another value on the
way. None of that happens to the dump of an enumeration whose values are kept. By the invariants
each member can stand in the list next when those before it are there (`fits_emptied`), and is
stored as it is. Whether clashes are settled does not come into it, there being none.

Only the bound on renames is not in a dump, and is gone afterwards.
-/

namespace EnumDecl.Enumeration

/-! ## Storing members one after another -/

/-- The enumeration with more members stored. -/
def fill (e : Enumeration) (ms : List Member) : Enumeration := ms.foldl record e

/-- Members of which each can stand in the list next when those before it are there. -/
def Fits (e : Enumeration) : List Member → Prop
  | [] => True
  | m :: ms => Enters e m ∧ Fits (e.record m) ms

theorem fits_snoc {e : Enumeration} {ms : List Member} {m : Member} (h : Fits e ms)
    (hm : Enters (e.fill ms) m) : Fits e (ms ++ [m]) := by
  induction ms generalizing e with
  | nil => exact ⟨hm, trivial⟩
  | cons n ms ih => exact ⟨h.1, ih h.2 hm⟩

theorem indexed_fill {e : Enumeration} (h : Indexed e) (ms : List Member) :
    Indexed (e.fill ms) := by
  induction ms generalizing e with
  | nil => exact h
  | cons m ms ih => exact ih (indexed_record h m)

/-- The fields of an enumeration after more members are stored. -/
theorem fill_unchanged (e : Enumeration) (ms : List Member) :
    (e.fill ms).members = e.members ++ ms ∧ (e.fill ms).name = e.name
      ∧ (e.fill ms).container = e.container ∧ (e.fill ms).noValue = e.noValue
      ∧ (e.fill ms).autoResolve = e.autoResolve ∧ (e.fill ms).attemptCap = e.attemptCap := by
  induction ms generalizing e with
  | nil => exact ⟨(List.append_nil _).symm, rfl, rfl, rfl, rfl, rfl⟩
  | cons m ms ih =>
    obtain ⟨h1, h2, h3, h4, h5, h6⟩ := ih (e.record m)
    exact ⟨h1.trans (List.append_assoc _ _ _), h2, h3, h4, h5, h6⟩

/-- **Dumps of members that fit are stored as they are, and nothing else is reported**, if all
values are kept. -/
theorem addDumped_of_fits {ds : List Value} {ms : List Member}
    (ht : List.Forall₂ (fun d m => m.Tells d) ds ms) : ∀ {e : Enumeration}, Fits e ms →
      (∀ m ∈ ms, e.isNoValue m.value = false → m.value.isHashable = true) →
      e.addDumped ds = ⟨ms.map fun m => .added e.name m.name m.value, .ok (e.fill ms)⟩ := by
  induction ht with
  | nil =>
    intro e _ _
    rfl
  | @cons d m ds ms hd _ ih =>
    intro e hf hh
    obtain ⟨hfirst, hrest⟩ := List.forall_mem_cons.mp hh
    unfold addDumped
    rw [Member.ofValue_of_tells hd]
    dsimp only
    rw [show e.add m.toEntry.request = _ from add_of_admits (hf.1.admits hfirst), store_result]
    dsimp only
    rw [store_enumeration, ih hf.2 hrest]
    rfl

/-! ## The enumeration without its members -/

/-- The enumeration as it was declared, without a bound on renames. -/
def emptied (e : Enumeration) : Enumeration :=
  ⟨e.name, e.container, e.noValue, e.autoResolve, .null, [], [], []⟩

/-- The enumeration without a bound on renames. -/
def uncapped (e : Enumeration) : Enumeration := { e with attemptCap := .null }

theorem indexed_emptied (e : Enumeration) : Indexed e.emptied := ⟨rfl, rfl⟩

theorem declare_emptied {e : Enumeration} (h : Declared e) {v : Value}
    (hv : v.markedBy .sentinel = e.noValue) :
    declare ⟨.text e.name, e.container, e.autoResolve, v, .null⟩ = .ok e.emptied := by
  unfold declare
  dsimp only [Value.bare]
  rw [h.typeName, if_neg h.nonempty, hv]
  rfl

/-- Storing its members again makes the enumeration. -/
theorem fill_emptied {e : Enumeration} (h : Indexed e) :
    e.emptied.fill e.members = e.uncapped := by
  have hi := indexed_fill (indexed_emptied e) e.members
  obtain ⟨h1, h2, h3, h4, h5, h6⟩ := fill_unchanged e.emptied e.members
  have hbyName : (e.emptied.fill e.members).byName = e.byName := by
    rw [hi.byName, h1, h.byName]
    rfl
  have hvalues : (e.emptied.fill e.members).values = e.values := by
    rw [hi.values, h.values]
    unfold keptValues isKept isNoValue
    rw [h1, h4]
    rfl
  calc e.emptied.fill e.members
      = ⟨(e.emptied.fill e.members).name, (e.emptied.fill e.members).container,
          (e.emptied.fill e.members).noValue, (e.emptied.fill e.members).autoResolve,
          (e.emptied.fill e.members).attemptCap, (e.emptied.fill e.members).members,
          (e.emptied.fill e.members).byName, (e.emptied.fill e.members).values⟩ := rfl
    _ = e.uncapped := by
      rw [h1, h2, h3, h4, h5, h6, hbyName, hvalues]
      rfl

/-- **Each member of an enumeration can stand in the list next when those before it are there.** -/
theorem fits_emptied {e : Enumeration} (h : Sound e) : Fits e.emptied e.members := by
  -- by induction at the end, for a member is compared with all that stand before it
  have hprefix : ∀ ms, ms <+: e.members → Fits e.emptied ms := by
    intro ms
    induction ms using List.reverseRecOn with
    | nil => exact fun _ => trivial
    | append_singleton ms m ih =>
      rintro ⟨rest, hrest⟩
      have hmem : m ∈ e.members := by rw [← hrest]; simp
      have hbefore : ∀ n ∈ ms, n.name ≠ m.name ∧ (e.isKept n.value = true →
          e.isKept m.value = true → n.value.same m.value = false) := by
        intro n hn
        have hd := h.distinct
        have hv := h.values
        rw [NamesDistinct, ← hrest, List.append_assoc] at hd
        rw [ValuesDistinct, ← hrest, List.append_assoc] at hv
        exact ⟨(List.pairwise_append.mp hd).2.2 n hn m (by simp),
          (List.pairwise_append.mp hv).2.2 n hn m (by simp)⟩
      obtain ⟨hmembers, -, -, hno, -, -⟩ := fill_unchanged e.emptied ms
      have hi := indexed_fill (indexed_emptied e) ms
      have hnoValue : ∀ v, (e.emptied.fill ms).isNoValue v = e.isNoValue v := by
        intro v
        rw [isNoValue, hno]
        rfl
      have hkept : ∀ v, (e.emptied.fill ms).isKept v = e.isKept v := by
        intro v
        rw [isKept, hnoValue, isKept]
      refine fits_snoc (ih ⟨m :: rest, by rw [← hrest, List.append_assoc]; rfl⟩)
        ⟨⟨h.names m hmem, ?_, ?_⟩, fun hv => ?_, fun hv w hw => ?_⟩
      · rw [hasName_eq_false_iff hi, memberNames, hmembers]
        intro hn
        obtain ⟨n, hn, he⟩ := List.mem_map.mp hn
        exact (hbefore n hn).1 he
      · rw [hno]
        exact h.nulls m hmem
      · rw [hnoValue] at hv
        exact h.keepable m hmem hv
      · obtain ⟨n, hn, hnk, rfl⟩ := (mem_values_iff hi w).mp hw
        rw [hmembers] at hn
        rw [hkept] at hnk hv
        exact (hbefore n hn).2 hnk hv
  exact hprefix e.members (List.prefix_refl _)

/-! ## Dumps -/

/-- The fields of an enumeration. -/
structure Tells (e : Enumeration) (d : Value) : Prop where
  name : d.field "name" = .ok (.text e.name)
  container : d.field "namespace" = .ok e.container
  /-- What means that there is none becomes one thing when the enumeration is declared. -/
  noValue : ∃ v, d.field "no_value" = .ok v ∧ v.markedBy .sentinel = e.noValue
  autoResolve : d.field "auto_resolve_conflicts" = .ok e.autoResolve
  members : ∃ dumps, d.field "members" = .ok (.list dumps)
    ∧ List.Forall₂ (fun d m => m.Tells d) dumps e.members

/-- What is reported when the dump of an enumeration is loaded: each of its members, stored as it
is. -/
def storing (e : Enumeration) : List Event := e.members.map fun m => .added e.name m.name m.value

/-- Nothing is reported of a declaration that is told, and the members are added one after
another. -/
theorem exists_addDumped_of_tells {e : Enumeration} {d : Value} (h : Declared e) (ht : Tells e d) :
    ∃ dumps, List.Forall₂ (fun d m => m.Tells d) dumps e.members
      ∧ ofValue d = e.emptied.addDumped dumps := by
  obtain ⟨v, hfield, hv⟩ := ht.noValue
  obtain ⟨dumps, hdumps, hmembers⟩ := ht.members
  have hdeclaration : declarationOf d
      = .ok ⟨.text e.name, e.container, e.autoResolve, v, .null⟩ := by
    unfold declarationOf
    rw [ht.name, Value.fieldOr_of_field ht.container, Value.fieldOr_of_field ht.autoResolve,
      Value.fieldOr_of_field hfield]
    rfl
  have hopening : opening d
      = .ok (⟨.text e.name, e.container, e.autoResolve, v, .null⟩, e.emptied) :=
    bind_eq_ok_iff.mpr ⟨_, hdeclaration, bind_eq_ok_iff.mpr ⟨_, declare_emptied h hv, rfl⟩⟩
  have hevents : declarationEvents ⟨.text e.name, e.container, e.autoResolve, v, .null⟩ e.emptied
      = [] :=
    if_pos rfl
  have hitems : d.fieldOr "members" (.list []) >>= Value.items = .ok dumps :=
    bind_eq_ok_iff.mpr ⟨_, Value.fieldOr_of_field hdumps _, rfl⟩
  refine ⟨dumps, hmembers, ?_⟩
  unfold ofValue
  rw [hopening]
  dsimp only
  rw [hevents, hitems]
  rfl

/-- **A dump that tells an enumeration makes it again**, if all values are kept. -/
theorem ofValue_of_tells {e : Enumeration} {d : Value} (h : Sound e) (hh : ValuesHashable e)
    (ht : Tells e d) :
    ofValue d = ⟨e.storing, .ok e.uncapped⟩ := by
  obtain ⟨dumps, hmembers, hof⟩ := exists_addDumped_of_tells h.declared ht
  rw [hof, addDumped_of_fits hmembers (fits_emptied h) hh, fill_emptied h.indexed]
  rfl

/-- The dump of an enumeration in its fields. -/
theorem toValue_eq_ok_iff {e : Enumeration} {d : Value} : e.toValue = .ok d ↔
    ∃ dumps, e.members.mapM Member.toValue = .ok dumps ∧ d = .object [("name", .text e.name),
      ("namespace", e.container), ("no_value", e.noValue),
      ("auto_resolve_conflicts", e.autoResolve),
      ("members", .list dumps)] := by
  constructor
  · intro h
    obtain ⟨dumps, hdumps, h⟩ := bind_eq_ok_iff.mp h
    cases h
    exact ⟨dumps, hdumps, rfl⟩
  · rintro ⟨dumps, hdumps, rfl⟩
    exact bind_eq_ok_iff.mpr ⟨dumps, hdumps, rfl⟩

/-- **The dump of an enumeration tells it.** -/
theorem tells_toValue {e : Enumeration} {d : Value} (hd : Declared e) (h : e.toValue = .ok d) :
    Tells e d := by
  obtain ⟨dumps, hdumps, rfl⟩ := toValue_eq_ok_iff.mp h
  exact ⟨Value.field_object (by simp [List.lookup]), Value.field_object (by simp [List.lookup]),
    ⟨_, Value.field_object (by simp [List.lookup]), hd.marked⟩,
    Value.field_object (by simp [List.lookup]),
    dumps, Value.field_object (by simp [List.lookup]),
    ((mapM_eq_ok_iff.mp hdumps).imp fun _ _ => Member.tells_toValue).flip⟩

/-- An enumeration whose arguments are proper has a dump. -/
theorem toValue_ok {e : Enumeration} (h : HasProperArguments e) : ∃ d, e.toValue = .ok d := by
  obtain ⟨dumps, hdumps⟩ := mapM_ok fun m hm => Member.toValue_ok (h m hm)
  exact ⟨_, toValue_eq_ok_iff.mpr ⟨dumps, hdumps, rfl⟩⟩

/-- No invariant depends on whether clashes are settled. -/
theorem sound_withPolicy {e : Enumeration} (h : Sound e) (policy : Value) :
    Sound { e with autoResolve := policy } :=
  ⟨⟨h.declared.nonempty, h.declared.typeName, h.declared.marked⟩,
    ⟨h.indexed.byName, h.indexed.values⟩, h.names, h.distinct, h.values, h.keepable, h.nulls⟩

/-- The dump with another policy tells the enumeration with that policy. -/
theorem tells_withField {e : Enumeration} {d : Value} (hs : Sound e) (h : e.toValue = .ok d)
    (policy : Value) :
    Tells { e with autoResolve := policy } (d.withField "auto_resolve_conflicts" policy) := by
  obtain ⟨dumps, hdumps, rfl⟩ := toValue_eq_ok_iff.mp h
  have hd : (Value.object [("name", .text e.name), ("namespace", e.container),
      ("no_value", e.noValue), ("auto_resolve_conflicts", e.autoResolve),
      ("members", .list dumps)]).withField "auto_resolve_conflicts" policy
      = .object [("name", .text e.name), ("namespace", e.container), ("no_value", e.noValue),
        ("auto_resolve_conflicts", policy), ("members", .list dumps)] := by
    simp [Value.withField, Value.object, Value.bare, Value.insert]
  rw [hd]
  exact tells_toValue (sound_withPolicy hs policy).declared
    (toValue_eq_ok_iff.mpr ⟨dumps, hdumps, rfl⟩)

/-! ## What a dump makes -/

/-- What a dump makes, and what is known of it. -/
structure Loaded (e : Enumeration) : Prop where
  reachable : Reachable e
  proper : HasProperArguments e
  /-- A dump with a set for a value is refused, so nothing is left behind. -/
  hashable : ValuesHashable e

theorem loaded_add {e : Enumeration} (h : Loaded e) {r : Entry} {m : Member}
    (hr : ∀ a ∈ r.annotations, a.argument.isProper = true)
    (hok : (e.add r.request).result = .ok m) :
    Loaded (e.add r.request).enumeration := by
  obtain ⟨⟨before, he⟩, admits, -, hm⟩ := store_of_ok hok
  refine ⟨h.reachable.added r.request, ?_, ?_⟩ <;> rw [he]
  · exact forall_mem_snoc h.proper (by rw [hm]; exact hr)
  · exact forall_mem_snoc h.hashable fun hn => (admits.valueFree hn).1

theorem loaded_addDumped {e f : Enumeration} {ds : List Value}
    (h : (e.addDumped ds).result = .ok f) (he : Loaded e) : Loaded f := by
  induction ds generalizing e with
  | nil =>
    cases h
    exact he
  | cons d ds ih =>
    unfold addDumped at h
    split at h
    · exact absurd h (by simp)
    · rename_i r hentry
      dsimp only at h
      split at h
      · exact absurd h (by simp)
      · rename_i m hok
        exact ih h (loaded_add he (Entry.isProper_ofValue hentry) hok)

/-- **Loading is one of the ways to make an enumeration, and gives proper arguments only.** -/
theorem loaded_ofValue {d : Value} {e : Enumeration} (h : (ofValue d).result = .ok e) :
    Loaded e := by
  unfold ofValue at h
  split at h
  · exact absurd h (by simp)
  · rename_i declaration start hopening
    obtain ⟨_, -, hdeclare⟩ := bind_eq_ok_iff.mp hopening
    obtain ⟨_, hstart, hpair⟩ := bind_eq_ok_iff.mp hdeclare
    cases hpair
    obtain ⟨_, rfl⟩ := eq_of_declare hstart
    dsimp only at h
    split at h
    · exact absurd h (by simp)
    · exact loaded_addDumped h ⟨.declared hstart, fun m hm => absurd hm (by simp),
        fun m hm => absurd hm (by simp)⟩

/-! ## Nothing is lost -/

/-- An enumeration that stands for another, but for the bound on renames. -/
structure Rebuilt (e f : Enumeration) : Prop where
  name : f.name = e.name
  container : f.container = e.container
  noValue : f.noValue = e.noValue
  autoResolve : f.autoResolve = e.autoResolve
  /-- The names, values and annotations in their order. -/
  members : f.members = e.members
  byName : f.byName = e.byName
  values : f.values = e.values
  dump : f.toValue = e.toValue
  /-- The same text in every layout, or the same reason why there is none. -/
  source : ∀ l, Source.render f l = Source.render e l
  /-- Where there was no bound the same requests come to the same. -/
  later : e.attemptCap = .null → ∀ rs, f.run rs = e.run rs

theorem memberLines_uncapped (e : Enumeration) (l : Source.Layout) (depth : Nat) (first : Bool)
    (ms : List Member) :
    Source.memberLines e.uncapped l depth first ms = Source.memberLines e l depth first ms := by
  induction ms generalizing first with
  | nil => rfl
  | cons m ms ih =>
    unfold Source.memberLines
    rw [ih]
    rfl

theorem render_uncapped (e : Enumeration) (l : Source.Layout) :
    Source.render e.uncapped l = Source.render e l := by
  have hlines : ∀ depth, Source.enumerationLines e.uncapped l depth
      = Source.enumerationLines e l depth := by
    intro depth
    unfold Source.enumerationLines
    rw [memberLines_uncapped]
    rfl
  unfold Source.render Source.lines
  simp only [hlines]
  rfl

theorem rebuilt_uncapped (e : Enumeration) : Rebuilt e e.uncapped := by
  refine ⟨rfl, rfl, rfl, rfl, rfl, rfl, rfl, rfl, render_uncapped e, fun hcap rs => ?_⟩
  have he : e.uncapped = e := by
    unfold uncapped
    rw [← hcap]
  rw [he]

/--
**A dump and the enumeration it makes say the same.** The dump of an enumeration all of whose
values are kept makes it again, member by member and without a rename, whatever policy is put into
the dump before. So one pass through an enumeration brings any dump that is accepted into a form
that further passes leave alone.
-/
theorem rebuilt_ofValue_toValue :
    (∀ e : Enumeration, Reachable e → HasProperArguments e → ValuesHashable e →
    ∃ d f, e.toValue = .ok d
      ∧ ofValue d = ⟨e.storing, .ok f⟩ ∧ Rebuilt e f
      ∧ ∀ policy, ∃ g, ofValue (d.withField "auto_resolve_conflicts" policy) = ⟨e.storing, .ok g⟩
        ∧ g.members = e.members ∧ g.autoResolve = policy)
    ∧ ∀ (d : Value) (e : Enumeration), (ofValue d).result = .ok e →
      ∃ c f, e.toValue = .ok c ∧ (ofValue c).result = .ok f ∧ f.toValue = .ok c := by
  refine ⟨fun e h hp hh => ?_, fun d e hd => ?_⟩
  · have hs := sound_reachable h
    obtain ⟨d, hd⟩ := toValue_ok hp
    refine ⟨d, _, hd, ofValue_of_tells hs hh (tells_toValue hs.declared hd), rebuilt_uncapped e,
      fun policy => ?_⟩
    exact ⟨uncapped { e with autoResolve := policy },
      ofValue_of_tells (sound_withPolicy hs policy) hh (tells_withField hs hd policy), rfl, rfl⟩
  · have h := loaded_ofValue hd
    obtain ⟨c, hc⟩ := toValue_ok h.proper
    refine ⟨c, e.uncapped, hc, ?_, hc⟩
    have hs := sound_reachable h.reachable
    rw [ofValue_of_tells hs h.hashable (tells_toValue hs.declared hc)]

/-- A dump as someone might write it: a type name with a blank, a name that is taken, and a member
that has no value. -/
def handwritten : Value :=
  .object [("name", .text "my type"), ("auto_resolve_conflicts", .bool true),
  ("no_value", .int 1), ("members", .list [.object [("name", .text "1st"), ("value", .bool true)],
    .object [("name", .text "_1st"), ("value", .null)]])]

/-- What is made of it. -/
def handwrittenType : Enumeration := ⟨"my_type", .text "", .int 1, .bool true, .null,
  [⟨"_1st", .bool true, []⟩, ⟨"_1st_1", .int 1, []⟩],
  [("_1st", ⟨"_1st", .bool true, []⟩), ("_1st_1", ⟨"_1st_1", .int 1, []⟩)], []⟩

theorem rebuilt_handwritten : (ofValue handwritten).result = .ok handwrittenType
    ∧ (∃ d f, handwrittenType.toValue = .ok d ∧ ofValue d = ⟨handwrittenType.storing, .ok f⟩
      ∧ Rebuilt handwrittenType f)
    ∧ ∃ c f, handwrittenType.toValue = .ok c ∧ (ofValue c).result = .ok f ∧ f.toValue = .ok c := by
  have hd : (ofValue handwritten).result = .ok handwrittenType := by cbv
  have h := loaded_ofValue hd
  obtain ⟨d, f, h1, h2, h3, -⟩ :=
    rebuilt_ofValue_toValue.1 handwrittenType h.reachable h.proper h.hashable
  exact ⟨hd, ⟨d, f, h1, h2, h3⟩, rebuilt_ofValue_toValue.2 handwritten handwrittenType hd⟩

/-- What is there when a set was asked for in vain. -/
def leftType : Enumeration := ⟨"Colors", .text "", .int 0, .bool true, .null,
  [⟨"A", .set [.int 1], []⟩], [("A", ⟨"A", .set [.int 1], []⟩)], []⟩

/-- A set that was refused is still in the list, and so in the dump, which is refused for it. -/
theorem refused_of_left_set : Reachable leftType ∧ HasProperArguments leftType
    ∧ ∃ d, leftType.toValue = .ok d ∧ (ofValue d).result = .error (.unhashable .set) := by
  have hadd : (add ⟨"Colors", .text "", .int 0, .bool true, .null, [], [], []⟩
      ⟨.text "A", .set [.int 1], .none⟩).enumeration = leftType := by cbv
  have hreach := (Reachable.declared declare_mixed).added ⟨.text "A", .set [.int 1], .none⟩
  rw [hadd] at hreach
  refine ⟨hreach, ?_, _, toValue_eq_ok_iff.mpr ⟨_, rfl, rfl⟩, by cbv⟩
  simp [HasProperArguments, leftType]

end EnumDecl.Enumeration
