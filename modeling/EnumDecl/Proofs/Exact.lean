import EnumDecl.Proofs.Reread

/-!
# Objects and their dumps, kind by kind

Type references, arguments, annotations and members have dumps of their own, each made of the dumps
of its parts. For every kind the same holds (`Codec.Exact`): a dump has the documented keys and no
others, it is read back as the object that it was written for, and two objects are equal exactly
when their dumps are. A dump that is read may say less or more. What is missing stands for
something fixed, where nothing at all is not what is missing, and other keys are passed over;
written again, it has the documented form.

A member has no dump when one of its arguments is neither a literal nor a constant.
-/

namespace EnumDecl

/-! ## Fields -/

namespace Value

/-- A mapping has a value under a key. -/
def Has (d : Value) (key : String) (v : Value) : Prop :=
  ∃ entries, d.bare = .mapping entries ∧ lookup (.text key) entries = some v

/-- A mapping has a value under a key, or does not have the key and another value stands for it. -/
def HasOr (d : Value) (key : String) (default v : Value) : Prop :=
  ∃ entries, d.bare = .mapping entries ∧ (lookup (.text key) entries).getD default = v

/-- A mapping has these keys and no others, in this order. -/
def HasKeys (d : Value) (keys : List String) : Prop :=
  ∃ entries : List (String × Value), d = object entries ∧ entries.map (·.1) = keys

theorem field_eq_ok_iff {d : Value} {key : String} {v : Value} :
    d.field key = .ok v ↔ d.Has key v := by
  unfold field Has
  split
  · rename_i entries hd
    rw [hd]
    cases hfound : lookup (.text key) entries <;> simp [hfound]
  all_goals simp_all

theorem fieldOr_eq_ok_iff {d : Value} {key : String} {default v : Value} :
    d.fieldOr key default = .ok v ↔ d.HasOr key default v := by
  unfold fieldOr HasOr
  split
  · rename_i entries hd
    rw [hd]
    simp
  · rename_i hne
    simp_all

theorem HasOr.has {d : Value} {key : String} {default v : Value} (h : d.HasOr key default v)
    (hne : v ≠ default) : d.Has key v := by
  obtain ⟨entries, hd, rfl⟩ := h
  refine ⟨entries, hd, ?_⟩
  cases hfound : lookup (.text key) entries with
  | none => exact absurd (by rw [hfound]; rfl) hne
  | some w => rfl

theorem Has.hasOr {d : Value} {key : String} {v : Value} (h : d.Has key v) (default : Value) :
    d.HasOr key default v := by
  obtain ⟨entries, hd, hfound⟩ := h
  exact ⟨entries, hd, by rw [hfound]; rfl⟩

/-- Only a text is equal to a text. -/
theorem eqv_text_iff (v : Value) (s : String) : v.eqv (.text s) = true ↔ v.bare = .text s := by
  have hone : isOne v (.text s) = false := by
    unfold isOne
    cases v.mark? <;> rfl
  rw [eqv, hone, Bool.false_and, Bool.false_or, ← isLike_bare_left]
  cases hb : v.bare with
  | marked m w => exact absurd hb (bare_ne_marked v m w)
  | _ => simp [isLike, bare, eqvAtom]

/-- What has no mark is not one with anything. -/
theorem isOne_of_mark? {v : Value} (h : v.mark? = none) (w : Value) : isOne v w = false := by
  rw [isOne, h]
  rfl

/-- Objects of one form are the same when they are field by field. -/
theorem same_object_iff {es fs : List (String × Value)} (hk : es.map (·.1) = fs.map (·.1))
    (hn : (es.map (·.1)).Nodup) : (object es).same (object fs) = true ↔
      List.Forall₂ (fun e f => e.2.same f.2 = true) es fs := by
  have hlength : es.length = fs.length := by simpa using congrArg List.length hk
  rw [same, isOne_of_mark? rfl, Bool.false_or]
  refine (isLike_mapping_iff es fs).trans ((and_iff_right hlength).trans ?_)
  clear hlength
  induction es generalizing fs with
  | nil =>
    cases fs with
    | nil => simp
    | cons f fs => exact absurd hk (by simp)
  | cons e es ih =>
    cases fs with
    | nil => exact absurd hk (by simp)
    | cons f fs =>
      obtain ⟨hkey, hkeys⟩ := List.cons.inj hk
      obtain ⟨hnew, hrest⟩ := List.nodup_cons.mp hn
      rw [List.forall₂_cons, ← ih hkeys hrest, List.forall_mem_cons]
      -- an entry finds its key in the one place where the other list has it
      refine and_congr ?_ (forall₂_congr fun a ha => ?_)
      · constructor
        · rintro ⟨g, hg, hge, hsame⟩
          rcases List.mem_cons.mp hg with rfl | hg
          · exact hsame
          · refine absurd ?_ hnew
            show e.1 ∈ es.map (·.1)
            rw [hkeys, hge]
            exact List.mem_map_of_mem hg
        · exact fun hsame => ⟨f, List.mem_cons_self, hkey, hsame⟩
      · constructor
        · rintro ⟨g, hg, hge, hsame⟩
          rcases List.mem_cons.mp hg with rfl | hg
          · refine absurd ?_ hnew
            show e.1 ∈ es.map (·.1)
            rw [show e.1 = a.1 from hkey.trans hge.symm]
            exact List.mem_map_of_mem ha
          · exact ⟨g, hg, hge, hsame⟩
        · rintro ⟨g, hg, hge, hsame⟩
          exact ⟨g, List.mem_cons_of_mem _ hg, hge, hsame⟩

theorem same_list_iff (xs ys : List Value) :
    (Value.list xs).same (.list ys) = true ↔ List.Forall₂ (fun x y => x.same y = true) xs ys := by
  rw [same, isOne_of_mark? rfl, Bool.false_or, ← sameItems_iff]
  simp only [isLike, bare]

/-- An object with no mark is equal to what is the same. -/
theorem HasKeys.eqv_eq_same {d : Value} {keys : List String} (h : d.HasKeys keys) (v : Value) :
    d.eqv v = d.same v := by
  obtain ⟨entries, rfl, -⟩ := h
  rw [eqv, same, isOne_of_mark? rfl]
  rfl

theorem has_object {es : List (String × Value)} {key : String} {v : Value}
    (h : es.lookup key = some v) : (object es).Has key v :=
  field_eq_ok_iff.mp (field_object h)

theorem hasKeys_object {es : List (String × Value)} : (object es).HasKeys (es.map (·.1)) :=
  ⟨es, rfl, rfl⟩

end Value

/-! ## Kinds of objects -/

/-- A kind of object: its dumps, when two of its objects are equal, and why an object has no dump
if it has none. -/
structure Codec (α : Type) where
  toValue : α → Except Fault Value
  ofValue : Value → Except Fault α
  eqv : α → α → Bool
  fault? : α → Option Fault
  /-- A value has exactly the keys of a dump, at every level. -/
  Documented : Value → Prop
  /-- A value says what there is to say of an object, at least as far as it has to. -/
  Gives : Value → α → Prop

/-- The dumps of a kind of object lose nothing and add nothing. -/
structure Codec.Exact {α : Type} (k : Codec α) : Prop where
  /-- An object has no dump for one reason, and has one otherwise. -/
  refused : ∀ a, faultOf? (k.toValue a) = k.fault? a
  /-- A dump has the keys of its kind. -/
  documented : ∀ a d, k.toValue a = .ok d → k.Documented d
  /-- A dump is read back as the object. -/
  read : ∀ a d, k.toValue a = .ok d → k.ofValue d = .ok a
  /-- Objects are equal when their dumps are. -/
  equal : ∀ a b c d, k.toValue a = .ok c → k.toValue b = .ok d → k.eqv a b = c.eqv d
  /-- A value is accepted when it gives an object. -/
  accepted : ∀ d a, k.ofValue d = .ok a ↔ k.Gives d a
  /-- What is accepted has a dump, which is in the documented form and makes the same object. -/
  normal : ∀ d a, k.ofValue d = .ok a →
    ∃ c, k.toValue a = .ok c ∧ k.Documented c ∧ k.ofValue c = .ok a

/-- What has to be known of a kind of object. Equality of dumps is told by being the same, as dumps
are parts of other dumps; what is accepted has only to be known to have a dump. -/
theorem Codec.exact_of {α : Type} {k : Codec α}
    (hrefused : ∀ a, faultOf? (k.toValue a) = k.fault? a)
    (hkeys : ∀ d, k.Documented d → ∃ keys, d.HasKeys keys)
    (hdocumented : ∀ a d, k.toValue a = .ok d → k.Documented d)
    (hread : ∀ a d, k.toValue a = .ok d → k.ofValue d = .ok a)
    (hsame : ∀ a b c d, k.toValue a = .ok c → k.toValue b = .ok d →
      (c.same d = true ↔ k.eqv a b = true))
    (haccepted : ∀ d a, k.ofValue d = .ok a ↔ k.Gives d a)
    (hproper : ∀ d a, k.ofValue d = .ok a → k.fault? a = none) : k.Exact := by
  refine ⟨hrefused, hdocumented, hread, ?_, haccepted, ?_⟩
  · intro a b c d hc hd
    obtain ⟨_, hform⟩ := hkeys c (hdocumented a c hc)
    rw [hform.eqv_eq_same]
    exact Bool.eq_iff_iff.mpr (hsame a b c d hc hd).symm
  · intro d a h
    have hnone := (hrefused a).trans (hproper d a h)
    cases hc : k.toValue a with
    | error f =>
      rw [hc] at hnone
      exact absurd hnone (by simp [faultOf?])
    | ok c => exact ⟨c, rfl, hdocumented a c hc, hread a c hc⟩

/-! ## Type references -/

/-- The dump of a type reference has a name and a namespace. -/
def TypeReference.Documented (d : Value) : Prop := d.HasKeys ["name", "namespace"]

/-- A type reference needs a name. Where there is no namespace there is nothing to import. -/
def TypeReference.Gives (d : Value) (r : TypeReference) : Prop :=
  d.Has "name" r.name ∧ d.HasOr "namespace" (.text "") r.container

theorem TypeReference.ofValue_eq_ok_iff {d : Value} {r : TypeReference} :
    ofValue d = .ok r ↔ Gives d r := by
  unfold ofValue Gives
  simp only [bind_eq_ok_iff, Value.field_eq_ok_iff, Value.fieldOr_eq_ok_iff]
  constructor
  · rintro ⟨name, hname, container, hcontainer, h⟩
    cases h
    exact ⟨hname, hcontainer⟩
  · rintro ⟨hname, hcontainer⟩
    exact ⟨_, hname, _, hcontainer, rfl⟩

theorem TypeReference.same_toValue_iff (r s : TypeReference) :
    r.toValue.same s.toValue = true ↔ r.eqv s = true := by
  rw [toValue, toValue]
  refine (Value.same_object_iff (by simp) (by simp)).trans ?_
  simp [eqv]

/-- Type references as a kind of object. Each of them has a dump. -/
def TypeReference.codec : Codec TypeReference where
  toValue r := .ok r.toValue
  ofValue := ofValue
  eqv := eqv
  fault? _ := none
  Documented := Documented
  Gives := Gives

theorem TypeReference.exact : codec.Exact := by
  refine Codec.exact_of (fun _ => rfl) (fun _ h => ⟨_, h⟩) ?_ ?_ ?_ (fun _ _ => ofValue_eq_ok_iff)
    fun _ _ _ => rfl
  · intro a d h
    cases h
    exact Value.hasKeys_object
  · intro a d h
    cases h
    exact ofValue_of_tells a.tells_toValue
  · intro a b c d hc hd
    cases hc
    cases hd
    exact same_toValue_iff a b

/-! ## Arguments -/

/-- The dump of an argument has its form, and the value of a literal or the name and the owner of a
constant. -/
def Argument.Documented (d : Value) : Prop :=
  (d.HasKeys ["type", "value"] ∧ d.Has "type" (.text "lit")) ∨
    (d.HasKeys ["type", "name", "owner"] ∧ d.Has "type" (.text "const"))

/-- An argument needs its form and the value or the name. A constant without an owner has none. -/
def Argument.Gives (d : Value) : Argument → Prop
  | .literal v => (∃ form, d.Has "type" form ∧ form.bare = .text "lit") ∧ d.Has "value" v
  | .constant name owner => (∃ form, d.Has "type" form ∧ form.bare = .text "const") ∧
    d.Has "name" name ∧ d.HasOr "owner" .null owner
  | .bare _ => False

/-- Why an argument has no dump: it is neither a literal nor a constant. -/
def Argument.fault? : Argument → Option Fault
  | .bare v => some (.unsupportedArgument v.kind)
  | _ => none

theorem Argument.ofValue_eq_ok_iff {d : Value} {a : Argument} : ofValue d = .ok a ↔ a.Gives d := by
  have hnull : ∀ s, Value.null ≠ .text s := by simp
  have hform : ∀ {form s}, d.HasOr "type" .null form → form.bare = .text s → d.Has "type" form :=
    fun h hb => h.has fun he => hnull _ (by rw [he] at hb; exact hb)
  unfold ofValue
  simp only [bind_eq_ok_iff, Value.fieldOr_eq_ok_iff]
  constructor
  · rintro ⟨form, htype, h⟩
    split at h
    · rename_i hlit
      have hb := (Value.eqv_text_iff form "lit").mp hlit
      simp only [bind_eq_ok_iff, Value.field_eq_ok_iff] at h
      obtain ⟨v, hv, h⟩ := h
      cases h
      exact ⟨⟨form, hform htype hb, hb⟩, hv⟩
    · split at h
      · rename_i hconst
        have hb := (Value.eqv_text_iff form "const").mp hconst
        simp only [bind_eq_ok_iff, Value.field_eq_ok_iff, Value.fieldOr_eq_ok_iff] at h
        obtain ⟨name, hname, owner, howner, h⟩ := h
        cases h
        exact ⟨⟨form, hform htype hb, hb⟩, hname, howner⟩
      · exact absurd h (by simp [throw, throwThe, MonadExceptOf.throw])
  · intro h
    cases a with
    | literal v =>
      obtain ⟨⟨form, htype, hb⟩, hv⟩ := h
      refine ⟨form, htype.hasOr _, ?_⟩
      rw [if_pos ((Value.eqv_text_iff form "lit").mpr hb), Value.field_eq_ok_iff.mpr hv]
      rfl
    | constant name owner =>
      obtain ⟨⟨form, htype, hb⟩, hname, howner⟩ := h
      have hlit : form.eqv (.text "lit") = false := by
        rw [← Bool.not_eq_true, Value.eqv_text_iff, hb]
        simp
      refine ⟨form, htype.hasOr _, ?_⟩
      rw [hlit, if_neg (by simp), if_pos ((Value.eqv_text_iff form "const").mpr hb),
        Value.field_eq_ok_iff.mpr hname, Value.fieldOr_eq_ok_iff.mpr howner]
      rfl
    | bare v => exact h.elim

/-- Arguments as a kind of object. -/
def Argument.codec : Codec Argument where
  toValue := toValue
  ofValue := ofValue
  eqv := eqv
  fault? := fault?
  Documented := Documented
  Gives d a := a.Gives d

/-- Arguments that have dumps are equal when the dumps are the same. -/
theorem Argument.same_toValue_iff {a b : Argument} {c d : Value} (hc : a.toValue = .ok c)
    (hd : b.toValue = .ok d) : c.same d = true ↔ a.eqv b = true := by
  cases a with
  | bare v => exact absurd hc (by simp [toValue])
  | literal v =>
    cases hc
    cases b with
    | bare w => exact absurd hd (by simp [toValue])
    | literal w =>
      cases hd
      refine (Value.same_object_iff (by simp) (by simp)).trans ?_
      simp [eqv]
    | constant n o =>
      cases hd
      simp [Value.same, Value.isOne, Value.mark?, Value.object, Value.isLike, Value.bare, eqv]
  | constant n o =>
    cases hc
    cases b with
    | bare w => exact absurd hd (by simp [toValue])
    | literal w =>
      cases hd
      simp [Value.same, Value.isOne, Value.mark?, Value.object, Value.isLike, Value.bare, eqv]
    | constant p q =>
      cases hd
      refine (Value.same_object_iff (by simp) (by simp)).trans ?_
      simp [eqv]

theorem Argument.faultOf?_toValue (a : Argument) : faultOf? a.toValue = a.fault? := by
  cases a <;> rfl

theorem Argument.documented_toValue {a : Argument} {d : Value} (h : a.toValue = .ok d) :
    Documented d := by
  cases a with
  | bare v => exact absurd h (by simp [toValue])
  | literal v =>
    cases h
    exact .inl ⟨Value.hasKeys_object, Value.has_object rfl⟩
  | constant name owner =>
    cases h
    exact .inr ⟨Value.hasKeys_object, Value.has_object rfl⟩

theorem Argument.fault?_eq_none_iff (a : Argument) : a.fault? = none ↔ a.isProper = true := by
  cases a <;> simp [fault?, isProper]

theorem Argument.exact : codec.Exact := by
  refine Codec.exact_of faultOf?_toValue ?_ (fun _ _ => documented_toValue)
    (fun _ _ h => ofValue_of_tells (tells_toValue h)) (fun _ _ _ _ => same_toValue_iff)
    (fun _ _ => ofValue_eq_ok_iff) fun _ _ h => (fault?_eq_none_iff _).mpr (isProper_ofValue h)
  rintro d (⟨hkeys, -⟩ | ⟨hkeys, -⟩)
  · exact ⟨_, hkeys⟩
  · exact ⟨_, hkeys⟩

/-! ## Annotations -/

/-- The dump of an annotation has the dumps of its type and its argument. -/
def Annotation.Documented (d : Value) : Prop :=
  d.HasKeys ["kind", "argument"] ∧ ∃ kind argument, d.Has "kind" kind ∧ d.Has "argument" argument ∧
    TypeReference.Documented kind ∧ Argument.Documented argument

/-- An annotation needs a type and an argument. -/
def Annotation.Gives (d : Value) (a : Annotation) : Prop :=
  ∃ kind argument, d.Has "kind" kind ∧ d.Has "argument" argument ∧
    TypeReference.Gives kind a.type ∧ a.argument.Gives argument

theorem Annotation.ofValue_eq_ok_iff {d : Value} {a : Annotation} :
    ofValue d = .ok a ↔ Gives d a := by
  unfold ofValue Gives
  simp only [bind_eq_ok_iff, Value.field_eq_ok_iff, TypeReference.ofValue_eq_ok_iff,
    Argument.ofValue_eq_ok_iff]
  constructor
  · rintro ⟨kind, hkind, type, htype, dump, hdump, argument, hargument, h⟩
    cases h
    exact ⟨kind, dump, hkind, hdump, htype, hargument⟩
  · rintro ⟨kind, dump, hkind, hdump, htype, hargument⟩
    exact ⟨kind, hkind, _, htype, dump, hdump, _, hargument, rfl⟩

/-- Annotations as a kind of object. -/
def Annotation.codec : Codec Annotation where
  toValue := toValue
  ofValue := ofValue
  eqv := eqv
  fault? a := a.argument.fault?
  Documented := Documented
  Gives := Gives

theorem Annotation.faultOf?_toValue (a : Annotation) : faultOf? a.toValue = a.argument.fault? :=
  (faultOf?_bind_pure _ _).trans a.argument.faultOf?_toValue

theorem Annotation.same_toValue_iff {a b : Annotation} {c d : Value} (hc : a.toValue = .ok c)
    (hd : b.toValue = .ok d) : c.same d = true ↔ a.eqv b = true := by
  obtain ⟨x, hx, hc⟩ := bind_eq_ok_iff.mp hc
  obtain ⟨y, hy, hd⟩ := bind_eq_ok_iff.mp hd
  cases hc
  cases hd
  refine (Value.same_object_iff (by simp) (by simp)).trans ?_
  simp [eqv, TypeReference.same_toValue_iff, Argument.same_toValue_iff hx hy]

theorem Annotation.documented_toValue {a : Annotation} {d : Value} (h : a.toValue = .ok d) :
    Documented d := by
  obtain ⟨x, hx, h⟩ := bind_eq_ok_iff.mp h
  cases h
  exact ⟨Value.hasKeys_object, _, x, Value.has_object rfl, Value.has_object rfl,
    TypeReference.exact.documented _ _ rfl, Argument.documented_toValue hx⟩

theorem Annotation.gives_toValue {a : Annotation} {d : Value} (h : a.toValue = .ok d) :
    Gives d a :=
  ofValue_eq_ok_iff.mp (ofValue_of_tells (tells_toValue h))

theorem Annotation.exact : codec.Exact :=
  Codec.exact_of faultOf?_toValue (fun _ h => ⟨_, h.1⟩) (fun _ _ => documented_toValue)
    (fun _ _ h => ofValue_of_tells (tells_toValue h)) (fun _ _ _ _ => same_toValue_iff)
    (fun _ _ => ofValue_eq_ok_iff)
    fun _ _ h => (Argument.fault?_eq_none_iff _).mpr (isProper_ofValue h)

/-! ## Members -/

/-- The dump of a member has its name, its value and the dumps of its annotations. -/
def Entry.Documented (d : Value) : Prop :=
  d.HasKeys ["name", "value", "annotations"] ∧ ∃ dumps, d.Has "annotations" (.list dumps) ∧
    ∀ dump ∈ dumps, Annotation.Documented dump

/-- A member needs a name and a value. Annotations are whatever the value in their place has for
items; nothing in their place has none. -/
def Entry.Gives (d : Value) (r : Entry) : Prop :=
  d.Has "name" r.name ∧ d.Has "value" r.value ∧
    ∃ given dumps, d.HasOr "annotations" (.list []) given ∧ given.items = .ok dumps ∧
      List.Forall₂ Annotation.Gives dumps r.annotations

/-- Why a member has no dump: the first of its arguments that is neither a literal nor a
constant. -/
def Entry.fault? (r : Entry) : Option Fault := r.annotations.findSome? fun a => a.argument.fault?

theorem Entry.ofValue_eq_ok_iff {d : Value} {r : Entry} : ofValue d = .ok r ↔ Gives d r := by
  unfold ofValue Gives
  simp only [bind_eq_ok_iff, Value.field_eq_ok_iff, Value.fieldOr_eq_ok_iff, mapM_eq_ok_iff,
    Annotation.ofValue_eq_ok_iff]
  constructor
  · rintro ⟨name, hname, value, hvalue, given, hgiven, dumps, hdumps, annotations, hall, h⟩
    cases h
    exact ⟨hname, hvalue, given, dumps, hgiven, hdumps, hall⟩
  · rintro ⟨hname, hvalue, given, dumps, hgiven, hdumps, hall⟩
    exact ⟨_, hname, _, hvalue, given, hgiven, dumps, hdumps, _, hall, rfl⟩

theorem Entry.faultOf?_toValue (r : Entry) : faultOf? r.toValue = r.fault? := by
  rw [toValue, faultOf?_bind_pure, faultOf?_mapM]
  exact findSome?_congr fun a _ => a.faultOf?_toValue

theorem Entry.fault?_eq_none_iff (r : Entry) :
    r.fault? = none ↔ ∀ a ∈ r.annotations, a.argument.isProper = true := by
  simp only [fault?, List.findSome?_eq_none_iff, Argument.fault?_eq_none_iff]

theorem Entry.documented_toValue {r : Entry} {d : Value} (h : r.toValue = .ok d) :
    Documented d := by
  obtain ⟨dumps, hdumps, h⟩ := bind_eq_ok_iff.mp h
  cases h
  refine ⟨Value.hasKeys_object, dumps, Value.has_object rfl, fun dump hdump => ?_⟩
  obtain ⟨a, -, ha⟩ := exists_of_forall₂ (mapM_eq_ok_iff.mp hdumps) hdump
  exact Annotation.documented_toValue ha

/-- What is written of a member gives the member back, with the name as it was given. -/
theorem Entry.gives_toValue {r : Entry} {d : Value} (h : r.toValue = .ok d) : Gives d r := by
  obtain ⟨dumps, hdumps, h⟩ := bind_eq_ok_iff.mp h
  cases h
  refine ⟨Value.has_object rfl, Value.has_object rfl, _, dumps,
    Value.Has.hasOr (Value.has_object rfl) _, rfl, ?_⟩
  exact ((mapM_eq_ok_iff.mp hdumps).imp fun _ _ => Annotation.gives_toValue).flip

theorem Annotation.eqvList_iff (as bs : List Annotation) :
    eqvList as bs = true ↔ List.Forall₂ (fun a b => a.eqv b = true) as bs := by
  induction as generalizing bs with
  | nil => cases bs <;> simp [eqvList]
  | cons a as ih =>
    cases bs with
    | nil => simp [eqvList]
    | cons b bs => rw [eqvList, Bool.and_eq_true, ih, List.forall₂_cons]

theorem Entry.same_toValue_iff {r s : Entry} {c d : Value} (hc : r.toValue = .ok c)
    (hd : s.toValue = .ok d) : c.same d = true ↔ r.eqv s = true := by
  obtain ⟨xs, hxs, hc⟩ := bind_eq_ok_iff.mp hc
  obtain ⟨ys, hys, hd⟩ := bind_eq_ok_iff.mp hd
  cases hc
  cases hd
  have hlist : (Value.list xs).same (.list ys) = true ↔
      Annotation.eqvList r.annotations s.annotations = true := by
    rw [Value.same_list_iff, Annotation.eqvList_iff]
    have hitems : ∀ (a b : Annotation) (x y : Value), a.toValue = .ok x → b.toValue = .ok y →
        (a.eqv b = true ↔ x.same y = true) := by
      intro a b x y hx hy
      exact Iff.symm <| Annotation.same_toValue_iff hx hy
    exact (forall₂_iff_of_forall₂ (mapM_eq_ok_iff.mp hxs) (mapM_eq_ok_iff.mp hys) hitems).symm
  refine (Value.same_object_iff (by simp) (by simp)).trans ?_
  simp [eqv, hlist, and_assoc]

/-- Members as a kind of object. -/
def Entry.codec : Codec Entry where
  toValue := toValue
  ofValue := ofValue
  eqv := eqv
  fault? := fault?
  Documented := Documented
  Gives := Gives

theorem Entry.exact : codec.Exact :=
  Codec.exact_of faultOf?_toValue (fun _ h => ⟨_, h.1⟩) (fun _ _ => documented_toValue)
    (fun _ _ h => ofValue_eq_ok_iff.mpr (gives_toValue h)) (fun _ _ _ _ => same_toValue_iff)
    (fun _ _ => ofValue_eq_ok_iff) fun _ _ h => (fault?_eq_none_iff _).mpr (isProper_ofValue h)

/-- **The dumps of every kind of object lose nothing and add nothing**, and a member has a dump
unless one of its arguments is neither a literal nor a constant. -/
theorem codecs_exact :
    TypeReference.codec.Exact ∧ Argument.codec.Exact ∧ Annotation.codec.Exact ∧ Entry.codec.Exact ∧
      ∀ r : Entry, (∃ fault, r.toValue = .error fault) ↔
        ∃ a ∈ r.annotations, ∃ v, a.argument = .bare v := by
  refine ⟨TypeReference.exact, Argument.exact, Annotation.exact, Entry.exact, fun r => ?_⟩
  have hfault : (∃ fault, r.toValue = .error fault) ↔ r.fault? ≠ none := by
    rw [← r.faultOf?_toValue]
    cases r.toValue <;> simp [faultOf?]
  rw [hfault, Ne, Entry.fault?_eq_none_iff]
  push Not
  refine exists_congr fun a => and_congr_right fun _ => ?_
  cases a.argument <;> simp [Argument.isProper]

/-- A text has its characters for items, so an empty one has no annotations. -/
example :
    Entry.ofValue (.object [("value", .null), ("annotations", .text ""), ("name", .text "Red")])
    >>= Entry.toValue
      = .ok (.object [("name", .text "Red"), ("value", .null), ("annotations", .list [])]) := by
      cbv

end EnumDecl
