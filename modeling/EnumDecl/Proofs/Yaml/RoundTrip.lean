import EnumDecl.Document
import EnumDecl.Proofs.Redump
import EnumDecl.Proofs.Yaml.Library

/-!
# An enumeration and its YAML text

The dump of an enumeration whose parts are scalars has the form that a library is asked to give
back, level by level: arguments, type references, annotations, members, and the enumeration itself.
What is read is the dump of the enumeration that is read back, and so it makes that one, unless two
of its members have not-a-number as their values.

This is so with every library that is faithful.
-/

namespace EnumDecl

open Yaml

/-! ## Objects of scalars -/

/-- A literal or a constant whose parts are scalars. -/
def Argument.HoldsScalars : Argument → Prop
  | .literal v => IsScalar v
  | .constant name owner => IsScalar name ∧ IsScalar owner
  | .bare _ => False

/-- An annotation all of whose parts are scalars. -/
structure Annotation.HoldsScalars (a : Annotation) : Prop where
  name : IsScalar a.type.name
  container : IsScalar a.type.container
  argument : a.argument.HoldsScalars

/-- A member whose value is a scalar and whose annotations are of scalars. -/
structure Member.HoldsScalars (m : Member) : Prop where
  value : IsScalar m.value
  annotations : ∀ a ∈ m.annotations, a.HoldsScalars

/-- An enumeration all of whose parts are scalars. -/
structure Enumeration.HoldsScalars (e : Enumeration) : Prop where
  container : IsScalar e.container
  noValue : IsScalar e.noValue
  autoResolve : IsScalar e.autoResolve
  members : ∀ m ∈ e.members, m.HoldsScalars

theorem Argument.HoldsScalars.isData {a : Argument} (h : a.HoldsScalars) :
    a.IsData fun _ => .float .nan := by
  cases a with
  | literal v => exact IsScalar.isData h
  | constant name owner => exact ⟨h.1.isData, h.2.isData⟩
  | bare v => exact h.elim

/-- What holds scalars can be written. A mark stands for not-a-number. -/
theorem Enumeration.HoldsScalars.isData {e : Enumeration} (h : e.HoldsScalars) :
    e.IsData fun _ => .float .nan := by
  refine ⟨h.container.isData, h.noValue.isData, h.autoResolve.isData, fun m hm => ?_⟩
  have hm := h.members m hm
  refine ⟨hm.value.isData, fun a ha => ?_⟩
  have ha := hm.annotations a ha
  exact ⟨ha.name.isData, ha.container.isData, ha.argument.isData⟩

/-! ## The form of a dump

Fields hold scalars, and objects and lists of objects with one level less in them. -/

theorem Argument.returns {a : Argument} (h : a.HoldsScalars) :
    ∃ d c, a.toValue = .ok d ∧ a.reread.toValue = .ok c ∧ ObjectReturns (FieldReturns 0) d c := by
  cases a with
  | literal v =>
    exact ⟨_, _, rfl, rfl, objectReturns (by simp) (by simp) (by simp [fieldNames])
      (.cons ⟨rfl, fieldReturns_text 0 "lit"⟩ (.cons ⟨rfl, fieldReturns_scalar h⟩ .nil))⟩
  | constant name owner =>
    exact ⟨_, _, rfl, rfl, objectReturns (by simp) (by simp) (by simp [fieldNames])
      (.cons ⟨rfl, fieldReturns_text 0 "const"⟩ (.cons ⟨rfl, fieldReturns_scalar h.1⟩
        (.cons ⟨rfl, fieldReturns_scalar h.2⟩ .nil)))⟩
  | bare v => exact h.elim

theorem Annotation.returns {a : Annotation} (h : a.HoldsScalars) :
    ∃ d c, a.toValue = .ok d ∧ a.reread.toValue = .ok c ∧ ObjectReturns (FieldReturns 1) d c := by
  obtain ⟨d, c, hd, hc, hargument⟩ := Argument.returns h.argument
  have htype : ObjectReturns (FieldReturns 0) a.type.toValue a.reread.type.toValue :=
    objectReturns (by simp) (by simp) (by simp [fieldNames])
      (.cons ⟨rfl, fieldReturns_scalar h.name⟩ (.cons ⟨rfl, fieldReturns_scalar h.container⟩ .nil))
  exact ⟨_, _, bind_eq_ok_iff.mpr ⟨d, hd, rfl⟩, bind_eq_ok_iff.mpr ⟨c, hc, rfl⟩,
    objectReturns (by simp) (by simp) (by simp [fieldNames])
      (.cons ⟨rfl, fieldReturns_object htype⟩ (.cons ⟨rfl, fieldReturns_object hargument⟩ .nil))⟩

theorem Member.returns {m : Member} (h : m.HoldsScalars) :
    ∃ d c, m.toValue = .ok d ∧ m.reread.toValue = .ok c ∧ ObjectReturns (FieldReturns 2) d c := by
  obtain ⟨ds, cs, hds, hcs, hall⟩ := exists_dumps Annotation.toValue Annotation.reread fun a ha =>
    Annotation.returns (h.annotations a ha)
  exact ⟨_, _, bind_eq_ok_iff.mpr ⟨ds, hds, rfl⟩, bind_eq_ok_iff.mpr ⟨cs, hcs, rfl⟩,
    objectReturns (by simp) (by simp) (by simp [fieldNames])
      (.cons ⟨rfl, fieldReturns_text 2 m.name⟩ (.cons ⟨rfl, fieldReturns_scalar h.value⟩
        (.cons ⟨rfl, fieldReturns_list hall⟩ .nil)))⟩

namespace Enumeration

/-- **The dump of an enumeration is given back as one that tells the enumeration that is read
back.** -/
theorem returns {e : Enumeration} (h : e.HoldsScalars) :
    ∃ d c, e.toValue = .ok d ∧ e.reread.Tells c ∧ DumpReturns d c := by
  obtain ⟨hmembers, hname, hcontainer, hnoValue, hpolicy, -⟩ := reread_fields e
  obtain ⟨ds, cs, hds, hcs, hall⟩ := exists_dumps Member.toValue Member.reread fun m hm =>
    Member.returns (h.members m hm)
  rw [← hmembers] at hcs
  have htells : e.reread.Tells (.object [("name", .text e.name), ("namespace", e.container.reread),
      ("no_value", e.noValue.reread), ("auto_resolve_conflicts", e.autoResolve.reread),
      ("members", .list cs)]) := by
    refine ⟨?_, ?_,
      ⟨e.noValue.reread, Value.field_object (by simp [List.lookup]), hnoValue.symm⟩, ?_,
      cs, Value.field_object (by simp [List.lookup]), ?_⟩
    · rw [hname]
      exact Value.field_object (by simp [List.lookup])
    · rw [hcontainer]
      exact Value.field_object (by simp [List.lookup])
    · rw [hpolicy]
      exact Value.field_object (by simp [List.lookup])
    · exact ((mapM_eq_ok_iff.mp hcs).imp fun _ _ => Member.tells_toValue).flip
  exact ⟨_, _, toValue_eq_ok_iff.mpr ⟨ds, hds, rfl⟩, htells,
    objectReturns (by simp) (by simp) (by simp [fieldNames])
      (.cons ⟨rfl, fieldReturns_text 3 e.name⟩ (.cons ⟨rfl, fieldReturns_scalar h.container⟩
        (.cons ⟨rfl, fieldReturns_scalar h.noValue⟩ (.cons ⟨rfl, fieldReturns_scalar h.autoResolve⟩
          (.cons ⟨rfl, fieldReturns_list hall⟩ .nil)))))⟩

/-- The text of an enumeration is read as a dump that tells the enumeration that is read back. -/
theorem exists_yaml {yaml : Library} (hyaml : yaml.Faithful) {e : Enumeration}
    (hd : e.HoldsScalars) :
    ∃ text d c, Document.toYamlBy yaml e = .ok text ∧ Document.ofYamlBy yaml text = ofValue c
      ∧ e.toValue = .ok d ∧ e.reread.Tells c := by
  obtain ⟨d, c, hdump, htells, hreturns⟩ := returns hd
  obtain ⟨text, hwrite⟩ := hyaml.written d c hreturns
  refine ⟨text, d, c, bind_eq_ok_iff.mpr ⟨d, hdump, hwrite⟩, ?_, hdump, htells⟩
  rw [Document.ofYamlBy, hyaml.returned d c text hreturns hwrite, Document.load]

/--
**A YAML text brings an enumeration back**, with every library that gives back what it is given. An
enumeration whose parts are scalars has a text. If at most one member has not-a-number as its
value, the text makes an enumeration, with nothing to report but its members one after another, and
both have the same dump up to marks. Otherwise the text is refused.
-/
theorem ofYaml_toYaml {yaml : Library} (hyaml : yaml.Faithful) {e : Enumeration} (h : Reachable e)
    (hd : e.HoldsScalars) :
    ∃ text d, Document.toYamlBy yaml e = .ok text ∧ e.toValue = .ok d
      ∧ (e.AtMostOneNan →
      ∃ f c, Document.ofYamlBy yaml text = ⟨f.storing, .ok f⟩ ∧ f.toValue = .ok c
        ∧ c.sorted = d.sorted)
      ∧ (¬ e.AtMostOneNan → ∃ fault, (Document.ofYamlBy yaml text).result = .error fault) := by
  have hs := sound_reachable h
  obtain ⟨text, d, c, hwrite, hread, hdump, htells⟩ := exists_yaml hyaml hd
  refine ⟨text, d, hwrite, hdump, fun hn => ?_, fun hn => ?_⟩
  · obtain ⟨d', c', hdump', hredump, hkept⟩ := redumped hd.isData
    rw [hdump] at hdump'
    cases hdump'
    refine ⟨e.reread.uncapped, c', ?_, hredump, hkept.2⟩
    rw [hread, ofValue_of_tells (sound_reread hs hd.isData hn) (valuesHashable_reread hs hd.isData)
      htells]
    rfl
  · rw [hread]
    exact refused_of_not_atMostOneNan hs.declared hd.isData htells hn

/-- An enumeration whose members are named like truth values and nothing. -/
def answer : Declaration := ⟨.text "Answer", .null, .bool false, .text "no", .null⟩

/-- The enumeration that is declared. -/
def answerType : Enumeration := ⟨"Answer", .null, .text "no", .bool false, .null, [], [], []⟩

/-- What is said of a member by a constant without an owner. -/
def answerMark : Annotation := ⟨⟨.text "Shade", .null⟩, .constant (.text "<<") .null⟩

/-- What is said of a member by a literal that looks like a date. -/
def answerDay : Annotation := ⟨⟨.text "Shade", .text "Ui"⟩, .literal (.text "2001-01-01")⟩

/-- Members with texts of all three styles, one without a value and one whose value is
not-a-number. -/
def answerRequests : List Request := [⟨.text "Yes", .text "yes", .one answerMark⟩,
  ⟨.text "No", .null, .none⟩, ⟨.text "null", .text "12:30\n - é", .one answerDay⟩,
  ⟨.text "On", .float .nan, .none⟩]

/-- The members that are stored. -/
def answerMembers : List Member := [⟨"Yes", .text "yes", [answerMark]⟩, ⟨"No", .text "no", []⟩,
  ⟨"null", .text "12:30\n - é", [answerDay]⟩, ⟨"On", .float .nan, []⟩]

theorem ofYaml_toYaml_answer : Library.standard.Faithful ∧ declare answer = .ok answerType ∧
    (answerType.run answerRequests).enumeration.members = answerMembers ∧
    (answerType.run answerRequests).enumeration.HoldsScalars ∧
    (answerType.run answerRequests).enumeration.AtMostOneNan ∧
    ∃ text d f c, Document.toYaml (answerType.run answerRequests).enumeration = .ok text
      ∧ (answerType.run answerRequests).enumeration.toValue = .ok d
      ∧ Document.ofYaml text = ⟨f.storing, .ok f⟩ ∧ f.toValue = .ok c ∧ c.sorted = d.sorted := by
  have hdeclare : declare answer = .ok answerType := by cbv
  have hmembers : (answerType.run answerRequests).enumeration.members = answerMembers := by cbv
  obtain ⟨-, hcontainer, hnoValue, hpolicy, -⟩ := run_unchanged answerType answerRequests
  have hmark : answerMark.HoldsScalars := ⟨.text "Shade", .null, .text "<<", .null⟩
  have hday : answerDay.HoldsScalars := ⟨.text "Shade", .text "Ui", .text "2001-01-01"⟩
  have hdata : (answerType.run answerRequests).enumeration.HoldsScalars := by
    refine ⟨?_, ?_, ?_, ?_⟩
    · rw [hcontainer]
      exact .null
    · rw [hnoValue]
      exact .text "no"
    · rw [hpolicy]
      exact .bool false
    · rw [hmembers]
      intro m hm
      simp only [answerMembers, List.mem_cons, List.not_mem_nil, or_false] at hm
      rcases hm with rfl | rfl | rfl | rfl
      · exact ⟨.text "yes", by simpa using hmark⟩
      · exact ⟨.text "no", by simp⟩
      · exact ⟨.text _, by simpa using hday⟩
      · exact ⟨.float .nan, by simp⟩
  have hnan : (answerType.run answerRequests).enumeration.AtMostOneNan := by
    rw [AtMostOneNan, hmembers]
    simp [answerMembers, Value.isNan]
  obtain ⟨text, d, hwrite, hdump, hkeep, -⟩ :=
    ofYaml_toYaml faithful_standard (reachable_run (.declared hdeclare) answerRequests) hdata
  obtain ⟨f, c, hread, hredump, hsorted⟩ := hkeep hnan
  exact ⟨faithful_standard, hdeclare, hmembers, hdata, hnan, text, d, f, c, hwrite, hdump, hread,
    hredump, hsorted⟩

theorem ofYaml_refused_of_nans : Reachable nansType ∧ nansType.HoldsScalars ∧
    ∃ text fault, Document.toYaml nansType = .ok text
      ∧ (Document.ofYaml text).result = .error fault := by
  have hdata : nansType.HoldsScalars := by
    refine ⟨.text "", .int (Decimal.isWritable_of_lt_ten (by omega)), .bool false, fun m hm => ?_⟩
    simp only [nansType, List.mem_cons, List.not_mem_nil, or_false] at hm
    rcases hm with rfl | rfl
    · exact ⟨.float .nan, by simp⟩
    · exact ⟨.float .nan, by simp⟩
  obtain ⟨text, d, c, hwrite, hread, -, htells⟩ := exists_yaml faithful_standard hdata
  obtain ⟨fault, hfault⟩ :=
    refused_of_not_atMostOneNan (sound_reachable reachable_nansType).declared
    hdata.isData htells not_atMostOneNan_nansType
  exact ⟨reachable_nansType, hdata, text, fault, hwrite, by rw [Document.ofYaml, hread, hfault]⟩

end Enumeration

end EnumDecl
