import EnumDecl.Document
import EnumDecl.Proofs.Json.Value
import EnumDecl.Proofs.Redump

/-!
# An enumeration and its JSON text

The text of an enumeration is read as its dump read back, in which nothing is changed but marks and
the order of keys. So it makes the enumeration that is read back, unless two of its members have
not-a-number as their values.
-/

namespace EnumDecl

variable {thing : Mark → Value}

namespace Enumeration

/-- What is read from the text of an enumeration is its dump read back. -/
theorem exists_text {e : Enumeration} (hd : e.IsData thing) :
    ∃ text d c, Document.toJson e = .ok text ∧ Document.ofJson text = ofValue d.reread
      ∧ e.toValue = .ok d ∧ e.reread.toValue = .ok c ∧ Value.Kept thing d c := by
  obtain ⟨d, c, hdump, hredump, hkept⟩ := redumped hd
  obtain ⟨text, hwrite, hread⟩ := Json.read_write hkept.1
  refine ⟨text, d, c, bind_eq_ok_iff.mpr ⟨d, hdump, hwrite⟩, ?_, hdump, hredump, hkept⟩
  rw [Document.ofJson, hread, Document.load]

/--
**A JSON text brings an enumeration back.** An enumeration whose parts can all be written has a
text. If at most one member has not-a-number as its value, the text makes an enumeration, with
nothing to report but its members one after another, and both have the same dump up to marks and
the order of keys. Otherwise the text is refused.
-/
theorem ofJson_toJson {e : Enumeration} (h : Reachable e) (hd : e.IsData thing) :
    ∃ text d, Document.toJson e = .ok text ∧ e.toValue = .ok d
      ∧ (e.AtMostOneNan → ∃ f c, Document.ofJson text = ⟨f.storing, .ok f⟩ ∧ f.toValue = .ok c
        ∧ c.sorted = d.sorted)
      ∧ (¬ e.AtMostOneNan → ∃ fault, (Document.ofJson text).result = .error fault) := by
  have hs := sound_reachable h
  obtain ⟨text, d, c, hwrite, hread, hdump, hredump, hkept⟩ := exists_text hd
  have ht := tells_toValue hs.declared hdump
  refine ⟨text, d, hwrite, hdump, fun hn => ?_, fun hn => ?_⟩
  · refine ⟨e.reread.uncapped, c, ?_, hredump, hkept.2⟩
    rw [hread, ofValue_of_tells (sound_reread hs hd hn) (valuesHashable_reread hs hd)
      (tells_reread hkept.1 ht)]
    rfl
  · rw [hread]
    exact refused_of_not_atMostOneNan hs.declared hd (tells_reread hkept.1 ht) hn

/-- An enumeration in which a list means that there is none. -/
def mood : Declaration := ⟨.text "Mood", .null, .bool true, .list [.int 1, .float .nan], .null⟩

/-- The enumeration that is declared. The list is one thing from then on. -/
def moodType : Enumeration :=
  ⟨"Mood", .null, .marked .sentinel (.list [.int 1, .float .nan]), .bool true, .null, [], [], []⟩

/-- A literal with its keys out of order. -/
def moodLiteral : Value :=
  .object [("on", .bool true), ("at", .list [.int 1, .float (.infinity true)])]

/-- A member without a value, one whose value is not-a-number and one whose value needs escapes. -/
def moodRequests : List Request :=
  [⟨.text "None", .null, .none⟩, ⟨.text "Calm", .float .nan, .none⟩,
  ⟨.text "Calm", .text "a\n\"é\"", .one ⟨⟨.text "Shade", .text "Ui"⟩, .literal moodLiteral⟩⟩]

/-- The members that are stored. -/
def moodMembers : List Member := [⟨"None", moodType.noValue, []⟩, ⟨"Calm", .float .nan, []⟩,
  ⟨"Calm_1", .text "a\n\"é\"", [⟨⟨.text "Shade", .text "Ui"⟩, .literal moodLiteral⟩]⟩]

/-- The one thing of `mood` that stands in several places. -/
def moodThing : Mark → Value := fun _ => .list [.int 1, .float .nan]

theorem ofJson_toJson_mood : declare mood = .ok moodType ∧
    (moodType.run moodRequests).enumeration.members = moodMembers ∧
    ∃ text d f c, Document.toJson (moodType.run moodRequests).enumeration = .ok text
      ∧ (moodType.run moodRequests).enumeration.toValue = .ok d
      ∧ Document.ofJson text = ⟨f.storing, .ok f⟩ ∧ f.toValue = .ok c ∧ c.sorted = d.sorted := by
  have hdeclare : declare mood = .ok moodType := by cbv
  have hmembers : (moodType.run moodRequests).enumeration.members = moodMembers := by cbv
  obtain ⟨-, hcontainer, hnoValue, hpolicy, -⟩ := run_unchanged moodType moodRequests
  have hone : Value.IsData moodThing (.int 1) := .int (Decimal.isWritable_of_lt_ten (by omega))
  have hlist : Value.IsData moodThing moodType.noValue :=
    .marked rfl rfl (Or.inl rfl) (.list (by simp [hone, Value.IsData.float]))
  have hliteral : Value.IsData moodThing moodLiteral := by
    have hat : Value.IsData moodThing (.list [.int 1, .float (.infinity true)]) :=
      .list (by simp [hone, Value.IsData.float])
    exact Value.isData_object (by simp) (by simp [hat, Value.IsData.bool])
  have hdata : (moodType.run moodRequests).enumeration.IsData moodThing := by
    refine ⟨?_, ?_, ?_, ?_⟩
    · rw [hcontainer]
      exact .null
    · rw [hnoValue]
      exact hlist
    · rw [hpolicy]
      exact .bool true
    · rw [hmembers]
      intro m hm
      simp only [moodMembers, List.mem_cons, List.not_mem_nil, or_false] at hm
      rcases hm with rfl | rfl | rfl
      · exact ⟨hlist, by simp⟩
      · exact ⟨.float .nan, by simp⟩
      · refine ⟨.text _, fun a ha => ?_⟩
        rw [List.mem_singleton.mp ha]
        exact ⟨.text "Shade", .text "Ui", hliteral⟩
  have hnan : (moodType.run moodRequests).enumeration.AtMostOneNan := by
    rw [AtMostOneNan, hmembers]
    simp [moodMembers, moodType, Value.isNan]
  obtain ⟨text, d, hwrite, hdump, hkeep, -⟩ :=
    ofJson_toJson (reachable_run (.declared hdeclare) moodRequests) hdata
  obtain ⟨f, c, hread, hredump, hsorted⟩ := hkeep hnan
  exact ⟨hdeclare, hmembers, text, d, f, c, hwrite, hdump, hread, hredump, hsorted⟩

theorem refused_of_two_nans : Reachable nansType ∧ nansType.IsData (fun _ => .null) ∧
    ∃ text fault, Document.toJson nansType = .ok text
      ∧ (Document.ofJson text).result = .error fault := by
  have hreachable := reachable_nansType
  have hdata : nansType.IsData fun _ => .null := by
    refine ⟨.text "", .int (Decimal.isWritable_of_lt_ten (by omega)), .bool false, fun m hm => ?_⟩
    simp only [nansType, List.mem_cons, List.not_mem_nil, or_false] at hm
    rcases hm with rfl | rfl
    · exact ⟨.float .nan, by simp⟩
    · exact ⟨.float .nan, by simp⟩
  have hd := (sound_reachable hreachable).declared
  obtain ⟨text, d, c, hwrite, hread, hdump, -, hkept⟩ := exists_text hdata
  obtain ⟨fault, hfault⟩ :=
    refused_of_not_atMostOneNan hd hdata (tells_reread hkept.1 (tells_toValue hd hdump))
      not_atMostOneNan_nansType
  exact ⟨hreachable, hdata, text, fault, hwrite, by rw [hread, hfault]⟩

end Enumeration

end EnumDecl
