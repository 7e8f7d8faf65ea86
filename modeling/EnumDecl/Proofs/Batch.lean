import EnumDecl.Proofs.Rebuild
import EnumDecl.Proofs.Settling

/-!
# Which lists of requests are granted in full

Where clashes are refused, a list of requests is granted or not for reasons that can be read off
the list alone. Every request needs a name, and annotations that can be had; no two of them may ask
for one name or give one value, and what is given must be something that can be kept in a set. This
is a condition on the list as a whole, in which no request comes before another, although the
requests are granted one after another, each by an enumeration that the earlier ones have changed
(`allGranted_iff`).

It makes no difference whether the requests are made one by one or stand in a dump that is loaded
(`addDumped_result`).
-/

namespace EnumDecl.Enumeration

open Identifier

/-- The name that a request is stored under when nothing clashes; none if it does not ask for a
text. -/
def wantedName (r : Request) : String :=
  match r.name.bare with
  | .text requested => memberName requested
  | _ => ""

/-- The member that a request is stored as when nothing clashes. -/
def wanted (e : Enumeration) (r : Request) : Member :=
  ⟨wantedName r, e.effectiveValue r.value, r.annotations.toList⟩

/-- The request is for a name. -/
def Named (r : Request) : Prop := ∃ requested, r.name.bare = .text requested ∧ requested ≠ ""

theorem wantedName_eq {r : Request} {requested : String} (h : r.name.bare = .text requested) :
    wantedName r = memberName requested := by
  rw [wantedName, h]

/-- The requests do not clash with each other, whatever their order. -/
structure Acceptable (e : Enumeration) (rs : List Request) : Prop where
  named : ∀ r ∈ rs, Named r
  /-- Annotations can be had. -/
  readable : ∀ r ∈ rs, r.annotations.fault? = none
  /-- No two names come to the same. -/
  names : rs.Pairwise fun r s => wantedName r ≠ wantedName s
  /-- Values that are given can be kept in a set. -/
  hashable : ∀ r ∈ rs, e.Gives r → (e.effectiveValue r.value).isHashable = true
  /-- No two requests give the same value. -/
  values : rs.Pairwise fun r s => e.Gives r → e.Gives s →
    (e.effectiveValue r.value).same (e.effectiveValue s.value) = false

/-- The requests clash neither with each other nor with what is there. -/
structure Accepts (e : Enumeration) (rs : List Request) : Prop extends Acceptable e rs where
  /-- No name is taken. -/
  nameFree : ∀ r ∈ rs, e.hasName (wantedName r) = false
  /-- No value that is given is taken. -/
  unused : ∀ r ∈ rs, e.Gives r → ∀ w ∈ e.values, w.same (e.effectiveValue r.value) = false

/-- **A list may be put in any order.** -/
theorem acceptable_perm {e : Enumeration} {rs ss : List Request} (hp : rs.Perm ss)
    (h : Acceptable e rs) : Acceptable e ss :=
  ⟨fun r hr => h.named r (hp.mem_iff.mpr hr), fun r hr => h.readable r (hp.mem_iff.mpr hr),
    (hp.pairwise_iff fun hne he => hne he.symm).mp h.names,
    fun r hr => h.hashable r (hp.mem_iff.mpr hr), distinct_perm hp h.hashable h.values⟩

/-! ## One request -/

/-- A request that nothing stands against. -/
structure Storable (e : Enumeration) (r : Request) : Prop where
  named : Named r
  readable : r.annotations.fault? = none
  nameFree : e.hasName (wantedName r) = false
  valueFree : e.ValueFree (e.effectiveValue r.value)

theorem add_of_storable {e : Enumeration} {r : Request} (h : Storable e r) :
    e.add r = e.store (e.wanted r) [] := by
  obtain ⟨requested, hr, hne⟩ := h.named
  have hname := wantedName_eq hr
  rw [add_text hr hne h.readable, wanted, hname]
  exact place_of_free (hname ▸ h.nameFree) h.valueFree

/-- Where clashes are refused nothing stands against a request that is granted. -/
theorem storable_of_ok {e : Enumeration} (hstrict : e.autoResolve.isTrue = false) {r : Request}
    {m : Member} (h : (e.add r).result = .ok m) : Storable e r := by
  obtain ⟨-, hadmits, hvalue, -⟩ := store_of_ok h
  obtain ⟨requested, hr, hne, ha⟩ := exists_text_of_ok h
  have hfree : e.ValueFree (e.effectiveValue r.value) := hvalue ▸ hadmits.valueFree
  rw [add_text hr hne ha, place_of_valueFree hfree, if_pos hstrict] at h
  split at h
  · rename_i hn
    exact ⟨⟨requested, hr, hne⟩, ha, (wantedName_eq hr).symm ▸ hn, hfree⟩
  · exact absurd h (by simp [refuse])

/-! ## Lists of requests -/

theorem gives_record {e : Enumeration} {m : Member} {r : Request} :
    (e.record m).Gives r ↔ e.Gives r := by
  rw [Gives, record_isNoValue, record_effectiveValue, Gives]

/-- The values that are kept after one more member is stored. -/
theorem mem_values_record {e : Enumeration} {m : Member} {w : Value} :
    w ∈ (e.record m).values ↔ w ∈ e.values ∨ (e.isKept m.value = true ∧ w = m.value) := by
  unfold record
  cases hv : e.isKept m.value <;> simp

/-- **A first request is acceptable together with others** when nothing stands against it and they
are acceptable where it is stored. -/
theorem accepts_cons_iff {e : Enumeration} {r : Request} {rs : List Request} :
    Accepts e (r :: rs) ↔ Storable e r ∧ Accepts (e.record (e.wanted r)) rs := by
  constructor
  · intro h
    -- what is asked of pairs with the first request is then asked of the member it became
    obtain ⟨hname, hnames⟩ := List.pairwise_cons.mp h.names
    obtain ⟨hvalue, hvalues⟩ := List.pairwise_cons.mp h.values
    refine ⟨⟨h.named r (by simp), h.readable r (by simp), h.nameFree r (by simp), fun hg =>
      ⟨h.hashable r (by simp) hg, h.unused r (by simp) hg⟩⟩,
      ⟨fun s hs => h.named s (List.mem_cons_of_mem _ hs),
        fun s hs => h.readable s (List.mem_cons_of_mem _ hs), hnames, fun s hs hg => ?_, ?_⟩,
      fun s hs => ?_, fun s hs hg w hw => ?_⟩
    · rw [record_effectiveValue]
      exact h.hashable s (List.mem_cons_of_mem _ hs) (gives_record.mp hg)
    · simpa only [gives_record, record_effectiveValue] using hvalues
    · rw [hasName_record, h.nameFree s (List.mem_cons_of_mem _ hs), Bool.false_or]
      exact beq_eq_false_iff_ne.mpr (hname s hs)
    · rw [record_effectiveValue]
      rcases mem_values_record.mp hw with hw | ⟨hkept, rfl⟩
      · exact h.unused s (List.mem_cons_of_mem _ hs) (gives_record.mp hg) w hw
      · exact hvalue s hs (isKept_iff.mp hkept).1 (gives_record.mp hg)
  · rintro ⟨hr, h⟩
    have hfree := hr.valueFree
    refine ⟨⟨?_, ?_, List.pairwise_cons.mpr ⟨fun s hs he => ?_, h.names⟩, ?_,
      List.pairwise_cons.mpr ⟨fun s hs hgr hgs => ?_, ?_⟩⟩, ?_, ?_⟩
    · exact List.forall_mem_cons.mpr ⟨hr.named, h.named⟩
    · exact List.forall_mem_cons.mpr ⟨hr.readable, h.readable⟩
    · have hn := h.nameFree s hs
      rw [hasName_record, Bool.or_eq_false_iff] at hn
      exact beq_eq_false_iff_ne.mp hn.2 he
    · refine List.forall_mem_cons.mpr ⟨fun hg => (hfree hg).1, fun s hs hg => ?_⟩
      have := h.hashable s hs (gives_record.mpr hg)
      rwa [record_effectiveValue] at this
    · have := h.unused s hs (gives_record.mpr hgs) _ (mem_values_record.mpr (Or.inr
        ⟨isKept_iff.mpr ⟨hgr, (hfree hgr).1⟩, rfl⟩))
      rwa [record_effectiveValue] at this
    · simpa only [gives_record, record_effectiveValue] using h.values
    · refine List.forall_mem_cons.mpr ⟨hr.nameFree, fun s hs => ?_⟩
      have hn := h.nameFree s hs
      rw [hasName_record, Bool.or_eq_false_iff] at hn
      exact hn.1
    · refine List.forall_mem_cons.mpr ⟨fun hg => (hfree hg).2, fun s hs hg w hw => ?_⟩
      have := h.unused s hs (gives_record.mpr hg) w (mem_values_record.mpr (Or.inl hw))
      rwa [record_effectiveValue] at this

theorem allGranted_cons {x : Except Fault Member} {results : List (Except Fault Member)} :
    AllGranted (x :: results) ↔ (∃ m, x = .ok m) ∧ AllGranted results :=
  List.forall_mem_cons

/-- **Where clashes are refused, a list is granted in full exactly when it is acceptable.** -/
theorem allGranted_iff {e : Enumeration} (hstrict : e.autoResolve.isTrue = false)
    (rs : List Request) : AllGranted (e.run rs).results ↔ Accepts e rs := by
  induction rs generalizing e with
  | nil =>
    refine ⟨fun _ => ⟨⟨?_, ?_, .nil, ?_, .nil⟩, ?_, ?_⟩, fun _ => List.forall_mem_nil _⟩ <;>
      exact List.forall_mem_nil _
  | cons r rs ih =>
    rw [run, allGranted_cons, accepts_cons_iff]
    constructor
    · rintro ⟨⟨m, hm⟩, hrest⟩
      have hr := storable_of_ok hstrict hm
      rw [add_of_storable hr, store_enumeration] at hrest
      exact ⟨hr, (ih (e := e.record (e.wanted r)) hstrict).mp hrest⟩
    · rintro ⟨hr, hrest⟩
      rw [add_of_storable hr, store_enumeration]
      exact ⟨⟨_, rfl⟩, (ih (e := e.record (e.wanted r)) hstrict).mpr hrest⟩

/-- What an acceptable list comes to: each request is stored as it is. -/
theorem run_of_accepts {e : Enumeration} {rs : List Request} (h : Accepts e rs) :
    e.run rs = ⟨e.fill (rs.map e.wanted),
      rs.map fun r => .added e.name (e.wanted r).name (e.wanted r).value,
      rs.map fun r => .ok (e.wanted r)⟩ := by
  induction rs generalizing e with
  | nil => rfl
  | cons r rs ih =>
    obtain ⟨hr, hrest⟩ := accepts_cons_iff.mp h
    have hwanted : (e.record (e.wanted r)).wanted = e.wanted := by
      funext s
      rw [wanted, record_effectiveValue, wanted]
    rw [run, add_of_storable hr, store_enumeration, ih hrest, hwanted]
    rfl

/-- Only the annotations that are had matter, and not what they are taken from. -/
theorem add_of_asks (e : Enumeration) {r : Request} {x : Entry} (h : r.Asks x) :
    e.add r = e.add x.request := by
  unfold add
  rw [h.name, h.value, h.annotations, h.readable]
  rfl

/-- **Dumps come to the same as the requests that are read off them.** -/
theorem addDumped_result {e f : Enumeration} {dumps : List Value} {rs : List Request}
    (h : List.Forall₂ (fun d r => ∃ x, Entry.ofValue d = .ok x ∧ r.Asks x) dumps rs) :
    (e.addDumped dumps).result = .ok f ↔
      AllGranted (e.run rs).results ∧ (e.run rs).enumeration = f := by
  induction h generalizing e with
  | nil => simp [addDumped, run, AllGranted]
  | @cons d r dumps rs hd _ ih =>
    rw [run, allGranted_cons]
    obtain ⟨x, hx, hr⟩ := hd
    unfold addDumped
    rw [hx]
    dsimp only
    rw [← add_of_asks e hr]
    cases hr : (e.add r).result with
    | error fault => simp
    | ok m => simpa using ih

/-! ## A new enumeration -/

theorem accepts_iff_of_declare {d : Declaration} {e : Enumeration} (h : declare d = .ok e)
    {rs : List Request} : Accepts e rs ↔ Acceptable e rs := by
  obtain ⟨name, rfl⟩ := eq_of_declare h
  exact ⟨fun ha => ha.toAcceptable, fun ha => ⟨ha, fun _ _ => rfl, fun _ _ _ w hw =>
    absurd hw (by simp)⟩⟩

/-- A declaration whose name has a letter is accepted. -/
theorem exists_declare {d : Declaration} {text : String} (hname : d.name.bare = .text text)
    (hletter : ∃ c ∈ text.toList, c.isAlpha = true) : ∃ e, declare d = .ok e := by
  obtain ⟨c, hc, halpha⟩ := hletter
  unfold declare
  rw [hname]
  dsimp only
  rw [if_neg (typeName_ne_empty hc halpha)]
  exact ⟨_, rfl⟩

/-- What a list of requests comes to in the new enumeration `e` of a declaration `d`. -/
structure BatchDecided (d : Declaration) (e : Enumeration) (rs : List Request) : Prop where
  /-- It is granted in full exactly when it is acceptable. -/
  granted : AllGranted (e.run rs).results ↔ Acceptable e rs
  /-- A dump with this declaration and these requests is loaded exactly when they are acceptable,
  and comes to the same enumeration. -/
  loaded : ∀ data dumps, declarationOf data = .ok d →
    data.fieldOr "members" (.list []) >>= Value.items = .ok dumps →
    List.Forall₂ (fun d r => ∃ x, Entry.ofValue d = .ok x ∧ r.Asks x) dumps rs →
    ∀ f, (ofValue data).result = .ok f ↔ Acceptable e rs ∧ (e.run rs).enumeration = f
  /-- Whether it is granted in full does not depend on the order. -/
  reordered : ∀ ss, rs.Perm ss →
    (AllGranted (e.run ss).results ↔ AllGranted (e.run rs).results)
  /-- Neither does what each request is stored as. -/
  stored : AllGranted (e.run rs).results → ∀ ss, rs.Perm ss →
    (e.run ss).results = ss.map (fun r => .ok (e.wanted r))
      ∧ (e.run ss).enumeration.members = ss.map e.wanted

/--
**A list of requests is granted for what it is, and not for its order.** A declaration whose name
has a letter, and that has clashes refused, makes an enumeration that grants a list of requests in
full, made one by one or loaded from a dump, exactly when each is for a name, with annotations that
can be had, and no two of them clash.
-/
theorem batch_decided {d : Declaration} {text : String} (hname : d.name.bare = .text text)
    (hletter : ∃ c ∈ text.toList, c.isAlpha = true) (hstrict : d.autoResolve.isTrue = false)
    (rs : List Request) : ∃ e, declare d = .ok e ∧ BatchDecided d e rs := by
  obtain ⟨e, he⟩ := exists_declare hname hletter
  obtain ⟨name, hfields⟩ := eq_of_declare he
  have hgranted : ∀ ss, AllGranted (e.run ss).results ↔ Acceptable e ss := fun ss =>
    (allGranted_iff (by rw [hfields]; exact hstrict) ss).trans (accepts_iff_of_declare he)
  have hperm : ∀ ss, rs.Perm ss → (Acceptable e ss ↔ Acceptable e rs) := fun ss hp =>
    ⟨acceptable_perm hp.symm, acceptable_perm hp⟩
  refine ⟨e, he, hgranted rs, ?_, ?_, ?_⟩
  · intro data dumps hdata hmembers hdumps f
    have hopening : opening data = .ok (d, e) :=
      bind_eq_ok_iff.mpr ⟨d, hdata, bind_eq_ok_iff.mpr ⟨e, he, rfl⟩⟩
    unfold ofValue
    rw [hopening]
    dsimp only
    rw [hmembers]
    dsimp only
    rw [addDumped_result hdumps, hgranted rs]
  · intro ss hp
    rw [hgranted, hgranted, hperm ss hp]
  · intro hall ss hp
    have hss := (accepts_iff_of_declare he).mpr ((hperm ss hp).mpr ((hgranted rs).mp hall))
    have hnone : e.members = [] := by rw [hfields]
    rw [run_of_accepts hss]
    refine ⟨rfl, ?_⟩
    rw [(fill_unchanged e _).1, hnone, List.nil_append]

/-- Clashes are refused, and zero means that there is no value. -/
def plain : Declaration := ⟨.text "2 Colors", .text "", .bool false, .int 0, .null⟩

/-- The enumeration of that declaration. -/
def colors : Enumeration := ⟨"Colors", .text "", .int 0, .bool false, .null, [], [], []⟩

theorem declare_plain : declare plain = .ok colors := by cbv

/-- Two members without a value of their own, and two values that look like one. -/
def plainRequests : List Request := [⟨.text "Red", .null, .none⟩, ⟨.text "1st", .int 1, .none⟩,
  ⟨.text "One", .text "1", .none⟩, ⟨.text "Light Red", .bool false, .none⟩]

theorem batch_decided_plain : ∃ e, declare plain = .ok e ∧ BatchDecided plain e plainRequests ∧
    AllGranted (e.run plainRequests).results ∧
    (e.run plainRequests.reverse).enumeration.memberNames
      = ["Light_Red", "One", "_1st", "Red"] := by
  obtain ⟨e, he, hbatch⟩ := batch_decided (d := plain) rfl ⟨'C', by decide, by decide⟩ rfl
    plainRequests
  obtain rfl : colors = e := Except.ok.inj (declare_plain.symm.trans he)
  have hok : Acceptable colors plainRequests := by
    refine ⟨fun r hr => ?_, by simp [plainRequests, Annotations.fault?],
      of_decide_eq_true (by cbv), of_decide_eq_true (by cbv), of_decide_eq_true (by cbv)⟩
    simp only [plainRequests, List.mem_cons, List.not_mem_nil, or_false] at hr
    rcases hr with rfl | rfl | rfl | rfl <;> exact ⟨_, rfl, by decide⟩
  have hall := hbatch.granted.mpr hok
  obtain ⟨-, hmembers⟩ := hbatch.stored hall _ plainRequests.reverse_perm.symm
  refine ⟨_, he, hbatch, hall, ?_⟩
  rw [memberNames, hmembers]
  cbv

/--
That values are unequal is not enough. The same not-a-number stands in two requests, and the second
of them is refused.
-/
theorem refused_of_unequal_values : ∃ e rs, declare plain = .ok e ∧ (∀ r ∈ rs, Named r) ∧
    rs.Pairwise (fun r s => wantedName r ≠ wantedName s) ∧
    (∀ r ∈ rs, e.Gives r ∧ (e.effectiveValue r.value).isHashable = true) ∧
    rs.Pairwise (fun r s => (e.effectiveValue r.value).eqv (e.effectiveValue s.value) = false) ∧
    ¬ AllGranted (e.run rs).results := by
  refine ⟨colors, [⟨.text "A", .marked .constant (.float .nan), .none⟩,
    ⟨.text "B", .marked .constant (.float .nan), .none⟩], declare_plain, ?_,
    of_decide_eq_true (by cbv),
    of_decide_eq_true (by cbv), of_decide_eq_true (by cbv), fun hall => ?_⟩
  · intro r hr
    simp only [List.mem_cons, List.not_mem_nil, or_false] at hr
    rcases hr with rfl | rfl <;> exact ⟨_, rfl, by decide⟩
  · obtain ⟨m, hm⟩ := hall (.error (.conflict ⟨"B", .marked .constant (.float .nan), false, true⟩))
      (List.mem_cons_of_mem _ (List.mem_singleton.mpr (by cbv)))
    exact absurd hm (by simp)

end EnumDecl.Enumeration
