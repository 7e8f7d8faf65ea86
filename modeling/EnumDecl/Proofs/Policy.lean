import EnumDecl.Proofs.Batch
import EnumDecl.Proofs.Deciding

/-!
# Settling names extends refusing them

Two enumerations that differ in what is done about clashes are the same as long as there are none.
At the first clash that the one refuses, the other refuses it as well if values clash, and
otherwise stores the member under a name that no member had, unless the cap on renames is met
before (`policies_agree`).

The members of an enumeration that settles names are members that could have been asked for without
any clash (`accepts_members`). Put to a new enumeration in their order, under the names they got,
they are stored as they are.
-/

namespace EnumDecl.Enumeration

open Identifier

/-! ## Searching -/

/-- A search through names that are all taken ends at the last of them. -/
theorem search_of_taken {taken : String → Bool} {name : String} (hm : IsMember name) {limit : Nat}
    (hc : limit = 0 ∨ Countable name limit)
    (htaken : ∀ j, j ≤ limit → taken (following^[j] name) = true) :
    (search taken limit name).final = .exhausted (following^[limit] name) := by
  induction limit generalizing name with
  | zero =>
    have h0 : taken name = true := htaken 0 (Nat.le_refl 0)
    unfold search
    rw [h0]
    rfl
  | succ limit ih =>
    have hcount : Countable name (limit + 1) := hc.resolve_left (Nat.succ_ne_zero limit)
    have h0 : taken name = true := htaken 0 (Nat.zero_le _)
    unfold search
    rw [h0]
    dsimp only
    rw [renamed_eq hm (hcount.mono (Nat.succ_le_succ (Nat.zero_le limit)))]
    exact ih hm.following (Or.inr (Countable.following hm hcount))
      fun j hj => htaken (j + 1) (Nat.succ_le_succ hj)

/-- The numbers of the names that are tried in place of a taken one stay within the digit limit. -/
def Renamable (e : Enumeration) (name : String) : Prop :=
  ∀ limit k, e.renameLimit = .ok limit → k < limit →
    (∀ j, j ≤ k → following^[j] name ∈ e.memberNames) → Countable name (k + 1)

/-- A cap on renames: none at all, or a number. -/
def IsCap (v : Value) : Prop :=
  match v.bare with
  | .null | .bool _ | .int _ | .float _ => True
  | _ => False

theorem exists_renameLimit {e : Enumeration} (h : IsCap e.attemptCap) :
    ∃ limit, e.renameLimit = .ok limit := by
  unfold IsCap at h
  unfold renameLimit
  split at h
  case h_5 => exact h.elim
  all_goals simp_all
  split <;> simp

/-- A cap that can be shown when it is met, which is any but an integer so far below zero that its
text is past the digit limit. -/
def IsShown (cap : Value) : Prop :=
  ∀ i, cap.bare = .int i → -((10 ^ Decimal.digitLimit : Nat) : Int) < i

/-- A cap that is met is no greater than the number of the last name, and so it has a text. -/
theorem isWritable_of_met {e : Enumeration} (h : IsCap e.attemptCap) (hs : IsShown e.attemptCap)
    {limit : Nat} (hlimit : e.renameLimit = .ok limit)
    (hwithin : limit < 10 ^ Decimal.digitLimit) : e.attemptCap.isWritable = true := by
  rw [← Value.isWritable_bare]
  unfold IsCap at h
  unfold renameLimit at hlimit
  cases hcap : e.attemptCap.bare with
  | int i =>
    have hlow := hs i hcap
    rw [hcap] at hlimit
    obtain rfl : i.toNat = limit := Except.ok.inj hlimit
    rw [Value.isWritable, Decimal.isWritable_iff]
    omega
  | null => rfl
  | bool b => rfl
  | float x => rfl
  | _ =>
    rw [hcap] at h
    exact h.elim

/-- What is reported of the names that were given up. -/
def renames (e : Enumeration) (limit : Nat) (name : String) : List Event :=
  (search e.hasName limit name).renames.map fun r => Event.renamed e.name r.1 r.2

/-- What settling a name comes to. -/
inductive Settlement (e : Enumeration) (m : Member) : Prop
  | /-- The member is put into the list under a name that no member had. -/
    enlisted (limit : Nat) (name : String) (fresh : name ∉ e.memberNames)
      (h : e.settle m = e.enlist { m with name := name } (e.renames limit m.name))
  | /-- There is a cap, and it is met at a last name after ones that are all taken. -/
    exhausted (limit : Nat) (hlimit : e.renameLimit = .ok limit)
      (capped : e.attemptCap.bare ≠ .null)
      (taken : ∀ j, j ≤ limit → following^[j] m.name ∈ e.memberNames)
      (within : limit < 10 ^ Decimal.digitLimit)
      (h : e.settle m
        = ⟨e, e.renames limit m.name, .error (Fault.showing e.attemptCap (.attemptsExhausted
        ⟨following^[limit] m.name, m.value, true, false⟩ m.name e.attemptCap))⟩)

/-- **A taken name is settled, or the cap is met.** -/
theorem settlement {e : Enumeration} (hi : Indexed e) {m : Member} (hm : IsMember m.name)
    (hcap : IsCap e.attemptCap) (hn : e.hasName m.name = true) (hr : Renamable e m.name) :
    Settlement e m := by
  obtain ⟨limit, hlimit⟩ := exists_renameLimit hcap
  have htaken : ∀ {k}, (∀ j, j ≤ k → following^[j] m.name ∈ e.memberNames) →
      ∀ j, j ≤ k → e.hasName (following^[j] m.name) = true :=
    fun h j hj => (hasName_iff hi _).mpr (h j hj)
  obtain ⟨k, hk, hfree, hbefore⟩ := exists_first_free hm e.memberNames
  -- the name asked for is taken itself
  have hpos : k ≠ 0 := by
    rintro rfl
    exact hfree ((hasName_iff hi _).mp hn)
  obtain ⟨k, rfl⟩ : ∃ l, k = l + 1 := ⟨k - 1, by omega⟩
  have hbelow : ∀ l, l ≤ k → ∀ j, j ≤ l → following^[j] m.name ∈ e.memberNames :=
    fun l hl j hj => hbefore j (by omega)
  by_cases hle : k + 1 ≤ limit
  · have hsearch :=
      search_of_first_free hm (hr limit k hlimit (by omega) (hbelow k (Nat.le_refl k)))
      hle (fun j hj => htaken (hbelow k (Nat.le_refl k)) j (by omega))
      ((hasName_eq_false_iff hi _).mpr hfree)
    refine .enlisted limit (following^[k + 1] m.name) hfree ?_
    unfold settle renames
    rw [hlimit]
    dsimp only
    rw [hsearch]
  · have hlast : limit ≤ k := by omega
    have hcount : limit = 0 ∨ Countable m.name limit := by
      cases limit with
      | zero => exact Or.inl rfl
      | succ l => exact Or.inr (hr _ l hlimit (by omega) (hbelow l (by omega)))
    have hsearch := search_of_taken hm hcount (htaken (hbelow limit hlast))
    refine .exhausted limit hlimit (fun hnull => ?_) (hbelow limit hlast) ?_ ?_
    · -- without a cap as many names are tried as there are members
      have hall : limit = e.members.length := by
        rw [renameLimit, hnull] at hlimit
        exact (Except.ok.inj hlimit).symm
      rw [memberNames, List.length_map] at hk
      omega
    · rcases hcount with rfl | hcount
      · exact Nat.one_le_pow _ _ (by decide)
      · exact Nat.lt_of_le_of_lt (Nat.le_add_left limit _) hcount.writable
    · unfold settle renames
      rw [hlimit]
      dsimp only
      rw [hsearch]

/-! ## Two policies side by side -/

/-- The enumeration with another policy and another cap. -/
def withPolicy (e : Enumeration) (policy cap : Value) : Enumeration :=
  { e with autoResolve := policy, attemptCap := cap }

theorem declare_withPolicy {d : Declaration} {e : Enumeration} (h : declare d = .ok e)
    (policy cap : Value) :
    declare { d with autoResolve := policy, attemptCap := cap }
      = .ok (e.withPolicy policy cap) := by
  unfold declare at h ⊢
  dsimp only at h ⊢
  split at h
  · split at h
    · exact absurd h (by simp)
    · rename_i hne
      cases h
      rw [if_neg hne]
      rfl
  · exact absurd h (by simp)

/-- No request is refused because of a clash. -/
def Unclashed (results : List (Except Fault Member)) : Prop := ∀ c, .error (.conflict c) ∉ results

/-- The same outcome in an enumeration with another policy. -/
def Addition.withPolicy (a : Addition) (policy cap : Value) : Addition :=
  ⟨a.enumeration.withPolicy policy cap, a.events, a.result⟩

theorem enlist_withPolicy (e : Enumeration) (policy cap : Value) (m : Member)
    (before : List Event) :
    (e.withPolicy policy cap).enlist m before = (e.enlist m before).withPolicy policy cap := by
  unfold enlist
  rw [show (e.withPolicy policy cap).isNoValue m.value = e.isNoValue m.value from rfl]
  split
  · rfl
  · split <;> rfl

theorem valueTaken_withPolicy (e : Enumeration) (policy cap v : Value) :
    (e.withPolicy policy cap).valueTaken v = e.valueTaken v := rfl

/-- The policy makes no difference to a member that is not refused because of a clash. -/
theorem place_withPolicy (policy cap : Value) {e : Enumeration}
    (hstrict : e.autoResolve.isTrue = false) {m : Member} (hw : m.value.isWritable = true)
    (h : ∀ c, (e.place m).result ≠ .error (.conflict c)) :
    (e.withPolicy policy cap).place m = (e.place m).withPolicy policy cap := by
  cases hv : e.valueTaken m.value with
  | error fault =>
    unfold place
    rw [valueTaken_withPolicy, hv]
    rfl
  | ok taken =>
    by_cases hfree : e.hasName m.name = false ∧ taken = false
    · rw [place_of_valueTaken hv, if_pos hfree,
        place_of_valueTaken ((valueTaken_withPolicy e policy cap m.value).trans hv)]
      exact (if_pos hfree).trans (enlist_withPolicy e policy cap m [])
    · -- the one would refuse it because of the clash
      have hclash := place_of_clash hstrict hv hfree
      exact absurd
        ((congrArg Addition.result hclash).trans (congrArg Except.error (if_pos hw))) (h _)

/-- **The policy makes no difference to a request that is not refused because of a clash.** -/
theorem add_withPolicy (policy cap : Value) {e : Enumeration}
    (hstrict : e.autoResolve.isTrue = false)
    {r : Request} (hw : (e.effectiveValue r.value).isWritable = true)
    (h : ∀ c, (e.add r).result ≠ .error (.conflict c)) :
    (e.withPolicy policy cap).add r = (e.add r).withPolicy policy cap := by
  unfold add at h ⊢
  split
  · rename_i requested hr
    rw [hr] at h
    dsimp only at h ⊢
    split
    · rfl
    · rename_i hne
      rw [if_neg hne] at h
      split
      · rfl
      · rename_i ha
        rw [ha] at h
        exact place_withPolicy policy cap hstrict hw h
  · rfl

theorem autoResolve_add (e : Enumeration) (r : Request) :
    (e.add r).enumeration.autoResolve = e.autoResolve := (add_unchanged e r).2.2.2.1

theorem effectiveValue_add (e : Enumeration) (r : Request) (v : Value) :
    (e.add r).enumeration.effectiveValue v = e.effectiveValue v := by
  cases v with
  | null => exact (add_unchanged e r).2.2.1
  | _ => rfl

/-- **Nor does it to a list of requests of which none is refused because of a clash.** -/
theorem run_withPolicy (policy cap : Value) {e : Enumeration}
    (hstrict : e.autoResolve.isTrue = false) {rs : List Request}
    (hw : ∀ r ∈ rs, (e.effectiveValue r.value).isWritable = true)
    (h : Unclashed (e.run rs).results) :
    (e.withPolicy policy cap).run rs = ⟨(e.run rs).enumeration.withPolicy policy cap,
      (e.run rs).events, (e.run rs).results⟩ := by
  induction rs generalizing e with
  | nil => rfl
  | cons r rs ih =>
    have hr := add_withPolicy policy cap hstrict (hw r (by simp))
      fun c hc => h c (by rw [run, hc]; exact List.mem_cons_self)
    have hrest := ih (e := (e.add r).enumeration) (by rw [autoResolve_add]; exact hstrict)
      (fun s hs => by rw [effectiveValue_add]; exact hw s (List.mem_cons_of_mem _ hs))
      fun c hc => h c (List.mem_cons_of_mem _ hc)
    rw [run, hr]
    dsimp only [Addition.withPolicy]
    rw [hrest]
    rfl

/-! ## The first clash -/

theorem valueTaken_error {e : Enumeration} {v : Value} {fault : Fault}
    (h : e.valueTaken v = .error fault) : ∃ kind, fault = .unhashable kind := by
  unfold valueTaken at h
  split at h
  · exact absurd h (by simp)
  · split at h
    · exact absurd h (by simp)
    · split at h
      · exact ⟨_, (Except.error.inj h).symm⟩
      · exact absurd h (by simp)

theorem fault?_ne_conflict (as : Annotations) (c : Clash) : as.fault? ≠ some (.conflict c) := by
  cases as <;> simp [Annotations.fault?]

theorem enlist_ne_conflict (e : Enumeration) (m : Member) (before : List Event) (c : Clash) :
    (e.enlist m before).result ≠ .error (.conflict c) := by
  unfold enlist
  split
  · simp
  · split <;> simp

/-- What is known of a request that is refused because of a clash. -/
structure Clashed (e : Enumeration) (r : Request) (c : Clash) : Prop where
  named : ∃ requested, r.name.bare = .text requested ∧ requested ≠ ""
    ∧ c.name = memberName requested
  readable : r.annotations.fault? = none
  value : c.value = e.effectiveValue r.value
  nameTaken : c.nameTaken = e.hasName c.name
  valueTaken : e.valueTaken c.value = .ok c.valueTaken
  /-- At least one of them is. -/
  taken : ¬ (c.nameTaken = false ∧ c.valueTaken = false)

theorem clashed_of_conflict {e : Enumeration} (hstrict : e.autoResolve.isTrue = false)
    {r : Request} {c : Clash} (h : (e.add r).result = .error (.conflict c)) : Clashed e r c := by
  unfold add at h
  split at h
  · rename_i requested hr
    dsimp only at h
    split at h
    · exact absurd h (by simp [refuse])
    · rename_i hne
      have hrequested : requested ≠ "" := fun he => hne (memberName_eq_empty_iff.mpr he)
      split at h
      · rename_i fault ha
        obtain rfl : fault = .conflict c := Except.error.inj h
        exact absurd ha (fault?_ne_conflict r.annotations c)
      · rename_i ha
        cases hv : e.valueTaken (e.effectiveValue r.value) with
        | error fault =>
          obtain ⟨kind, rfl⟩ := valueTaken_error hv
          rw [place, hv] at h
          exact absurd h (by simp [refuse])
        | ok taken =>
          by_cases hfree : e.hasName (memberName requested) = false ∧ taken = false
          · rw [place_of_valueTaken hv, if_pos hfree] at h
            exact absurd h (enlist_ne_conflict _ _ _ c)
          · rw [place_of_clash hstrict hv hfree] at h
            -- a clash that has no text is refused for that and not as a clash
            have hfault := Except.error.inj h
            unfold Fault.showing at hfault
            split at hfault
            · obtain rfl := Fault.conflict.inj hfault
              exact ⟨⟨requested, hr, hrequested, rfl⟩, ha, rfl, rfl, hv, hfree⟩
            · exact absurd hfault (by simp)
  · exact absurd h (by simp [refuse])

/-- What settling names makes of a request that is refused with the clash `c` where they are
not. -/
structure Diverges (e : Enumeration) (r : Request) (c : Clash) : Prop where
  /-- No other name frees a value: the same clash is refused. -/
  refused : c.valueTaken = true → e.add r = e.refuse (.valueConflict c)
  /-- A name that is taken is settled, or there is a cap and it is met. -/
  settled : c.valueTaken = false → ¬ e.GivesSet r → IsShown e.attemptCap →
    (∃ m evs, e.add r = e.store m evs ∧ m.value = e.effectiveValue r.value
      ∧ m.annotations = r.annotations.toList ∧ m.name ≠ c.name ∧ m.name ∉ e.memberNames) ∨
    ∃ limit evs, e.renameLimit = .ok limit ∧ e.attemptCap.bare ≠ .null
      ∧ (∀ j, j ≤ limit → following^[j] c.name ∈ e.memberNames)
      ∧ e.add r = ⟨e, evs, .error (.attemptsExhausted
        ⟨following^[limit] c.name, c.value, true, false⟩ c.name e.attemptCap)⟩

/-- Where names are settled, a clash of values is refused, and one of names alone is settled. -/
theorem Clashed.add_withPolicy {e : Enumeration} {r : Request} {c : Clash} (h : Clashed e r c)
    {policy : Value} (hauto : policy.isTrue = true) (cap : Value) :
    (e.withPolicy policy cap).add r =
      if c.valueTaken = true then
        (e.withPolicy policy cap).refuse (Fault.showing c.value (.valueConflict c))
      else (e.withPolicy policy cap).settle ⟨c.name, c.value, r.annotations.toList⟩ := by
  obtain ⟨requested, hname, hne, hcn⟩ := h.named
  have hadd : (e.withPolicy policy cap).add r
      = (e.withPolicy policy cap).place ⟨c.name, c.value, r.annotations.toList⟩ := by
    rw [hcn, h.value]
    exact add_text hname hne h.readable
  have hclash : c = ⟨c.name, c.value, (e.withPolicy policy cap).hasName c.name, c.valueTaken⟩ :=
    congrArg (fun t => Clash.mk c.name c.value t c.valueTaken) h.nameTaken
  have hnot : ¬ ((e.withPolicy policy cap).hasName c.name = false ∧ c.valueTaken = false) := by
    have htaken := h.taken
    rwa [h.nameTaken] at htaken
  have hplace := place_of_valueTaken (e := e.withPolicy policy cap)
    (m := ⟨c.name, c.value, r.annotations.toList⟩) h.valueTaken
  rw [if_neg hnot, if_neg (by simp [withPolicy, hauto]), ← hclash] at hplace
  exact hadd.trans hplace

/-- **At a clash the policies part**, but only as they have to. -/
theorem diverges {policy cap : Value} {e f : Enumeration} (hi : Indexed f)
    (hstrict : e.autoResolve.isTrue = false) (hauto : policy.isTrue = true) (hcap : IsCap cap)
    (hf : f = e.withPolicy policy cap) {r : Request}
    (hw : (e.effectiveValue r.value).isWritable = true) {c : Clash}
    (h : (e.add r).result = .error (.conflict c)) (hr : Renamable f c.name) : Diverges f r c := by
  subst hf
  have hc := clashed_of_conflict hstrict h
  have hadd := hc.add_withPolicy hauto cap
  constructor
  · intro hv
    have hwrite : c.value.isWritable = true := hc.value ▸ hw
    rw [hadd, if_pos hv, Fault.showing, if_pos hwrite]
  · intro hv hset hshown
    -- the value is free, so the name is what clashes
    have htaken : (e.withPolicy policy cap).hasName c.name = true := by
      cases hn : (e.withPolicy policy cap).hasName c.name with
      | true => rfl
      | false => exact absurd ⟨hc.nameTaken.trans hn, hv⟩ hc.taken
    have hvalue : (e.withPolicy policy cap).ValueFree c.value :=
      (valueFree_or_isSet (hv ▸ hc.valueTaken)).resolve_right fun hboth =>
        hset (by rw [hc.value] at hboth; exact hboth)
    have hm : IsMember c.name := by
      obtain ⟨requested, -, hne, hcn⟩ := hc.named
      exact hcn ▸ isMember_memberName hne
    rw [hadd, if_neg (by simp [hv])]
    cases settlement hi (m := ⟨c.name, c.value, r.annotations.toList⟩) hm hcap htaken hr with
    | enlisted limit name fresh h =>
      have hne : name ≠ c.name := fun he => fresh (he ▸ (hasName_iff hi _).mp htaken)
      rw [enlist_of_valueFree (m := ⟨name, c.value, r.annotations.toList⟩) hvalue] at h
      exact Or.inl ⟨_, _, h, hc.value, rfl, hne, fresh⟩
    | exhausted limit hlimit capped taken within h =>
      rw [Fault.showing, if_pos (isWritable_of_met hcap hshown hlimit within)] at h
      exact Or.inr ⟨limit, _, hlimit, capped, taken, h⟩

/-! ## Members as requests -/

theorem wanted_request {e h : Enumeration} (hs : Sound e) (hno : h.noValue = e.noValue)
    {m : Member} (hm : m ∈ e.members) : h.wanted m.request = m := by
  have hname : wantedName m.request = m.name := (hs.names m hm).memberName_eq
  have hvalue : h.effectiveValue m.value = m.value :=
    effectiveValue_eq_self fun hnull => hno.trans (hs.nulls m hm hnull)
  show (⟨wantedName m.request, h.effectiveValue m.value, m.annotations⟩ : Member) = m
  rw [hname, hvalue]

/-- **The members of an enumeration are accepted by a new one**, whatever its policy, if all values
are kept. -/
theorem accepts_members {e : Enumeration} (hs : Sound e) (hh : ValuesHashable e) {k : Declaration}
    {h : Enumeration} (hk : declare k = .ok h) (hno : h.noValue = e.noValue) :
    Accepts h (e.members.map Member.request) := by
  have hwanted : ∀ m ∈ e.members, wantedName m.request = m.name
      ∧ h.effectiveValue m.request.value = m.value := fun m hm =>
    ⟨congrArg Member.name (wanted_request hs hno hm),
      congrArg Member.value (wanted_request hs hno hm)⟩
  have hgives : ∀ m ∈ e.members, h.Gives m.request ↔ e.isNoValue m.value = false := by
    intro m hm
    rw [Gives, (hwanted m hm).2, isNoValue, isNoValue, hno]
  rw [accepts_iff_of_declare hk]
  refine ⟨?_, ?_, List.pairwise_map.mpr ?_, ?_, List.pairwise_map.mpr ?_⟩
  · exact List.forall_mem_map.mpr fun m hm => ⟨m.name, rfl, (hs.names m hm).nonempty⟩
  · exact List.forall_mem_map.mpr fun m _ => rfl
  · refine hs.distinct.imp_of_mem fun {m n} hm hn hne => ?_
    rwa [(hwanted m hm).1, (hwanted n hn).1]
  · refine List.forall_mem_map.mpr fun m hm hg => ?_
    rw [(hwanted m hm).2]
    exact hh m hm ((hgives m hm).mp hg)
  · refine hs.values.imp_of_mem fun {m n} hm hn hne hgm hgn => ?_
    rw [(hwanted m hm).2, (hwanted n hn).2]
    have hkept : ∀ {m}, m ∈ e.members → h.Gives m.request → e.isKept m.value = true :=
      fun hm hg => isKept_iff.mpr ⟨(hgives _ hm).mp hg, hh _ hm ((hgives _ hm).mp hg)⟩
    exact hne (hkept hm hgm) (hkept hn hgn)

/-- Asked for again in a new enumeration, members are stored as they are, and no name is given
up. -/
theorem run_members {e : Enumeration} (hs : Sound e) (hh : ValuesHashable e) {k : Declaration}
    {h : Enumeration} (hk : declare k = .ok h) (hno : h.noValue = e.noValue) :
    (h.run (e.members.map Member.request)).results = e.members.map .ok
      ∧ (h.run (e.members.map Member.request)).events
        = e.members.map (fun m => .added h.name m.name m.value)
      ∧ (h.run (e.members.map Member.request)).enumeration.members = e.members := by
  have hwanted : ∀ m ∈ e.members, h.wanted m.request = m := fun m hm => wanted_request hs hno hm
  obtain ⟨name, hfields⟩ := eq_of_declare hk
  have hnone : h.members = [] := by rw [hfields]
  rw [run_of_accepts (accepts_members hs hh hk hno)]
  dsimp only
  rw [(fill_unchanged h _).1, hnone, List.nil_append, List.map_map, List.map_map, List.map_map]
  refine ⟨List.map_congr_left fun m hm => congrArg Except.ok (hwanted m hm),
    List.map_congr_left fun m hm => ?_, ?_⟩
  · rw [Function.comp_apply, hwanted m hm]
  · exact (List.map_congr_left hwanted).trans (List.map_id _)

/-! ## All of it -/

/-- The enumeration `f` settles names and the enumeration `e` refuses them, and otherwise they are
the same. The texts of the values asked for are within the digit limit. -/
structure Extends (e f : Enumeration) : Prop where
  /-- As long as nothing is refused because of a clash, both do the same. -/
  agree : ∀ rs, (∀ r ∈ rs, (e.effectiveValue r.value).isWritable = true) →
    Unclashed (e.run rs).results →
      (f.run rs).results = (e.run rs).results ∧ (f.run rs).events = (e.run rs).events
        ∧ (f.run rs).enumeration.members = (e.run rs).enumeration.members
  /-- What happens at the first clash. -/
  diverge : ∀ rs, (∀ r ∈ rs, (e.effectiveValue r.value).isWritable = true) →
    Unclashed (e.run rs).results → ∀ r c, (e.effectiveValue r.value).isWritable = true →
      ((e.run rs).enumeration.add r).result = .error (.conflict c) →
      Renamable (f.run rs).enumeration c.name → Diverges (f.run rs).enumeration r c

/--
**Settling names is a conservative extension of refusing them.** A declaration is made with either
policy, any cap going with the one that settles names. As long as there is no clash both
enumerations come to the same; at the first one they part only as far as a name can be settled. And
the members of any enumeration, however their names were settled, are accepted as they are by a new
one in which the same value means that there is none, if their values are kept.
-/
theorem policies_agree {d : Declaration} {e : Enumeration} (he : declare d = .ok e)
    {policy cap : Value} (hstrict : d.autoResolve.isTrue = false) (hauto : policy.isTrue = true)
    (hcap : IsCap cap) :
    (∃ f, declare { d with autoResolve := policy, attemptCap := cap } = .ok f ∧ Extends e f) ∧
    ∀ g, Reachable g → ValuesHashable g → ∀ k h, declare k = .ok h → k.noValue = g.noValue →
      (h.run (g.members.map Member.request)).results = g.members.map .ok
        ∧ (h.run (g.members.map Member.request)).events
          = g.members.map (fun m => .added h.name m.name m.value)
        ∧ (h.run (g.members.map Member.request)).enumeration.members = g.members := by
  constructor
  · have hdeclare := declare_withPolicy he policy cap
    have hstrict' : e.autoResolve.isTrue = false := by
      obtain ⟨name, rfl⟩ := eq_of_declare he
      exact hstrict
    refine ⟨_, hdeclare, fun rs hw hnone => ?_, fun rs hw hnone r c hwr hclash hr => ?_⟩
    · rw [run_withPolicy policy cap hstrict' hw hnone]
      exact ⟨rfl, rfl, rfl⟩
    · have hrun := congrArg Run.enumeration
        (run_withPolicy policy cap hstrict' hw hnone)
      obtain ⟨-, -, hno, hpolicy, -⟩ := run_unchanged e rs
      have heffective : (e.run rs).enumeration.effectiveValue r.value
        = e.effectiveValue r.value := by
        cases r.value with
        | null => exact hno
        | _ => rfl
      exact diverges (sound_reachable (reachable_run (.declared hdeclare) rs)).indexed
        (by rw [hpolicy]; exact hstrict') hauto hcap hrun (by rw [heffective]; exact hwr) hclash hr
  · intro g hg hh k h hk hno
    have hs := sound_reachable hg
    obtain ⟨name, hfields⟩ := eq_of_declare hk
    refine run_members hs hh hk ?_
    rw [hfields, hno]
    exact hs.declared.marked

/-- A request that is granted, one for a list, which is no value of a member, and one more. -/
def quietRequests : List Request := [⟨.text "Red", .int 1, .none⟩, ⟨.text "All", .list [], .none⟩,
  ⟨.text "Blue", .int 2, .none⟩]

/-- What they come to where clashes are refused. -/
def afterQuiet : Enumeration := ⟨"Colors", .text "", .int 0, .bool false, .null,
  [⟨"Red", .int 1, []⟩, ⟨"Blue", .int 2, []⟩],
  [("Red", ⟨"Red", .int 1, []⟩), ("Blue", ⟨"Blue", .int 2, []⟩)], [.int 1, .int 2]⟩

/-- One name may be given up for a member; the next request for `Red` is the first that clashes. -/
theorem policies_agree_plain : ∃ e f, declare plain = .ok e ∧
    declare { plain with autoResolve := .bool true, attemptCap := .int 1 } = .ok f ∧
    (f.run quietRequests).results = (e.run quietRequests).results ∧
    Diverges (f.run quietRequests).enumeration ⟨.text "Red", .int 3, .none⟩
      ⟨"Red", .int 3, true, false⟩ ∧
    (f.run (quietRequests ++ [⟨.text "Red", .int 3, .none⟩])).enumeration.memberNames
      = ["Red", "Blue", "Red_1"] := by
  have hcap : IsCap (.int 1) := trivial
  obtain ⟨⟨f, hf, hextends⟩, -⟩ := policies_agree declare_plain rfl
    (show (Value.bool true).isTrue = true from rfl) hcap
  obtain rfl : _ = f := Except.ok.inj ((declare_withPolicy declare_plain _ _).symm.trans hf)
  have hw : ∀ r ∈ quietRequests, (colors.effectiveValue r.value).isWritable = true := by
    intro r hr
    simp only [quietRequests, List.mem_cons, List.not_mem_nil, or_false] at hr
    rcases hr with rfl | rfl | rfl
    · exact Decimal.isWritable_of_lt_ten (by decide)
    · rfl
    · exact Decimal.isWritable_of_lt_ten (by decide)
  have hrun : colors.run quietRequests = ⟨afterQuiet,
      [.added "Colors" "Red" (.int 1), .added "Colors" "Blue" (.int 2)],
      [.ok ⟨"Red", .int 1, []⟩, .error (.unhashable .list), .ok ⟨"Blue", .int 2, []⟩]⟩ := by cbv
  have hnone : Unclashed (colors.run quietRequests).results := by
    intro c hc
    rw [hrun] at hc
    simp at hc
  obtain ⟨hresults, -, -⟩ := hextends.agree quietRequests hw hnone
  have hthree : (Value.int 3).isWritable = true := Decimal.isWritable_of_lt_ten (by decide)
  refine ⟨_, _, declare_plain, hf, hresults,
    hextends.diverge quietRequests hw hnone _ _ hthree ?_ ?_, by cbv⟩
  · rw [hrun, add_text rfl (by decide) rfl, show memberName "Red" = "Red" by cbv]
    have hclash := place_of_clash (e := afterQuiet) (m := ⟨"Red", .int 3, []⟩) rfl
      (show afterQuiet.valueTaken (.int 3) = .ok false by cbv) (by decide)
    exact (congrArg Addition.result hclash).trans (congrArg Except.error (if_pos hthree))
  · -- the cap is one, so only the name that was asked for is counted up
    intro limit k hlimit hk _
    have hcap : (1 : Nat) = limit := Except.ok.inj (Eq.trans (by cbv) hlimit)
    obtain rfl : k = 0 := by omega
    have hpow : 10 ^ 1 ≤ 10 ^ Decimal.digitLimit := Nat.pow_le_pow_right (by omega) (by decide)
    have hlen : (suffixDigits "Red".toList).length = 0 := by cbv
    have hnum : suffixNumber "Red".toList = 0 := by cbv
    exact ⟨by rw [hlen]; exact Nat.zero_le _, by rw [hnum]; omega⟩

/-- The declaration with clashes of names settled. -/
def settling (cap : Value) : Declaration :=
  { plain with autoResolve := .bool true, attemptCap := cap }

/-- The enumeration of that declaration. -/
def settlingColors (cap : Value) : Enumeration := colors.withPolicy (.bool true) cap

theorem declare_settling (cap : Value) : declare (settling cap) = .ok (settlingColors cap) :=
  declare_withPolicy declare_plain _ _

/-- That enumeration, or the other one, with one member. -/
def holdingOne (policy cap : Value) : Enumeration := ⟨"Colors", .text "", .int 0, policy, cap,
  [⟨"A", .int 1, []⟩], [("A", ⟨"A", .int 1, []⟩)], [.int 1]⟩

theorem run_colors : (colors.run [⟨.text "A", .int 1, .none⟩]) = ⟨holdingOne (.bool false) .null,
    [.added "Colors" "A" (.int 1)], [.ok ⟨"A", .int 1, []⟩]⟩ := by cbv

theorem run_settlingColors (cap : Value) : ((settlingColors cap).run [⟨.text "A", .int 1, .none⟩])
    = ⟨holdingOne (.bool true) cap, [.added "Colors" "A" (.int 1)], [.ok ⟨"A", .int 1, []⟩]⟩ := by
  cbv

theorem add_named_A (e : Enumeration) (v : Value) :
    e.add ⟨.text "A", v, .none⟩ = e.place ⟨"A", e.effectiveValue v, []⟩ := by
  rw [add_text (r := ⟨.text "A", v, .none⟩) rfl (by decide) rfl,
    show memberName "A" = "A" by cbv]
  rfl

/-- Where clashes are refused, a free value is reported to be free. -/
theorem place_holdingOne {v : Value} (hw : v.isWritable = true)
    (hv : (holdingOne (.bool false) .null).valueTaken v = .ok false) :
    ((holdingOne (.bool false) .null).place ⟨"A", v, []⟩).result
      = .error (.conflict ⟨"A", v, true, false⟩) := by
  have htaken : (holdingOne (.bool false) .null).hasName "A" = true := by decide
  rw [place_of_clash (m := ⟨"A", v, []⟩) rfl hv fun hfree => absurd hfree.1 (by simp [htaken]),
    htaken]
  exact congrArg Except.error (if_pos hw)

/-- Where they are settled, a cap below one is met at once, and has to be shown. -/
theorem settle_holdingOne {i : Int} (hi : i ≤ 0) (hlong : (Value.int i).isWritable = false)
    (v : Value) : ((holdingOne (.bool true) (.int i)).settle ⟨"A", v, []⟩).result
      = .error .unwritableNumber := by
  have hlimit : (holdingOne (.bool true) (.int i)).renameLimit = .ok 0 :=
    congrArg Except.ok (Int.toNat_of_nonpos hi)
  unfold settle
  rw [hlimit]
  exact congrArg Except.error (if_neg fun hw => absurd (hlong.symm.trans hw) (by simp))

/--
A cap so far below zero that it cannot be shown is not reported when it is met. And a request for a
set that clashes with a name is renamed before it is refused for the set.
-/
theorem not_extended : ∃ i : Int, declare plain = .ok colors ∧
    declare (settling (.int i)) = .ok (settlingColors (.int i)) ∧
    declare (settling .null) = .ok (settlingColors .null) ∧
    (let one : List Request := [⟨.text "A", .int 1, .none⟩]
    (colors.run one).results = [.ok ⟨"A", .int 1, []⟩] ∧
    ((colors.run one).enumeration.add ⟨.text "A", .int 2, .none⟩).result
      = .error (.conflict ⟨"A", .int 2, true, false⟩) ∧
    (((settlingColors (.int i)).run one).enumeration.add ⟨.text "A", .int 2, .none⟩).result
      = .error .unwritableNumber ∧
    ((colors.run one).enumeration.add ⟨.text "A", .set [.int 2], .none⟩).result
      = .error (.conflict ⟨"A", .set [.int 2], true, false⟩) ∧
    (((settlingColors .null).run one).enumeration.add ⟨.text "A", .set [.int 2], .none⟩).result
      = .error (.unhashable .set)) := by
  obtain ⟨i, hi⟩ : ∃ i : Int, i = -((10 ^ Decimal.digitLimit : Nat) : Int) := ⟨_, rfl⟩
  have hpos : 0 < 10 ^ Decimal.digitLimit := Nat.one_le_pow _ _ (by decide)
  have hlong : (Value.int i).isWritable = false := by
    rw [Value.isWritable, Bool.eq_false_iff, Ne, Decimal.isWritable_iff]
    omega
  have htwo : Decimal.isWritable 2 = true := Decimal.isWritable_of_lt_ten (by decide)
  have hset : (Value.set [.int 2]).isWritable = true := by
    simp [Value.isWritable, Value.areWritable, htwo]
  have hfree : (holdingOne (.bool true) (.int i)).valueTaken (.int 2) = .ok false := by cbv
  refine ⟨i, declare_plain, declare_settling _, declare_settling _, ?_⟩
  dsimp only
  rw [run_colors, run_settlingColors, run_settlingColors, add_named_A, add_named_A, add_named_A]
  refine ⟨rfl, place_holdingOne htwo (by cbv), ?_, place_holdingOne hset (by cbv), by cbv⟩
  exact (congrArg Addition.result (place_of_valueTaken (m := ⟨"A", .int 2, []⟩) hfree)).trans
    (settle_holdingOne (by omega) hlong _)

end EnumDecl.Enumeration
