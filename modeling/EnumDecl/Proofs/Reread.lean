import EnumDecl.Proofs.Codec
import EnumDecl.Proofs.Data

/-!
# Equality across a text

A text forgets which things are one, and brings all that it names not-a-number together into one.
Neither makes two values different that were the same, since what was one thing is read twice with
the same content (`same_reread_of_imp`). And of two values that can be kept in a set neither makes
them the same, unless both are not-a-number (`same_of_same_reread`). That is the one way in which
two members with different values can come out with the same.
-/

namespace EnumDecl.Value

/-! ## Contents one by one -/

theorem sameItems_iff (xs ys : List Value) :
    sameItems xs ys = true ↔ List.Forall₂ (fun x y => x.same y = true) xs ys := by
  induction xs generalizing ys with
  | nil => cases ys <;> simp [sameItems]
  | cons x xs ih =>
    cases ys with
    | nil => simp [sameItems]
    | cons y ys => rw [sameItems, Bool.and_eq_true, ih, List.forall₂_cons, same]

theorem sameEntries_iff (es fs : List (Value × Value)) :
    sameEntries es fs = true ↔
      ∀ e ∈ es, ∃ f ∈ fs, e.1.same f.1 = true ∧ e.2.same f.2 = true := by
  induction es with
  | nil => simp [sameEntries]
  | cons e es ih =>
    rw [sameEntries, Bool.and_eq_true, ih, List.any_eq_true, List.forall_mem_cons]
    simp only [Bool.and_eq_true, same]

/-- Mappings are alike when each entry of one has its like in the other and there are as many. -/
theorem isLike_mapping_iff (es fs : List (String × Value)) :
    isLike (.mapping (es.map keyed)) (.mapping (fs.map keyed)) = true ↔
      es.length = fs.length ∧ ∀ e ∈ es, ∃ f ∈ fs, e.1 = f.1 ∧ e.2.same f.2 = true := by
  have hkeyed : ∀ e f : String × Value, ((keyed e).1.same (keyed f).1 = true) ↔ e.1 = f.1 := by
    intro e f
    rw [keyed, keyed, same_text, beq_iff_eq]
  simp only [isLike, bare, Bool.and_eq_true, beq_iff_eq, List.length_map, sameEntries_iff,
    List.forall_mem_map]
  refine and_congr_right fun _ => forall₂_congr fun e _ => ?_
  constructor
  · rintro ⟨_, hmem, hkey, hvalue⟩
    obtain ⟨f, hf, rfl⟩ := List.mem_map.mp hmem
    exact ⟨f, hf, (hkeyed e f).mp hkey, hvalue⟩
  · rintro ⟨f, hf, hkey, hvalue⟩
    exact ⟨keyed f, List.mem_map_of_mem hf, (hkeyed e f).mpr hkey, hvalue⟩

theorem same_of_isLike {v w : Value} (h : isLike v w = true) : v.same w = true := by
  rw [same, h, Bool.or_true]

/-! ## What is read back -/

theorem reread_bare (v : Value) : reread v.bare = reread v := by
  induction v using bare.induct with
  | case1 _ v ih => rw [bare, ih, reread]
  | case2 v h =>
    cases v with
    | marked k u => exact absurd rfl (h k u)
    | _ => rfl

theorem reread_markedBy (m : Mark) (v : Value) : reread (v.markedBy m) = reread v := by
  unfold markedBy
  split
  · rw [reread]
  · rfl

theorem bare_markedBy (m : Mark) (v : Value) : (v.markedBy m).bare = v.bare := by
  unfold markedBy
  split
  · rw [bare]
  · rfl

variable {thing : Mark → Value} {v w : Value}

theorem isNan_reread (h : IsData thing v) : (reread v).isNan = v.isNan := by
  induction h with
  | float x => cases x <;> rfl
  | list _ _ => rw [reread_list]; rfl
  | mapping _ _ _ => rw [reread_mapping]; rfl
  | marked _ _ _ _ ih => rw [reread, ih, isNan]
  | _ => rfl

theorem isHashable_reread (h : IsData thing v) : (reread v).isHashable = v.isHashable := by
  induction h with
  | float x => cases x <;> rfl
  | list _ _ => rw [reread_list]; rfl
  | mapping _ _ _ => rw [reread_mapping]; rfl
  | marked _ _ _ _ ih =>
    rw [reread, ih]
    rfl
  | _ => rfl

theorem eq_null_of_reread (h : IsData thing v) (hv : reread v = .null) : v = .null := by
  induction h with
  | null => rfl
  | float x => cases x <;> exact absurd hv (by simp [reread])
  | list _ _ => exact absurd hv (by simp [reread_list])
  | mapping _ _ _ => exact absurd hv (by simp [reread_mapping])
  | marked _ _ own _ ih =>
    rw [reread] at hv
    rw [ih hv] at own
    exact absurd own (by simp [kind, Kind.hasIdentity, isNan])
  | _ => exact absurd hv (by simp [reread])

/-- The one not-a-number of a text. -/
theorem reread_of_isNan (h : IsData thing v) (hv : v.isNan = true) :
    reread v = .marked .constant (.float .nan) := by
  induction h with
  | float x =>
    cases x with
    | nan => rfl
    | _ => exact absurd hv (by simp [isNan])
  | marked _ _ _ _ ih => exact ih hv
  | _ => exact absurd hv (by simp [isNan])

/-- What can be kept in a set keeps its content. -/
theorem bare_reread (h : IsData thing v) (hv : v.isHashable = true) :
    (reread v).bare = v.bare := by
  induction h with
  | float x => cases x <;> rfl
  | list _ _ => exact absurd hv (by simp [isHashable, unhashable?])
  | mapping _ _ _ => exact absurd hv (by simp [isHashable, unhashable?])
  | marked _ _ _ _ ih => exact ih hv
  | _ => rfl

/-! ## What was the same stays the same -/

/-- Each number is equal to itself but for the one that is none. -/
theorem isLike_float_self {x : Binary64} (h : (float x).isNan = false) :
    isLike (.float x) (.float x) = true := by
  have hx : x.eqv x = true := by
    cases x with
    | nan => exact absurd h (by simp [isNan])
    | infinity s => simp [Binary64.eqv]
    | finite s m => simp [Binary64.eqv]
  simpa [isLike, eqvAtom, bare] using hx

/-- What is read is the same as itself, not-a-number being one and all else equal. -/
theorem same_reread_self_of_isLike (h : IsData thing v)
    (hlike : v.isNan = false → isLike (reread v) (reread v) = true) :
    (reread v).same (reread v) = true := by
  cases hv : v.isNan with
  | false => exact same_of_isLike (hlike hv)
  | true =>
    rw [reread_of_isNan h hv]
    rfl

theorem isLike_reread_self (h : IsData thing v) (hv : v.isNan = false) :
    isLike (reread v) (reread v) = true := by
  induction h with
  | null => simp [reread, isLike, eqvAtom, bare]
  | bool b => simp [reread, isLike, eqvAtom, bare]
  | int _ => simp [reread, isLike, eqvAtom, bare]
  | float x =>
    have hx : reread (.float x) = .float x := by
      cases x with
      | nan => exact absurd hv (by simp [isNan])
      | _ => rfl
    rw [hx]
    exact isLike_float_self hv
  | text s => simp [reread, isLike, eqvAtom, bare]
  | @list xs h ih =>
    rw [reread_list, isLike]
    refine (sameItems_iff _ _).mpr (List.forall₂_same.mpr ?_)
    intro r hr
    obtain ⟨x, hx, rfl⟩ := List.mem_map.mp hr
    exact same_reread_self_of_isLike (h x hx) (ih x hx)
  | @mapping es keys h ih =>
    rw [reread_mapping]
    refine (isLike_mapping_iff _ _).mpr ⟨rfl, fun r hr => ⟨r, hr, rfl, ?_⟩⟩
    obtain ⟨e, he, rfl⟩ := List.mem_map.mp ((perm_sortKeys _).mem_iff.mp hr)
    exact same_reread_self_of_isLike (h e he) (ih e he)
  | marked _ _ _ _ ih => exact ih hv

theorem same_reread_self (h : IsData thing v) : (reread v).same (reread v) = true :=
  same_reread_self_of_isLike h (isLike_reread_self h)

/-- Values that hold no others and are equal are read as they are. -/
theorem reread_of_eqvAtom {v w : Value} (h : eqvAtom v w = true) :
    reread v = v ∧ reread w = w := by
  have hfloat : ∀ x, x ≠ Binary64.nan → reread (.float x) = .float x := by
    intro x hx
    cases x with
    | nan => exact absurd rfl hx
    | _ => rfl
  have hint : ∀ {x : Binary64} {i : Int}, x.eqvInt i = true → x ≠ .nan := by
    rintro x i hx rfl
    exact absurd hx (by simp [Binary64.eqvInt])
  have heqv : ∀ {x y : Binary64}, x.eqv y = true → x ≠ .nan := by
    rintro x y hx rfl
    exact absurd hx (by simp [Binary64.eqv])
  unfold eqvAtom at h
  split at h
  all_goals first
    | exact ⟨rfl, rfl⟩
    | exact ⟨rfl, hfloat _ (hint h)⟩
    | exact ⟨hfloat _ (hint h), rfl⟩
    | exact ⟨hfloat _ (heqv h), hfloat _ (heqv (by rwa [Binary64.eqv_comm] at h))⟩
    | exact absurd h (by simp)

/-- Two things with one mark have one content. -/
theorem reread_eq_of_mark? {m : Mark} (hv : IsData thing v) (hw : IsData thing w)
    (hm : v.mark? = some m) (hn : w.mark? = some m) : reread v = reread w := by
  cases hv with
  | marked stands _ _ _ =>
    cases hw with
    | marked stands' _ _ _ =>
      cases hm
      cases hn
      rw [reread, reread, ← stands, ← stands']
    | _ => exact absurd hn (by simp [mark?])
  | _ => exact absurd hm (by simp [mark?])

theorem exists_mark?_of_isOne {v w : Value} (h : isOne v w = true) :
    ∃ m, v.mark? = some m ∧ w.mark? = some m := by
  unfold isOne at h
  rw [Bool.and_eq_true] at h
  cases hv : v.mark? with
  | none => simp [hv] at h
  | some m =>
    cases hw : w.mark? with
    | none => simp [hv, hw] at h
    | some n =>
      rw [hv, hw, beq_iff_eq] at h
      exact ⟨m, rfl, by rw [h.1]⟩

/-- What is one is read twice with one content, so only equal values are left to look at. -/
theorem same_reread_of_imp (hv : IsData thing v) (hw : IsData thing w)
    (hlike : isLike v w = true → isLike (reread v) (reread w) = true) (h : v.same w = true) :
    (reread v).same (reread w) = true := by
  rw [same, Bool.or_eq_true] at h
  rcases h with hone | h
  · obtain ⟨m, hm, hn⟩ := exists_mark?_of_isOne hone
    rw [← reread_eq_of_mark? hv hw hm hn]
    exact same_reread_self hv
  · exact same_of_isLike (hlike h)

theorem IsData.bare (h : IsData thing v) : IsData thing v.bare := by
  induction h with
  | null => exact .null
  | bool b => exact .bool b
  | int h => exact .int h
  | float x => exact .float x
  | text s => exact .text s
  | list h _ => exact .list h
  | mapping keys h _ => exact .mapping keys h
  | marked _ _ _ _ ih => exact ih

theorem isLike_list_iff {xs : List Value} {w : Value} :
    isLike (.list xs) w = true ↔ ∃ ys, w.bare = .list ys ∧ sameItems xs ys = true := by
  rw [isLike]
  split
  · rename_i ys hys
    simp [hys]
  · rename_i hno
    simpa using fun ys hys => absurd hys (hno ys)

theorem exists_mapping_of_isLike {es : List (Value × Value)} {w : Value}
    (h : isLike (.mapping es) w = true) :
    ∃ fs, w.bare = .mapping fs ∧ isLike (.mapping es) (.mapping fs) = true := by
  have hlike := h
  rw [isLike] at h
  split at h
  · rename_i fs hfs
    rw [← isLike_bare_right, hfs] at hlike
    exact ⟨fs, hfs, hlike⟩
  · exact absurd h (by simp)

/-- What holds no others is read as what it was equal to. -/
theorem isLike_reread_of_eqvAtom (hlike : ∀ u, isLike v u = eqvAtom v u.bare)
    (h : isLike v w = true) : isLike (reread v) (reread w) = true := by
  rw [hlike] at h
  obtain ⟨hl, hr⟩ := reread_of_eqvAtom h
  rw [← reread_bare w, hl, hr, hlike, bare_bare, h]

/-- **What was equal is equal after it was written and read.** The items and entries that make two
values equal are one or equal themselves. -/
theorem isLike_reread (hv : IsData thing v) (hw : IsData thing w) (h : isLike v w = true) :
    isLike (reread v) (reread w) = true := by
  induction hv generalizing w with
  | @list xs hxs ih =>
    obtain ⟨ys, hys, hitems⟩ := isLike_list_iff.mp h
    have hdata := hw.bare
    rw [hys] at hdata
    cases hdata with
    | list hys' =>
      rw [← reread_bare w, hys, reread_list, reread_list]
      refine isLike_list_iff.mpr ⟨_, rfl, (sameItems_iff _ _).mpr ?_⟩
      rw [List.forall₂_map_left_iff, List.forall₂_map_right_iff]
      refine forall₂_imp_of_mem ((sameItems_iff xs ys).mp hitems) fun x hx y hy => ?_
      exact same_reread_of_imp (hxs x hx) (hys' y hy) (ih x hx (hys' y hy))
  | @mapping es keys hes ih =>
    obtain ⟨_, hfs, hentries⟩ := exists_mapping_of_isLike h
    have hdata := hw.bare
    rw [hfs] at hdata
    cases hdata with
    | @mapping fs _ hfs' =>
      obtain ⟨hlength, hall⟩ := (isLike_mapping_iff es fs).mp hentries
      rw [← reread_bare w, hfs, reread_mapping, reread_mapping]
      refine (isLike_mapping_iff _ _).mpr ⟨?_, fun r hr => ?_⟩
      · rw [(perm_sortKeys _).length_eq, (perm_sortKeys _).length_eq, List.length_map,
          List.length_map, hlength]
      · -- sorting the keys moves entries and changes none
        obtain ⟨e, he, rfl⟩ := List.mem_map.mp ((perm_sortKeys _).mem_iff.mp hr)
        obtain ⟨f, hf, hkey, hsame⟩ := hall e he
        refine ⟨(f.1, reread f.2), (perm_sortKeys _).mem_iff.mpr (List.mem_map.mpr ⟨f, hf, rfl⟩),
          hkey, ?_⟩
        exact same_reread_of_imp (hes e he) (hfs' f hf) (ih e he (hfs' f hf)) hsame
  | marked _ _ _ _ ih =>
    rw [isLike] at h
    exact ih hw h
  | _ => exact isLike_reread_of_eqvAtom (fun u => by simp [isLike]) h

/-- A value that means there is none still does. -/
theorem eqv_reread (hv : IsData thing v) (hw : IsData thing w) (h : v.eqv w = true) (m : Mark) :
    (reread v).eqv ((reread w).markedBy m) = true := by
  have hlike : isLike (reread v) (reread w) = true := by
    rw [eqv, Bool.or_eq_true, Bool.and_eq_true, Bool.not_eq_true'] at h
    rcases h with ⟨hone, hnan⟩ | h
    · obtain ⟨k, hk, hk'⟩ := exists_mark?_of_isOne hone
      rw [← reread_eq_of_mark? hv hw hk hk']
      exact isLike_reread_self hv hnan
    · exact isLike_reread hv hw h
  rw [eqv, ← isLike_bare_right, bare_markedBy, isLike_bare_right, hlike, Bool.or_true]

/-! ## What was different stays different -/

/-- **Values that can be kept in a set are not made the same, unless both are not-a-number.** -/
theorem same_of_same_reread (hv : IsData thing v) (hw : IsData thing w) (hhv : v.isHashable = true)
    (hhw : w.isHashable = true) (hnan : ¬ (v.isNan = true ∧ w.isNan = true))
    (h : (reread v).same (reread w) = true) : v.same w = true := by
  rw [same, Bool.or_eq_true] at h
  rcases h with hone | h
  · have hboth := isNan_of_isOne (by rw [isHashable_reread hv, hhv]) hone
    rw [isNan_reread hv, isNan_reread hw] at hboth
    exact absurd hboth hnan
  · rw [← isLike_bare_left, ← isLike_bare_right, bare_reread hv hhv, bare_reread hw hhw,
      isLike_bare_right, isLike_bare_left] at h
    exact same_of_isLike h

/-! ## Fields -/

theorem lookup_eq_some_iff_of_nodup {es : List (String × Value)} (hk : (es.map (·.1)).Nodup)
    (key : String) (v : Value) : es.lookup key = some v ↔ (key, v) ∈ es := by
  rw [List.lookup_eq_some_iff]
  constructor
  · rintro ⟨before, after, rfl, -⟩
    simp
  · intro h
    obtain ⟨before, after, rfl⟩ := List.append_of_mem h
    refine ⟨before, after, rfl, fun e he => bne_iff_ne.mpr ?_⟩
    rw [List.map_append, List.nodup_append] at hk
    exact (hk.2.2 e.1 (List.mem_map_of_mem he) key (by simp)).symm

/-- **A field that is read back is where it was**, whatever became of the order of the others. -/
theorem field_reread {key : String} (h : IsData thing v) (hf : v.field key = .ok w) :
    (reread v).field key = .ok (reread w) := by
  induction h with
  | @mapping es keys _ _ =>
    have hmem := (lookup_eq_some_iff_of_nodup keys key w).mp (field_object_iff.mp hf)
    have hkeys : ((sortKeys (es.map fun e => (e.1, reread e.2))).map (·.1)).Nodup :=
      nodup_sortKeys (by rw [List.map_map]; exact keys)
    rw [reread_mapping]
    refine field_object_iff.mpr ((lookup_eq_some_iff_of_nodup hkeys key _).mpr ?_)
    exact (perm_sortKeys _).mem_iff.mpr (List.mem_map.mpr ⟨(key, w), hmem, rfl⟩)
  | marked _ _ _ _ ih => exact ih hf
  | _ => exact absurd hf (by simp [field, bare])

theorem isData_of_field {key : String} (h : IsData thing v) (hf : v.field key = .ok w) :
    IsData thing w := by
  induction h with
  | @mapping es keys h _ =>
    exact h (key, w) ((lookup_eq_some_iff_of_nodup keys key w).mp (field_object_iff.mp hf))
  | marked _ _ _ _ ih => exact ih hf
  | _ => exact absurd hf (by simp [field, bare])

/-! ## Values that are kept -/

/-- A value that can be written, and one that is the same up to marks and the order of keys. -/
def Kept (thing : Mark → Value) (v w : Value) : Prop := IsData thing v ∧ sorted w = sorted v

theorem kept_reread (h : IsData thing v) : Kept thing v (reread v) := ⟨h, sorted_reread h⟩

theorem kept_markedBy (h : Kept thing v w) (m : Mark) : Kept thing v (w.markedBy m) := by
  refine ⟨h.1, ?_⟩
  unfold markedBy
  split
  · exact h.2
  · exact h.2

theorem kept_list {vs ws : List Value} (h : List.Forall₂ (Kept thing) vs ws) :
    Kept thing (.list vs) (.list ws) := by
  have hitems : (∀ v ∈ vs, IsData thing v) ∧ ws.map sorted = vs.map sorted := by
    induction h with
    | nil => exact ⟨fun v hv => absurd hv (by simp), rfl⟩
    | cons hk _ ih =>
        exact ⟨List.forall_mem_cons.mpr ⟨hk.1, ih.1⟩,
          by rw [List.map_cons, hk.2, ih.2, List.map_cons]⟩
  exact ⟨.list hitems.1, by rw [sorted, sorted, sortedItems_eq, sortedItems_eq, hitems.2]⟩

/-- A mapping with text keys, none of them twice, can be written when its fields can. -/
theorem isData_object {es : List (String × Value)} (keys : (es.map (·.1)).Nodup)
    (h : ∀ e ∈ es, IsData thing e.2) : IsData thing (object es) :=
  .mapping keys h

/-- Fields are kept one by one, under keys of which none stands twice. -/
theorem kept_object {es fs : List (String × Value)} (keys : (es.map (·.1)).Nodup)
    (h : List.Forall₂ (fun e f => f.1 = e.1 ∧ Kept thing e.2 f.2) es fs) :
    Kept thing (object es) (object fs) := by
  have hdata : ∀ e ∈ es, IsData thing e.2 := by
    clear keys
    induction h with
    | nil => exact fun e he => absurd he (by simp)
    | cons hk _ ih => exact List.forall_mem_cons.mpr ⟨hk.2.1, ih⟩
  have hentries : sortedEntries (fs.map keyed) = sortedEntries (es.map keyed) := by
    clear keys hdata
    induction h with
    | nil => rfl
    | @cons e f es fs hk _ ih =>
      show insertSorted (.text f.1, sorted f.2) (sortedEntries (fs.map keyed))
        = insertSorted (.text e.1, sorted e.2) (sortedEntries (es.map keyed))
      rw [hk.1, hk.2.2, ih]
  refine ⟨isData_object keys hdata, ?_⟩
  show Value.mapping (sortedEntries (fs.map keyed)) = .mapping (sortedEntries (es.map keyed))
  rw [hentries]

end EnumDecl.Value
