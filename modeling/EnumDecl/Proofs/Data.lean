import EnumDecl.Json.Order
import EnumDecl.Proofs.Equality
import EnumDecl.Value.Form
import Mathlib.Data.List.Nodup

/-!
# What a text can hold

A text holds nothing, truth values, integers within the digit limit, floating point numbers, texts,
lists of such values and mappings from texts to them (`IsData`). It does not hold marks. A thing
that stands in several places is written in each of them, and what is read there are things of
their own. Only not-a-number has one mark for the whole text. `reread` is what becomes of a value,
said without any text, and `sorted_reread` that this is the same value up to marks and the order of
keys.

Marks must mean something for this. A mark stands for one thing, so that all that carry it have one
content.
-/

namespace EnumDecl.Value

/-! ## Entries in the order of their keys -/

section Entries

variable {α β : Type}

/-- Entries with text keys in the order of the keys. -/
def sortKeys (es : List (String × α)) : List (String × α) :=
  es.mergeSort fun a b => decide (a.1 ≤ b.1)

/-- An entry of a mapping, from an entry with a text as its key. -/
def keyed (e : String × α) : Value × α := (.text e.1, e.2)

theorem perm_sortKeys (es : List (String × α)) : (sortKeys es).Perm es := List.mergeSort_perm _ _

theorem pairwise_sortKeys (es : List (String × α)) :
    (sortKeys es).Pairwise fun a b => a.1 ≤ b.1 := by
  have htrans : ∀ a b c : String × α, decide (a.1 ≤ b.1) = true → decide (b.1 ≤ c.1) = true →
      decide (a.1 ≤ c.1) = true := by
    intro a b c hab hbc
    exact decide_eq_true (String.le_trans (of_decide_eq_true hab) (of_decide_eq_true hbc))
  have htotal : ∀ a b : String × α, (decide (a.1 ≤ b.1) || decide (b.1 ≤ a.1)) = true := by
    intro a b
    rw [Bool.or_eq_true]
    exact (String.le_total a.1 b.1).imp decide_eq_true decide_eq_true
  exact (List.pairwise_mergeSort htrans htotal es).imp of_decide_eq_true

/-- Entries whose keys are all different have only one order. -/
theorem eq_of_perm_of_pairwise {es fs : List (String × α)} (hp : es.Perm fs)
    (hk : (es.map (·.1)).Nodup)
    (he : es.Pairwise fun a b => a.1 ≤ b.1) (hf : fs.Pairwise fun a b => a.1 ≤ b.1) : es = fs := by
  refine List.Perm.eq_of_pairwise (fun a b ha hb hab hba => ?_) he hf hp
  exact List.inj_on_of_nodup_map hk ha (hp.mem_iff.mpr hb) (String.le_antisymm hab hba)

theorem sortKeys_map (f : α → β) (es : List (String × α)) :
    sortKeys (es.map fun e => (e.1, f e.2)) = (sortKeys es).map fun e => (e.1, f e.2) := by
  refine Eq.symm (List.map_mergeSort fun a _ b _ => ?_)
  rfl

theorem sortKeys_sortKeys (es : List (String × α)) : sortKeys (sortKeys es) = sortKeys es :=
  List.mergeSort_of_pairwise ((pairwise_sortKeys es).imp decide_eq_true)

theorem nodup_sortKeys {es : List (String × α)} (h : (es.map (·.1)).Nodup) :
    ((sortKeys es).map (·.1)).Nodup :=
  ((perm_sortKeys es).map _).nodup_iff.mpr h

end Entries

/-- A key that is new comes last. -/
theorem insert_keyed {e : String × Value} {bs : List (String × Value)} (h : e.1 ∉ bs.map (·.1)) :
    insert (.text e.1) e.2 (bs.map keyed) = (bs ++ [e]).map keyed := by
  induction bs with
  | nil => rfl
  | cons b bs ih =>
    rw [List.map_cons, List.mem_cons, not_or] at h
    have hne : (keyed b).1.same (.text e.1) = false := by
      rw [keyed, same_text, beq_eq_false_iff_ne]
      exact Ne.symm h.1
    rw [List.map_cons, insert, hne, ih h.2]
    rfl

/-! ## Data -/

/-- A value that a text can hold, where `thing` says what each mark stands for. -/
inductive IsData (thing : Mark → Value) : Value → Prop
  | null : IsData thing .null
  | bool (b : Bool) : IsData thing (.bool b)
  | int {i : Int} (h : Decimal.isWritable i = true) : IsData thing (.int i)
  | float (x : Binary64) : IsData thing (.float x)
  | text (s : String) : IsData thing (.text s)
  | list {xs : List Value} (h : ∀ x ∈ xs, IsData thing x) : IsData thing (.list xs)
  | mapping {es : List (String × Value)} (keys : (es.map (·.1)).Nodup)
      (h : ∀ e ∈ es, IsData thing e.2) : IsData thing (.mapping (es.map keyed))
  | /-- A mark is on the thing it stands for, which is a thing of its own or not-a-number. -/
    marked {m : Mark} {v : Value} (stands : thing m = v) (unmarked : v.mark? = none)
      (own : v.kind.hasIdentity = true ∨ v.isNan = true) (h : IsData thing v) :
      IsData thing (.marked m v)

mutual

/-- What a value is after it was written and read: without its marks, and with its entries in the
order of their keys. -/
def reread : Value → Value
  | .float .nan => .marked .constant (.float .nan)
  | .list xs => .list (rereadItems xs)
  | .mapping es => .mapping ((rereadEntries es).mergeSort fun a b => Json.textLe a.1 b.1)
  | .marked _ v => reread v
  | v => v

/-- `reread` for the items of a list. -/
def rereadItems : List Value → List Value
  | [] => []
  | x :: xs => reread x :: rereadItems xs

/-- `reread` for the values of entries. -/
def rereadEntries : List (Value × Value) → List (Value × Value)
  | [] => []
  | (k, v) :: es => (k, reread v) :: rereadEntries es

end

theorem rereadItems_eq (xs : List Value) : rereadItems xs = xs.map reread := by
  induction xs with
  | nil => rfl
  | cons x xs ih => rw [rereadItems, ih, List.map_cons]

theorem rereadEntries_eq (es : List (Value × Value)) :
    rereadEntries es = es.map fun e => (e.1, reread e.2) := by
  induction es with
  | nil => rfl
  | cons e es ih => rw [rereadEntries, ih, List.map_cons]

theorem reread_list (xs : List Value) : reread (.list xs) = .list (xs.map reread) := by
  rw [reread, rereadItems_eq]

theorem reread_mapping (es : List (String × Value)) :
    reread (.mapping (es.map keyed))
      = .mapping ((sortKeys (es.map fun e => (e.1, reread e.2))).map keyed) := by
  have hentries :
    rereadEntries (es.map keyed) = (es.map fun e => (e.1, reread e.2)).map keyed := by
    rw [rereadEntries_eq, List.map_map, List.map_map]
    rfl
  have hsort : ((es.map fun e => (e.1, reread e.2)).map keyed).mergeSort
      (fun a b => Json.textLe a.1 b.1)
          = (sortKeys (es.map fun e => (e.1, reread e.2))).map keyed := by
    refine Eq.symm (List.map_mergeSort fun a _ b _ => ?_)
    rfl
  rw [reread, hentries, hsort]

/-! ## Up to marks and the order of keys -/

theorem sortedItems_eq (xs : List Value) : sortedItems xs = xs.map sorted := by
  induction xs with
  | nil => rfl
  | cons x xs ih => rw [sortedItems, ih, List.map_cons]

/-- An entry is put among sorted ones in its place. -/
theorem exists_insertSorted (e : String × Value) {fs : List (String × Value)}
    (h : fs.Pairwise fun a b => a.1 ≤ b.1) :
    ∃ gs : List (String × Value), insertSorted (keyed e) (fs.map keyed) = gs.map keyed
      ∧ gs.Perm (e :: fs) ∧ gs.Pairwise fun a b => a.1 ≤ b.1 := by
  induction fs with
  | nil => exact ⟨[e], rfl, List.Perm.refl _, List.pairwise_singleton _ _⟩
  | cons f fs ih =>
    obtain ⟨hf, hfs⟩ := List.pairwise_cons.mp h
    rw [List.map_cons, insertSorted]
    by_cases hle : e.1 ≤ f.1
    · refine ⟨e :: f :: fs, if_pos hle, List.Perm.refl _, ?_⟩
      refine List.pairwise_cons.mpr ⟨fun g hg => ?_, h⟩
      rcases List.mem_cons.mp hg with rfl | hg
      · exact hle
      · exact String.le_trans hle (hf g hg)
    · obtain ⟨gs, hgs, hperm, hsorted⟩ := ih hfs
      refine ⟨f :: gs, ?_, (hperm.cons f).trans (List.Perm.swap _ _ _), ?_⟩
      · rw [List.map_cons, ← hgs]
        exact if_neg hle
      · refine List.pairwise_cons.mpr ⟨fun g hg => ?_, hsorted⟩
        rcases List.mem_cons.mp (hperm.mem_iff.mp hg) with rfl | hg
        · exact (String.le_total f.1 g.1).resolve_right hle
        · exact hf g hg

theorem exists_sortedEntries (es : List (String × Value)) :
    ∃ fs : List (String × Value), sortedEntries (es.map keyed) = fs.map keyed
      ∧ fs.Perm (es.map fun e => (e.1, sorted e.2)) ∧ fs.Pairwise fun a b => a.1 ≤ b.1 := by
  induction es with
  | nil => exact ⟨[], rfl, List.Perm.refl _, List.Pairwise.nil⟩
  | cons e es ih =>
    obtain ⟨fs, hfs, hperm, hpair⟩ := ih
    obtain ⟨gs, hgs, hgperm, hgpair⟩ := exists_insertSorted (e.1, sorted e.2) hpair
    refine ⟨gs, ?_, hgperm.trans (hperm.cons _), hgpair⟩
    show insertSorted (.text e.1, sorted e.2) (sortedEntries (es.map keyed)) = _
    rw [hfs]
    exact hgs

theorem sorted_mapping {es : List (String × Value)} (h : (es.map (·.1)).Nodup) :
    sorted (.mapping (es.map keyed))
      = .mapping ((sortKeys (es.map fun e => (e.1, sorted e.2))).map keyed) := by
  obtain ⟨fs, hfs, hperm, hpair⟩ := exists_sortedEntries es
  have hkeys : (fs.map (·.1)).Nodup := by
    rw [(hperm.map (·.1)).nodup_iff, List.map_map]
    exact h
  have heq : fs = sortKeys (es.map fun e => (e.1, sorted e.2)) :=
    eq_of_perm_of_pairwise (hperm.trans (perm_sortKeys _).symm) hkeys hpair (pairwise_sortKeys _)
  rw [sorted, hfs, heq]

/-- **Writing and reading changes nothing but marks and the order of keys.** -/
theorem sorted_reread {thing : Mark → Value} {v : Value} (h : IsData thing v) :
    sorted (reread v) = sorted v := by
  induction h with
  | null => rfl
  | bool b => rfl
  | int h => rfl
  | float x => cases x <;> rfl
  | text s => rfl
  | @list xs _ ih =>
    rw [reread_list, sorted, sorted, sortedItems_eq, sortedItems_eq, List.map_map]
    exact congrArg Value.list (List.map_congr_left ih)
  | @mapping es keys _ ih =>
    have hsame : (es.map fun e => (e.1, sorted (reread e.2)))
        = es.map fun e => (e.1, sorted e.2) :=
      List.map_congr_left fun e he => congrArg (Prod.mk e.1) (ih e he)
    have hkeys : ((sortKeys (es.map fun e => (e.1, reread e.2))).map (·.1)).Nodup :=
      nodup_sortKeys (by rw [List.map_map]; exact keys)
    rw [reread_mapping, sorted_mapping hkeys, sorted_mapping keys, ← sortKeys_map, List.map_map,
      sortKeys_sortKeys]
    exact congrArg (fun es => Value.mapping ((sortKeys es).map keyed)) hsame
  | marked _ _ _ _ ih => exact ih

end EnumDecl.Value
