import Mathlib.Data.List.Forall2

/-!
# Results one after another

What is known of a computation that came to a result: each of its steps did, and of a list of
computations every one. Of one that failed it is known that its first step did that could not be
done (`faultOf?_mapM`). These are the only facts that the proofs about reading and writing need of
`Except`. The others are about two lists that belong to each other item by item, as a list and its
results do.
-/

namespace EnumDecl

theorem bind_eq_ok_iff {α β ε : Type} {x : Except ε α} {f : α → Except ε β} {b : β} :
    x >>= f = .ok b ↔ ∃ a, x = .ok a ∧ f a = .ok b := by
  cases x with
  | error e => simp [bind, Except.bind]
  | ok a => simp [bind, Except.bind]

theorem eq_ok_of_toOption {α ε : Type} {x : Except ε α} {a : α} (h : x.toOption = some a) :
    x = .ok a := by
  cases x with
  | error e => exact absurd h (by simp [Except.toOption])
  | ok b => exact congrArg Except.ok (Option.some.inj h)

/-- A list of results is one result when every one of them is. -/
theorem mapM_eq_ok_iff {α β ε : Type} {f : α → Except ε β} {xs : List α} {ys : List β} :
    xs.mapM f = .ok ys ↔ List.Forall₂ (fun x y => f x = .ok y) xs ys := by
  induction xs generalizing ys with
  | nil =>
    constructor
    · intro h
      cases h
      exact .nil
    · intro h
      cases h
      rfl
  | cons x xs ih =>
    rw [List.mapM_cons, bind_eq_ok_iff]
    constructor
    · rintro ⟨y, hy, h⟩
      obtain ⟨zs, hzs, h⟩ := bind_eq_ok_iff.mp h
      cases h
      exact .cons hy (ih.mp hzs)
    · intro h
      cases h with
      | cons hy hys => exact ⟨_, hy, bind_eq_ok_iff.mpr ⟨_, ih.mpr hys, rfl⟩⟩

/-- What is done to each of some results may as well be done to all of them afterwards. -/
theorem mapM_map {α β γ ε : Type} (f : α → Except ε β) (g : β → γ) (xs : List α) :
    xs.mapM (fun x => (f x).map g) = (xs.mapM f).map (List.map g) := by
  induction xs with
  | nil => rfl
  | cons x xs ih =>
    rw [List.mapM_cons, List.mapM_cons, ih]
    cases f x with
    | error _ => rfl
    | ok y =>
      cases xs.mapM f with
      | error _ => rfl
      | ok ys => rfl

/-- Each of the results comes from somewhere. -/
theorem exists_of_forall₂ {α β : Type} {R : α → β → Prop} {xs : List α} {ys : List β}
    (h : List.Forall₂ R xs ys) {y : β} (hy : y ∈ ys) : ∃ x ∈ xs, R x y := by
  induction h with
  | nil => exact absurd hy (by simp)
  | @cons x z xs zs hx _ ih =>
    rcases List.mem_cons.mp hy with rfl | hy
    · exact ⟨x, List.mem_cons_self, hx⟩
    · obtain ⟨w, hw, hwy⟩ := ih hy
      exact ⟨w, List.mem_cons_of_mem _ hw, hwy⟩

/-- What belongs to two lists one after the other falls apart alike. -/
theorem exists_append_of_forall₂ {α β : Type} {R : α → β → Prop} {xs ys : List α} {zs : List β}
    (h : List.Forall₂ R (xs ++ ys) zs) :
    ∃ as bs, zs = as ++ bs ∧ List.Forall₂ R xs as ∧ List.Forall₂ R ys bs := by
  induction xs generalizing zs with
  | nil => exact ⟨[], zs, rfl, .nil, h⟩
  | cons x xs ih =>
    cases h with
    | cons hx hrest =>
      obtain ⟨as, bs, rfl, has, hbs⟩ := ih hrest
      exact ⟨_ :: as, bs, rfl, .cons hx has, hbs⟩

/-- What each item of a list has, all of them have together. -/
theorem exists_forall₂ {α β : Type} {P : α → β → Prop} {xs : List α} (h : ∀ x ∈ xs, ∃ y, P x y) :
    ∃ ys, List.Forall₂ P xs ys := by
  induction xs with
  | nil => exact ⟨[], .nil⟩
  | cons x xs ih =>
    obtain ⟨y, hy⟩ := h x List.mem_cons_self
    obtain ⟨ys, hys⟩ := ih fun z hz => h z (List.mem_cons_of_mem _ hz)
    exact ⟨y :: ys, .cons hy hys⟩

/-- What two lists have item by item may be told from where the items stand. -/
theorem forall₂_imp_of_mem {α β : Type} {R S : α → β → Prop} {xs : List α} {ys : List β}
    (h : List.Forall₂ R xs ys) (hi : ∀ x ∈ xs, ∀ y ∈ ys, R x y → S x y) :
    List.Forall₂ S xs ys := by
  obtain ⟨hlength, hzip⟩ := List.forall₂_iff_zip.mp h
  refine List.forall₂_iff_zip.mpr ⟨hlength, fun {x y} hxy => ?_⟩
  obtain ⟨hx, hy⟩ := List.of_mem_zip hxy
  exact hi x hx y hy (hzip hxy)

/-- A function that tells the items of two lists apart tells the lists apart. -/
theorem map_inj_of_mem {α β : Type} {f : α → β} {xs ys : List α}
    (hf : ∀ x ∈ xs, ∀ y ∈ ys, f x = f y → x = y) (h : xs.map f = ys.map f) : xs = ys := by
  induction xs generalizing ys with
  | nil => exact (List.map_eq_nil_iff.mp h.symm).symm
  | cons x xs ih =>
    obtain ⟨y, ys, rfl, hy, hys⟩ := List.map_eq_cons_iff.mp h.symm
    have hrest :=
      ih (fun a ha b hb => hf a (List.mem_cons_of_mem _ ha) b (List.mem_cons_of_mem _ hb))
      hys.symm
    rw [hf x List.mem_cons_self y List.mem_cons_self hy.symm, hrest]

theorem map_eq_map_of_forall₂ {α β γ : Type} {f : α → γ} {g : β → γ} {xs : List α} {ys : List β}
    (h : List.Forall₂ (fun x y => f x = g y) xs ys) : xs.map f = ys.map g := by
  rw [← List.forall₂_eq_eq_eq, List.forall₂_map_left_iff, List.forall₂_map_right_iff]
  exact h

/-- Two lists that belong to one list item by item belong to each other. -/
theorem forall₂_of_common {α β γ : Type} {R : α → γ → Prop} {S : β → γ → Prop} {xs : List α}
    {ys : List β} {zs : List γ} (h : List.Forall₂ R xs zs) (k : List.Forall₂ S ys zs) :
    List.Forall₂ (fun x y => ∃ z, R x z ∧ S y z) xs ys := by
  induction h generalizing ys with
  | nil =>
    cases k
    exact .nil
  | cons hx _ ih =>
    cases k with
    | cons hy hys => exact .cons ⟨_, hx, hy⟩ (ih hys)

/-- What two lists have item by item, the lists that belong to them have. -/
theorem forall₂_iff_of_forall₂ {α β γ δ : Type} {R : α → γ → Prop} {S : β → δ → Prop}
    {P : α → β → Prop} {Q : γ → δ → Prop} {xs : List α} {ys : List β} {us : List γ} {vs : List δ}
    (hr : List.Forall₂ R xs us) (hs : List.Forall₂ S ys vs)
    (h : ∀ x y u v, R x u → S y v → (P x y ↔ Q u v)) :
    List.Forall₂ P xs ys ↔ List.Forall₂ Q us vs := by
  induction hr generalizing ys vs with
  | nil => cases hs <;> simp
  | cons hx _ ih =>
    cases hs with
    | nil => simp
    | cons hy hys => rw [List.forall₂_cons, List.forall₂_cons, h _ _ _ _ hx hy, ih hys]

theorem mapM_ok {α β ε : Type} {f : α → Except ε β} {xs : List α}
    (h : ∀ x ∈ xs, ∃ y, f x = .ok y) :
    ∃ ys, xs.mapM f = .ok ys := by
  obtain ⟨ys, hys⟩ := exists_forall₂ h
  exact ⟨ys, mapM_eq_ok_iff.mpr hys⟩

/-! ## The first failure -/

/-- Why a computation failed, if it did. -/
def faultOf? {α ε : Type} : Except ε α → Option ε
  | .error e => some e
  | .ok _ => none

theorem findSome?_congr {α β : Type} {f g : α → Option β} {xs : List α} (h : ∀ x ∈ xs, f x = g x) :
    xs.findSome? f = xs.findSome? g := by
  induction xs with
  | nil => rfl
  | cons x xs ih =>
    rw [List.findSome?_cons, List.findSome?_cons, h x List.mem_cons_self,
      ih fun y hy => h y (List.mem_cons_of_mem _ hy)]

theorem faultOf?_bind_pure {α β ε : Type} (x : Except ε α) (f : α → β) :
    faultOf? (x >>= fun a => pure (f a)) = faultOf? x := by
  cases x <;> rfl

/-- **A list of computations fails as the first of them that does.** -/
theorem faultOf?_mapM {α β ε : Type} (f : α → Except ε β) (xs : List α) :
    faultOf? (xs.mapM f) = xs.findSome? fun x => faultOf? (f x) := by
  induction xs with
  | nil => rfl
  | cons x xs ih =>
    rw [List.mapM_cons, List.findSome?_cons, ← ih]
    cases f x with
    | error _ => rfl
    | ok y => cases xs.mapM f <;> rfl

end EnumDecl
