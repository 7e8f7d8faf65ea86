import EnumDecl.Enumeration.Add

/-!
# Where an enumeration comes from

An enumeration is *reachable* if it is made by a declaration and any number of requests for
members, whether or not they are granted. In a reachable enumeration the two indexes say nothing
that the list of members does not say: the first pairs each member with its name, the second holds
the values that are kept, both in the order of the list. The policy and the names of the
enumeration never change.
-/

namespace EnumDecl.Enumeration

/-- Made by a declaration and requests for members. -/
inductive Reachable : Enumeration → Prop
  | declared {d : Declaration} {e : Enumeration} (h : declare d = .ok e) : Reachable e
  | added {e : Enumeration} (h : Reachable e) (r : Request) : Reachable (e.add r).enumeration

/-- A member of the list has the name. -/
def HasMemberNamed (e : Enumeration) (name : String) : Prop := ∃ m ∈ e.members, m.name = name

/-- A member of the list was given an equal value, which is kept. -/
def HasMemberValued (e : Enumeration) (v : Value) : Prop :=
  ∃ m ∈ e.members, e.isKept m.value = true ∧ m.value.eqv v = true

/-- The values of the members that are kept. -/
def keptValues (e : Enumeration) : List Value := (e.members.map (·.value)).filter e.isKept

/-- Every argument of an annotation is a literal or a constant. -/
def HasProperArguments (e : Enumeration) : Prop :=
  ∀ m ∈ e.members, ∀ a ∈ m.annotations, a.argument.isProper = true

/-- The indexes say what the list says. -/
structure Indexed (e : Enumeration) : Prop where
  byName : e.byName = e.members.map fun m => (m.name, m)
  values : e.values = e.keptValues

theorem indexed_declare {d : Declaration} {e : Enumeration} (h : declare d = .ok e) :
    Indexed e := by
  unfold declare at h
  split at h
  · dsimp only at h
    split at h
    · exact absurd h (by simp)
    · cases h
      exact ⟨rfl, rfl⟩
  · exact absurd h (by simp)

@[simp] theorem record_isKept (e : Enumeration) (m : Member) :
    (e.record m).isKept = e.isKept := rfl

theorem indexed_record {e : Enumeration} (h : Indexed e) (m : Member) : Indexed (e.record m) := by
  refine ⟨?_, ?_⟩
  · simp [record, h.byName]
  · rw [keptValues, record_isKept]
    cases hv : e.isKept m.value <;> simp [record, h.values, keptValues, hv]

theorem enlist_enumeration (e : Enumeration) (m : Member) (before : List Event) :
    (e.enlist m before).enumeration = e.record m := by
  unfold enlist
  split
  · rfl
  · split <;> rfl

/-- A request either leaves the enumeration as it is or puts one member into it. -/
theorem settle_enumeration (e : Enumeration) (m : Member) :
    (e.settle m).enumeration = e ∨ ∃ n, (e.settle m).enumeration = e.record n := by
  unfold settle
  split
  · exact Or.inl rfl
  · dsimp only
    split
    · exact Or.inr ⟨_, enlist_enumeration ..⟩
    · exact Or.inl rfl
    · exact Or.inl rfl

theorem place_enumeration (e : Enumeration) (m : Member) :
    (e.place m).enumeration = e ∨ ∃ n, (e.place m).enumeration = e.record n := by
  unfold place
  split
  · exact Or.inl rfl
  · dsimp only
    split
    · exact Or.inr ⟨_, enlist_enumeration ..⟩
    · split
      · exact Or.inl rfl
      · split
        · exact Or.inl rfl
        · exact settle_enumeration e m

theorem add_enumeration (e : Enumeration) (r : Request) :
    (e.add r).enumeration = e ∨ ∃ n, (e.add r).enumeration = e.record n := by
  unfold add
  split
  · dsimp only
    split
    · exact Or.inl rfl
    · split
      · exact Or.inl rfl
      · exact place_enumeration e _
  · exact Or.inl rfl

theorem indexed_add {e : Enumeration} (h : Indexed e) (r : Request) :
    Indexed (e.add r).enumeration := by
  rcases add_enumeration e r with he | ⟨n, he⟩
  · rw [he]
    exact h
  · rw [he]
    exact indexed_record h n

/-- **The indexes of a reachable enumeration say what its list says.** -/
theorem indexed_reachable {e : Enumeration} (h : Reachable e) : Indexed e := by
  induction h with
  | declared h => exact indexed_declare h
  | added _ r ih => exact indexed_add ih r

/-- Requests one after another lead to a reachable enumeration. -/
theorem reachable_run {e : Enumeration} (h : Reachable e) (rs : List Request) :
    Reachable (e.run rs).enumeration := by
  induction rs generalizing e with
  | nil => exact h
  | cons r rs ih => exact ih (h.added r)

/-- The fields that no request changes. -/
theorem add_unchanged (e : Enumeration) (r : Request) :
    (e.add r).enumeration.name = e.name ∧ (e.add r).enumeration.container = e.container ∧
      (e.add r).enumeration.noValue = e.noValue ∧
      (e.add r).enumeration.autoResolve = e.autoResolve ∧
      (e.add r).enumeration.attemptCap = e.attemptCap := by
  rcases add_enumeration e r with he | ⟨n, he⟩
  · rw [he]
    exact ⟨rfl, rfl, rfl, rfl, rfl⟩
  · rw [he]
    exact ⟨rfl, rfl, rfl, rfl, rfl⟩

end EnumDecl.Enumeration
