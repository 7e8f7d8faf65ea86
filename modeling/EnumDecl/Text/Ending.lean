/-!
# The end of a text

Where a text is matched up to its end, one line feed that it ends in does not count.
-/

namespace EnumDecl.Text

/-- A text without the one line feed it may end in. -/
def dropFinalBreak (cs : List Char) : List Char :=
  match cs.reverse with
  | '\n' :: rest => rest.reverse
  | _ => cs

theorem dropFinalBreak_concat (cs : List Char) : dropFinalBreak (cs ++ ['\n']) = cs := by
  simp [dropFinalBreak]

theorem dropFinalBreak_eq_self {cs : List Char} (h : cs.getLast? ≠ some '\n') :
    dropFinalBreak cs = cs := by
  unfold dropFinalBreak
  split
  · rename_i rest hr
    rw [← List.head?_reverse, hr] at h
    exact absurd rfl h
  · rfl

/-- A text is what is left of it, with a line feed behind it if one was dropped. -/
theorem dropFinalBreak_cases (cs : List Char) :
    dropFinalBreak cs = cs ∨ cs = dropFinalBreak cs ++ ['\n'] := by
  by_cases h : cs.getLast? = some '\n'
  · obtain ⟨front, rfl⟩ := List.getLast?_eq_some_iff.mp h
    exact Or.inr (by rw [dropFinalBreak_concat])
  · exact Or.inl (dropFinalBreak_eq_self h)

end EnumDecl.Text
