import EnumDecl.Fault

/-!
# Things that stand in several places

A text in YAML writes a collection or a date that stands in several places once, under an anchor,
and refers to it elsewhere. The anchors are numbered in the order in which their things are met for
the second time on the way from the start of the text to its end; what lies inside a thing is
passed once only.

`withReferences` prepares a value for that: a mark is left where a thing is to get its anchor, with
the number of the anchor, later occurrences become references to it (`again`), and all other marks
are gone.
-/

namespace EnumDecl.Yaml

/-- What was met on the way through a value. -/
structure Meetings where
  /-- What was met at least once. -/
  once : List Mark
  /-- What was met again, in that order. -/
  again : List Mark

/-- Notes that a thing was met again. -/
def Meetings.meetAgain (s : Meetings) (m : Mark) : Meetings :=
  if s.again.contains m then s else { s with again := s.again ++ [m] }

mutual

/-- What is met on the way through a value after what was met before. -/
def meet : Value → Meetings → Meetings
  | .marked m v, s =>
    if !v.kind.hasIdentity then s
    else if s.once.contains m then s.meetAgain m
    else meet v { s with once := m :: s.once }
  | .again m _, s => s.meetAgain m
  | .list xs, s => meetItems xs s
  | .pair a b, s => meet b (meet a s)
  | .set xs, s => meetItems xs s
  | .mapping es, s => meetEntries es s
  | _, s => s

/-- `meet` for items one after another. -/
def meetItems : List Value → Meetings → Meetings
  | [], s => s
  | x :: xs, s => meetItems xs (meet x s)

/-- `meet` for the keys and values of entries. -/
def meetEntries : List (Value × Value) → Meetings → Meetings
  | [], s => s
  | (k, v) :: es, s => meetEntries es (meet v (meet k s))

end

/-- The number of the anchor of a thing that is met again. -/
def anchorNumber? (repeated : List Mark) (m : Mark) : Option Nat := (repeated.idxOf? m).map (· + 1)

mutual

/-- A value with its references, and the marks of the things that have their anchors by then. -/
def refer (repeated : List Mark) : Value → List Mark → Value × List Mark
  | .marked m v, written =>
    match anchorNumber? repeated m with
    | none => refer repeated v written
    | some n =>
      if written.contains m then (.again (.part n) v.kind, written)
      else
        let (inner, written) := refer repeated v (m :: written)
        (.marked (.part n) inner, written)
  | .again m k, written => (.again (.part ((anchorNumber? repeated m).getD 0)) k, written)
  | .list xs, written =>
    let (items, written) := referItems repeated xs written
    (.list items, written)
  | .pair a b, written =>
    let (first, written) := refer repeated a written
    let (second, written) := refer repeated b written
    (.pair first second, written)
  | .set xs, written =>
    let (items, written) := referItems repeated xs written
    (.set items, written)
  | .mapping es, written =>
    let (entries, written) := referEntries repeated es written
    (.mapping entries, written)
  | v, written => (v, written)

/-- `refer` for items one after another. -/
def referItems (repeated : List Mark) : List Value → List Mark → List Value × List Mark
  | [], written => ([], written)
  | x :: xs, written =>
    let (first, written) := refer repeated x written
    let (rest, written) := referItems repeated xs written
    (first :: rest, written)

/-- `refer` for the keys and values of entries. -/
def referEntries (repeated : List Mark) :
    List (Value × Value) → List Mark → List (Value × Value) × List Mark
  | [], written => ([], written)
  | (k, v) :: es, written =>
    let (key, written) := refer repeated k written
    let (value, written) := refer repeated v written
    let (rest, written) := referEntries repeated es written
    ((key, value) :: rest, written)

end

/-- A value with references in the places of all things that stand there again. -/
def withReferences (v : Value) : Value := (refer (meet v ⟨[], []⟩).again v []).1

end EnumDecl.Yaml
