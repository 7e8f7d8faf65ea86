import EnumDecl.Enumeration.Add

/-!
# Dumps

An enumeration as a value made of mappings, lists and texts, and back. Each kind of object has its
own pair of functions: `toValue` gives exactly the documented keys in a fixed order, and `ofValue`
reads them, fills in what may be missing, and names the first thing that is wrong.

An enumeration is not copied from its dump. It is declared anew and its members are added one after
another, so a dump that was changed by hand is held to the same rules as any other request.
-/

namespace EnumDecl

/-! ## Taking a value apart -/

/-- The value of a field that must be there. -/
def Value.field (v : Value) (key : String) : Except Fault Value :=
  match v.bare with
  | .mapping entries =>
    match Value.lookup (.text key) entries with
    | some found => .ok found
    | none => .error (.missingKey key)
  | .list _ => .error (.itemField .list)
  | .pair _ _ => .error (.itemField .pair)
  | .text _ => .error (.itemField .text)
  | .bytes _ => .error (.itemField .bytes)
  | other => .error (.notSubscriptable other.kind)

/-- The value of a field that may be missing. -/
def Value.fieldOr (v : Value) (key : String) (default : Value) : Except Fault Value :=
  match v.bare with
  | .mapping entries => .ok ((Value.lookup (.text key) entries).getD default)
  | other => .error (.missingMethod other.kind "get")

/-- The items of a collection, the keys of a mapping, the characters of a text or the numbers of
bytes. -/
def Value.items (v : Value) : Except Fault (List Value) :=
  match v.bare with
  | .list xs => .ok xs
  | .pair a b => .ok [a, b]
  | .set xs => .ok xs
  | .mapping entries => .ok (entries.map (·.1))
  | .text s => .ok (s.toList.map fun c => .text (String.singleton c))
  | .bytes bs => .ok (bs.map fun b => .int b.toNat)
  | other => .error (.notIterable other.kind)

/-! ## Arguments, annotations and entries -/

/-- The dump of an argument; a bare value has none. -/
def Argument.toValue : Argument → Except Fault Value
  | .literal v => .ok (.object [("type", .text "lit"), ("value", v)])
  | .constant name owner =>
    .ok (.object [("type", .text "const"), ("name", name), ("owner", owner)])
  | .bare v => .error (.unsupportedArgument v.kind)

/-- The argument of a dump. -/
def Argument.ofValue (d : Value) : Except Fault Argument := do
  let form ← d.fieldOr "type" .null
  if form.eqv (.text "lit") then
    pure (.literal (← d.field "value"))
  else if form.eqv (.text "const") then
    let name ← d.field "name"
    pure (.constant name (← d.fieldOr "owner" .null))
  else throw (Fault.showing form (.unsupportedForm form))

/-- The dump of a type reference. -/
def TypeReference.toValue (r : TypeReference) : Value :=
  .object [("name", r.name), ("namespace", r.container)]

/-- The type reference of a dump. -/
def TypeReference.ofValue (d : Value) : Except Fault TypeReference := do
  let name ← d.field "name"
  pure ⟨name, ← d.fieldOr "namespace" (.text "")⟩

/-- The name of a type after its namespace, if it has one. -/
def TypeReference.qualifiedName (r : TypeReference) : Except Fault Value :=
  if !r.container.isTrue then .ok r.name
  else if r.container.isWritable && r.name.isWritable then
    .ok (.text (r.container.plain ++ "." ++ r.name.plain))
  else .error .unwritableNumber

/-- The dump of an annotation. -/
def Annotation.toValue (a : Annotation) : Except Fault Value := do
  let argument ← a.argument.toValue
  pure (.object [("kind", a.type.toValue), ("argument", argument)])

/-- The annotation of a dump. -/
def Annotation.ofValue (d : Value) : Except Fault Annotation := do
  let type ← TypeReference.ofValue (← d.field "kind")
  let argument ← Argument.ofValue (← d.field "argument")
  pure ⟨type, argument⟩

/-- The dump of an entry. -/
def Entry.toValue (r : Entry) : Except Fault Value := do
  let annotations ← r.annotations.mapM Annotation.toValue
  pure (.object [("name", r.name), ("value", r.value), ("annotations", .list annotations)])

/-- The entry of a dump. -/
def Entry.ofValue (d : Value) : Except Fault Entry := do
  let name ← d.field "name"
  let value ← d.field "value"
  let annotations ← (← (← d.fieldOr "annotations" (.list [])).items).mapM Annotation.ofValue
  pure ⟨name, value, annotations⟩

/-- The dump of a member. -/
def Member.toValue (m : Member) : Except Fault Value := m.toEntry.toValue

/-! ## Enumerations -/

namespace Enumeration

/-- The dump of an enumeration. -/
def toValue (e : Enumeration) : Except Fault Value := do
  let members ← e.members.mapM Member.toValue
  pure (.object [
    ("name", .text e.name),
    ("namespace", e.container),
    ("no_value", e.noValue),
    ("auto_resolve_conflicts", e.autoResolve),
    ("members", .list members)])

/-- The declaration in a dump. -/
def declarationOf (d : Value) : Except Fault Declaration := do
  let name ← d.field "name"
  let container ← d.fieldOr "namespace" (.text "")
  let autoResolve ← d.fieldOr "auto_resolve_conflicts" (.bool false)
  let noValue ← d.fieldOr "no_value" defaultNoValue
  pure ⟨name, container, autoResolve, noValue, .null⟩

/-- What loading a dump came to, with what was reported up to its end. -/
structure Loading where
  events : List Event
  result : Except Fault Enumeration

/-- Adds the members of a dump one after another up to the first that fails. -/
def addDumped (e : Enumeration) : List Value → Loading
  | [] => ⟨[], .ok e⟩
  | d :: ds =>
    match Entry.ofValue d with
    | .error fault => ⟨[], .error fault⟩
    | .ok entry =>
      let added := e.add entry.request
      match added.result with
      | .error fault => ⟨added.events, .error fault⟩
      | .ok _ =>
        let rest := addDumped added.enumeration ds
        ⟨added.events ++ rest.events, rest.result⟩

/-- The declaration of a dump, the enumeration it makes and the dumps of its members. -/
def opening (d : Value) : Except Fault (Declaration × Enumeration) := do
  let declaration ← declarationOf d
  pure (declaration, ← declare declaration)

/-- The enumeration of a dump. -/
def ofValue (d : Value) : Loading :=
  match opening d with
  | .error fault => ⟨[], .error fault⟩
  | .ok (declaration, e) =>
    let events := declarationEvents declaration e
    match d.fieldOr "members" (.list []) >>= Value.items with
    | .error fault => ⟨events, .error fault⟩
    | .ok dumps =>
      let rest := e.addDumped dumps
      ⟨events ++ rest.events, rest.result⟩

end Enumeration

end EnumDecl
