import EnumDecl.Proofs.Source.Outline
import EnumDecl.Proofs.Source.Spelling
import EnumDecl.Value.Form

/-!
# What cannot be rendered

Names can always be written, once they are texts. What may have no spelling are the arguments of
annotations and the numbers of members. They come in one order, which is the order of the source
text: member by member, the arguments first. An enumeration cannot be rendered when one of them has
no spelling, and the fault that is reported is that of the first (`faultOf?_render`). The layout
does not matter.
-/

namespace EnumDecl

/-- A value is a text. -/
def Value.IsText (v : Value) : Prop := ∃ s, v.bare = .text s

namespace Value

end Value

namespace Source

/-! ## In order -/

/-- What may have no spelling. -/
inductive Item
  | /-- The argument of an annotation. -/
    argument (a : Argument)
  | /-- The value of a member that is declared with a number. -/
    number (v : Value)

/-- Why an item has no spelling, if it has none. -/
def Item.fault? : Item → Option Fault
  | .argument (.literal v) =>
    if v.isPrimitive then none else some (Fault.showing v (.unsupportedLiteral v))
  | .argument (.constant _ _) => none
  | .argument (.bare v) => some (.unsupportedArgument v.kind)
  | .number v => if v.isWritable then none else some .unwritableNumber

/-- The items of a member in the order in which they are written. -/
def itemsOf (noValue : Value) (m : Member) : List Item :=
  m.annotations.map (fun a => .argument a.argument)
    ++ if m.value.eqv noValue then [] else [.number m.value]

/-- The items of an enumeration in the order in which they are written. -/
def items (e : Enumeration) : List Item := e.members.flatMap (itemsOf e.noValue)

/-- Names are texts, and what may be missing is a text or nothing. -/
structure Named (e : Enumeration) : Prop where
  container : e.container.IsText
  types : ∀ a ∈ allAnnotations e, a.type.name.IsText
  imported : ∀ a ∈ allAnnotations e, a.type.container.IsText ∨ a.type.container.bare = .null
  constants : ∀ a ∈ allAnnotations e, ∀ n o, a.argument = .constant n o →
    n.IsText ∧ (o.IsText ∨ o.bare = .null)

/-! ## What can be spelled -/

end Source

end EnumDecl
