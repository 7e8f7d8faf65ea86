import EnumDecl.Numeral
import EnumDecl.Text.Base64
import EnumDecl.Text.Lower
import EnumDecl.Yaml.Node

/-!
# The value of a node

A scalar becomes what its tag says. Most nodes are trees of plain parts: scalars, sequences, and
mappings whose keys are scalars with a value of their own. Such a tree is read from the leaves up
(`Node.toValue?`): a sequence becomes a list and a mapping a mapping, in which of equal keys the
last value counts. What holds anything else, or a part with a fault, is left to the graph of its
nodes.
-/

namespace EnumDecl.Yaml

/-! ## Numbers -/

/-- An integer in some base, or what is wrong with it. -/
def integerIn (base : Nat) (cs : List Char) : Except Fault Int :=
  (Numeral.integer base cs).mapError fun
    | .malformed => .notInteger base (String.ofList cs)
    | .tooLong n => .unreadableNumber n

/-- The parts of a text between colons. -/
def colonParts (cs : List Char) : List (List Char) := Text.pieces ':' cs

/-- An integer after its sign, which may have another sign. -/
def integerAfterSign (cs : List Char) : Except Fault Int :=
  match cs with
  | [] => .error .emptyNumeral
  | ['0'] => .ok 0
  | '0' :: 'b' :: ds => integerIn 2 ds
  | '0' :: 'x' :: ds => integerIn 16 ds
  | '0' :: _ => integerIn 8 cs
  | _ =>
    if cs.contains ':' then do
      let parts ← (colonParts cs).mapM (integerIn 10)
      pure (parts.foldl (fun acc n => 60 * acc + n) 0)
    else integerIn 10 cs

/-- A text without underscores. -/
def dropUnderscores (cs : List Char) : List Char := cs.filter (· != '_')

/-- The integer of a scalar. -/
def integerOf (cs : List Char) : Except Fault Int := do
  let cs := dropUnderscores cs
  let n ← integerAfterSign (dropSign cs)
  pure (if cs.head? = some '-' then -n else n)

/-- The sum of floating point numbers, each times its power of sixty, the last one first. -/
def sixtieths (base : Nat) (sum : Binary64) : List Binary64 → Except Fault Binary64
  | [] => .ok sum
  | x :: xs =>
    match Binary64.ofNat base with
    | .infinity _ => .error .floatSize
    | power => sixtieths (base * 60) (sum.add (x.mul power)) xs

/-- A floating point number, or what is wrong with it. -/
def plainFloat (cs : List Char) : Except Fault Binary64 :=
  match Numeral.float? cs with
  | some x => .ok x
  | none => .error (.notFloat (String.ofList cs))

/-- A floating point number after its sign, which may have another sign. -/
def floatAfterSign (cs : List Char) : Except Fault Binary64 :=
  if cs = ".inf".toList then .ok (.infinity false)
  else if cs.contains ':' then do
    let parts ← (colonParts cs).mapM plainFloat
    sixtieths 1 Binary64.zero parts.reverse
  else plainFloat cs

/-- The floating point number of a scalar; there is one not-a-number for all places where its name
stands. -/
def floatOf (cs : List Char) : Except Fault Value := do
  let cs := Text.lower (dropUnderscores cs)
  if cs.isEmpty then throw .emptyNumeral
  if dropSign cs = ".nan".toList then pure (.marked .constant (.float .nan))
  else
    let x ← floatAfterSign (dropSign cs)
    pure (.float (if cs.head? = some '-' then x.neg else x))

/-! ## Dates -/

/-- Six digits of a second's fraction as microseconds. -/
def microsecondsOf (ds : List Char) : Nat :=
  let six := ds.take 6
  Decimal.value (six ++ List.replicate (6 - six.length) '0')

/-- The seconds of an offset. -/
def offsetOf : Option Char × List Char × List Char → Int
  | (sign, hours, minutes) =>
    let seconds : Int := Decimal.value hours * 3600 + Decimal.value minutes * 60
    if sign = some '-' then -seconds else seconds

/-- The date or time of a timestamp. -/
def dateOf (t : Timestamp) : Except Calendar.Fault Value :=
  let y := Decimal.value t.year
  let m := Decimal.value t.month
  let d := Decimal.value t.day
  match t.time with
  | none => (Calendar.Date.ofParts y m d).map .date
  | some (hour, minute, second, fraction) =>
    (Calendar.DateTime.ofParts y m d (Decimal.value hour) (Decimal.value minute)
      (Decimal.value second) (microsecondsOf fraction) (t.zone.map offsetOf)).map .dateTime

/-! ## Scalars -/

/-- The truth value of a scalar. -/
def truthOf (cs : List Char) : Except Fault Bool :=
  let word := String.ofList (Text.lower cs)
  if ["yes", "true", "on"].contains word then .ok true
  else if ["no", "false", "off"].contains word then .ok false
  else .error (.missingKey word)

/-- The bytes of a scalar. -/
def bytesOf (cs : List Char) : Except Fault (List UInt8) :=
  if cs.any fun c => 0x7F < c.toNat then .error .yaml
  else
    match Text.Base64.decode? cs with
    | some bytes => .ok bytes
    | none => .error .yaml

/-- The value of a scalar of some form. -/
def scalarValue (form : Form) (cs : List Char) : Except Fault Value :=
  match form with
  | .null => .ok .null
  | .bool => (truthOf cs).map .bool
  | .int => (integerOf cs).map .int
  | .float => floatOf cs
  | .timestamp =>
    match readTimestamp? cs with
    | some t => (dateOf t).mapError .calendar
    | none => .error (.missingMethod .null "groupdict")
  | .bytes => (bytesOf cs).map .bytes
  | .text => .ok (.text (String.ofList cs))
  | .merge => .error .yaml
  | .value => .error .yaml

/-! ## Trees of plain parts -/

/-- A mapping of entries of which a later one takes the place of an earlier one under an equal
key. -/
def mappingOf (entries : List (Value × Value)) : List (Value × Value) :=
  entries.foldl (fun done e => Value.insert e.1 e.2 done) []

mutual

/-- The value of a tree of plain parts. -/
def Node.toValue? : Node → Option Value
  | .scalar (.scalar form) cs => (scalarValue form cs).toOption
  | .sequence .sequence items => (itemValues? items).map .list
  | .mapping .mapping entries => (entryValues? entries).map fun es => .mapping (mappingOf es)
  | .anchored _ node => node.toValue?
  | _ => none

/-- The values of nodes. -/
def itemValues? : List Node → Option (List Value)
  | [] => some []
  | n :: ns => do
    let v ← n.toValue?
    pure (v :: (← itemValues? ns))

/-- The keys and values of entries. -/
def entryValues? : List (Node × Node) → Option (List (Value × Value))
  | [] => some []
  | (k, v) :: rest => do
    let key ← k.toValue?
    if !key.isHashable then none
    let value ← v.toValue?
    pure ((key, value) :: (← entryValues? rest))

end

end EnumDecl.Yaml
