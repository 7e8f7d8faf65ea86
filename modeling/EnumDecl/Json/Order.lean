import EnumDecl.Fault

/-!
# The order of keys

The keys of a mapping are written in their order where they have one: texts by code points, numbers
by their values, bytes and dates among themselves. Keys without a common order are a fault, and
which two are named depends on how the keys are sorted (`sortBy`): the run that the keys begin with
is kept, or reversed if it falls, and each key after it is put into its place, which is found by
halving.
-/

namespace EnumDecl.Json

/-! ## Comparing two keys -/

/-- Where a number stands among all others. -/
inductive Rank
  | /-- Not-a-number, which stands before and after nothing. -/
    nowhere
  | /-- A finite number in units of the least positive one. -/
    units (n : Int)
  | infinite (negative : Bool)

/-- The rank of a value that is or counts as a number. -/
def rank? : Value → Option Rank
  | .bool b => some (.units (Value.ofBool b * Binary64.unitsPerOne))
  | .int i => some (.units (i * Binary64.unitsPerOne))
  | .float .nan => some .nowhere
  | .float (.infinity s) => some (.infinite s)
  | .float (.finite s m) => some (.units (if s then -(m.units : Int) else m.units))
  | _ => none

/-- Tells whether a number stands before another one. -/
def Rank.isBefore : Rank → Rank → Bool
  | .units m, .units n => decide (m < n)
  | .units _, .infinite negative => !negative
  | .infinite negative, .units _ => negative
  | .infinite s, .infinite t => s && !t
  | _, _ => false

/-- Tells whether bytes stand before others. -/
def bytesBefore : List UInt8 → List UInt8 → Bool
  | [], [] => false
  | [], _ :: _ => true
  | _ :: _, [] => false
  | a :: as, b :: bs => if a = b then bytesBefore as bs else decide (a < b)

/-- Tells whether a time is before another one; both or none of them need an offset. -/
def timeBefore (t u : Calendar.DateTime) : Except Fault Bool :=
  match t.offset, u.offset with
  | none, none => .ok (decide (t.microseconds < u.microseconds))
  | some o, some p =>
    .ok (decide (t.microseconds - o * 1000000 < u.microseconds - p * 1000000))
  | _, _ => .error .unorderedTimes

/-- Tells whether a key stands before another one. -/
def keyBefore (a b : Value) : Except Fault Bool :=
  match a.bare, b.bare with
  | .text s, .text t => .ok (decide (s < t))
  | .bytes s, .bytes t => .ok (bytesBefore s t)
  | .date d, .date e => .ok (decide (d.dayNumber < e.dayNumber))
  | .dateTime t, .dateTime u => timeBefore t u
  | .date _, .dateTime _ => .error .unorderedDates
  | .dateTime _, .date _ => .error .unorderedDates
  | x, y =>
    match rank? x, rank? y with
    | some r, some q => .ok (r.isBefore q)
    | _, _ => .error (.unorderedKeys a.kind b.kind)

/-! ## Sorting -/

/-- The items of a run after its item `last`, and the items after the run. In a falling run each
item stands before the one in front of it, in any other none does. -/
def takeRun {α ε : Type} (before : α → α → Except ε Bool) (falls : Bool) (last : α) :
    List α → Except ε (List α × List α)
  | [] => .ok ([], [])
  | x :: xs => do
    if (← before x last) == falls then
      let (run, rest) ← takeRun before falls x xs
      pure (x :: run, rest)
    else pure ([], x :: xs)

/-- The number of sorted items that an item goes behind, which is at least `lo` and at most
`hi`. -/
def findPlace {α ε : Type} (before : α → α → Except ε Bool) (x : α) (sorted : List α) :
    (fuel lo hi : Nat) → Except ε Nat
  | 0, lo, _ => .ok lo
  | fuel + 1, lo, hi =>
    if lo < hi then
      let middle := lo + (hi - lo) / 2
      match sorted[middle]? with
      | none => .ok lo
      | some y => do
        if ← before x y then findPlace before x sorted fuel lo middle
        else findPlace before x sorted fuel (middle + 1) hi
    else .ok lo

/-- Puts items one after another into their places among sorted ones. -/
def insertAll {α ε : Type} (before : α → α → Except ε Bool) (sorted : List α) :
    List α → Except ε (List α)
  | [] => .ok sorted
  | x :: xs => do
    let place ← findPlace before x sorted (sorted.length + 1) 0 sorted.length
    insertAll before (sorted.take place ++ x :: sorted.drop place) xs

/-- Items in their order, unless two of them that are compared have none. -/
def sortBy {α ε : Type} (before : α → α → Except ε Bool) : List α → Except ε (List α)
  | x :: y :: rest => do
    let falls ← before y x
    let (run, others) ← takeRun before falls y rest
    let sorted := if falls then (x :: y :: run).reverse else x :: y :: run
    insertAll before sorted others
  | few => .ok few

/-- Tells whether a value is a text. -/
def isText : Value → Bool
  | .text _ => true
  | _ => false

/-- Tells whether a key does not stand after another one by code points. -/
def textLe : Value → Value → Bool
  | .text s, .text t => decide (s ≤ t)
  | _, _ => true

/-- Entries, of which only the keys matter, in the order of their keys. Texts always have an order,
and any way of sorting them comes to the same. -/
def sortEntries {α : Type} (entries : List (Value × α)) : Except Fault (List (Value × α)) :=
  if entries.all fun e => isText e.1 then .ok (entries.mergeSort fun a b => textLe a.1 b.1)
  else sortBy (fun a b => keyBefore a.1 b.1) entries

end EnumDecl.Json
