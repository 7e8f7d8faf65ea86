import EnumDecl.Enumeration.Basic

/-!
# Adding a member

A member is stored under the name made of what was asked for. Its value clashes when it was given
before; the value that means there is none never clashes. A clash is refused, unless it is one of
names only and the enumeration settles those: then the next names are tried one after another until
one is free.

The value comes last of what is recorded of a member. A value that cannot be kept in a set is found
out before anything is recorded, as it cannot be looked up there either. Only a set can be looked
up, by its contents, and so one is found out too late: the member is in the list and under its
name, and the request fails all the same (`leave`).

`search` tries at most a given number of next names. Without a cap that number is the number of
members. The names tried are all different, so no more than that many of them are taken and the
search always ends at a free name or at a suffix past the digit limit. A cap may be any value; one
that is no number is found out when the first name is to be given up.
-/

namespace EnumDecl

/-- The name to try after one that is taken. -/
def Identifier.renamed (name : String) : Except SuffixFault String :=
  (nextName name).map memberName

namespace Enumeration

/-- How the search for a free name ended. -/
inductive SearchEnd
  | /-- At a free name. -/
    free (name : String)
  | /-- At the last name that may be tried, which is taken. -/
    exhausted (name : String)
  | /-- At a name that has no next one. -/
    failed (fault : Identifier.SuffixFault)

/-- The names that were given up for the next one, in pairs, and how the search ended. -/
structure Search where
  renames : List (String × String)
  final : SearchEnd

/-- The first free name among a name and at most `limit` next ones. -/
def search (taken : String → Bool) : (limit : Nat) → (name : String) → Search
  | limit, name =>
    if !taken name then ⟨[], .free name⟩
    else
      match limit with
      | 0 => ⟨[], .exhausted name⟩
      | limit + 1 =>
        match Identifier.renamed name with
        | .error fault => ⟨[], .failed fault⟩
        | .ok next =>
          let rest := search taken limit next
          ⟨(name, next) :: rest.renames, rest.final⟩

/-- How many names may be given up for one member. A cap that is a fraction counts without it, and
one that is not-a-number or infinite is no bound. -/
def renameLimit (e : Enumeration) : Except Fault Nat :=
  match e.attemptCap.bare with
  | .null => .ok e.members.length
  | .bool b => .ok (Value.ofBool b).toNat
  | .int i => .ok i.toNat
  | .float x =>
    match x.floor? with
    | some i => .ok i.toNat
    | none => .ok (if x.isNegative then 0 else e.members.length)
  | v => .error (.unorderedAttempts v.kind)

/-- What adding a member came to: the enumeration afterwards, what was reported, and the member
stored or the cause of failure. -/
structure Addition where
  enumeration : Enumeration
  events : List Event
  result : Except Fault Member

/-- The outcome of a request that fails before anything is reported. -/
def refuse (e : Enumeration) (fault : Fault) : Addition := ⟨e, [], .error fault⟩

/-- The outcome of a request that is granted. -/
def store (e : Enumeration) (m : Member) (before : List Event) : Addition :=
  ⟨e.record m, before ++ [.added e.name m.name m.value], .ok m⟩

/-- The outcome of a request whose member is in the list by the time its value turns out to be one
that cannot be kept. -/
def leave (e : Enumeration) (m : Member) (before : List Event) (kind : Value.Kind) : Addition :=
  ⟨e.record m, before, .error (.unhashable kind)⟩

/-- Puts a member, whose name and value are free, into the list, and its value among the others. -/
def enlist (e : Enumeration) (m : Member) (before : List Event) : Addition :=
  if e.isNoValue m.value then e.store m before
  else
    match m.value.unhashable? with
    | some kind => e.leave m before kind
    | none => e.store m before

/-- Tells whether the same value was given before. What cannot be kept in a set cannot be asked
about, but for a set, which is looked for by its contents. -/
def valueTaken (e : Enumeration) (v : Value) : Except Fault Bool :=
  if e.isNoValue v then .ok false
  else if v.isSet then .ok (e.values.any fun w => w.isLike v)
  else
    match v.unhashable? with
    | some kind => .error (.unhashable kind)
    | none => .ok (e.values.any fun w => w.same v)

/-- Stores a member, whose name is taken, under the first free name after its own. -/
def settle (e : Enumeration) (m : Member) : Addition :=
  match e.renameLimit with
  | .error fault => e.refuse fault
  | .ok limit =>
    let found := search e.hasName limit m.name
    let renames := found.renames.map fun r => Event.renamed e.name r.1 r.2
    match found.final with
    | .free name => e.enlist { m with name := name } renames
    -- the fault shows the last name tried, its message the first
    | .exhausted name =>
      let clash : Clash := ⟨name, m.value, true, false⟩
      ⟨e, renames,
        .error (Fault.showing e.attemptCap (.attemptsExhausted clash m.name e.attemptCap))⟩
    | .failed fault => ⟨e, renames, .error (.ofSuffix fault)⟩

/-- Stores a member, its name being an identifier already. -/
def place (e : Enumeration) (m : Member) : Addition :=
  match e.valueTaken m.value with
  | .error fault => e.refuse fault
  | .ok valueTaken =>
    let clash : Clash := ⟨m.name, m.value, e.hasName m.name, valueTaken⟩
    if !clash.nameTaken && !clash.valueTaken then e.enlist m []
    else if !e.autoResolve.isTrue then e.refuse (Fault.showing m.value (.conflict clash))
    -- no other name frees a value
    else if clash.valueTaken then e.refuse (Fault.showing m.value (.valueConflict clash))
    else e.settle m

/-- The value of a member for which nothing, or something, was given. -/
def effectiveValue (e : Enumeration) (v : Value) : Value :=
  match v with
  | .null => e.noValue
  | _ => v

/-- Adds the member that is asked for. -/
def add (e : Enumeration) (r : Request) : Addition :=
  match r.name.bare with
  | .text requested =>
    let name := Identifier.memberName requested
    if name = "" then e.refuse (.unusableName requested .member)
    else
      match r.annotations.fault? with
      | some fault => e.refuse fault
      | none => e.place ⟨name, e.effectiveValue r.value, r.annotations.toList⟩
  | v => e.refuse (.notText v.kind)

/-- What adding several members came to. -/
structure Run where
  enumeration : Enumeration
  events : List Event
  results : List (Except Fault Member)

/-- Adds members one after another, whether or not earlier ones failed. -/
def run (e : Enumeration) : List Request → Run
  | [] => ⟨e, [], []⟩
  | r :: rs =>
    let first := e.add r
    let rest := run first.enumeration rs
    ⟨rest.enumeration, first.events ++ rest.events, first.result :: rest.results⟩

end Enumeration

end EnumDecl
