import EnumDecl.Annotation
import EnumDecl.Fault

/-!
# Requests

A `Request` is what a caller hands over to have a member: a name that is still to be made an
identifier, a value, which may be missing, and an argument for the annotations. That argument may
be left out, it may be one annotation, or it is something that annotations are taken from one after
another. This may end in a fault, before the first annotation or after some.

What has been stored or dumped is asked for again with all its annotations at once.

Annotations may also be taken from an iterator, which yields each of them once. Calls that are
given one iterator share what it yields: a call that looks at its annotations takes all that are
left, whatever becomes of it, and the next one finds none (`requests`).
-/

namespace EnumDecl

/-- The argument for the annotations of a member. -/
inductive Annotations
  | none
  | one (item : Annotation)
  | many (items : List Annotation)
  | /-- Something that breaks off after some annotations. -/
    broken (items : List Annotation) (message : String)
  | /-- A single thing that nothing can be taken from. -/
    single (kind : Value.Kind) (h : kind.isSingle = true)

namespace Annotations

/-- The annotations that an argument yields, in order. -/
def toList : Annotations → List Annotation
  | .none => []
  | .one a => [a]
  | .many as => as
  | .broken as _ => as
  | .single _ _ => []

/-- Why not all annotations of an argument can be had. -/
def fault? : Annotations → Option Fault
  | .broken _ message => some (.interrupted message)
  | .single kind _ => some (.notIterable kind)
  | _ => Option.none

end Annotations

/-- What a caller asks for. -/
structure Request where
  name : Value
  value : Value
  annotations : Annotations

/-- The request for what an entry says. -/
def Entry.request (r : Entry) : Request := ⟨r.name, r.value, .many r.annotations⟩

/-- The request for what a member is. -/
def Member.request (m : Member) : Request := m.toEntry.request

/-- A request asks for what an entry says, whatever its annotations are taken from. -/
structure Request.Asks (r : Request) (x : Entry) : Prop where
  name : r.name = x.name
  value : r.value = x.value
  annotations : r.annotations.toList = x.annotations
  readable : r.annotations.fault? = none

@[simp] theorem Entry.request_name (r : Entry) : r.request.name = r.name := rfl

@[simp] theorem Entry.request_value (r : Entry) : r.request.value = r.value := rfl

@[simp] theorem Entry.request_annotations (r : Entry) :
    r.request.annotations = .many r.annotations := rfl

/-! ## Iterators -/

/-- What is left in each iterator. -/
abbrev Iterators : Type := Nat → Annotations

/-- What a call is given for annotations: an argument, or an iterator by its number. -/
inductive Offer
  | argument (annotations : Annotations)
  | iterator (number : Nat)

/-- A call as it is written down, before anything is taken from an iterator. -/
structure Call where
  name : Value
  value : Value
  offer : Offer

/-- What an offer comes to while so much is left in the iterators. -/
def Offer.annotations (left : Iterators) : Offer → Annotations
  | .argument as => as
  | .iterator n => left n

/-- What is asked for by a call. -/
def Call.request (left : Iterators) (c : Call) : Request :=
  ⟨c.name, c.value, c.offer.annotations left⟩

/-- Tells whether a call gets as far as its annotations, which are looked at once there is a
name. -/
def Call.isNamed (c : Call) : Bool :=
  match c.name.bare with
  | .text requested => Identifier.memberName requested != ""
  | _ => false

/-- What is left in the iterators after a call. -/
def Call.leaves (left : Iterators) (c : Call) : Iterators :=
  match c.offer with
  | .argument _ => left
  | .iterator n => if c.isNamed then fun k => if k = n then .many [] else left k else left

/-- What is asked for by calls made one after another. -/
def requests (left : Iterators) : List Call → List Request
  | [] => []
  | c :: cs => c.request left :: requests (c.leaves left) cs

/-- No two calls are given one iterator. -/
def Unshared (cs : List Call) : Prop :=
  cs.Pairwise fun c d => ∀ n, ¬ (c.offer = .iterator n ∧ d.offer = .iterator n)

/-- A call does not touch the iterator of another one. -/
theorem Call.request_leaves {left : Iterators} {c d : Call}
    (h : ∀ n, ¬ (c.offer = .iterator n ∧ d.offer = .iterator n)) :
    d.request (c.leaves left) = d.request left := by
  have hoffer : d.offer.annotations (c.leaves left) = d.offer.annotations left := by
    cases hd : d.offer with
    | argument as => rfl
    | iterator n =>
      cases hc : c.offer with
      | argument as => simp only [leaves, hc]
      | iterator k =>
        have hne : n ≠ k := fun he => h k ⟨hc, he ▸ hd⟩
        simp only [leaves, hc, Offer.annotations]
        split
        · exact if_neg hne
        · rfl
  simp only [request, hoffer]

/-- Calls that share no iterator each find what was in theirs at the beginning. -/
theorem requests_of_unshared {left : Iterators} {cs : List Call} (h : Unshared cs) :
    requests left cs = cs.map (Call.request left) := by
  induction cs generalizing left with
  | nil => rfl
  | cons c cs ih =>
    obtain ⟨hc, hcs⟩ := List.pairwise_cons.mp h
    rw [requests, ih hcs, List.map_cons]
    exact congrArg _ (List.map_congr_left fun d hd => Call.request_leaves (hc d hd))

end EnumDecl
