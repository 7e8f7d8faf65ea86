import EnumDecl.Proofs.Yaml.Double
import EnumDecl.Proofs.Yaml.Plain
import EnumDecl.Proofs.Yaml.Single
import EnumDecl.Yaml.Token

/-!
# The tokens of a written text

A scan *finds* the tokens of a text if it comes to its end without a fault (`Scan.Finds`). Between
two tokens, while no key is pending and no bracket is open, only little of it matters: what
remains, the column, and the collections that are open (`Spot`). One spot *leads* to another if
whatever is found from the second on is also found from the first one on, and so what is written
for a value is followed from spot to spot, token by token.
-/

namespace EnumDecl.Yaml

/-! ## Moving over characters -/

namespace Cursor

variable {c : Cursor} {u v : List Char}

theorem rest_next {d : Char} {ds : List Char} (h : c.rest = d :: ds) : c.next.rest = ds := by
  unfold next
  rw [h]
  dsimp only
  split
  · rfl
  · split <;> rfl

theorem rest_skip (h : c.rest = u ++ v) : (c.skip u.length).rest = v := by
  induction u generalizing c with
  | nil => exact h
  | cons d u ih => exact ih (rest_next h)

theorem skip_add (c : Cursor) (m n : Nat) : c.skip (m + n) = (c.skip m).skip n := by
  induction m generalizing c with
  | zero => rw [Nat.zero_add]; rfl
  | succ m ih => rw [Nat.succ_add]; exact ih c.next

theorem moveTo_append (h : c.rest = u ++ v) : c.moveTo v = c.skip u.length := by
  rw [moveTo, h, List.length_append, Nat.add_sub_cancel]

theorem exists_moveTo (h : c.rest = u ++ v) :
    ∃ index line column, c.moveTo v = ⟨v, index, line, column⟩ := by
  have hrest := rest_skip h
  rw [← moveTo_append h] at hrest
  obtain ⟨cs, index, line, column, hc⟩ :
      ∃ cs index line column, c.moveTo v = ⟨cs, index, line, column⟩ := ⟨_, _, _, _, rfl⟩
  rw [hc] at hrest
  cases hrest
  exact ⟨index, line, column, hc⟩

/-- A character that stands for itself takes one column. -/
theorem next_ordinary {d : Char} (hd : isOrdinary d = true) (index line column : Nat)
    (ds : List Char) :
    (⟨d :: ds, index, line, column⟩ : Cursor).next = ⟨ds, index + 1, line, column + 1⟩ := by
  have hbreak := isBreak_of_isOrdinary hd
  rw [isBreak, Bool.or_eq_false_iff] at hbreak
  have hmark : d ≠ '\uFEFF' := by
    rintro rfl
    exact absurd hd (by decide)
  unfold next
  dsimp only
  rw [hbreak.1, hbreak.2, if_neg (by simp), if_neg hmark]

theorem skip_ordinary (hu : ∀ d ∈ u, isOrdinary d = true) (index line column : Nat)
    (v : List Char) :
    (⟨u ++ v, index, line, column⟩ : Cursor).skip u.length
      = ⟨v, index + u.length, line, column + u.length⟩ := by
  induction u generalizing index column with
  | nil => rfl
  | cons d u ih =>
    rw [List.length_cons, skip, List.cons_append, next_ordinary (hu d List.mem_cons_self),
      ih fun e he => hu e (List.mem_cons_of_mem _ he)]
    congr 1 <;> omega

/-- The column after a line feed and an indentation is that of the indentation. -/
theorem moveTo_newLine {n : Nat} {tail : List Char} (h : c.rest = u ++ (newLine n ++ tail)) :
    ∃ index line, c.moveTo tail = ⟨tail, index, line, n⟩ := by
  have hassoc : c.rest = (u ++ newLine n) ++ tail := by rw [h, List.append_assoc]
  have hrest : (c.skip u.length).rest = '\n' :: (List.replicate n ' ' ++ tail) := rest_skip h
  obtain ⟨cs, index, line, column, hc⟩ :
      ∃ cs index line column, c.skip u.length = ⟨cs, index, line, column⟩ := ⟨_, _, _, _, rfl⟩
  rw [hc] at hrest
  cases hrest
  have hspaces : ∀ d ∈ List.replicate n ' ', isOrdinary d = true := fun d hd => by
    rw [(List.mem_replicate.mp hd).2]
    rfl
  have hskip := skip_ordinary hspaces (index + 1) (line + 1) 0 tail
  rw [List.length_replicate] at hskip
  refine ⟨index + 1 + n, line + 1, ?_⟩
  rw [moveTo_append hassoc, List.length_append, skip_add, hc, newLine, List.length_cons,
    List.length_replicate]
  show (Cursor.skip ⟨List.replicate n ' ' ++ tail, index + 1, line + 1, 0⟩ n) = _
  rw [hskip]
  congr 1
  omega

end Cursor

/-! ## Runs to the end -/

namespace Scan

/-- A scan that finds all tokens of its text, of which each but the last step takes some
characters. -/
inductive Finds : Scan → List Token → Prop
  | last {s t : Scan} (h : s.next = .ok (true, t)) : Finds s t.tokens.reverse
  | more {s t : Scan} {ts : List Token} (h : s.next = .ok (false, t))
      (hlt : t.cursor.rest.length < s.cursor.rest.length) (ht : Finds t ts) : Finds s ts

/-- **A step for each character is enough.** -/
theorem Finds.all {s : Scan} {ts : List Token} (h : Finds s ts) {fuel : Nat}
    (hf : s.cursor.rest.length < fuel) : all fuel s = .ok ts := by
  induction h generalizing fuel with
  | last h =>
    obtain ⟨fuel, rfl⟩ : ∃ f, fuel = f + 1 := ⟨fuel - 1, by omega⟩
    rw [Scan.all, h]
  | more h hlt _ ih =>
    obtain ⟨fuel, rfl⟩ : ∃ f, fuel = f + 1 := ⟨fuel - 1, by omega⟩
    rw [Scan.all, h]
    exact ih (by omega)

/-- What is found depends on the next step only. -/
theorem Finds.of_arrive_eq {s t : Scan} {ts : List Token} (h : Finds t ts)
    (ha : s.arrive = t.arrive)
    (hle : t.cursor.rest.length ≤ s.cursor.rest.length) : Finds s ts := by
  have hnext : s.next = t.next := by
    unfold next
    rw [ha]
  cases h with
  | last h => exact .last (hnext.trans h)
  | more h hlt ht => exact .more (hnext.trans h) (by omega) ht

theorem toNextToken_begins {s : Scan} (h : BeginsToken s.cursor.rest) (fuel : Nat) :
    s.toNextToken (fuel + 1) = s := by
  have hspaces : s.cursor.rest.dropWhile (· == ' ') = s.cursor.rest := dropWhile_spaces 0 h.space
  have hcomment : afterComment s.cursor.rest = s.cursor.rest := if_neg h.comment
  unfold toNextToken
  dsimp only
  rw [hspaces, hcomment, h.lineBreak]
  show s.moveTo s.cursor.rest = s
  rw [moveTo, Cursor.moveTo, Nat.sub_self]
  rfl

theorem skipMark_eq {s : Scan} (h : s.cursor.rest.head? ≠ some '\uFEFF') : s.skipMark = s := by
  have hpeek : (s.cursor.peek == '\uFEFF') = false := by
    rw [beq_eq_false_iff_ne, Cursor.peek]
    cases hr : s.cursor.rest with
    | nil => exact (by decide)
    | cons c cs =>
      rw [hr] at h
      simpa using h
  unfold skipMark
  rw [hpeek, Bool.and_false]
  rfl

/-- Where a token begins and no pending key is given up, only the collections that end before it
are closed. -/
theorem arrive_eq {s : Scan} (h : BeginsToken s.cursor.rest) (hs : s.dropStale = .ok s) :
    s.arrive = .ok (s.unwind s.cursor.column) := by
  unfold arrive
  rw [skipMark_eq h.byteOrder]
  dsimp only
  rw [toNextToken_begins h, hs]
  rfl

end Scan

/-! ## Spots -/

/-- A scan outside of all brackets while no key is pending. How many characters and lines were read
before is of no account. -/
structure Spot where
  rest : List Char
  column : Nat
  tokens : List Token
  indent : Int
  outer : List Int
  keyAllowed : Bool

namespace Spot

/-- The scan after so many characters and lines. -/
def scan (p : Spot) (index line : Nat) : Scan :=
  ⟨⟨p.rest, index, line, p.column⟩, p.tokens, p.indent, p.outer, p.keyAllowed, none, []⟩

/-- The tokens that are found from a spot on. -/
def Finds (p : Spot) (ts : List Token) : Prop := ∀ index line, (p.scan index line).Finds ts

/-- One spot comes after another. -/
def Leads (p q : Spot) : Prop := ∀ ts, q.Finds ts → p.Finds ts

theorem Leads.trans {p q r : Spot} (h : p.Leads q) (h' : q.Leads r) : p.Leads r :=
  fun ts hts => h ts (h' ts hts)

theorem dropStale_scan (p : Spot) (index line : Nat) :
    (p.scan index line).dropStale = .ok (p.scan index line) := rfl

/-- Where a token is led to by white space it is arrived at from there. -/
theorem arrive_of_toNextToken {p q : Spot} (hp : p.rest.head? ≠ some '\uFEFF')
    (hq : BeginsToken q.rest) {index line index' line' : Nat}
    (h : (p.scan index line).toNextToken (p.rest.length + 1) = q.scan index' line') :
    (p.scan index line).arrive = (q.scan index' line').arrive := by
  rw [Scan.arrive_eq hq (dropStale_scan q index' line')]
  unfold Scan.arrive
  rw [Scan.skipMark_eq hp]
  dsimp only
  show ((p.scan index line).toNextToken (p.rest.length + 1)).dropStale >>= _ = _
  rw [h, dropStale_scan]
  rfl

variable {tail : List Char} {column n : Nat} {T : List Token} {indent : Int} {outer : List Int}
  {allowed : Bool}

theorem toNextToken_spaces (h : BeginsToken tail) (fuel index line : Nat) :
    (scan ⟨List.replicate n ' ' ++ tail, column, T, indent, outer, allowed⟩ index line).toNextToken
        (fuel + 1)
      = scan ⟨tail, column + n, T, indent, outer, allowed⟩ (index + n) line := by
  have hspaces : (List.replicate n ' ' ++ tail).dropWhile (· == ' ') = tail :=
    dropWhile_spaces n h.space
  have hcomment : Scan.afterComment tail = tail := if_neg h.comment
  have hmove : Cursor.moveTo ⟨List.replicate n ' ' ++ tail, index, line, column⟩ tail
      = ⟨tail, index + n, line, column + n⟩ := by
    have hskip := Cursor.skip_ordinary (u := List.replicate n ' ')
      (fun d hd => by rw [(List.mem_replicate.mp hd).2]; rfl) index line column tail
    rwa [← Cursor.moveTo_append rfl, List.length_replicate] at hskip
  unfold Scan.toNextToken scan
  dsimp only
  rw [hspaces, hcomment, h.lineBreak]
  dsimp only
  rw [Scan.moveTo, hmove]
  rfl

/-- A space before a token is passed over. -/
theorem leads_space (h : BeginsToken tail) :
    Leads ⟨' ' :: tail, column, T, indent, outer, allowed⟩
      ⟨tail, column + 1, T, indent, outer, allowed⟩ := by
  intro ts hts index line
  exact (hts (index + 1) line).of_arrive_eq
    (arrive_of_toNextToken (by simp) h (toNextToken_spaces (n := 1) h _ _ _)) (Nat.le_succ _)

/-- The end of a line and the indentation of the next one are passed over, and a key may follow. -/
theorem leads_newLine (h : BeginsToken tail) :
    Leads ⟨newLine n ++ tail, column, T, indent, outer, allowed⟩
      ⟨tail, n, T, indent, outer, true⟩ := by
  intro ts hts index line
  refine (hts (index + 1 + n) (line + 1)).of_arrive_eq
    (arrive_of_toNextToken (by simp [newLine]) h ?_)
    (by simp [scan])
  have hspaces : (newLine n ++ tail).dropWhile (· == ' ') = newLine n ++ tail := rfl
  have hcomment : Scan.afterComment (newLine n ++ tail) = newLine n ++ tail :=
    if_neg (by simp [newLine])
  have hbreak : lineBreak? (newLine n ++ tail) = some ('\n', List.replicate n ' ' ++ tail) := rfl
  have hmove :
    Cursor.moveTo ⟨newLine n ++ tail, index, line, column⟩ (List.replicate n ' ' ++ tail)
      = ⟨List.replicate n ' ' ++ tail, index + 1, line + 1, 0⟩ :=
    Cursor.moveTo_append (u := ['\n']) rfl
  have hrest : (scan ⟨List.replicate n ' ' ++ tail, 0, T, indent, outer, true⟩ (index + 1)
      (line + 1)).toNextToken (n + tail.length + 1)
        = scan ⟨tail, 0 + n, T, indent, outer, true⟩ (index + 1 + n) (line + 1) :=
    toNextToken_spaces h _ _ _
  rw [Nat.zero_add] at hrest
  rw [Scan.toNextToken]
  dsimp only [scan]
  rw [hspaces, hcomment, hbreak]
  dsimp only
  -- what was left of the fuel is enough for the spaces of the next line
  have hlength : (newLine n ++ tail).length = n + tail.length + 1 := by
    simp [newLine]
  rw [Scan.moveTo, hmove, hlength]
  refine Eq.trans ?_ hrest
  cases allowed <;> rfl

/-- A collection that is indented deeper than the column of a token is closed. -/
theorem leads_close {c : Int} (h : BeginsToken tail) (hn : (n : Int) < indent) :
    Leads ⟨tail, n, T, indent, c :: outer, allowed⟩
      ⟨tail, n, .blockEnd :: T, c, outer, allowed⟩ := by
  intro ts hts index line
  refine (hts index line).of_arrive_eq ?_ (Nat.le_refl _)
  rw [Scan.arrive_eq h (dropStale_scan _ _ _), Scan.arrive_eq h (dropStale_scan _ _ _)]
  have hclose : Scan.unwindTo n (c :: outer) indent T = Scan.unwindTo n outer c (.blockEnd :: T) :=
    if_pos hn
  unfold Scan.unwind scan
  dsimp only
  rw [hclose]
  rfl

end Spot

end EnumDecl.Yaml
