import EnumDecl.Proofs.Yaml.Character
import Mathlib.Data.List.SplitBy

/-!
# The runs of a text

Text that is written plain or in single quotes is cut into runs: of spaces, of line feeds and of
all other characters. A run that follows another one is of another kind.
-/

namespace EnumDecl.Yaml

/-- A run of characters that are neither spaces nor line feeds. -/
structure IsWord (w : List Char) : Prop where
  nonempty : w ≠ []
  chars : ∀ c ∈ w, c ≠ ' ' ∧ c ≠ '\n'

theorem IsWord.beq_space {w : List Char} (hw : IsWord w) : (w == [' ']) = false := by
  rw [beq_eq_false_iff_ne]
  rintro rfl
  exact (hw.chars ' ' (by simp)).1 rfl

/-- Runs one after another, each of another kind than the one before it. -/
inductive AreRuns : List (List Char) → Prop
  | nil : AreRuns []
  | spaces (n : Nat) {rs : List (List Char)} (h : AreRuns rs) (hne : rs.flatten.head? ≠ some ' ') :
      AreRuns (List.replicate (n + 1) ' ' :: rs)
  | feeds (n : Nat) {rs : List (List Char)} (h : AreRuns rs) (hne : rs.flatten.head? ≠ some '\n') :
      AreRuns (List.replicate (n + 1) '\n' :: rs)
  | word {w : List Char} {rs : List (List Char)} (hw : IsWord w) (h : AreRuns rs)
      (hnext : ∀ c ∈ rs.flatten.head?, c = ' ' ∨ c = '\n') : AreRuns (w :: rs)

/-- Characters of one kind. -/
def sameKind (a b : Char) : Bool := (a == ' ') == (b == ' ') && (a == '\n') == (b == '\n')

theorem sameKind_iff {a b : Char} :
    sameKind a b = true ↔ (a = ' ' ↔ b = ' ') ∧ (a = '\n' ↔ b = '\n') := by
  have hbeq : ∀ p q : Bool, (p == q) = true ↔ (p = true ↔ q = true) := by decide
  rw [sameKind, Bool.and_eq_true, hbeq, hbeq]
  simp only [beq_iff_eq]

/-- All characters of a run are of the kind of its first one. -/
theorem sameKind_of_isChain {c : Char} {cs : List Char}
    (h : (c :: cs).IsChain fun a b => sameKind a b = true) : ∀ d ∈ cs, sameKind c d = true := by
  induction cs generalizing c with
  | nil => exact fun d hd => absurd hd (by simp)
  | cons e es ih =>
    rw [List.isChain_cons_cons] at h
    intro d hd
    rcases List.mem_cons.mp hd with rfl | hd
    · exact h.1
    · have hed := sameKind_iff.mp (ih h.2 d hd)
      have hce := sameKind_iff.mp h.1
      exact sameKind_iff.mpr ⟨hce.1.trans hed.1, hce.2.trans hed.2⟩

/-- A list of characters of one kind is a run of one of the three kinds. -/
theorem run_cases {c : Char} {cs : List Char} (h : ∀ d ∈ cs, sameKind c d = true) :
    c :: cs = List.replicate (cs.length + 1) ' ' ∨ c :: cs = List.replicate (cs.length + 1) '\n' ∨
      IsWord (c :: cs) := by
  by_cases hs : c = ' '
  · left
    refine List.eq_replicate_iff.mpr ⟨rfl, List.forall_mem_cons.mpr ⟨hs, fun d hd => ?_⟩⟩
    exact (sameKind_iff.mp (h d hd)).1.mp hs
  · by_cases hf : c = '\n'
    · right; left
      refine List.eq_replicate_iff.mpr ⟨rfl, List.forall_mem_cons.mpr ⟨hf, fun d hd => ?_⟩⟩
      exact (sameKind_iff.mp (h d hd)).2.mp hf
    · right; right
      refine ⟨by simp, List.forall_mem_cons.mpr ⟨⟨hs, hf⟩, fun d hd => ?_⟩⟩
      have hk := sameKind_iff.mp (h d hd)
      exact ⟨fun hd => hs (hk.1.mpr hd), fun hd => hf (hk.2.mpr hd)⟩

theorem areRuns_of_splitBy {rs : List (List Char)} (hn : [] ∉ rs)
    (hc : ∀ r ∈ rs, r.IsChain fun a b => sameKind a b = true)
    (hb : rs.IsChain fun a b => ∃ ha hb, sameKind (a.getLast ha) (b.head hb) = false) :
    AreRuns rs := by
  induction rs with
  | nil => exact .nil
  | cons r rs ih =>
    obtain ⟨c, cs, rfl⟩ := List.exists_cons_of_ne_nil fun he : r = [] => hn (by simp [he])
    have hrest := ih (fun h => hn (List.mem_cons_of_mem _ h))
      (fun r hr => hc r (List.mem_cons_of_mem _ hr)) hb.tail
    have hsame := sameKind_of_isChain (hc _ List.mem_cons_self)
    -- the first character after the run is of another kind than the last one of the run
    have hnext : ∀ d ∈ rs.flatten.head?, sameKind c d = false := by
      intro d hd
      cases rs with
      | nil => exact absurd hd (by simp)
      | cons s ss =>
        cases s with
        | nil => exact absurd (by simp) hn
        | cons e es =>
          obtain ⟨⟨_, _, hdiff⟩, _⟩ := List.isChain_cons_cons.mp hb
          obtain rfl : e = d := by simpa using hd
          rw [List.head_cons] at hdiff
          have hlast : sameKind c ((c :: cs).getLast (by simp)) = true := by
            rcases List.mem_cons.mp (List.getLast_mem (l := c :: cs) (by simp)) with hl | hl
            · rw [hl]
              exact sameKind_iff.mpr ⟨Iff.rfl, Iff.rfl⟩
            · exact hsame _ hl
          by_contra hce
          have hce' := sameKind_iff.mp (Bool.eq_true_of_not_eq_false hce)
          have hl := sameKind_iff.mp hlast
          have hsame' := sameKind_iff.mpr ⟨hl.1.symm.trans hce'.1, hl.2.symm.trans hce'.2⟩
          exact absurd (hsame'.symm.trans hdiff) (by simp)
    rcases run_cases hsame with hr | hr | hr
    · have hc' : c = ' ' := (List.eq_replicate_iff.mp hr).2 c List.mem_cons_self
      rw [hr]
      exact .spaces _ hrest fun hh => absurd (hnext ' ' hh) (by rw [hc']; decide)
    · have hc' : c = '\n' := (List.eq_replicate_iff.mp hr).2 c List.mem_cons_self
      rw [hr]
      exact .feeds _ hrest fun hh => absurd (hnext '\n' hh) (by rw [hc']; decide)
    · refine .word hr hrest fun d hd => ?_
      have hdiff := hnext d hd
      obtain ⟨h1, h2⟩ := hr.chars c List.mem_cons_self
      by_contra hcon
      rw [not_or] at hcon
      have hsame' : sameKind c d = true :=
        sameKind_iff.mpr ⟨iff_of_false h1 hcon.1, iff_of_false h2 hcon.2⟩
      exact absurd (hsame'.symm.trans hdiff) (by simp)

/-- **A text is cut into runs**, which make up the text. -/
theorem areRuns_runs (cs : List Char) : AreRuns (runs cs) :=
  areRuns_of_splitBy (List.nil_notMem_splitBy _ cs) (fun _ => List.isChain_of_mem_splitBy)
    (List.isChain_getLast_head_splitBy _ cs)

theorem flatten_runs (cs : List Char) : (runs cs).flatten = cs := List.flatten_splitBy _ cs

/-- A word is one run. -/
theorem runs_word {w : List Char} (h : IsWord w) : runs w = [w] := by
  refine List.splitBy_of_isChain h.nonempty (List.pairwise_of_forall_mem_list fun a ha b hb =>
    ?_).isChain
  have hab : sameKind a b = true := sameKind_iff.mpr
    ⟨iff_of_false (h.chars a ha).1 (h.chars b hb).1,
    iff_of_false (h.chars a ha).2 (h.chars b hb).2⟩
  exact hab

end EnumDecl.Yaml
