import Mathlib.Data.List.Chain
import SchemaModels.Proofs.Yaml.Plain
import SchemaModels.Proofs.Yaml.Quoted

/-!
Texts that are written by their runs, in single quotes or plain. The runs of a text make
it up again; each has something in it, and gaps and words alternate in a text that has no
space next to a line feed. What is written of such runs is in the grammar of what is read.
-/
namespace SchemaModels.Yaml.Writer

open Text (IsVisibleAscii)

theorem isOrdinary_iff {c : Char} : isOrdinary c = true ↔ c = '\n' ∨ IsVisibleAscii c := by
  have hRange : (' ' ≤ c ∧ c ≤ '~') ↔ IsVisibleAscii c := by
    rw [IsVisibleAscii, Nat.lt_succ_iff]
    exact Iff.rfl
  rw [isOrdinary, Bool.or_eq_true, Bool.and_eq_true, decide_eq_true_iff, decide_eq_true_iff, hRange,
    beq_iff_eq]

namespace Run

/-- The characters of a run. -/
def text : Run → List Char
  | .spaces count => List.replicate count ' '
  | .breaks count => List.replicate count '\n'
  | .words chars => chars

def isGap : Run → Bool
  | .words _ => false
  | _ => true

/-- A run has something in it, and words have no gaps in them. -/
def IsProper : Run → Prop
  | .spaces count | .breaks count => 0 < count
  | .words chars => chars ≠ [] ∧ ∀ c ∈ chars, IsVisibleAscii c ∧ c ≠ ' '

end Run

/-- The text of some runs. -/
def textOf (runs : List Run) : List Char := runs.flatMap Run.text

@[simp] theorem textOf_nil : textOf [] = [] := rfl

@[simp] theorem textOf_cons (run : Run) (runs : List Run) :
    textOf (run :: runs) = run.text ++ textOf runs := List.flatMap_cons

theorem textOf_addChar (c : Char) (runs : List Run) :
    textOf (addChar c runs) = c :: textOf runs := by
  unfold addChar
  split_ifs with hSpace hFeed
  · subst hSpace
    split <;> simp [Run.text, List.replicate_succ]
  · subst hFeed
    split <;> simp [Run.text, List.replicate_succ]
  · split <;> simp [Run.text]

/-- The runs of a text make it up. -/
@[simp] theorem textOf_runsOf (chars : List Char) : textOf (runsOf chars) = chars := by
  induction chars with
  | nil => rfl
  | cons c chars ih => rw [runsOf, List.foldr_cons, textOf_addChar, ← runsOf, ih]

/-- Gaps and words by turns. -/
structure Alternates (runs : List Run) : Prop where
  proper : ∀ run ∈ runs, run.IsProper
  apart : runs.IsChain fun run next => run.isGap ≠ next.isGap

namespace Alternates

theorem nil : Alternates [] := ⟨by simp, .nil⟩

theorem tail {run : Run} {runs : List Run} (h : Alternates (run :: runs)) : Alternates runs :=
  ⟨fun other hOther => h.proper other (List.mem_cons_of_mem _ hOther), h.apart.tail⟩

theorem head {run : Run} {runs : List Run} (h : Alternates (run :: runs)) : run.IsProper :=
  h.proper run (List.mem_cons_self ..)

end Alternates

theorem alternates_cons {run : Run} {runs : List Run} : Alternates (run :: runs) ↔
    run.IsProper ∧ (∀ next ∈ runs.head?, run.isGap ≠ next.isGap) ∧ Alternates runs := by
  constructor
  · intro h
    exact ⟨h.head, (List.isChain_cons.mp h.apart).1, h.tail⟩
  · rintro ⟨hRun, hNext, h⟩
    exact ⟨List.forall_mem_cons.mpr ⟨hRun, h.proper⟩, List.isChain_cons.mpr ⟨hNext, h.apart⟩⟩

theorem head?_textOf_spaces {count : Nat} (h : (Run.spaces count).IsProper) (runs : List Run) :
    (textOf (.spaces count :: runs)).head? = some ' ' := by
  obtain ⟨n, rfl⟩ := Nat.exists_eq_succ_of_ne_zero (Nat.ne_of_gt h)
  rfl

theorem head?_textOf_breaks {count : Nat} (h : (Run.breaks count).IsProper) (runs : List Run) :
    (textOf (.breaks count :: runs)).head? = some '\n' := by
  obtain ⟨n, rfl⟩ := Nat.exists_eq_succ_of_ne_zero (Nat.ne_of_gt h)
  rfl

/-- A character goes with the run behind it or begins one of its own. -/
theorem addChar_alternates {c : Char} {runs : List Run} (h : Alternates runs)
    (hOrdinary : isOrdinary c = true) (hSpace : c = ' ' → (textOf runs).head? ≠ some '\n')
    (hFeed : c = '\n' → (textOf runs).head? ≠ some ' ') : Alternates (addChar c runs) := by
  unfold addChar
  split_ifs with hs hf
  · split
    · exact alternates_cons.mpr ⟨Nat.succ_pos _, (alternates_cons.mp h).2⟩
    · rename_i hOther
      refine alternates_cons.mpr ⟨Nat.one_pos, fun next hNext => ?_, h⟩
      obtain ⟨rest, rfl⟩ := List.head?_eq_some_iff.mp hNext
      cases next with
      | spaces count => exact absurd rfl (hOther count rest)
      | breaks count => exact absurd (head?_textOf_breaks h.head rest) (hSpace hs)
      | words chars => simp [Run.isGap]
  · split
    · exact alternates_cons.mpr ⟨Nat.succ_pos _, (alternates_cons.mp h).2⟩
    · rename_i hOther
      refine alternates_cons.mpr ⟨Nat.one_pos, fun next hNext => ?_, h⟩
      obtain ⟨rest, rfl⟩ := List.head?_eq_some_iff.mp hNext
      cases next with
      | spaces count => exact absurd (head?_textOf_spaces h.head rest) (hFeed hf)
      | breaks count => exact absurd rfl (hOther count rest)
      | words chars => simp [Run.isGap]
  · have hVisible := (isOrdinary_iff.mp hOrdinary).resolve_left hf
    split
    · rename_i chars rest
      obtain ⟨⟨-, hChars⟩, hRest⟩ := alternates_cons.mp h
      have hWords := List.forall_mem_cons.mpr ⟨⟨hVisible, hs⟩, hChars⟩
      exact alternates_cons.mpr ⟨⟨List.cons_ne_nil _ _, hWords⟩, hRest⟩
    · rename_i hOther
      have hWords : (Run.words [c]).IsProper :=
        ⟨List.cons_ne_nil _ _, List.forall_mem_singleton.mpr ⟨hVisible, hs⟩⟩
      refine alternates_cons.mpr ⟨hWords, fun next hNext => ?_, h⟩
      obtain ⟨rest, rfl⟩ := List.head?_eq_some_iff.mp hNext
      cases next with
      | spaces count => simp [Run.isGap]
      | breaks count => simp [Run.isGap]
      | words chars => exact absurd rfl (hOther chars rest)

theorem hasPair_cons {first second c : Char} {rest : List Char} :
    hasPair first second (c :: rest) = false ↔
      ¬(c = first ∧ rest.head? = some second) ∧ hasPair first second rest = false := by
  cases rest with
  | nil => simp [hasPair]
  | cons d rest => simp [hasPair]

/-- The runs of a text without a space next to a line feed. -/
theorem runsOf_alternates {chars : List Char} (hOrdinary : ∀ c ∈ chars, isOrdinary c = true)
    (hSpace : hasPair ' ' '\n' chars = false)
    (hFeed : hasPair '\n' ' ' chars = false) : Alternates (runsOf chars) := by
  induction chars with
  | nil => exact .nil
  | cons c chars ih =>
      rw [hasPair_cons] at hSpace hFeed
      rw [List.forall_mem_cons] at hOrdinary
      rw [runsOf, List.foldr_cons, ← runsOf]
      refine addChar_alternates (ih hOrdinary.2 hSpace.2 hFeed.2) hOrdinary.1 ?_ ?_
      · rw [textOf_runsOf]
        exact fun hc hHead => hSpace.1 ⟨hc, hHead⟩
      · rw [textOf_runsOf]
        exact fun hc hHead => hFeed.1 ⟨hc, hHead⟩

/-- Whatever is written of words begins as they do. -/
theorem head?_writeWords (quoted : Bool) (chars : List Char) :
    (writeWords quoted chars).head? = chars.head? := by
  unfold writeWords
  split
  · cases chars with
    | nil => rfl
    | cons c chars =>
        rw [List.flatMap_cons]
        split <;> rfl
  · rfl

/-- Behind a gap there are words, or nothing. -/
theorem startsInside_writeRuns {gap : Run} {runs : List Run} (h : Alternates (gap :: runs))
    (hGap : gap.isGap = true) (quoted first : Bool) (column : Nat) :
    StartsInside (writeRuns quoted first column runs) := by
  obtain ⟨-, hNext, hRuns⟩ := alternates_cons.mp h
  cases runs with
  | nil => exact startsInside_nil
  | cons run runs =>
      have hWords := hNext run rfl
      cases run with
      | spaces count => exact absurd hGap hWords
      | breaks count => exact absurd hGap hWords
      | words chars =>
          obtain ⟨hSome, hChars⟩ := hRuns.head
          intro c hc
          have hWritten : writeWords quoted chars ≠ [] := by
            rw [← List.head?_eq_none_iff.ne, head?_writeWords]
            exact mt List.head?_eq_none_iff.mp hSome
          rw [writeRuns, List.head?_append_of_ne_nil _ hWritten, head?_writeWords] at hc
          obtain ⟨hVisible, hSpace⟩ := hChars c (List.mem_of_mem_head? hc)
          exact isSeparator_of_visible hVisible hSpace

section Quoted

theorem quotes_words {chars written text : List Char}
    (hChars : ∀ c ∈ chars, IsVisibleAscii c ∧ c ≠ ' ') (more : Quotes false written text) :
    Quotes false (writeWords true chars ++ written) (chars ++ text) := by
  induction chars with
  | nil => exact more
  | cons c chars ih =>
      obtain ⟨⟨hVisible, hSpace⟩, hRest⟩ := List.forall_mem_cons.mp hChars
      have hMore := ih hRest
      simp only [writeWords, if_true, List.flatMap_cons, List.append_assoc] at hMore ⊢
      split
      · rename_i hQuote
        rw [hQuote]
        exact .doubled hMore
      · rename_i hQuote
        exact .char hVisible hSpace hQuote (by simp) hMore

theorem foldBreaks_feeds {count : Nat} (h : 0 < count) :
    foldBreaks '\n' (List.replicate count '\n') = List.replicate count '\n' := by
  obtain ⟨n, rfl⟩ := Nat.exists_eq_succ_of_ne_zero (Nat.ne_of_gt h)
  rfl

/-- Runs in single quotes. -/
theorem quotes_writeRuns {runs : List Run} (hRuns : Alternates runs) (first : Bool) (column : Nat) :
    Quotes false (writeRuns true first column runs) (textOf runs) := by
  induction runs generalizing first column with
  | nil => exact .nil
  | cons run runs ih =>
      have hMore := ih hRuns.tail
      rw [textOf_cons]
      cases run with
      | spaces count =>
          obtain ⟨n, rfl⟩ := Nat.exists_eq_succ_of_ne_zero (Nat.ne_of_gt hRuns.head)
          have hInside := startsInside_writeRuns hRuns rfl true false
          rw [writeRuns]
          split
          · rename_i hLong
            obtain rfl : n = 0 := by
              simp only [Bool.and_eq_true, decide_eq_true_iff] at hLong
              omega
            exact .lines 0 (hInside _) (hMore false _)
          · exact .spaces n (hInside _) (hMore false _)
      | breaks count =>
          have hInside := startsInside_writeRuns hRuns rfl true false continuationIndent
          have hLines := Quotes.lines count hInside (hMore false _)
          rwa [foldBreaks_feeds hRuns.head] at hLines
      | words chars => exact quotes_words hRuns.head.2 (hMore false _)

end Quoted

section Plain

/-- What may follow behind some characters. -/
theorem mayFollow_append {before : Char} {chars more : List Char}
    (h : mayFollow before (chars ++ more) = true) :
    mayFollow (chars.getLast?.getD before) more = true := by
  induction chars generalizing before with
  | nil => exact h
  | cons c chars ih =>
      rw [List.cons_append, mayFollow, Bool.and_eq_true] at h
      have hMore := ih h.2
      rwa [List.getLast?_cons, Option.getD_some]

/-- Words in front of a space or at the end are a piece of a plain scalar. -/
theorem isPiece_of_mayFollow {chars more : List Char} (hWords : (Run.words chars).IsProper)
    (hEnd : endsOr isSeparator more = true) (h : mayFollow ' ' (chars ++ more) = true) :
    IsPiece chars where
  nonempty := hWords.1
  visible c hc := (hWords.2 c hc).1
  spaceless hSpace := (hWords.2 ' ' hSpace).2 rfl
  head hHead := by
    obtain ⟨rest, rfl⟩ := List.head?_eq_some_iff.mp hHead
    simp [mayFollow, isSeparator] at h
  last hLast := by
    obtain ⟨init, rfl⟩ := List.getLast?_eq_some_iff.mp hLast
    rw [List.append_assoc] at h
    have hColon := mayFollow_append h
    simp [mayFollow, hEnd] at hColon

/-- In one line that ends in no space, words are followed by spaces and words again. -/
theorem eq_nil_or_spaces_words {chars : List Char} {runs : List Run}
    (h : Alternates (.words chars :: runs)) (hLine : '\n' ∉ textOf runs)
    (hLast : (textOf runs).getLast? ≠ some ' ') :
    runs = [] ∨ ∃ n more rest, runs = .spaces (n + 1) :: .words more :: rest := by
  cases runs with
  | nil => exact .inl rfl
  | cons gap runs =>
      right
      obtain ⟨-, hGap, hRuns⟩ := alternates_cons.mp h
      cases gap with
      | words other => exact absurd rfl (hGap (.words other) rfl)
      | breaks count =>
          refine absurd (List.mem_append_left _ ?_) hLine
          exact List.mem_replicate.mpr ⟨Nat.ne_of_gt hRuns.head, rfl⟩
      | spaces count =>
          obtain ⟨n, rfl⟩ := Nat.exists_eq_succ_of_ne_zero (Nat.ne_of_gt hRuns.head)
          cases runs with
          | nil => simp [Run.text, List.replicate_succ'] at hLast
          | cons next rest =>
              obtain ⟨-, hNext, -⟩ := alternates_cons.mp hRuns
              cases next with
              | words more => exact ⟨n, more, rest, rfl⟩
              | spaces other => exact absurd rfl (hNext (.spaces other) rfl)
              | breaks other => exact absurd rfl (hNext (.breaks other) rfl)

/-- Runs of a plain text of one line. -/
theorem plain_writeRuns {chars : List Char} {runs : List Run}
    (hRuns : Alternates (.words chars :: runs)) (hLine : '\n' ∉ textOf runs)
    (hLast : (textOf runs).getLast? ≠ some ' ')
    (hFollow : mayFollow ' ' (chars ++ textOf runs) = true) (first : Bool) (column : Nat) :
    Plain (writeRuns false first column (.words chars :: runs)) (chars ++ textOf runs) := by
  rcases eq_nil_or_spaces_words hRuns hLine hLast with rfl | ⟨n, more, rest, rfl⟩
  · have hPiece := isPiece_of_mayFollow hRuns.head rfl hFollow
    simpa [writeRuns, writeWords] using Plain.last hPiece
  · simp only [textOf_cons, Run.text] at hLine hLast hFollow ⊢
    have hPiece := isPiece_of_mayFollow hRuns.head rfl hFollow
    have hLine' : '\n' ∉ textOf rest := fun h =>
      hLine (List.mem_append_right _ (List.mem_append_right _ h))
    have hLast' : (textOf rest).getLast? ≠ some ' ' := by
      intro h
      simp [List.getLast?_append, h] at hLast
    have hFollow' : mayFollow ' ' (more ++ textOf rest) = true := by
      have hBehind := mayFollow_append (mayFollow_append hFollow)
      rwa [List.getLast?_replicate, if_neg (Nat.succ_ne_zero n), Option.getD_some] at hBehind
    have hMore := plain_writeRuns hRuns.tail.tail hLine' hLast' hFollow' false
    simp only [writeRuns, writeWords, Bool.false_eq_true, if_false] at hMore ⊢
    split
    · rename_i hLong
      obtain rfl : n = 0 := by
        simp only [Bool.and_eq_true, decide_eq_true_iff] at hLong
        omega
      exact .folded hPiece (hMore _)
    · exact .spaced n hPiece (hMore _)
termination_by runs.length

end Plain

end SchemaModels.Yaml.Writer
