import Mathlib.Data.List.Basic
import Mathlib.Tactic.SplitIfs
import SchemaModels.Text.Blank

/-!
Line ends written as line feeds, and line feeds written as other line ends.
-/
namespace SchemaModels.Text

theorem unifyNewlines_cons {c : Char} (h : c ≠ '\r') (rest : List Char) :
    unifyNewlines (c :: rest) = c :: unifyNewlines rest := by
  rw [unifyNewlines]
  · exact fun _ hReturn => (h hReturn).elim
  · exact h

/-- A carriage return on its own. -/
theorem unifyNewlines_return {rest : List Char} (h : ∀ after, rest ≠ '\n' :: after) :
    unifyNewlines ('\r' :: rest) = '\n' :: unifyNewlines rest := by
  rw [unifyNewlines]
  exact h

theorem unifyNewlines_of_not_mem {chars : List Char} (h : '\r' ∉ chars) :
    unifyNewlines chars = chars := by
  induction chars with
  | nil => rfl
  | cons c rest ih =>
      rw [List.mem_cons, not_or] at h
      rw [unifyNewlines_cons (Ne.symm h.1), ih h.2]

theorem unifyNewlines_eq_nil {chars : List Char} (h : unifyNewlines chars = []) : chars = [] := by
  fun_cases unifyNewlines chars with
  | case1 => rfl
  | case2 after => cases h
  | case3 after hNext =>
      rw [unifyNewlines_return hNext] at h
      cases h
  | case4 c after _ hReturn =>
      rw [unifyNewlines_cons hReturn] at h
      cases h

/-- The first character stays, or both are line ends. -/
theorem head?_unifyNewlines (chars : List Char) :
    (unifyNewlines chars).head? = chars.head? ∨
      (unifyNewlines chars).head? = some '\n' ∧ chars.head? = some '\r' := by
  fun_cases unifyNewlines chars with
  | case1 => exact Or.inl rfl
  | case2 after => exact Or.inr ⟨rfl, rfl⟩
  | case3 after => exact Or.inr ⟨rfl, rfl⟩
  | case4 c after => exact Or.inl rfl

/-- A text with another line end in the place of every line feed. -/
def withNewlines (newline : List Char) (chars : List Char) : List Char :=
  chars.flatMap fun c => if c = '\n' then newline else [c]

theorem withNewlines_feed (newline rest : List Char) :
    withNewlines newline ('\n' :: rest) = newline ++ withNewlines newline rest := rfl

theorem withNewlines_cons {c : Char} (h : c ≠ '\n') (newline rest : List Char) :
    withNewlines newline (c :: rest) = c :: withNewlines newline rest := by
  rw [withNewlines, List.flatMap_cons, if_neg h]
  rfl

theorem feed_not_mem_withNewlines (chars : List Char) : '\n' ∉ withNewlines ['\r'] chars := by
  rw [withNewlines, List.mem_flatMap]
  rintro ⟨c, -, hFeed⟩
  split_ifs at hFeed with hc
  · exact absurd hFeed (by decide)
  · exact hc (List.mem_singleton.mp hFeed).symm

/-- The first of the line ends that stand for line feeds. -/
theorem unifyNewlines_append_withNewlines {newline : List Char}
    (hNewline : newline = ['\r', '\n'] ∨ newline = ['\r']) (rest : List Char) :
    unifyNewlines (newline ++ withNewlines newline rest) =
      '\n' :: unifyNewlines (withNewlines newline rest) := by
  rcases hNewline with rfl | rfl
  · rfl
  · rw [List.singleton_append]
    apply unifyNewlines_return
    intro after hAfter
    have hFeed := feed_not_mem_withNewlines rest
    rw [hAfter] at hFeed
    exact hFeed (List.mem_cons_self ..)

/-- Other line ends are read as the line feeds that they were written for. -/
theorem unifyNewlines_withNewlines {newline chars : List Char}
    (hNewline : newline = ['\r', '\n'] ∨ newline = ['\r']) (hChars : '\r' ∉ chars) :
    unifyNewlines (withNewlines newline chars) = chars := by
  induction chars with
  | nil => rfl
  | cons c rest ih =>
      rw [List.mem_cons, not_or] at hChars
      by_cases hFeed : c = '\n'
      · subst hFeed
        rw [withNewlines_feed, unifyNewlines_append_withNewlines hNewline, ih hChars.2]
      · rw [withNewlines_cons hFeed, unifyNewlines_cons (Ne.symm hChars.1), ih hChars.2]

end SchemaModels.Text
