/-!
Patterns for one name. A star stands for any characters, a question mark for
one, and brackets for one of a set; a bracket that is not closed is a character
like others.
-/
namespace SchemaModels.Glob

/-- A piece of a pattern. -/
inductive Piece where
  | char (c : Char)
  | one
  | any
  | set (negated : Bool) (ranges : List (Char × Char))
  deriving DecidableEq, Repr

/-- The members of a set as ranges. A hyphen between two characters makes a
range; a range in the wrong direction has no members. -/
def rangesOf : List Char → List (Char × Char)
  | low :: '-' :: high :: rest => (low, high) :: rangesOf rest
  | c :: rest => (c, c) :: rangesOf rest
  | [] => []

/-- Splits the mark off that turns a set around. -/
def splitNegation : List Char → Bool × List Char
  | '!' :: rest => (true, rest)
  | chars => (false, chars)

/-- A set that begins behind an opening bracket, and what follows it. The first
member may be a closing bracket. -/
def set? (chars : List Char) : Option (Piece × List Char) :=
  match splitNegation chars with
  | (_, []) => none
  | (negated, first :: rest) =>
    match rest.dropWhile (· != ']') with
    | [] => none
    | _ :: after =>
      some (.set negated (rangesOf (first :: rest.takeWhile (· != ']'))), after)

theorem set?_length {chars after : List Char} {piece : Piece} (h : set? chars = some (piece, after)) :
    after.length < chars.length := by
  have hn : (splitNegation chars).2.length ≤ chars.length := by
    fun_cases splitNegation chars <;> simp
  unfold set? at h
  split at h
  · simp at h
  · rename_i first rest hs
    have hd := (List.dropWhile_suffix (· != ']') (l := rest)).length_le
    split at h
    · simp at h
    · rename_i c left hl
      simp only [Option.some.injEq, Prod.mk.injEq] at h
      obtain ⟨_, rfl⟩ := h
      simp only [hs, hl, List.length_cons] at hn hd
      omega

/-- The pieces of a pattern. -/
def pieces (chars : List Char) : List Piece :=
  match chars with
  | [] => []
  | c :: rest =>
    if c = '*' then .any :: pieces rest
    else if c = '?' then .one :: pieces rest
    else if c = '[' then
      match _h : set? rest with
      | some (piece, after) => piece :: pieces after
      | none => .char c :: pieces rest
    else .char c :: pieces rest
termination_by chars.length
decreasing_by
  all_goals simp only [List.length_cons]
  any_goals omega
  exact Nat.lt_succ_of_lt (set?_length _h)

/-- A text and the texts that are left when characters are taken from its
front. -/
def tails : List Char → List (List Char)
  | [] => [[]]
  | c :: rest => (c :: rest) :: tails rest

/-- Whether one piece other than a star stands for a character. -/
def Piece.admits (c : Char) : Piece → Bool
  | .char d => c == d
  | .one => true
  | .any => true
  | .set negated ranges => (ranges.any fun range => range.1 ≤ c && c ≤ range.2) != negated

/-- What can be left of a name behind one more piece, given what can be left in
front of it. All of it are tails of one name, the longest first, so behind a star
every tail of the first can be left, and no other. -/
def leftBehind : Piece → List (List Char) → List (List Char)
  | .any, [] => []
  | .any, longest :: _ => tails longest
  | piece, left => left.filterMap fun name =>
    match name with
    | [] => none
    | c :: rest => if piece.admits c then some rest else none

/-- Whether some pieces stand for a whole name: nothing can be left behind them. -/
def admits (pieces : List Piece) (name : List Char) : Bool :=
  (pieces.foldl (fun left piece => leftBehind piece left) [name]).any List.isEmpty

/-- Whether a text has a character that stands for others. -/
def hasWildcard (text : String) : Bool :=
  text.toList.any fun c => c == '*' || c == '?' || c == '['

end SchemaModels.Glob
