import SchemaModels.Proofs.Yaml.Writer
import SchemaModels.Yaml.Lexer

/-!
The tokens of entries that are written one to a line. Three turns of the lexer read an
entry: its key, the colon, and its value. Between two entries the lexer stands at the
start of a line, in the block that the first key opened.
-/
namespace SchemaModels.Yaml

open Text (IsVisibleAscii)
open Writer (Begins Writes isIndicator writeValue writeEntry)

/-- Where a new line of entries begins, or the text ends. -/
structure StartsLine (rest : List Char) : Prop where
  inside : StartsInside rest
  sign : rest.head? ≠ some '#'
  mark : atAnyDocumentMark rest = false

namespace Lexer

variable {lexer settled next : Lexer} {c : Char} {rest more : List Char}

section Gaps

theorem skipComment_of_stop {cursor : Cursor} (hInside : StartsInside cursor.rest)
    (hSign : cursor.rest.head? ≠ some '#') : cursor.skipComment = cursor := by
  have hSkip : cursor.skipWhile (· == ' ') = cursor := Cursor.skipWhile_of_not fun c hc => by
    simpa using ne_space_of_isSeparator (hInside c hc)
  unfold Cursor.skipComment
  dsimp only
  rw [hSkip, if_neg (by simpa using hSign)]

theorem skipGaps_of_stop (hInside : StartsInside lexer.cursor.rest)
    (hSign : lexer.cursor.rest.head? ≠ some '#') (fuel : Nat) : lexer.skipGaps fuel = lexer := by
  cases fuel with
  | zero => rfl
  | succ fuel =>
      rw [skipGaps, skipComment_of_stop hInside hSign,
        Cursor.takeBreak?_of_startsInside hInside rfl]

theorem skipGaps_of_feed (hFlow : lexer.flow = 0) (hRest : lexer.cursor.rest = '\n' :: rest)
    (fuel : Nat) : lexer.skipGaps (fuel + 1) =
      { lexer with cursor := lexer.cursor.next, allowKey := true }.skipGaps fuel := by
  have hSkip : lexer.cursor.skipComment = lexer.cursor := by
    have hSpaces : lexer.cursor.skipWhile (· == ' ') = lexer.cursor :=
      Cursor.skipWhile_of_not (by simp [hRest])
    unfold Cursor.skipComment
    dsimp only
    rw [hSpaces, if_neg (by simp [hRest])]
  rw [skipGaps, hSkip, Cursor.takeBreak?_feed hRest]
  dsimp only
  rw [hFlow, BEq.rfl, Bool.or_true]

/-- Past a comment that fills its line. -/
theorem skipGaps_of_comment {comment : List Char} (hFlow : lexer.flow = 0)
    (hComment : ∀ c ∈ comment, isBreak c = false)
    (hRest : lexer.cursor.rest = '#' :: (comment ++ '\n' :: rest)) (fuel : Nat) :
    ∃ index line, lexer.skipGaps (fuel + 1) =
      { lexer with cursor := ⟨rest, index, line, 0⟩, allowKey := true }.skipGaps fuel := by
  have hSpaces : lexer.cursor.skipWhile (· == ' ') = lexer.cursor :=
    Cursor.skipWhile_of_not (by simp [hRest])
  have hSkip : lexer.cursor.skipComment.rest = '\n' :: rest := by
    unfold Cursor.skipComment
    dsimp only
    rw [hSpaces, if_pos (by simp [hRest]), Cursor.skipWhile_rest, hRest, ← List.cons_append]
    refine Text.dropWhile_run ?_ (by simp [isBreak])
    exact List.forall_mem_cons.mpr ⟨by decide, fun c hc => by rw [hComment c hc]; rfl⟩
  rw [skipGaps, Cursor.takeBreak?_feed hSkip]
  dsimp only
  rw [hFlow, BEq.rfl, Bool.or_true, Cursor.next_feed hSkip]
  exact ⟨_, _, rfl⟩

end Gaps

section Turn

theorem closing_of_le {column indent : Int} (h : indent ≤ column) (indents : List Int) :
    closing column indent indents = ([], indent, indents) := by
  cases indents with
  | nil => rfl
  | cons outer rest => rw [closing, if_neg (by omega)]

theorem closeBlocks_of_le {column : Int} (h : lexer.indent ≤ column) :
    lexer.closeBlocks column = lexer := by
  unfold closeBlocks
  rw [closing_of_le h]
  split
  · rfl
  · simp

theorem dropStale_of_fresh (h : ∀ entry ∈ lexer.keys, lexer.isStale entry.2 = false) :
    lexer.dropStale = .ok lexer := by
  have hAny : (lexer.keys.any fun entry => lexer.isStale entry.2 && entry.2.required) = false := by
    rw [List.any_eq_false]
    intro entry hEntry
    simp [h entry hEntry]
  have hFilter : (lexer.keys.filter fun entry => !lexer.isStale entry.2) = lexer.keys := by
    rw [List.filter_eq_self]
    intro entry hEntry
    simp [h entry hEntry]
  rw [dropStale, hAny, hFilter]
  rfl

/-- A turn with nothing to give up in front of the next token. -/
theorem turn_eq (hGaps : lexer.skipGaps (lexer.cursor.rest.length + 1) = settled)
    (hFresh : ∀ entry ∈ settled.keys, settled.isStale entry.2 = false)
    (hOpen : settled.indent ≤ settled.cursor.column) (hRest : settled.cursor.rest = c :: rest)
    (hToken : settled.token c rest = .ok next) : lexer.turn = .ok (false, next) := by
  unfold turn
  rw [hGaps, dropStale_of_fresh hFresh]
  simp only [Bind.bind, Except.bind]
  rw [closeBlocks_of_le hOpen]
  split
  · rename_i hEnd
    cases hRest.symm.trans hEnd
  · rename_i hMore
    obtain ⟨rfl, rfl⟩ := List.cons.inj (hRest.symm.trans hMore)
    rw [hToken]
    rfl

theorem run_of_turn (h : lexer.turn = .ok (false, next)) (fuel : Nat) :
    lexer.run (fuel + 1) = next.run fuel := by
  rw [run, h]
  rfl

/-- What begins like a plain scalar is read as one. -/
theorem token_plain (hFlow : lexer.flow = 0) (hBegins : Begins c rest)
    (hSeparator : isSeparator c = false)
    (hMark : lexer.cursor.column = 0 → atAnyDocumentMark (c :: rest) = false) :
    lexer.token c rest = lexer.plain := by
  have hIndicator := hBegins.indicator
  simp only [isIndicator, List.contains_cons, List.contains_nil, Bool.or_eq_false_iff,
    beq_eq_false_iff_ne, ne_eq, and_true] at hIndicator
  have hMarks (mark : Char) (h : mark = '-' ∨ mark = '.') :
      (decide (lexer.cursor.column = 0) && atDocumentMark mark (c :: rest)) = false := by
    by_cases hColumn : lexer.cursor.column = 0
    · have hNone := hMark hColumn
      rw [atAnyDocumentMark, Bool.or_eq_false_iff] at hNone
      rcases h with rfl | rfl
      · rw [hNone.1, Bool.and_false]
      · rw [hNone.2, Bool.and_false]
    · simp [hColumn]
  have hHyphen := hMarks '-' (.inl rfl)
  have hPoint := hMarks '.' (.inr rfl)
  have hGoesOn (mark : Char) (h : mark = '?' ∨ mark = ':' ∨ mark = '-') :
      (decide (c = mark) && endsOr isSeparator rest) = false := by
    by_cases hc : c = mark
    · rw [hBegins.mark (hc ▸ h), Bool.and_false]
    · simp [hc]
  have hItem := hGoesOn '-' (.inr (.inr rfl))
  have hKey := hGoesOn '?' (.inl rfl)
  have hValue := hGoesOn ':' (.inr (.inl rfl))
  have hPlain : beginsPlain false c rest = true := by
    by_cases hc : c = '?' ∨ c = ':' ∨ c = '-'
    · unfold beginsPlain
      rw [hBegins.mark hc]
      rcases hc with rfl | rfl | rfl <;> simp
    · simp only [not_or] at hc
      simp [beginsPlain, hSeparator, hIndicator, hc]
  unfold token
  simp only [hFlow, bne_self_eq_false, hIndicator, hHyphen, hPoint, hItem, hKey, hValue, hPlain,
    decide_false, Bool.false_and, Bool.false_or, Bool.false_eq_true, if_false, if_true]

section Plain

variable {noted : Lexer} {chars : List Char} {cursor : Cursor} {ended : Bool}

theorem noteKey_of_not (h : lexer.allowKey = false) : lexer.noteKey = .ok lexer := by
  rw [noteKey, h]
  rfl

theorem noteKey_of_allowed (hAllow : lexer.allowKey = true) (hFlow : lexer.flow = 0)
    (hKeys : lexer.keys = []) : lexer.noteKey = .ok { lexer with
      keys := [(0, ⟨lexer.tokens.length, lexer.indent == lexer.cursor.column, lexer.cursor.index,
        lexer.cursor.line, lexer.cursor.column⟩)] } := by
  have hDrop : lexer.dropKey = .ok lexer := by
    rw [dropKey, hKeys]
    rfl
  simp [noteKey, hAllow, hDrop, Except.map, hFlow, hKeys]

theorem plain_eq (hNote : lexer.noteKey = .ok noted) (hFlow : noted.flow = 0)
    (hText : plainText false (noted.indent + 1) (noted.cursor.rest.length + 1) noted.cursor =
      (chars, ended, cursor)) :
    lexer.plain = .ok { noted with
      cursor := cursor
      tokens := noted.tokens ++ [.scalar true (String.ofList chars)]
      allowKey := ended } := by
  rw [plain, hNote]
  simp only [Bind.bind, Except.bind, allowing, hFlow, bne_self_eq_false, hText]
  rfl

end Plain

end Turn

section Line

/-- The lexer stands in front of a line of entries, outside of all brackets. -/
structure AtLine (lexer : Lexer) (rest : List Char) : Prop where
  flow : lexer.flow = 0
  keys : lexer.keys = []
  line : StartsLine rest
  gaps : ∃ index number, lexer.skipGaps (lexer.cursor.rest.length + 1) =
    { lexer with cursor := ⟨rest, index, number, 0⟩, allowKey := true }

/-- A line end in front of the line. -/
theorem atLine_of_feed (hFlow : lexer.flow = 0) (hKeys : lexer.keys = []) (hLine : StartsLine rest)
    (hRest : lexer.cursor.rest = '\n' :: rest) : AtLine lexer rest := by
  refine ⟨hFlow, hKeys, hLine, lexer.cursor.index + 1, lexer.cursor.line + 1, ?_⟩
  rw [skipGaps_of_feed hFlow hRest, Cursor.next_feed hRest]
  exact skipGaps_of_stop hLine.inside hLine.sign _

/-- The beginning of the line itself. -/
theorem atLine_of_start (hFlow : lexer.flow = 0) (hKeys : lexer.keys = [])
    (hLine : StartsLine rest) (hRest : lexer.cursor.rest = rest) (hColumn : lexer.cursor.column = 0)
    (hAllow : lexer.allowKey = true) : AtLine lexer rest := by
  refine ⟨hFlow, hKeys, hLine, lexer.cursor.index, lexer.cursor.line, ?_⟩
  rw [skipGaps_of_stop (hRest ▸ hLine.inside) (hRest ▸ hLine.sign), ← hRest, ← hColumn, ← hAllow]

theorem atLine_of_comment {comment : List Char} (hFlow : lexer.flow = 0) (hKeys : lexer.keys = [])
    (hLine : StartsLine rest) (hComment : ∀ c ∈ comment, isBreak c = false)
    (hRest : lexer.cursor.rest = '#' :: (comment ++ '\n' :: rest)) : AtLine lexer rest := by
  obtain ⟨index, number, hSkip⟩ := skipGaps_of_comment hFlow hComment hRest lexer.cursor.rest.length
  refine ⟨hFlow, hKeys, hLine, index, number, ?_⟩
  rw [hSkip]
  exact skipGaps_of_stop hLine.inside hLine.sign _

end Line

theorem isVisibleAscii_of_isWordChar {c : Char} (h : isWordChar c = true) : IsVisibleAscii c := by
  have hCode : c.toNat = c.val.toNat := rfl
  change (decide ('A' ≤ c ∧ c ≤ 'Z') || (decide ('a' ≤ c) && decide (c ≤ 'z')) ||
    (decide ('0' ≤ c) && decide (c ≤ '9')) || c == '-' || c == '_') = true at h
  simp only [Bool.or_eq_true, Bool.and_eq_true, decide_eq_true_iff, beq_iff_eq, Char.le_def,
    UInt32.le_iff_toNat_le] at h
  rcases h with (((h | h) | h) | rfl) | rfl
  · simp at h
    exact ⟨by omega, by omega⟩
  · simp at h
    exact ⟨by omega, by omega⟩
  · simp at h
    exact ⟨by omega, by omega⟩
  · decide
  · decide

theorem isIndicator_of_isAlpha {c : Char} (h : c.isAlpha = true) : isIndicator c = false := by
  rw [isIndicator, Bool.eq_false_iff, ne_eq, List.contains_iff_mem]
  intro hMember
  have hOther := (List.all_eq_true (p := fun d : Char => !d.isAlpha)).mp (by decide) c hMember
  simp [h] at hOther

/-- A key that is written as it is. -/
structure IsKey (key : String) : Prop where
  letter : ∃ c rest, key.toList = c :: rest ∧ c.isAlpha = true
  word : ∀ c ∈ key.toList, isWordChar c = true
  short : key.toList.length ≤ 1024
  form : Tag.ofForm key = .text

section States

/-- The lexer in a block of entries at a column, opened if there is none yet. -/
def blockAt (lexer : Lexer) (column : Nat) : Lexer :=
  if lexer.indent < column then
    { lexer with
      tokens := lexer.tokens ++ [.blockMapping]
      indent := column
      indents := lexer.indent :: lexer.indents }
  else lexer

/-- The lexer behind a scalar that may begin an entry. -/
def atColon (lexer : Lexer) (cursor : Cursor) (scalar : Token) (possible : PossibleKey) : Lexer :=
  { lexer with
    cursor := cursor
    tokens := lexer.tokens ++ [scalar]
    allowKey := false
    keys := [(0, possible)] }

/-- The lexer behind the colon of an entry. -/
def atValue (lexer : Lexer) (cursor : Cursor) (column : Nat) (scalar : Token) : Lexer :=
  { lexer.blockAt column with
    cursor := cursor
    tokens := (lexer.blockAt column).tokens ++ [.key, scalar, .value]
    allowKey := false
    keys := [] }

@[simp] theorem blockAt_flow (lexer : Lexer) (column : Nat) :
    (lexer.blockAt column).flow = lexer.flow := by
  unfold blockAt
  split <;> rfl

theorem blockAt_zero_indent (hIndent : lexer.indent ≤ 0) : (lexer.blockAt 0).indent = 0 := by
  unfold blockAt
  split
  · rfl
  · omega

theorem blockAt_of_indent (hIndent : lexer.indent = 0) : lexer.blockAt 0 = lexer :=
  if_neg (by omega)

end States

section Entry

variable {key : String} (hKey : IsKey key)

include hKey

theorem IsKey.isPiece : IsPiece key.toList := by
  have hNot {c : Char} (hc : isWordChar c = false) : c ∉ key.toList := fun hMem => by
    rw [hKey.word c hMem] at hc
    cases hc
  obtain ⟨c, rest, hChars, -⟩ := hKey.letter
  refine ⟨by simp [hChars], fun c hc => isVisibleAscii_of_isWordChar (hKey.word c hc),
    hNot (by decide), fun hHead => ?_, fun hLast => ?_⟩
  · exact hNot (by decide) (List.mem_of_mem_head? hHead)
  · exact hNot (by decide) (List.mem_of_getLast? hLast)

theorem IsKey.exists_begins : ∃ c rest, key.toList = c :: rest ∧ c.isAlpha = true ∧
    ∀ after, Begins c (rest ++ after) := by
  obtain ⟨c, rest, hChars, hLetter⟩ := hKey.letter
  refine ⟨c, rest, hChars, hLetter, fun after => ⟨?_, ?_⟩⟩
  · exact isIndicator_of_isAlpha hLetter
  · rintro (rfl | rfl | rfl) <;> exact absurd hLetter (by decide)

/-- A key at the cursor is read as a scalar that may begin an entry. -/
theorem plain_key (hFlow : lexer.flow = 0) (hKeys : lexer.keys = [])
    (hAllow : lexer.allowKey = true)
    (hRest : lexer.cursor.rest = key.toList ++ ':' :: ' ' :: rest) :
    lexer.plain = .ok (lexer.atColon
      ⟨':' :: ' ' :: rest, lexer.cursor.index + key.toList.length, lexer.cursor.line,
        lexer.cursor.column + key.toList.length⟩ (.scalar true key)
      ⟨lexer.tokens.length, lexer.indent == lexer.cursor.column, lexer.cursor.index,
        lexer.cursor.line, lexer.cursor.column⟩) := by
  rw [plain_eq (noteKey_of_allowed hAllow hFlow hKeys) hFlow (plainText_key hKey.isPiece hRest),
    String.ofList_toList]
  rfl

/-- The turn of the key of an entry. -/
theorem turn_key (h : AtLine lexer (key.toList ++ ':' :: ' ' :: rest))
    (hIndent : lexer.indent ≤ 0) : ∃ index line, lexer.turn = .ok (false, lexer.atColon
      ⟨':' :: ' ' :: rest, index + key.toList.length, line, 0 + key.toList.length⟩
      (.scalar true key) ⟨lexer.tokens.length, lexer.indent == 0, index, line, 0⟩) := by
  obtain ⟨c, others, hChars, -, hBegins⟩ := hKey.exists_begins
  obtain ⟨hFlow, hKeys, hLine, index, line, hGaps⟩ := h
  have hSeparator : isSeparator c = false := hKey.isPiece.inside c (by simp [hChars])
  have hCons : key.toList ++ ':' :: ' ' :: rest = c :: (others ++ ':' :: ' ' :: rest) := by
    rw [hChars, List.cons_append]
  refine ⟨index, line, turn_eq hGaps (by simp [hKeys]) hIndent hCons ?_⟩
  refine (token_plain ?_ (hBegins _) hSeparator ?_).trans (plain_key hKey ?_ ?_ ?_ ?_)
  · exact hFlow
  · exact fun _ => hCons ▸ hLine.mark
  · exact hFlow
  · exact hKeys
  · rfl
  · rfl

end Entry

section Colon

theorem insertAt_append (before after : List Token) (token : Token) :
    insertAt (before ++ after) before.length token = before ++ token :: after := by
  rw [insertAt, List.take_left, List.drop_left]

/-- A colon behind a possible key puts the tokens of the block and of the key in front of
it, as if they had been known before. -/
theorem valueMark_eq (hFlow : lexer.flow = 0) (cursor : Cursor) (scalar : Token)
    {possible : PossibleKey} (hPosition : possible.position = lexer.tokens.length) :
    (lexer.atColon cursor scalar possible).valueMark =
      .ok (lexer.atValue cursor.next possible.column scalar) := by
  unfold valueMark atColon atValue blockAt
  by_cases hOpen : lexer.indent < possible.column
  · simp [hFlow, hPosition, openBlock?, hOpen, insertAt_append, take, emit, Cursor.forward, pure,
      Except.pure]
  · simp [hFlow, hPosition, openBlock?, hOpen, insertAt_append, take, emit, Cursor.forward, pure,
      Except.pure]

theorem token_colon : lexer.token ':' (' ' :: rest) = lexer.valueMark := by
  have hHyphen : atDocumentMark '-' (':' :: ' ' :: rest) = false := not_documentMark (by decide)
  have hPoint : atDocumentMark '.' (':' :: ' ' :: rest) = false := not_documentMark (by decide)
  have hSeparated : endsOr isSeparator (' ' :: rest) = true := rfl
  simp [token, hHyphen, hPoint, hSeparated]

/-- The turn of the colon behind a key that is not too long. -/
theorem turn_colon (hFlow : lexer.flow = 0) (hIndent : lexer.indent ≤ 0) {scalar : Token}
    {required : Bool} {index line width : Nat} (hWidth : width ≤ 1024) :
    (lexer.atColon ⟨':' :: ' ' :: rest, index + width, line, 0 + width⟩ scalar
      ⟨lexer.tokens.length, required, index, line, 0⟩).turn =
    .ok (false, lexer.atValue
      (⟨':' :: ' ' :: rest, index + width, line, 0 + width⟩ : Cursor).next 0 scalar) := by
  refine turn_eq (skipGaps_of_stop (startsInside_cons.mpr rfl) (by simp [atColon]) _) ?_ ?_ rfl ?_
  · simp [atColon, isStale]
    omega
  · dsimp only [atColon]
    omega
  · exact token_colon.trans (valueMark_eq hFlow _ scalar rfl)

end Colon

section Value

variable {double plain : Bool} {written text : List Char}

theorem skipGaps_of_space (hRest : lexer.cursor.rest = ' ' :: rest) (hInside : StartsInside rest)
    (hSign : rest.head? ≠ some '#') (fuel : Nat) : lexer.skipGaps (fuel + 1) = { lexer with
      cursor := ⟨rest, lexer.cursor.index + 1, lexer.cursor.line, lexer.cursor.column + 1⟩ } := by
  have hSkip : lexer.cursor.skipWhile (· == ' ') =
      ⟨rest, lexer.cursor.index + 1, lexer.cursor.line, lexer.cursor.column + 1⟩ :=
    skipWhile_spaces hInside hRest
  have hComment : lexer.cursor.skipComment =
      ⟨rest, lexer.cursor.index + 1, lexer.cursor.line, lexer.cursor.column + 1⟩ := by
    unfold Cursor.skipComment
    dsimp only
    rw [hSkip, if_neg (by simpa using hSign)]
  rw [skipGaps, hComment, Cursor.takeBreak?_of_startsInside hInside rfl]

theorem token_quote : lexer.token (quoteOf double) rest = lexer.quoted double := by
  have hHyphen : atDocumentMark '-' (quoteOf double :: rest) = false :=
    not_documentMark (by cases double <;> decide)
  have hPoint : atDocumentMark '.' (quoteOf double :: rest) = false :=
    not_documentMark (by cases double <;> decide)
  cases double <;>
    simp_all [token, quoteOf, Text.singleQuote, Text.doubleQuote]

/-- A plain value at the cursor is read up to the next line. -/
theorem exists_plain_value (lexer : Lexer) {c : Char} {rest : List Char}
    (hPlain : Plain written (c :: rest))
    (hFlow : lexer.flow = 0) (hKeys : lexer.keys = []) (hAllow : lexer.allowKey = false)
    (hIndent : lexer.indent = 0) (hRest : lexer.cursor.rest = written ++ '\n' :: more)
    (hMore : StartsLine more) :
    ∃ next, lexer.plain = .ok next ∧ AtLine next more ∧
      next.tokens = lexer.tokens ++ [.scalar true (String.ofList (c :: rest))] ∧
      next.indent = 0 ∧ next.indents = lexer.indents := by
  have hFuel : written.length ≤ lexer.cursor.rest.length := by
    rw [hRest]
    simp
  obtain ⟨last, hText, hLast, hColumn⟩ :=
    plainText_of_plain hPlain hRest hMore.inside hMore.mark hFuel
  have hText : plainText false (lexer.indent + 1) (lexer.cursor.rest.length + 1) lexer.cursor =
      (c :: rest, true, last) := by
    rw [hIndent]
    exact hText
  exact ⟨_, plain_eq (noteKey_of_not hAllow) hFlow hText,
    atLine_of_start hFlow hKeys hMore hLast hColumn rfl, rfl, hIndent, rfl⟩

/-- A value in quotes at the cursor is read up to its closing quote. -/
theorem exists_quoted_value (lexer : Lexer) (hQuotes : Quotes double written text)
    (hFlow : lexer.flow = 0) (hKeys : lexer.keys = []) (hAllow : lexer.allowKey = false)
    (hIndent : lexer.indent = 0) (hMore : StartsLine more) (hRest : lexer.cursor.rest =
      quoteOf double :: (written ++ quoteOf double :: '\n' :: more)) :
    ∃ next, lexer.quoted double = .ok next ∧ AtLine next more ∧
      next.tokens = lexer.tokens ++ [.scalar false (String.ofList text)] ∧
      next.indent = 0 ∧ next.indents = lexer.indents := by
  obtain ⟨last, hText, hLast⟩ := quotedScalar_of_quotes hQuotes hRest (by simp [Text.singleQuote])
  refine ⟨{ lexer with
    cursor := last
    tokens := lexer.tokens ++ [.scalar false (String.ofList text)]
    allowKey := false }, ?_, atLine_of_feed hFlow hKeys hMore hLast, rfl, hIndent, rfl⟩
  rw [quoted, noteKey_of_not hAllow]
  simp only [Bind.bind, Except.bind, allowing, hText]
  rfl

/-- The turn of a value. The lexer stands in front of the next line then. -/
theorem turn_value (lexer : Lexer) (hWrites : Writes plain written text) (hFlow : lexer.flow = 0)
    (hKeys : lexer.keys = []) (hAllow : lexer.allowKey = false) (hIndent : lexer.indent = 0)
    (hRest : lexer.cursor.rest = ' ' :: (written ++ '\n' :: more)) (hMore : StartsLine more) :
    ∃ next, lexer.turn = .ok (false, next) ∧ AtLine next more ∧
      next.tokens = lexer.tokens ++ [.scalar plain (String.ofList text)] ∧
      next.indent = 0 ∧ next.indents = lexer.indents := by
  have hTurn {c : Char} {rest : List Char} {next : Lexer} (hInside : isSeparator c = false)
      (hSign : c ≠ '#') (hCons : written ++ '\n' :: more = c :: rest)
      (hToken : { lexer with cursor := ⟨c :: rest, lexer.cursor.index + 1, lexer.cursor.line,
        lexer.cursor.column + 1⟩ }.token c rest = .ok next) : lexer.turn = .ok (false, next) := by
    rw [hCons] at hRest
    have hGaps := skipGaps_of_space hRest (startsInside_cons.mpr hInside) (by simpa using hSign)
    refine turn_eq (hGaps _) (by simp [hKeys]) ?_ rfl hToken
    dsimp only
    omega
  cases hWrites with
  | @plain c written rest hLine hPlain =>
      obtain ⟨others, rfl, hBegins⟩ := hLine.begins.of_plain hPlain
      have hInside := startsInside_cons.mp hPlain.startsInside
      obtain ⟨next, hRead, hNext⟩ := exists_plain_value { lexer with
        cursor := ⟨c :: (others ++ '\n' :: more), lexer.cursor.index + 1, lexer.cursor.line,
          lexer.cursor.column + 1⟩ } hPlain hFlow hKeys hAllow hIndent rfl hMore
      refine ⟨next, hTurn hInside (by simpa using hPlain.head_ne) rfl ?_, hNext⟩
      refine (token_plain ?_ (hBegins _) hInside ?_).trans hRead
      · exact hFlow
      · exact fun hColumn => absurd hColumn (Nat.succ_ne_zero _)
  | @quoted double written text hQuotes =>
      have hCons : quoteOf double :: (written ++ [quoteOf double]) ++ '\n' :: more =
          quoteOf double :: (written ++ quoteOf double :: '\n' :: more) := by simp
      obtain ⟨next, hRead, hNext⟩ := exists_quoted_value { lexer with
        cursor := ⟨quoteOf double :: (written ++ quoteOf double :: '\n' :: more),
          lexer.cursor.index + 1, lexer.cursor.line, lexer.cursor.column + 1⟩ }
        hQuotes hFlow hKeys hAllow hIndent hMore rfl
      have hSign : quoteOf double ≠ '#' := by cases double <;> decide
      exact ⟨next, hTurn (isSeparator_quoteOf double) hSign hCons (token_quote.trans hRead), hNext⟩

end Value

section Run

variable {key value : String}

/-- The turns of a key and its colon. -/
theorem run_key (hKey : IsKey key) (hIndent : lexer.indent ≤ 0)
    (h : AtLine lexer (key.toList ++ ':' :: ' ' :: rest)) (fuel : Nat) :
    ∃ cursor : Cursor, cursor.rest = ' ' :: rest ∧
      lexer.run (fuel + 2) = (lexer.atValue cursor 0 (.scalar true key)).run fuel := by
  obtain ⟨index, line, hFirst⟩ := turn_key hKey h hIndent
  refine ⟨_, ?_, (run_of_turn hFirst (fuel + 1)).trans
    (run_of_turn (turn_colon h.flow hIndent hKey.short) fuel)⟩
  rw [Cursor.next_rest, List.tail_cons]

def entryTokens (entry : String × String) : List Token :=
  [.key, .scalar true entry.1, .value, .scalar (Writer.isPlain entry.2.toList) entry.2]

/-- The turns of an entry. -/
theorem run_entry {entry : String × String} (hKey : IsKey entry.1) (hIndent : lexer.indent ≤ 0)
    (h : AtLine lexer ((writeEntry entry.1 entry.2).toList ++ more)) (hMore : StartsLine more)
    (fuel : Nat) : ∃ next, lexer.run (fuel + 3) = next.run fuel ∧ AtLine next more ∧
      next.tokens = (lexer.blockAt 0).tokens ++ entryTokens entry ∧ next.indent = 0 ∧
      next.indents = (lexer.blockAt 0).indents := by
  obtain ⟨key, value⟩ := entry
  have hText : (writeEntry key value).toList ++ more =
      key.toList ++ ':' :: ' ' :: (writeValue key value ++ '\n' :: more) := by
    simp [writeEntry]
  rw [hText] at h
  obtain ⟨cursor, hCursor, hFirst⟩ := run_key hKey hIndent h (fuel + 1)
  obtain ⟨next, hTurn, hNext, hTokens, hRest⟩ :=
    turn_value (lexer.atValue cursor 0 (.scalar true key)) (Writer.writes_writeValue key value)
      ((blockAt_flow ..).trans h.flow) rfl rfl (blockAt_zero_indent hIndent) hCursor hMore
  refine ⟨next, hFirst.trans (run_of_turn hTurn fuel), hNext, ?_, hRest⟩
  rw [hTokens, String.ofList_toList, atValue, List.append_assoc]
  rfl

/-- Entries, each on lines of its own. -/
def writeEntries (entries : List (String × String)) : List Char :=
  entries.flatMap fun entry => (writeEntry entry.1 entry.2).toList

theorem startsLine_writeEntries {entries : List (String × String)}
    (hKeys : ∀ entry ∈ entries, IsKey entry.1) : StartsLine (writeEntries entries) := by
  cases entries with
  | nil => exact ⟨startsInside_nil, by simp [writeEntries], rfl⟩
  | cons entry entries =>
      have hKey := hKeys entry (List.mem_cons_self ..)
      obtain ⟨c, rest, hChars, hLetter, -⟩ := hKey.exists_begins
      have hOther {d : Char} (hd : d.isAlpha = false) : c ≠ d := by
        rintro rfl
        rw [hLetter] at hd
        cases hd
      have hInside := hKey.isPiece.inside c (by simp [hChars])
      have hText : writeEntries (entry :: entries) =
          c :: (rest ++ (": " ++ String.ofList (writeValue entry.1 entry.2) ++ "\n").toList ++
            writeEntries entries) := by
        simp [writeEntries, writeEntry, hChars]
      rw [hText]
      exact ⟨startsInside_cons.mpr hInside, by simpa using hOther (by decide),
        not_anyDocumentMark (by simpa using hOther (by decide)) (by simpa using hOther (by decide))⟩

theorem endContent_of_block (lexer : Lexer) (hFlow : lexer.flow = 0) (hKeys : lexer.keys = [])
    (hIndent : lexer.indent = 0) (hIndents : lexer.indents = [-1]) :
    ∃ last, lexer.endContent = .ok last ∧ last.tokens = lexer.tokens ++ [.blockEnd] := by
  have hClosing : closing (-1) 0 [-1] = ([.blockEnd], -1, []) := rfl
  have hClose : lexer.closeBlocks (-1) =
      { lexer with tokens := lexer.tokens ++ [.blockEnd], indent := -1, indents := [] } := by
    rw [closeBlocks, hFlow, hIndent, hIndents, hClosing]
    rfl
  refine ⟨{ lexer with
    tokens := lexer.tokens ++ [.blockEnd]
    indent := -1
    indents := []
    allowKey := false }, ?_, rfl⟩
  rw [endContent, hClose, dropKey, hKeys]
  rfl

/-- At the end of the text the block is closed. -/
theorem run_end (h : AtLine lexer []) (hIndent : lexer.indent = 0) (hIndents : lexer.indents = [-1])
    (fuel : Nat) : lexer.run (fuel + 1) = ⟨lexer.tokens ++ [.blockEnd], none⟩ := by
  obtain ⟨hFlow, hKeys, -, index, line, hGaps⟩ := h
  have hTurn : ∃ last, lexer.turn = .ok (true, last) ∧
      last.tokens = lexer.tokens ++ [.blockEnd] := by
    unfold turn
    rw [hGaps, dropStale_of_fresh (by simp [hKeys])]
    simp only [Bind.bind, Except.bind]
    rw [closeBlocks_of_le (by simp [hIndent])]
    obtain ⟨last, hEnd, hTokens⟩ := endContent_of_block { lexer with
      cursor := ⟨[], index, line, 0⟩
      allowKey := true } hFlow hKeys hIndent hIndents
    dsimp only
    rw [hEnd]
    exact ⟨last, rfl, hTokens⟩
  obtain ⟨last, hTurn, hTokens⟩ := hTurn
  rw [run, hTurn, ← hTokens]
  rfl

/-- The turns of all entries that are left in a block. -/
theorem run_entries {entries : List (String × String)} (hKeys : ∀ entry ∈ entries, IsKey entry.1)
    (h : AtLine lexer (writeEntries entries)) (hIndent : lexer.indent = 0)
    (hIndents : lexer.indents = [-1]) (fuel : Nat) : lexer.run (fuel + (3 * entries.length + 1)) =
      ⟨lexer.tokens ++ entries.flatMap entryTokens ++ [.blockEnd], none⟩ := by
  induction entries generalizing lexer fuel with
  | nil => simpa using run_end h hIndent hIndents fuel
  | cons entry entries ih =>
      obtain ⟨hKey, hOthers⟩ := List.forall_mem_cons.mp hKeys
      have hFuel : fuel + (3 * (entry :: entries).length + 1) =
          fuel + (3 * entries.length + 1) + 3 := by
        rw [List.length_cons]
        omega
      obtain ⟨next, hRun, hNext, hTokens, hNextIndent, hNextIndents⟩ :=
        run_entry hKey (by omega) h (startsLine_writeEntries hOthers)
          (fuel + (3 * entries.length + 1))
      rw [blockAt_of_indent hIndent] at hTokens hNextIndents
      rw [hFuel, hRun, ih hOthers hNext hNextIndent (hNextIndents.trans hIndents), hTokens,
        List.flatMap_cons]
      simp

end Run

end Lexer

/-- An entry takes up characters enough for its turns. -/
theorem length_writeEntries (entries : List (String × String)) :
    3 * entries.length ≤ (Lexer.writeEntries entries).length := by
  induction entries with
  | nil => exact Nat.zero_le _
  | cons entry entries ih =>
      simp [Lexer.writeEntries, writeEntry] at ih ⊢
      omega

theorem allowed_writeEntries {entries : List (String × String)}
    (hKeys : ∀ entry ∈ entries, Lexer.IsKey entry.1) :
    ∀ c ∈ Lexer.writeEntries entries, isAllowed c = true := by
  rw [Lexer.writeEntries, List.forall_mem_flatMap]
  intro entry hEntry c hc
  have hKey := (hKeys entry hEntry).isPiece.visible c
  have hValue := (Writer.writes_writeValue entry.1 entry.2).allowed c
  simp only [writeEntry, String.toList_append, String.toList_ofList, List.mem_append] at hc
  rcases hc with ((hc | hc) | hc) | hc
  · exact isAllowed_of_visible (hKey hc)
  · exact List.all_eq_true.mp (by decide) c hc
  · exact hValue hc
  · exact List.all_eq_true.mp (by decide) c hc

/-- The tokens of a comment and entries behind it. -/
theorem TokenList.ofText_entries {comment : List Char} {entry : String × String}
    {entries : List (String × String)}
    (hComment : ∀ c ∈ comment, isAllowed c = true ∧ isBreak c = false)
    (hKeys : ∀ other ∈ entry :: entries, Lexer.IsKey other.1) :
    TokenList.ofText (String.ofList
        ('#' :: (comment ++ '\n' :: Lexer.writeEntries (entry :: entries)))) =
      ⟨.blockMapping :: (entry :: entries).flatMap Lexer.entryTokens ++ [.blockEnd], none⟩ := by
  obtain ⟨hKey, hOthers⟩ := List.forall_mem_cons.mp hKeys
  generalize hText : '#' :: (comment ++ '\n' :: Lexer.writeEntries (entry :: entries)) = text
  have hAllowed : ∀ c ∈ text, isAllowed c = true := by
    rw [← hText, List.forall_mem_cons, List.forall_mem_append, List.forall_mem_cons]
    exact ⟨by decide, fun c hc => (hComment c hc).1, by decide, allowed_writeEntries hKeys⟩
  have hLine : Lexer.AtLine (Lexer.start text) (Lexer.writeEntries (entry :: entries)) :=
    Lexer.atLine_of_comment rfl rfl (Lexer.startsLine_writeEntries hKeys)
      (fun c hc => (hComment c hc).2) hText.symm
  obtain ⟨fuel, hFuel⟩ : ∃ fuel, text.length + 2 = fuel + (3 * entries.length + 1) + 3 := by
    have hLength := length_writeEntries (entry :: entries)
    refine ⟨text.length + 2 - (3 * entries.length + 1) - 3, ?_⟩
    rw [← hText]
    simp at hLength ⊢
    omega
  have hStart : (Lexer.start text).indent ≤ 0 := by
    simp [Lexer.start]
  obtain ⟨next, hRun, hNext, hTokens, hIndent, hIndents⟩ :=
    Lexer.run_entry hKey hStart hLine (Lexer.startsLine_writeEntries hOthers)
      (fuel + (3 * entries.length + 1))
  have hHead : (text.head?.map (·.toNat) == some 0xfeff) = false := by
    rw [← hText]
    rfl
  unfold TokenList.ofText
  rw [String.toList_ofList]
  dsimp only
  rw [if_neg (by simpa using hAllowed), hHead, if_neg (by decide), hFuel, hRun,
    Lexer.run_entries hOthers hNext hIndent hIndents, hTokens]
  simp [Lexer.blockAt, Lexer.start]

end SchemaModels.Yaml
