import SchemaModels.Proofs.Graphql.Token

/-!
How far the readers of the lexer look. Every token but a block text is on one
line, and is read in the same way whatever stands behind it, as long as that
begins as before or with a line end.
-/
namespace SchemaModels.Graphql.Lexer

open Numeral (isDecimalDigit)

variable {α β : Type}

/-- What may stand behind a piece in place of something else: it begins in the same
way, or with a line end. -/
def MayReplace (rest other : List Char) : Prop :=
  ∀ c ∈ other.head?, c ∈ rest.head? ∨ isLineEnd c = true

/-- A reader takes a piece of one line, and it takes the same in front of whatever
may replace the rest. -/
def TakesLine (read : List Char → Piece α) (chars : List Char) (a : α) (rest : List Char) :
    Prop :=
  ∃ front, chars = front ++ rest ∧ (∀ c ∈ front, isLineEnd c = false) ∧
    ∀ other, MayReplace rest other → read (front ++ other) = .ok (a, other)

/-- Whatever a reader takes, it takes in this way. -/
def IsLocal (read : List Char → Piece α) : Prop :=
  ∀ chars a rest, read chars = .ok (a, rest) → TakesLine read chars a rest

theorem MayReplace.append {rest other : List Char} (h : MayReplace rest other)
    (front : List Char) : MayReplace (front ++ rest) (front ++ other) := by
  cases front with
  | nil => exact h
  | cons c front =>
      intro d hd
      exact Or.inl hd

/-- A class without line ends to which the first character of the rest does not
belong. -/
theorem MayReplace.not_class {p : Char → Bool} (hClass : ∀ c, isLineEnd c = true → p c = false)
    {rest other : List Char} (h : MayReplace rest other)
    (hRest : ∀ c ∈ rest.head?, p c = false) : ∀ c ∈ other.head?, p c = false := by
  intro c hc
  rcases h c hc with hSame | hLineEnd
  · exact hRest c hSame
  · exact hClass c hLineEnd

theorem isLineEnd_iff {c : Char} : isLineEnd c = true ↔ c = '\n' ∨ c = '\r' := by
  simp [isLineEnd]

/-- A property that neither of the line ends has. -/
theorem not_of_isLineEnd {p : Char → Bool} (hFeed : p '\n' = false) (hReturn : p '\r' = false) :
    ∀ c, isLineEnd c = true → p c = false := by
  intro c hc
  rcases isLineEnd_iff.mp hc with rfl | rfl
  · exact hFeed
  · exact hReturn

/-- The characters of a class that has no line ends are on one line. -/
theorem oneLine_of_forall {p : Char → Bool} (hClass : ∀ c, isLineEnd c = true → p c = false)
    {chars : List Char} (h : ∀ c ∈ chars, p c = true) : ∀ c ∈ chars, isLineEnd c = false := by
  intro c hc
  rw [Bool.eq_false_iff]
  intro hLineEnd
  have := hClass c hLineEnd
  rw [h c hc] at this
  cases this

namespace IsLocal

theorem bind {read : List Char → Piece α} {next : α → List Char → Piece β} (h : IsLocal read)
    (hNext : ∀ a, IsLocal (next a)) :
    IsLocal fun chars => Except.bind (read chars) fun p => next p.1 p.2 := by
  intro chars b rest hRead
  obtain ⟨⟨a, middle⟩, hFirst, hSecond⟩ := bind_eq_ok_iff.mp hRead
  obtain ⟨front, rfl, hFront, hOther⟩ := h _ _ _ hFirst
  obtain ⟨back, rfl, hBack, hBehind⟩ := hNext a _ _ _ hSecond
  refine ⟨front ++ back, by rw [List.append_assoc], List.forall_mem_append.mpr ⟨hFront, hBack⟩, ?_⟩
  intro other hReplace
  have hRest := hOther (back ++ other) (hReplace.append back)
  rw [List.append_assoc]
  exact bind_eq_ok_iff.mpr ⟨_, hRest, hBehind other hReplace⟩

theorem map {read : List Char → Piece α} (h : IsLocal read) (f : α → β) :
    IsLocal fun chars => mapPiece f (read chars) := by
  intro chars b rest hMapped
  obtain ⟨a, hRead, rfl⟩ := mapPiece_ok hMapped
  obtain ⟨front, rfl, hFront, hOther⟩ := h _ _ _ hRead
  refine ⟨front, rfl, hFront, fun other hReplace => ?_⟩
  simp only [hOther other hReplace, mapPiece]

end IsLocal

/-- What is read from behind a first character on. -/
theorem TakesLine.cons {read readRest : List Char → Piece α} {c : Char}
    (hc : isLineEnd c = false) (hRead : ∀ rest, read (c :: rest) = readRest rest)
    {chars rest : List Char} {a : α} (h : TakesLine readRest chars a rest) :
    TakesLine read (c :: chars) a rest := by
  obtain ⟨front, rfl, hFront, hOther⟩ := h
  refine ⟨c :: front, rfl, List.forall_mem_cons.mpr ⟨hc, hFront⟩, fun other hReplace => ?_⟩
  rw [List.cons_append, hRead]
  exact hOther other hReplace

/-- Nothing is taken. -/
theorem takesLine_nothing {read : List Char → Piece α} {chars : List Char} {a : α}
    (h : ∀ other, MayReplace chars other → read other = .ok (a, other)) :
    TakesLine read chars a chars :=
  ⟨[], rfl, List.forall_mem_nil _, h⟩

theorem head?_dropWhile {p : Char → Bool} (chars : List Char) :
    ∀ c ∈ (chars.dropWhile p).head?, p c = false := by
  intro c hc
  have hHead := List.head?_dropWhile_not p chars
  rw [Option.mem_def] at hc
  simpa [hc] using hHead

/-- The characters of a class that has no line ends are the same in front of another
rest. -/
theorem takeWhile_replace {p : Char → Bool} (hClass : ∀ c, isLineEnd c = true → p c = false)
    {chars other : List Char} (h : MayReplace (chars.dropWhile p) other) :
    (chars.takeWhile p ++ other).takeWhile p = chars.takeWhile p ∧
      (chars.takeWhile p ++ other).dropWhile p = other := by
  have hTaken : ∀ c ∈ chars.takeWhile p, p c = true := fun c hc => List.mem_takeWhile_imp hc
  have hOther := h.not_class hClass (head?_dropWhile chars)
  rw [List.takeWhile_append_of_pos hTaken, List.dropWhile_append_of_pos hTaken]
  cases other with
  | nil => simp
  | cons c other => simp [hOther c rfl]

theorem takeWhile_isLocal {p : Char → Bool} (hClass : ∀ c, isLineEnd c = true → p c = false) :
    IsLocal fun chars => .ok (chars.takeWhile p, chars.dropWhile p) := by
  intro chars taken rest h
  cases h
  have hTaken : ∀ c ∈ chars.takeWhile p, p c = true := fun c hc => List.mem_takeWhile_imp hc
  refine ⟨_, List.takeWhile_append_dropWhile.symm, oneLine_of_forall hClass hTaken, ?_⟩
  intro other hReplace
  obtain ⟨hTake, hDrop⟩ := takeWhile_replace hClass hReplace
  simp only [hTake, hDrop]

theorem isDecimalDigit_of_isLineEnd : ∀ c, isLineEnd c = true → isDecimalDigit c = false :=
  not_of_isLineEnd (by decide) (by decide)

theorem readDigits_eq_ok_iff {chars digits rest : List Char} :
    readDigits chars = .ok (digits, rest) ↔ digits ≠ [] ∧
      chars.takeWhile isDecimalDigit = digits ∧ chars.dropWhile isDecimalDigit = rest := by
  simp only [readDigits]
  split
  · rename_i hEmpty
    rw [List.isEmpty_iff] at hEmpty
    rw [hEmpty]
    constructor
    · rintro ⟨⟩
    · rintro ⟨hNonempty, hDigits, -⟩
      exact (hNonempty hDigits.symm).elim
  · rename_i hEmpty
    simp only [Except.ok.injEq, Prod.mk.injEq]
    refine ⟨fun h => ⟨?_, h⟩, And.right⟩
    rw [← h.1]
    simpa using hEmpty

theorem readDigits_isLocal : IsLocal readDigits := by
  intro chars digits rest h
  obtain ⟨hNonempty, rfl, rfl⟩ := readDigits_eq_ok_iff.mp h
  obtain ⟨front, hChars, hFront, hOther⟩ :=
    takeWhile_isLocal isDecimalDigit_of_isLineEnd chars _ _ rfl
  refine ⟨front, hChars, hFront, fun other hReplace => ?_⟩
  have hTaken := Prod.mk.inj (Except.ok.inj (hOther other hReplace))
  exact readDigits_eq_ok_iff.mpr ⟨hNonempty, hTaken⟩

/-- A first character that the rest does not begin with. -/
theorem MayReplace.ne_cons {rest other : List Char} (h : MayReplace rest other) {c : Char}
    (hc : isLineEnd c = false) (hRest : ∀ more, rest ≠ c :: more) : ∀ more, other ≠ c :: more := by
  rintro more rfl
  rcases h c rfl with hSame | hLineEnd
  · obtain ⟨tail, hTail⟩ := List.head?_eq_some_iff.mp (Option.mem_def.mp hSame)
    exact hRest tail hTail
  · rw [hc] at hLineEnd
    cases hLineEnd

theorem readFraction_isLocal : IsLocal readFraction := by
  intro chars fraction rest h
  fun_cases readFraction chars with
  | case1 after =>
      exact .cons (by decide) (fun _ => rfl)
        (readDigits_isLocal.map ('.' :: ·) after fraction rest h)
  | case2 chars hPoint =>
      rw [readFraction] at h
      · cases h
        refine takesLine_nothing fun other hReplace => ?_
        rw [readFraction]
        exact hReplace.ne_cons (by decide) hPoint
      · exact hPoint

theorem readMinus_isLocal : IsLocal fun chars => .ok (readMinus chars) := by
  intro chars sign rest h
  fun_cases readMinus chars with
  | case1 after =>
      cases h
      exact .cons (by decide) (fun _ => rfl) (takesLine_nothing fun _ _ => rfl)
  | case2 chars hMinus =>
      simp only [readMinus] at h
      cases h
      refine takesLine_nothing fun other hReplace => ?_
      rw [readMinus]
      exact hReplace.ne_cons (by decide) hMinus

theorem readSign_isLocal : IsLocal fun chars => .ok (readSign chars) := by
  intro chars sign rest h
  fun_cases readSign chars with
  | case1 after =>
      cases h
      exact .cons (by decide) (fun _ => rfl) (takesLine_nothing fun _ _ => rfl)
  | case2 after =>
      cases h
      exact .cons (by decide) (fun _ => rfl) (takesLine_nothing fun _ _ => rfl)
  | case3 chars hMinus hPlus =>
      simp only [readSign] at h
      cases h
      refine takesLine_nothing fun other hReplace => ?_
      rw [readSign]
      · exact hReplace.ne_cons (by decide) hMinus
      · exact hReplace.ne_cons (by decide) hPlus

/-- A whole part reaches up to a character that is no digit. -/
theorem readWhole_eq_append {chars whole rest : List Char}
    (h : readWhole chars = .ok (whole, rest)) :
    chars = whole ++ rest ∧ ∀ c ∈ rest.head?, isDecimalDigit c = false := by
  fun_cases readWhole chars with
  | case1 d after hd => simp [readWhole, hd] at h
  | case2 d after hd =>
      simp only [readWhole, hd, Bool.false_eq_true, if_false] at h
      cases h
      exact ⟨rfl, by simpa using hd⟩
  | case3 =>
      cases h
      exact ⟨rfl, by simp⟩
  | case4 chars hZero =>
      rw [readWhole] at h
      · obtain ⟨-, rfl, rfl⟩ := readDigits_eq_ok_iff.mp h
        exact ⟨List.takeWhile_append_dropWhile.symm, head?_dropWhile chars⟩
      · exact hZero

theorem readWhole_isLocal : IsLocal readWhole := by
  intro chars whole rest h
  have hWhole := readWhole_isWhole h
  obtain ⟨rfl, hRest⟩ := readWhole_eq_append h
  refine ⟨whole, rfl, oneLine_of_forall isDecimalDigit_of_isLineEnd hWhole.digits, ?_⟩
  intro other hReplace
  exact readWhole_append hWhole (hReplace.not_class isDecimalDigit_of_isLineEnd hRest)

/-- Where no exponent begins, none is read. -/
theorem readExponent_none {chars : List Char}
    (h : ∀ c ∈ chars.head?, (decide (c = 'e') || decide (c = 'E')) = false) :
    readExponent chars = .ok ([], chars) := by
  cases chars with
  | nil => rfl
  | cons c chars =>
      have hc := h c rfl
      simp [readExponent, hc]

theorem readExponent_isLocal : IsLocal readExponent := by
  have hClass : ∀ c, isLineEnd c = true → (decide (c = 'e') || decide (c = 'E')) = false :=
    not_of_isLineEnd (p := fun c => decide (c = 'e') || decide (c = 'E')) (by decide) (by decide)
  intro chars exponent rest h
  fun_cases readExponent chars with
  | case1 =>
      cases h
      exact takesLine_nothing fun other hReplace =>
        readExponent_none (hReplace.not_class hClass (by simp))
  | case2 c after hLetter sign unsigned hSign =>
      have hc : isLineEnd c = false := by
        rw [Bool.eq_false_iff]
        intro hLineEnd
        rw [hClass c hLineEnd] at hLetter
        cases hLetter
      have hBehind : IsLocal fun chars => Except.bind (.ok (readSign chars)) fun p =>
          mapPiece (c :: p.1 ++ ·) (readDigits p.2) :=
        readSign_isLocal.bind fun sign => readDigits_isLocal.map (c :: sign ++ ·)
      refine .cons hc (fun rest => ?_) (hBehind after exponent rest ?_)
      · simp only [readExponent, hLetter, if_true]
        rfl
      · simp only [readExponent, hLetter, if_true] at h
        exact h
  | case3 c after hLetter =>
      simp only [readExponent, hLetter] at h
      cases h
      exact takesLine_nothing fun other hReplace =>
        readExponent_none (hReplace.not_class hClass (by simpa using hLetter))

/-- What may not stand behind a number: a point or the start of a name. -/
def continuesNumber (c : Char) : Bool := c == '.' || isNameStart c

/-- The end of a number. -/
def numberEnd (token : Token) (rest : List Char) : Piece Token :=
  if (rest.head?.map continuesNumber).getD false then .error (.missingDigit rest.head?)
  else .ok (token, rest)

theorem numberEnd_eq_ok_iff {token token' : Token} {chars rest : List Char} :
    numberEnd token chars = .ok (token', rest) ↔ token = token' ∧ chars = rest ∧
      ∀ c ∈ chars.head?, continuesNumber c = false := by
  cases chars with
  | nil => simp [numberEnd]
  | cons c chars =>
      cases hc : continuesNumber c with
      | true => simp [numberEnd, hc]
      | false => simp [numberEnd, hc]

theorem numberEnd_isLocal (token : Token) : IsLocal (numberEnd token) := by
  intro chars token' rest h
  obtain ⟨rfl, rfl, hRest⟩ := numberEnd_eq_ok_iff.mp h
  have hClass : ∀ c, isLineEnd c = true → continuesNumber c = false :=
    not_of_isLineEnd (by decide) (by decide)
  exact takesLine_nothing fun other hReplace =>
    numberEnd_eq_ok_iff.mpr ⟨rfl, rfl, hReplace.not_class hClass hRest⟩

theorem readNumber_isLocal : IsLocal readNumber :=
  readMinus_isLocal.bind fun sign => readWhole_isLocal.bind fun whole =>
    readFraction_isLocal.bind fun fraction => readExponent_isLocal.bind fun exponent =>
      numberEnd_isLocal (if fraction.isEmpty && exponent.isEmpty then
        .integer (String.ofList (sign ++ whole ++ fraction ++ exponent))
        else .float (String.ofList (sign ++ whole ++ fraction ++ exponent)))

theorem readPoints_isLocal : IsLocal readPoints := by
  intro chars token rest h
  unfold readPoints at h
  split at h
  · cases h
    exact ⟨['.', '.'], rfl, by simp [isLineEnd], fun _ _ => rfl⟩
  · cases h
  · dsimp only at h
    split at h <;> cases h

/-- A name, from behind its first character on. -/
theorem readName_isLocal (c : Char) : IsLocal fun rest =>
    .ok (Token.name (String.ofList (c :: rest.takeWhile isNamePart)),
      rest.dropWhile isNamePart) := by
  have hClass : ∀ c, isLineEnd c = true → isNamePart c = false :=
    not_of_isLineEnd (by decide) (by decide)
  exact (takeWhile_isLocal hClass).map fun chars => Token.name (String.ofList (c :: chars))

end SchemaModels.Graphql.Lexer
