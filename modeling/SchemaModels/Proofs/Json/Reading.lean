import SchemaModels.Proofs.FirstFailure
import SchemaModels.Proofs.Json.RoundTrip
import SchemaModels.Proofs.Number.Digits

/-!
Every value that is read can be written: each object keeps one member of a key, an
integer has no more digits than its text had, and two surrogates that make a pair are read
as the character.
-/
namespace SchemaModels.Json

theorem writableItems_iff {items : List (Json CodeText)} :
    WritableItems items ↔ ∀ item ∈ items, item.Writable := by
  induction items with
  | nil => simp [WritableItems]
  | cons item rest ih => simp [WritableItems, ih]

theorem writableMembers_iff {members : List (CodeText × Json CodeText)} :
    WritableMembers members ↔ ∀ member ∈ members, member.1.IsJoined ∧ member.2.Writable := by
  induction members with
  | nil => simp [WritableMembers]
  | cons member rest ih => simp [WritableMembers, ih, and_assoc]

/-- What reading a text does first: it ends, or it takes a character or an escaped unit. -/
theorem readText_cases {fuel : Nat} {chars rest : List Char} {points : CodeText}
    (h : readText (fuel + 1) chars = .ok (points, rest)) :
    points = [] ∨ ∃ p others more, points = p :: others ∧ readText fuel more = .ok (others, rest) ∧
      ((∃ c, p = .char c) ∨ ∃ unit digits behind, chars = '\\' :: 'u' :: digits ∧
        readUnit digits = .ok (unit, behind) ∧ joinUnits unit behind = (p, more)) := by
  cases chars with
  | nil => cases h
  | cons c after =>
      simp only [readText] at h
      split at h
      · cases h
        exact Or.inl rfl
      split at h
      · rename_i hBackslash
        split at h
        · cases h
        · rename_i digits
          obtain ⟨⟨unit, behind⟩, hUnit, h⟩ := bind_eq_ok_iff.mp h
          obtain ⟨⟨others, last⟩, hOthers, h⟩ := bind_eq_ok_iff.mp h
          cases h
          exact Or.inr ⟨_, others, _, rfl, hOthers,
            Or.inr ⟨unit, digits, behind, by rw [hBackslash], hUnit, rfl⟩⟩
        · split at h
          · cases h
          · rename_i d _
            obtain ⟨⟨others, last⟩, hOthers, h⟩ := bind_eq_ok_iff.mp h
            cases h
            exact Or.inr ⟨_, others, _, rfl, hOthers, Or.inl ⟨d, rfl⟩⟩
      split at h
      · cases h
      · obtain ⟨⟨others, last⟩, hOthers, h⟩ := bind_eq_ok_iff.mp h
        cases h
        exact Or.inr ⟨_, others, _, rfl, hOthers, Or.inl ⟨c, rfl⟩⟩

/-- A unit makes a character with the low surrogate behind it, or stays alone. -/
theorem joinUnits_cases {unit : Nat} {behind more : List Char} {p : CodePoint}
    (h : joinUnits unit behind = (p, more)) : (∃ c, p = .char c) ∨ p = .ofUnit unit ∧
      more = behind ∧ (0xd800 ≤ unit ∧ unit < 0xdc00 → nextLow? behind = none) := by
  unfold joinUnits at h
  split at h
  · split at h
    · cases h
      exact Or.inl ⟨_, rfl⟩
    · rename_i hNone
      cases h
      exact Or.inr ⟨rfl, rfl, fun _ => hNone⟩
  · rename_i hHigh
    cases h
    exact Or.inr ⟨rfl, rfl, fun hRange => (hHigh (by simpa using hRange)).elim⟩

/-- A unit is a low surrogate only by its code. -/
theorem low_of_joinUnits {unit : Nat} {behind more : List Char} {p : CodePoint}
    (h : joinUnits unit behind = (p, more)) (hLow : p.IsLow) : 0xdc00 ≤ unit ∧ unit < 0xe000 := by
  obtain ⟨c, rfl⟩ | ⟨rfl, -, -⟩ := joinUnits_cases h
  · exact hLow.elim
  · exact CodePoint.isLow_ofUnit_iff.mp hLow

/-- A high surrogate is left where no low one follows. -/
theorem nextLow?_of_joinUnits {unit : Nat} {behind more : List Char} {p : CodePoint}
    (h : joinUnits unit behind = (p, more)) (hHigh : p.IsHigh) : nextLow? more = none := by
  obtain ⟨c, rfl⟩ | ⟨rfl, rfl, hNone⟩ := joinUnits_cases h
  · exact hHigh.elim
  · exact hNone (CodePoint.isHigh_ofUnit_iff.mp hHigh)

/-- A text that begins with a low surrogate is read from the escape of one. -/
theorem nextLow?_of_readText {fuel : Nat} {chars rest : List Char} {p : CodePoint}
    {points : CodeText} (h : readText fuel chars = .ok (p :: points, rest)) (hLow : p.IsLow) :
    nextLow? chars ≠ none := by
  cases fuel with
  | zero => cases h
  | succ fuel =>
      obtain hEmpty | ⟨q, others, more, hPoints, -, hFirst⟩ := readText_cases h
      · cases hEmpty
      obtain ⟨rfl, -⟩ := List.cons.inj hPoints
      obtain ⟨c, rfl⟩ | ⟨unit, digits, behind, rfl, hUnit, hJoin⟩ := hFirst
      · exact hLow.elim
      · obtain ⟨hLeast, hMost⟩ := low_of_joinUnits hJoin hLow
        simp [nextLow?, hUnit, hLeast, hMost]

/-- In a text that is read no two surrogates make a pair. -/
theorem readText_isJoined {fuel : Nat} {chars rest : List Char} {points : CodeText}
    (h : readText fuel chars = .ok (points, rest)) : points.IsJoined := by
  induction fuel generalizing chars points with
  | zero => cases h
  | succ fuel ih =>
      obtain rfl | ⟨p, others, more, rfl, hMore, hFirst⟩ := readText_cases h
      · exact CodeText.isJoined_nil
      refine CodeText.isJoined_cons_iff.mpr ⟨?_, ih hMore⟩
      intro q hHead hHigh hLow
      obtain ⟨tail, rfl⟩ := List.head?_eq_some_iff.mp hHead
      obtain ⟨c, rfl⟩ | ⟨unit, digits, behind, -, -, hJoin⟩ := hFirst
      · exact hHigh
      · exact nextLow?_of_readText hMore hLow (nextLow?_of_joinUnits hJoin hHigh)

/-- Of the members of one key only one is kept. -/
theorem object_ofPairs_writable {members : List (CodeText × Json CodeText)}
    (h : WritableMembers members) : (Json.object (Entries.ofPairs members)).Writable := by
  rw [writableMembers_iff] at h
  refine ⟨Entries.ofPairs_nodup members, writableMembers_iff.mpr fun member hMember => ?_⟩
  exact h member (Entries.ofPairs_subset members hMember)

theorem readNumber_writable {chars rest : List Char} {json : Json CodeText}
    (h : readNumber chars = .ok (json, rest)) : json.Writable := by
  simp only [readNumber] at h
  split at h
  · cases h
  split at h
  · split at h
    · rename_i n hInteger
      cases h
      exact Numeral.readInteger_isShort hInteger
    · cases h
  · split at h
    · cases h
      trivial
    · cases h

theorem readAtom_writable {chars rest : List Char} {json : Json CodeText}
    (h : readAtom chars = .ok (json, rest)) : json.Writable := by
  simp only [readAtom] at h
  split at h
  · rename_i found hFound
    obtain ⟨⟨word, value⟩, hWord, hRest⟩ := List.exists_of_findSome?_eq_some hFound
    obtain ⟨after, -, hResult⟩ := Option.map_eq_some_iff.mp hRest
    cases h
    cases hResult
    simp only [List.mem_cons, Prod.mk.injEq, List.not_mem_nil, or_false] at hWord
    rcases hWord with ⟨-, rfl⟩ | ⟨-, rfl⟩ | ⟨-, rfl⟩ | ⟨-, rfl⟩ | ⟨-, rfl⟩ | ⟨-, rfl⟩ <;> trivial
  · exact readNumber_writable h

mutual
theorem readValue_writable {fuel : Nat} {chars rest : List Char} {json : Json CodeText}
    (h : readValue fuel chars = .ok (json, rest)) : json.Writable := by
  cases fuel with
  | zero => cases h
  | succ fuel =>
      simp only [readValue] at h
      split at h
      · cases h
      · split at h
        · cases h
          trivial
        · obtain ⟨⟨items, after⟩, hItems, hResult⟩ := map_eq_ok_iff.mp h
          cases hResult
          exact readItems_writable hItems
      · split at h
        · cases h
          exact ⟨List.nodup_nil, trivial⟩
        · obtain ⟨⟨members, after⟩, hMembers, hResult⟩ := map_eq_ok_iff.mp h
          cases hResult
          exact object_ofPairs_writable (readMembers_writable hMembers)
      · split at h
        · obtain ⟨⟨text, after⟩, hText, hResult⟩ := map_eq_ok_iff.mp h
          cases hResult
          exact readText_isJoined hText
        · exact readAtom_writable h

theorem readItems_writable {fuel : Nat} {chars rest : List Char} {items : List (Json CodeText)}
    (h : readItems fuel chars = .ok (items, rest)) : WritableItems items := by
  cases fuel with
  | zero => cases h
  | succ fuel =>
      rw [readItems] at h
      obtain ⟨⟨item, after⟩, hItem, h⟩ := bind_eq_ok_iff.mp h
      have hFirst := readValue_writable hItem
      dsimp only at h
      split at h
      · cases h
        exact ⟨hFirst, trivial⟩
      · obtain ⟨⟨others, last⟩, hOthers, h⟩ := bind_eq_ok_iff.mp h
        cases h
        exact ⟨hFirst, readItems_writable hOthers⟩
      · cases h

theorem readMembers_writable {fuel : Nat} {chars rest : List Char}
    {members : List (CodeText × Json CodeText)} (h : readMembers fuel chars = .ok (members, rest)) :
    WritableMembers members := by
  cases fuel with
  | zero => cases h
  | succ fuel =>
      simp only [readMembers] at h
      split at h
      · cases h
      split at h
      · cases h
      obtain ⟨⟨key, after⟩, hText, h⟩ := bind_eq_ok_iff.mp h
      have hKey := readText_isJoined hText
      dsimp only at h
      split at h
      · obtain ⟨⟨value, next⟩, hValue, h⟩ := bind_eq_ok_iff.mp h
        have hFirst := readValue_writable hValue
        dsimp only at h
        split at h
        · cases h
          exact ⟨hKey, hFirst, trivial⟩
        · obtain ⟨⟨others, last⟩, hOthers, h⟩ := bind_eq_ok_iff.mp h
          cases h
          exact ⟨hKey, hFirst, readMembers_writable hOthers⟩
        · cases h
      · cases h
end

end SchemaModels.Json
