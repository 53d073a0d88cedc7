import SchemaModels.Proofs.Yaml.Entries
import SchemaModels.Yaml.Data

/-!
The data of entries. The tokens of entries are composed to a mapping of texts, and this is
settled as it is, so that entries with distinct keys are read as they were written.
-/
namespace SchemaModels.Yaml

open Lexer (IsKey entryTokens writeEntries)

/-- The node of a text. -/
def Node.ofText (text : String) : Node := .scalar .text text

/-- The nodes of an entry. -/
def entryNodes (entry : String × String) : Node × Node :=
  (.ofText entry.1, .ofText entry.2)

namespace Composer

variable {failure : Option Error} {handles : List (String × String)}
  {anchors : List (String × Node)} {rest : List Token}

/-- An entry in front of the others. -/
theorem blockEntries_entry (depth fuel : Nat) (entry : String × String) :
    (blockEntries (node (depth + 1) .entry) (fuel + 1)).run
      ⟨entryTokens entry ++ rest, failure, handles, anchors⟩ =
    (blockEntries (node (depth + 1) .entry) fuel).run ⟨rest, failure, handles, anchors⟩ >>=
      fun read => .ok ((scalarNode none true entry.1,
        scalarNode none (Writer.isPlain entry.2.toList) entry.2) :: read.1, read.2) := rfl

/-- A value that is written plain is a text by its form. -/
theorem scalarNode_isPlain (value : String) :
    scalarNode none (Writer.isPlain value.toList) value = .ofText value := by
  cases hPlain : Writer.isPlain value.toList with
  | false => rfl
  | true =>
      obtain ⟨c, chars, hChars, hLine⟩ := Writer.exists_plainLine hPlain
      have hForm := hLine.form
      rw [← hChars, String.ofList_toList] at hForm
      simp [scalarNode, tagOr, hForm, Node.ofText]

theorem scalarNode_key {key : String} (hKey : IsKey key) :
    scalarNode none true key = .ofText key := by
  simp [scalarNode, tagOr, hKey.form, Node.ofText]

/-- The entries of a block are composed to texts. -/
theorem blockEntries_entryTokens {entries : List (String × String)}
    (hKeys : ∀ entry ∈ entries, IsKey entry.1) (depth : Nat) {fuel : Nat}
    (hFuel : entries.length < fuel) :
    (blockEntries (node (depth + 1) .entry) fuel).run
      ⟨entries.flatMap entryTokens ++ .blockEnd :: rest, failure, handles, anchors⟩ =
    .ok (entries.map entryNodes, ⟨rest, failure, handles, anchors⟩) := by
  induction entries generalizing fuel with
  | nil =>
      obtain ⟨fuel, rfl⟩ := Nat.exists_eq_succ_of_ne_zero (Nat.ne_of_gt hFuel)
      rfl
  | cons entry entries ih =>
      obtain ⟨hKey, hOthers⟩ := List.forall_mem_cons.mp hKeys
      obtain ⟨fuel, rfl⟩ := Nat.exists_eq_succ_of_ne_zero (Nat.ne_of_gt (Nat.zero_lt_of_lt hFuel))
      rw [List.flatMap_cons, List.append_assoc, blockEntries_entry,
        ih hOthers (Nat.lt_of_succ_lt_succ hFuel), scalarNode_key hKey, scalarNode_isPlain]
      rfl

theorem node_blockMapping {depth : Nat} {entries : List (Node × Node)} {after : Composition}
    (h : (blockEntries (node depth .entry) (rest.length + 1)).run
      ⟨rest, failure, handles, anchors⟩ = .ok (entries, after)) :
    (node (depth + 1) .block).run ⟨.blockMapping :: rest, failure, handles, anchors⟩ =
      .ok (Node.ofEntries .mapping entries, after) := by
  have hNode : (node (depth + 1) .block).run ⟨.blockMapping :: rest, failure, handles, anchors⟩ =
      ((blockEntries (node depth .entry) (rest.length + 1)).run
          ⟨rest, failure, handles, anchors⟩ >>=
        fun read => .ok (Node.ofEntries .mapping read.1, read.2)) >>=
          fun read => .ok (read.1, read.2) := rfl
  rw [hNode, h]
  rfl

/-- A document that is one block of entries. -/
theorem document_blockMapping {root : Node}
    (h : (node (rest.length + 2) .block).run ⟨.blockMapping :: rest, none, handles, anchors⟩ =
      .ok (root, ⟨[], none, handles, anchors⟩)) :
    document.run' ⟨.blockMapping :: rest, none, handles, anchors⟩ = .ok (some root) := by
  have hDocument : document.run ⟨.blockMapping :: rest, none, handles, anchors⟩ =
      (node (rest.length + 2) .block).run ⟨.blockMapping :: rest, none, handles, anchors⟩ >>=
        fun read => onlyEnds.run read.2 >>= fun last => .ok (some read.1, last.2) := rfl
  change (·.1) <$> document.run _ = _
  rw [hDocument, h]
  rfl

end Composer

/-- Nothing is merged into a mapping of texts. -/
theorem Node.ofEntries_entryNodes (entries : List (String × String)) :
    Node.ofEntries .mapping (entries.map entryNodes) =
      .mapping .mapping [] (entries.map entryNodes) .absent := by
  have hTag (entry : String × String) : decide ((entryNodes entry).1.tag = .merge) = false := rfl
  have hParts : (entries.map entryNodes).partition (fun entry => decide (entry.1.tag = .merge)) =
      ([], entries.map entryNodes) := by
    rw [List.partition_eq_filter_filter, Prod.mk.injEq, List.filter_eq_nil_iff, List.filter_eq_self,
      List.forall_mem_map, List.forall_mem_map]
    exact ⟨fun entry _ => by simp [hTag], fun entry _ => by simp [hTag]⟩
  unfold Node.ofEntries
  rw [hParts]
  rfl

/-- The document of entries is a mapping of texts. -/
theorem Node.parse_entries {text : String} {entries : List (String × String)}
    (hKeys : ∀ entry ∈ entries, IsKey entry.1) (hTokens : TokenList.ofText text =
      ⟨.blockMapping :: (entries.flatMap entryTokens ++ [.blockEnd]), none⟩) :
    Node.parse text = .ok (some (.mapping .mapping [] (entries.map entryNodes) .absent)) := by
  generalize hRest : entries.flatMap entryTokens ++ [.blockEnd] = rest at hTokens
  have hFuel : entries.length < rest.length + 1 := by
    rw [← hRest]
    simp [entryTokens, List.length_flatMap]
    omega
  have hEntries : (Composer.blockEntries (Composer.node (rest.length + 1) .entry)
      (rest.length + 1)).run ⟨rest, none, Composer.standardHandles, []⟩ =
        .ok (entries.map entryNodes, ⟨[], none, Composer.standardHandles, []⟩) := by
    rw [← hRest] at hFuel ⊢
    exact Composer.blockEntries_entryTokens hKeys _ hFuel
  have hNode := Composer.node_blockMapping hEntries
  rw [Node.ofEntries_entryNodes] at hNode
  unfold Node.parse
  rw [hTokens]
  exact Composer.document_blockMapping hNode

/-- The data of an entry. -/
def entryData (entry : String × String) : Data × Data := (.text entry.1, .text entry.2)

namespace Data

theorem putEntry_new {entries : List (String × String)} {entry : String × String}
    (h : entry.1 ∉ entries.map (·.1)) :
    putEntry (entries.map entryData) (.text entry.1) (.text entry.2) =
      (entries ++ [entry]).map entryData := by
  induction entries with
  | nil => rfl
  | cons other entries ih =>
      rw [List.map_cons, List.mem_cons, not_or] at h
      have hOther : sameKey (.text other.1) (.text entry.1) = false := by
        simpa [sameKey] using Ne.symm h.1
      rw [List.map_cons, entryData, putEntry, hOther, ih h.2]
      rfl

/-- Entries with distinct keys stand in a mapping as they are. -/
theorem entriesOf_entryData {entries : List (String × String)}
    (hDistinct : (entries.map (·.1)).Nodup) :
    entriesOf (entries.map entryData) = entries.map entryData := by
  have hPut (before behind : List (String × String))
      (h : ((before ++ behind).map (·.1)).Nodup) :
      (behind.map entryData).foldl (fun entries pair => putEntry entries pair.1 pair.2)
        (before.map entryData) = (before ++ behind).map entryData := by
    induction behind generalizing before with
    | nil => simp
    | cons entry behind ih =>
        have hNew : entry.1 ∉ before.map (·.1) := by
          rw [List.map_append, List.map_cons] at h
          exact fun hMem => (List.nodup_append.mp h).2.2 _ hMem _ (List.mem_cons_self ..) rfl
        have hMore := ih (before ++ [entry]) (by simpa using h)
        rw [List.map_cons, List.foldl_cons, entryData, putEntry_new hNew, hMore]
        simp
  exact hPut [] entries hDistinct

end Data

theorem Node.entriesData_entryNodes (entries : List (String × String)) :
    Node.entriesData (entries.map entryNodes) = entries.map entryData := by
  induction entries with
  | nil => rfl
  | cons entry entries ih =>
      rw [List.map_cons, List.map_cons, ← ih]
      rfl

theorem Node.beginEntries_entryNodes (entries : List (String × String)) :
    Node.beginEntries (entries.map entryNodes) = .ok [] := by
  induction entries with
  | nil => rfl
  | cons entry entries ih =>
      have hFirst : Node.beginEntries ((entry :: entries).map entryNodes) =
          Node.beginEntries (entries.map entryNodes) >>= fun others => .ok others := rfl
      rw [hFirst, ih]
      rfl

/-- Entries with distinct keys are read as they were written. -/
theorem Data.parse_entries {comment : List Char} {entry : String × String}
    {entries : List (String × String)}
    (hComment : ∀ c ∈ comment, isAllowed c = true ∧ isBreak c = false)
    (hKeys : ∀ other ∈ entry :: entries, IsKey other.1)
    (hDistinct : ((entry :: entries).map (·.1)).Nodup) :
    Data.parse (String.ofList ('#' :: (comment ++ '\n' :: writeEntries (entry :: entries)))) =
      .ok (.mapping ((entry :: entries).map entryData)) := by
  have hNode := Node.parse_entries hKeys (TokenList.ofText_entries hComment hKeys)
  generalize entry :: entries = all at hNode hDistinct
  have hInto : (Node.mapping .mapping [] (all.map entryNodes) .absent).lookInto = .ok [] :=
    Node.beginEntries_entryNodes all
  have hLevels (depth : Nat) :
      Node.checkLevels (depth + 2) [.mapping .mapping [] (all.map entryNodes) .absent] = .ok () := by
    simp only [Node.checkLevels, List.mapM_cons, List.mapM_nil, hInto]
    rfl
  have hData : (Node.mapping .mapping [] (all.map entryNodes) .absent).toData =
      .mapping (all.map entryData) := by
    change Data.mapping (Data.entriesOf (Node.entriesData (all.map entryNodes))) = _
    rw [Node.entriesData_entryNodes, entriesOf_entryData hDistinct]
  unfold Data.parse
  rw [hNode]
  change (Node.checkLevels (_ + 2) _ >>= fun _ => _) = _
  rw [hLevels, ← hData]
  rfl

end SchemaModels.Yaml
