import SchemaModels.Proofs.Yaml.Composer
import SchemaModels.Proofs.Yaml.Levels

/-!
What can be wrong with a YAML text. Besides malformed text there are two kinds of
faults: a number in the characters of the text that is out of range, and a node
whose text is no value of the tag that it has.
-/
namespace SchemaModels.Yaml

open Relation (TransGen ReflTransGen)

namespace Node

/-- Whether a node is a mapping. -/
def isMapping : Node → Bool
  | .mapping .. => true
  | _ => false

/-- A node that is a truth value, a number, or a date or time by its tag, but whose
text has no such value. A mapping is no date or time, whatever its text is. -/
def LacksValue (node : Node) (e : Error) : Prop :=
  node.tag ∈ [Tag.boolean, .integer, .float, .moment] ∧
    ∃ value, node.scalarText? = some value ∧
      if node.isMapping then mappingData? node.tag value = .error e
      else scalarData? node.tag value = .error e

/-- A fault of a node or of one inside it. -/
def IsFaultIn (root : Node) (e : Error) : Prop :=
  e = .malformed ∨ ∃ node, ReflTransGen IsChild node root ∧ node.LacksValue e

section Kinds

variable {e : Error}

theorem IsFaultIn.of_inside {inner root : Node} (h : inner.IsFaultIn e)
    (hInside : ReflTransGen IsChild inner root) : root.IsFaultIn e := by
  rcases h with rfl | ⟨node, hNode, hLacks⟩
  · exact .inl rfl
  · exact .inr ⟨node, hNode.trans hInside, hLacks⟩

theorem scalarFaults_kind {tag : Tag} {value : String} (h : e ∈ scalarFaults tag value) :
    e = .malformed ∨ tag ∈ [Tag.boolean, .integer, .float, .moment] ∧
      scalarData? tag value = .error e := by
  unfold scalarFaults at h
  split at h
  · rename_i e' hData
    obtain rfl := List.mem_singleton.mp h
    cases tag with
    | boolean | integer | float | moment => exact .inr ⟨by decide, hData⟩
    | binary =>
        simp only [scalarData?] at hData
        split_ifs at hData
        · split at hData
          · cases hData
          · exact .inl (Except.error.inj hData).symm
        · exact .inl (Except.error.inj hData).symm
    | merge | default | unknown => exact .inl (Except.error.inj hData).symm
    | _ => cases hData
  · cases h

theorem mappingFaults_kind {tag : Tag} {value : String} (h : e ∈ mappingFaults tag value) :
    e = .malformed ∨ tag ∈ [Tag.boolean, .integer, .float, .moment] ∧
      mappingData? tag value = .error e := by
  unfold mappingFaults at h
  unfold mappingData?
  split_ifs at h ⊢ with hMoment
  · exact .inr ⟨by simp [hMoment], (List.mem_singleton.mp h) ▸ rfl⟩
  · exact scalarFaults_kind h

theorem ownFaults_kind {node : Node} (h : e ∈ node.ownFaults) :
    e = .malformed ∨ node.LacksValue e := by
  cases node with
  | scalar tag value =>
      refine (scalarFaults_kind h).imp_right ?_
      rintro ⟨hTag, hData⟩
      exact ⟨hTag, value, by rw [scalarText?], hData⟩
  | sequence tag items =>
      rw [ownFaults] at h
      split_ifs at h
      · cases h
      · exact .inl (List.mem_singleton.mp h)
  | mapping tag merged own merging =>
      rw [ownFaults] at h
      split_ifs at h
      · cases h
      · cases hText : defaultText? own with
        | none =>
            rw [hText] at h
            exact .inl (List.mem_singleton.mp h)
        | some value =>
            rw [hText] at h
            refine (mappingFaults_kind h).imp_right ?_
            rintro ⟨hTag, hData⟩
            exact ⟨hTag, value, by rw [scalarText?, hText], hData⟩

theorem isFaultIn_of_ownFaults {child node : Node} (hChild : IsChild child node)
    (h : e ∈ child.ownFaults) : node.IsFaultIn e :=
  (ownFaults_kind h).imp_right fun hLacks => ⟨child, .single hChild, hLacks⟩

/-- As a key a node has no faults that it does not have anyway. -/
theorem ownFaults_asKey_subset (key : Node) : key.asKey.ownFaults ⊆ key.ownFaults := by
  unfold asKey
  split
  · exact List.nil_subset _
  · exact List.Subset.refl _

theorem entryFaults_kind {tag : Tag} {merged own : List (Node × Node)} {merging : Merging}
    {entry : Node × Node} (hEntry : entry ∈ merged ++ own) (h : e ∈ entryFaults entry) :
    (mapping tag merged own merging).IsFaultIn e := by
  have hChild (node : Node) (h : node ∈ [entry.1, entry.2]) :
      IsChild node (mapping tag merged own merging) :=
    List.mem_flatMap.mpr ⟨entry, hEntry, h⟩
  rw [entryFaults, List.mem_append, List.mem_append] at h
  rcases h with hKey | hCollection | hValue
  · exact isFaultIn_of_ownFaults (hChild _ (by simp)) (ownFaults_asKey_subset _ hKey)
  · split_ifs at hCollection
    · exact .inl (List.mem_singleton.mp hCollection)
    · cases hCollection
  · exact isFaultIn_of_ownFaults (hChild _ (by simp)) hValue

theorem pairFaults_kind {item : Node} (h : e ∈ item.pairFaults) : item.IsFaultIn e := by
  unfold pairFaults at h
  cases hOnly : item.onlyEntry? with
  | none =>
      rw [hOnly] at h
      exact .inl (List.mem_singleton.mp h)
  | some entry =>
      rw [hOnly] at h
      obtain ⟨node, hNode, hFault⟩ := List.mem_flatMap.mp h
      refine isFaultIn_of_ownFaults (isChild_of_mem_pairNodes ?_) hFault
      rw [pairNodes, hOnly]
      exact hNode

theorem innerFaults_kind {node : Node} (h : e ∈ node.innerFaults) : node.IsFaultIn e := by
  have hEntries {tag : Tag} {merged own : List (Node × Node)} {merging : Merging}
      (h : e ∈ if merging = .failed then [.malformed] else (merged ++ own).flatMap entryFaults) :
      (mapping tag merged own merging).IsFaultIn e := by
    split_ifs at h
    · exact .inl (List.mem_singleton.mp h)
    · obtain ⟨entry, hEntry, hFault⟩ := List.mem_flatMap.mp h
      exact entryFaults_kind hEntry hFault
  have hPairs {tag : Tag} {items : List Node} (h : e ∈ items.flatMap pairFaults) :
      (sequence tag items).IsFaultIn e := by
    obtain ⟨item, hItem, hFault⟩ := List.mem_flatMap.mp h
    exact (pairFaults_kind hFault).of_inside (.single hItem)
  unfold innerFaults at h
  split at h
  · obtain ⟨item, hItem, hFault⟩ := List.mem_flatMap.mp h
    exact isFaultIn_of_ownFaults hItem hFault
  · exact hEntries h
  · exact hEntries h
  · exact hPairs h
  · exact hPairs h
  · exact .inl (List.mem_singleton.mp h)

/-- What is at fault in a level is inside of one of its nodes. -/
theorem levelFaults_kind {depth : Nat} {level : List Node} (h : e ∈ levelFaults depth level) :
    ∃ node ∈ level, node.IsFaultIn e := by
  induction depth generalizing level with
  | zero => cases h
  | succ depth ih =>
      rw [levelFaults, List.mem_append] at h
      rcases h with hHere | hBelow
      · obtain ⟨node, hNode, hFault⟩ := List.mem_flatMap.mp hHere
        exact ⟨node, hNode, innerFaults_kind hFault⟩
      · obtain ⟨inner, hInner, hFault⟩ := ih hBelow
        obtain ⟨node, hNode, hInner⟩ := List.mem_flatMap.mp hInner
        have hInside := inside_of_mem_innerCollections hInner
        exact ⟨node, hNode, hFault.of_inside hInside.to_reflTransGen⟩

theorem faults_kind {root : Node} (h : e ∈ root.faults) : root.IsFaultIn e := by
  rw [faults, List.mem_append] at h
  rcases h with hOwn | hInner
  · exact (ownFaults_kind hOwn).imp_right fun hLacks => ⟨root, .refl, hLacks⟩
  · split_ifs at hInner
    · obtain ⟨node, hNode, hFault⟩ := levelFaults_kind hInner
      obtain rfl := List.mem_singleton.mp hNode
      exact hFault
    · cases hInner

end Kinds
end Node

namespace Data

/-- All that is wrong with a text: what keeps it from being composed, or else the
faults of the nodes of its document. -/
def faults (text : String) : List Error :=
  match Node.parse text with
  | .error e => [e]
  | .ok none => []
  | .ok (some root) => root.faults

/-- A text gives data exactly if nothing is wrong with it, and otherwise fails with
its first fault. -/
theorem parse_failsFirst (text : String) : FailsFirst (parse text) (faults text) := by
  unfold parse faults
  cases Node.parse text with
  | error e => exact .error e
  | ok document =>
      cases document with
      | none => exact .ok _
      | some root =>
          have hLevels : Node.checkLevels (root.depth + 1) [root] =
              unlessFaults (Node.levelFaults root.depth [root]) () :=
            Node.checkLevels_eq (by simp)
          have hRoot : (do
              if ← root.begins then
                Node.checkLevels (root.depth + 1) [root]
              return root.toData) = unlessFaults root.faults root.toData := by
            rw [Node.begins_eq, hLevels, Node.faults]
            refine unlessFaults_bind _ _ _ ?_
            cases root.isCollection with
            | true => exact unlessFaults_bind_pure _ _ _
            | false => rfl
          exact hRoot ▸ unlessFaults_failsFirst _ _

/-- The faults besides malformed text, and where they come from. -/
theorem faults_kind {text : String} {e : Error} (h : e ∈ faults text) (hOther : e ≠ .malformed) :
    (e.IsLexical ∧ (TokenList.ofText text).failure = some e) ∨
      ∃ root node, Node.parse text = .ok (some root) ∧ ReflTransGen Node.IsChild node root ∧
        node.LacksValue e := by
  unfold faults at h
  split at h
  · rename_i e' hParse
    obtain rfl := List.mem_singleton.mp h
    have hFailure := (Node.parse_error hParse).resolve_left hOther
    exact .inl ⟨TokenList.ofText_failure text e hFailure, hFailure⟩
  · cases h
  · rename_i root hParse
    obtain ⟨node, hInside, hLacks⟩ := (Node.faults_kind h).resolve_left hOther
    exact .inr ⟨root, node, hParse, hInside, hLacks⟩

end Data
end SchemaModels.Yaml
