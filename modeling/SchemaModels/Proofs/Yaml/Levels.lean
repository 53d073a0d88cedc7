import Mathlib.Logic.Relation
import Mathlib.Order.MinMax
import SchemaModels.Proofs.FirstFailure
import SchemaModels.Yaml.Data

/-!
The faults of the nodes of a document, in the order in which they count: level by
level, first what is directly in a node and then what is in the collections in it.
The data of a text are had exactly if its list of faults is empty, and otherwise the
first of them is the failure.
-/
namespace SchemaModels.Yaml

namespace Node

/-- The faults of a scalar as the data of a tag. -/
def scalarFaults (tag : Tag) (value : String) : List Error :=
  match scalarData? tag value with
  | .error e => [e]
  | .ok _ => []

/-- The faults of a mapping as the data of a tag for scalars. -/
def mappingFaults (tag : Tag) (value : String) : List Error :=
  if tag = .moment then [.momentOfMapping] else scalarFaults tag value

/-- The faults of a node that show without looking into it. -/
def ownFaults : Node → List Error
  | .scalar tag value => scalarFaults tag value
  | .sequence tag _ => if tag.isCollection then [] else [.malformed]
  | .mapping tag _ own _ =>
    if tag.isCollection then []
    else
      match defaultText? own with
      | some value => mappingFaults tag value
      | none => [.malformed]

/-- Whether a node has the tag of a collection. -/
def isCollection (node : Node) : Bool := node.tag.isCollection

/-- The faults of an entry. Its key cannot be a collection. -/
def entryFaults (entry : Node × Node) : List Error :=
  entry.1.asKey.ownFaults ++
    ((if entry.1.asKey.isCollection then [.malformed] else []) ++ entry.2.ownFaults)

/-- The faults of what has to be a mapping of one entry. -/
def pairFaults (item : Node) : List Error :=
  match item.onlyEntry? with
  | none => [.malformed]
  | some (key, value) => [key, value].flatMap ownFaults

/-- The faults of what is directly in a node. -/
def innerFaults : Node → List Error
  | .sequence .sequence items => items.flatMap ownFaults
  | .mapping .mapping merged own merging | .mapping .set merged own merging =>
    if merging = .failed then [.malformed] else (merged ++ own).flatMap entryFaults
  | .sequence .orderedMapping items | .sequence .pairs items => items.flatMap pairFaults
  | _ => [.malformed]

/-- What is in a mapping of one entry. -/
def pairNodes (item : Node) : List Node :=
  match item.onlyEntry? with
  | none => []
  | some (key, value) => [key, value]

/-- The collections that are directly in a node. -/
def innerCollections : Node → List Node
  | .sequence .sequence items => items.filter isCollection
  | .mapping .mapping merged own _ | .mapping .set merged own _ =>
    ((merged ++ own).map (·.2)).filter isCollection
  | .sequence .orderedMapping items | .sequence .pairs items =>
    (items.flatMap pairNodes).filter isCollection
  | _ => []

/-- The faults inside the nodes of a level, and then inside those of the levels
below it. -/
def levelFaults : Nat → List Node → List Error
  | 0, _ => []
  | depth + 1, level =>
    level.flatMap innerFaults ++ levelFaults depth (level.flatMap innerCollections)

/-- All faults of a node, level by level. -/
def faults (node : Node) : List Error :=
  node.ownFaults ++ if node.isCollection then levelFaults node.depth [node] else []

section Settling

/-- The scalars of a tag for collections give no data of their own, and all others
do. -/
theorem isNone_of_scalarData {tag : Tag} {value : String} {data : Option Data}
    (h : scalarData? tag value = .ok data) : data.isNone = tag.isCollection := by
  have hRead {α : Type} {read : Except Error α} {make : α → Data}
      (h : read.map (fun a => some (make a)) = .ok data) : data.isNone = false := by
    cases read with
    | error e => cases h
    | ok a =>
        cases h
        rfl
  cases tag with
  | null | text | sequence | mapping | set | orderedMapping | pairs =>
      cases h
      rfl
  | boolean | integer | float | moment => exact hRead h
  | binary =>
      simp only [scalarData?] at h
      split at h
      · split at h
        · cases h
          rfl
        · cases h
      · cases h
  | merge | default | unknown => cases h

theorem map_isNone_scalarData (tag : Tag) (value : String) :
    (scalarData? tag value).map (·.isNone) =
      unlessFaults (scalarFaults tag value) tag.isCollection := by
  unfold scalarFaults
  cases hData : scalarData? tag value with
  | error e => rfl
  | ok data => exact congrArg Except.ok (isNone_of_scalarData hData)

theorem map_isNone_mappingData (tag : Tag) (value : String) :
    (mappingData? tag value).map (·.isNone) =
      unlessFaults (mappingFaults tag value) tag.isCollection := by
  unfold mappingData? mappingFaults
  split_ifs
  · rfl
  · exact map_isNone_scalarData tag value

theorem begins_eq (node : Node) : node.begins = unlessFaults node.ownFaults node.isCollection := by
  unfold begins ownData? ownFaults isCollection
  cases node with
  | scalar tag value => exact map_isNone_scalarData tag value
  | sequence tag items =>
      cases hTag : tag.isCollection with
      | true => simp [Node.tag, hTag, unlessFaults, Except.map]
      | false => simp [hTag, unlessFaults, Except.map]
  | mapping tag merged own merging =>
      cases hTag : tag.isCollection with
      | true => simp [Node.tag, hTag, unlessFaults, Except.map]
      | false =>
          simp only [Node.tag, hTag, Bool.false_eq_true, if_false]
          cases defaultText? own with
          | none => rfl
          | some value => exact hTag ▸ map_isNone_mappingData tag value

theorem beginAll_eq (items : List Node) :
    beginAll items = unlessFaults (items.flatMap ownFaults) (items.filter isCollection) := by
  induction items with
  | nil => rfl
  | cons node rest ih =>
      rw [beginAll, begins_eq, ih, List.flatMap_cons, List.filter_cons]
      exact unlessFaults_bind _ _ _ (unlessFaults_bind_pure _ _ _)

theorem beginEntries_eq (entries : List (Node × Node)) :
    beginEntries entries =
      unlessFaults (entries.flatMap entryFaults) ((entries.map (·.2)).filter isCollection) := by
  induction entries with
  | nil => rfl
  | cons entry rest ih =>
      obtain ⟨key, value⟩ := entry
      rw [beginEntries, begins_eq, begins_eq, ih, List.flatMap_cons, List.map_cons,
        List.filter_cons, entryFaults, List.append_assoc, List.append_assoc]
      refine unlessFaults_bind _ _ _ ?_
      cases key.asKey.isCollection with
      | true => rfl
      | false => exact unlessFaults_bind _ _ _ (unlessFaults_bind_pure _ _ _)

theorem beginPairs_eq (items : List Node) :
    beginPairs items = unlessFaults (items.flatMap pairFaults)
      ((items.flatMap pairNodes).filter isCollection) := by
  induction items with
  | nil => rfl
  | cons item rest ih =>
      rw [beginPairs, List.flatMap_cons, List.flatMap_cons, List.filter_append, pairFaults,
        pairNodes]
      cases item.onlyEntry? with
      | none => rfl
      | some entry =>
          obtain ⟨key, value⟩ := entry
          dsimp only
          rw [beginAll_eq, ih]
          exact unlessFaults_bind _ _ _ (unlessFaults_bind_pure _ _ _)

theorem lookInto_eq (node : Node) :
    node.lookInto = unlessFaults node.innerFaults node.innerCollections := by
  have hEntries (entries : List (Node × Node)) (merging : Merging) :
      (if merging = .failed then .error .malformed else beginEntries entries) =
        unlessFaults (if merging = .failed then [.malformed] else entries.flatMap entryFaults)
          ((entries.map (·.2)).filter isCollection) := by
    cases merging with
    | failed => rfl
    | absent | done => exact beginEntries_eq entries
  cases node with
  | scalar tag value => rfl
  | sequence tag items =>
      cases tag with
      | sequence => exact beginAll_eq items
      | orderedMapping | pairs => exact beginPairs_eq items
      | _ => rfl
  | mapping tag merged own merging =>
      cases tag with
      | mapping | set => exact hEntries (merged ++ own) merging
      | _ => rfl

end Settling

/-- The nodes that are directly in a node. -/
def children : Node → List Node
  | .scalar .. => []
  | .sequence _ items => items
  | .mapping _ merged own _ => (merged ++ own).flatMap fun entry => [entry.1, entry.2]

/-- Whether a node is directly in another one. -/
def IsChild (child node : Node) : Prop := child ∈ node.children

section Depth

open Relation (TransGen)

variable {inner node : Node}

theorem depth_le_itemsDepth {items : List Node} (h : node ∈ items) :
    node.depth ≤ itemsDepth items := by
  induction items with
  | nil => cases h
  | cons item rest ih =>
      rw [itemsDepth]
      rcases List.mem_cons.mp h with rfl | h
      · exact le_max_left _ _
      · exact (ih h).trans (le_max_right _ _)

theorem depth_le_entriesDepth {entries : List (Node × Node)} {entry : Node × Node}
    (h : entry ∈ entries) : max entry.1.depth entry.2.depth ≤ entriesDepth entries := by
  induction entries with
  | nil => cases h
  | cons other rest ih =>
      obtain ⟨key, value⟩ := other
      rw [entriesDepth]
      rcases List.mem_cons.mp h with rfl | h
      · exact le_max_left _ _
      · exact (ih h).trans (le_max_right _ _)

theorem IsChild.depth_lt (h : IsChild inner node) : inner.depth < node.depth := by
  unfold IsChild children at h
  cases node with
  | scalar tag value => cases h
  | sequence tag items =>
      rw [depth]
      exact Nat.lt_succ_of_le (depth_le_itemsDepth h)
  | mapping tag merged own merging =>
      obtain ⟨entry, hEntry, hInner⟩ := List.mem_flatMap.mp h
      have hDepth : max entry.1.depth entry.2.depth ≤
          max (entriesDepth merged) (entriesDepth own) := by
        rcases List.mem_append.mp hEntry with hMerged | hOwn
        · exact (depth_le_entriesDepth hMerged).trans (le_max_left _ _)
        · exact (depth_le_entriesDepth hOwn).trans (le_max_right _ _)
      rw [max_le_iff] at hDepth
      rw [depth]
      rcases List.mem_pair.mp hInner with rfl | rfl
      · exact Nat.lt_succ_of_le hDepth.1
      · exact Nat.lt_succ_of_le hDepth.2

theorem depth_lt_of_inside (h : TransGen IsChild inner node) : inner.depth < node.depth := by
  induction h with
  | single h => exact h.depth_lt
  | tail _ h ih => exact ih.trans h.depth_lt

theorem isChild_of_mem_pairNodes {item : Node} (h : inner ∈ item.pairNodes) :
    IsChild inner item := by
  unfold pairNodes onlyEntry? at h
  split at h
  · cases h
  · rename_i key value hOnly
    split at hOnly
    · cases hOnly
      simp only [IsChild, children, List.flatMap_append, List.mem_append]
      exact .inr (by simpa using h)
    · cases hOnly

theorem inside_of_mem_innerCollections (h : inner ∈ node.innerCollections) :
    TransGen IsChild inner node := by
  have hPairs (tag : Tag) (items : List Node)
      (h : inner ∈ (items.flatMap pairNodes).filter isCollection) :
      TransGen IsChild inner (.sequence tag items) := by
    obtain ⟨item, hItem, hInner⟩ := List.mem_flatMap.mp (List.mem_of_mem_filter h)
    exact .tail (.single (isChild_of_mem_pairNodes hInner)) hItem
  have hEntries (tag : Tag) (merged own : List (Node × Node)) (merging : Merging)
      (h : inner ∈ ((merged ++ own).map (·.2)).filter isCollection) :
      TransGen IsChild inner (.mapping tag merged own merging) := by
    obtain ⟨entry, hEntry, rfl⟩ := List.mem_map.mp (List.mem_of_mem_filter h)
    exact .single (List.mem_flatMap.mpr ⟨entry, hEntry, by simp⟩)
  unfold innerCollections at h
  split at h
  · exact .single (List.mem_of_mem_filter h)
  · exact hEntries _ _ _ _ h
  · exact hEntries _ _ _ _ h
  · exact hPairs _ _ h
  · exact hPairs _ _ h
  · cases h

theorem depth_pos (node : Node) : 0 < node.depth := by
  cases node with
  | scalar | sequence | mapping =>
      rw [depth]
      exact Nat.succ_pos _

@[simp]
theorem levelFaults_nil (depth : Nat) : levelFaults depth [] = [] := by
  induction depth with
  | zero => rfl
  | succ depth ih => exact ih

/-- Level by level the nodes get less deep, so the depth of a node bounds the number
of its levels. -/
theorem checkLevels_eq {depth : Nat} {level : List Node} (h : ∀ node ∈ level, node.depth ≤ depth) :
    checkLevels (depth + 1) level = unlessFaults (levelFaults depth level) () := by
  induction depth generalizing level with
  | zero =>
      cases level with
      | nil => rfl
      | cons node rest =>
          have hNode := h node (List.mem_cons_self ..)
          exact absurd (depth_pos node) (by omega)
  | succ depth ih =>
      cases level with
      | nil =>
          rw [levelFaults_nil]
          rfl
      | cons node rest =>
          rw [checkLevels, mapM_eq_unlessFaults fun node _ => lookInto_eq node, levelFaults]
          · refine unlessFaults_bind _ _ _ ?_
            rw [← List.flatMap_def]
            apply ih
            intro inner hInner
            obtain ⟨outer, hOuter, hInner⟩ := List.mem_flatMap.mp hInner
            have hLess := depth_lt_of_inside (inside_of_mem_innerCollections hInner)
            have hBound := h outer hOuter
            omega
          · simp

end Depth
end Node
end SchemaModels.Yaml
