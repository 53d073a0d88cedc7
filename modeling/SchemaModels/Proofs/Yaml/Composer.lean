import SchemaModels.Proofs.Yaml.Lexer
import SchemaModels.Yaml.Node

/-!
How the composition of nodes can fail. `Relays` says of a step that it adds no
failure but that of a malformed text to the one behind the tokens, and leaves that
one as it is; each step of the composer has one such lemma, put together from those
of its parts.
-/
namespace SchemaModels.Yaml

namespace Composer

variable {α β : Type}

/-- A step fails as malformed or with the failure behind the tokens, and keeps the
latter. -/
structure Relays (step : Composer α) : Prop where
  failure (state : Composition) :
    FailsOnly (fun e => e = .malformed ∨ state.failure = some e) (step.run state)
  keeps {state after : Composition} {a : α} :
    step.run state = .ok (a, after) → after.failure = state.failure

namespace Relays

theorem pure (a : α) : Relays (Pure.pure a) where
  failure _ := .ok _
  keeps h := by
    cases h
    rfl

theorem fail : Relays (Composer.fail : Composer α) where
  failure _ := .error (.inl rfl)
  keeps h := by cases h

theorem state : Relays (get : Composer Composition) where
  failure _ := .ok _
  keeps h := by
    cases h
    rfl

theorem update {f : Composition → Composition} (h : ∀ state, (f state).failure = state.failure) :
    Relays (modify f : Composer Unit) where
  failure _ := .ok _
  keeps {state _ _} hRun := by
    cases hRun
    exact h state

theorem bind {step : Composer α} {next : α → Composer β} (h : Relays step)
    (hNext : ∀ a, Relays (next a)) : Relays (step >>= next) where
  failure state e he := by
    rw [StateT.run_bind, bind_eq_error_iff] at he
    rcases he with hFirst | ⟨⟨a, middle⟩, hFirst, hSecond⟩
    · exact h.failure state e hFirst
    · rw [← h.keeps hFirst]
      exact (hNext a).failure middle e hSecond
  keeps {state after b} hRun := by
    rw [StateT.run_bind, bind_eq_ok_iff] at hRun
    obtain ⟨⟨a, middle⟩, hFirst, hSecond⟩ := hRun
    rw [(hNext a).keeps hSecond, h.keeps hFirst]

theorem map {step : Composer α} (h : Relays step) (f : α → β) : Relays (f <$> step) := by
  rw [map_eq_pure_bind]
  exact h.bind fun a => .pure (f a)

theorem ite {c : Prop} [Decidable c] {first second : Composer α} (h : Relays first)
    (hOther : Relays second) : Relays (if c then first else second) := by
  split
  · exact h
  · exact hOther

end Relays

theorem peek_relays : Relays peek where
  failure state := by
    obtain ⟨tokens, failure, handles, anchors⟩ := state
    cases tokens with
    | cons token rest => exact .ok _
    | nil =>
        cases failure with
        | none => exact .ok _
        | some e => exact .error (.inr rfl)
  keeps {state after token} hRun := by
    obtain ⟨tokens, failure, handles, anchors⟩ := state
    cases tokens with
    | cons token rest =>
        cases hRun
        rfl
    | nil =>
        cases failure with
        | none =>
            cases hRun
            rfl
        | some e => cases hRun

theorem advance_relays : Relays advance := .update fun _ => rfl

theorem skip_relays (token : Token) : Relays (skip token) :=
  peek_relays.bind fun _ => .ite (advance_relays.bind fun _ => .pure _) (.pure _)

theorem atAny_relays (tokens : List Token) : Relays (atAny tokens) := by
  refine peek_relays.bind fun next => ?_
  split
  · exact .pure _
  · exact .pure _

theorem fuel_relays : Relays fuel := Relays.state.bind fun _ => .pure _

theorem fullName_relays (name : TagName) : Relays (fullName name) := by
  cases name with
  | full name => exact .pure _
  | short handle rest =>
      refine Relays.state.bind fun state => ?_
      split
      · exact .pure _
      · exact .fail

theorem properties_relays : Relays properties := by
  refine peek_relays.bind fun first => ?_
  split
  · refine advance_relays.bind fun _ => peek_relays.bind fun second => ?_
    split
    · exact advance_relays.bind fun _ => .pure _
    · exact .pure _
  · refine advance_relays.bind fun _ => peek_relays.bind fun second => ?_
    split
    · exact advance_relays.bind fun _ => .pure _
    · exact .pure _
  · exact .pure _

theorem remember_relays (anchor : Option String) (node : Node) : Relays (remember anchor node) := by
  cases anchor with
  | none => exact .pure _
  | some name => exact .update fun _ => rfl

section Contents

variable {item : Composer Node}

/-- An item that may be left out in front of some tokens. -/
theorem itemOrEmpty_relays (h : Relays item) (after : List Token) {next : Node → Composer α}
    (hNext : ∀ node, Relays (next node)) :
    Relays (do
      let node ← if ← atAny after then pure emptyNode else item
      next node) := by
  refine (atAny_relays after).bind fun _ => .ite ?_ (h.bind hNext)
  exact (Relays.pure emptyNode).bind hNext

theorem blockItems_relays (own : Bool) (h : Relays item) (fuel : Nat) :
    Relays (blockItems own item fuel) := by
  induction fuel with
  | zero => exact .fail
  | succ fuel ih =>
      refine (skip_relays _).bind fun _ => .ite ?_ (.ite ?_ (.pure _))
      · exact itemOrEmpty_relays h _ fun _ => ih.bind fun _ => .pure _
      · exact (skip_relays _).bind fun _ => .ite (.pure _) .fail

theorem entryValue_relays (after : List Token) (h : Relays item) :
    Relays (entryValue after item) := by
  refine (skip_relays _).bind fun _ => .ite ?_ (.pure _)
  exact (atAny_relays after).bind fun _ => .ite (.pure _) h

theorem blockEntries_relays (h : Relays item) (fuel : Nat) : Relays (blockEntries item fuel) := by
  induction fuel with
  | zero => exact .fail
  | succ fuel ih =>
      refine (skip_relays _).bind fun _ => .ite ?_ ?_
      · refine itemOrEmpty_relays h _ fun key => (entryValue_relays _ h).bind fun value => ?_
        exact ih.bind fun _ => .pure _
      · exact (skip_relays _).bind fun _ => .ite (.pure _) .fail

/-- The comma in front of all items but the first. -/
theorem comma_relays (first : Bool) {next : Composer α} (h : Relays next) :
    Relays (do
      if !first then
        if !(← skip .flowEntry) then fail
      next) := by
  refine .ite ((skip_relays _).bind fun _ => .ite ?_ h) h
  exact Relays.fail.bind fun _ => h

theorem flowItems_relays (h : Relays item) (first : Bool) (fuel : Nat) :
    Relays (flowItems item first fuel) := by
  induction fuel generalizing first with
  | zero => exact .fail
  | succ fuel ih =>
      have hMore (entry : Node) : Relays (do return entry :: (← flowItems item false fuel)) :=
        (ih false).bind fun _ => .pure _
      refine (skip_relays _).bind fun _ => .ite (.pure _) (comma_relays first ?_)
      refine (skip_relays _).bind fun _ => .ite (.pure _) ?_
      refine (skip_relays _).bind fun _ => .ite ?_ (h.bind hMore)
      refine itemOrEmpty_relays h _ fun key => (entryValue_relays _ h).bind fun value => ?_
      exact (Relays.pure _).bind hMore

theorem flowEntries_relays (h : Relays item) (first : Bool) (fuel : Nat) :
    Relays (flowEntries item first fuel) := by
  induction fuel generalizing first with
  | zero => exact .fail
  | succ fuel ih =>
      have hMore (entry : Node × Node) :
          Relays (do return entry :: (← flowEntries item false fuel)) :=
        (ih false).bind fun _ => .pure _
      refine (skip_relays _).bind fun _ => .ite (.pure _) (comma_relays first ?_)
      refine (skip_relays _).bind fun _ => .ite (.pure _) ?_
      refine (skip_relays _).bind fun _ => .ite ?_ ?_
      · refine itemOrEmpty_relays h _ fun key => (entryValue_relays _ h).bind fun value => ?_
        exact (Relays.pure _).bind hMore
      · exact h.bind fun key => (Relays.pure _).bind hMore

theorem collection_relays (anchor : Option String) (empty : Node) (h : Relays item) :
    Relays (collection anchor empty item) :=
  (remember_relays anchor empty).bind fun _ => h.bind fun node =>
    (remember_relays anchor node).bind fun _ => .pure _

end Contents

/-- The full name of a tag, if there is one. -/
theorem givenName_relays (tagName : Option TagName) {next : Option String → Composer α}
    (h : ∀ given, Relays (next given)) :
    Relays (do
      let given ← match tagName with
        | some name => some <$> fullName name
        | none => pure none
      next given) := by
  cases tagName with
  | none => exact (Relays.pure none).bind h
  | some name => exact ((fullName_relays name).map some).bind h

/-- An anchor is given once at most. -/
theorem newAnchor_relays (anchor : Option String) {next : Composer α} (h : Relays next) :
    Relays (do
      if let some name := anchor then
        if ((← get).anchors.lookup name).isSome then fail
      next) := by
  cases anchor with
  | none => exact h
  | some name => exact Relays.state.bind fun _ => .ite (Relays.fail.bind fun _ => h) h

/-- A node at any place, whatever depth is left for it. -/
theorem node_relays (depth : Nat) (place : Place) : Relays (node depth place) := by
  induction depth generalizing place with
  | zero => exact .fail
  | succ depth ih =>
      have hItems (own : Bool) (tag : Tag) : Relays (do
          return Node.sequence tag (← blockItems own (node depth .block) (← fuel))) :=
        fuel_relays.bind fun _ => (blockItems_relays own (ih _) _).bind fun _ => .pure _
      have hScalar (anchor : Option String) (scalar : Node) :
          Relays (do remember anchor scalar; return scalar) :=
        (remember_relays anchor scalar).bind fun _ => .pure _
      refine peek_relays.bind fun first => ?_
      split
      · refine advance_relays.bind fun _ => Relays.state.bind fun state => ?_
        split
        · exact .pure _
        · exact .fail
      · refine properties_relays.bind fun ⟨anchor, tagName⟩ => ?_
        refine givenName_relays tagName fun given => ?_
        refine peek_relays.bind fun next => newAnchor_relays anchor ?_
        dsimp only
        split
        · exact advance_relays.bind fun _ => hScalar _ _
        · refine advance_relays.bind fun _ => collection_relays _ _ ?_
          exact fuel_relays.bind fun _ => (flowItems_relays (ih _) _ _).bind fun _ => .pure _
        · refine advance_relays.bind fun _ => collection_relays _ _ ?_
          exact fuel_relays.bind fun _ => (flowEntries_relays (ih _) _ _).bind fun _ => .pure _
        · refine .ite (advance_relays.bind fun _ => collection_relays _ _ (hItems _ _)) ?_
          refine .ite (advance_relays.bind fun _ => collection_relays _ _ ?_) ?_
          · exact fuel_relays.bind fun _ => (blockEntries_relays (ih _) _).bind fun _ => .pure _
          · exact .ite (collection_relays _ _ (hItems _ _)) (.ite (hScalar _ _) .fail)

theorem directives_relays (fuel : Nat) (versioned : Bool) (handles : List (String × String)) :
    Relays (directives fuel versioned handles) := by
  induction fuel generalizing versioned handles with
  | zero => exact .fail
  | succ fuel ih =>
      refine peek_relays.bind fun next => ?_
      split
      · refine advance_relays.bind fun _ => .ite ?_ (ih _ _)
        exact Relays.fail.bind fun _ => ih _ _
      · refine advance_relays.bind fun _ => .ite ?_ (ih _ _)
        exact Relays.fail.bind fun _ => ih _ _
      · exact advance_relays.bind fun _ => ih _ _
      · exact .pure _

theorem skipEnds_relays (fuel : Nat) : Relays (skipEnds fuel) := by
  induction fuel with
  | zero => exact .pure _
  | succ fuel ih => exact (skip_relays _).bind fun _ => .ite ih (.pure _)

theorem content_relays : Relays content := by
  refine peek_relays.bind fun next => ?_
  have hContent (empty : Bool) :
      Relays (do if empty then return emptyNode else node (← fuel) .block) :=
    .ite (.pure _) (fuel_relays.bind fun _ => node_relays _ _)
  split
  all_goals exact (Relays.pure _).bind hContent

theorem onlyEnds_relays : Relays onlyEnds := by
  refine fuel_relays.bind fun _ => (skipEnds_relays _).bind fun _ => peek_relays.bind fun _ => ?_
  refine .ite ?_ (.pure _)
  refine fuel_relays.bind fun _ => (directives_relays _ _ _).bind fun _ => ?_
  exact peek_relays.bind fun _ => .fail

theorem document_relays : Relays document := by
  have hOnly {root : Composer Node} (h : Relays root) :
      Relays (do let node ← root; onlyEnds; return some node) :=
    h.bind fun _ => onlyEnds_relays.bind fun _ => .pure _
  have hHandles (handles : List (String × String)) :
      Relays (modify fun state => { state with handles := handles ++ standardHandles }) :=
    .update fun _ => rfl
  have hMarked : Relays (do
      let handles ← directives (← fuel) false []
      modify fun state => { state with handles := handles ++ standardHandles }
      if !(← skip .documentStart) then fail
      let root ← content
      onlyEnds
      return some root) := by
    refine fuel_relays.bind fun _ => (directives_relays _ _ _).bind fun handles => ?_
    refine (hHandles handles).bind fun _ => (skip_relays _).bind fun _ => ?_
    exact .ite (Relays.fail.bind fun _ => hOnly content_relays) (hOnly content_relays)
  refine peek_relays.bind fun next => ?_
  split
  · exact .pure _
  · exact hMarked
  · exact hMarked
  · exact fuel_relays.bind fun _ => hOnly (node_relays _ _)

end Composer

/-- A text without a document of nodes is malformed, or its characters are at fault. -/
theorem Node.parse_error {text : String} {e : Error} (h : Node.parse text = .error e) :
    e = .malformed ∨ (TokenList.ofText text).failure = some e := by
  unfold Node.parse at h
  rw [StateT.run'_eq] at h
  exact (Composer.document_relays.failure _).map Prod.fst e h

end SchemaModels.Yaml
