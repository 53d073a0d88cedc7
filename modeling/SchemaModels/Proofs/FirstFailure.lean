import Mathlib.Data.List.Forall2

/-!
Computations that stop at their first failure, and the lists of everything that
is wrong beside them. `FailsFirst` says that a computation fails with the head of
such a list; the lemmas follow the ways in which computations are put together.
-/
namespace SchemaModels

variable {ε α β : Type}

/-- The outcome is a failure exactly if there are faults, and then it is the
first of them. -/
def FailsFirst (outcome : Except ε α) (faults : List ε) : Prop :=
  ∀ e, outcome = .error e ↔ faults.head? = some e

namespace FailsFirst

theorem ok (a : α) : FailsFirst (.ok a : Except ε α) [] := by
  intro e
  simp

theorem error (e : ε) : FailsFirst (.error e : Except ε α) [e] := by
  intro e'
  simp

variable {outcome : Except ε α} {faults : List ε}

/-- Without faults there is a result, and with any there is none. -/
theorem exists_ok_iff (h : FailsFirst outcome faults) : (∃ a, outcome = .ok a) ↔ faults = [] := by
  cases outcome with
  | ok a =>
      have hNone : faults.head? = none := by
        rw [Option.eq_none_iff_forall_ne_some]
        intro e he
        have := (h e).mpr he
        cases this
      simpa [List.head?_eq_none_iff] using hNone
  | error e =>
      have hSome := (h e).mp rfl
      constructor
      · rintro ⟨a, ha⟩
        cases ha
      · rintro rfl
        cases hSome

theorem map (h : FailsFirst outcome faults) (f : α → β) : FailsFirst (outcome.map f) faults := by
  intro e
  rw [← h e]
  cases outcome with
  | ok a => simp [Except.map]
  | error e' => simp [Except.map]

/-- One computation after another: the faults of the second count only where
the first has none. -/
theorem bind {next : α → Except ε β} {later : List ε} (h : FailsFirst outcome faults)
    (hLater : ∀ a, outcome = .ok a → FailsFirst (next a) later) :
    FailsFirst (outcome >>= next) (faults ++ later) := by
  cases outcome with
  | ok a =>
      have hNil : faults = [] := h.exists_ok_iff.mp ⟨a, rfl⟩
      subst hNil
      exact hLater a rfl
  | error e =>
      have hHead := (h e).mp rfl
      intro e'
      rw [List.head?_append, hHead]
      change Except.error e = Except.error e' ↔ some e = some e'
      rw [Except.error.injEq, Option.some.injEq]

/-- A computation whose result is only put in its place. -/
theorem bind_pure (h : FailsFirst outcome faults) (f : α → β) :
    FailsFirst (outcome >>= fun a => pure (f a)) faults := by
  rw [← List.append_nil faults]
  exact h.bind fun a _ => ok (f a)

/-- The items of a list, one after the other. -/
theorem mapM {f : α → Except ε β} {faultsOf : α → List ε} {items : List α}
    (h : ∀ a ∈ items, FailsFirst (f a) (faultsOf a)) :
    FailsFirst (items.mapM f) (items.flatMap faultsOf) := by
  induction items with
  | nil => exact ok []
  | cons a rest ih =>
      rw [List.mapM_cons, List.flatMap_cons]
      apply (h a (List.mem_cons_self ..)).bind
      intro b _
      exact (ih fun a' ha' => h a' (List.mem_cons_of_mem _ ha')).bind_pure (b :: ·)

end FailsFirst

/-- A result, unless there are faults: then the first of them is the failure. -/
def unlessFaults (faults : List ε) (a : α) : Except ε α :=
  match faults with
  | [] => .ok a
  | e :: _ => .error e

theorem unlessFaults_failsFirst (faults : List ε) (a : α) :
    FailsFirst (unlessFaults faults a) faults := by
  cases faults with
  | nil => exact .ok a
  | cons e rest =>
      intro e'
      simp [unlessFaults]

/-- One computation after another, whose faults come later. -/
theorem unlessFaults_bind (faults : List ε) (a : α) (next : α → Except ε β) {later : List ε}
    {b : β} (h : next a = unlessFaults later b) :
    unlessFaults faults a >>= next = unlessFaults (faults ++ later) b := by
  cases faults with
  | nil => exact h
  | cons e rest => rfl

theorem unlessFaults_bind_pure (faults : List ε) (a : α) (f : α → β) :
    (unlessFaults faults a >>= fun result => pure (f result)) = unlessFaults faults (f a) := by
  cases faults with
  | nil => rfl
  | cons e rest => rfl

/-- The items of a list, one after the other. -/
theorem mapM_eq_unlessFaults {f : α → Except ε β} {faultsOf : α → List ε} {resultOf : α → β}
    {items : List α} (h : ∀ a ∈ items, f a = unlessFaults (faultsOf a) (resultOf a)) :
    items.mapM f = unlessFaults (items.flatMap faultsOf) (items.map resultOf) := by
  induction items with
  | nil => rfl
  | cons a rest ih =>
      rw [List.forall_mem_cons] at h
      rw [List.mapM_cons, h.1, ih h.2]
      exact unlessFaults_bind _ _ _ (unlessFaults_bind_pure _ _ _)

/-- A result that is changed comes from a result. -/
theorem map_eq_ok_iff {outcome : Except ε α} {f : α → β} {b : β} :
    outcome.map f = .ok b ↔ ∃ a, outcome = .ok a ∧ f a = b := by
  cases outcome with
  | ok a => simp [Except.map]
  | error e => simp [Except.map]

theorem eq_ok_of_toOption {outcome : Except ε α} {a : α} (h : outcome.toOption = some a) :
    outcome = .ok a := by
  cases outcome with
  | ok b => rw [Option.some.inj h]
  | error e => cases h

/-- Two computations, one after the other, succeed exactly if both do. -/
theorem bind_eq_ok_iff {outcome : Except ε α} {next : α → Except ε β} {b : β} :
    outcome >>= next = .ok b ↔ ∃ a, outcome = .ok a ∧ next a = .ok b := by
  cases outcome with
  | ok a => simp [Bind.bind, Except.bind]
  | error e => simp [Bind.bind, Except.bind]

/-- They fail exactly if the first does, or else the second. -/
theorem bind_eq_error_iff {outcome : Except ε α} {next : α → Except ε β} {e : ε} :
    outcome >>= next = .error e ↔
      outcome = .error e ∨ ∃ a, outcome = .ok a ∧ next a = .error e := by
  cases outcome with
  | ok a => simp [Bind.bind, Except.bind]
  | error e' => simp [Bind.bind, Except.bind]

/-- A traversal succeeds exactly if every item does, with the results in the
order of the items. -/
theorem mapM_eq_ok_iff {f : α → Except ε β} {items : List α} {results : List β} :
    items.mapM f = .ok results ↔ List.Forall₂ (fun a b => f a = .ok b) items results := by
  induction items generalizing results with
  | nil =>
      rw [List.mapM_nil, List.forall₂_nil_left_iff]
      exact ⟨fun h => (Except.ok.inj h).symm, fun h => h ▸ rfl⟩
  | cons a rest ih =>
      rw [List.mapM_cons, bind_eq_ok_iff, List.forall₂_cons_left_iff]
      apply exists_congr
      intro b
      simp only [bind_eq_ok_iff, ih]
      constructor
      · rintro ⟨hFirst, bs, hRest, hResults⟩
        exact ⟨bs, hFirst, hRest, (Except.ok.inj hResults).symm⟩
      · rintro ⟨bs, hFirst, hRest, rfl⟩
        exact ⟨hFirst, bs, hRest, rfl⟩

/-- The results of a traversal have a property if that of each item has it. -/
theorem forall_of_mapM {f : α → Except ε β} {p : β → Prop} {items : List α} {results : List β}
    (h : items.mapM f = .ok results) (hItem : ∀ a ∈ items, ∀ b, f a = .ok b → p b) :
    ∀ b ∈ results, p b := by
  rw [mapM_eq_ok_iff] at h
  induction h with
  | nil => exact List.forall_mem_nil _
  | cons hFirst _ ih =>
      rw [List.forall_mem_cons] at hItem ⊢
      exact ⟨hItem.1 _ hFirst, ih hItem.2⟩

/-- Every item of a traversal that succeeds has a result. -/
theorem exists_ok_of_mapM {f : α → Except ε β} {items : List α} {results : List β}
    (h : items.mapM f = .ok results) : ∀ a ∈ items, ∃ b, f a = .ok b := by
  rw [mapM_eq_ok_iff] at h
  induction h with
  | nil => exact List.forall_mem_nil _
  | cons hFirst _ ih => exact List.forall_mem_cons.mpr ⟨⟨_, hFirst⟩, ih⟩

/-- A traversal fails exactly with the failure of the first item that has one. -/
theorem mapM_eq_error_iff {f : α → Except ε β} {items : List α} {e : ε} :
    items.mapM f = .error e ↔ ∃ before failing after, items = before ++ failing :: after ∧
      (∀ a ∈ before, ∃ b, f a = .ok b) ∧ f failing = .error e := by
  induction items with
  | nil => simp [pure, Except.pure]
  | cons a rest ih =>
      have hRest (b : β) : (do let bs ← rest.mapM f; pure (b :: bs) : Except ε (List β)) =
          .error e ↔ rest.mapM f = .error e := by
        rw [bind_eq_error_iff]
        simp [pure, Except.pure]
      simp only [List.mapM_cons, bind_eq_error_iff, hRest, ih]
      constructor
      · rintro (hFirst | ⟨b, hFirst, before, failing, after, rfl, hBefore, hFailing⟩)
        · exact ⟨[], a, rest, rfl, by simp, hFirst⟩
        · refine ⟨a :: before, failing, after, rfl, ?_, hFailing⟩
          intro a' hMem
          rcases List.mem_cons.mp hMem with rfl | hMem
          · exact ⟨b, hFirst⟩
          · exact hBefore a' hMem
      · rintro ⟨before, failing, after, hItems, hBefore, hFailing⟩
        cases before with
        | nil =>
            obtain ⟨rfl, rfl⟩ := List.cons.inj hItems
            exact Or.inl hFailing
        | cons a' before =>
            obtain ⟨rfl, rfl⟩ := List.cons.inj hItems
            obtain ⟨b, hFirst⟩ := hBefore a (List.mem_cons_self ..)
            exact Or.inr ⟨b, hFirst, before, failing, after, rfl,
              fun c hc => hBefore c (List.mem_cons_of_mem _ hc), hFailing⟩

/-! Two computations of which one gives the results of the other with a change. -/

section Changed

variable {γ δ : Type} {first : Except ε α} {second : Except ε β} {change : α → β}

/-- A change of the first result is passed on. -/
theorem bind_eq_map {next : α → Except ε γ} {other : β → Except ε δ} {changeLast : γ → δ}
    (h : second = first.map change) (hNext : ∀ a, other (change a) = (next a).map changeLast) :
    second >>= other = (first >>= next).map changeLast := by
  subst h
  cases first with
  | ok a => exact hNext a
  | error e => rfl

/-- A result that is put in its place in two ways. -/
theorem bind_pure_eq_map {f : α → γ} {g : α → δ} {changeLast : γ → δ} (outcome : Except ε α)
    (h : ∀ a, g a = changeLast (f a)) :
    (outcome >>= fun a => pure (g a)) = (outcome >>= fun a => pure (f a)).map changeLast := by
  cases outcome with
  | ok a => exact congrArg Except.ok (h a)
  | error e => rfl

/-- Every item of a list gives its result with the change for that item. -/
theorem mapM_eq_zipWith {f : γ → Except ε α} {g : γ → Except ε β} {changeOf : γ → α → β}
    {items : List γ} (h : ∀ item ∈ items, g item = (f item).map (changeOf item)) :
    items.mapM g = (items.mapM f).map (List.zipWith changeOf items) := by
  induction items with
  | nil => rfl
  | cons item rest ih =>
      rw [List.forall_mem_cons] at h
      rw [List.mapM_cons, List.mapM_cons]
      exact bind_eq_map h.1 fun a => bind_eq_map (ih h.2) fun results => rfl

/-- Every item of a list gives its result with one and the same change. -/
theorem mapM_eq_map {f : γ → Except ε α} {g : γ → Except ε β} {items : List γ}
    (h : ∀ item ∈ items, g item = (f item).map change) :
    items.mapM g = (items.mapM f).map (List.map change) := by
  rw [mapM_eq_zipWith h]
  cases hRun : items.mapM f with
  | error e => rfl
  | ok results =>
      have hLength := (mapM_eq_ok_iff.mp hRun).length_eq
      have hZip := List.map_snd_zip (Nat.le_of_eq hLength.symm)
      refine congrArg Except.ok ?_
      conv_rhs => rw [← hZip, List.map_map, List.map_zip_eq_zipWith]
      rfl

end Changed

end SchemaModels
