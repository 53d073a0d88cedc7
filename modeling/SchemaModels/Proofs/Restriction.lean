import SchemaModels.Proofs.FirstFailure

/-!
Two computations of which one asks for more than the other. `Restricts` says that
the first succeeds exactly where the second does and a condition holds, and that
their results differ only in what is forgotten; the lemmas follow the ways in which
computations are put together.
-/
namespace SchemaModels

variable {ε α β γ δ : Type}

/-- `strict` succeeds exactly where `lax` does and the condition holds, and without
what `forget` takes away the results are the same. -/
structure Restricts (condition : Prop) (forget : α → β) (strict : Except ε α)
    (lax : Except ε β) : Prop where
  sound {a : α} : strict = .ok a → condition ∧ lax = .ok (forget a)
  complete {b : β} : condition → lax = .ok b → ∃ a, strict = .ok a

namespace Restricts

theorem self (outcome : Except ε α) : Restricts True id outcome outcome where
  sound h := ⟨trivial, h⟩
  complete _ h := ⟨_, h⟩

theorem error (condition : Prop) (forget : α → β) (e e' : ε) :
    Restricts condition forget (.error e) (.error e') where
  sound h := by cases h
  complete _ h := by cases h

variable {condition : Prop} {forget : α → β} {strict : Except ε α} {lax : Except ε β}

theorem exists_ok_iff (h : Restricts condition forget strict lax) :
    (∃ a, strict = .ok a) ↔ (∃ b, lax = .ok b) ∧ condition := by
  constructor
  · rintro ⟨a, ha⟩
    obtain ⟨hCondition, hLax⟩ := h.sound ha
    exact ⟨⟨_, hLax⟩, hCondition⟩
  · rintro ⟨⟨b, hb⟩, hCondition⟩
    exact h.complete hCondition hb

theorem congr {other : Prop} (h : Restricts condition forget strict lax)
    (hSame : condition ↔ other) : Restricts other forget strict lax where
  sound ha := ⟨hSame.mp (h.sound ha).1, (h.sound ha).2⟩
  complete hOther hb := h.complete (hSame.mpr hOther) hb

/-- One computation after another: both conditions count. -/
theorem bind {later : Prop} {forgetLater : γ → δ} {next : α → Except ε γ}
    {nextLax : β → Except ε δ} (h : Restricts condition forget strict lax)
    (hNext : ∀ a, Restricts later forgetLater (next a) (nextLax (forget a))) :
    Restricts (condition ∧ later) forgetLater (strict >>= next) (lax >>= nextLax) where
  sound hc := by
    obtain ⟨a, ha, hc⟩ := bind_eq_ok_iff.mp hc
    obtain ⟨hCondition, hLax⟩ := h.sound ha
    obtain ⟨hLater, hNextLax⟩ := (hNext a).sound hc
    exact ⟨⟨hCondition, hLater⟩, bind_eq_ok_iff.mpr ⟨_, hLax, hNextLax⟩⟩
  complete := by
    rintro d ⟨hCondition, hLater⟩ hd
    obtain ⟨b, hb, hd⟩ := bind_eq_ok_iff.mp hd
    obtain ⟨a, ha⟩ := h.complete hCondition hb
    have hForget : forget a = b := Except.ok.inj ((h.sound ha).2.symm.trans hb)
    obtain ⟨c, hc⟩ := (hNext a).complete hLater (hForget.symm ▸ hd)
    exact ⟨c, bind_eq_ok_iff.mpr ⟨a, ha, hc⟩⟩

/-- A computation whose result is only put in its place. -/
theorem bind_pure {forgetLater : γ → δ} {f : α → γ} {g : β → δ}
    (h : Restricts condition forget strict lax) (hForget : ∀ a, forgetLater (f a) = g (forget a)) :
    Restricts condition forgetLater (strict >>= fun a => pure (f a))
      (lax >>= fun b => pure (g b)) := by
  have hPut (a : α) : Restricts True forgetLater (pure (f a) : Except ε γ) (pure (g (forget a))) :=
    ⟨fun hc => ⟨trivial, by cases hc; rw [hForget]; rfl⟩, fun _ _ => ⟨_, rfl⟩⟩
  exact (h.bind hPut).congr (and_iff_left trivial)

/-- The items of a list, one after the other: the condition of each of them counts. -/
theorem mapM {f : γ → Except ε α} {g : γ → Except ε β} {conditionOf : γ → Prop} {items : List γ}
    (h : ∀ item ∈ items, Restricts (conditionOf item) forget (f item) (g item)) :
    Restricts (∀ item ∈ items, conditionOf item) (List.map forget) (items.mapM f)
      (items.mapM g) := by
  induction items with
  | nil => exact ⟨fun ha => ⟨by simp, by cases ha; rfl⟩, fun _ _ => ⟨[], rfl⟩⟩
  | cons item rest ih =>
      rw [List.forall_mem_cons] at h
      rw [List.mapM_cons, List.mapM_cons]
      refine (h.1.bind fun a => ?_).congr (List.forall_mem_cons (p := conditionOf)).symm
      exact (ih h.2).bind_pure fun _ => rfl

end Restricts
end SchemaModels
