import Mathlib.Data.List.Induction
import Mathlib.Data.List.Nodup
import SchemaModels.Introspection.Plugin
import SchemaModels.Proofs.Entries

/-!
Contributors under any schedule. However their resumptions are interleaved, the
shared models are those of the contributors that succeeded, in the order in which
each was resumed for the first time. The number of its resumptions so far is all
that the progress of a contributor depends on.
-/
namespace SchemaModels

/-- What a contributor adds when it is first resumed, unless it fails then or
there is none at the position. -/
def contribution? (codecs : Codecs) (tree : FileTree) (options : List RunOptions) (index : Nat) :
    Option (List Model) :=
  options[index]?.bind fun o => (introspect tree o codecs).outcome.toOption

/-- What a schedule adds: the contributions in the order of the first resumptions. -/
def contributions (codecs : Codecs) (tree : FileTree) (options : List RunOptions)
    (schedule : List Nat) : List Model :=
  (schedule.eraseDups.filterMap (contribution? codecs tree options)).flatten

/-- How far some resumptions bring a contributor. -/
def progressAfter (codecs : Codecs) (tree : FileTree) (options : RunOptions) : Nat → Progress
  | 0 => .waiting
  | 1 => if (introspect tree options codecs).outcome.toOption.isSome then .contributed else .ended
  | _ + 2 => .ended

namespace Session

/-- Contributors that were never resumed, on models that are there already. -/
def opened (initial : List Model) (options : List RunOptions) : Session :=
  { start options with models := initial }

/-- The session that the resumptions of a schedule lead to. -/
def reached (codecs : Codecs) (tree : FileTree) (initial : List Model) (options : List RunOptions)
    (schedule : List Nat) : Session :=
  schedule.foldl (fun session index => (session.resume codecs tree index).1)
    (opened initial options)

end Session

theorem eraseDups_nodup (schedule : List Nat) : schedule.eraseDups.Nodup := by
  induction schedule using List.reverseRecOn with
  | nil => exact List.nodup_nil
  | append_singleton schedule index ih =>
      rw [eraseDups_concat]
      split_ifs with h
      · exact ih
      · rw [List.nodup_append]
        refine ⟨ih, List.nodup_singleton index, ?_⟩
        rintro other hOther _ hIndex rfl
        rw [List.mem_singleton] at hIndex
        exact h (hIndex ▸ List.mem_eraseDups.mp hOther)

section

variable {codecs : Codecs} {tree : FileTree} {options : List RunOptions} {schedule : List Nat}
  {index : Nat}

theorem contributions_of_mem (h : index ∈ schedule) :
    contributions codecs tree options (schedule ++ [index]) =
      contributions codecs tree options schedule := by
  rw [contributions, eraseDups_concat, if_pos h, contributions]

theorem contributions_of_not_mem (h : index ∉ schedule) :
    contributions codecs tree options (schedule ++ [index]) =
      contributions codecs tree options schedule ++
        (contribution? codecs tree options index).getD [] := by
  rw [contributions, eraseDups_concat, if_neg h, List.filterMap_append, List.flatten_append,
    ← contributions]
  cases hOwn : contribution? codecs tree options index with
  | none => simp [hOwn]
  | some models => simp [hOwn]

end

namespace Session

variable {codecs : Codecs} {tree : FileTree} {session : Session} {index : Nat} {o : RunOptions}

/-- The first resumption of a contributor that succeeds. -/
theorem resume_waiting_ok {models : List Model}
    (h : session.contributors[index]? = some ⟨o, .waiting⟩)
    (hRun : (introspect tree o codecs).outcome = .ok models) :
    session.resume codecs tree index =
      ({ session.progressed index .contributed with models := session.models ++ models },
        .paused) := by
  simp only [resume, h, hRun, progressed]

/-- The first resumption of one that fails. -/
theorem resume_waiting_error {failure : IntrospectionFailure}
    (h : session.contributors[index]? = some ⟨o, .waiting⟩)
    (hRun : (introspect tree o codecs).outcome = .error failure) :
    session.resume codecs tree index = (session.progressed index .ended, .failed failure) := by
  simp only [resume, h, hRun]

/-- Progress that is noted twice changes nothing. -/
theorem progressed_self {progress : Progress}
    (h : session.contributors[index]? = some ⟨o, progress⟩) :
    session.progressed index progress = session := by
  have hSame : session.contributors.modify index (fun c => { c with progress := progress }) =
      session.contributors := by
    apply List.ext_getElem?
    intro position
    rw [List.getElem?_modify]
    by_cases hPosition : index = position
    · subst hPosition
      simp [h]
    · simp [hPosition]
  rw [progressed, hSame]

/-- All later resumptions. -/
theorem resume_later {progress : Progress}
    (h : session.contributors[index]? = some ⟨o, progress⟩) (hLater : progress ≠ .waiting) :
    session.resume codecs tree index = (session.progressed index .ended, .stopped) := by
  cases progress with
  | waiting => exact (hLater rfl).elim
  | contributed => simp only [resume, h]
  | ended => simp only [resume, h, progressed_self h]

/-- Where there is no contributor nothing happens. -/
theorem resume_none (h : session.contributors[index]? = none) :
    session.resume codecs tree index = (session, .stopped) := by
  simp only [resume, h]

/-- A session that follows a schedule: the contributions of the schedule stand
behind the models of the beginning, and each contributor is as far as its
resumptions bring it. -/
structure Follows (codecs : Codecs) (tree : FileTree) (initial : List Model)
    (options : List RunOptions) (schedule : List Nat) (session : Session) : Prop where
  models : session.models = initial ++ contributions codecs tree options schedule
  contributors (index : Nat) : session.contributors[index]? =
    options[index]?.map fun o => ⟨o, progressAfter codecs tree o (schedule.count index)⟩

variable {initial : List Model} {options : List RunOptions} {schedule : List Nat}

theorem follows_opened (codecs : Codecs) (tree : FileTree) (initial : List Model)
    (options : List RunOptions) :
    Follows codecs tree initial options [] (opened initial options) where
  models := by simp [opened, contributions]
  contributors index := by simp [opened, start, progressAfter]

namespace Follows

/-- A contributor that was not resumed before is waiting. -/
theorem waiting (h : Follows codecs tree initial options schedule session)
    (hIndex : index ∉ schedule) (hOptions : options[index]? = some o) :
    session.contributors[index]? = some ⟨o, .waiting⟩ := by
  rw [h.contributors, hOptions, List.count_eq_zero_of_not_mem hIndex]
  rfl

/-- One that was resumed before is not. -/
theorem exists_later (h : Follows codecs tree initial options schedule session)
    (hIndex : index ∈ schedule) (hOptions : options[index]? = some o) :
    ∃ progress, session.contributors[index]? = some ⟨o, progress⟩ ∧ progress ≠ .waiting := by
  obtain ⟨n, hCount⟩ : ∃ n, schedule.count index = n + 1 :=
    Nat.exists_eq_succ_of_ne_zero (Nat.ne_of_gt (List.count_pos_iff.mpr hIndex))
  refine ⟨progressAfter codecs tree o (n + 1), by rw [h.contributors, hOptions, hCount]; rfl, ?_⟩
  cases n with
  | zero => rw [progressAfter]; split_ifs <;> simp
  | succ n => simp [progressAfter]

/-- The progress of one contributor is all that a resumption changes about them. -/
theorem contributors_concat (h : Follows codecs tree initial options schedule session)
    (hOptions : options[index]? = some o) (position : Nat) :
    (session.progressed index
        (progressAfter codecs tree o (schedule.count index + 1))).contributors[position]? =
      options[position]?.map fun o =>
        ⟨o, progressAfter codecs tree o ((schedule ++ [index]).count position)⟩ := by
  rw [progressed, List.getElem?_modify, h.contributors]
  by_cases hPosition : index = position
  · subst hPosition
    simp [hOptions]
  · have hCount : (schedule ++ [index]).count position = schedule.count position := by
      simp [List.count_append, hPosition]
    simp [hPosition, hCount]

/-- One more resumption. -/
theorem resume (h : Follows codecs tree initial options schedule session) (index : Nat) :
    Follows codecs tree initial options (schedule ++ [index])
      (session.resume codecs tree index).1 := by
  cases hOptions : options[index]? with
  | none =>
      have hNone : session.contributors[index]? = none := by rw [h.contributors, hOptions]; rfl
      rw [resume_none hNone]
      refine ⟨?_, fun position => ?_⟩
      · rw [h.models]
        by_cases hIndex : index ∈ schedule
        · rw [contributions_of_mem hIndex]
        · rw [contributions_of_not_mem hIndex]
          simp [contribution?, hOptions]
      · rw [h.contributors]
        by_cases hPosition : index = position
        · rw [← hPosition, hOptions]
          rfl
        · simp [List.count_append, hPosition]
  | some o =>
      by_cases hIndex : index ∈ schedule
      · obtain ⟨progress, hContributor, hLater⟩ := h.exists_later hIndex hOptions
        rw [resume_later hContributor hLater]
        refine ⟨by rw [progressed, h.models, contributions_of_mem hIndex], fun position => ?_⟩
        rw [← h.contributors_concat hOptions position]
        obtain ⟨n, hCount⟩ : ∃ n, schedule.count index = n + 1 :=
          Nat.exists_eq_succ_of_ne_zero (Nat.ne_of_gt (List.count_pos_iff.mpr hIndex))
        rw [hCount]
        rfl
      · have hWaiting := h.waiting hIndex hOptions
        have hCount : schedule.count index = 0 := List.count_eq_zero_of_not_mem hIndex
        cases hRun : (introspect tree o codecs).outcome with
        | ok models =>
            rw [resume_waiting_ok hWaiting hRun]
            refine ⟨?_, fun position => ?_⟩
            · rw [h.models, contributions_of_not_mem hIndex]
              simp [contribution?, hOptions, hRun, Except.toOption]
            · rw [← h.contributors_concat hOptions position, hCount]
              simp [progressAfter, hRun, Except.toOption]
        | error failure =>
            rw [resume_waiting_error hWaiting hRun]
            refine ⟨?_, fun position => ?_⟩
            · rw [progressed, h.models, contributions_of_not_mem hIndex]
              simp [contribution?, hOptions, hRun, Except.toOption]
            · rw [← h.contributors_concat hOptions position, hCount]
              simp [progressAfter, hRun, Except.toOption]

end Follows

/-- A whole schedule. -/
theorem follows_reached (codecs : Codecs) (tree : FileTree) (initial : List Model)
    (options : List RunOptions) (schedule : List Nat) :
    Follows codecs tree initial options schedule
      (reached codecs tree initial options schedule) := by
  induction schedule using List.reverseRecOn with
  | nil => exact follows_opened codecs tree initial options
  | append_singleton schedule index ih =>
      rw [reached, List.foldl_append]
      exact ih.resume index

/-- After any schedule the shared models are those of the beginning and then, in
the order of the first resumptions, those of the contributors that succeeded. Each
position counts once. A first resumption adds all models of a run or reports its
failure, adds nothing and ends the contributor; every later one answers that the
contributor has stopped, and leaves the models alone. -/
theorem reached_models (codecs : Codecs) (tree : FileTree) (initial : List Model)
    (options : List RunOptions) (schedule : List Nat) :
    (reached codecs tree initial options schedule).models =
      initial ++ (schedule.eraseDups.filterMap (contribution? codecs tree options)).flatten ∧
    schedule.eraseDups.Nodup ∧
    (∀ index o, index ∉ schedule → options[index]? = some o →
      (∀ models, (introspect tree o codecs).outcome = .ok models →
        ((reached codecs tree initial options schedule).resume codecs tree index).2 = .paused ∧
        ((reached codecs tree initial options schedule).resume codecs tree index).1.models =
          (reached codecs tree initial options schedule).models ++ models) ∧
      (∀ failure, (introspect tree o codecs).outcome = .error failure →
        ((reached codecs tree initial options schedule).resume codecs tree index).2 =
            .failed failure ∧
        ((reached codecs tree initial options schedule).resume codecs tree index).1.models =
          (reached codecs tree initial options schedule).models ∧
        ((reached codecs tree initial options schedule).resume codecs tree
          index).1.contributors[index]? = some ⟨o, .ended⟩)) ∧
    (∀ index o, index ∈ schedule → options[index]? = some o →
      ((reached codecs tree initial options schedule).resume codecs tree index).2 = .stopped ∧
      ((reached codecs tree initial options schedule).resume codecs tree index).1.models =
        (reached codecs tree initial options schedule).models) := by
  have hFollows := follows_reached codecs tree initial options schedule
  refine ⟨hFollows.models, eraseDups_nodup schedule, fun index o hIndex hOptions => ?_,
    fun index o hIndex hOptions => ?_⟩
  · have hWaiting := hFollows.waiting hIndex hOptions
    refine ⟨fun models hRun => ?_, fun failure hRun => ?_⟩
    · rw [resume_waiting_ok hWaiting hRun]
      exact ⟨rfl, rfl⟩
    · rw [resume_waiting_error hWaiting hRun]
      refine ⟨rfl, rfl, ?_⟩
      rw [progressed, List.getElem?_modify, hWaiting]
      simp
  · obtain ⟨progress, hContributor, hLater⟩ := hFollows.exists_later hIndex hOptions
    rw [resume_later hContributor hLater]
    exact ⟨rfl, rfl⟩

end Session
end SchemaModels
