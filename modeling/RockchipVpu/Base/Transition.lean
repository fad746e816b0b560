import Mathlib.Data.List.Basic

/-! Partial deterministic transition systems and their runs. An action that is
not enabled has no successor. A condition on steps reads the state before the
step and the action, so that a law can be stated for the runs all of whose steps
meet it. The induction over runs is done here once: an invariant of every step
holds in every reachable state, and when a step preserves a property exactly
under the condition, a run has the property throughout exactly when its steps
meet the condition. -/

namespace RockchipVpu.Base

variable {σ α : Type*}

/-- States reachable from `s₀` by steps that meet `C`. -/
inductive Reach (step : σ → α → Option σ) (C : σ → α → Prop) (s₀ : σ) : σ → Prop
  | start : Reach step C s₀ s₀
  | next {s t : σ} {a : α} : Reach step C s₀ s → C s a → step s a = some t → Reach step C s₀ t

/-- No condition on the steps. -/
def AnyStep : σ → α → Prop := fun _ _ => True

namespace Reach

variable {step : σ → α → Option σ} {C D : σ → α → Prop} {s₀ s t : σ}

/-- The induction over runs. -/
theorem invariant {P : σ → Prop} (h₀ : P s₀)
    (hstep : ∀ s t a, P s → C s a → step s a = some t → P t) (h : Reach step C s₀ s) : P s := by
  induction h with
  | start => exact h₀
  | next _ hc hs ih => exact hstep _ _ _ ih hc hs

theorem mono (hCD : ∀ s a, C s a → D s a) (h : Reach step C s₀ s) : Reach step D s₀ s := by
  induction h with
  | start => exact .start
  | next _ hc hs ih => exact .next ih (hCD _ _ hc) hs

theorem any (h : Reach step C s₀ s) : Reach step AnyStep s₀ s := h.mono fun _ _ _ => trivial

theorem trans (h : Reach step C s₀ s) (h' : Reach step C s t) : Reach step C s₀ t := by
  induction h' with
  | start => exact h
  | next _ hc hs ih => exact .next ih hc hs

end Reach

section Run

variable (step : σ → α → Option σ)

/-- The state after a list of actions. -/
def run : σ → List α → Option σ
  | s, [] => some s
  | s, a :: as => match step s a with
    | none => none
    | some t => run t as

/-- Every enabled step of the run meets `C`. -/
def Along (C : σ → α → Prop) : σ → List α → Prop
  | _, [] => True
  | s, a :: as => match step s a with
    | none => True
    | some t => C s a ∧ Along C t as

/-- Some enabled step of the run meets `P`. -/
def Sometime (P : σ → α → Prop) : σ → List α → Prop
  | _, [] => False
  | s, a :: as => match step s a with
    | none => False
    | some t => P s a ∨ Sometime P t as

/-- Every state of the run has `P`. -/
def Throughout (P : σ → Prop) : σ → List α → Prop
  | s, [] => P s
  | s, a :: as => P s ∧ match step s a with
    | none => True
    | some t => Throughout P t as

instance decidableAlong (C : σ → α → Prop) [∀ s a, Decidable (C s a)] :
    (s : σ) → (as : List α) → Decidable (Along step C s as)
  | _, [] => isTrue trivial
  | s, a :: as => match h : step s a with
    | none => decidable_of_iff True (by simp [Along, h])
    | some t => @decidable_of_iff _ (C s a ∧ Along step C t as) (by simp [Along, h])
        (@instDecidableAnd _ _ _ (decidableAlong C t as))

variable {step} {C : σ → α → Prop}

theorem reach_of_run {s t : σ} {as : List α} (hc : Along step C s as)
    (hr : run step s as = some t) : Reach step C s t := by
  induction as generalizing s with
  | nil =>
    obtain rfl : s = t := Option.some.inj hr
    exact .start
  | cons a as ih =>
    simp only [run, Along] at hr hc
    cases hs : step s a with
    | none => simp [hs] at hr
    | some u =>
      simp only [hs] at hr hc
      exact (Reach.next .start hc.1 hs).trans (ih hc.2 hr)

theorem along_any (s : σ) (as : List α) : Along step AnyStep s as := by
  induction as generalizing s with
  | nil => trivial
  | cons a as ih =>
    simp only [Along]
    cases step s a with
    | none => trivial
    | some t => exact ⟨trivial, ih t⟩

theorem along_of_forall {s : σ} {as : List α} (h : ∀ a ∈ as, ∀ s, C s a) : Along step C s as := by
  induction as generalizing s with
  | nil => trivial
  | cons a as ih =>
    obtain ⟨ha, has⟩ := List.forall_mem_cons.mp h
    simp only [Along]
    cases step s a with
    | none => trivial
    | some t => exact ⟨ha s, ih has⟩

theorem Along.mono {D : σ → α → Prop} (hCD : ∀ s a, C s a → D s a) {s : σ} {as : List α}
    (h : Along step C s as) : Along step D s as := by
  induction as generalizing s with
  | nil => trivial
  | cons a as ih =>
    simp only [Along] at h ⊢
    cases hs : step s a with
    | none => trivial
    | some t =>
      simp only [hs] at h
      exact ⟨hCD s a h.1, ih h.2⟩

theorem reach_of_run_any {s t : σ} {as : List α} (hr : run step s as = some t) :
    Reach step AnyStep s t := reach_of_run (along_any s as) hr

/-- What some step of a run establishes and every later one keeps holds in the end. -/
theorem of_sometime {I Q : σ → Prop} {P : σ → α → Prop}
    (hI : ∀ s t a, I s → step s a = some t → I t)
    (hP : ∀ s t a, I s → P s a → step s a = some t → Q t)
    (hQ : ∀ s t a, I s → Q s → step s a = some t → Q t) {s t : σ} {as : List α} (hi : I s)
    (hsome : Sometime step P s as) (hr : run step s as = some t) : Q t := by
  induction as generalizing s with
  | nil => exact hsome.elim
  | cons a as ih =>
    simp only [Sometime, run] at hsome hr
    cases hs : step s a with
    | none => simp [hs] at hr
    | some u =>
      simp only [hs] at hsome hr
      have hu := hI s u a hi hs
      rcases hsome with hp | hsome
      · have hinv := (reach_of_run_any hr).invariant (P := fun u => I u ∧ Q u)
          ⟨hu, hP s u a hi hp hs⟩ fun s t a h _ hs => ⟨hI s t a h.1 hs, hQ s t a h.1 h.2 hs⟩
        exact hinv.2
      · exact ih hu hsome hr

/-- When each step that meets `D` keeps `P` exactly under `C`, a run whose steps meet `D` has `P`
throughout exactly when its steps meet `C`. -/
theorem throughout_iff_along_within {I P : σ → Prop} {D : σ → α → Prop}
    (hI : ∀ s t a, I s → D s a → step s a = some t → I t)
    (hP : ∀ s t a, I s → D s a → P s → step s a = some t → (P t ↔ C s a)) {s : σ} (hi : I s)
    (hs : P s) {as : List α} (hd : Along step D s as) :
    Throughout step P s as ↔ Along step C s as := by
  induction as generalizing s with
  | nil => exact iff_of_true hs trivial
  | cons a as ih =>
    simp only [Throughout, Along, hs, true_and] at hd ⊢
    cases hstep : step s a with
    | none => exact Iff.rfl
    | some t =>
      simp only [hstep] at hd
      have hIt := hI s t a hi hd.1 hstep
      have hPt := hP s t a hi hd.1 hs hstep
      constructor
      · intro ht
        have hp : P t := by
          cases as with
          | nil => exact ht
          | cons b bs => exact ht.1
        exact ⟨hPt.mp hp, (ih hIt hp hd.2).mp ht⟩
      · rintro ⟨hc, ht⟩
        exact (ih hIt (hPt.mpr hc) hd.2).mpr ht

theorem throughout_iff_along {I P : σ → Prop}
    (hI : ∀ s t a, I s → step s a = some t → I t)
    (hP : ∀ s t a, I s → P s → step s a = some t → (P t ↔ C s a)) {s : σ} (hi : I s) (hs : P s)
    (as : List α) : Throughout step P s as ↔ Along step C s as :=
  throughout_iff_along_within (fun s t a hi _ hst => hI s t a hi hst)
    (fun s t a hi _ hs hst => hP s t a hi hs hst) hi hs (along_any s as)

end Run

/-! ### Histories -/

/-- In a history, the latest event first, every event obeys `P` with respect to the events
before it. -/
def Lawful (P : α → List α → Prop) : List α → Prop
  | [] => True
  | a :: earlier => P a earlier ∧ Lawful P earlier

end RockchipVpu.Base
