import RockchipVpu.Base.Transition

/-! Forward simulations between transition systems. A concrete system answers each of its
steps with a list of abstract actions, empty for a step that the abstract system does not
see. When the answer always leads from a related state to a related state, a run of the
concrete system is a run of the abstract one over the answers to its steps. -/

namespace RockchipVpu.Base

variable {σ α τ β : Type*} {step : σ → α → Option σ} {astep : τ → β → Option τ}

theorem run_append (s : σ) (as bs : List α) :
    run step s (as ++ bs) = (run step s as).bind fun t => run step t bs := by
  induction as generalizing s with
  | nil => rfl
  | cons a as ih =>
    simp only [List.cons_append, run]
    cases step s a with
    | none => rfl
    | some t => exact ih t

theorem run_singleton (s : σ) (a : α) : run step s [a] = step s a := by
  simp only [run]
  cases step s a <;> rfl

/-- Two systems in lockstep: what the first one does in a step, the second one does in the steps
that it sees of it, or neither is enabled. So it is with whole runs. -/
theorem run_lockstep {R : σ → τ → Prop} {view : α → List β}
    (h : ∀ {s : σ} {u : τ} (a : α), R s u → Option.Rel R (step s a) (run astep u (view a)))
    {s : σ} {u : τ} (hR : R s u) (as : List α) :
    Option.Rel R (run step s as) (run astep u (as.flatMap view)) := by
  induction as generalizing s u with
  | nil => exact .some hR
  | cons a as ih =>
    have hstep := h a hR
    rw [List.flatMap_cons, run_append]
    simp only [run]
    generalize step s a = t at hstep ⊢
    generalize Base.run astep u (view a) = v at hstep ⊢
    cases hstep with
    | none => exact .none
    | some hR' => exact ih hR'

variable (step) in
/-- The abstract actions that answer a run, up to its first step that is not enabled. -/
def answers (answer : σ → α → List β) : σ → List α → List β
  | _, [] => []
  | s, a :: as => match step s a with
    | none => []
    | some t => answer s a ++ answers answer t as

theorem answers_append {answer : σ → α → List β} {s t : σ} {as : List α}
    (hr : run step s as = some t) (bs : List α) : answers step answer s (as ++ bs) =
      answers step answer s as ++ answers step answer t bs := by
  induction as generalizing s with
  | nil =>
    obtain rfl := Option.some.inj hr
    rfl
  | cons a as ih =>
    simp only [run] at hr
    simp only [List.cons_append, answers]
    cases hs : step s a with
    | none => simp [hs] at hr
    | some u =>
      simp only [hs] at hr
      simp only [ih hr, List.append_assoc]

/-- Steps that are not seen have no answers. -/
theorem answers_eq_nil {answer : σ → α → List β} {as : List α}
    (h : ∀ s, ∀ a ∈ as, answer s a = []) (s : σ) : answers step answer s as = [] := by
  induction as generalizing s with
  | nil => rfl
  | cons a as ih =>
    obtain ⟨ha, has⟩ := forall_and.mp fun s => List.forall_mem_cons.mp (h s)
    simp only [answers]
    cases step s a with
    | none => rfl
    | some t =>
      simp only [ha, List.nil_append]
      exact ih has t

/-- A log to which each step adds its answer adds up to the answers to the run. -/
theorem log_eq_answers {answer : σ → α → List β} {P : σ → Prop} {log : σ → List β}
    (hP : ∀ {s t : σ} {a : α}, P s → step s a = some t → P t)
    (hlog : ∀ {s t : σ} {a : α}, P s → step s a = some t → log t = log s ++ answer s a)
    {s t : σ} {as : List α} (hs : P s) (hr : run step s as = some t) :
    log t = log s ++ answers step answer s as := by
  induction as generalizing s with
  | nil =>
    obtain rfl := Option.some.inj hr
    exact (List.append_nil _).symm
  | cons a as ih =>
    simp only [run, answers] at hr ⊢
    cases hu : step s a with
    | none => simp [hu] at hr
    | some u =>
      simp only [hu] at hr ⊢
      rw [ih (hP hs hu) hr, hlog hs hu, List.append_assoc]

/-- From related states, each step that meets `C` is answered by a run to related states. -/
structure Simulates (step : σ → α → Option σ) (C : σ → α → Prop) (astep : τ → β → Option τ)
    (answer : σ → α → List β) (R : σ → τ → Prop) : Prop where
  answered : ∀ {s t : σ} {a : α} {u : τ}, R s u → C s a → step s a = some t →
    ∃ v, run astep u (answer s a) = some v ∧ R t v

variable {C : σ → α → Prop} {answer : σ → α → List β} {R : σ → τ → Prop}

/-- The simulation of a whole run. -/
theorem Simulates.run (h : Simulates step C astep answer R) {s t : σ} {u : τ} {as : List α}
    (hR : R s u) (hc : Along step C s as) (hr : run step s as = some t) :
    ∃ v, run astep u (answers step answer s as) = some v ∧ R t v := by
  induction as generalizing s u with
  | nil =>
    obtain rfl : s = t := Option.some.inj hr
    exact ⟨u, rfl, hR⟩
  | cons a as ih =>
    simp only [Base.run, Along, answers] at hr hc ⊢
    cases hs : step s a with
    | none => simp [hs] at hr
    | some s' =>
      simp only [hs] at hr hc ⊢
      obtain ⟨v, hv, hR'⟩ := h.answered hR hc.1 hs
      obtain ⟨w, hw, hRw⟩ := ih hR' hc.2 hr
      exact ⟨w, by rw [run_append, hv]; exact hw, hRw⟩

/-- When each answer adds to a log what the concrete step puts out, so does the whole run. -/
theorem Simulates.run_log (h : Simulates step C astep answer R) {γ : Type*} {out : σ → α → List γ}
    {log : τ → List γ}
    (hlog : ∀ {s t : σ} {a : α} {u v : τ}, R s u → C s a → step s a = some t →
      Base.run astep u (answer s a) = some v → log v = log u ++ out s a)
    {s t : σ} {u : τ} {as : List α} (hR : R s u) (hc : Along step C s as)
    (hr : Base.run step s as = some t) : ∃ v,
      Base.run astep u (answers step answer s as) = some v ∧ R t v ∧
        log v = log u ++ answers step out s as := by
  induction as generalizing s u with
  | nil =>
    obtain rfl : s = t := Option.some.inj hr
    exact ⟨u, rfl, hR, (List.append_nil _).symm⟩
  | cons a as ih =>
    simp only [Base.run, Along, answers] at hr hc ⊢
    cases hs : step s a with
    | none => simp [hs] at hr
    | some s' =>
      simp only [hs] at hr hc ⊢
      obtain ⟨v, hv, hR'⟩ := h.answered hR hc.1 hs
      obtain ⟨w, hw, hRw, hw'⟩ := ih hR' hc.2 hr
      refine ⟨w, by rw [run_append, hv]; exact hw, hRw, ?_⟩
      rw [hw', hlog hR hc.1 hs hv, List.append_assoc]

/-- What all answers to steps are the answers to a run are. -/
theorem forall_answers {Q : β → Prop} (hQ : ∀ s a, ∀ b ∈ answer s a, Q b) (s : σ) (as : List α) :
    ∀ b ∈ answers step answer s as, Q b := by
  induction as generalizing s with
  | nil =>
    intro b hb
    cases hb
  | cons a as ih =>
    intro b hb
    simp only [answers] at hb
    cases hs : step s a with
    | none => simp [hs] at hb
    | some t =>
      simp only [hs] at hb
      rcases List.mem_append.mp hb with hb | hb
      · exact hQ s a b hb
      · exact ih t b hb

/-- What the answers to a run add up to, when the answer to each step is read off the action
alone. -/
theorem flatMap_answers {γ : Type*} {f : α → List γ} {g : β → List γ}
    (hfg : ∀ s a t, step s a = some t → (answer s a).flatMap g = f a) {s t : σ} {as : List α}
    (hr : Base.run step s as = some t) : (answers step answer s as).flatMap g = as.flatMap f := by
  induction as generalizing s with
  | nil => rfl
  | cons a as ih =>
    simp only [Base.run, answers] at hr ⊢
    cases hs : step s a with
    | none => simp [hs] at hr
    | some u =>
      simp only [hs] at hr ⊢
      rw [List.flatMap_append, List.flatMap_cons, hfg s a u hs, ih hr]

end RockchipVpu.Base
