import RockchipVpu.Base.CallTree

/-! Programs that give up at the first call that fails. Their calls that may fail come in one
order, each with its error. When one fails the program makes calls of one kind only, which clean
up, and returns that error; when none fails it returns its result. -/

namespace RockchipVpu.Base.Prog

variable {γ ρ ε : Type*}

/-- Whatever its calls answer, the program makes only calls of `K` and returns `r`. -/
def CleansUp (K : γ → Prop) (r : ρ) : Prog γ ρ → Prop
  | .ret r' => r' = r
  | .call c next => K c ∧ ∀ ok, CleansUp K r (next ok)

/-- The calls that satisfy `F` may fail. They are made in the order of the list. -/
inductive FailFast (F K : γ → Prop) (error : ε → ρ) (done : ρ) : List (γ × ε) → Prog γ ρ → Prop
  | ret : FailFast F K error done [] (.ret done)
  | step {cs : List (γ × ε)} {c : γ} {next : Prog γ ρ} (hc : ¬ F c)
      (h : FailFast F K error done cs next) : FailFast F K error done cs (step c next)
  | attempt {cs : List (γ × ε)} {c : γ} {e : ε} {failed next : Prog γ ρ} (hc : F c)
      (hfailed : failed.CleansUp K (error e)) (h : FailFast F K error done cs next) :
      FailFast F K error done ((c, e) :: cs) (attempt c failed next)

variable {F K : γ → Prop} {error : ε → ρ} {done r : ρ} {cs : List (γ × ε)} {p : Prog γ ρ}

theorem cleansUp_step {c : γ} (hc : K c) (h : p.CleansUp K r) : (step c p).CleansUp K r :=
  ⟨hc, fun _ => h⟩

theorem CleansUp.result_eq (h : p.CleansUp K r) (o : γ → Bool) : p.result o = r := by
  induction p with
  | ret r' => exact h
  | call c next ih => exact ih _ (h.2 _)

theorem CleansUp.trace_mem (h : p.CleansUp K r) (o : γ → Bool) : ∀ d ∈ p.trace o, K d.1 := by
  induction p with
  | ret r' =>
    intro d hd
    cases hd
  | call c next ih =>
    intro d hd
    rcases List.mem_cons.mp hd with rfl | hd
    · exact h.1
    · exact ih _ (h.2 _) d hd

/-- Calls of which each returns its own error on the spot. -/
theorem failFast_attemptAll {cs' : List (γ × ε)} (hcs : ∀ c ∈ cs, F c.1)
    (h : FailFast F K error done cs' p) :
    FailFast F K error done (cs ++ cs') (attemptAll error cs p) := by
  induction cs with
  | nil => exact h
  | cons c cs ih =>
    rw [List.forall_mem_cons] at hcs
    exact .attempt hcs.1 rfl (ih hcs.2)

/-- The result is that of the first call that fails. -/
theorem FailFast.result_eq (h : FailFast F K error done cs p) (o : γ → Bool) :
    p.result o = (cs.find? fun c => !o c.1).elim done fun c => error c.2 := by
  induction h with
  | ret => rfl
  | step hc h ih => exact ih
  | @attempt cs c e failed next hc hfailed h ih =>
    cases hok : o c with
    | true =>
      rw [result_attempt_of_ok hok, ih, List.find?_cons_of_neg]
      simp [hok]
    | false =>
      rw [result_attempt_of_failed hok, hfailed.result_eq, List.find?_cons_of_pos]
      · rfl
      · simp [hok]

/-- After a call that fails the program only cleans up. -/
theorem FailFast.trace_mem (h : FailFast F K error done cs p) {o : γ → Bool} {c : γ} (hc : F c)
    {before after : List (γ × Bool)} (htrace : p.trace o = before ++ (c, false) :: after) :
    ∀ d ∈ after, K d.1 := by
  induction h generalizing before with
  | ret => simp at htrace
  | @step cs c' next hc' h ih =>
    rw [trace_step] at htrace
    cases before with
    | nil =>
      obtain ⟨hhead, -⟩ := List.cons.inj htrace
      obtain ⟨rfl, -⟩ := Prod.mk.inj hhead
      exact absurd hc hc'
    | cons d before => exact ih (List.cons.inj htrace).2
  | @attempt cs c' e failed next hc' hfailed h ih =>
    cases hok : o c' with
    | true =>
      rw [trace_attempt_of_ok hok] at htrace
      cases before with
      | nil => cases (Prod.mk.inj (List.cons.inj htrace).1).2
      | cons d before => exact ih (List.cons.inj htrace).2
    | false =>
      rw [trace_attempt_of_failed hok] at htrace
      have hclean := hfailed.trace_mem o
      cases before with
      | nil =>
        rw [(List.cons.inj htrace).2] at hclean
        exact hclean
      | cons d before =>
        rw [(List.cons.inj htrace).2] at hclean
        intro d hd
        exact hclean d (List.mem_append_right _ (List.mem_cons_of_mem _ hd))

end RockchipVpu.Base.Prog
