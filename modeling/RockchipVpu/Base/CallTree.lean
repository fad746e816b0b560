import Mathlib.Data.List.Basic

/-! Programs that make calls and go on according to whether a call succeeds. Under
an assignment of outcomes to the calls a program makes the calls of one path and
returns one result. -/

namespace RockchipVpu.Base

inductive Prog (γ ρ : Type*)
  | ret (r : ρ)
  | call (c : γ) (next : Bool → Prog γ ρ)

namespace Prog

variable {γ ρ : Type*}

/-- A call that may fail; the rest is made only if it succeeds. -/
def attempt (c : γ) (failed next : Prog γ ρ) : Prog γ ρ :=
  .call c fun ok => if ok then next else failed

/-- A call that cannot fail. -/
def step (c : γ) (next : Prog γ ρ) : Prog γ ρ := .call c fun _ => next

/-- Calls that may fail, each with the error that the program returns when it does. -/
def attemptAll {ε : Type*} (error : ε → ρ) : List (γ × ε) → Prog γ ρ → Prog γ ρ
  | [], next => next
  | (c, e) :: cs, next => attempt c (.ret (error e)) (attemptAll error cs next)

variable (o : γ → Bool)

/-- The calls made, with their outcomes. -/
def trace : Prog γ ρ → List (γ × Bool)
  | .ret _ => []
  | .call c next => (c, o c) :: trace (next (o c))

def result : Prog γ ρ → ρ
  | .ret r => r
  | .call c next => result (next (o c))

@[simp] theorem trace_ret (r : ρ) : (ret r : Prog γ ρ).trace o = [] := rfl

@[simp] theorem trace_step (c : γ) (next : Prog γ ρ) :
    (step c next).trace o = (c, o c) :: next.trace o := rfl

@[simp] theorem result_step (c : γ) (next : Prog γ ρ) :
    (step c next).result o = next.result o := rfl

variable {o}

theorem trace_attempt_of_ok {c : γ} (h : o c = true) (failed next : Prog γ ρ) :
    (attempt c failed next).trace o = (c, true) :: next.trace o := by
  rw [attempt, trace, h, if_pos rfl]

theorem trace_attempt_of_failed {c : γ} (h : o c = false) (failed next : Prog γ ρ) :
    (attempt c failed next).trace o = (c, false) :: failed.trace o := by
  rw [attempt, trace, h]
  rfl

theorem result_attempt_of_ok {c : γ} (h : o c = true) (failed next : Prog γ ρ) :
    (attempt c failed next).result o = next.result o := by
  rw [attempt, result, h, if_pos rfl]

theorem result_attempt_of_failed {c : γ} (h : o c = false) (failed next : Prog γ ρ) :
    (attempt c failed next).result o = failed.result o := by
  rw [attempt, result, h]
  rfl

variable {ε : Type*} {error : ε → ρ} {cs : List (γ × ε)}

theorem attemptAll_of_ok (h : ∀ c ∈ cs, o c.1 = true) (next : Prog γ ρ) :
    (attemptAll error cs next).trace o = cs.map (fun c => (c.1, true)) ++ next.trace o ∧
      (attemptAll error cs next).result o = next.result o := by
  induction cs with
  | nil => exact ⟨rfl, rfl⟩
  | cons c cs ih =>
    obtain ⟨c, e⟩ := c
    rw [List.forall_mem_cons] at h
    obtain ⟨htrace, hresult⟩ := ih h.2
    constructor
    · rw [attemptAll, trace_attempt_of_ok h.1, htrace]
      rfl
    · rw [attemptAll, result_attempt_of_ok h.1, hresult]

theorem attemptAll_of_failed (h : ∃ c ∈ cs, o c.1 = false) (next : Prog γ ρ) :
    (∀ e ∈ (attemptAll error cs next).trace o, e.1 ∈ cs.map Prod.fst) ∧
      ∃ e, (attemptAll error cs next).result o = error e := by
  induction cs with
  | nil => simp at h
  | cons c cs ih =>
    obtain ⟨c, e⟩ := c
    cases hc : o c with
    | false =>
      rw [attemptAll, trace_attempt_of_failed hc, result_attempt_of_failed hc]
      exact ⟨by simp, e, rfl⟩
    | true =>
      have hrest : ∃ c ∈ cs, o c.1 = false := by simpa [hc] using h
      rw [attemptAll, trace_attempt_of_ok hc, result_attempt_of_ok hc]
      obtain ⟨htrace, hresult⟩ := ih hrest
      refine ⟨fun e he => ?_, hresult⟩
      rcases List.mem_cons.mp he with rfl | he
      · exact List.mem_cons_self
      · exact List.mem_cons_of_mem _ (htrace e he)

/-! ### Order of calls -/

/-- `c₁` is made only after `c₀` has succeeded. -/
def OnlyAfter (c₀ c₁ : γ) : Prog γ ρ → Prop
  | .ret _ => True
  | .call c next => c ≠ c₁ ∧ OnlyAfter c₀ c₁ (next false) ∧
      (c ≠ c₀ → OnlyAfter c₀ c₁ (next true))

variable {c₀ c₁ : γ}

@[simp] theorem onlyAfter_ret (r : ρ) : (ret r : Prog γ ρ).OnlyAfter c₀ c₁ := trivial

@[simp] theorem onlyAfter_step (c : γ) (next : Prog γ ρ) :
    (step c next).OnlyAfter c₀ c₁ ↔ c ≠ c₁ ∧ next.OnlyAfter c₀ c₁ :=
  ⟨fun h => ⟨h.1, h.2.1⟩, fun h => ⟨h.1, h.2, fun _ => h.2⟩⟩

@[simp] theorem onlyAfter_attempt (c : γ) (failed next : Prog γ ρ) :
    (attempt c failed next).OnlyAfter c₀ c₁ ↔
      c ≠ c₁ ∧ failed.OnlyAfter c₀ c₁ ∧ (c ≠ c₀ → next.OnlyAfter c₀ c₁) := Iff.rfl

/-- The order is kept by what is left after a call, until `c₀` has succeeded. -/
theorem OnlyAfter.next {c : γ} {next : Bool → Prog γ ρ}
    (h : (Prog.call c next).OnlyAfter c₀ c₁) {ok : Bool} (hc : ¬(c = c₀ ∧ ok = true)) :
    (next ok).OnlyAfter c₀ c₁ := by
  cases ok with
  | false => exact h.2.1
  | true => exact h.2.2 fun hc₀ => hc ⟨hc₀, rfl⟩

theorem onlyAfter_attemptAll (h : ∀ c ∈ cs, c.1 ≠ c₁) {next : Prog γ ρ}
    (hnext : next.OnlyAfter c₀ c₁) : (attemptAll error cs next).OnlyAfter c₀ c₁ := by
  induction cs with
  | nil => exact hnext
  | cons c cs ih =>
    rw [List.forall_mem_cons] at h
    exact (onlyAfter_attempt ..).mpr ⟨h.1, trivial, fun _ => ih h.2⟩

end Prog

end RockchipVpu.Base
