import Mathlib.Data.List.Basic
import Mathlib.Data.List.Infix

/-! Acquiring and releasing resources. A sequence of effects is balanced when nothing
is released that is not acquired at that time, and nothing stays acquired at the end.
Replaying the effects on the list of what is held decides it. -/

namespace RockchipVpu.Base

variable {ρ : Type*} [DecidableEq ρ]

inductive Effect (ρ : Type*)
  | acquire (r : ρ)
  | release (r : ρ)
  deriving DecidableEq

structure Balanced (es : List (Effect ρ)) : Prop where
  /-- At no time has a resource been released more often than acquired. -/
  covered : ∀ p, p <+: es → ∀ r, p.count (.release r) ≤ p.count (.acquire r)
  /-- At the end each resource has been released as often as acquired. -/
  returned : ∀ r, es.count (.release r) = es.count (.acquire r)

/-- What is held after the effects, unless one releases what is not held. -/
def replay : List ρ → List (Effect ρ) → Option (List ρ)
  | held, [] => some held
  | held, .acquire r :: es => replay (r :: held) es
  | held, .release r :: es => if r ∈ held then replay (held.erase r) es else none

theorem replay_append (held : List ρ) (a b : List (Effect ρ)) :
    replay held (a ++ b) = (replay held a).bind (replay · b) := by
  induction a generalizing held with
  | nil => rfl
  | cons e a ih =>
    cases e with
    | acquire r => exact ih _
    | release r =>
      simp only [List.cons_append, replay]
      split
      · exact ih _
      · rfl

theorem count_replay {held held' : List ρ} {es : List (Effect ρ)}
    (h : replay held es = some held') (r : ρ) :
    held'.count r + es.count (.release r) = held.count r + es.count (.acquire r) := by
  induction es generalizing held with
  | nil =>
    obtain rfl : held = held' := Option.some.inj h
    rfl
  | cons e es ih =>
    cases e with
    | acquire q =>
      have := ih h
      simp only [List.count_cons, beq_iff_eq, Effect.acquire.injEq, reduceCtorEq, if_false] at this ⊢
      omega
    | release q =>
      simp only [replay] at h
      split at h
      case isFalse => cases h
      rename_i hq
      have := ih h
      have hpos := List.count_pos_iff.mpr hq
      simp only [List.count_cons, List.count_erase, beq_iff_eq, Effect.release.injEq, reduceCtorEq,
        if_false] at this ⊢
      split at this
      · subst q
        simp only [if_true]
        omega
      · rename_i hne
        simp only [hne, if_false]
        omega

theorem replay_isSome_of_covered {held : List ρ} {es : List (Effect ρ)}
    (h : ∀ p, p <+: es → ∀ r, p.count (.release r) ≤ held.count r + p.count (.acquire r)) :
    (replay held es).isSome := by
  induction es generalizing held with
  | nil => rfl
  | cons e es ih =>
    cases e with
    | acquire q =>
      refine ih fun p hp r => ?_
      have := h (.acquire q :: p) (List.prefix_cons_inj _ |>.mpr hp) r
      simp only [List.count_cons, beq_iff_eq, Effect.acquire.injEq, reduceCtorEq, if_false] at this ⊢
      omega
    | release q =>
      have hq : q ∈ held := by
        have := h [.release q] (by simp) q
        simp only [List.count_cons, List.count_nil, beq_self_eq_true, if_true] at this
        exact List.count_pos_iff.mp (by simpa using this)
      simp only [replay, hq, if_true]
      refine ih fun p hp r => ?_
      have hr := h (.release q :: p) (List.prefix_cons_inj _ |>.mpr hp) r
      have hpos := List.count_pos_iff.mpr hq
      simp only [List.count_cons, List.count_erase, beq_iff_eq, Effect.release.injEq, reduceCtorEq,
        if_false] at hr ⊢
      split at hr
      · subst q
        simp only [if_true]
        omega
      · rename_i hne
        simp only [hne, if_false]
        omega

theorem balanced_iff_replay {es : List (Effect ρ)} : Balanced es ↔ replay [] es = some [] := by
  constructor
  · intro h
    have hsome : (replay [] es).isSome := replay_isSome_of_covered (by simpa using h.covered)
    obtain ⟨held, hh⟩ := Option.isSome_iff_exists.mp hsome
    rw [hh]
    congr 1
    refine List.eq_nil_iff_forall_not_mem.mpr fun r hr => ?_
    have := count_replay hh r
    have := h.returned r
    have := List.count_pos_iff.mpr hr
    simp only [List.count_nil] at *
    omega
  · intro h
    constructor
    · rintro p ⟨q, rfl⟩ r
      rw [replay_append] at h
      obtain ⟨held, hp, -⟩ := Option.bind_eq_some_iff.mp h
      have := count_replay hp r
      simp only [List.count_nil] at this
      omega
    · intro r
      have := count_replay h r
      simpa using this

instance (es : List (Effect ρ)) : Decidable (Balanced es) :=
  decidable_of_iff _ balanced_iff_replay.symm

theorem Balanced.append_iff {a b : List (Effect ρ)} (ha : Balanced a) :
    Balanced (a ++ b) ↔ Balanced b := by
  rw [balanced_iff_replay, replay_append, balanced_iff_replay.mp ha, balanced_iff_replay]
  rfl

/-- Blocks of effects are balanced at the end of each block exactly when each of them is. -/
theorem balanced_blocks_iff {ι : Type*} (block : ι → List (Effect ρ)) {l : List ι} :
    (∀ p, p <+: l → Balanced (p.flatMap block)) ↔ ∀ i ∈ l, Balanced (block i) := by
  constructor
  · intro h i hi
    obtain ⟨p, q, rfl⟩ := List.append_of_mem hi
    have hp := h p (List.prefix_append ..)
    have hpi := h (p ++ [i]) (by simp)
    rw [List.flatMap_append, hp.append_iff] at hpi
    simpa using hpi
  · rintro h p hp
    have hmem : ∀ i ∈ p, Balanced (block i) := fun i hi => h i (hp.subset hi)
    clear h hp
    induction p with
    | nil => exact balanced_iff_replay.mpr rfl
    | cons i p ih =>
      rw [List.forall_mem_cons] at hmem
      rw [List.flatMap_cons, hmem.1.append_iff]
      exact ih hmem.2

end RockchipVpu.Base
