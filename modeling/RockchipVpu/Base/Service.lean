import Mathlib.Logic.Function.Basic
import RockchipVpu.Base.Simulation

/-! A service that pairs. Each client has two queues; the service takes one client at a
time, of those with something on both, and pairs the heads of its queues. A client that is
not being served may take back what it has in a queue. Whatever the order in which the
clients push and are served, each queue is served first in first out, and as long as nothing
is taken back nothing is lost and the `n`-th thing pushed on one side is paired with the
`n`-th on the other. -/

namespace RockchipVpu.Base

variable {κ α β : Type*}

/-- The pairs are kept in the order they were served. -/
structure Service (κ α β : Type*) where
  left : κ → List α := fun _ => []
  right : κ → List β := fun _ => []
  busy : Option κ := none
  served : List (κ × α × β) := []

namespace Service

inductive Act (κ α β : Type*)
  | pushLeft (c : κ) (a : α)
  | pushRight (c : κ) (b : β)
  | start (c : κ)
  | finish
  | flushLeft (c : κ)
  | flushRight (c : κ)

/-- Nothing is taken back. -/
def Act.Keeps : Act κ α β → Prop
  | .flushLeft _ | .flushRight _ => False
  | .pushLeft .. | .pushRight .. | .start _ | .finish => True

variable [DecidableEq κ]

/-- The client stays in its place until its pair is finished. -/
def step (s : Service κ α β) : Act κ α β → Option (Service κ α β)
  | .pushLeft c a => some { s with left := Function.update s.left c (s.left c ++ [a]) }
  | .pushRight c b => some { s with right := Function.update s.right c (s.right c ++ [b]) }
  | .start c => if s.busy.isNone && !(s.left c).isEmpty && !(s.right c).isEmpty then
      some { s with busy := some c } else none
  | .finish => match s.busy with
    | none => none
    | some c => match s.left c, s.right c with
      | a :: as, b :: bs => some {
          left := Function.update s.left c as
          right := Function.update s.right c bs
          busy := none
          served := s.served ++ [(c, a, b)] }
      | _, _ => none
  | .flushLeft c =>
    if s.busy = some c then none else some { s with left := Function.update s.left c [] }
  | .flushRight c =>
    if s.busy = some c then none else some { s with right := Function.update s.right c [] }

/-- The pairs of a client. -/
def servedFor (s : Service κ α β) (c : κ) : List (α × β) :=
  (s.served.filter (·.1 = c)).map Prod.snd

def pushedLeft (c : κ) : Act κ α β → List α
  | .pushLeft c' a => if c' = c then [a] else []
  | _ => []

def pushedRight (c : κ) : Act κ α β → List β
  | .pushRight c' b => if c' = c then [b] else []
  | _ => []

/-- Both sides of a client, what has been served first. -/
def leftSide (s : Service κ α β) (c : κ) : List α := (s.servedFor c).map Prod.fst ++ s.left c

def rightSide (s : Service κ α β) (c : κ) : List β := (s.servedFor c).map Prod.snd ++ s.right c

section Step

variable {s t : Service κ α β} {act : Act κ α β}

/-- A step appends to the sides what it pushes, and moves nothing else. -/
theorem sides_step (hk : act.Keeps) (h : step s act = some t) (c : κ) :
    t.leftSide c = s.leftSide c ++ pushedLeft c act ∧
      t.rightSide c = s.rightSide c ++ pushedRight c act := by
  cases act with
  | pushLeft c' a =>
    obtain rfl := Option.some.inj h
    by_cases hc : c = c'
    · subst hc
      simp [leftSide, rightSide, servedFor, pushedLeft, pushedRight]
    · simp [leftSide, rightSide, servedFor, pushedLeft, pushedRight, hc, Ne.symm hc]
  | pushRight c' b =>
    obtain rfl := Option.some.inj h
    by_cases hc : c = c'
    · subst hc
      simp [leftSide, rightSide, servedFor, pushedLeft, pushedRight]
    · simp [leftSide, rightSide, servedFor, pushedLeft, pushedRight, hc, Ne.symm hc]
  | start c' =>
    simp only [step] at h
    split_ifs at h
    obtain rfl := Option.some.inj h
    simp [leftSide, rightSide, servedFor, pushedLeft, pushedRight]
  | finish =>
    simp only [step] at h
    split at h
    · cases h
    · next c' hbusy =>
      split at h
      · next a as b bs hl hr =>
        obtain rfl := Option.some.inj h
        by_cases hc : c = c'
        · subst hc
          simp [leftSide, rightSide, servedFor, pushedLeft, pushedRight, hl, hr]
        · simp [leftSide, rightSide, servedFor, pushedLeft, pushedRight, hc, Ne.symm hc]
      · cases h
  | flushLeft => exact hk.elim
  | flushRight => exact hk.elim

end Step

/-- The queues over a run. -/
theorem sides_run {s t : Service κ α β} {acts : List (Act κ α β)}
    (hk : ∀ act ∈ acts, act.Keeps) (h : run step s acts = some t) (c : κ) :
    t.leftSide c = s.leftSide c ++ acts.flatMap (pushedLeft c) ∧
      t.rightSide c = s.rightSide c ++ acts.flatMap (pushedRight c) := by
  induction acts generalizing s with
  | nil =>
    obtain rfl : s = t := Option.some.inj h
    simp
  | cons a acts ih =>
    simp only [run] at h
    cases hs : step s a with
    | none => simp [hs] at h
    | some u =>
      simp only [hs] at h
      obtain ⟨ha, hk⟩ := List.forall_mem_cons.mp hk
      obtain ⟨hl, hr⟩ := sides_step ha hs c
      obtain ⟨hl', hr'⟩ := ih hk h
      simp [hl', hr', hl, hr, List.append_assoc]

/-! ### Several pushes -/

theorem run_pushLeft (s : Service κ α β) (c : κ) (as : List α) :
    run step s (as.map (.pushLeft c)) =
      some { s with left := Function.update s.left c (s.left c ++ as) } := by
  induction as generalizing s with
  | nil => simp [run]
  | cons a as ih =>
    simp only [List.map_cons, run, step, ih]
    simp

theorem run_pushRight (s : Service κ α β) (c : κ) (bs : List β) :
    run step s (bs.map (.pushRight c)) =
      some { s with right := Function.update s.right c (s.right c ++ bs) } := by
  induction bs generalizing s with
  | nil => simp [run]
  | cons b bs ih =>
    simp only [List.map_cons, run, step, ih]
    simp

/-! ### Rounds -/

/-- Between two idle states each client has been served `n` times, from the heads of its queues. -/
structure Advances (s t : Service κ α β) (n : κ → ℕ) : Prop where
  busy : t.busy = none
  left : ∀ c, t.left c = (s.left c).drop (n c)
  right : ∀ c, t.right c = (s.right c).drop (n c)
  served : ∀ c, t.servedFor c = s.servedFor c ++ ((s.left c).zip (s.right c)).take (n c)

/-- A client is served from start to finish. -/
def round (c : κ) : List (Act κ α β) := [.start c, .finish]

section Rounds

variable {s t u : Service κ α β} {n m : κ → ℕ}

theorem advances_refl (h : s.busy = none) : Advances s s fun _ => 0 where
  busy := h
  left c := rfl
  right c := rfl
  served c := by rw [List.take_zero, List.append_nil]

theorem Advances.trans (h : Advances s t n) (h' : Advances t u m) :
    Advances s u fun c => n c + m c where
  busy := h'.busy
  left c := by rw [h'.left, h.left, List.drop_drop]
  right c := by rw [h'.right, h.right, List.drop_drop]
  served c := by
    rw [h'.served, h.served, h.left, h.right, List.append_assoc, List.take_add, List.zip,
      List.drop_zipWith]

/-- One round pairs the heads of the queues of its client. -/
theorem run_round (hbusy : s.busy = none) {c : κ} (hl : s.left c ≠ []) (hr : s.right c ≠ []) :
    ∃ t, run step s (round c) = some t ∧ Advances s t fun d => if d = c then 1 else 0 := by
  obtain ⟨a, as, hlc⟩ := List.exists_cons_of_ne_nil hl
  obtain ⟨b, bs, hrc⟩ := List.exists_cons_of_ne_nil hr
  let t : Service κ α β := {
    left := Function.update s.left c as
    right := Function.update s.right c bs
    served := s.served ++ [(c, a, b)] }
  have hstart : step s (.start c) = some { s with busy := some c } := by
    simp [step, hbusy, hlc, hrc]
  have hfinish : step { s with busy := some c } .finish = some t := by
    simp [step, hlc, hrc, t]
  have hround : run step s (round c) = some t := by
    simp only [round, run, hstart, hfinish]
  refine ⟨t, hround, rfl, fun d => ?_, fun d => ?_, fun d => ?_⟩
  all_goals
    by_cases hd : d = c
    · subst hd
      simp [servedFor, hlc, hrc, t]
    · simp [servedFor, hd, Ne.symm hd, t]

theorem ready_of_round {c : κ} (h : run step s (round c) = some t) :
    s.left c ≠ [] ∧ s.right c ≠ [] := by
  simp only [round, run] at h
  cases hs : step s (.start c) with
  | none => simp [hs] at h
  | some u =>
    simp only [step] at hs
    split_ifs at hs with hready
    simp only [Bool.and_eq_true, Bool.not_eq_true', List.isEmpty_eq_false_iff] at hready
    exact ⟨hready.1.2, hready.2⟩

/-- When no client is chosen more often than it has something on both queues, every choice of
clients is served. -/
theorem run_rounds (hbusy : s.busy = none) {cs : List κ}
    (hl : ∀ c, cs.count c ≤ (s.left c).length) (hr : ∀ c, cs.count c ≤ (s.right c).length) :
    ∃ t, run step s (cs.flatMap round) = some t ∧ Advances s t fun c => cs.count c := by
  induction cs generalizing s with
  | nil => exact ⟨s, rfl, advances_refl hbusy⟩
  | cons c cs ih =>
    have hcount (d : κ) : (c :: cs).count d = (if d = c then 1 else 0) + cs.count d := by
      rw [List.count_cons, Nat.add_comm]
      congr 1
      by_cases hd : d = c
      · simp [hd]
      · simp [hd, Ne.symm hd]
    simp only [hcount] at hl hr ⊢
    have hpos : 0 < (if c = c then 1 else 0) + cs.count c := by
      rw [if_pos rfl]
      omega
    obtain ⟨u, hu, hadv⟩ := run_round hbusy
      (List.ne_nil_of_length_pos (Nat.lt_of_lt_of_le hpos (hl c)))
      (List.ne_nil_of_length_pos (Nat.lt_of_lt_of_le hpos (hr c)))
    obtain ⟨t, ht, hadv'⟩ := ih hadv.busy
      (fun d => by rw [hadv.left, List.length_drop]; exact Nat.le_sub_of_add_le' (hl d))
      (fun d => by rw [hadv.right, List.length_drop]; exact Nat.le_sub_of_add_le' (hr d))
    refine ⟨t, ?_, hadv.trans hadv'⟩
    rw [List.flatMap_cons, run_append, hu]
    exact ht

end Rounds

end Service

end RockchipVpu.Base
