import RockchipVpu.Base.Transition
import RockchipVpu.Job.HandlerCalls

/-! Every job is completed exactly once, as long as no handler takes a job from another
one; and a run in which the watchdog worker is late and does. -/

namespace RockchipVpu.Job

open Base

variable {κ : Type*}

/-- Every job is completed exactly once and by its own handler. -/
structure ExactlyOnce (s : Encoder κ) : Prop where
  record : ∀ j, j < s.next → ∃ k a b,
    ((s.job j).done = [] ∨ (s.job j).bufs = some (a, b)) ∧ (s.job j).done <+: fullRecord k j a b
  completed : ∀ j, j < s.next → (∀ cur, s.curr = some cur → cur.job ≠ j) → Completed s j
  pending : ∀ cur, s.curr = some cur → s.start = none → s.timer = some cur.job ∨ Served s cur.job
  own : ∀ k h cur, s.handler k = some h → h.pc.held = some cur → cur.job = h.owner
  usage : s.usage = countRunning s

theorem PcRecord.exists_fullRecord {k : Kind} {j : ℕ} {job : JobRecord} {pc : Pc κ}
    (h : PcRecord k j job pc) (hheld : pc.held ≠ none) :
    ∃ a b, (job.done = [] ∨ job.bufs = some (a, b)) ∧ job.done <+: fullRecord k j a b := by
  have htake {a b n} (hb : job.bufs = some (a, b)) (hd : job.done = (fullRecord k j a b).take n) :
      ∃ a b, (job.done = [] ∨ job.bufs = some (a, b)) ∧ job.done <+: fullRecord k j a b :=
    ⟨a, b, .inr hb, hd ▸ List.take_prefix ..⟩
  have hnil (hd : job.done = []) :
      ∃ a b, (job.done = [] ∨ job.bufs = some (a, b)) ∧ job.done <+: fullRecord k j a b :=
    ⟨0, 0, .inl hd, hd ▸ List.nil_prefix⟩
  cases pc with
  | lookup => simp [Pc.held] at hheld
  | cancel found =>
    cases found with
    | none => simp at hheld
    | some cur => exact hnil h.2
  | reset cur => exact hnil h.2
  | removeSrc cur => exact hnil h
  | removeDst cur src =>
    obtain ⟨a, b, hb, -, hd⟩ := h
    exact htake hb hd
  | returnSrc cur a b => exact htake h.1 h.2
  | returnDst cur b =>
    obtain ⟨a, hb, hd⟩ := h
    exact htake hb hd
  | finish cur | put cur =>
    obtain ⟨a, b, hb, hd⟩ := h
    exact htake hb hd

theorem EncoderInv.exactlyOnce {s : Encoder κ} (hi : EncoderInv s) : ExactlyOnce s where
  record j hj := by
    by_cases hne : ∀ cur, s.curr = some cur → cur.job ≠ j
    · obtain ⟨-, k, a, b, hb, hd | ⟨hd, -⟩⟩ := hi.finished j hj hne
      · exact ⟨k, a, b, .inr hb, hd ▸ List.prefix_rfl⟩
      · exact ⟨k, a, b, .inr hb, hd ▸ List.take_prefix ..⟩
    · push Not at hne
      obtain ⟨cur, hcur, rfl⟩ := hne
      have hnil (hd : (s.job cur.job).done = []) : ∃ k a b, ((s.job cur.job).done = [] ∨
          (s.job cur.job).bufs = some (a, b)) ∧ (s.job cur.job).done <+: fullRecord k cur.job a b :=
        ⟨.irq, 0, 0, .inl hd, hd ▸ List.nil_prefix⟩
      cases hstart : s.start with
      | none =>
        rcases (hi.current cur hcur hstart).claimed with hd | ⟨k, h, hk, ho, hn⟩
        · exact hnil hd
        · exact ⟨k, ho ▸ (hi.handlers k h hk).record.exists_fullRecord hn⟩
      | some p =>
        obtain ⟨hnow, hjob⟩ := hi.start_curr p.1 p.2 hstart
        obtain rfl : cur = p.1 := Option.some.inj (hcur.symm.trans hnow)
        exact hnil (by rw [hjob])
  completed j hj hne := (hi.finished j hj hne).2
  pending cur hcur hstart := (hi.current cur hcur hstart).pending
  own k h cur hk := (hi.handlers k h hk).own cur
  usage := hi.usage

variable [DecidableEq κ]

/-- While no handler takes a job from another one, every job is completed exactly once,
by the interrupt it raised or by its own watchdog. -/
theorem exactlyOnce_of_uncontended {s : Encoder κ} (h : Reach raceStep Uncontended {} s) :
    ExactlyOnce s :=
  (h.invariant EncoderInv.init fun _ _ _ hi hc hs => hi.step hc hs).exactlyOnce

/-- Two jobs of one context, with a source and a capture buffer each. -/
def queueTwo : List (RaceAct ℕ) :=
  [.queueSrc 0 10, .queueDst 0 20, .queueSrc 0 11, .queueDst 0 21]

def startJob : List (RaceAct ℕ) := [.pick 0, .deviceRun, .deviceRun]

/-- The calls of a handler that ends its job. -/
def handle (k : Kind) : List (RaceAct ℕ) := List.replicate 8 (.handler k)

/-- The first job is ended by its watchdog, the second by its interrupt. -/
def endTwo : List (RaceAct ℕ) :=
  queueTwo ++ startJob ++ [.expire] ++ handle .watchdog ++ startJob ++ [.interrupt] ++ handle .irq

theorem exactlyOnce_two_jobs : ∃ s, run raceStep ({} : Encoder ℕ) endTwo = some s ∧
    s.next = 2 ∧ s.curr = none ∧ ExactlyOnce s := by
  have hc : Along raceStep Uncontended {} endTwo := by decide
  exact ⟨_, rfl, rfl, rfl, exactlyOnce_of_uncontended (reach_of_run hc rfl)⟩

/-- The worker starts on the first job, the interrupt ends that job and cannot cancel
the worker, and the worker then takes the second job from the hardware. -/
theorem exactlyOnce_late_worker : ∃ s : Encoder ℕ, Reach raceStep AnyStep {} s ∧
    (s.job 1).done = [.removeSrc 11, .removeDst 21, .returnSrc 11, .returnDst 21,
      .complete .watchdog 0, .put] ∧ ¬ ExactlyOnce s := by
  obtain ⟨s, hs, hd, hcurr, hnext⟩ : ∃ s, run raceStep ({} : Encoder ℕ) (queueTwo ++ startJob ++
      [.expire, .interrupt] ++ handle .irq ++ startJob ++ handle .watchdog) = some s ∧
      (s.job 1).done = [.removeSrc 11, .removeDst 21, .returnSrc 11, .returnDst 21,
        .complete .watchdog 0, .put] ∧ s.curr = none ∧ s.next = 2 := ⟨_, rfl, rfl, rfl, rfl⟩
  refine ⟨s, reach_of_run_any hs, hd, fun h => ?_⟩
  obtain ⟨k, a, b, -, hfull⟩ := h.completed 1 (by omega) (by simp [hcurr])
  simp [hd, fullRecord] at hfull

end RockchipVpu.Job
