import RockchipVpu.Base.Simulation
import RockchipVpu.System.Working

/-! The end of a job. In whatever state the device is, its current job ends when the run
function has made the calls it has left and the encoder reports to the interrupt handler or
keeps silent until the watchdog expires. The two buffers then go back to the file of the job
with what the handler found, and everything rests. -/

namespace RockchipVpu.System

open Base Format Queue Hw Job

variable {κ : Type*}

/-! ### Endings -/

/-- How the encoder ends. -/
inductive Ending
  | report (status bits : U32)
  | timeout

def Ending.acts : Ending → List (DevAct κ)
  | .report status bits => [.report status bits, .irq]
  | .timeout => [.watchdog]

/-- The steps that are left of the current job. An encoder that has reported already only waits
for the interrupt handler. -/
def finishing (s : Device κ) (e : Ending) : List (DevAct κ) :=
  if s.hw.raised then [.irq] else List.replicate s.calls.length .call ++ e.acts

/-- Length and result of the job. -/
def outcome (chip : Chip) (s : Device κ) (e : Ending) : U32 × BufResult :=
  if s.hw.raised then (s.hw.vepuIrq chip).1
  else match e with
    | .report status bits => variantVepuIrq chip status bits
    | .timeout => (0, .error)

section Phases

variable {chip : Chip} {program : List Write} {hw : EncoderHw} {timer : Bool}

/-- With no call left and no report made the encoder works. -/
theorem Phase.working_of_nil (h : Phase program [] hw timer) (hr : hw.raised = false) :
    hw.working = true ∧ timer = true := by
  generalize hcalls : [] = calls at h
  cases h with
  | programming => simp at hcalls
  | scheduled => cases hcalls
  | working => exact ⟨rfl, rfl⟩
  | reported => cases hr

/-- The handler reads what the encoder has left. -/
theorem vepuIrq_report (chip : Chip) (hw : EncoderHw) (status bits : U32) :
    ((hw.report chip status bits).vepuIrq chip).1 = variantVepuIrq chip status bits := by
  have hne : interruptReg chip ≠ (jpegRegs chip).strBufLimit := by
    cases chip <;> decide
  simp only [EncoderHw.vepuIrq, EncoderHw.report, Function.update_self,
    Function.update_of_ne hne]

end Phases

section Completion

variable [DecidableEq κ] {chip : Chip} {A : DmaAlign} {s s' : Device κ}

theorem invariants_step (hi : DeviceInv chip s) (hp : PhaseInv s) {act : DevAct κ}
    (hs : devStep chip A.val s act = some s') (hc : InTime s act) :
    DeviceInv chip s' ∧ PhaseInv s' := by
  obtain ⟨hi', hexit⟩ := devStep_spec hi hs
  exact ⟨hi', phaseInv_step hi hi' hp hc hexit⟩

/-- The run function makes its calls one after the other. -/
theorem run_calls (hi : DeviceInv chip s) (hp : PhaseInv s) :
    ∃ u, run (devStep chip A.val) s (List.replicate s.calls.length .call) = some u ∧
      DeviceInv chip u ∧ PhaseInv u ∧ u.calls = [] ∧ u.task = s.task ∧ u.handle = s.handle ∧
      u.hw.raised = s.hw.raised := by
  generalize hcalls : s.calls = calls
  induction calls generalizing s with
  | nil => exact ⟨s, rfl, hi, hp, hcalls, rfl, rfl, rfl⟩
  | cons x calls ih =>
    have hs : devStep chip A.val s .call = some { s with
        calls := calls
        hw := (x.make chip s.hw s.timer).1
        timer := (x.make chip s.hw s.timer).2 } := by
      simp only [devStep, hcalls]
    obtain ⟨hi', hp'⟩ := invariants_step hi hp hs trivial
    obtain ⟨u, hu, hiu, hpu, hnil, htask, hhandle, hraised⟩ := ih hi' hp' rfl
    refine ⟨u, ?_, hiu, hpu, hnil, htask, hhandle, hraised.trans (Call.raised_make ..)⟩
    rw [List.length_cons, List.replicate_succ]
    simp only [run, hs]
    exact hu

section Ended

variable {t : Task κ} {file : Handle} (hi : DeviceInv chip s) (hp : PhaseInv s)
  (ht : s.task = some t) (hfile : s.handle t.client = some file)
include hi hp ht hfile

/-- The files after `t` has ended in this way. -/
theorem irq_ends (hraised : s.hw.raised = true) : ∃ s', devStep chip A.val s .irq = some s' ∧
    s'.task = none ∧ PhaseInv s' ∧ s'.handle = Function.update s.handle t.client
      (some (file.handBack t.job (s.hw.vepuIrq chip).1.1 (s.hw.vepuIrq chip).1.2 t.job.src
        t.job.dst)) := by
  have hack : DeviceInv chip { s with timer := false, hw := (s.hw.vepuIrq chip).2 } :=
    hi.congr rfl rfl
  have hs : devStep chip A.val s .irq = _ := (if_pos hraised).trans (finish_eq hack ht hfile _ _)
  exact ⟨_, hs, rfl, (invariants_step hi hp hs trivial).2, rfl⟩

theorem watchdog_ends (htimer : s.timer = true) (hworking : s.hw.working = true) :
    ∃ s', devStep chip A.val s .watchdog = some s' ∧ s'.task = none ∧ PhaseInv s' ∧
      s'.handle = Function.update s.handle t.client
        (some (file.handBack t.job 0 .error t.job.src t.job.dst)) := by
  have hreset : DeviceInv chip { s with timer := false, hw := s.hw.writes chip (encReset chip) } :=
    hi.congr rfl rfl
  have hs : devStep chip A.val s .watchdog = _ := (if_pos htimer).trans
    ((watchdog_eq hi (by rw [ht]; rfl)).trans (finish_eq hreset ht hfile _ _))
  exact ⟨_, hs, rfl, (invariants_step hi hp hs hworking).2, rfl⟩

/-- A job whose calls are all made ends as the encoder does. -/
theorem run_ending (hcalls : s.calls = []) (hraised : s.hw.raised = false) (e : Ending) :
    ∃ s', run (devStep chip A.val) s e.acts = some s' ∧ s'.task = none ∧ PhaseInv s' ∧
      s'.handle = Function.update s.handle t.client (some (file.handBack t.job
        (outcome chip s e).1 (outcome chip s e).2 t.job.src t.job.dst)) := by
  have hphase := hp.busy t ht
  rw [hcalls] at hphase
  obtain ⟨hworking, htimer⟩ := hphase.working_of_nil hraised
  cases e with
  | report status bits =>
    have hreport : devStep chip A.val s (.report status bits) =
        some { s with hw := s.hw.report chip status bits } := if_pos hworking
    obtain ⟨hi', hp'⟩ := invariants_step hi hp hreport trivial
    obtain ⟨s', hs, hnone, hps, hhandle⟩ := irq_ends (A := A) hi' hp' ht hfile rfl
    have hout : outcome chip s (.report status bits) =
        ((s.hw.report chip status bits).vepuIrq chip).1 := by
      rw [vepuIrq_report, outcome, hraised]
      rfl
    refine ⟨s', ?_, hnone, hps, by rw [hout]; exact hhandle⟩
    simp only [Ending.acts, run, hreport, hs]
  | timeout =>
    obtain ⟨s', hs, hnone, hps, hhandle⟩ := watchdog_ends (A := A) hi hp ht hfile htimer hworking
    have hout : outcome chip s .timeout = (0, .error) := by
      rw [outcome, hraised]
      rfl
    refine ⟨s', ?_, hnone, hps, by rw [hout]; exact hhandle⟩
    simp only [Ending.acts, run_singleton, hs]

/-- The steps that are left lead to the end of the current job. -/
theorem run_finishing (e : Ending) : ∃ s', run (devStep chip A.val) s (finishing s e) = some s' ∧
    s'.task = none ∧ PhaseInv s' ∧ s'.handle = Function.update s.handle t.client
      (some (file.handBack t.job (outcome chip s e).1 (outcome chip s e).2 t.job.src
        t.job.dst)) := by
  cases hraised : s.hw.raised with
  | true =>
    obtain ⟨s', hs, hnone, hps, hhandle⟩ := irq_ends (A := A) hi hp ht hfile hraised
    refine ⟨s', ?_, hnone, hps, ?_⟩
    · rw [finishing, if_pos hraised, run_singleton]
      exact hs
    · simp only [outcome, hraised, if_true]
      exact hhandle
  | false =>
    have hoff : ¬ s.hw.raised = true := by simp [hraised]
    obtain ⟨u, hu, hiu, hpu, hcalls, htask, hfiles, hrest⟩ := run_calls (A := A) hi hp
    obtain ⟨s', hs, hnone, hps, hhandle⟩ := run_ending (A := A) hiu hpu (htask.trans ht)
      ((congrFun hfiles _).trans hfile) hcalls (hrest.trans hraised) e
    have hout : outcome chip s e = outcome chip u e := by
      simp only [outcome, hrest, hraised, Bool.false_eq_true, if_false]
    refine ⟨s', ?_, hnone, hps, ?_⟩
    · rw [finishing, if_neg hoff, run_append, hu]
      exact hs
    · rw [hout, ← hfiles]
      exact hhandle

end Ended

/-- From every state with a current job, the steps that are left lead to its end: its buffers
are handed back to its file with the outcome, no other file is touched, and the device rests,
ready for the next job. -/
theorem job_completes {regs : RegFile}
    (h : Reach (devStep chip A.val) InTime (initDevice κ regs) s) {t : Task κ}
    (ht : s.task = some t) (e : Ending) : ∃ file s', s.handle t.client = some file ∧
      run (devStep chip A.val) s (finishing s e) = some s' ∧ s'.task = none ∧ AtRest s' ∧
      s'.handle = Function.update s.handle t.client (some (file.handBack t.job
        (outcome chip s e).1 (outcome chip s e).2 t.job.src t.job.dst)) := by
  obtain ⟨hi, hp⟩ := phaseInv_reach h
  obtain ⟨file, hfile, -⟩ := hi.task t ht
  obtain ⟨s', hs, hnone, hps, hhandle⟩ := run_finishing (A := A) hi hp ht hfile e
  exact ⟨file, s', hfile, hs, hnone, hps.idle hnone, hhandle⟩

end Completion

/-- The watchdog ends a job whose run function has only begun. -/
theorem job_completes_startFrame : ∃ s t file s',
    run (devStep .rk3288 64) (initDevice ℕ fun _ => 0) startFrame = some s ∧
      s.task = some t ∧ s.handle t.client = some file ∧
      run (devStep .rk3288 64) s (finishing s .timeout) = some s' ∧ AtRest s' := by
  have hsome : ((run (devStep .rk3288 64) (initDevice ℕ fun _ => 0) startFrame).bind
      fun s => s.task).isSome := by decide +kernel
  obtain ⟨t, h⟩ := Option.isSome_iff_exists.mp hsome
  obtain ⟨s, hs, ht⟩ := Option.bind_eq_some_iff.mp h
  obtain ⟨file, s', hfile, hs', -, hrest, -⟩ := job_completes (A := ⟨6, by decide⟩)
    (reach_of_run (by decide +kernel) hs) ht .timeout
  exact ⟨s, t, file, s', hs, ht, hfile, hs', hrest⟩

end RockchipVpu.System
