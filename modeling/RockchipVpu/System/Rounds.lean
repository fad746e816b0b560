import RockchipVpu.System.Completion
import RockchipVpu.System.Progress
import RockchipVpu.System.Refinement

/-! Frames that are queued get encoded. mem2mem picks the next file that has a buffer on both of
its queues. Whichever files it picks, none of them more often than it has pairs of buffers, every
job starts and ends, whether the encoder reports or keeps silent, and each file gets its buffers
back in pairs, in the order in which it has queued them. So the device does whatever the pairing
service can do with the buffers that wait. -/

namespace RockchipVpu.System

open Base Format Queue Hw Job

variable {κ : Type*}

/-- The run function writes the mode, the body and the start word, and schedules the watchdog. -/
def callCount (chip : Chip) : ℕ := (bodyRegs chip).length + 3

/-- A job of this file, from its start to this ending. -/
structure Round (κ : Type*) where
  client : κ
  ending : Ending

def Round.acts (chip : Chip) (r : Round κ) : List (DevAct κ) :=
  .deviceRun r.client :: (List.replicate (callCount chip) .call ++ r.ending.acts)

theorem Launched.length_runCalls {chip : Chip} {ctx : Ctx} {qtable : JpegQuantization}
    {job : M2mJob} (h : Launched chip ctx qtable job) :
    (runCalls job.program).length = callCount chip := by
  obtain ⟨vpuSrcFmt, -, hprog⟩ := h.program_eq
  have hbody := congrArg List.length
    (programBody_regs chip ctx vpuSrcFmt qtable job.src.vb job.dst.vb)
  rw [List.length_map] at hbody
  rw [hprog, program, ← List.cons_append, runCalls_concat]
  simp only [List.length_append, List.length_map, List.length_cons, List.length_nil, hbody,
    callCount]

section Rounds

variable [DecidableEq κ] {chip : Chip} {A : DmaAlign} {s s' : Device κ} {t u : Pairing κ}

/-! ### What a job is to the service -/

/-- The step that ends the job. -/
def Ending.last : Ending → DevAct κ
  | .report .. => .irq
  | .timeout => .watchdog

/-- The device when that step is taken. -/
def Ending.before (chip : Chip) (s : Device κ) : Ending → Device κ
  | .report status bits => { s with hw := s.hw.report chip status bits }
  | .timeout => s

/-- Whoever does not see a report sees the last step only. -/
theorem answers_endingActs {β : Type*} {answer : Device κ → DevAct κ → List β}
    (hquiet : ∀ s status bits, answer s (.report status bits) = []) {e : Ending}
    (hr : run (devStep chip A.val) s e.acts = some s') :
    answers (devStep chip A.val) answer s e.acts = answer (e.before chip s) e.last := by
  cases e with
  | report status bits =>
    simp only [Ending.acts, run] at hr
    simp only [Ending.acts, answers]
    cases hreport : devStep chip A.val s (.report status bits) with
    | none => simp [hreport] at hr
    | some v =>
      simp only [hreport] at hr ⊢
      cases hirq : devStep chip A.val v .irq with
      | none => simp [hirq] at hr
      | some w =>
        simp only [devStep] at hreport
        split_ifs at hreport
        obtain rfl := Option.some.inj hreport
        simp only [hquiet, List.nil_append, List.append_nil]
        rfl
  | timeout =>
    simp only [Ending.acts, run] at hr
    simp only [Ending.acts, answers]
    cases hdog : devStep chip A.val s .watchdog with
    | none => simp [hdog] at hr
    | some v => exact List.append_nil _

/-- An ending is one for the service too. -/
theorem answers_ending {task : Task κ} (ht : s.task = some task) {e : Ending}
    (hr : run (devStep chip A.val) s e.acts = some s') :
    answers (devStep chip A.val) (deviceAnswer A.val) s e.acts = [.finish] := by
  rw [answers_endingActs (fun _ _ _ => rfl) hr]
  cases e <;> simp [deviceAnswer, Ending.before, Ending.last, ht]

/-- So is what is left of a job. -/
theorem answers_finishing (hi : DeviceInv chip s) (hp : PhaseInv s) {task : Task κ}
    (ht : s.task = some task) (hraised : s.hw.raised = false) {e : Ending}
    (hr : run (devStep chip A.val) s (finishing s e) = some s') :
    answers (devStep chip A.val) (deviceAnswer A.val) s (finishing s e) = [.finish] := by
  have hoff : ¬ s.hw.raised = true := by simp [hraised]
  rw [finishing, if_neg hoff] at hr ⊢
  obtain ⟨v, hv, -, -, -, htask, -⟩ := run_calls (A := A) hi hp
  rw [run_append, hv] at hr
  rw [answers_append hv, answers_ending (htask.trans ht) hr, answers_eq_nil]
  · rfl
  · intro s a ha
    obtain rfl := List.eq_of_mem_replicate ha
    rfl

/-! ### One job -/

/-- What holds between two steps of clients that name coded formats, with the watchdog in time. -/
structure RoundInv (chip : Chip) (s : Device κ) : Prop where
  device : DeviceInv chip s
  phase : PhaseInv s
  coded : ∀ c file, s.handle c = some file → CodedInv file.node

theorem coded_run (hi : DeviceInv chip s)
    (hcoded : ∀ c file, s.handle c = some file → CodedInv file.node)
    (h : Reach (devStep chip A.val) SetsCoded s s') :
    ∀ c file, s'.handle c = some file → CodedInv file.node := by
  have hinv := h.invariant (P := fun s => DeviceInv chip s ∧
    ∀ c file, s.handle c = some file → CodedInv file.node) ⟨hi, hcoded⟩ ?_
  · exact hinv.2
  · rintro s s' act ⟨hi, hcoded⟩ hc hs
    refine ⟨(devStep_spec hi hs).1, fun c file' hfile => ?_⟩
    rcases devStep_fileExit hi hs hfile with ⟨qtable, rfl⟩ | ⟨file, hold, hexit⟩
    · exact codedInv_opened chip
    · exact codedInv_exit hold (hi.handles c file hold) (hcoded c file hold) hc hexit

omit [DecidableEq κ] in
/-- A job sets no format. -/
theorem setsCoded_acts (r : Round κ) : ∀ a ∈ r.acts chip, ∀ s, SetsCoded s a := by
  intro a ha s
  obtain ⟨c, e⟩ := r
  simp only [Round.acts, List.mem_cons, List.mem_append] at ha
  rcases ha with rfl | ha | ha
  · trivial
  · obtain rfl := List.eq_of_mem_replicate ha
    trivial
  · cases e with
    | report status bits =>
      simp only [Ending.acts, List.mem_cons, List.not_mem_nil, or_false] at ha
      rcases ha with rfl | rfl <;> trivial
    | timeout =>
      obtain rfl := List.mem_singleton.mp ha
      trivial

theorem task_started {c : κ} (hs : devStep chip A.val s (.deviceRun c) = some s') :
    ∃ task, s'.task = some task ∧ task.client = c ∧ s'.calls = runCalls task.job.program ∧
      s'.hw = s.hw := by
  simp only [devStep] at hs
  split_ifs at hs
  obtain ⟨file, -, hs⟩ := Option.bind_eq_some_iff.mp hs
  obtain ⟨⟨file', job⟩, -, rfl⟩ := Option.map_eq_some_iff.mp hs
  exact ⟨_, rfl, rfl, rfl, rfl⟩

omit [DecidableEq κ] in
/-- A file with something waiting is open. -/
theorem exists_handle {c : κ} {type : BufType} (h : waiting s c type ≠ []) :
    ∃ file, s.handle c = some file := by
  rw [← Option.ne_none_iff_exists']
  intro hnone
  rw [waiting, hnone] at h
  exact h rfl

/-- mem2mem can start a job that the service can serve. -/
theorem due_deviceRun (hi : RoundInv chip s) (hidle : s.task = none) (hR : Pairs s t) {c : κ}
    (hl : t.left c ≠ []) (hr : t.right c ≠ []) : Due s (.deviceRun c) := by
  rw [hR.left_eq] at hl
  rw [hR.right_eq] at hr
  obtain ⟨file, hfile⟩ := exists_handle hl
  refine ⟨hidle, (hi.phase.idle hidle).calls, file, hfile, fun type => ?_⟩
  rw [← waiting_some hfile]
  cases type with
  | output => exact hl
  | capture => exact hr

/-- A round of the service is one of the device, whatever the encoder does. -/
theorem run_deviceRound (hi : RoundInv chip s) (hidle : s.task = none) (hR : Pairs s t)
    {r : Round κ} (hu : run Service.step t (Service.round r.client) = some u) :
    ∃ s', run (devStep chip A.val) s (r.acts chip) = some s' ∧ RoundInv chip s' ∧
      s'.task = none ∧ Pairs s' u ∧
        u.served = t.served ++ answers (devStep chip A.val) handedPairs s (r.acts chip) := by
  obtain ⟨hl, hr⟩ := Service.ready_of_round hu
  obtain ⟨v, hv⟩ := devStep_of_due (A := A) hi.device hi.coded (due_deviceRun hi hidle hR hl hr)
  obtain ⟨hiv, hpv⟩ := invariants_step hi.device hi.phase hv trivial
  obtain ⟨task, ht, -, hcalls, hhw⟩ := task_started hv
  obtain ⟨file, hfile, hlaunched⟩ := hiv.task task ht
  have hraised : v.hw.raised = false := by rw [hhw, (hi.phase.idle hidle).raised]
  have hacts : r.acts chip = .deviceRun r.client :: finishing v r.ending := by
    rw [finishing, if_neg (by simp [hraised]), hcalls, hlaunched.length_runCalls]
    rfl
  obtain ⟨s', hs', hnone, hps, -⟩ := run_finishing (A := A) hiv hpv ht hfile r.ending
  have hrun : run (devStep chip A.val) s (r.acts chip) = some s' := by
    rw [hacts]
    simp only [run, hv]
    exact hs'
  have hanswers : answers (devStep chip A.val) (deviceAnswer A.val) s (r.acts chip) =
      Service.round r.client := by
    rw [hacts]
    simp only [answers, hv, answers_finishing hiv hpv ht hraised hs']
    rfl
  -- the service does the same along this run
  obtain ⟨w, hw, hRw, hserved⟩ := pairs_run hi.device hR hrun
  rw [hanswers, hu] at hw
  obtain rfl := Option.some.inj hw
  refine ⟨s', hrun, ⟨?_, hps, ?_⟩, hnone, hRw, hserved⟩
  · exact (reach_of_run_any hrun).invariant hi.device fun _ _ _ hi _ hs => (devStep_spec hi hs).1
  · exact coded_run hi.device hi.coded (reach_of_run (along_of_forall (setsCoded_acts r)) hrun)

/-- So are rounds one after the other. -/
theorem run_deviceRounds (hi : RoundInv chip s) (hidle : s.task = none) (hR : Pairs s t)
    {rounds : List (Round κ)}
    (hu : run Service.step t ((rounds.map Round.client).flatMap Service.round) = some u) :
    ∃ s', run (devStep chip A.val) s (rounds.flatMap (Round.acts chip)) = some s' ∧
      RoundInv chip s' ∧ s'.task = none ∧ Pairs s' u ∧ u.served = t.served ++
        answers (devStep chip A.val) handedPairs s (rounds.flatMap (Round.acts chip)) := by
  induction rounds generalizing s t with
  | nil =>
    obtain rfl := Option.some.inj hu
    exact ⟨s, rfl, hi, hidle, hR, (List.append_nil _).symm⟩
  | cons r rounds ih =>
    rw [List.map_cons, List.flatMap_cons, run_append] at hu
    obtain ⟨v, hv, hu⟩ := Option.bind_eq_some_iff.mp hu
    obtain ⟨x, hx, hix, hxidle, hRx, hserved⟩ := run_deviceRound (A := A) hi hidle hR hv
    obtain ⟨s', hs', hi', hidle', hR', hserved'⟩ := ih hix hxidle hRx hu
    refine ⟨s', ?_, hi', hidle', hR', ?_⟩
    · rw [List.flatMap_cons, run_append, hx]
      exact hs'
    · rw [List.flatMap_cons, answers_append hx, hserved', hserved, List.append_assoc]

theorem roundInv_reach {regs : RegFile} (h : Reach (devStep chip A.val)
    (fun s act => InTime s act ∧ SetsCoded s act) (initDevice κ regs) s) : RoundInv chip s := by
  obtain ⟨hi, hp⟩ := phaseInv_reach (h.mono fun _ _ hc => hc.1)
  exact ⟨hi, hp, codedInv_reach (h.mono fun _ _ hc => hc.2)⟩

/-- The service that has what waits on the device. -/
def waitingPairs (s : Device κ) : Pairing κ where
  left c := waiting s c .output
  right c := waiting s c .capture

omit [DecidableEq κ] in
theorem pairs_waiting (hidle : s.task = none) : Pairs s (waitingPairs s) :=
  ⟨fun _ => rfl, fun _ => rfl, by rw [hidle]; rfl⟩

end Rounds

/-- The device may run any list of jobs that takes no file more often than the file has pairs of
buffers. Every job ends as the encoder lets it, everything rests at the end, and each file has
got back as many pairs as it had jobs, from the heads of its queues and in their order. -/
theorem rounds_complete [DecidableEq κ] {chip : Chip} {A : DmaAlign} {regs : RegFile}
    {s : Device κ} (h : Reach (devStep chip A.val) (fun s act => InTime s act ∧ SetsCoded s act)
      (initDevice κ regs) s) (hidle : s.task = none) {rounds : List (Round κ)}
    (henough : ∀ c type, (rounds.map Round.client).count c ≤ (waiting s c type).length) :
    ∃ s', run (devStep chip A.val) s (rounds.flatMap (Round.acts chip)) = some s' ∧
      s'.task = none ∧ AtRest s' ∧ ∀ c,
        (∀ type, waiting s' c type =
          (waiting s c type).drop ((rounds.map Round.client).count c)) ∧
        ((answers (devStep chip A.val) handedPairs s (rounds.flatMap (Round.acts chip))).filter
          (·.1 = c)).map Prod.snd = ((waiting s c .output).zip (waiting s c .capture)).take
            ((rounds.map Round.client).count c) := by
  obtain ⟨u, hu, hadv⟩ := Service.run_rounds (s := waitingPairs s) rfl
    (fun c => henough c .output) fun c => henough c .capture
  obtain ⟨s', hs', hi', hidle', hR', hserved⟩ :=
    run_deviceRounds (A := A) (roundInv_reach h) hidle (pairs_waiting hidle) hu
  refine ⟨s', hs', hidle', hi'.phase.idle hidle', fun c => ⟨fun type => ?_, ?_⟩⟩
  · cases type with
    | output => exact (hR'.left_eq c).symm.trans (hadv.left c)
    | capture => exact (hR'.right_eq c).symm.trans (hadv.right c)
  · have hpairs := hadv.served c
    rw [Service.servedFor, hserved] at hpairs
    exact hpairs

/-- Each of two files queues a frame. -/
def twoClients : List (DevAct ℕ) := startFrame.dropLast ++ [
  .ioctl 1 (.reqbufs .output 1 fun _ _ => 0x20000),
  .ioctl 1 (.reqbufs .capture 1 fun _ _ => 0x90000),
  .ioctl 1 (.qbuf .output 0 fieldNone), .ioctl 1 (.qbuf .capture 0 fieldNone),
  .ioctl 1 (.streamon .output), .ioctl 1 (.streamon .capture)]

/-- The encoder reports on the second one, which comes first, and not on the other. -/
def bothRounds : List (Round ℕ) :=
  [⟨1, .report Rk3288.vepuRegInterruptFrameRdy 800⟩, ⟨0, .timeout⟩]

theorem rounds_complete_twoClients : ∃ s s',
    run (devStep .rk3288 64) (initDevice ℕ fun _ => 0) twoClients = some s ∧
      run (devStep .rk3288 64) s (bothRounds.flatMap (Round.acts .rk3288)) = some s' ∧
        AtRest s' := by
  have hrun : (run (devStep .rk3288 64) (initDevice ℕ fun _ => 0) twoClients).map
      (fun s => (s.task.isNone, (waiting s 0 .output).length, (waiting s 0 .capture).length,
        (waiting s 1 .output).length, (waiting s 1 .capture).length)) =
          some (true, 1, 1, 1, 1) := by decide +kernel
  obtain ⟨s, hs, hstate⟩ := Option.map_eq_some_iff.mp hrun
  simp only [Prod.mk.injEq] at hstate
  obtain ⟨hidle, hout, hcap, hout', hcap'⟩ := hstate
  have henough : ∀ c type,
      (bothRounds.map Round.client).count c ≤ (waiting s c type).length := by
    intro c type
    match c with
    | 0 => cases type <;> simp [bothRounds, hout, hcap]
    | 1 => cases type <;> simp [bothRounds, hout', hcap']
    | c + 2 => simp [bothRounds]
  obtain ⟨s', hs', -, hrest, -⟩ := rounds_complete (A := ⟨6, by decide⟩)
    (reach_of_run (by decide +kernel) hs) (Option.isNone_iff_eq_none.mp hidle) henough
  exact ⟨s, s', hs, hs', hrest⟩

end RockchipVpu.System
