import RockchipVpu.System.Task

/-! The encoder device: any number of open files, the one job that mem2mem runs at a time, the
run function that is still making its calls, the watchdog and the encoder block. The ioctls of
all files, the calls of the run function, the encoder's report, the interrupt handler and the
watchdog come in any order. In every state of the device the buffers of every file are
accounted for, whatever the others do. -/

namespace RockchipVpu.System

open Base Format Queue Hw Job

variable {κ : Type*}

/-! ### The device -/

/-- The current job, with the table its run function has found. -/
structure Task (κ : Type*) where
  client : κ
  job : M2mJob
  qtable : JpegQuantization

structure Device (κ : Type*) where
  handle : κ → Option Handle := fun _ => none
  task : Option (Task κ) := none
  calls : List Call := []
  timer : Bool := false
  hw : EncoderHw

/-- The device after probe, with whatever the registers hold. -/
def initDevice (κ : Type*) (regs : RegFile) : Device κ where
  hw := { regs := regs }

inductive DevAct (κ : Type*)
  | vpuOpen (c : κ) (qtable : JpegQuantization)
  | vpuRelease (c : κ)
  | setCtrl (c : κ) (qtable : JpegQuantization)
  | ioctl (c : κ) (io : Ioctl)
  | deviceRun (c : κ)
  | call
  | report (status bits : U32)
  | irq
  | watchdog

variable [DecidableEq κ]

namespace Device

def setHandle (s : Device κ) (c : κ) (h : Option Handle) : Device κ :=
  { s with handle := Function.update s.handle c h }

/-- The current job, if it is one of this file. -/
def jobOf (s : Device κ) (c : κ) : Option M2mJob :=
  match s.task with
  | some t => if t.client = c then some t.job else none
  | none => none

/-- `rockchip_vpu_job_finish` for the current context, if there is one. -/
def finish (s : Device κ) (bytesused : U32) (result : BufResult) : Option (Device κ) :=
  match s.task with
  | none => some s
  | some t => (s.handle t.client).bind fun h =>
    (h.jobFinish t.job bytesused result).map fun h =>
      { s.setHandle t.client (some h) with task := none }

/-- `rockchip_vpu_irq_done`, called by the interrupt handler of the chip. -/
def irq (chip : Chip) (s : Device κ) : Option (Device κ) :=
  let ((bytesused, result), hw) := s.hw.vepuIrq chip
  { s with timer := false, hw := hw }.finish bytesused result

/-- What `ctx->codec_ops->reset` writes. -/
def watchdogReset (h : Handle) : Option (List Write) := do
  let ops ← h.node.ctx.codecOps
  let reset ← ops.reset
  resetWrites reset

/-- `rockchip_vpu_watchdog`. -/
def watchdog (chip : Chip) (s : Device κ) : Option (Device κ) :=
  match s.task with
  | none => some { s with timer := false }
  | some t => (s.handle t.client).bind fun h => (watchdogReset h).bind fun writes =>
    { s with timer := false, hw := s.hw.writes chip writes }.finish 0 .error

end Device

/-- A file is closed when its job has ended. mem2mem starts a job when none is current and, as is
assumed of it, the run function of the last one has returned. -/
def devStep (chip : Chip) (dmaAlign : U32) (s : Device κ) : DevAct κ → Option (Device κ)
  | .vpuOpen c qtable =>
    if (s.handle c).isSome then none else some (s.setHandle c (some (openHandle chip qtable)))
  | .vpuRelease c => if (s.jobOf c).isSome then none else some (s.setHandle c none)
  | .setCtrl c qtable =>
    (s.handle c).map fun h => s.setHandle c (some { h with qtable := qtable })
  | .ioctl c io => (s.handle c).bind fun h =>
    (h.ioctl dmaAlign io).map fun h => s.setHandle c (some h)
  | .deviceRun c =>
    if s.task.isSome || !s.calls.isEmpty then none
    else (s.handle c).bind fun h => h.deviceRun.map fun (h', job) =>
      { s.setHandle c (some h') with
        task := some ⟨c, job, h.qtable⟩
        calls := runCalls job.program }
  | .call => match s.calls with
    | [] => none
    | x :: calls =>
      let (hw, timer) := x.make chip s.hw s.timer
      some { s with calls := calls, hw := hw, timer := timer }
  | .report status bits =>
    if s.hw.working then some { s with hw := s.hw.report chip status bits } else none
  | .irq => if s.hw.raised then s.irq chip else none
  | .watchdog => if s.timer then s.watchdog chip else none

/-! ### The invariant of all files -/

structure DeviceInv (chip : Chip) (s : Device κ) : Prop where
  handles : ∀ c h, s.handle c = some h → HandleInv chip h (s.jobOf c)
  task : ∀ t, s.task = some t → ∃ h, s.handle t.client = some h ∧
    Launched chip h.node.ctx t.qtable t.job

section Invariant

variable {chip : Chip} {s s' : Device κ} {c : κ} {h h' : Handle}

theorem jobOf_idle (ht : s.task = none) (c : κ) : s.jobOf c = none := by
  rw [Device.jobOf, ht]

theorem jobOf_client {t : Task κ} (ht : s.task = some t) : s.jobOf t.client = some t.job := by
  rw [Device.jobOf, ht]
  exact if_pos rfl

theorem jobOf_other {t : Task κ} (ht : s.task = some t) (hc : t.client ≠ c) :
    s.jobOf c = none := by
  rw [Device.jobOf, ht]
  exact if_neg hc

theorem deviceInv_init (chip : Chip) (regs : RegFile) : DeviceInv chip (initDevice κ regs) where
  handles c h hh := by cases hh
  task t ht := by cases ht

/-- One file changes, its job stays. -/
theorem DeviceInv.setHandle (hi : DeviceInv chip s) (hinv : HandleInv chip h' (s.jobOf c))
    (hprog : ∀ t, s.task = some t → t.client = c → Launched chip h'.node.ctx t.qtable t.job) :
    DeviceInv chip (s.setHandle c (some h')) where
  handles d g hg := by
    by_cases hd : d = c
    · subst hd
      simp only [Device.setHandle, Function.update_self] at hg
      obtain rfl := Option.some.inj hg
      exact hinv
    · simp only [Device.setHandle, Function.update_of_ne hd] at hg
      exact hi.handles d g hg
  task t ht := by
    by_cases hc : t.client = c
    · exact ⟨h', by simp [Device.setHandle, hc], hprog t ht hc⟩
    · obtain ⟨g, hg, hp⟩ := hi.task t ht
      exact ⟨g, by simpa [Device.setHandle, hc] using hg, hp⟩

/-- The invariant reads the files and the current job. -/
theorem DeviceInv.congr (hi : DeviceInv chip s) (hh : s'.handle = s.handle)
    (ht : s'.task = s.task) : DeviceInv chip s' where
  handles c h hc := by
    rw [Device.jobOf, ht]
    exact hi.handles c h (hh ▸ hc)
  task t htask := by
    rw [hh]
    exact hi.task t (ht ▸ htask)

/-- The current job ends: its buffers go back to its file. -/
theorem finish_eq (hi : DeviceInv chip s) {t : Task κ} (ht : s.task = some t)
    (hh : s.handle t.client = some h) (bytesused : U32) (result : BufResult) :
    s.finish bytesused result = some
      { s.setHandle t.client (some (h.handBack t.job bytesused result t.job.src t.job.dst)) with
        task := none } := by
  have hinv := hi.handles t.client h hh
  rw [jobOf_client ht] at hinv
  rw [Device.finish, ht]
  simp only [hh, Option.bind_some, jobFinish_eq hinv bytesused result, Option.map_some]

/-- Ending the current job leaves the other files alone. -/
theorem deviceInv_finish (hi : DeviceInv chip s) (bytesused : U32) (result : BufResult) :
    ∃ s', s.finish bytesused result = some s' ∧ DeviceInv chip s' ∧ s'.task = none ∧
      s'.calls = s.calls ∧ s'.timer = s.timer ∧ s'.hw = s.hw := by
  cases ht : s.task with
  | none => exact ⟨s, by rw [Device.finish, ht], hi, ht, rfl, rfl, rfl⟩
  | some t =>
    obtain ⟨h, hh, -⟩ := hi.task t ht
    have hinv := hi.handles t.client h hh
    rw [jobOf_client ht] at hinv
    refine ⟨_, finish_eq hi ht hh bytesused result, ⟨fun c g hg => ?_, fun t' ht' => ?_⟩, rfl, rfl,
      rfl, rfl⟩
    · by_cases hc : c = t.client
      · subst hc
        simp only [Device.setHandle, Function.update_self] at hg
        obtain rfl := Option.some.inj hg
        exact handleInv_handBack hinv bytesused result
      · simp only [Device.setHandle, Function.update_of_ne hc] at hg
        have hother := hi.handles c g hg
        rwa [jobOf_other ht (Ne.symm hc)] at hother
    · cases ht'

/-- The watchdog finds the reset function of the chip. -/
theorem watchdog_eq (hi : DeviceInv chip s) (ht : s.task.isSome) : s.watchdog chip =
    { s with timer := false, hw := s.hw.writes chip (encReset chip) }.finish 0 .error := by
  obtain ⟨t, ht⟩ := Option.isSome_iff_exists.mp ht
  obtain ⟨h, hh, hl⟩ := hi.task t ht
  have hinv := hi.handles t.client h hh
  rw [jobOf_client ht] at hinv
  obtain ⟨ops, hops⟩ := Option.isSome_iff_exists.mp hl.ops
  have hown := hinv.ownsHeads
  obtain ⟨run, reset, rfl, -, hreset⟩ := hinv.codecOps hown.src_streaming hown.dst_streaming hops
  have hwrites : Device.watchdogReset h = some (encReset chip) := by
    simp only [Device.watchdogReset, hops, hreset, Option.bind_eq_bind, Option.bind_some]
  rw [Device.watchdog, ht]
  simp only [hh, Option.bind_some, hwrites]

/-! ### Steps -/

/-- What a step makes of the current job, the calls of the run function, the watchdog and the
encoder. -/
inductive DevExit (chip : Chip) (s s' : Device κ) : DevAct κ → Prop
  | files {act : DevAct κ} (ht : s'.task = s.task) (hc : s'.calls = s.calls)
      (hw : s'.hw = s.hw) (htimer : s'.timer = s.timer) : DevExit chip s s' act
  | started {c : κ} (t : Task κ) (hidle : s.task = none) (hcalls : s.calls = [])
      (ht : s'.task = some t) (hc : s'.calls = runCalls t.job.program) (hw : s'.hw = s.hw)
      (htimer : s'.timer = s.timer) (hfile : (s.handle c).map Handle.qtable = some t.qtable) :
      DevExit chip s s' (.deviceRun c)
  | call (x : Call) (hcalls : s.calls = x :: s'.calls) (ht : s'.task = s.task)
      (hw : (s'.hw, s'.timer) = x.make chip s.hw s.timer) : DevExit chip s s' .call
  | report {status bits : U32} (hworking : s.hw.working = true) (ht : s'.task = s.task)
      (hc : s'.calls = s.calls) (hw : s'.hw = s.hw.report chip status bits)
      (htimer : s'.timer = s.timer) : DevExit chip s s' (.report status bits)
  | irq (hraised : s.hw.raised = true) (ht : s'.task = none) (hc : s'.calls = s.calls)
      (hw : s'.hw = (s.hw.vepuIrq chip).2) (htimer : s'.timer = false) : DevExit chip s s' .irq
  | watchdog (hrun : s.timer = true) (ht : s'.task = none) (hc : s'.calls = s.calls)
      (hw : s'.hw = if s.task.isSome then s.hw.writes chip (encReset chip) else s.hw)
      (htimer : s'.timer = false) : DevExit chip s s' .watchdog

/-- The invariant is kept by every step of the device. -/
theorem devStep_spec {A : DmaAlign} (hi : DeviceInv chip s) {act : DevAct κ}
    (hs : devStep chip A.val s act = some s') : DeviceInv chip s' ∧ DevExit chip s s' act := by
  cases act with
  | vpuOpen c qtable =>
    simp only [devStep] at hs
    split_ifs at hs with hopen
    obtain rfl := Option.some.inj hs
    have hclosed : s.handle c = none := by simpa using hopen
    have hidle : ∀ t, s.task = some t → t.client ≠ c := by
      rintro t ht rfl
      obtain ⟨h, hh, -⟩ := hi.task t ht
      cases hclosed.symm.trans hh
    have hjob : s.jobOf c = none := by
      cases ht : s.task with
      | none => exact jobOf_idle ht c
      | some t => exact jobOf_other ht (hidle t ht)
    refine ⟨hi.setHandle (hjob ▸ handleInv_open chip qtable) ?_, .files rfl rfl rfl rfl⟩
    exact fun t ht hc => absurd hc (hidle t ht)
  | vpuRelease c =>
    simp only [devStep] at hs
    split_ifs at hs with hjob
    obtain rfl := Option.some.inj hs
    refine ⟨⟨fun d g hg => ?_, fun t ht => ?_⟩, .files rfl rfl rfl rfl⟩
    · by_cases hd : d = c
      · subst hd
        simp [Device.setHandle] at hg
      · simp only [Device.setHandle, Function.update_of_ne hd] at hg
        exact hi.handles d g hg
    · have hc : t.client ≠ c := by
        rintro rfl
        exact hjob (by rw [jobOf_client (show s.task = some t from ht)]; rfl)
      obtain ⟨g, hg, hl⟩ := hi.task t ht
      exact ⟨g, by simpa [Device.setHandle, hc] using hg, hl⟩
  | setCtrl c qtable =>
    obtain ⟨h, hh, rfl⟩ := Option.map_eq_some_iff.mp hs
    refine ⟨hi.setHandle ((hi.handles c h hh).setTable qtable) ?_, .files rfl rfl rfl rfl⟩
    rintro t ht rfl
    obtain ⟨g, hg, hl⟩ := hi.task t ht
    obtain rfl := Option.some.inj (hh.symm.trans hg)
    exact hl
  | ioctl c io =>
    obtain ⟨h, hh, hs⟩ := Option.bind_eq_some_iff.mp hs
    obtain ⟨h', hio, rfl⟩ := Option.map_eq_some_iff.mp hs
    have hinv := hi.handles c h hh
    refine ⟨hi.setHandle (handleInv_ioctl hinv hio) ?_, .files rfl rfl rfl rfl⟩
    rintro t ht rfl
    obtain ⟨g, hg, hl⟩ := hi.task t ht
    obtain rfl := Option.some.inj (hh.symm.trans hg)
    rw [jobOf_client ht] at hinv
    exact hl.ioctl hinv hio
  | deviceRun c =>
    simp only [devStep] at hs
    split_ifs at hs with hidle
    obtain ⟨h, hh, hs⟩ := Option.bind_eq_some_iff.mp hs
    obtain ⟨⟨h', job⟩, hrun, rfl⟩ := Option.map_eq_some_iff.mp hs
    obtain ⟨htask, hcalls⟩ : s.task = none ∧ s.calls = [] := by simpa using hidle
    have hinv := hi.handles c h hh
    rw [jobOf_idle htask] at hinv
    obtain ⟨hinv', hl⟩ := deviceRun_spec hinv hrun
    refine ⟨⟨fun d g hg => ?_, fun t ht => ?_⟩,
      .started ⟨c, job, h.qtable⟩ htask hcalls rfl rfl rfl rfl (by rw [hh]; rfl)⟩
    · by_cases hd : d = c
      · subst hd
        simp only [Device.setHandle, Function.update_self] at hg
        obtain rfl := Option.some.inj hg
        simpa [Device.jobOf] using hinv'
      · simp only [Device.setHandle, Function.update_of_ne hd] at hg
        have hother := hi.handles d g hg
        rw [jobOf_idle htask] at hother
        simpa [Device.jobOf, Ne.symm hd] using hother
    · obtain rfl := Option.some.inj ht
      exact ⟨h', by simp [Device.setHandle], hl⟩
  | call =>
    simp only [devStep] at hs
    split at hs
    · cases hs
    · next x calls hcalls =>
      obtain rfl := Option.some.inj hs
      exact ⟨hi.congr rfl rfl, .call x hcalls rfl rfl⟩
  | report status bits =>
    simp only [devStep] at hs
    split_ifs at hs with hworking
    obtain rfl := Option.some.inj hs
    exact ⟨hi.congr rfl rfl, .report hworking rfl rfl rfl rfl⟩
  | irq =>
    simp only [devStep] at hs
    split_ifs at hs with hraised
    have hack : DeviceInv chip { s with timer := false, hw := (s.hw.vepuIrq chip).2 } :=
      hi.congr rfl rfl
    obtain ⟨u, hu, hinv, ht, hc, htimer, hw⟩ := deviceInv_finish hack (s.hw.vepuIrq chip).1.1
      (s.hw.vepuIrq chip).1.2
    obtain rfl := Option.some.inj (hu.symm.trans hs)
    exact ⟨hinv, .irq hraised ht hc hw htimer⟩
  | watchdog =>
    simp only [devStep] at hs
    split_ifs at hs with hrun
    cases htask : s.task with
    | none =>
      rw [Device.watchdog, htask] at hs
      obtain rfl := Option.some.inj hs
      exact ⟨hi.congr rfl htask.symm, .watchdog hrun rfl rfl (by simp [htask]) rfl⟩
    | some t =>
      rw [watchdog_eq hi (by rw [htask]; rfl)] at hs
      have hreset : DeviceInv chip
          { s with timer := false, hw := s.hw.writes chip (encReset chip) } := hi.congr rfl rfl
      obtain ⟨u, hu, hinv, ht, hc, htimer, hw⟩ := deviceInv_finish hreset 0 .error
      obtain rfl := Option.some.inj (hu.symm.trans hs)
      exact ⟨hinv, .watchdog hrun ht hc (by rw [htask]; exact hw) htimer⟩

theorem deviceInv_reach {A : DmaAlign} {regs : RegFile} {C : Device κ → DevAct κ → Prop}
    (h : Reach (devStep chip A.val) C (initDevice κ regs) s) : DeviceInv chip s :=
  h.invariant (deviceInv_init chip regs) fun _ _ _ hi _ hs => (devStep_spec hi hs).1

end Invariant

/-- In every state of the device, whatever its files do and however the run function, the
encoder, the interrupt handler and the watchdog interleave with them, the buffers of each file
are accounted for: none is lost, duplicated, or handed back by the job of another file. -/
theorem files_accounted (chip : Chip) (A : DmaAlign) {regs : RegFile} {s : Device κ}
    (h : Reach (devStep chip A.val) AnyStep (initDevice κ regs) s) (c : κ) (file : Handle)
    (hc : s.handle c = some file) : Accounted (file.session (s.jobOf c)) :=
  ((deviceInv_reach h).handles c file hc).session.toAccounted

/-- Two files are opened, and the first starts a job with one buffer on each of its queues. -/
def startFrame : List (DevAct ℕ) := [
  .vpuOpen 0 ⟨fun _ => 1, fun _ => 1⟩, .vpuOpen 1 ⟨fun _ => 2, fun _ => 2⟩,
  .ioctl 0 (.reqbufs .output 1 fun _ _ => 0x10000),
  .ioctl 0 (.reqbufs .capture 1 fun _ _ => 0x80000),
  .ioctl 0 (.qbuf .output 0 fieldNone), .ioctl 0 (.qbuf .capture 0 fieldNone),
  .ioctl 0 (.streamon .output), .ioctl 0 (.streamon .capture), .deviceRun 0]

/-- The job of the first file is current. -/
theorem files_accounted_startFrame : ∃ s file,
    run (devStep .rk3288 64) (initDevice ℕ fun _ => 0) startFrame = some s ∧
      s.handle 0 = some file ∧ Accounted (file.session (s.jobOf 0)) := by
  have hsome : ((run (devStep .rk3288 64) (initDevice ℕ fun _ => 0) startFrame).bind
      fun s => s.handle 0).isSome := by decide +kernel
  obtain ⟨file, h⟩ := Option.isSome_iff_exists.mp hsome
  obtain ⟨s, hs, hfile⟩ := Option.bind_eq_some_iff.mp h
  exact ⟨s, file, hs, hfile,
    files_accounted .rk3288 ⟨6, by decide⟩ (reach_of_run_any hs) 0 file hfile⟩

end RockchipVpu.System
