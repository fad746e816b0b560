import RockchipVpu.Base.Simulation
import RockchipVpu.System.Device

/-! Files do not see each other. The device has one encoder for all of its files, and between
any two steps of one file all the others may step. What is left of the others in a file are the
moments when its jobs are started and the lengths and results they end with. So one file with its
current job is a machine of its own, whoever else has the device open. -/

namespace RockchipVpu.System

open Base Format Queue Hw Job

variable {κ : Type*}

/-! ### One file -/

structure OneFile where
  handle : Option Handle := none
  job : Option M2mJob := none

inductive FileAct
  | vpuOpen (qtable : JpegQuantization)
  | vpuRelease
  | setCtrl (qtable : JpegQuantization)
  | ioctl (io : Ioctl)
  | deviceRun
  | finish (bytesused : U32) (result : BufResult)

def fileStep (chip : Chip) (dmaAlign : U32) (f : OneFile) : FileAct → Option OneFile
  | .vpuOpen qtable =>
    if f.handle.isSome then none else some { f with handle := some (openHandle chip qtable) }
  | .vpuRelease => if f.job.isSome then none else some { f with handle := none }
  | .setCtrl qtable => f.handle.map fun h => { f with handle := some { h with qtable := qtable } }
  | .ioctl io => f.handle.bind fun h =>
    (h.ioctl dmaAlign io).map fun h => { f with handle := some h }
  | .deviceRun => f.handle.bind fun h =>
    h.deviceRun.map fun (h, job) => { handle := some h, job := some job }
  | .finish bytesused result => f.handle.bind fun h => f.job.bind fun job =>
    (h.jobFinish job bytesused result).map fun h => { handle := some h, job := none }

variable [DecidableEq κ]

/-- What the device holds for one of its files. -/
def fileOf (s : Device κ) (c : κ) : OneFile := ⟨s.handle c, s.jobOf c⟩

/-- The end of the current job, if it is one of this file. -/
def ended (s : Device κ) (c : κ) (outcome : U32 × BufResult) : List FileAct :=
  if (s.jobOf c).isSome then [.finish outcome.1 outcome.2] else []

/-- What a step of the device is to one of its files. -/
def fileActs (chip : Chip) (c : κ) (s : Device κ) : DevAct κ → List FileAct
  | .vpuOpen d qtable => if d = c then [.vpuOpen qtable] else []
  | .vpuRelease d => if d = c then [.vpuRelease] else []
  | .setCtrl d qtable => if d = c then [.setCtrl qtable] else []
  | .ioctl d io => if d = c then [.ioctl io] else []
  | .deviceRun d => if d = c then [.deviceRun] else []
  | .irq => ended s c (s.hw.vepuIrq chip).1
  | .watchdog => ended s c (0, .error)
  | .call | .report .. => []

/-! ### The device seen from one file -/

section View

variable {chip : Chip} {dmaAlign : U32} {s s' : Device κ} {c d : κ}

theorem fileOf_setHandle_self (s : Device κ) (c : κ) (h : Option Handle) :
    fileOf (s.setHandle c h) c = { fileOf s c with handle := h } := by
  unfold fileOf
  rw [OneFile.mk.injEq]
  exact ⟨Function.update_self .., rfl⟩

theorem fileOf_setHandle_of_ne (s : Device κ) (h : Option Handle) (hd : d ≠ c) :
    fileOf (s.setHandle d h) c = fileOf s c := by
  unfold fileOf
  rw [OneFile.mk.injEq]
  exact ⟨Function.update_of_ne hd.symm .., rfl⟩

/-- A step that changes one file is a step of that file and nothing to the others. -/
theorem run_setHandle {a : FileAct} {h : Option Handle}
    (ha : d = c → fileStep chip dmaAlign (fileOf s c) a = some { fileOf s c with handle := h }) :
    run (fileStep chip dmaAlign) (fileOf s c) (if d = c then [a] else []) =
      some (fileOf (s.setHandle d h) c) := by
  by_cases hd : d = c
  · rw [if_pos hd, run_singleton, ha hd, hd, fileOf_setHandle_self]
  · rw [if_neg hd, fileOf_setHandle_of_ne s h hd]
    rfl

/-- The end of a job is one for its file alone. -/
theorem run_finish {outcome : U32 × BufResult}
    (hs : s.finish outcome.1 outcome.2 = some s') :
    run (fileStep chip dmaAlign) (fileOf s c) (ended s c outcome) = some (fileOf s' c) := by
  cases ht : s.task with
  | none =>
    rw [Device.finish, ht] at hs
    obtain rfl := Option.some.inj hs
    rw [ended, jobOf_idle ht]
    rfl
  | some t =>
    rw [Device.finish, ht] at hs
    obtain ⟨h, hh, hs⟩ := Option.bind_eq_some_iff.mp hs
    obtain ⟨h', hfin, rfl⟩ := Option.map_eq_some_iff.mp hs
    by_cases hc : t.client = c
    · subst hc
      have hstep : fileStep chip dmaAlign (fileOf s t.client) (.finish outcome.1 outcome.2) =
          some { handle := some h', job := none } := by
        simp only [fileStep, fileOf, hh, jobOf_client ht, hfin, Option.bind_some, Option.map_some]
      rw [ended, jobOf_client ht, Option.isSome_some, if_pos rfl, run_singleton, hstep]
      simp [fileOf, Device.setHandle, Device.jobOf]
    · have hjob := jobOf_other ht hc
      rw [ended, hjob, Option.isSome_none, if_neg Bool.false_ne_true]
      simp [run, fileOf, ht, hc, Device.setHandle, Device.jobOf, Ne.symm hc]

theorem fileOf_step {act : DevAct κ} (hs : devStep chip dmaAlign s act = some s') :
    run (fileStep chip dmaAlign) (fileOf s c) (fileActs chip c s act) = some (fileOf s' c) := by
  cases act with
  | vpuOpen d qtable =>
    simp only [devStep] at hs
    split_ifs at hs with hopen
    obtain rfl := Option.some.inj hs
    apply run_setHandle
    rintro rfl
    exact if_neg hopen
  | vpuRelease d =>
    simp only [devStep] at hs
    split_ifs at hs with hjob
    obtain rfl := Option.some.inj hs
    apply run_setHandle
    rintro rfl
    exact if_neg hjob
  | setCtrl d qtable =>
    obtain ⟨h, hh, rfl⟩ := Option.map_eq_some_iff.mp hs
    apply run_setHandle
    rintro rfl
    simp only [fileStep, fileOf, hh, Option.map_some]
  | ioctl d io =>
    obtain ⟨h, hh, hs⟩ := Option.bind_eq_some_iff.mp hs
    obtain ⟨h', hio, rfl⟩ := Option.map_eq_some_iff.mp hs
    apply run_setHandle
    rintro rfl
    simp only [fileStep, fileOf, hh, hio, Option.bind_some, Option.map_some]
  | deviceRun d =>
    simp only [devStep] at hs
    split_ifs at hs with hidle
    have htask : s.task = none := by
      simp only [Bool.or_eq_true, not_or] at hidle
      simpa using hidle.1
    obtain ⟨h, hh, hs⟩ := Option.bind_eq_some_iff.mp hs
    obtain ⟨⟨h', job⟩, hrun, rfl⟩ := Option.map_eq_some_iff.mp hs
    by_cases hd : d = c
    · subst hd
      have hstep : fileStep chip dmaAlign (fileOf s d) .deviceRun =
          some { handle := some h', job := some job } := by
        simp only [fileStep, fileOf, hh, hrun, Option.bind_some, Option.map_some]
      rw [fileActs, if_pos rfl, run_singleton, hstep]
      simp [fileOf, Device.setHandle, Device.jobOf]
    · rw [fileActs, if_neg hd]
      simp [run, fileOf, htask, Device.setHandle, Device.jobOf, hd, Ne.symm hd]
  | call =>
    simp only [devStep] at hs
    split at hs
    · cases hs
    · obtain rfl := Option.some.inj hs
      rfl
  | report status bits =>
    simp only [devStep] at hs
    split_ifs at hs
    obtain rfl := Option.some.inj hs
    rfl
  | irq =>
    simp only [devStep] at hs
    split_ifs at hs
    exact run_finish (s := { s with timer := false, hw := (s.hw.vepuIrq chip).2 }) hs
  | watchdog =>
    simp only [devStep] at hs
    split_ifs at hs
    unfold Device.watchdog at hs
    split at hs
    next htask =>
      obtain rfl := Option.some.inj hs
      rw [fileActs, ended, jobOf_idle htask]
      rfl
    next t htask =>
      obtain ⟨h, hh, hs⟩ := Option.bind_eq_some_iff.mp hs
      obtain ⟨ws, -, hs⟩ := Option.bind_eq_some_iff.mp hs
      exact run_finish (s := { s with timer := false, hw := s.hw.writes chip ws }) hs

/-- Each file of the device is a machine of its own. -/
theorem file_simulates (chip : Chip) (dmaAlign : U32) (c : κ) :
    Simulates (devStep chip dmaAlign) AnyStep (fileStep chip dmaAlign) (fileActs chip c)
      fun s f => f = fileOf s c where
  answered := by
    rintro s t act f rfl - hs
    exact ⟨_, fileOf_step hs, rfl⟩

end View

/-- Two devices, with whatever other files, registers and order of steps: when one file of each
sees the same calls and the same outcomes of its jobs, the two files are in the same state, down
to the buffers, the history and the register program of the current job. -/
theorem files_isolated {κ' : Type*} [DecidableEq κ'] {chip : Chip} {dmaAlign : U32}
    {regs regs' : RegFile} {as : List (DevAct κ)} {bs : List (DevAct κ')} {s : Device κ}
    {t : Device κ'} {c : κ} {d : κ'}
    (hs : run (devStep chip dmaAlign) (initDevice κ regs) as = some s)
    (ht : run (devStep chip dmaAlign) (initDevice κ' regs') bs = some t)
    (hsame : answers (devStep chip dmaAlign) (fileActs chip c) (initDevice κ regs) as =
      answers (devStep chip dmaAlign) (fileActs chip d) (initDevice κ' regs') bs) :
    fileOf s c = fileOf t d := by
  obtain ⟨f, hf, rfl⟩ := (file_simulates chip dmaAlign c).run rfl (along_any _ as) hs
  obtain ⟨g, hg, rfl⟩ := (file_simulates chip dmaAlign d).run rfl (along_any _ bs) ht
  have hinit : fileOf (initDevice κ regs) c = fileOf (initDevice κ' regs') d := rfl
  rw [hsame, hinit, hg] at hf
  exact (Option.some.inj hf).symm

/-- A job of file 0 starts, with another file that streams and sets its table. -/
def sharedStart : List (DevAct ℕ) :=
  startFrame ++ [.ioctl 1 (.streamon .output), .call, .setCtrl 1 ⟨fun _ => 3, fun _ => 3⟩]

/-- The same job with nobody else. -/
def loneStart : List (DevAct Unit) := [
  .vpuOpen () ⟨fun _ => 1, fun _ => 1⟩,
  .ioctl () (.reqbufs .output 1 fun _ _ => 0x10000),
  .ioctl () (.reqbufs .capture 1 fun _ _ => 0x80000),
  .ioctl () (.qbuf .output 0 fieldNone), .ioctl () (.qbuf .capture 0 fieldNone),
  .ioctl () (.streamon .output), .ioctl () (.streamon .capture), .deviceRun ()]

theorem files_isolated_start : ∃ s t,
    run (devStep .rk3288 64) (initDevice ℕ fun _ => 0) sharedStart = some s ∧
      run (devStep .rk3288 64) (initDevice Unit fun _ => 0xff) loneStart = some t ∧
        fileOf s 0 = fileOf t () := by
  have hshared : (run (devStep .rk3288 64) (initDevice ℕ fun _ => 0) sharedStart).isSome := by
    decide +kernel
  have hlone : (run (devStep .rk3288 64) (initDevice Unit fun _ => 0xff) loneStart).isSome := by
    decide +kernel
  obtain ⟨s, hs⟩ := Option.isSome_iff_exists.mp hshared
  obtain ⟨t, ht⟩ := Option.isSome_iff_exists.mp hlone
  exact ⟨s, t, hs, ht, files_isolated hs ht rfl⟩

end RockchipVpu.System
