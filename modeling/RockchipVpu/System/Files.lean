import RockchipVpu.System.Working

/-! One file of the device. Whatever step the device takes, a file that is open after it has
just been opened, is as it was, has made an ioctl or set its table, or has had its job started
or handed back. So what these keep of a file holds of every file of a reachable device. -/

namespace RockchipVpu.System

open Base Format Queue Hw Job

variable {κ : Type*}

/-- Length and result that a step ends the current job with. -/
def handedBack (chip : Chip) (s : Device κ) : DevAct κ → Option (U32 × BufResult)
  | .irq => some (s.hw.vepuIrq chip).1
  | .watchdog => some (0, .error)
  | _ => none

/-- What a step of the device makes of one file that stays open. -/
inductive FileExit (chip : Chip) (dmaAlign : U32) (s : Device κ) (c : κ) (file : Handle) :
    Handle → DevAct κ → Prop
  | same {act : DevAct κ} : FileExit chip dmaAlign s c file file act
  | table (qtable : JpegQuantization) :
      FileExit chip dmaAlign s c file { file with qtable := qtable } (.setCtrl c qtable)
  | ioctl {file' : Handle} {io : Ioctl} (h : file.ioctl dmaAlign io = some file') :
      FileExit chip dmaAlign s c file file' (.ioctl c io)
  | started {file' : Handle} {job : M2mJob} (h : file.deviceRun = some (file', job)) :
      FileExit chip dmaAlign s c file file' (.deviceRun c)
  | ended {act : DevAct κ} {t : Task κ} {bytesused : U32} {result : BufResult}
      (ht : s.task = some t) (hc : t.client = c) (hi : HandleInv chip file (some t.job))
      (hb : handedBack chip s act = some (bytesused, result)) :
      FileExit chip dmaAlign s c file (file.handBack t.job bytesused result t.job.src t.job.dst)
        act

section Exit

variable [DecidableEq κ] {chip : Chip} {A : DmaAlign} {s s' : Device κ} {c d : κ} {file' : Handle}

theorem handle_setHandle (s : Device κ) (c d : κ) (h : Option Handle) :
    (s.setHandle c h).handle d = if d = c then h else s.handle d := by
  simp only [Device.setHandle, Function.update_apply]

/-- Ending the current job touches the file of that job alone. -/
theorem fileExit_finish {u : Device κ} (hi : DeviceInv chip u) (hu : u.handle = s.handle)
    (ht : u.task = s.task) {act : DevAct κ} {bytesused : U32} {result : BufResult}
    (hb : handedBack chip s act = some (bytesused, result))
    (hs : u.finish bytesused result = some s') (hfile : s'.handle c = some file') :
    ∃ file, s.handle c = some file ∧ FileExit chip A.val s c file file' act := by
  rw [← hu]
  cases htask : u.task with
  | none =>
    rw [Device.finish, htask] at hs
    obtain rfl := Option.some.inj hs
    exact ⟨file', hfile, .same⟩
  | some t =>
    obtain ⟨h, hh, -⟩ := hi.task t htask
    have hinv := hi.handles t.client h hh
    rw [jobOf_client htask] at hinv
    rw [finish_eq hi htask hh] at hs
    obtain rfl := Option.some.inj hs
    simp only [handle_setHandle] at hfile
    split_ifs at hfile with hc
    · obtain rfl := Option.some.inj hfile
      exact ⟨h, hc ▸ hh, .ended (ht.symm.trans htask) hc.symm hinv hb⟩
    · exact ⟨file', hfile, .same⟩

/-- Setting the file of one client leaves the files of the others alone. -/
theorem fileExit_setHandle {h : Handle} (hfile : (s.setHandle d (some h)).handle c = some file')
    {act : DevAct κ} (hexit : c = d → ∃ file, s.handle c = some file ∧
      FileExit chip A.val s c file h act) :
    ∃ file, s.handle c = some file ∧ FileExit chip A.val s c file file' act := by
  rw [handle_setHandle] at hfile
  split_ifs at hfile with hc
  · obtain rfl := Option.some.inj hfile
    exact hexit hc
  · exact ⟨file', hfile, .same⟩

/-- A file that is open after a step. -/
theorem devStep_fileExit (hi : DeviceInv chip s) {act : DevAct κ}
    (hs : devStep chip A.val s act = some s') (hfile : s'.handle c = some file') :
    (∃ qtable, file' = openHandle chip qtable) ∨
      ∃ file, s.handle c = some file ∧ FileExit chip A.val s c file file' act := by
  cases act with
  | vpuOpen d qtable =>
    simp only [devStep] at hs
    split_ifs at hs
    obtain rfl := Option.some.inj hs
    rw [handle_setHandle] at hfile
    split_ifs at hfile
    · exact .inl ⟨qtable, (Option.some.inj hfile).symm⟩
    · exact .inr ⟨file', hfile, .same⟩
  | vpuRelease d =>
    simp only [devStep] at hs
    split_ifs at hs
    obtain rfl := Option.some.inj hs
    rw [handle_setHandle] at hfile
    split_ifs at hfile
    exact .inr ⟨file', hfile, .same⟩
  | setCtrl d qtable =>
    obtain ⟨h, hh, rfl⟩ := Option.map_eq_some_iff.mp hs
    refine .inr (fileExit_setHandle hfile ?_)
    rintro rfl
    exact ⟨h, hh, .table qtable⟩
  | ioctl d io =>
    obtain ⟨h, hh, hs⟩ := Option.bind_eq_some_iff.mp hs
    obtain ⟨h', hio, rfl⟩ := Option.map_eq_some_iff.mp hs
    refine .inr (fileExit_setHandle hfile ?_)
    rintro rfl
    exact ⟨h, hh, .ioctl hio⟩
  | deviceRun d =>
    simp only [devStep] at hs
    split_ifs at hs
    obtain ⟨h, hh, hs⟩ := Option.bind_eq_some_iff.mp hs
    obtain ⟨⟨h', job⟩, hrun, rfl⟩ := Option.map_eq_some_iff.mp hs
    refine .inr (fileExit_setHandle hfile ?_)
    rintro rfl
    exact ⟨h, hh, .started hrun⟩
  | call =>
    simp only [devStep] at hs
    split at hs
    · cases hs
    · obtain rfl := Option.some.inj hs
      exact .inr ⟨file', hfile, .same⟩
  | report status bits =>
    simp only [devStep] at hs
    split_ifs at hs
    obtain rfl := Option.some.inj hs
    exact .inr ⟨file', hfile, .same⟩
  | irq =>
    simp only [devStep] at hs
    split_ifs at hs
    have hack : DeviceInv chip { s with timer := false, hw := (s.hw.vepuIrq chip).2 } :=
      hi.congr rfl rfl
    exact .inr (fileExit_finish (s := s) hack rfl rfl rfl hs hfile)
  | watchdog =>
    simp only [devStep] at hs
    split_ifs at hs
    cases htask : s.task with
    | none =>
      rw [Device.watchdog, htask] at hs
      obtain rfl := Option.some.inj hs
      exact .inr ⟨file', hfile, .same⟩
    | some t =>
      rw [watchdog_eq hi (by rw [htask]; rfl)] at hs
      have hreset : DeviceInv chip
          { s with timer := false, hw := s.hw.writes chip (encReset chip) } := hi.congr rfl rfl
      exact .inr (fileExit_finish (s := s) hreset rfl rfl rfl hs hfile)

/-- What every step of a run keeps of a file holds of all files. -/
theorem files_invariant {C : Device κ → DevAct κ → Prop} {P : Handle → Prop} {regs : RegFile}
    (hopen : ∀ qtable, P (openHandle chip qtable))
    (hstep : ∀ {s s' : Device κ} {act : DevAct κ},
      Reach (devStep chip A.val) C (initDevice κ regs) s → C s act →
      devStep chip A.val s act = some s' → ∀ {c : κ} {file file' : Handle},
      s.handle c = some file → FileExit chip A.val s c file file' act → P file → P file')
    (h : Reach (devStep chip A.val) C (initDevice κ regs) s) :
    ∀ c file, s.handle c = some file → P file := by
  induction h with
  | start =>
    intro c file hfile
    cases hfile
  | next hreach hc hs ih =>
    intro c file' hfile
    have hexit := devStep_fileExit (deviceInv_reach hreach) hs hfile
    rcases hexit with ⟨qtable, rfl⟩ | ⟨file, hold, hexit⟩
    · exact hopen qtable
    · exact hstep hreach hc hs hold hexit (ih c file hold)

end Exit

end RockchipVpu.System
