import RockchipVpu.Format.Kind
import RockchipVpu.System.Files

/-! What the device never gets stuck on. The driver follows pointers without a test: to the
format descriptors, to the codec operations and their functions, and to the buffers of the
job. If no S_FMT sets a raw format as the destination, every step that user space, mem2mem or
the encoder asks for finds all of them; and from any state a current job can be brought to its
end by the calls that are left, the report of the encoder and the interrupt handler. -/

namespace RockchipVpu.System

open Base Format Queue Hw Job

variable {κ : Type*}

/-! ### Ioctls -/

section Ioctls

variable {chip : Chip} {node : Node}

/-- Both descriptors are there, so a format ioctl has a result. -/
theorem vidiocSFmt_defined {ctx : Ctx} (hc : Consistent chip.variant ctx) (dmaAlign : U32)
    (q : Queues) (type : BufType) (f : PixFormatMplane) :
    (vidiocSFmt dmaAlign q ctx type f).isSome := by
  obtain ⟨hv, -, -, dst, -, -, hdst, -, -⟩ := hc
  cases type with
  | output =>
    have htry : vidiocTryFmtOut dmaAlign { ctx with colorimetry := f.colorimetry } f = _ :=
      vidiocTryFmtOut_eq hv dmaAlign hdst f
    simp only [vidiocSFmt, vidiocSFmtOut, htry]
    split_ifs <;> rfl
  | capture =>
    have htry : vidiocTryFmtCap { ctx with colorimetry := f.colorimetry } f = _ :=
      vidiocTryFmtCap_eq hv f
    have hfind := findFormat_chosenFmt chip true f.pixelformat
    rw [← hv, ← (dstMatches_tryFmtCap (by exact hv) htry).pixelformat_eq] at hfind
    simp only [vidiocSFmt, vidiocSFmtCap, htry]
    split_ifs
    · rfl
    · rfl
    · rw [Option.isSome_map]
      exact Option.isSome_iff_exists.mpr ⟨_, encResetSrcFmt_eq (by exact hv) hfind⟩

theorem queueFormat_defined {ctx : Ctx} (hc : Consistent chip.variant ctx) (type : BufType) :
    ∃ fmt pixfmt, queueFormat ctx type = (some fmt, pixfmt) := by
  obtain ⟨-, src, -, dst, -, hsrc, hdst, -, -⟩ := hc
  cases type with
  | output => exact ⟨src, ctx.srcFmt, by rw [queueFormat, hsrc]⟩
  | capture => exact ⟨dst, ctx.dstFmt, by rw [queueFormat, hdst]⟩

theorem queueSetup_defined {ctx : Ctx} (hc : Consistent chip.variant ctx) (type : BufType) (n : ℕ)
    (sizes : Plane → U32) : ∃ r, queueSetup ctx type n sizes = some r := by
  obtain ⟨fmt, pixfmt, h⟩ := queueFormat_defined hc type
  simp only [queueSetup, h, Option.bind_eq_bind, Option.bind_some]
  split_ifs <;> exact ⟨_, rfl⟩

theorem bufPrepare_defined {ctx : Ctx} (hc : Consistent chip.variant ctx) (type : BufType)
    (vb : Vb2Buffer) : ∃ r, bufPrepare ctx type vb = some r := by
  obtain ⟨fmt, pixfmt, h⟩ := queueFormat_defined hc type
  cases type with
  | capture => exact ⟨_, by simp only [bufPrepare, h]; rfl⟩
  | output =>
    simp only [bufPrepare, h]
    split_ifs <;> exact ⟨_, rfl⟩

theorem startStreaming_defined {ctx : Ctx} (hc : Consistent chip.variant ctx) (type : BufType) :
    ∃ ctx', startStreaming type ctx = some ctx' := by
  obtain ⟨-, -, -, dst, -, -, hdst, -, -⟩ := hc
  cases type <;>
  · simp only [startStreaming, hdst, Option.bind_eq_bind, Option.bind_some]
    exact ⟨_, rfl⟩

/-- Every ioctl is answered, except that STREAMOFF waits for the job. -/
theorem nodeStep_defined (hc : Consistent chip.variant node.ctx) (dmaAlign : U32) (io : Ioctl)
    (hoff : ∀ type, io = .streamoff type → node.running = false) :
    ∃ node', nodeStep dmaAlign node io.act = some node' := by
  cases io with
  | sFmt type f =>
    obtain ⟨r, hr⟩ := Option.isSome_iff_exists.mp
      (vidiocSFmt_defined hc dmaAlign node.queues type f)
    exact ⟨_, by simp only [Ioctl.act, nodeStep, hr]; rfl⟩
  | reqbufs type count addr =>
    obtain ⟨r, hr⟩ := queueSetup_defined hc type 0 fun _ => 0
    simp only [Ioctl.act, nodeStep, reqbufs, hr, Option.bind_eq_bind, Option.bind_some]
    split_ifs <;> exact ⟨_, rfl⟩
  | createBufs type count n sizes addr =>
    obtain ⟨r, hr⟩ := queueSetup_defined hc type n sizes
    simp only [Ioctl.act, nodeStep, createBufs, hr]
    split_ifs
    · exact ⟨_, rfl⟩
    · obtain ⟨r, n', sizes'⟩ := r
      cases r <;> exact ⟨_, rfl⟩
  | prepareBuf type i field =>
    simp only [Ioctl.act, nodeStep, prepareBuf]
    split
    · next vb hb =>
      obtain ⟨⟨r, vb'⟩, hr⟩ := bufPrepare_defined hc type { vb with field := field }
      rw [hr]
      cases r <;> exact ⟨_, rfl⟩
    · exact ⟨_, rfl⟩
  | qbuf type i field =>
    simp only [Ioctl.act, nodeStep, qbuf]
    split
    · next vb hb =>
      obtain ⟨⟨r, vb'⟩, hr⟩ := bufPrepare_defined hc type { vb with field := field }
      rw [hr]
      cases r <;> exact ⟨_, rfl⟩
    · exact ⟨_, rfl⟩
    · exact ⟨_, rfl⟩
  | dqbuf type i => exact ⟨_, rfl⟩
  | streamon type =>
    obtain ⟨ctx', hctx⟩ := startStreaming_defined hc type
    simp only [Ioctl.act, nodeStep, Queue.streamon, hctx, Option.bind_eq_bind, Option.bind_some]
    split_ifs <;> exact ⟨_, rfl⟩
  | streamoff type =>
    simp only [Ioctl.act, nodeStep, Queue.streamoff, hoff type rfl, Bool.false_eq_true, if_false]
    exact ⟨_, rfl⟩

end Ioctls

/-! ### Coded destinations -/

/-- An S_FMT(CAPTURE) that does more than being refused names no raw format. -/
def NamesCoded (node : Node) (f : PixFormatMplane) : Prop :=
  SFmtCapBusy node.queues node.ctx f ∨
    ∀ fmt ∈ node.ctx.variant.encFmts, fmt.fourcc = f.pixelformat → fmt.codecMode ≠ .none

def SetsCoded (s : Device κ) : DevAct κ → Prop
  | .ioctl c (.sFmt .capture f) => ∀ file ∈ s.handle c, NamesCoded file.node f
  | _ => True

instance (s : Device κ) : (act : DevAct κ) → Decidable (SetsCoded s act)
  | .ioctl c (.sFmt .capture f) =>
    inferInstanceAs (Decidable (∀ file ∈ s.handle c, SFmtCapBusy _ _ f ∨ _))
  | .ioctl _ (.sFmt .output _) | .ioctl _ (.reqbufs ..) | .ioctl _ (.createBufs ..)
  | .ioctl _ (.prepareBuf ..) | .ioctl _ (.qbuf ..) | .ioctl _ (.dqbuf ..)
  | .ioctl _ (.streamon _) | .ioctl _ (.streamoff _) | .vpuOpen .. | .vpuRelease _ | .setCtrl ..
  | .deviceRun _ | .call | .report .. | .irq | .watchdog => inferInstanceAs (Decidable True)

/-- The destination is a coded format. -/
def CodedInv (node : Node) : Prop := ∃ dst, node.ctx.vpuDstFmt = some dst ∧ dst.codecMode ≠ .none

section Coded

variable {chip : Chip} {A : DmaAlign}

theorem codedInv_opened (chip : Chip) : CodedInv (openedNode chip) :=
  (kindInvariant_opened chip).dst_codec

/-- The destination descriptor changes by S_FMT(CAPTURE) alone. -/
theorem codedInv_sFmt {node : Node} (hc : Consistent chip.variant node.ctx) (hi : CodedInv node)
    {type : BufType} {f f' : PixFormatMplane} {r : Ret} {ctx' : Ctx}
    (hk : type = .capture → NamesCoded node f)
    (h : vidiocSFmt A.val node.queues node.ctx type f = some (r, ctx', f')) :
    ∃ dst, ctx'.vpuDstFmt = some dst ∧ dst.codecMode ≠ .none := by
  have hv := hc.variant_eq
  cases type with
  | output => cases vidiocSFmtOut_exit h <;> exact hi
  | capture =>
    cases vidiocSFmtCap_exit h with
    | streaming => exact hi
    | peerBusy => exact hi
    | stored hq ht hr =>
      obtain rfl := sFmtCap_stored hv ht hr
      refine ⟨_, rfl, ?_⟩
      rw [chosenFmt_codec_iff, ← hv]
      exact (hk rfl).resolve_left hq

theorem codedInv_exit {s : Device κ} {c : κ} {file file' : Handle} {act : DevAct κ} {job}
    (hfile : s.handle c = some file) (hinv : HandleInv chip file job) (hi : CodedInv file.node)
    (hc : SetsCoded s act) (h : FileExit chip A.val s c file file' act) : CodedInv file'.node := by
  cases h with
  | same => exact hi
  | table => exact hi
  | @ioctl _ io hio =>
    obtain ⟨node, hnode, rfl⟩ := Option.map_eq_some_iff.mp hio
    unfold CodedInv
    rw [place_ctx]
    generalize ha : io.act = act at hnode
    cases nodeStep_exit hnode with
    | @format type f _ _ _ hs =>
      refine codedInv_sFmt hinv.consistent hi ?_ hs
      rintro rfl
      cases io with
      | sFmt =>
        cases ha
        exact hc file hfile
      | _ => cases ha
    | @pool _ type p _ _ => exact setPool_ctx file.node type p ▸ hi
    | start hs =>
      obtain ⟨dst, -, rfl⟩ := startStreaming_some hs
      exact hi
    | run => exact hi
    | done => exact hi
  | started hrun =>
    rw [deviceRun_marks hrun]
    exact hi
  | ended ht hc hfin hb =>
    unfold Handle.handBack
    rw [session_jobFinish hfin]
    exact hi

theorem codedInv_reach [DecidableEq κ] {regs : RegFile} {s : Device κ}
    (h : Reach (devStep chip A.val) SetsCoded (initDevice κ regs) s) (c : κ) (file : Handle)
    (hfile : s.handle c = some file) : CodedInv file.node :=
  files_invariant (P := fun file => CodedInv file.node) (fun _ => codedInv_opened chip)
    (fun hreach hc _ _ _ _ hfile hexit hi =>
      codedInv_exit hfile ((deviceInv_reach hreach).handles _ _ hfile) hi hc hexit) h c file hfile

end Coded

/-! ### Steps that are due -/

/-- What user space asks for, mem2mem is to start, the run function has left, or the hardware
does, in this state. -/
def Due (s : Device κ) (act : DevAct κ) : Prop :=
  match act with
  | .vpuOpen c _ => s.handle c = none
  | .vpuRelease c => ∀ t, s.task = some t → t.client ≠ c
  | .setCtrl c _ => ∃ file, s.handle c = some file
  | .ioctl c io => ∃ file, s.handle c = some file ∧
      ∀ type, io = .streamoff type → file.node.running = false
  | .deviceRun c => s.task = none ∧ s.calls = [] ∧ ∃ file, s.handle c = some file ∧
      ∀ type, readyBufs (file.node.pool type) ≠ []
  | .call => s.calls ≠ []
  | .report .. => s.hw.working = true
  | .irq => s.hw.raised = true
  | .watchdog => s.timer = true

section Due

variable [DecidableEq κ] {chip : Chip} {A : DmaAlign} {s : Device κ}

/-- A file with buffers on both queues can start a job: its operations have a run function and
the run function finds what it reads. -/
theorem deviceRun_defined {file : Handle} (hi : HandleInv chip file none)
    (hcoded : CodedInv file.node) (hready : ∀ type, readyBufs (file.node.pool type) ≠ []) :
    ∃ r, file.deviceRun = some r := by
  have ho := streaming_of_readyBufs (hready .output)
  have hc := streaming_of_readyBufs (hready .capture)
  have hqueue (type : BufType) : (file.node.pool type).queue ≠ [] := by
    intro hnil
    refine hready type ?_
    rw [readyBufs, ((hi.pools type).contents_eq_nil).mpr hnil]
    simp
  obtain ⟨hv, src, -, dst, hmem, hsrc, hdst, -, -⟩ := hi.consistent
  obtain ⟨d, hd, hmode⟩ := hcoded
  obtain rfl : dst = d := Option.some.inj (hdst.symm.trans hd)
  obtain ⟨d, hd, hsel⟩ := hi.ops ho hc
  obtain rfl : dst = d := Option.some.inj (hdst.symm.trans hd)
  obtain ⟨ops, hops, -, -⟩ := (chip_sound chip).ops dst hmem hmode
  rw [hv, hops] at hsel
  obtain ⟨run, reset, rfl, hjpeg, -⟩ := codecOps_jpeg hmem hops
  have hnode : Queue.deviceRun file.node = some { file.node with running := true } := by
    unfold Queue.deviceRun
    rw [if_pos ⟨hi.running, ho, hc, hqueue .output, hqueue .capture⟩, hsel]
    rfl
  obtain ⟨b, hb⟩ : ∃ b, ((file.session none).queue .output).bufs.head? = some b :=
    ⟨_, List.head?_eq_some_head (hready .output)⟩
  obtain ⟨b', hb'⟩ : ∃ b', ((file.session none).queue .capture).bufs.head? = some b' :=
    ⟨_, List.head?_eq_some_head (hready .capture)⟩
  have hprog := jpegEncRun_eq chip hsrc file.qtable b.vb b'.vb
  have hrun : ∃ s job, Job.deviceRun (file.session none) = some s ∧ s.job = some job := by
    have hsel' : (file.session none).ctx.codecOps = some ⟨some run, some reset⟩ := hsel
    simp only [Job.deviceRun, hsel', hjpeg, hb, hb', Option.bind_eq_bind, Option.bind_some]
    exact ⟨_, _, congrArg (Option.bind · _) hprog, rfl⟩
  obtain ⟨u, job, hu, hjob⟩ := hrun
  simp only [Handle.deviceRun, hnode, hu, hjob, Option.bind_eq_bind, Option.bind_some]
  exact ⟨_, rfl⟩

theorem jobOf_isSome_iff (c : κ) : (s.jobOf c).isSome ↔ ∃ t, s.task = some t ∧ t.client = c := by
  cases ht : s.task with
  | none => simp [jobOf_idle ht]
  | some t =>
    by_cases hc : t.client = c
    · subst hc
      simp [jobOf_client ht]
    · simp [jobOf_other ht hc, hc]

/-- A step that is due finds everything it uses. -/
theorem devStep_of_due (hi : DeviceInv chip s)
    (hcoded : ∀ c file, s.handle c = some file → CodedInv file.node) {act : DevAct κ}
    (hdue : Due s act) : ∃ s', devStep chip A.val s act = some s' := by
  cases act with
  | vpuOpen c qtable =>
    have hclosed : s.handle c = none := hdue
    simp only [devStep, hclosed, Option.isSome_none, Bool.false_eq_true, if_false]
    exact ⟨_, rfl⟩
  | vpuRelease c =>
    have hidle : ¬ (s.jobOf c).isSome := by
      rw [jobOf_isSome_iff]
      rintro ⟨t, ht, hc⟩
      exact hdue t ht hc
    simp only [devStep, if_neg hidle]
    exact ⟨_, rfl⟩
  | setCtrl c qtable =>
    obtain ⟨file, hfile⟩ := hdue
    simp only [devStep, hfile]
    exact ⟨_, rfl⟩
  | ioctl c io =>
    obtain ⟨file, hfile, hoff⟩ := hdue
    obtain ⟨node, hnode⟩ := nodeStep_defined (hi.handles c file hfile).consistent A.val io hoff
    simp only [devStep, hfile, Handle.ioctl, hnode, Option.bind_some]
    exact ⟨_, rfl⟩
  | deviceRun c =>
    obtain ⟨htask, hcalls, file, hfile, hready⟩ := hdue
    have hinv := hi.handles c file hfile
    rw [jobOf_idle htask] at hinv
    obtain ⟨r, hr⟩ := deviceRun_defined hinv (hcoded c file hfile) hready
    simp only [devStep, htask, hcalls, hfile, hr, Option.bind_some]
    exact ⟨_, rfl⟩
  | call =>
    obtain ⟨x, calls, hcalls⟩ := List.exists_cons_of_ne_nil hdue
    simp only [devStep, hcalls]
    exact ⟨_, rfl⟩
  | report status bits =>
    have hworking : s.hw.working = true := hdue
    simp only [devStep, hworking, if_true]
    exact ⟨_, rfl⟩
  | irq =>
    have hraised : s.hw.raised = true := hdue
    have hack : DeviceInv chip { s with timer := false, hw := (s.hw.vepuIrq chip).2 } :=
      hi.congr rfl rfl
    obtain ⟨u, hu, -⟩ := deviceInv_finish hack (s.hw.vepuIrq chip).1.1 (s.hw.vepuIrq chip).1.2
    simp only [devStep, hraised, if_true]
    exact ⟨u, hu⟩
  | watchdog =>
    have htimer : s.timer = true := hdue
    simp only [devStep, htimer, if_true]
    cases htask : s.task with
    | none => exact ⟨_, by rw [Device.watchdog, htask]⟩
    | some t =>
      rw [watchdog_eq hi (by rw [htask]; rfl)]
      have hreset : DeviceInv chip
          { s with timer := false, hw := s.hw.writes chip (encReset chip) } := hi.congr rfl rfl
      obtain ⟨u, hu, -⟩ := deviceInv_finish hreset 0 .error
      exact ⟨u, hu⟩

/-- No step is taken that is not due. -/
theorem due_of_devStep {s' : Device κ} {act : DevAct κ} (hi : DeviceInv chip s)
    (hs : devStep chip A.val s act = some s') : Due s act := by
  cases act with
  | vpuOpen c qtable =>
    simp only [devStep] at hs
    split_ifs at hs with hopen
    simpa [Due] using hopen
  | vpuRelease c =>
    simp only [devStep] at hs
    split_ifs at hs with hjob
    intro t ht hc
    exact hjob ((jobOf_isSome_iff c).mpr ⟨t, ht, hc⟩)
  | setCtrl c qtable =>
    obtain ⟨file, hfile, -⟩ := Option.map_eq_some_iff.mp hs
    exact ⟨file, hfile⟩
  | ioctl c io =>
    obtain ⟨file, hfile, hs⟩ := Option.bind_eq_some_iff.mp hs
    obtain ⟨file', hio, -⟩ := Option.map_eq_some_iff.mp hs
    obtain ⟨node, hnode, -⟩ := Option.map_eq_some_iff.mp hio
    refine ⟨file, hfile, ?_⟩
    rintro type rfl
    simp only [Ioctl.act, nodeStep, Queue.streamoff] at hnode
    split_ifs at hnode with hrun
    simpa using hrun
  | deviceRun c =>
    simp only [devStep] at hs
    split_ifs at hs with hidle
    obtain ⟨htask, hcalls⟩ : s.task = none ∧ s.calls = [] := by simpa using hidle
    obtain ⟨file, hfile, hs⟩ := Option.bind_eq_some_iff.mp hs
    obtain ⟨⟨file', job⟩, hrun, -⟩ := Option.map_eq_some_iff.mp hs
    have hinv := hi.handles c file hfile
    rw [jobOf_idle htask] at hinv
    obtain ⟨hinv', -⟩ := deviceRun_spec hinv hrun
    obtain ⟨hsrc, hdst⟩ := hinv'.heads
    rw [deviceRun_marks hrun] at hsrc hdst
    refine ⟨htask, hcalls, file, hfile, fun type hnil => ?_⟩
    cases type with
    | output => cases hsrc.symm.trans (congrArg List.head? hnil)
    | capture => cases hdst.symm.trans (congrArg List.head? hnil)
  | call =>
    intro hnil
    simp [devStep, hnil] at hs
  | report status bits =>
    simp only [devStep] at hs
    split_ifs at hs with hworking
    exact hworking
  | irq =>
    simp only [devStep] at hs
    split_ifs at hs with hraised
    exact hraised
  | watchdog =>
    simp only [devStep] at hs
    split_ifs at hs with htimer
    exact htimer

/-- When no client sets a raw format as the destination, the device takes exactly the steps
that are due: none of them runs into a descriptor, an operation or a buffer that is missing. -/
theorem devStep_exact {regs : RegFile}
    (h : Reach (devStep chip A.val) SetsCoded (initDevice κ regs) s) (act : DevAct κ) :
    (∃ s', devStep chip A.val s act = some s') ↔ Due s act :=
  have hi := deviceInv_reach h
  ⟨fun ⟨_, hs⟩ => due_of_devStep hi hs, devStep_of_due hi (codedInv_reach h)⟩

end Due

/-- Both queues hold a buffer, so the job is due and starts. -/
theorem devStep_exact_startFrame : ∃ s,
    run (devStep .rk3288 64) (initDevice ℕ fun _ => 0) startFrame.dropLast = some s ∧
      ((∃ s', devStep .rk3288 64 s (.deviceRun 0) = some s') ↔ Due s (.deviceRun 0)) := by
  have hsome : (run (devStep .rk3288 64) (initDevice ℕ fun _ => 0) startFrame.dropLast).isSome := by
    decide +kernel
  obtain ⟨s, hs⟩ := Option.isSome_iff_exists.mp hsome
  exact ⟨s, hs, devStep_exact (A := ⟨6, by decide⟩) (reach_of_run (by decide +kernel) hs) _⟩

end RockchipVpu.System
