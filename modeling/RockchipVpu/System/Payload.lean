import RockchipVpu.Hw.Fetch
import RockchipVpu.System.Files

/-! The payload of coded frames. The run function tells the encoder how large the first plane
of the destination buffer is, and the interrupt handler copies the length that the encoder
reports in the same register. An encoder that keeps within its limit never makes the driver
hand back a buffer with more payload than it has room for. -/

namespace RockchipVpu.System

open Base Format Queue Hw Job

variable {κ : Type*}

/-! ### The report of the encoder -/

/-- The encoder reports no more bytes than the limit it was given, and the watchdog expires
only while it works. -/
def KeepsLimit (chip : Chip) (s : Device κ) (act : DevAct κ) : Prop :=
  InTime s act ∧ match act with
    | .report _ bits => bits.toNat / 8 ≤ (s.hw.regs (jpegRegs chip).strBufLimit).toNat
    | _ => True

instance (chip : Chip) (s : Device κ) : (act : DevAct κ) → Decidable (KeepsLimit chip s act)
  | .report _ bits => inferInstanceAs
    (Decidable (_ ∧ bits.toNat / 8 ≤ (s.hw.regs (jpegRegs chip).strBufLimit).toNat))
  | .vpuOpen .. | .vpuRelease _ | .setCtrl .. | .ioctl .. | .deviceRun _ | .call | .irq
  | .watchdog => inferInstanceAs (Decidable (_ ∧ True))

/-- What waits to be handed back fits the destination buffer of the current job. -/
def ReportFits (chip : Chip) (s : Device κ) : Prop :=
  s.hw.raised = true → ∀ t, s.task = some t →
    (s.hw.vepuIrq chip).1.1.toNat ≤ (vb2PlaneSize t.job.dst.vb 0).toNat

theorem vepuIrq_bytesused (chip : Chip) (hw : EncoderHw) : (hw.vepuIrq chip).1.1.toNat =
    (hw.regs (jpegRegs chip).strBufLimit).toNat / 8 := by
  cases chip <;> rfl

section Report

variable [DecidableEq κ] {chip : Chip} {s s' : Device κ} {act : DevAct κ}

/-- The limit of a working encoder is the size of the first plane of its destination. -/
theorem PhaseInv.limit (hi : DeviceInv chip s) (hp : PhaseInv s) (hw : s.hw.working = true)
    {t : Task κ} (ht : s.task = some t) : (s.hw.regs (jpegRegs chip).strBufLimit).toNat =
      (vb2PlaneSize t.job.dst.vb 0).toNat := by
  obtain ⟨t', file, vpuSrcFmt, prior, ht', -, -, -, hregs⟩ := hp.registers hi hw
  obtain rfl : t' = t := Option.some.inj (ht'.symm.trans ht)
  have harea : streamArea chip s.hw.regs =
      ⟨(t'.job.dst.vb.planes 0).dmaAddr.toNat, (vb2PlaneSize t'.job.dst.vb 0).toNat⟩ := by
    rw [hregs]
    exact streamArea_program chip prior
  exact congrArg Area.bytes harea

/-- Between the report and the interrupt handler nothing writes to the encoder. -/
theorem reportFits_step (hi : DeviceInv chip s) (hp : PhaseInv s) (hr : ReportFits chip s)
    (hc : KeepsLimit chip s act) (h : DevExit chip s s' act) : ReportFits chip s' := by
  intro hraised t ht
  cases h with
  | files htask _ hw _ =>
    rw [hw] at hraised ⊢
    exact hr hraised t (htask.symm.trans ht)
  | started t' hidle _ _ _ hw _ =>
    rw [hw] at hraised
    cases hraised.symm.trans (hp.idle hidle).raised
  | call x hcalls htask hw =>
    have hfst : s'.hw = (x.make chip s.hw s.timer).1 := congrArg Prod.fst hw
    rw [hfst, Call.raised_make] at hraised
    have hphase := hp.busy t (htask.symm.trans ht)
    cases hcalls.symm.trans (hphase.of_raised hraised).1
  | @report status bits hworking htask _ hw _ =>
    have hbits : bits.toNat / 8 ≤ (s.hw.regs (jpegRegs chip).strBufLimit).toNat := hc.2
    rw [vepuIrq_bytesused, hw, ← hp.limit hi hworking (htask.symm.trans ht)]
    simpa only [EncoderHw.report, Function.update_self] using hbits
  | irq _ htask => cases htask.symm.trans ht
  | watchdog _ htask => cases htask.symm.trans ht

theorem reportFits_reach {A : DmaAlign} {regs : RegFile}
    (h : Reach (devStep chip A.val) (KeepsLimit chip) (initDevice κ regs) s) :
    ReportFits chip s := by
  induction h with
  | start =>
    intro hraised
    cases hraised
  | next hreach hc hs ih =>
    obtain ⟨hi, hp⟩ := phaseInv_reach (hreach.mono fun _ _ hc => hc.1)
    exact reportFits_step hi hp ih hc (devStep_spec hi hs).2

end Report

/-! ### Payloads -/

/-- The first plane has room for its payload. -/
def PayloadFits (vb : Vb2Buffer) : Prop := (vb.planes 0).bytesused.toNat ≤ (vb2PlaneSize vb 0).toNat

theorem payloadFits_new (n : ℕ) (sizes : Plane → U32) : PayloadFits (newBuffer n sizes) :=
  Nat.zero_le _

theorem payloadFits_copyMetadata {src dst : Vb2Buffer} (sequence : U32) {bytesused : U32}
    (hdst : PayloadFits dst) (h : bytesused.toNat ≤ (vb2PlaneSize dst 0).toNat) :
    PayloadFits (copyMetadata sequence bytesused src dst) := by
  by_cases hzero : bytesused = 0#32
  · simpa [PayloadFits, copyMetadata, vb2PlaneSize, hzero] using hdst
  · simpa [PayloadFits, copyMetadata, vb2PlaneSize, hzero] using h

section Files

variable {chip : Chip} {A : DmaAlign} {ctx : Ctx} {type : BufType} {p p' : Pool Vb2Buffer}

/-- The buffer ioctls change nothing of a buffer but its field. -/
theorem forall_poolStep_of_field {Q : Vb2Buffer → Prop} (hnew : ∀ n sizes, Q (newBuffer n sizes))
    (hfield : ∀ vb field, Q vb → Q { vb with field := field }) (h : PoolStep ctx type p p')
    (hp : p.Forall Q) : p'.Forall Q := by
  have hprep : ∀ {i : ℕ} {vb vb' : Vb2Buffer} {field : U32} {r : Ret}, p.Holds i .dequeued vb →
      bufPrepare ctx type { vb with field := field } = some (r, vb') → Q vb' := by
    intro i vb vb' field r hb h
    rw [bufPrepare_frame h]
    exact hfield _ _ (hfield _ _ (hp.holds hb))
  cases h with
  | same => exact hp
  | realloc count _ => exact Pool.forall_realloc p (hnew _ _)
  | alloc count _ => exact hp.alloc (hnew _ _)
  | refuse hb h => exact hp.set (hprep hb h)
  | prepare hb h => exact hp.set (hprep hb h)
  | enqueue hb h => exact hp.set (hprep hb h)
  | requeue hb => exact hp.set (hp.holds hb)
  | collect hb => exact hp.set (hp.holds hb)
  | cancel => exact hp.cancel

theorem payloads_ioctl {file file' : Handle} {io : Ioctl}
    (hp : file.node.capture.Forall PayloadFits) (h : file.ioctl A.val io = some file') :
    file'.node.capture.Forall PayloadFits := by
  obtain ⟨node, hnode, rfl⟩ := Option.map_eq_some_iff.mp h
  have hnode' : node.capture.Forall PayloadFits := by
    generalize ha : io.act = act at hnode
    cases nodeStep_exit hnode with
    | format => exact hp
    | @pool _ type p _ hstep =>
      cases type with
      | output => exact hp
      | capture => exact forall_poolStep_of_field payloadFits_new (fun _ _ hvb => hvb) hstep hp
    | @start type => cases type <;> exact hp
    | run => exact hp
    | done => cases io <;> cases ha
  rcases place_eq file.node node io with h | ⟨type, kept, addr, h⟩
  · simpa only [h] using hnode'
  simp only [h]
  cases type with
  | output => exact hnode'
  | capture =>
    refine hnode'.adjust fun i vb hvb => ?_
    unfold placeFrom
    split_ifs
    · exact hvb
    · exact hvb

/-- Every step keeps the payloads of every file within their planes. -/
theorem payloads_exit {s : Device κ} {c : κ} {file file' : Handle} {act : DevAct κ}
    (hirq : act = .irq → s.hw.raised = true) (hr : ReportFits chip s)
    (hp : file.node.capture.Forall PayloadFits) (h : FileExit chip A.val s c file file' act) :
    file'.node.capture.Forall PayloadFits := by
  cases h with
  | same => exact hp
  | table => exact hp
  | ioctl hio => exact payloads_ioctl hp hio
  | started hrun =>
    rw [deviceRun_marks hrun]
    exact hp
  | @ended _ t bytesused result ht hc hinv hb =>
    have hdst : PayloadFits t.job.dst.vb := hp.holds hinv.ownsHeads.dst_holds
    refine hp.finish (payloadFits_copyMetadata _ hdst ?_)
    cases act with
    | irq =>
      obtain rfl := congrArg Prod.fst (Option.some.inj hb)
      exact hr (hirq rfl) t ht
    | watchdog =>
      obtain rfl := congrArg Prod.fst (Option.some.inj hb)
      exact Nat.zero_le _
    | _ => cases hb

end Files

/-- With an encoder that keeps within the limit it is told, no CAPTURE buffer of any file ever
has a larger payload than plane, whatever formats, buffers and jobs there have been. -/
theorem payloads_fit [DecidableEq κ] (chip : Chip) (A : DmaAlign) {regs : RegFile} {s : Device κ}
    (h : Reach (devStep chip A.val) (KeepsLimit chip) (initDevice κ regs) s) (c : κ)
    (file : Handle) (hfile : s.handle c = some file) : file.node.capture.Forall PayloadFits := by
  refine files_invariant (P := fun file => file.node.capture.Forall PayloadFits) (fun qtable => ?_)
    (fun hreach hc hs _ _ _ _ hexit hp => ?_) h c file hfile
  · intro slot hslot
    cases hslot
  · refine payloads_exit ?_ (reportFits_reach hreach) hp hexit
    rintro rfl
    simp only [devStep] at hs
    split_ifs at hs with hraised
    exact hraised

/-- The encoder fills its buffer up to the last byte. -/
theorem payloads_fit_full : ∃ s file,
    run (devStep .rk3288 64) (initDevice ℕ fun _ => 0)
        (startEncoder ++ [.report Rk3288.vepuRegInterruptFrameRdy 49152, .irq]) = some s ∧
      s.handle 0 = some file ∧ file.node.capture.Forall PayloadFits := by
  have hsome : ((run (devStep .rk3288 64) (initDevice ℕ fun _ => 0)
      (startEncoder ++ [.report Rk3288.vepuRegInterruptFrameRdy 49152, .irq])).bind
        fun s => s.handle 0).isSome := by decide +kernel
  obtain ⟨file, h⟩ := Option.isSome_iff_exists.mp hsome
  obtain ⟨s, hs, hfile⟩ := Option.bind_eq_some_iff.mp h
  exact ⟨s, file, hs, hfile, payloads_fit .rk3288 ⟨6, by decide⟩
    (reach_of_run (by decide +kernel) hs) 0 file hfile⟩

end RockchipVpu.System
