import RockchipVpu.Hw.Geometry
import RockchipVpu.System.Device

/-! What the encoder works on. The watchdog gives a job two seconds; as long as it expires only
while the encoder is still working, the encoder works for the current job and for no other,
with the registers that this job has programmed, and the buffers whose addresses it has been
given stay queued at the head of the queues of an open file. -/

namespace RockchipVpu.System

open Base Format Queue Hw Job

variable {κ : Type*}

/-! ### Tables -/

/-- A row of a table register has room for the low bytes of its coefficients. -/
def lowBytes (qtable : JpegQuantization) : JpegQuantization where
  luma j := qtable.luma j &&& 0xff
  chroma j := qtable.chroma j &&& 0xff

theorem toNat_lowByte (e : BitVec 16) : (e &&& 0xff).toNat = e.toNat % 256 :=
  toNat_and_mask (show (0xff : BitVec 16).toNat = 2 ^ 8 - 1 from rfl) e

theorem lowByte_and (e : BitVec 16) :
    (e &&& 0xff).setWidth 32 &&& (0xff : U32) = e.setWidth 32 &&& (0xff : U32) := by
  have hmask : (0xff : U32).toNat = 2 ^ 8 - 1 := rfl
  refine BitVec.eq_of_toNat_eq ?_
  rw [toNat_and_mask hmask, toNat_and_mask hmask, BitVec.toNat_setWidth, BitVec.toNat_setWidth,
    toNat_lowByte]
  omega

theorem quantRow_lowBytes (coef : Fin 64 → BitVec 16) (i : Fin 16) :
    quantRow (fun j => coef j &&& 0xff) i = quantRow coef i := by
  have hcast : ((0xff : ℕ) : U32) = 0xff := rfl
  simp only [quantRow, rkQuantRow, hcast, lowByte_and]

theorem program_lowBytes (chip : Chip) (ctx : Ctx) (vpuSrcFmt : Fmt) (qtable : JpegQuantization)
    (src dst : Vb2Buffer) : program chip ctx vpuSrcFmt (lowBytes qtable) src dst =
      program chip ctx vpuSrcFmt qtable src dst := by
  simp only [program, programBody, jpegEncSetQtable, lowBytes, quantRow_lowBytes]

/-! ### The phases of the current job -/

/-- The watchdog expires only while the encoder works: neither during the calls of the run function
nor between a report and its interrupt. -/
def InTime (s : Device κ) : DevAct κ → Prop
  | .watchdog => s.hw.working = true
  | _ => True

instance (s : Device κ) : DecidablePred (InTime s) := fun act =>
  match act with
  | .watchdog => inferInstanceAs (Decidable (s.hw.working = true))
  | .vpuOpen .. | .vpuRelease _ | .setCtrl .. | .ioctl .. | .deviceRun _ | .call | .report ..
  | .irq => inferInstanceAs (Decidable True)

/-- Everything rests. -/
structure AtRest (s : Device κ) : Prop where
  calls : s.calls = []
  timer : s.timer = false
  working : s.hw.working = false
  raised : s.hw.raised = false

structure PhaseInv (s : Device κ) : Prop where
  idle : s.task = none → AtRest s
  busy : ∀ t, s.task = some t → Phase t.job.program s.calls s.hw s.timer

section Phase

variable {chip : Chip} {s s' : Device κ} {program : List Write} {calls : List Call}
  {hw : EncoderHw} {timer : Bool}

theorem Phase.of_working (h : Phase program calls hw timer) (hw' : hw.working = true) :
    calls = [] ∧ timer = true ∧ hw.raised = false ∧ ∃ prior, hw.regs = runWrites program prior := by
  cases h with
  | programming => cases hw'
  | scheduled => cases hw'
  | working prior => exact ⟨rfl, rfl, rfl, prior, rfl⟩
  | reported => cases hw'

theorem Phase.of_raised (h : Phase program calls hw timer) (hr : hw.raised = true) :
    calls = [] ∧ hw.working = false := by
  cases h with
  | reported => exact ⟨rfl, rfl⟩
  | _ => cases hr

theorem Phase.report (h : Phase program calls hw timer) (hw' : hw.working = true)
    (status bits : U32) : Phase program calls (hw.report chip status bits) timer := by
  obtain ⟨rfl, rfl, -⟩ := h.of_working hw'
  exact .reported _

theorem PhaseInv.congr (hp : PhaseInv s) (ht : s'.task = s.task) (hc : s'.calls = s.calls)
    (hw : s'.hw = s.hw) (htimer : s'.timer = s.timer) : PhaseInv s' where
  idle h := by
    obtain ⟨h1, h2, h3, h4⟩ := hp.idle (ht ▸ h)
    exact ⟨hc.trans h1, htimer.trans h2, hw ▸ h3, hw ▸ h4⟩
  busy t h := by
    rw [hc, hw, htimer]
    exact hp.busy t (ht ▸ h)

/-- A job that has ended leaves everything at rest. -/
theorem PhaseInv.ended (ht : s'.task = none) (hr : AtRest s') : PhaseInv s' where
  idle _ := hr
  busy t h := by cases ht.symm.trans h

/-- One phase follows the other. -/
theorem phaseInv_step [DecidableEq κ] {act : DevAct κ} (hi : DeviceInv chip s)
    (hi' : DeviceInv chip s') (hp : PhaseInv s) (hc : InTime s act) (h : DevExit chip s s' act) :
    PhaseInv s' := by
  have hbusy (hrest : ¬ AtRest s) : ∃ t, s.task = some t := by
    refine Option.ne_none_iff_exists'.mp fun ht => hrest (hp.idle ht)
  cases h with
  | files ht hcalls hw htimer => exact hp.congr ht hcalls hw htimer
  | started t hidle hcalls ht hc' hw htimer =>
    refine ⟨fun hnone => ?_, fun t' ht' => ?_⟩
    · cases ht.symm.trans hnone
    obtain rfl : t = t' := Option.some.inj (ht.symm.trans ht')
    have hrest := hp.idle hidle
    obtain ⟨h, -, hl⟩ := hi'.task t ht
    rw [hc', hw, htimer, hrest.timer]
    exact Phase.begin hl.startsLast hrest.working hrest.raised
  | call x hcalls ht hw =>
    obtain ⟨t, htask⟩ := hbusy fun hr => by cases hcalls.symm.trans hr.calls
    refine ⟨fun hnone => ?_, fun t' ht' => ?_⟩
    · cases htask.symm.trans (ht.symm.trans hnone)
    obtain rfl : t = t' := Option.some.inj (htask.symm.trans (ht.symm.trans ht'))
    obtain ⟨h, -, hl⟩ := hi.task t htask
    have hphase := hp.busy t htask
    rw [hcalls] at hphase
    have hnext := hphase.call hl.startsLast
    rwa [← hw] at hnext
  | report hworking ht hcalls hw htimer =>
    refine ⟨fun h => ?_, fun t ht' => ?_⟩
    · have hrest := hp.idle (ht.symm.trans h)
      cases hworking.symm.trans hrest.working
    · rw [hcalls, hw, htimer]
      exact (hp.busy t (ht.symm.trans ht')).report hworking _ _
  | irq hraised ht hcalls hw htimer =>
    obtain ⟨t, htask⟩ := hbusy fun hr => by cases hraised.symm.trans hr.raised
    obtain ⟨hnil, hstop⟩ := (hp.busy t htask).of_raised hraised
    refine .ended ht ⟨hcalls.trans hnil, htimer, ?_, ?_⟩
    · rw [hw]
      exact EncoderHw.vepuIrq_idle hstop
    · rw [hw]
      rfl
  | watchdog hrun ht hcalls hw htimer =>
    have hworking : s.hw.working = true := hc
    obtain ⟨t, htask⟩ := hbusy fun hr => by cases hworking.symm.trans hr.working
    obtain ⟨hnil, -, hraised, -⟩ := (hp.busy t htask).of_working hworking
    have hw' : s'.hw = s.hw.writes chip (encReset chip) := by
      rw [hw, htask]
      rfl
    refine .ended ht ⟨hcalls.trans hnil, htimer, ?_, ?_⟩
    · rw [hw']
      exact EncoderHw.writes_encReset chip s.hw
    · rw [hw', EncoderHw.writes_raised, hraised]

end Phase

/-! ### The working encoder -/

/-- The encoder works for a job of an open file, whose watchdog is scheduled. It has been given
the tables of that file, the addresses of the buffers at the head of its queues, and the source
format, as far as its sides are within their fields. -/
structure WorksFor (chip : Chip) (s : Device κ) (t : Task κ) (file : Handle) : Prop where
  file_open : s.handle t.client = some file
  owns : OwnsHeads file.node t.job
  registers : readJob (jpegRegs chip) s.hw.regs =
    jobView file.node.ctx (lowBytes t.qtable) t.job.src.vb t.job.dst.vb
  geometry : WithinFields chip file.node.ctx.srcFmt → ∃ vpuSrcFmt,
    file.node.ctx.vpuSrcFmt = some vpuSrcFmt ∧
      GeometryFaithful chip file.node.ctx.srcFmt vpuSrcFmt s.hw.regs
  watched : s.timer = true

theorem phaseInv_init (regs : RegFile) : PhaseInv (initDevice κ regs) where
  idle _ := ⟨rfl, rfl, rfl, rfl⟩
  busy t h := by cases h

section Working

variable [DecidableEq κ] {chip : Chip} {A : DmaAlign} {regs : RegFile} {s : Device κ}

theorem phaseInv_reach (h : Reach (devStep chip A.val) InTime (initDevice κ regs) s) :
    DeviceInv chip s ∧ PhaseInv s := by
  refine h.invariant (P := fun s => DeviceInv chip s ∧ PhaseInv s)
    ⟨deviceInv_init chip regs, phaseInv_init regs⟩ ?_
  rintro s t act ⟨hi, hp⟩ hc hs
  obtain ⟨hi', hexit⟩ := devStep_spec hi hs
  exact ⟨hi', phaseInv_step hi hi' hp hc hexit⟩

/-- What the registers hold while the encoder works. -/
theorem PhaseInv.registers (hi : DeviceInv chip s) (hp : PhaseInv s) (hw : s.hw.working = true) :
    ∃ t file vpuSrcFmt prior, s.task = some t ∧ s.handle t.client = some file ∧
      file.node.ctx.vpuSrcFmt = some vpuSrcFmt ∧ s.timer = true ∧
      s.hw.regs = runWrites (program chip file.node.ctx vpuSrcFmt t.qtable t.job.src.vb
        t.job.dst.vb) prior := by
  obtain ⟨t, ht⟩ : ∃ t, s.task = some t := by
    refine Option.ne_none_iff_exists'.mp fun ht => ?_
    cases hw.symm.trans (hp.idle ht).working
  obtain ⟨-, htimer, -, prior, hregs⟩ := (hp.busy t ht).of_working hw
  obtain ⟨file, hfile, hl⟩ := hi.task t ht
  obtain ⟨vpuSrcFmt, hvpu, hprog⟩ := hl.program_eq
  exact ⟨t, file, vpuSrcFmt, prior, ht, hfile, hvpu, htimer, hprog ▸ hregs⟩

/-- The working encoder works for the current job. -/
theorem PhaseInv.worksFor (hi : DeviceInv chip s) (hp : PhaseInv s) (hw : s.hw.working = true) :
    ∃ t file, s.task = some t ∧ WorksFor chip s t file := by
  obtain ⟨t, file, vpuSrcFmt, prior, ht, hfile, hvpu, htimer, hregs⟩ := hp.registers hi hw
  have hinv := hi.handles t.client file hfile
  rw [jobOf_client ht] at hinv
  obtain ⟨-, src, hmem, dst, hdmem, -, -, hm, -⟩ := hinv.consistent
  have hsound := (chip_sound chip).entry dst hdmem
  obtain ⟨h1, h3⟩ := numPlanes_between hmem
  have hbyte (e : BitVec 16) : (e &&& 0xff).toNat < 256 := by
    rw [toNat_lowByte]
    exact Nat.mod_lt _ (by norm_num)
  refine ⟨t, file, ht, hfile, hinv.ownsHeads, ?_, fun hfields => ⟨vpuSrcFmt, hvpu, ?_⟩, htimer⟩
  · rw [hregs, ← program_lowBytes]
    exact readJob_program chip prior (hm.numPlanes_eq ▸ h1) (hm.numPlanes_eq ▸ h3)
      (fun j => hbyte _) fun j => hbyte _
  · rw [hregs]
    exact (program_geometryFaithful_iff chip (hm.width_le.trans hsound.maxWidth_le)
      (hm.height_le.trans hsound.maxHeight_le) prior).mpr hfields

/-- Whenever the encoder works, in whatever order files have been opened and closed, buffers
queued, jobs started and ended, it works for the current job, and the buffers that it has been
given are still queued, so that no file can take them back or free them. -/
theorem working_for_current (h : Reach (devStep chip A.val) InTime (initDevice κ regs) s)
    (hw : s.hw.working = true) : ∃ t file, s.task = some t ∧ WorksFor chip s t file := by
  obtain ⟨hi, hp⟩ := phaseInv_reach h
  exact hp.worksFor hi hw

end Working

/-- The run function makes all of its calls. -/
def startEncoder : List (DevAct ℕ) := startFrame ++ List.replicate 42 .call

theorem working_for_current_startEncoder : ∃ s t file,
    run (devStep .rk3288 64) (initDevice ℕ fun _ => 0) startEncoder = some s ∧
      s.task = some t ∧ WorksFor .rk3288 s t file := by
  have hrun : (run (devStep .rk3288 64) (initDevice ℕ fun _ => 0) startEncoder).map
      (fun s => s.hw.working) = some true := by decide +kernel
  obtain ⟨s, hs, hw⟩ := Option.map_eq_some_iff.mp hrun
  obtain ⟨t, file, ht, hworks⟩ := working_for_current (A := ⟨6, by decide⟩)
    (reach_of_run (by decide +kernel) hs) hw
  exact ⟨s, t, file, hs, ht, hworks⟩

end RockchipVpu.System
