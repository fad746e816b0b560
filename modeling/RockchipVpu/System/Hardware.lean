import RockchipVpu.Hw.Program
import RockchipVpu.Job.Finish

/-! The encoder block as the driver sees it: registers, a start bit and an interrupt line.
A run function makes its calls one by one, so that other things happen in between; the block
works only between the last of these calls and the moment it reports or is stopped. -/

namespace RockchipVpu.System

open Base Format Queue Hw Job

/-! ### The block -/

structure EncoderHw where
  regs : RegFile
  working : Bool := false
  raised : Bool := false

namespace EncoderHw

/-- `vepu_write`. The enable bit of the start register starts and stops the encoder. -/
def write (chip : Chip) (hw : EncoderHw) (w : Write) : EncoderHw where
  regs := Function.update hw.regs w.reg w.val
  working := if w.reg = startReg chip then w.val.getLsbD 0 else hw.working
  raised := hw.raised

def writes (chip : Chip) (hw : EncoderHw) (ws : List Write) : EncoderHw :=
  ws.foldl (EncoderHw.write chip) hw

end EncoderHw

/-- `VEPU_REG_INTERRUPT`. -/
def interruptReg : Chip → U32
  | .rk3288 => Rk3288.vepuRegInterrupt
  | .rk3399 => Rk3399.vepuRegInterrupt

/-- The writes of `rk3288_vepu_irq`. -/
def rk3288VepuIrqWrites : List Write :=
  [⟨0, Rk3288.vepuRegInterrupt⟩, ⟨0, Rk3288.vepuRegAxiCtrl⟩]

/-- The writes of `rk3399_vepu_irq`. -/
def rk3399VepuIrqWrites : List Write :=
  [⟨0, Rk3399.vepuRegInterrupt⟩, ⟨0, Rk3399.vepuRegAxiCtrl⟩]

def vepuIrqWrites : Chip → List Write
  | .rk3288 => rk3288VepuIrqWrites
  | .rk3399 => rk3399VepuIrqWrites

/-- `rk3288_vpu_enc_reset`. -/
def rk3288VpuEncReset : List Write :=
  [⟨Rk3288.vepuRegInterruptDisBit, Rk3288.vepuRegInterrupt⟩, ⟨0, Rk3288.vepuRegEncCtrl⟩,
    ⟨0, Rk3288.vepuRegAxiCtrl⟩]

/-- `rk3399_vpu_enc_reset`. -/
def rk3399VpuEncReset : List Write :=
  [⟨Rk3399.vepuRegInterruptDisBit, Rk3399.vepuRegInterrupt⟩, ⟨0, Rk3399.vepuRegEncodeStart⟩,
    ⟨0, Rk3399.vepuRegAxiCtrl⟩]

def encReset : Chip → List Write
  | .rk3288 => rk3288VpuEncReset
  | .rk3399 => rk3399VpuEncReset

/-- What a reset function writes to the encoder. -/
def resetWrites : ResetFn → Option (List Write)
  | .rk3288EncReset => some rk3288VpuEncReset
  | .rk3399EncReset => some rk3399VpuEncReset
  | .rk3288DecReset => none

namespace EncoderHw

/-- The encoder stops by itself: it leaves its status and the number of bits it has written
in the registers and raises its interrupt. -/
def report (chip : Chip) (hw : EncoderHw) (status bits : U32) : EncoderHw where
  regs := Function.update (Function.update hw.regs (interruptReg chip) status)
    (jpegRegs chip).strBufLimit bits
  raised := true

/-- The interrupt handler up to its call of `rockchip_vpu_irq_done`: what it passes on, and
the block afterwards. -/
def vepuIrq (chip : Chip) (hw : EncoderHw) : (U32 × BufResult) × EncoderHw :=
  (variantVepuIrq chip (hw.regs (interruptReg chip)) (hw.regs (jpegRegs chip).strBufLimit),
    { hw.writes chip (vepuIrqWrites chip) with raised := false })

/-! ### What writes do -/

variable {chip : Chip} {hw : EncoderHw} {ws : List Write}

@[simp] theorem writes_append (hw : EncoderHw) (ws ws' : List Write) :
    hw.writes chip (ws ++ ws') = (hw.writes chip ws).writes chip ws' := List.foldl_append

@[simp] theorem writes_regs (hw : EncoderHw) (ws : List Write) :
    (hw.writes chip ws).regs = runWrites ws hw.regs := by
  induction ws generalizing hw with
  | nil => rfl
  | cons w ws ih =>
    rw [writes, List.foldl_cons]
    exact ih _

@[simp] theorem writes_raised (hw : EncoderHw) (ws : List Write) :
    (hw.writes chip ws).raised = hw.raised := by
  induction ws generalizing hw with
  | nil => rfl
  | cons w ws ih =>
    rw [writes, List.foldl_cons]
    exact ih _

/-- Without the enable bit nothing starts. -/
theorem writes_idle (hw : EncoderHw) (h : hw.working = false)
    (hws : ∀ w ∈ ws, w.reg = startReg chip → w.val.getLsbD 0 = false) :
    (hw.writes chip ws).working = false := by
  induction ws generalizing hw with
  | nil => exact h
  | cons w ws ih =>
    rw [writes, List.foldl_cons]
    refine ih _ ?_ fun w' hw' => hws w' (List.mem_cons_of_mem _ hw')
    unfold write
    split_ifs with hreg
    · exact hws w List.mem_cons_self hreg
    · exact h

theorem vepuIrq_idle (h : hw.working = false) : (hw.vepuIrq chip).2.working = false := by
  refine writes_idle hw h ?_
  cases chip <;> decide

/-- Either reset stops the encoder of its chip, whatever it was doing. -/
theorem writes_encReset (chip : Chip) (hw : EncoderHw) :
    (hw.writes chip (encReset chip)).working = false := by
  cases chip <;> rfl

end EncoderHw

/-! ### The calls of a run function -/

inductive Call
  | write (w : Write)
  | schedule
  deriving DecidableEq

/-- The watchdog is scheduled right before the last write. -/
def runCalls (program : List Write) : List Call :=
  program.dropLast.map .write ++ .schedule :: program.getLast?.toList.map .write

theorem runCalls_concat (ws : List Write) (w : Write) :
    runCalls (ws ++ [w]) = ws.map .write ++ [.schedule, .write w] := by
  simp [runCalls]

/-- Nothing but the last write starts the encoder. -/
structure StartsLast (chip : Chip) (program : List Write) : Prop where
  split : ∃ ws w, program = ws ++ [w] ∧ w.reg = startReg chip ∧ w.val.getLsbD 0 = true ∧
    ∀ w ∈ ws, w.reg = startReg chip → w.val.getLsbD 0 = false

theorem startsLast_program (chip : Chip) (ctx : Ctx) (vpuSrcFmt : Fmt) (qtable : JpegQuantization)
    (src dst : Vb2Buffer) : StartsLast chip (program chip ctx vpuSrcFmt qtable src dst) := by
  refine ⟨⟨modeWord chip, startReg chip⟩ :: programBody chip ctx vpuSrcFmt qtable src dst,
    ⟨startWord chip ctx, startReg chip⟩, rfl, rfl, startWord_enable chip ctx, ?_⟩
  intro w hw hreg
  rcases List.mem_cons.mp hw with rfl | hw
  · exact modeWord_enable chip
  · have hmem := List.mem_map_of_mem (f := Write.reg) hw
    rw [hreg] at hmem
    exact absurd hmem (startReg_notMem_body chip)

/-- A call, with the block and whether the watchdog is scheduled. -/
def Call.make (chip : Chip) (hw : EncoderHw) (timer : Bool) : Call → EncoderHw × Bool
  | .write w => (hw.write chip w, timer)
  | .schedule => (hw, true)

theorem Call.raised_make (chip : Chip) (x : Call) (hw : EncoderHw) (timer : Bool) :
    (x.make chip hw timer).1.raised = hw.raised := by
  cases x <;> rfl

/-- The block and the watchdog while a job with this program is current: its calls are being
made, the encoder works on it, or the encoder has reported. -/
inductive Phase (program : List Write) : List Call → EncoderHw → Bool → Prop
  | programming (prior : RegFile) {made rest : List Write} {w : Write}
      (hsplit : program = made ++ rest ++ [w]) :
      Phase program (rest.map .write ++ [.schedule, .write w])
        ⟨runWrites made prior, false, false⟩ false
  | scheduled (prior : RegFile) {ws : List Write} {w : Write} (hsplit : program = ws ++ [w]) :
      Phase program [.write w] ⟨runWrites ws prior, false, false⟩ true
  | working (prior : RegFile) : Phase program [] ⟨runWrites program prior, true, false⟩ true
  | reported (regs : RegFile) : Phase program [] ⟨regs, false, true⟩ true

section Phase

variable {chip : Chip} {program : List Write} {calls : List Call} {hw : EncoderHw} {timer : Bool}

theorem runWrites_concat (ws : List Write) (w : Write) (prior : RegFile) :
    runWrites (ws ++ [w]) prior = Function.update (runWrites ws prior) w.reg w.val :=
  writeAll_append ..

/-- A job begins with the block at rest. -/
theorem Phase.begin (hprog : StartsLast chip program) (hworking : hw.working = false)
    (hraised : hw.raised = false) : Phase program (runCalls program) hw false := by
  obtain ⟨ws, w, rfl, -⟩ := hprog.split
  obtain ⟨regs, working, raised⟩ := hw
  obtain rfl : working = false := hworking
  obtain rfl : raised = false := hraised
  rw [runCalls_concat]
  exact @Phase.programming (ws ++ [w]) regs [] ws w rfl

/-- The next call of the run function. -/
theorem Phase.call (hprog : StartsLast chip program) {x : Call}
    (h : Phase program (x :: calls) hw timer) :
    Phase program calls (x.make chip hw timer).1 (x.make chip hw timer).2 := by
  obtain ⟨ws, last, hws, hreg, hlast, hfirst⟩ := hprog.split
  generalize hxs : x :: calls = xs at h
  cases h with
  | @programming prior made rest w hsplit =>
    cases rest with
    | nil =>
      obtain ⟨rfl, rfl⟩ := List.cons.inj hxs
      exact .scheduled prior (by rw [hsplit, List.append_nil])
    | cons r rest =>
      rw [List.map_cons, List.cons_append] at hxs
      obtain ⟨rfl, rfl⟩ := List.cons.inj hxs
      obtain ⟨hmade, -⟩ := List.append_inj' (hws.symm.trans hsplit) rfl
      have hoff : (if r.reg = startReg chip then r.val.getLsbD 0 else false) = false := by
        split_ifs with hr
        · exact hfirst r (by rw [hmade]; simp) hr
        · rfl
      have hphase : Phase program (rest.map .write ++ [.schedule, .write w])
          ⟨runWrites (made ++ [r]) prior, false, false⟩ false :=
        .programming prior (by rw [hsplit]; simp)
      rw [runWrites_concat] at hphase
      simpa only [Call.make, EncoderHw.write, hoff] using hphase
  | @scheduled prior made w hsplit =>
    obtain ⟨rfl, rfl⟩ := List.cons.inj hxs
    obtain ⟨-, hw⟩ := List.append_inj' (hws.symm.trans hsplit) rfl
    obtain rfl := List.cons.inj hw |>.1
    have hphase : Phase program [] ⟨runWrites program prior, true, false⟩ true := .working prior
    rw [hsplit, runWrites_concat] at hphase
    simpa only [Call.make, EncoderHw.write, hreg, if_true, hlast, hsplit] using hphase
  | working => cases hxs
  | reported => cases hxs

end Phase

end RockchipVpu.System
