import RockchipVpu.Base.Simulation
import RockchipVpu.System.Working

/-! The interrupt of the decoder. Both halves of the block are mapped together, each at an
offset of its own, and the handler of the decoder's interrupt writes to its half whenever the
interrupt comes, between any two accesses to the other one. On the RK3399 the two offsets are
the same, so that it writes to registers of the encoder. They are none of those that the driver
uses, and so the interrupts can be left out of every run. -/

namespace RockchipVpu.System

open Base Format Queue Hw Job

variable {κ : Type*}

/-! ### The two halves -/

/-- The field `enc_offset` of the variant. -/
def encOffset : Chip → U32
  | .rk3288 => 0x0
  | .rk3399 => 0x0

/-- The field `dec_offset` of the variant. That of the RK3399 is marked as bogus. -/
def decOffset : Chip → U32
  | .rk3288 => 0x400
  | .rk3399 => 0x0

/-- `vdpu_write`, with the register counted from `enc_base`. -/
def vdpuWrite (chip : Chip) (val reg : U32) : Write := ⟨val, decOffset chip + reg - encOffset chip⟩

/-- `rk3288_vdpu_irq`. -/
def rk3288VdpuIrq : List Write := [vdpuWrite .rk3288 0 Rk3288.vdpuRegInterrupt]

/-- `rk3399_vdpu_irq`. -/
def rk3399VdpuIrq : List Write :=
  [vdpuWrite .rk3399 0 Rk3399.vdpuRegInterrupt, vdpuWrite .rk3399 0 Rk3399.vdpuRegAxiCtrl]

/-- `variant->vdpu_irq`. -/
def vdpuIrq : Chip → List Write
  | .rk3288 => rk3288VdpuIrq
  | .rk3399 => rk3399VdpuIrq

inductive BusAct (κ : Type*)
  | dev (act : DevAct κ)
  | vdpuIrq

/-- The interrupt of the decoder seen as nothing. -/
def BusAct.view : BusAct κ → List (DevAct κ)
  | .dev act => [act]
  | .vdpuIrq => []

variable [DecidableEq κ]

def busStep (chip : Chip) (dmaAlign : U32) (s : Device κ) : BusAct κ → Option (Device κ)
  | .dev act => devStep chip dmaAlign s act
  | .vdpuIrq => some { s with hw := s.hw.writes chip (vdpuIrq chip) }

/-! ### Registers that do not matter -/

/-- The registers that the decoder's interrupt leaves alone. -/
def KeptRegs (chip : Chip) : Set U32 := {r | r ∉ (vdpuIrq chip).map Write.reg}

theorem startReg_kept (chip : Chip) : startReg chip ∈ KeptRegs chip := by
  unfold KeptRegs
  cases chip <;> decide +kernel

theorem interruptReg_kept (chip : Chip) : interruptReg chip ∈ KeptRegs chip := by
  unfold KeptRegs
  cases chip <;> decide +kernel

theorem bodyRegs_kept {chip : Chip} {r : U32} (hr : r ∈ bodyRegs chip) : r ∈ KeptRegs chip := by
  have hall : (bodyRegs chip).all (· ∉ (vdpuIrq chip).map Write.reg) := by
    cases chip <;> decide +kernel
  show r ∉ (vdpuIrq chip).map Write.reg
  exact of_decide_eq_true (List.all_eq_true.mp hall r hr)

theorem strBufLimit_kept (chip : Chip) : (jpegRegs chip).strBufLimit ∈ KeptRegs chip :=
  bodyRegs_kept (by simp [bodyRegs])

theorem quat_kept (chip : Chip) (i : Fin 16) :
    (jpegRegs chip).lumaQuat (BitVec.ofNat 32 i) ∈ KeptRegs chip ∧
      (jpegRegs chip).chromaQuat (BitVec.ofNat 32 i) ∈ KeptRegs chip := by
  have hrow : ∀ r ∈ [(jpegRegs chip).lumaQuat (BitVec.ofNat 32 i),
      (jpegRegs chip).chromaQuat (BitVec.ofNat 32 i)], r ∈ KeptRegs chip := by
    intro r hr
    apply bodyRegs_kept
    simp only [bodyRegs, List.mem_append, List.mem_flatMap]
    exact .inl (.inr ⟨i, List.mem_finRange i, hr⟩)
  exact ⟨hrow _ (by simp), hrow _ (by simp)⟩

section Registers

variable {chip : Chip} {regs regs' : RegFile}

theorem readTable_congr {quat : U32 → U32} {s : Set U32} (h : Set.EqOn regs regs' s)
    (hquat : ∀ i : Fin 16, quat (BitVec.ofNat 32 i) ∈ s) :
    readTable quat regs = readTable quat regs' := by
  funext i k
  unfold readTable
  rw [h (hquat i)]

/-- The job that the registers hold is in those that stay. -/
theorem readJob_congr (h : Set.EqOn regs regs' (KeptRegs chip)) :
    readJob (jpegRegs chip) regs = readJob (jpegRegs chip) regs' := by
  have hread {r : U32} (hr : r ∈ bodyRegs chip) : regs r = regs' r := h (bodyRegs_kept hr)
  apply JpegView.ext
  · exact readTable_congr h fun i => (quat_kept chip i).1
  · exact readTable_congr h fun i => (quat_kept chip i).2
  all_goals exact hread (by simp [bodyRegs])

/-- So is the geometry. -/
theorem geometry_kept {b : BitRange} (hb : b ∈ (geometryLayout chip).ranges) :
    b.reg ∈ KeptRegs chip := by
  have hall : (geometryLayout chip).ranges.all (·.reg ∉ (vdpuIrq chip).map Write.reg) := by
    cases chip <;> decide +kernel
  show b.reg ∉ (vdpuIrq chip).map Write.reg
  exact of_decide_eq_true (List.all_eq_true.mp hall b hb)

end Registers

/-! ### The same encoder -/

namespace EncoderHw

variable {chip : Chip} {hw : EncoderHw} {regs : RegFile}

def withRegs (hw : EncoderHw) (regs : RegFile) : EncoderHw := { hw with regs := regs }

theorem writes_withRegs (hw : EncoderHw) (regs : RegFile) (ws : List Write) :
    (hw.withRegs regs).writes chip ws = (hw.writes chip ws).withRegs (runWrites ws regs) := by
  induction ws generalizing hw regs with
  | nil => rfl
  | cons w ws ih => exact ih (hw.write chip w) (Function.update regs w.reg w.val)

/-- Writes that do not reach the start register change registers only. -/
theorem writes_eq_withRegs {ws : List Write} (h : startReg chip ∉ ws.map Write.reg) :
    hw.writes chip ws = hw.withRegs (runWrites ws hw.regs) := by
  induction ws generalizing hw with
  | nil => rfl
  | cons w ws ih =>
    simp only [List.map_cons, List.mem_cons, not_or] at h
    show (hw.write chip w).writes chip ws = _
    rw [ih h.2]
    unfold write withRegs
    rw [if_neg (Ne.symm h.1)]
    rfl

end EncoderHw

namespace Device

def withRegs (s : Device κ) (regs : RegFile) : Device κ := { s with hw := s.hw.withRegs regs }

theorem finish_withRegs (s : Device κ) (regs : RegFile) (bytesused : U32) (result : BufResult) :
    (s.withRegs regs).finish bytesused result =
      (s.finish bytesused result).map (·.withRegs regs) := by
  cases ht : s.task with
  | none => simp [Device.finish, withRegs, ht]
  | some t =>
    simp only [Device.finish, withRegs, ht]
    cases s.handle t.client with
    | none => rfl
    | some h =>
      simp only [Option.bind_some, Option.map_map]
      rfl

theorem finish_hw {s s' : Device κ} {bytesused : U32} {result : BufResult}
    (h : s.finish bytesused result = some s') : s'.hw = s.hw := by
  unfold Device.finish at h
  split at h
  · obtain rfl := Option.some.inj h
    rfl
  · obtain ⟨file, -, h⟩ := Option.bind_eq_some_iff.mp h
    obtain ⟨file', -, rfl⟩ := Option.map_eq_some_iff.mp h
    rfl

end Device

/-- Devices that differ in registers that the decoder's interrupt writes, and in nothing else. -/
def SameEncoder (chip : Chip) (s s' : Device κ) : Prop :=
  ∃ regs, s' = s.withRegs regs ∧ Set.EqOn s.hw.regs regs (KeptRegs chip)

section Step

variable {chip : Chip} {A : DmaAlign} {s s' : Device κ}

omit [DecidableEq κ] in
/-- The interrupt of the decoder does not start or stop the encoder. -/
theorem sameEncoder_vdpuIrq {u : Device κ} (h : SameEncoder chip s u) :
    SameEncoder chip { s with hw := s.hw.writes chip (vdpuIrq chip) } u := by
  obtain ⟨regs, rfl, hregs⟩ := h
  rw [EncoderHw.writes_eq_withRegs (startReg_kept chip)]
  refine ⟨regs, rfl, fun r hr => ?_⟩
  show runWrites (vdpuIrq chip) s.hw.regs r = regs r
  rw [← hregs hr]
  exact writeAll_of_notMem hr s.hw.regs

omit [DecidableEq κ] in
theorem rel_ite {p : Prop} [Decidable p] {x x' y y' : Option (Device κ)}
    (hx : Option.Rel (SameEncoder chip) x x') (hy : Option.Rel (SameEncoder chip) y y') :
    Option.Rel (SameEncoder chip) (if p then x else y) (if p then x' else y') := by
  split_ifs
  · exact hx
  · exact hy

omit [DecidableEq κ] in
theorem rel_map {α : Type*} (x : Option α) {f g : α → Device κ}
    (h : ∀ a, SameEncoder chip (f a) (g a)) :
    Option.Rel (SameEncoder chip) (x.map f) (x.map g) := by
  cases x with
  | none => exact .none
  | some a => exact .some (h a)

omit [DecidableEq κ] in
theorem rel_bind {α : Type*} (x : Option α) {f g : α → Option (Device κ)}
    (h : ∀ a, Option.Rel (SameEncoder chip) (f a) (g a)) :
    Option.Rel (SameEncoder chip) (x.bind f) (x.bind g) := by
  cases x with
  | none => exact .none
  | some a => exact h a

variable {regs : RegFile} (h : Set.EqOn s.hw.regs regs (KeptRegs chip))
include h

/-- The end of a job leaves the registers as they are. -/
theorem rel_finish (bytesused : U32) (result : BufResult) : Option.Rel (SameEncoder chip)
    (s.finish bytesused result) ((s.withRegs regs).finish bytesused result) := by
  rw [Device.finish_withRegs]
  cases hs : s.finish bytesused result with
  | none => exact .none
  | some s' =>
    refine .some ⟨regs, rfl, ?_⟩
    rwa [Device.finish_hw hs]

omit [DecidableEq κ] in
/-- The handler of the encoder's interrupt passes on the same. -/
theorem vepuIrq_withRegs : (s.hw.withRegs regs).vepuIrq chip = ((s.hw.vepuIrq chip).1,
    (s.hw.vepuIrq chip).2.withRegs (runWrites (vepuIrqWrites chip) regs)) := by
  have hstatus : regs (interruptReg chip) = s.hw.regs (interruptReg chip) :=
    (h (interruptReg_kept chip)).symm
  have hlimit : regs (jpegRegs chip).strBufLimit = s.hw.regs (jpegRegs chip).strBufLimit :=
    (h (strBufLimit_kept chip)).symm
  unfold EncoderHw.vepuIrq
  rw [EncoderHw.writes_withRegs]
  simp only [EncoderHw.withRegs, hstatus, hlimit]

/-- Whatever the device does it does with the same outcome when such registers differ: none of
them is read. -/
theorem rel_devStep (act : DevAct κ) : Option.Rel (SameEncoder chip) (devStep chip A.val s act)
    (devStep chip A.val (s.withRegs regs) act) := by
  have hsame : ∀ {t : Device κ}, t.hw = s.hw → SameEncoder chip t (t.withRegs regs) :=
    fun ht => ⟨regs, rfl, by rwa [ht]⟩
  cases act with
  | vpuOpen c qtable => exact rel_ite .none (.some (hsame rfl))
  | vpuRelease c => exact rel_ite .none (.some (hsame rfl))
  | setCtrl c qtable => exact rel_map _ fun _ => hsame rfl
  | ioctl c io => exact rel_bind _ fun _ => rel_map _ fun _ => hsame rfl
  | deviceRun c => exact rel_ite .none (rel_bind _ fun _ => rel_map _ fun _ => hsame rfl)
  | call =>
    have hcalls : (s.withRegs regs).calls = s.calls := rfl
    simp only [devStep, hcalls]
    cases s.calls with
    | nil => exact .none
    | cons x calls =>
      cases x with
      | write w => exact .some ⟨_, rfl, writeAll_eqOn h [w]⟩
      | schedule => exact .some ⟨regs, rfl, h⟩
  | report status bits =>
    let ws : List Write := [⟨status, interruptReg chip⟩, ⟨bits, (jpegRegs chip).strBufLimit⟩]
    have hregs : Set.EqOn (runWrites ws s.hw.regs) (runWrites ws regs) (KeptRegs chip) :=
      writeAll_eqOn h ws
    exact rel_ite (.some ⟨_, rfl, hregs⟩) .none
  | irq =>
    refine rel_ite ?_ .none
    have hregs : Set.EqOn (runWrites (vepuIrqWrites chip) s.hw.regs)
        (runWrites (vepuIrqWrites chip) regs) (KeptRegs chip) := writeAll_eqOn h _
    show Option.Rel (SameEncoder chip) (s.irq chip) ((s.withRegs regs).irq chip)
    unfold Device.irq Device.withRegs
    rw [vepuIrq_withRegs h]
    exact rel_finish (s := { s with timer := false, hw := (s.hw.vepuIrq chip).2 })
      (by rwa [EncoderHw.vepuIrq, EncoderHw.writes_regs]) _ _
  | watchdog =>
    refine rel_ite ?_ .none
    show Option.Rel (SameEncoder chip) (s.watchdog chip) ((s.withRegs regs).watchdog chip)
    unfold Device.watchdog Device.withRegs
    cases s.task with
    | none => exact .some (hsame rfl)
    | some t =>
      refine rel_bind _ fun file => rel_bind _ fun ws => ?_
      rw [EncoderHw.writes_withRegs]
      exact rel_finish (s := { s with task := some t, timer := false, hw := s.hw.writes chip ws })
        (by rw [EncoderHw.writes_regs]; exact writeAll_eqOn h ws) _ _

end Step

/-- The decoder's interrupts can be left out of every run of the device: a run with them is
possible exactly when the one without them is, and ends in the same state but for registers that
nothing reads. -/
theorem decoder_irqs_erased (chip : Chip) (A : DmaAlign) (regs : RegFile)
    (as : List (BusAct κ)) : Option.Rel (SameEncoder chip)
      (run (busStep chip A.val) (initDevice κ regs) as)
      (run (devStep chip A.val) (initDevice κ regs) (as.flatMap BusAct.view)) := by
  refine run_lockstep (fun act h => ?_) ⟨regs, rfl, Set.eqOn_refl _ _⟩ as
  cases act with
  | dev act =>
    obtain ⟨regs, rfl, hregs⟩ := h
    show Option.Rel _ _ (run _ _ [act])
    rw [run_singleton]
    exact rel_devStep hregs act
  | vdpuIrq => exact .some (sameEncoder_vdpuIrq h)

/-! ### The working encoder -/

/-- The watchdog in time, whenever the decoder's interrupts come. -/
def BusInTime (s : Device κ) : BusAct κ → Prop
  | .dev act => InTime s act
  | .vdpuIrq => True

instance (s : Device κ) : DecidablePred (BusInTime s) := fun act =>
  match act with
  | .dev act => inferInstanceAs (Decidable (InTime s act))
  | .vdpuIrq => inferInstanceAs (Decidable True)

section Working

variable {chip : Chip} {A : DmaAlign} {regs : RegFile} {s u : Device κ}

omit [DecidableEq κ] in
theorem SameEncoder.inTime (h : SameEncoder chip s u) {act : DevAct κ} (hc : InTime s act) :
    InTime u act := by
  obtain ⟨regs, rfl, -⟩ := h
  cases act <;> exact hc

/-- Without the decoder's interrupts the device reaches the same state. -/
theorem exists_reach (h : Reach (busStep chip A.val) BusInTime (initDevice κ regs) s) :
    ∃ u, Reach (devStep chip A.val) InTime (initDevice κ regs) u ∧ SameEncoder chip s u := by
  induction h with
  | start => exact ⟨_, .start, regs, rfl, Set.eqOn_refl _ _⟩
  | @next s t a _ hc hs ih =>
    obtain ⟨u, hu, hsame⟩ := ih
    cases a with
    | dev act =>
      have htime := hsame.inTime hc
      obtain ⟨regs, rfl, hregs⟩ := hsame
      have hrel := rel_devStep (A := A) hregs act
      rw [show devStep chip A.val s act = some t from hs] at hrel
      generalize hv : devStep chip A.val (s.withRegs regs) act = v at hrel
      cases hrel with
      | some hsame' => exact ⟨_, .next hu htime hv, hsame'⟩
    | vdpuIrq =>
      obtain rfl := Option.some.inj hs
      exact ⟨u, hu, sameEncoder_vdpuIrq hsame⟩

/-- Wherever the decoder's interrupts come in between, the working encoder works for the current
job with the registers that this job has programmed. -/
theorem working_despite_decoder_irqs
    (h : Reach (busStep chip A.val) BusInTime (initDevice κ regs) s) (hw : s.hw.working = true) :
    ∃ t file, s.task = some t ∧ WorksFor chip s t file := by
  obtain ⟨u, hu, regs', rfl, hregs⟩ := exists_reach h
  obtain ⟨hi, hp⟩ := phaseInv_reach hu
  obtain ⟨t, file, ht, hworks⟩ := hp.worksFor hi hw
  refine ⟨t, file, ht, hworks.file_open, hworks.owns, ?_, fun hfields => ?_, hworks.watched⟩
  · rw [readJob_congr hregs]
    exact hworks.registers
  · obtain ⟨vpuSrcFmt, hvpu, hgeometry⟩ := hworks.geometry hfields
    exact ⟨vpuSrcFmt, hvpu, hgeometry.congr fun b hb => hregs (geometry_kept hb)⟩

end Working

/-- On the RK3399, with an interrupt of the decoder before every call of the run function. -/
def interruptedCalls : List (BusAct ℕ) :=
  startFrame.map .dev ++ (List.replicate 45 [.vdpuIrq, .dev .call]).flatten ++ [.vdpuIrq]

theorem working_despite_decoder_irqs_calls : ∃ s t file,
    run (busStep .rk3399 64) (initDevice ℕ fun _ => 0) interruptedCalls = some s ∧
      s.task = some t ∧ WorksFor .rk3399 s t file := by
  have hrun : (run (busStep .rk3399 64) (initDevice ℕ fun _ => 0) interruptedCalls).map
      (fun s => s.hw.working) = some true := by decide +kernel
  obtain ⟨s, hs, hw⟩ := Option.map_eq_some_iff.mp hrun
  obtain ⟨t, file, ht, hworks⟩ := working_despite_decoder_irqs (A := ⟨6, by decide⟩)
    (reach_of_run (by decide +kernel) hs) hw
  exact ⟨s, t, file, hs, ht, hworks⟩

end RockchipVpu.System
