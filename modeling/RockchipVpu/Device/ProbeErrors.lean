import RockchipVpu.Base.FailFast
import RockchipVpu.Device.Balance

/-! What probe does when a call fails. Each of its calls that may fail is made once all those
before it have succeeded, and the first that fails decides the error: probe makes nothing but
releasing calls after it, whatever these may answer, and returns its code. The error paths may
release too little, but none acquires anything or loses the code. -/

namespace RockchipVpu.Device

open Base Base.Prog

/-! ### The calls that may fail -/

/-- Registering the node of one half. -/
def nodeCalls (half : Half) : List (Call × Errno) := [
  (.ofMatchNode (some half), .enodev), (.videoDeviceAlloc half, .enomem),
  (.videoRegisterDevice half, .of (.videoRegisterDevice half)),
  (.m2mRegisterMediaController half, .of (.m2mRegisterMediaController half))]

/-- The calls of probe that may fail, in order, each with its error. -/
def probeCalls (irqs : IrqHandlers) : List (Call × Errno) := List.flatten [
  devmCalls irqs,
  [(.clkBulkPrepare, .of .clkBulkPrepare), (.v4l2DeviceRegister, .of .v4l2DeviceRegister),
    (.m2mInit .enc, .of (.m2mInit .enc)), (.m2mInit .dec, .of (.m2mInit .dec))],
  nodeCalls .enc, nodeCalls .dec,
  [(.mediaDeviceRegister, .of .mediaDeviceRegister)]]

/-- The call releases something and acquires nothing. -/
def Call.Releases (c : Call) : Prop :=
  c.effects ≠ [] ∧ ∀ e ∈ c.effects, ∃ r, e = .release r

/-! ### The labels -/

/-- The code after a label only releases and returns the error that it was reached with. -/
abbrev Unwinds (e : Errno) (p : Probe) : Prop := p.CleansUp Call.Releases (.error e)

theorem errClkUnprepare_unwinds (e : Errno) : Unwinds e (errClkUnprepare e) := by
  unfold errClkUnprepare
  apply cleansUp_step (by simp [Call.Releases, Call.effects])
  exact cleansUp_step (by simp [Call.Releases, Call.effects]) rfl

theorem errV4l2Unreg_unwinds (e : Errno) : Unwinds e (errV4l2Unreg e) :=
  cleansUp_step (by simp [Call.Releases, Call.effects]) (errClkUnprepare_unwinds e)

theorem errM2mEncDevRel_unwinds (e : Errno) : Unwinds e (errM2mEncDevRel e) :=
  cleansUp_step (by simp [Call.Releases, Call.effects]) (errV4l2Unreg_unwinds e)

theorem errM2mDecDevRel_unwinds (e : Errno) : Unwinds e (errM2mDecDevRel e) :=
  cleansUp_step (by simp [Call.Releases, Call.effects]) (errM2mEncDevRel_unwinds e)

/-- Unregistering a node and releasing it. -/
theorem unregister_unwinds {e : Errno} {p : Probe} (half : Half) (h : Unwinds e p) :
    Unwinds e (step (.videoUnregisterDevice half) (step (.videoDeviceRelease half) p)) := by
  apply cleansUp_step (by simp [Call.Releases, Call.effects])
  exact cleansUp_step (by simp [Call.Releases, Call.effects]) h

theorem errVideoEncoderDevUnreg_unwinds (vpu : Vpu) (e : Errno) :
    Unwinds e (errVideoEncoderDevUnreg vpu e) := by
  unfold errVideoEncoderDevUnreg
  split_ifs
  · exact unregister_unwinds .enc (errM2mDecDevRel_unwinds e)
  · exact errM2mDecDevRel_unwinds e

theorem errVideoDecoderDevUnreg_unwinds (vpu : Vpu) (e : Errno) :
    Unwinds e (errVideoDecoderDevUnreg vpu e) := by
  unfold errVideoDecoderDevUnreg
  split_ifs
  · exact unregister_unwinds .dec (errVideoEncoderDevUnreg_unwinds vpu e)
  · exact errVideoEncoderDevUnreg_unwinds vpu e

/-! ### Probe -/

/-- The device that a successful probe leaves. -/
def bound : Vpu := { vfdEnc := true, vfdDec := true }

abbrev FailsFast (cs : List (Call × Errno)) (p : Probe) : Prop :=
  p.FailFast (fun c => c.fallible = true) Call.Releases .error (.ok bound) cs

section FailsFast

variable {cs : List (Call × Errno)} {c : Call} {e : Errno} {failed next : Probe}

theorem attempt_failsFast (hc : c.fallible = true) (hfailed : Unwinds e failed)
    (h : FailsFast cs next) : FailsFast ((c, e) :: cs) (attempt c failed next) :=
  .attempt hc hfailed h

theorem step_failsFast (hc : c.fallible = false) (h : FailsFast cs next) :
    FailsFast cs (step c next) :=
  .step (by simp [hc]) h

theorem videoRegisterDevice_failsFast {vpu : Vpu} {half : Half} {failed : Errno → Probe}
    {next : Vpu → Probe} (hfailed : ∀ e, Unwinds e (failed e))
    (hnext : FailsFast cs (next (vpu.setVfd half))) :
    FailsFast (nodeCalls half ++ cs) (videoRegisterDevice vpu half failed next) := by
  have hfree (e : Errno) : Unwinds e (step (.videoDeviceRelease half) (failed e)) :=
    cleansUp_step (by simp [Call.Releases, Call.effects]) (hfailed e)
  refine attempt_failsFast rfl (hfailed _) ?_
  refine attempt_failsFast rfl (hfailed _) ?_
  refine attempt_failsFast rfl (hfree _) ?_
  refine attempt_failsFast rfl (unregister_unwinds half (hfailed _)) ?_
  exact step_failsFast rfl hnext

theorem probe_failsFast (irqs : IrqHandlers) : FailsFast (probeCalls irqs) (probe irqs) := by
  have hdevm : ∀ c ∈ devmCalls irqs, c.1.fallible = true := by
    obtain ⟨vepu, vdpu⟩ := irqs
    cases vepu <;> cases vdpu <;> decide
  refine failFast_attemptAll hdevm ?_
  apply step_failsFast rfl
  refine attempt_failsFast rfl rfl ?_
  refine attempt_failsFast rfl (errClkUnprepare_unwinds _) ?_
  apply step_failsFast rfl
  refine attempt_failsFast rfl (errV4l2Unreg_unwinds _) ?_
  refine attempt_failsFast rfl (errM2mEncDevRel_unwinds _) ?_
  apply step_failsFast rfl
  refine videoRegisterDevice_failsFast errM2mDecDevRel_unwinds ?_
  refine videoRegisterDevice_failsFast (errVideoEncoderDevUnreg_unwinds _) ?_
  exact attempt_failsFast rfl (errVideoDecoderDevUnreg_unwinds _ _) .ret

end FailsFast

/-- Whatever the calls answer, probe succeeds when none of its calls fails and else returns the
error of the first that does, after which it makes only releasing calls. -/
theorem probe_first_failure (irqs : IrqHandlers) (o : Call → Bool) :
    (probe irqs).result o =
        ((probeCalls irqs).find? fun c => !o c.1).elim (.ok bound) (fun c => .error c.2) ∧
      ∀ before c after, (probe irqs).trace o = before ++ (c, false) :: after →
        c.fallible = true → ∀ d ∈ after, d.1.Releases :=
  ⟨(probe_failsFast irqs).result_eq o,
    fun _ _ _ htrace hc => (probe_failsFast irqs).trace_mem hc htrace⟩

end RockchipVpu.Device
