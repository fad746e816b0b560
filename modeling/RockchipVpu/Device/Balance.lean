import RockchipVpu.Base.Ledger
import RockchipVpu.Device.Probe

/-! What probe and remove acquire and release by hand. Only probes that fail at a few
places are balanced: every later error path forgets the media device, and remove
forgets the decoder and releases the encoder's node twice. -/

namespace RockchipVpu.Device

open Base Base.Prog

/-- What probe acquires by hand. -/
inductive Resource
  | runtimePm
  | preparedClocks
  | v4l2Device
  | m2mDev (half : Half)
  | mediaDevice
  | mediaRegistration
  | videoDevice (half : Half)
  | videoRegistration (half : Half)
  | mediaController (half : Half)
  deriving DecidableEq

/-- What a call acquires if it succeeds, or releases. `video_unregister_device` drops
the last reference to the node, which runs its `.release`, `video_device_release`. -/
def Call.effects : Call → List (Effect Resource)
  | .pmRuntimeEnable => [.acquire .runtimePm]
  | .pmRuntimeDisable => [.release .runtimePm]
  | .clkBulkPrepare => [.acquire .preparedClocks]
  | .clkBulkUnprepare => [.release .preparedClocks]
  | .v4l2DeviceRegister => [.acquire .v4l2Device]
  | .v4l2DeviceUnregister => [.release .v4l2Device]
  | .m2mInit half => [.acquire (.m2mDev half)]
  | .m2mRelease half => [.release (.m2mDev half)]
  | .mediaDeviceInit => [.acquire .mediaDevice]
  | .mediaDeviceCleanup => [.release .mediaDevice]
  | .mediaDeviceRegister => [.acquire .mediaRegistration]
  | .mediaDeviceUnregister => [.release .mediaRegistration]
  | .videoDeviceAlloc half => [.acquire (.videoDevice half)]
  | .videoDeviceRelease half => [.release (.videoDevice half)]
  | .videoRegisterDevice half => [.acquire (.videoRegistration half)]
  | .videoUnregisterDevice half =>
    [.release (.videoRegistration half), .release (.videoDevice half)]
  | .m2mRegisterMediaController half => [.acquire (.mediaController half)]
  | .m2mUnregisterMediaController half => [.release (.mediaController half)]
  | .devmKzalloc | .ofMatchNode _ | .devmClkBulkGet | .devmIoremapResource
  | .dmaSetCoherentMask | .platformGetIrqByname _ | .devmRequestIrq _ | .variantInit
  | .platformSetDrvdata | .videoSetDrvdata _ => []

/-- The calls whose outcome the driver tests. -/
def Call.fallible : Call → Bool
  | .devmKzalloc | .ofMatchNode _ | .devmClkBulkGet | .devmIoremapResource
  | .dmaSetCoherentMask | .platformGetIrqByname _ | .devmRequestIrq _ | .variantInit
  | .clkBulkPrepare | .v4l2DeviceRegister | .m2mInit _ | .videoDeviceAlloc _
  | .videoRegisterDevice _ | .m2mRegisterMediaController _ | .mediaDeviceRegister => true
  | _ => false

/-- The effects of calls made with the given outcomes. A call that cannot fail has its
effect whatever is assigned to it. -/
def effects (calls : List (Call × Bool)) : List (Effect Resource) :=
  calls.flatMap fun c => if c.2 || !c.1.fallible then c.1.effects else []

/-- The effects of probe, and of the remove that follows when it succeeds. -/
def outcome (o : Call → Bool) (p : Probe) : List (Effect Resource) :=
  effects (p.trace o) ++
    match p.result o with
    | .ok vpu => effects ((remove vpu).trace o)
    | .error _ => []

/-- One bind, and the unbind after it if the bind succeeds. -/
def cycle (irqs : IrqHandlers) (o : Call → Bool) : List (Effect Resource) :=
  outcome o (probe irqs)

/-- Probe fails before it acquires anything by hand, or at the registration of the
V4L2 device or the initialisation of one of the mem2mem devices. -/
def FailsEarly (irqs : IrqHandlers) (o : Call → Bool) : Prop :=
  (∃ c ∈ devmCalls irqs, o c.1 = false) ∨
    o .clkBulkPrepare = true ∧
      (o .v4l2DeviceRegister = false ∨ o (.m2mInit .enc) = false ∨ o (.m2mInit .dec) = false)

section

variable {o : Call → Bool}

/-- Nothing is acquired by hand before `pm_runtime_enable`. -/
theorem devmCalls_effects {irqs : IrqHandlers} {c : Call}
    (h : c ∈ (devmCalls irqs).map Prod.fst) : c.effects = [] := by
  obtain ⟨vepu, vdpu⟩ := irqs
  revert c
  cases vepu <;> cases vdpu <;> decide

theorem effects_eq_nil {calls : List (Call × Bool)} (h : ∀ c ∈ calls, c.1.effects = []) :
    effects calls = [] := by
  refine List.flatMap_eq_nil_iff.mpr fun c hc => ?_
  rw [h c hc, ite_self]

theorem effects_step {ρ : Type*} (c : Call) (next : Prog Call ρ) :
    effects ((step c next).trace o) =
      (if o c || !c.fallible then c.effects else []) ++ effects (next.trace o) := by
  rw [trace_step, effects, List.flatMap_cons]
  rfl

/-- Nothing in remove can fail. -/
theorem remove_effects (vpu : Vpu) (o : Call → Bool) :
    effects ((remove vpu).trace o) = effects ((remove vpu).trace fun _ => true) := by
  simp only [remove]
  split <;> simp only [effects_step, Call.fallible, Bool.not_false, Bool.or_true, trace_ret]

theorem outcome_step (c : Call) (next : Probe) : outcome o (step c next) =
    (if o c || !c.fallible then c.effects else []) ++ outcome o next := by
  rw [outcome, effects_step, result_step, List.append_assoc]
  rfl

theorem outcome_attempt (c : Call) (failed next : Probe) : outcome o (attempt c failed next) =
    if o c then c.effects ++ outcome o next
    else (if c.fallible then [] else c.effects) ++ outcome o failed := by
  cases h : o c with
  | true =>
    rw [outcome, trace_attempt_of_ok h, result_attempt_of_ok h, effects, List.flatMap_cons,
      List.append_assoc]
    rfl
  | false =>
    rw [outcome, trace_attempt_of_failed h, result_attempt_of_failed h, effects,
      List.flatMap_cons, List.append_assoc]
    cases c.fallible <;> rfl

@[simp] theorem outcome_error (e : Errno) : outcome o (.ret (.error e)) = [] := rfl

@[simp] theorem outcome_ok (vpu : Vpu) :
    outcome o (.ret (.ok vpu)) = effects ((remove vpu).trace o) := rfl

theorem cycle_eq_nil {irqs : IrqHandlers} (h : ∃ c ∈ devmCalls irqs, o c.1 = false) :
    cycle irqs o = [] := by
  obtain ⟨htrace, e, he⟩ := attemptAll_of_failed h (powerAndRegister {})
  rw [cycle, outcome, probe, effects_eq_nil fun c hc => devmCalls_effects (htrace c hc), he]
  rfl

theorem cycle_eq_outcome {irqs : IrqHandlers} (h : ∀ c ∈ devmCalls irqs, o c.1 = true) :
    cycle irqs o = outcome o (powerAndRegister {}) := by
  obtain ⟨htrace, hresult⟩ := attemptAll_of_ok h (powerAndRegister {})
  have heffects : effects ((devmCalls irqs).map fun c => (c.1, true)) = [] := by
    refine effects_eq_nil fun c hc => ?_
    obtain ⟨d, hd, rfl⟩ := List.mem_map.mp hc
    exact devmCalls_effects (List.mem_map_of_mem hd)
  rw [cycle, outcome, probe, htrace, hresult, effects, List.flatMap_append]
  exact congrArg (· ++ _ ++ _) heffects

/-- With `held` before it, the program does not end balanced. -/
def Leaks (o : Call → Bool) (held : List (Effect Resource)) (p : Probe) : Prop :=
  ¬ Balanced (held ++ outcome o p)

section Leaks

variable {held : List (Effect Resource)} {c : Call} {failed next : Probe}

theorem leaks_step (hc : c.fallible = false) (h : Leaks o (held ++ c.effects) next) :
    Leaks o held (step c next) := by
  rw [Leaks, outcome_step, hc, Bool.not_false, Bool.or_true, if_pos rfl, ← List.append_assoc]
  exact h

theorem leaks_attempt (hc : c.fallible = true) (hfailed : Leaks o held failed)
    (h : Leaks o (held ++ c.effects) next) : Leaks o held (attempt c failed next) := by
  rw [Leaks, outcome_attempt, hc]
  split
  · rw [← List.append_assoc]
    exact h
  · exact hfailed

theorem leaks_error {e : Errno} (h : ¬ Balanced held) : Leaks o held (.ret (.error e)) := by
  rwa [Leaks, outcome_error, List.append_nil]

theorem leaks_ok {vpu : Vpu}
    (h : ¬ Balanced (held ++ effects ((remove vpu).trace fun _ => true))) :
    Leaks o held (.ret (.ok vpu)) := by
  rwa [Leaks, outcome_ok, remove_effects]

end Leaks

/-- Once the media device is initialised, every path leaves it or the decoder behind. -/
theorem registerNodes_leaks (o : Call → Bool) :
    Leaks o [.acquire .runtimePm, .acquire .preparedClocks, .acquire .v4l2Device,
      .acquire (.m2mDev .enc), .acquire (.m2mDev .dec)] (registerNodes {}) := by
  simp only [registerNodes, videoRegisterDevice, errM2mDecDevRel, errM2mEncDevRel, errV4l2Unreg,
    errClkUnprepare, errVideoEncoderDevUnreg, errVideoDecoderDevUnreg, Vpu.setVfd, if_true]
  repeat' first
    | refine leaks_step rfl ?_
    | refine leaks_attempt rfl ?_ ?_
    | refine leaks_error ?_
    | refine leaks_ok ?_
  all_goals decide

theorem powerAndRegister_balanced_iff (o : Call → Bool) :
    Balanced (outcome o (powerAndRegister {})) ↔ o .clkBulkPrepare = true ∧
      (o .v4l2DeviceRegister = false ∨ o (.m2mInit .enc) = false ∨ o (.m2mInit .dec) = false) := by
  have hnodes := registerNodes_leaks o
  simp only [Leaks, powerAndRegister, outcome_step, outcome_attempt, errM2mEncDevRel, errV4l2Unreg,
    errClkUnprepare, Call.fallible, Call.effects, outcome_error, Bool.not_false, Bool.or_true,
    if_true, List.cons_append, List.nil_append] at hnodes ⊢
  cases o .clkBulkPrepare with
  | false =>
    simp only [Bool.false_eq_true, if_false, false_and]
    decide
  | true =>
    cases o .v4l2DeviceRegister with
    | false =>
      simp only [Bool.false_eq_true, if_true, if_false, true_or, and_true]
      decide
    | true =>
      cases o (.m2mInit .enc) with
      | false =>
        simp only [Bool.false_eq_true, if_true, if_false, true_or, or_true, and_true]
        decide
      | true =>
        cases o (.m2mInit .dec) with
        | false =>
          simp only [Bool.false_eq_true, if_true, if_false, or_true, and_true]
          decide
        | true => simpa using hnodes

end

theorem cycle_balanced_iff (irqs : IrqHandlers) (o : Call → Bool) :
    Balanced (cycle irqs o) ↔ FailsEarly irqs o := by
  rw [FailsEarly]
  by_cases h : ∃ c ∈ devmCalls irqs, o c.1 = false
  · rw [cycle_eq_nil h]
    exact iff_of_true (by decide) (.inl h)
  · have hok : ∀ c ∈ devmCalls irqs, o c.1 = true := by simpa using h
    rw [cycle_eq_outcome hok, powerAndRegister_balanced_iff, or_iff_right h]

/-- Over any sequence of bind and unbind cycles, everything is released exactly once at
the end of each of them exactly when every probe fails early. -/
theorem cycles_balanced_iff (irqs : IrqHandlers) (os : List (Call → Bool)) :
    (∀ p, p <+: os → Balanced (p.flatMap (cycle irqs))) ↔ ∀ o ∈ os, FailsEarly irqs o := by
  rw [balanced_blocks_iff]
  exact forall₂_congr fun o _ => cycle_balanced_iff irqs o

/-- After a bind without a failure and the unbind, the decoder's mem2mem device, node and
media controller are still there, and the encoder's node has been released twice. -/
theorem cycle_unbind_leaks : ¬ Balanced (cycle rockchipIrqHandlers fun _ => true) ∧
    (∀ r ∈ [.m2mDev .dec, .videoDevice .dec, .videoRegistration .dec, .mediaController .dec],
      .release r ∉ cycle rockchipIrqHandlers fun _ => true) ∧
    (cycle rockchipIrqHandlers fun _ => true).count (.release (.videoDevice .enc)) = 2 := by
  decide

end RockchipVpu.Device
