import RockchipVpu.Device.Lifetime

/-! No user finds the device missing, as long as nodes are opened only between
`video_set_drvdata` and the release of the mem2mem device, the interrupt comes only
while that device is there, and no user is under way when it is released. That the
driver data is set only after the mem2mem device is read off the order of calls in
probe. -/

namespace RockchipVpu.Device

open Base Base.Prog Job

def Core.next : Core → Option Call
  | .probing (.call c _) | .removing (.call c _) => some c
  | _ => none

/-- No open of the encoder, no watchdog and no handler is under way. -/
def Lifetime.Quiet (s : Lifetime) : Prop :=
  s.opening .enc = 0 ∧ s.initing = 0 ∧ s.pending = false ∧
    s.handler .irq = none ∧ s.handler .watchdog = none

instance (s : Lifetime) : Decidable s.Quiet := inferInstanceAs (Decidable (_ ∧ _))

/-- A node is opened after its driver data is set, and the encoder's not after the
mem2mem device is released; no job is started after the release and no interrupt is
taken outside the life of the mem2mem device; its release finds no user under way. -/
def Orderly (s : Lifetime) : LifeAct → Prop
  | .core _ => s.core.next = some (.m2mRelease .enc) → s.Quiet
  | .openEnter half => s.dev.drvdata half = true ∧ (half = .enc → s.dev.m2mEnc ≠ .freed)
  | .startJob => s.dev.m2mEnc ≠ .freed
  | .interrupt => s.dev.m2mEnc = .live
  | _ => True

instance (s : Lifetime) : DecidablePred (Orderly s)
  | .core _ => inferInstanceAs (Decidable (s.core.next = some (.m2mRelease .enc) → s.Quiet))
  | .openEnter half => inferInstanceAs
      (Decidable (s.dev.drvdata half = true ∧ (half = .enc → s.dev.m2mEnc ≠ .freed)))
  | .startJob => inferInstanceAs (Decidable (s.dev.m2mEnc ≠ .freed))
  | .interrupt => inferInstanceAs (Decidable (s.dev.m2mEnc = .live))
  | .unbind | .openDrvdata _ | .openCtxInit _ | .close | .expire | .lookup .. | .finish _ =>
    inferInstanceAs (Decidable True)

/-! ### The order of the calls of probe -/

/-- The rest of the program sets the encoder node's driver data only after it has
initialised the mem2mem device. -/
def Core.Ordered : Core → Prop
  | .probing p => p.OnlyAfter (.m2mInit .enc) (.videoSetDrvdata .enc)
  | .removing p => p.OnlyAfter (.m2mInit .enc) (.videoSetDrvdata .enc)
  | .bound _ | .gone => True

theorem probe_ordered (irqs : IrqHandlers) : (Core.probing (probe irqs)).Ordered := by
  rw [Core.Ordered, probe]
  refine onlyAfter_attemptAll ?_ ?_
  · obtain ⟨vepu, vdpu⟩ := irqs
    cases vepu <;> cases vdpu <;> decide
  · simp [powerAndRegister, errClkUnprepare, errV4l2Unreg]

theorem remove_ordered (vpu : Vpu) : (Core.removing (remove vpu)).Ordered := by
  simp only [Core.Ordered, remove]
  cases vpu.vfdEnc <;> simp

namespace Shared

variable (dev : Shared) (c : Call) (ok : Bool)

theorem call_m2mEnc : (dev.call c ok).m2mEnc =
    if c = .m2mInit .enc ∧ ok = true then .live
    else if c = .m2mRelease .enc then .freed else dev.m2mEnc := by
  unfold call
  split <;> simp_all

theorem call_drvdata (half : Half) :
    (dev.call c ok).drvdata half = (dev.drvdata half || c = .videoSetDrvdata half) := by
  unfold call
  split <;> simp_all [Function.update_apply, eq_comm, Bool.or_comm]

end Shared

/-! ### The invariant -/

structure LifeInv (s : Lifetime) : Prop where
  unset : s.dev.m2mEnc = .unset → s.dev.drvdata .enc = false ∧ s.core.Ordered
  opening : ∀ half, s.opening half ≠ 0 → s.dev.drvdata half = true
  openingEnc : s.opening .enc ≠ 0 → s.dev.m2mEnc = .live
  initing : s.initing ≠ 0 → s.dev.m2mEnc = .live
  handles : s.handles ≠ 0 → s.dev.m2mEnc ≠ .unset
  pending : s.pending = true → s.dev.m2mEnc = .live
  handler : ∀ k, s.handler k ≠ none → s.dev.m2mEnc = .live
  faults : s.faults = []

namespace LifeInv

variable {s : Lifetime}

theorem init (irqs : IrqHandlers) : LifeInv (unbound irqs) where
  unset _ := ⟨rfl, probe_ordered irqs⟩
  opening := by simp [unbound]
  openingEnc := by simp [unbound]
  initing := by simp [unbound]
  handles := by simp [unbound]
  pending := by simp [unbound]
  handler := by simp [unbound]
  faults := rfl

/-- A call of the core. The rest of the program keeps its order as long as the
mem2mem device is not there. -/
theorem call (hi : LifeInv s) {c : Call} {ok : Bool} {core : Core}
    (hquiet : c = .m2mRelease .enc → s.Quiet)
    (hcore : s.core.Ordered → c ≠ .videoSetDrvdata .enc ∧
      (¬(c = .m2mInit .enc ∧ ok = true) → core.Ordered)) :
    LifeInv { s with core := core, dev := s.dev.call c ok } := by
  have hm2m := s.dev.call_m2mEnc c ok
  have hdrv := s.dev.call_drvdata c ok
  by_cases hc : c = .m2mRelease .enc
  · obtain ⟨h1, h2, h3, h4, h5⟩ := hquiet hc
    have hfreed : (s.dev.call c ok).m2mEnc = .freed := by
      rw [hm2m, if_neg (by simp [hc]), if_pos hc]
    refine ⟨by simp [hfreed], fun half h => ?_, absurd h1, absurd h2, by simp [hfreed], by simp [h3],
      fun k h => ?_, hi.faults⟩
    · simp [hdrv, hi.opening half h]
    · cases k <;> simp_all
  · have hlive : s.dev.m2mEnc = .live → (s.dev.call c ok).m2mEnc = .live := by
      intro h
      simp [hm2m, hc, h]
    refine ⟨fun h => ?_, fun half h => ?_, fun h => hlive (hi.openingEnc h),
      fun h => hlive (hi.initing h), fun h => ?_, fun h => hlive (hi.pending h),
      fun k h => hlive (hi.handler k h), hi.faults⟩
    · simp only [hm2m, hc] at h
      split at h
      · cases h
      · obtain ⟨hd, ho⟩ := hi.unset h
        obtain ⟨hne, hnext⟩ := hcore ho
        exact ⟨by simp [hdrv, hd, hne], hnext ‹_›⟩
    · simp [hdrv, hi.opening half h]
    · have := hi.handles h
      simp only [hm2m, hc]
      split
      · simp
      · simpa using this

theorem release (hi : LifeInv s) {t : Lifetime} (hs : s.release = some t) : LifeInv t := by
  rw [Lifetime.release] at hs
  split at hs
  · obtain rfl := Option.some.inj hs
    exact ⟨fun h => ⟨(hi.unset h).1, trivial⟩, hi.opening, hi.openingEnc, hi.initing, hi.handles,
      hi.pending, hi.handler, hi.faults⟩
  · cases hs

theorem core (hi : LifeInv s) {ok : Bool} (hc : Orderly s (.core ok)) {t : Lifetime}
    (hs : lifeStep s (.core ok) = some t) : LifeInv t := by
  simp only [lifeStep] at hs
  split at hs
  · rename_i c next hcore
    obtain rfl := Option.some.inj hs
    refine hi.call (fun h => hc (by rw [hcore, Core.next, h])) fun ho => ?_
    rw [hcore] at ho
    exact ⟨ho.1, OnlyAfter.next ho⟩
  · obtain rfl := Option.some.inj hs
    exact ⟨fun h => ⟨(hi.unset h).1, trivial⟩, hi.opening, hi.openingEnc, hi.initing, hi.handles,
      hi.pending, hi.handler, hi.faults⟩
  · exact hi.release hs
  · rename_i c next hcore
    obtain rfl := Option.some.inj hs
    refine hi.call (fun h => hc (by rw [hcore, Core.next, h])) fun ho => ?_
    rw [hcore] at ho
    exact ⟨ho.1, OnlyAfter.next ho⟩
  · exact hi.release hs
  · cases hs
  · cases hs

/-- A handler that starts, goes on or ends while the mem2mem device is there. -/
theorem setHandler (hi : LifeInv s) (hlive : s.dev.m2mEnc = .live) (k : Kind)
    (pc : Option HandlerPc) {pending : Bool} (hpending : pending = true → s.pending = true) :
    LifeInv ({ s with pending := pending }.setHandler k pc) where
  unset := hi.unset
  opening := hi.opening
  openingEnc := hi.openingEnc
  initing := hi.initing
  handles := hi.handles
  pending h := hi.pending (hpending h)
  handler _ _ := hlive
  faults := hi.faults

theorem step (hi : LifeInv s) {a : LifeAct} (hc : Orderly s a) {t : Lifetime}
    (hs : lifeStep s a = some t) : LifeInv t := by
  have huse : ∀ f, s.dev.m2mEnc = .live → s.useM2m f = s := fun f h => if_pos h
  cases a with
  | core ok => exact hi.core hc hs
  | unbind =>
    simp only [lifeStep] at hs
    split at hs
    · obtain rfl := Option.some.inj hs
      exact ⟨fun h => ⟨(hi.unset h).1, remove_ordered _⟩, hi.opening, hi.openingEnc, hi.initing,
        hi.handles, hi.pending, hi.handler, hi.faults⟩
    · cases hs
  | openEnter half =>
    simp only [lifeStep] at hs
    split at hs
    · obtain rfl := Option.some.inj hs
      obtain ⟨hdrv, hfreed⟩ := hc
      refine ⟨hi.unset, fun half' h => ?_, fun h => ?_, hi.initing, hi.handles, hi.pending,
        hi.handler, hi.faults⟩
      · by_cases hh : half' = half
        · exact hh ▸ hdrv
        · exact hi.opening half' (by simpa [hh] using h)
      · by_cases hh : half = .enc
        · subst hh
          -- the driver data is set only after the mem2mem device
          have hunset : s.dev.m2mEnc ≠ .unset := fun h => by simp [(hi.unset h).1] at hdrv
          have := hfreed rfl
          cases hm : s.dev.m2mEnc <;> simp_all
        · exact hi.openingEnc (by simpa [Ne.symm hh] using h)
    · cases hs
  | openDrvdata half =>
    simp only [lifeStep] at hs
    split at hs
    case isTrue => cases hs
    rename_i hopen
    rw [if_pos (hi.opening half hopen)] at hs
    have hother : ∀ half', Function.update s.opening half (s.opening half - 1) half' ≠ 0 →
        s.opening half' ≠ 0 := by
      intro half' h
      by_cases hh : half' = half
      · exact hh ▸ hopen
      · simpa [hh] using h
    obtain rfl := Option.some.inj hs
    cases half with
    | enc => exact ⟨hi.unset, fun half' h => hi.opening half' (hother half' h),
        fun h => hi.openingEnc (hother _ h), fun _ => hi.openingEnc hopen, hi.handles, hi.pending,
        hi.handler, hi.faults⟩
    | dec => exact ⟨hi.unset, fun half' h => hi.opening half' (hother half' h),
        fun h => hi.openingEnc (hother _ h), hi.initing, hi.handles, hi.pending, hi.handler,
        hi.faults⟩
  | openCtxInit ok =>
    simp only [lifeStep] at hs
    split at hs
    case isTrue => cases hs
    rename_i hinit
    have hlive := hi.initing hinit
    simp only [Lifetime.useM2m, hlive, if_true] at hs
    obtain rfl := Option.some.inj hs
    cases ok with
    | false => exact ⟨hi.unset, hi.opening, hi.openingEnc, fun _ => hlive, hi.handles, hi.pending,
        hi.handler, hi.faults⟩
    | true => exact ⟨hi.unset, hi.opening, hi.openingEnc, fun _ => hlive,
        fun _ => by simp [hlive], hi.pending, hi.handler, hi.faults⟩
  | close =>
    simp only [lifeStep] at hs
    split at hs
    case isTrue => cases hs
    obtain rfl := Option.some.inj hs
    exact ⟨hi.unset, hi.opening, hi.openingEnc, hi.initing, fun _ => hi.handles ‹_›, hi.pending,
      hi.handler, hi.faults⟩
  | startJob =>
    simp only [lifeStep] at hs
    split at hs
    case isTrue => cases hs
    rename_i hopen
    obtain rfl := Option.some.inj hs
    have hlive : s.dev.m2mEnc = .live := by
      have := hi.handles hopen
      cases hm : s.dev.m2mEnc <;> simp_all [Orderly]
    exact ⟨hi.unset, hi.opening, hi.openingEnc, hi.initing, hi.handles, fun _ => hlive,
      hi.handler, hi.faults⟩
  | interrupt =>
    simp only [lifeStep] at hs
    split at hs
    · obtain rfl := Option.some.inj hs
      exact hi.setHandler hc .irq _ id
    · cases hs
  | expire =>
    simp only [lifeStep] at hs
    split at hs
    · obtain rfl := Option.some.inj hs
      exact hi.setHandler (hi.pending ‹_ ∧ _›.1) .watchdog _ (by simp)
    · cases hs
  | lookup k found =>
    simp only [lifeStep] at hs
    split at hs
    · have hlive := hi.handler k (by simp [*])
      rw [huse _ hlive] at hs
      obtain rfl := Option.some.inj hs
      cases k with
      | irq => exact hi.setHandler hlive .irq _ (by simp)
      | watchdog => exact hi.setHandler hlive .watchdog _ id
    · cases hs
  | finish k =>
    simp only [lifeStep] at hs
    split at hs
    · have hlive := hi.handler k (by simp [*])
      rw [huse _ hlive] at hs
      obtain rfl := Option.some.inj hs
      exact hi.setHandler hlive k _ id
    · cases hs

end LifeInv

/-- In an orderly run no open finds unset driver data, and no open, interrupt handler or
watchdog worker finds the mem2mem device not there. -/
theorem faults_eq_nil_of_orderly {irqs : IrqHandlers} {s : Lifetime}
    (h : Reach lifeStep Orderly (unbound irqs) s) : s.faults = [] :=
  (h.invariant (LifeInv.init irqs) fun _ _ _ hi hc hs => hi.step hc hs).faults

/-- Successful calls of the driver core. -/
def calls (n : ℕ) : List LifeAct := List.replicate n (.core true)

/-- A job that its interrupt ends, between a probe and a remove without failures. -/
def oneJob : List LifeAct := List.flatten [calls 29,
  [.openEnter .enc, .openDrvdata .enc, .openCtxInit true, .startJob, .interrupt,
    .lookup .irq true, .finish .irq, .close, .unbind], calls 10]

theorem faults_eq_nil_oneJob :
    ∃ s, run lifeStep (unbound rockchipIrqHandlers) oneJob = some s ∧ s.faults = [] := by
  have hsome : (run lifeStep (unbound rockchipIrqHandlers) oneJob).isSome := by decide
  have hc : Along lifeStep Orderly (unbound rockchipIrqHandlers) oneJob := by decide
  obtain ⟨s, hs⟩ := Option.isSome_iff_exists.mp hsome
  exact ⟨s, hs, faults_eq_nil_of_orderly (reach_of_run hc hs)⟩

/-- An interrupt before `v4l2_m2m_init`, an open right after `video_register_device`, an
open between the release of the mem2mem device and the unregistration of the node, and
a watchdog that expires after remove. -/
def disorderly : List LifeAct := List.flatten [
  calls 7, [.interrupt, .lookup .irq false],
  calls 13, [.openEnter .enc, .openDrvdata .enc],
  calls 9, [.openEnter .enc, .openDrvdata .enc, .openCtxInit true, .startJob, .unbind],
  calls 3, [.openEnter .enc, .openDrvdata .enc, .openCtxInit false],
  calls 7, [.expire, .lookup .watchdog false]]

theorem faults_disorderly : ∃ s, Reach lifeStep AnyStep (unbound rockchipIrqHandlers) s ∧
    s.faults = [.handlerM2m .watchdog, .openM2m, .unsetDrvdata .enc, .handlerM2m .irq] := by
  have hrun : (run lifeStep (unbound rockchipIrqHandlers) disorderly).map Lifetime.faults =
      some [.handlerM2m .watchdog, .openM2m, .unsetDrvdata .enc, .handlerM2m .irq] := by decide
  obtain ⟨s, hs, hf⟩ := Option.map_eq_some_iff.mp hrun
  exact ⟨s, reach_of_run_any hs, hf⟩

end RockchipVpu.Device
