import RockchipVpu.Base.Transition
import RockchipVpu.Device.Controls

/-! The open handles of the two nodes over a history of opens and releases. What is
alive is what is open, and every open encoder context has its controls, exactly as long
as no open gets as far as the control handler and then fails: `err_fh_free` forgets the
m2m context, and the error of a control that cannot be added is read after the handler
has been freed. -/

namespace RockchipVpu.Device

open Base Format

variable {δ : Type*}

structure OpenRecord (δ : Type*) where
  half : Half
  outcome : OpenOutcome δ
  ret : ℤ

/-- The contexts by the number of the open that made them, which of them have an open
handle, and what each open returned. -/
structure Handles (δ : Type*) where
  next : ℕ := 0
  ctx : ℕ → OpenCtx δ := fun _ => {}
  isOpen : ℕ → Bool := fun _ => false
  log : List (OpenRecord δ) := []

inductive HandleAct (δ : Type*)
  | open (half : Half) (o : OpenOutcome δ)
  | release (n : ℕ)

section

variable (table : List RockchipVpuCtrl) (codec : U32)

def handleStep (s : Handles δ) : HandleAct δ → Option (Handles δ)
  | .open half o =>
    let (ret, ctx) := openNode table codec half o
    some { s with
      next := s.next + 1
      ctx := Function.update s.ctx s.next ctx
      isOpen := Function.update s.isOpen s.next (ret = 0)
      log := ⟨half, o, ret⟩ :: s.log }
  | .release n => if s.isOpen n then
      some { s with
        ctx := Function.update s.ctx n (releaseNode (s.ctx n))
        isOpen := Function.update s.isOpen n false }
    else none

/-- Some step of the open fails; on the decoder's node there is no m2m context to make. -/
def OpenRecord.StepFailed (r : OpenRecord δ) : Prop :=
  r.outcome.kzalloc = false ∨ r.half = .dec ∨ r.outcome.m2mCtxInit ≠ none ∨
    r.outcome.handlerInit ≠ none ∨ AddFails table codec r.outcome

/-- What is alive is what is open, every open context has the data of its controls, and
an open of which a step fails has returned an error. -/
structure HandlesBalanced (s : Handles δ) : Prop where
  allocated : ∀ n, (s.ctx n).allocated = s.isOpen n
  m2mCtx : ∀ n, (s.ctx n).m2mCtx = s.isOpen n
  fh : ∀ n, (s.ctx n).fh = s.isOpen n
  ctrlHandler : ∀ n, (s.ctx n).ctrlHandler = s.isOpen n
  found : ∀ n, s.isOpen n = true → ∀ c ∈ table, codec &&& c.codec ≠ 0 →
    findControlData (s.ctx n) c.id ≠ none
  failed : ∀ r ∈ s.log, r.StepFailed table codec → r.ret ≠ 0

/-- An open of the encoder's node that gets as far as its controls sets them up. -/
def SetupSucceeds (_ : Handles δ) : HandleAct δ → Prop
  | .open .enc o => o.kzalloc = true → o.m2mCtxInit = none →
    o.handlerInit = none ∧ ¬ AddFails table codec o
  | _ => True

end

/-! ### Setting up the controls -/

/-- The parts of a context that setting up the controls leaves as they are. -/
def OpenCtx.SameParts (ctx ctx' : OpenCtx δ) : Prop :=
  ctx'.allocated = ctx.allocated ∧ ctx'.m2mCtx = ctx.m2mCtx ∧ ctx'.fh = ctx.fh

section

variable {codec : U32} {o : OpenOutcome δ} {table : List RockchipVpuCtrl} {ctx : OpenCtx δ}
  (hlen : table.length ≤ maxCtrls)
include hlen

theorem ctrlsSetup_of_ok (hinit : o.handlerInit = none) (hadd : ¬ AddFails table codec o)
    (hctrls : ctx.ctrls = List.replicate maxCtrls none) :
    ∃ ctx', ctrlsSetup table codec o ctx = (0, ctx') ∧ ctx'.ctrlHandler = true ∧
      ctx.SameParts ctx' ∧
      ∀ c ∈ table, codec &&& c.codec ≠ 0 → findControlData ctx' c.id ≠ none := by
  have hsetup := ctrlsSetupChecked_of_ok hlen hctrls hinit hadd
  refine ⟨_, ctrlsSetup_of_checked hsetup, rfl, ⟨rfl, rfl, rfl⟩, fun c hc hbit => ?_⟩
  obtain ⟨i, hi⟩ := List.mem_iff_getElem?.mp hc
  cases hdata : o.newCustom i with
  | error e => exact absurd ⟨i, c, hi, hbit, e, hdata⟩ hadd
  | ok data =>
    have hmem : (⟨c.id, data⟩ : V4l2Ctrl δ) ∈ registered codec o table 0 :=
      mem_registered.mpr ⟨i, c, hi, hbit, data, hdata, rfl⟩
    rw [findControlData_withControls, ← Option.isSome_iff_ne_none,
      List.findSome?_isSome_iff]
    exact ⟨_, hmem, by simp [dataFor]⟩

theorem ctrlsSetup_of_init_failed {e : ErrNum} (hinit : o.handlerInit = some e) :
    ctrlsSetup table codec o ctx = (e.ret, { ctx with handlerError := e.ret }) := by
  rw [ctrlsSetup, if_neg (Nat.not_lt.mpr hlen), hinit]
  exact if_pos e.ret_ne_zero

theorem ctrlsSetup_of_add_failed (hinit : o.handlerInit = none) (hadd : AddFails table codec o)
    (hctrls : ctx.ctrls = List.replicate maxCtrls none) :
    ∃ ctx', ctrlsSetup table codec o ctx = (0, ctx') ∧ ctx'.ctrlHandler = false := by
  obtain ⟨ctx', hsetup, hh⟩ := ctrlsSetupChecked_of_add_failed hlen hctrls hinit hadd
  exact ⟨ctx', ctrlsSetup_of_checked hsetup, hh⟩

end

/-! ### Open -/

section

variable {table : List RockchipVpuCtrl} {codec : U32} {o : OpenOutcome δ}

/-- An open that does not get a context with its m2m context leaves nothing behind. -/
theorem openNode_of_early {half : Half}
    (h : o.kzalloc = false ∨ half = .dec ∨ o.m2mCtxInit ≠ none) :
    ∃ e : ErrNum, openNode table codec half o = (e.ret, {}) := by
  rw [openNode]
  cases hk : o.kzalloc with
  | false => exact ⟨enomem, rfl⟩
  | true =>
    cases half with
    | dec => exact ⟨enodev, rfl⟩
    | enc =>
      cases hm : o.m2mCtxInit with
      | some e => exact ⟨e, rfl⟩
      | none => simp [hk, hm] at h

theorem openNode_enc (hk : o.kzalloc = true) (hm : o.m2mCtxInit = none) :
    openNode table codec .enc o =
      let (ret, ctx) := ctrlsSetup table codec o { allocated := true, m2mCtx := true, fh := true }
      if ret ≠ 0 then (ret, { ctx with fh := false, allocated := false }) else (0, ctx) := by
  rw [openNode, hk, if_pos rfl, hm]
  rfl

/-- What one open returns and the context it leaves agree, as they do in a balanced state. -/
structure OpenBalanced (table : List RockchipVpuCtrl) (codec : U32) (half : Half)
    (o : OpenOutcome δ) (ret : ℤ) (ctx : OpenCtx δ) : Prop where
  allocated : ctx.allocated = decide (ret = 0)
  m2mCtx : ctx.m2mCtx = decide (ret = 0)
  fh : ctx.fh = decide (ret = 0)
  ctrlHandler : ctx.ctrlHandler = decide (ret = 0)
  found : ret = 0 → ∀ c ∈ table, codec &&& c.codec ≠ 0 → findControlData ctx c.id ≠ none
  failed : OpenRecord.StepFailed table codec ⟨half, o, ret⟩ → ret ≠ 0

theorem openBalanced_iff (hlen : table.length ≤ maxCtrls) (half : Half) :
    OpenBalanced table codec half o (openNode table codec half o).1
        (openNode table codec half o).2 ↔
      (half = .enc → o.kzalloc = true → o.m2mCtxInit = none →
        o.handlerInit = none ∧ ¬ AddFails table codec o) := by
  by_cases hearly : o.kzalloc = false ∨ half = .dec ∨ o.m2mCtxInit ≠ none
  · obtain ⟨e, he⟩ : ∃ e : ErrNum, openNode table codec half o = (e.ret, {}) :=
      openNode_of_early hearly
    have hret := e.ret_ne_zero
    rw [he]
    refine iff_of_true ⟨by simp [hret], by simp [hret], by simp [hret], by simp [hret],
      fun h => absurd h hret, fun _ => hret⟩ ?_
    rintro rfl hk hm
    simp [hk, hm] at hearly
  · obtain ⟨hk, hhalf, hm⟩ : o.kzalloc = true ∧ half ≠ .dec ∧ o.m2mCtxInit = none := by
      simpa using hearly
    obtain rfl : half = .enc := by cases half <;> simp_all
    simp only [hk, hm, forall_const]
    rw [openNode_enc hk hm]
    cases hinit : o.handlerInit with
    | some e =>
      -- the m2m context is still there
      rw [ctrlsSetup_of_init_failed hlen hinit]
      simp only [if_pos e.ret_ne_zero]
      exact iff_of_false (fun h => by simpa [e.ret_ne_zero] using h.m2mCtx) (by simp)
    | none =>
      have hctrls : ({ allocated := true, m2mCtx := true, fh := true } : OpenCtx δ).ctrls =
          List.replicate maxCtrls none := rfl
      by_cases hadd : AddFails table codec o
      · -- the open returns 0 without a control handler
        obtain ⟨ctx', hsetup, hh⟩ := ctrlsSetup_of_add_failed hlen hinit hadd hctrls
        rw [hsetup]
        exact iff_of_false (fun h => by simpa [hh] using h.ctrlHandler) (by simp [hadd])
      · obtain ⟨ctx', hsetup, hh, ⟨ha, hm', hf⟩, hfound⟩ :=
          ctrlsSetup_of_ok hlen hinit hadd hctrls
        rw [hsetup]
        refine iff_of_true ⟨ha, hm', hf, hh, fun _ => hfound, fun h => ?_⟩ ⟨rfl, hadd⟩
        simp [OpenRecord.StepFailed, hk, hm, hinit, hadd] at h

end

/-! ### Histories -/

section

variable {table : List RockchipVpuCtrl} {codec : U32} {s : Handles δ}

theorem handlesBalanced_open_iff (hs : HandlesBalanced table codec s) (half : Half)
    (o : OpenOutcome δ) (ret : ℤ) (ctx : OpenCtx δ) :
    HandlesBalanced table codec { s with
        next := s.next + 1
        ctx := Function.update s.ctx s.next ctx
        isOpen := Function.update s.isOpen s.next (ret = 0)
        log := ⟨half, o, ret⟩ :: s.log } ↔ OpenBalanced table codec half o ret ctx := by
  constructor
  · rintro ⟨ha, hm, hf, hh, hfound, hfailed⟩
    refine ⟨by simpa using ha s.next, by simpa using hm s.next, by simpa using hf s.next,
      by simpa using hh s.next, fun hret => ?_, hfailed _ List.mem_cons_self⟩
    simpa using hfound s.next (by simpa using hret)
  · rintro ⟨ha, hm, hf, hh, hfound, hfailed⟩
    have hpart {p : OpenCtx δ → Bool} (hp : p ctx = decide (ret = 0))
        (hold : ∀ n, p (s.ctx n) = s.isOpen n) (n : ℕ) :
        p (Function.update s.ctx s.next ctx n) =
          Function.update s.isOpen s.next (decide (ret = 0)) n := by
      by_cases hn : n = s.next
      · subst hn
        simpa using hp
      · simpa [hn] using hold n
    refine ⟨hpart ha hs.allocated, hpart hm hs.m2mCtx, hpart hf hs.fh, hpart hh hs.ctrlHandler,
      fun n hopen => ?_, fun r hr => ?_⟩
    · by_cases hn : n = s.next
      · subst hn
        simpa using hfound (by simpa using hopen)
      · simpa [hn] using hs.found n (by simpa [hn] using hopen)
    · rcases List.mem_cons.mp hr with rfl | hr
      · exact hfailed
      · exact hs.failed r hr

theorem HandlesBalanced.release (hs : HandlesBalanced table codec s) (n : ℕ) :
    HandlesBalanced table codec { s with
      ctx := Function.update s.ctx n (releaseNode (s.ctx n))
      isOpen := Function.update s.isOpen n false } := by
  have hpart {p : OpenCtx δ → Bool} (hp : p (releaseNode (s.ctx n)) = false)
      (hold : ∀ n, p (s.ctx n) = s.isOpen n) (m : ℕ) :
      p (Function.update s.ctx n (releaseNode (s.ctx n)) m) =
        Function.update s.isOpen n false m := by
    by_cases hm : m = n
    · subst hm
      simpa using hp
    · simpa [hm] using hold m
  refine ⟨hpart rfl hs.allocated, hpart rfl hs.m2mCtx, hpart rfl hs.fh, hpart rfl hs.ctrlHandler,
    fun m hopen => ?_, hs.failed⟩
  by_cases hm : m = n
  · subst hm
    simp at hopen
  · simpa [hm] using hs.found m (by simpa [hm] using hopen)

theorem handleStep_balanced_iff (hlen : table.length ≤ maxCtrls)
    (hs : HandlesBalanced table codec s) {a : HandleAct δ} {t : Handles δ}
    (ht : handleStep table codec s a = some t) :
    HandlesBalanced table codec t ↔ SetupSucceeds table codec s a := by
  cases a with
  | «open» half o =>
    have hopen : HandlesBalanced table codec t ↔ OpenBalanced table codec half o
        (openNode table codec half o).1 (openNode table codec half o).2 := by
      obtain rfl := Option.some.inj ht
      exact handlesBalanced_open_iff hs half o _ _
    rw [hopen, openBalanced_iff hlen]
    cases half <;> simp [SetupSucceeds]
  | release n =>
    simp only [handleStep] at ht
    split at ht
    · obtain rfl := Option.some.inj ht
      exact iff_of_true (hs.release n) trivial
    · cases ht

end

theorem handlesBalanced_init (table : List RockchipVpuCtrl) (codec : U32) :
    HandlesBalanced table codec ({} : Handles δ) where
  allocated _ := rfl
  m2mCtx _ := rfl
  fh _ := rfl
  ctrlHandler _ := rfl
  found := by simp
  failed := by simp

/-- Over any history of opens and releases everything stays balanced exactly as long as
every open of the encoder's node that gets as far as its controls sets them up. -/
theorem handles_balanced_iff (cidJpegQuantization codec : U32) (as : List (HandleAct δ)) :
    Throughout (handleStep (controls cidJpegQuantization) codec)
        (HandlesBalanced (controls cidJpegQuantization) codec) {} as ↔
      Along (handleStep (controls cidJpegQuantization) codec)
        (SetupSucceeds (controls cidJpegQuantization) codec) {} as := by
  have hlen : (controls cidJpegQuantization).length ≤ maxCtrls := by
    simp [controls, maxCtrls]
  exact throughout_iff_along (fun _ _ _ _ _ => trivial)
    (fun _ _ _ _ hs ht => handleStep_balanced_iff hlen hs ht) trivial
    (handlesBalanced_init ..) as

/-- Adding the only control fails. -/
def addFails : OpenOutcome ℕ := { newCustom := fun _ => .error enomem }

/-- The control handler cannot be initialised. -/
def initFails : OpenOutcome ℕ := { handlerInit := some enomem, newCustom := fun _ => .ok 0 }

/-- An open whose control cannot be added returns 0 and leaves a context without the
control's data; one whose control handler cannot be initialised returns an error and
leaves its m2m context behind. -/
theorem handles_unbalanced :
    ((openNode (controls 0x9d0905) rkVpuCodecJpeg .enc addFails).1 = 0 ∧
      findControlData (openNode (controls 0x9d0905) rkVpuCodecJpeg .enc addFails).2 0x9d0905 =
        none ∧
      ¬ Throughout (handleStep (controls 0x9d0905) rkVpuCodecJpeg)
        (HandlesBalanced (controls 0x9d0905) rkVpuCodecJpeg) {} [.open .enc addFails]) ∧
    ((openNode (controls 0x9d0905) rkVpuCodecJpeg .enc initFails).2.m2mCtx = true ∧
      ¬ Throughout (handleStep (controls 0x9d0905) rkVpuCodecJpeg)
        (HandlesBalanced (controls 0x9d0905) rkVpuCodecJpeg) {} [.open .enc initFails]) := by
  refine ⟨⟨by decide, by decide, fun h => ?_⟩, by decide, fun h => ?_⟩
  · have hb : HandlesBalanced (controls 0x9d0905) rkVpuCodecJpeg _ := h.2
    exact absurd (hb.ctrlHandler 0) (by decide)
  · have hb : HandlesBalanced (controls 0x9d0905) rkVpuCodecJpeg _ := h.2
    exact absurd (hb.m2mCtx 0) (by decide)

end RockchipVpu.Device
