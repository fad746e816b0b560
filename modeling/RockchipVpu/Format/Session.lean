import RockchipVpu.Base.Transition
import RockchipVpu.Format.Encoder

/-! One encoder context as a transition system: the format ioctls, with any
queue states, and the stream calls that touch the context, in any order from
`open`. Beside it the lookup facts for the two variants and one equation for each
negotiation function. -/

namespace RockchipVpu.Format

open Base

/-! ### Lookup -/

theorem findFormat_some {v : Variant} {fourcc : U32} {fmt : Fmt}
    (h : findFormat v fourcc = some fmt) : fmt ∈ v.encFmts ∧ fmt.fourcc = fourcc :=
  ⟨List.mem_of_find?_eq_some h, by simpa using List.find?_some h⟩

/-- With distinct fourccs an entry is found under its own. -/
theorem findFormat_self {v : Variant} (hv : (v.encFmts.map Fmt.fourcc).Nodup) {fmt : Fmt}
    (h : fmt ∈ v.encFmts) : findFormat v fmt.fourcc = some fmt := by
  cases hf : findFormat v fmt.fourcc with
  | none =>
    have := List.find?_eq_none.mp hf fmt h
    simp at this
  | some g =>
    obtain ⟨hg, hfour⟩ := findFormat_some hf
    rw [List.inj_on_of_nodup_map hv hg h hfour]

/-- The raw entry that the resets and TRY_FMT(OUTPUT) fall back to. -/
def Chip.defaultRaw : Chip → Fmt
  | .rk3288 => rk3288VpuEncFmts[0]
  | .rk3399 => rk3399VpuEncFmts[0]

/-- The codec entry that the resets and TRY_FMT(CAPTURE) fall back to. -/
def Chip.defaultCodec : Chip → Fmt
  | .rk3288 => rk3288VpuEncFmts[4]
  | .rk3399 => rk3399VpuEncFmts[4]

@[simp] theorem getDefaultFmt_raw (chip : Chip) :
    getDefaultFmt chip.variant false = some chip.defaultRaw := by
  cases chip <;> rfl

@[simp] theorem getDefaultFmt_codec (chip : Chip) :
    getDefaultFmt chip.variant true = some chip.defaultCodec := by
  cases chip <;> rfl

/-- The entry TRY_FMT works with: the one named, or else the default. -/
def chosenFmt (chip : Chip) (bitstream : Bool) (fourcc : U32) : Fmt :=
  (findFormat chip.variant fourcc).getD
    (if bitstream then chip.defaultCodec else chip.defaultRaw)

theorem chosenFmt_mem (chip : Chip) (b : Bool) (fourcc : U32) :
    chosenFmt chip b fourcc ∈ chip.variant.encFmts := by
  unfold chosenFmt
  cases h : findFormat chip.variant fourcc with
  | some fmt => exact (findFormat_some h).1
  | none => cases b <;> cases chip <;> decide

theorem findFormat_chosenFmt (chip : Chip) (b : Bool) (fourcc : U32) :
    findFormat chip.variant (chosenFmt chip b fourcc).fourcc = some (chosenFmt chip b fourcc) :=
  findFormat_self (chip_sound chip).distinct (chosenFmt_mem chip b fourcc)

/-- An entry's own fourcc chooses it on either queue. -/
theorem chosenFmt_self (chip : Chip) (b : Bool) {fmt : Fmt} (h : fmt ∈ chip.variant.encFmts) :
    chosenFmt chip b fmt.fourcc = fmt := by
  rw [chosenFmt, findFormat_self (chip_sound chip).distinct h, Option.getD_some]

/-- The lookup of TRY_FMT always succeeds, and the format carries the fourcc of
the entry it works with. -/
theorem pickFormat_eq (chip : Chip) (b : Bool) (pixMp : PixFormatMplane) :
    pickFormat chip.variant b pixMp =
      some (chosenFmt chip b pixMp.pixelformat,
        { pixMp with pixelformat := (chosenFmt chip b pixMp.pixelformat).fourcc }) := by
  unfold pickFormat chosenFmt
  cases h : findFormat chip.variant pixMp.pixelformat with
  | some fmt =>
    obtain ⟨-, hf⟩ := findFormat_some h
    simp [hf]
  | none => cases b <;> simp

/-! ### Plane sizes -/

/-- A loop that rewrites one plane after the other. -/
theorem foldl_setPlane {l : List Plane} (hl : l.Nodup) (g : Plane → PlanePixFormat → PlanePixFormat)
    (p : PixFormatMplane) :
    l.foldl (fun p i => p.setPlane i (g i (p.planeFmt i))) p =
      { p with planeFmt := fun i => if i ∈ l then g i (p.planeFmt i) else p.planeFmt i } := by
  induction l generalizing p with
  | nil => rfl
  | cons j l ih =>
    obtain ⟨hj, hl⟩ := List.nodup_cons.mp hl
    rw [List.foldl_cons, ih hl]
    simp only [PixFormatMplane.setPlane, PixFormatMplane.mk.injEq, true_and, and_true]
    funext i
    by_cases hij : i = j
    · subst hij
      simp [hj]
    · by_cases hi : i ∈ l <;> simp [hi, hij]

theorem foldl_planesOf (n : ℕ) (g : Plane → PlanePixFormat → PlanePixFormat)
    (p : PixFormatMplane) :
    (planesOf n).foldl (fun p i => p.setPlane i (g i (p.planeFmt i))) p =
      { p with planeFmt := fun i => if i.val < n then g i (p.planeFmt i) else p.planeFmt i } := by
  have hnd : (planesOf n).Nodup := (List.nodup_finRange _).filter _
  simp only [foldl_setPlane hnd g p, mem_planesOf]

/-- One plane of `calculate_plane_sizes`. -/
def planeSizes (fmt : Fmt) (w h : U32) (i : Plane) : PlanePixFormat where
  sizeimage := h * (w * fmt.depthAt i / 8)
  bytesperline := w * fmt.depthAt i / 8

theorem calculatePlaneSizes_eq (fmt : Fmt) (pixMp : PixFormatMplane) :
    calculatePlaneSizes fmt pixMp =
      { pixMp with
        planeFmt := fun i =>
          if i.val < fmt.numPlanes then planeSizes fmt pixMp.width pixMp.height i
          else pixMp.planeFmt i } :=
  foldl_planesOf fmt.numPlanes (fun i _ => planeSizes fmt pixMp.width pixMp.height i) pixMp

/-! ### The negotiation functions as equations -/

theorem needAlignment_eq_false {dmaAlign : U32} {fmt : Fmt} {pixMp : PixFormatMplane} :
    needAlignment dmaAlign fmt pixMp = false ↔
      ∀ i : Plane, i.val < fmt.numPlanes →
        isAligned (pixMp.planeFmt i).sizeimage dmaAlign = true := by
  simp [needAlignment]

/-- The raw format a reset stores: the smallest frame of the destination. -/
def resetSrcFmt (src dst : Fmt) (c : Colorimetry) : PixFormatMplane :=
  calculatePlaneSizes src {
    numPlanes := src.numPlanes
    width := clamp 0 dst.frmsize.minWidth dst.frmsize.maxWidth
    height := clamp 0 dst.frmsize.minHeight dst.frmsize.maxHeight
    pixelformat := src.fourcc
    field := fieldNone
    colorimetry := c }

@[simp] theorem resetSrcFmt_pixelformat (src dst : Fmt) (c : Colorimetry) :
    (resetSrcFmt src dst c).pixelformat = src.fourcc := by
  rw [resetSrcFmt, calculatePlaneSizes_eq]

section Equations
variable {chip : Chip} {ctx : Ctx} (hctx : ctx.variant = chip.variant)
include hctx

theorem vidiocTryFmtCap_eq (f : PixFormatMplane) :
    vidiocTryFmtCap ctx f =
      let fmt := chosenFmt chip true f.pixelformat
      some (.ok, fitCap fmt { f with pixelformat := fmt.fourcc }) := by
  rw [vidiocTryFmtCap, hctx, pickFormat_eq]
  rfl

theorem vidiocTryFmtOut_eq (dmaAlign : U32) {dst : Fmt} (hdst : ctx.vpuDstFmt = some dst)
    (f : PixFormatMplane) :
    vidiocTryFmtOut dmaAlign ctx f =
      let fmt := chosenFmt chip false f.pixelformat
      let frame := fitOut fmt dst { f with pixelformat := fmt.fourcc }
      let taller := alignHeight dmaAlign frame
      some (if needAlignment dmaAlign fmt frame = false then (.ok, frame)
        else if dst.frmsize.maxHeight < taller.height then (.err .einval, taller)
        else (.ok, calculatePlaneSizes fmt taller)) := by
  rw [vidiocTryFmtOut, hctx, pickFormat_eq, hdst]
  simp only [Option.bind_eq_bind, Option.bind_some, Bool.not_eq_true']
  split_ifs <;> rfl

theorem encResetSrcFmt_eq {dst : Fmt} (hdst : ctx.vpuDstFmt = some dst) :
    encResetSrcFmt ctx = some { ctx with
      vpuSrcFmt := some chip.defaultRaw
      srcFmt := resetSrcFmt chip.defaultRaw dst ctx.colorimetry } := by
  rw [encResetSrcFmt, hctx, getDefaultFmt_raw, hdst]
  rfl

end Equations

/-! ### What an S_FMT can do -/

/-- S_FMT(OUTPUT) is refused because a guard on the queues holds. -/
def SFmtOutBusy (q : Queues) (ctx : Ctx) (f : PixFormatMplane) : Prop :=
  q.output.streaming = true ∨
    (q.capture.busy = true ∧ f.pixelformat ≠ ctx.srcFmt.pixelformat)

/-- S_FMT(CAPTURE) is refused because a guard on the queues holds. -/
def SFmtCapBusy (q : Queues) (ctx : Ctx) (f : PixFormatMplane) : Prop :=
  q.capture.streaming = true ∨
    (q.output.busy = true ∧ f.pixelformat ≠ ctx.dstFmt.pixelformat)

instance (q : Queues) (ctx : Ctx) (f : PixFormatMplane) : Decidable (SFmtOutBusy q ctx f) :=
  inferInstanceAs (Decidable (_ ∨ _))

instance (q : Queues) (ctx : Ctx) (f : PixFormatMplane) : Decidable (SFmtCapBusy q ctx f) :=
  inferInstanceAs (Decidable (_ ∨ _))

/-- The guards of the handler for the queue named. -/
def SFmtBusy (q : Queues) (ctx : Ctx) (f : PixFormatMplane) : BufType → Prop
  | .output => SFmtOutBusy q ctx f
  | .capture => SFmtCapBusy q ctx f

instance (q : Queues) (ctx : Ctx) (f : PixFormatMplane) :
    (type : BufType) → Decidable (SFmtBusy q ctx f type)
  | .output => inferInstanceAs (Decidable (SFmtOutBusy q ctx f))
  | .capture => inferInstanceAs (Decidable (SFmtCapBusy q ctx f))

/-- The exits of `vidioc_s_fmt_out`, each with the context it leaves behind. -/
inductive SFmtOutExit (dmaAlign : U32) (q : Queues) (ctx : Ctx) (f : PixFormatMplane) :
    Ret → Ctx → PixFormatMplane → Prop
  | streaming (h : q.output.streaming = true) :
      SFmtOutExit dmaAlign q ctx f (.err .ebusy) ctx f
  | peerBusy (hs : q.output.streaming = false) (hb : q.capture.busy = true)
      (hf : f.pixelformat ≠ ctx.srcFmt.pixelformat) :
      SFmtOutExit dmaAlign q ctx f (.err .ebusy) { ctx with colorimetry := f.colorimetry } f
  | refused {e : Errno} {f' : PixFormatMplane} (hq : ¬ SFmtOutBusy q ctx f)
      (ht : vidiocTryFmtOut dmaAlign ctx f = some (.err e, f')) :
      SFmtOutExit dmaAlign q ctx f (.err e) { ctx with colorimetry := f.colorimetry } f'
  | stored {f' : PixFormatMplane} (hq : ¬ SFmtOutBusy q ctx f)
      (ht : vidiocTryFmtOut dmaAlign ctx f = some (.ok, f')) :
      SFmtOutExit dmaAlign q ctx f .ok
        { ctx with
          colorimetry := f.colorimetry
          vpuSrcFmt := findFormat ctx.variant f'.pixelformat
          srcFmt := f' } f'

/-- The exits of `vidioc_s_fmt_cap`; negotiation on this queue never fails. -/
inductive SFmtCapExit (q : Queues) (ctx : Ctx) (f : PixFormatMplane) :
    Ret → Ctx → PixFormatMplane → Prop
  | streaming (h : q.capture.streaming = true) : SFmtCapExit q ctx f (.err .ebusy) ctx f
  | peerBusy (hs : q.capture.streaming = false) (hb : q.output.busy = true)
      (hf : f.pixelformat ≠ ctx.dstFmt.pixelformat) :
      SFmtCapExit q ctx f (.err .ebusy) { ctx with colorimetry := f.colorimetry } f
  | stored {f' : PixFormatMplane} {ctx' : Ctx} (hq : ¬ SFmtCapBusy q ctx f)
      (ht : vidiocTryFmtCap ctx f = some (.ok, f'))
      (hr : encResetSrcFmt { ctx with
          colorimetry := f.colorimetry
          vpuDstFmt := findFormat ctx.variant f'.pixelformat
          dstFmt := f' } = some ctx') :
      SFmtCapExit q ctx f .ok ctx' f'

/-- The guards of each handler are two tests. -/
theorem busy_iff {streaming busy : Bool} {a b : U32} :
    (streaming = true ∨ busy = true ∧ a ≠ b) ↔ streaming = true ∨ (busy && a != b) = true := by
  simp

section Exits
variable {q : Queues} {ctx ctx' : Ctx} {f f' : PixFormatMplane} {r : Ret}

theorem vidiocSFmtOut_exit {dmaAlign : U32}
    (h : vidiocSFmtOut dmaAlign q ctx f = some (r, ctx', f')) :
    SFmtOutExit dmaAlign q ctx f r ctx' f' := by
  have htry : vidiocTryFmtOut dmaAlign { ctx with colorimetry := f.colorimetry } f =
      vidiocTryFmtOut dmaAlign ctx f := rfl
  unfold vidiocSFmtOut at h
  by_cases hs : q.output.streaming = true
  · simp only [hs, ↓reduceIte, Option.some.injEq, Prod.mk.injEq] at h
    obtain ⟨rfl, rfl, rfl⟩ := h
    exact .streaming hs
  · by_cases hb : (q.capture.busy && f.pixelformat != ctx.srcFmt.pixelformat) = true
    · simp only [hs, hb, Bool.false_eq_true, ↓reduceIte, Option.some.injEq, Prod.mk.injEq] at h
      obtain ⟨rfl, rfl, rfl⟩ := h
      obtain ⟨hbusy, hne⟩ := Bool.and_eq_true_iff.mp hb
      exact .peerBusy (by simpa using hs) hbusy (by simpa using hne)
    · have hq : ¬ SFmtOutBusy q ctx f := fun hq => (busy_iff.mp hq).elim hs hb
      simp only [hs, hb, Bool.false_eq_true, ↓reduceIte, htry] at h
      split at h
      · cases h
      · next e p ht =>
        simp only [Option.some.injEq, Prod.mk.injEq] at h
        obtain ⟨rfl, rfl, rfl⟩ := h
        exact .refused hq ht
      · next p ht =>
        simp only [Option.some.injEq, Prod.mk.injEq] at h
        obtain ⟨rfl, rfl, rfl⟩ := h
        exact .stored hq ht

theorem vidiocTryFmtCap_ok {e : Errno} : vidiocTryFmtCap ctx f ≠ some (.err e, f') := by
  unfold vidiocTryFmtCap
  cases pickFormat ctx.variant true f <;> simp

theorem vidiocSFmtCap_exit (h : vidiocSFmtCap q ctx f = some (r, ctx', f')) :
    SFmtCapExit q ctx f r ctx' f' := by
  have htry : vidiocTryFmtCap { ctx with colorimetry := f.colorimetry } f =
      vidiocTryFmtCap ctx f := rfl
  unfold vidiocSFmtCap at h
  by_cases hs : q.capture.streaming = true
  · simp only [hs, ↓reduceIte, Option.some.injEq, Prod.mk.injEq] at h
    obtain ⟨rfl, rfl, rfl⟩ := h
    exact .streaming hs
  · by_cases hb : (q.output.busy && f.pixelformat != ctx.dstFmt.pixelformat) = true
    · simp only [hs, hb, Bool.false_eq_true, ↓reduceIte, Option.some.injEq, Prod.mk.injEq] at h
      obtain ⟨rfl, rfl, rfl⟩ := h
      obtain ⟨hbusy, hne⟩ := Bool.and_eq_true_iff.mp hb
      exact .peerBusy (by simpa using hs) hbusy (by simpa using hne)
    · have hq : ¬ SFmtCapBusy q ctx f := fun hq => (busy_iff.mp hq).elim hs hb
      simp only [hs, hb, Bool.false_eq_true, ↓reduceIte, htry] at h
      split at h
      · cases h
      · next e p ht => exact absurd ht vidiocTryFmtCap_ok
      · next p ht =>
        obtain ⟨c, hc, h⟩ := Option.map_eq_some_iff.mp h
        simp only [Prod.mk.injEq] at h
        obtain ⟨rfl, rfl, rfl⟩ := h
        exact .stored hq ht hc

/-- A refused call changes no stored format and no descriptor. -/
theorem vidiocSFmt_busy {dmaAlign : U32} {type : BufType} (hq : SFmtBusy q ctx f type)
    (h : vidiocSFmt dmaAlign q ctx type f = some (r, ctx', f')) :
    ctx' = { ctx with colorimetry := ctx'.colorimetry } := by
  cases type with
  | output =>
    cases vidiocSFmtOut_exit h with
    | streaming => rfl
    | peerBusy => rfl
    | refused hn => exact absurd hq hn
    | stored hn => exact absurd hq hn
  | capture =>
    cases vidiocSFmtCap_exit h with
    | streaming => rfl
    | peerBusy => rfl
    | stored hn => exact absurd hq hn

end Exits

/-! ### The transition system -/

/-- The calls on a context that read or write its formats. The S_FMT calls carry
the states of both queues. -/
inductive FmtAct
  | tryFmtOut (f : PixFormatMplane)
  | tryFmtCap (f : PixFormatMplane)
  | sFmtOut (q : Queues) (f : PixFormatMplane)
  | sFmtCap (q : Queues) (f : PixFormatMplane)
  | streamon (type : BufType)
  | streamoff (type : BufType)

/-- The context after a call, whatever the call returned. -/
def fmtStep (dmaAlign : U32) (ctx : Ctx) : FmtAct → Option Ctx
  | .tryFmtOut f => (vidiocTryFmtOut dmaAlign ctx f).map fun _ => ctx
  | .tryFmtCap f => (vidiocTryFmtCap ctx f).map fun _ => ctx
  | .sFmtOut q f => (vidiocSFmtOut dmaAlign q ctx f).map (·.2.1)
  | .sFmtCap q f => (vidiocSFmtCap q ctx f).map (·.2.1)
  | .streamon type => startStreaming type ctx
  | .streamoff _ => some ctx

/-- The context of a freshly opened encoder node. -/
def opened (chip : Chip) : Ctx := (openFormats chip.variant).get (by cases chip <;> decide)

theorem openFormats_eq (chip : Chip) : openFormats chip.variant = some (opened chip) :=
  (Option.some_get _).symm

end RockchipVpu.Format
