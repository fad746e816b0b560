import RockchipVpu.Format.Consistent

/-! What TRY_FMT(OUTPUT) answers. The request is clamped to the limits of the codec and
rounded up to macroblocks; if some plane is then no multiple of the DMA unit, the height
is rounded up once more, by a step that makes every plane a multiple. Only this second
rounding can leave the limits, and only where no height within them would do. -/

namespace RockchipVpu.Format

open Base

/-! ### Frames under `calculate_plane_sizes` -/

section Frames
variable (fmt dst : Fmt) (p : PixFormatMplane)

@[simp] theorem calculatePlaneSizes_width : (calculatePlaneSizes fmt p).width = p.width := by
  rw [calculatePlaneSizes_eq]

@[simp] theorem calculatePlaneSizes_height : (calculatePlaneSizes fmt p).height = p.height := by
  rw [calculatePlaneSizes_eq]

@[simp] theorem alignHeight_width (dmaAlign : U32) : (alignHeight dmaAlign p).width = p.width :=
  rfl

theorem toNat_roundUp_mb {x : U32} (hx : x.toNat ≤ 8192) :
    (roundUp x mbDim).toNat = nextMultiple 16 x.toNat :=
  toNat_roundUp (k := 4) rfl (by omega)

variable {dst}

theorem toNat_fitOut_width (hdst : dst.Sound) : (fitOut fmt dst p).width.toNat =
    nextMultiple 16 (clamp p.width dst.frmsize.minWidth dst.frmsize.maxWidth).toNat := by
  rw [fitOut, calculatePlaneSizes_width]
  exact toNat_roundUp_mb ((clamp_le _ _ _).trans hdst.maxWidth_le)

theorem toNat_fitOut_height (hdst : dst.Sound) : (fitOut fmt dst p).height.toNat =
    nextMultiple 16 (clamp p.height dst.frmsize.minHeight dst.frmsize.maxHeight).toNat := by
  rw [fitOut, calculatePlaneSizes_height]
  exact toNat_roundUp_mb ((clamp_le _ _ _).trans hdst.maxHeight_le)

end Frames

/-! ### The exits -/

/-- The exits of `vidioc_try_fmt_out` for descriptor `src`, the format `p` carrying its
fourcc already. -/
inductive TryFmtOutExit (dmaAlign : U32) (src dst : Fmt) (p : PixFormatMplane) :
    Ret → PixFormatMplane → Prop
  | aligned (h : needAlignment dmaAlign src (fitOut src dst p) = false) :
      TryFmtOutExit dmaAlign src dst p .ok (fitOut src dst p)
  | tooTall (h : needAlignment dmaAlign src (fitOut src dst p) = true)
      (hmax : dst.frmsize.maxHeight < (alignHeight dmaAlign (fitOut src dst p)).height) :
      TryFmtOutExit dmaAlign src dst p (.err .einval) (alignHeight dmaAlign (fitOut src dst p))
  | taller (h : needAlignment dmaAlign src (fitOut src dst p) = true)
      (hmax : ¬ dst.frmsize.maxHeight < (alignHeight dmaAlign (fitOut src dst p)).height) :
      TryFmtOutExit dmaAlign src dst p .ok
        (calculatePlaneSizes src (alignHeight dmaAlign (fitOut src dst p)))

theorem vidiocTryFmtOut_exit {chip : Chip} {ctx : Ctx} {dst : Fmt} (dmaAlign : U32)
    (hctx : ctx.variant = chip.variant) (hdst : ctx.vpuDstFmt = some dst)
    (f : PixFormatMplane) :
    ∃ r f', vidiocTryFmtOut dmaAlign ctx f = some (r, f') ∧
      TryFmtOutExit dmaAlign (chosenFmt chip false f.pixelformat) dst
        { f with pixelformat := (chosenFmt chip false f.pixelformat).fourcc } r f' := by
  rw [vidiocTryFmtOut_eq hctx dmaAlign hdst f]
  dsimp only
  split_ifs with hneed hmax
  · exact ⟨_, _, rfl, .aligned hneed⟩
  · exact ⟨_, _, rfl, .tooTall (by simpa using hneed) hmax⟩
  · exact ⟨_, _, rfl, .taller (by simpa using hneed) hmax⟩

/-! ### Plane sizes of a matching format -/

section Sizes
variable {src dst : Fmt} {p : PixFormatMplane} (h : SrcMatches src dst p) {i : Plane}
  (hi : i.val < src.numPlanes)
include h hi

/-- Whole macroblocks of even depth fill whole bytes. -/
theorem SrcMatches.sizeimage_exact : (p.planeFmt i).sizeimage.toNat * 8 =
    p.width.toNat * p.height.toNat * (src.depthAt i).toNat := by
  have h16 : 16 ∣ p.width.toNat * (src.depthAt i).toNat := h.width_dvd.mul_right _
  have hline : p.width.toNat * (src.depthAt i).toNat / 8 * 8 =
      p.width.toNat * (src.depthAt i).toNat :=
    Nat.div_mul_cancel (dvd_trans (by norm_num) h16)
  rw [h.sizeimage_eq i hi, h.bytesperline_eq i hi, mul_assoc, hline]
  ring

/-- A row of macroblocks is a multiple of four bytes, so a quarter of the DMA unit in the
height makes a plane a multiple of the unit. -/
theorem SrcMatches.sizeimage_dvd (hsrc : src.Sound) {s : ℕ} (hs : s ∣ p.height.toNat) :
    4 * s ∣ (p.planeFmt i).sizeimage.toNat := by
  obtain ⟨a, ha⟩ := h.width_dvd
  obtain ⟨b, hb⟩ := hs
  obtain ⟨c, hc⟩ := hsrc.depth_even i
  have hexact := h.sizeimage_exact hi
  have hsize : (p.planeFmt i).sizeimage.toNat * 8 = 4 * s * (a * b * c) * 8 := by
    rw [hexact, ha, hb, hc]
    ring
  exact ⟨a * b * c, Nat.eq_of_mul_eq_mul_right (by norm_num) hsize⟩

end Sizes

/-! ### The answer -/

/-- `f'` is a good answer to the request `f`: whole macroblocks just above the clamped
request, and planes of exactly the right size, each a multiple of the DMA unit. -/
structure Fitted (A : DmaAlign) (v : Variant) (dst : Fmt) (f f' : PixFormatMplane) : Prop where
  width_dvd : 16 ∣ f'.width.toNat
  height_dvd : 16 ∣ f'.height.toNat
  le_width : (clamp f.width dst.frmsize.minWidth dst.frmsize.maxWidth).toNat ≤ f'.width.toNat
  width_lt : f'.width.toNat < (clamp f.width dst.frmsize.minWidth dst.frmsize.maxWidth).toNat + 16
  le_height : (clamp f.height dst.frmsize.minHeight dst.frmsize.maxHeight).toNat ≤
    f'.height.toNat
  height_le : f'.height.toNat ≤ dst.frmsize.maxHeight.toNat
  planes : ∃ src, findFormat v f'.pixelformat = some src ∧ f'.numPlanes = src.numPlanes ∧
    ∀ i : Plane, i.val < src.numPlanes →
      (f'.planeFmt i).sizeimage.toNat * 8 =
          f'.width.toNat * f'.height.toNat * (src.depthAt i).toNat ∧
        2 ^ A.log ∣ (f'.planeFmt i).sizeimage.toNat

/-- All that TRY_FMT(OUTPUT) promises about its result on `f`. -/
structure TryFmtOutSpec (A : DmaAlign) (v : Variant) (dst : Fmt) (f : PixFormatMplane) (r : Ret)
    (f' : PixFormatMplane) : Prop where
  fitted : r = .ok → Fitted A v dst f f'
  failure : ∀ e, r = .err e → e = .einval ∧ ∀ m, 2 ^ A.log / 4 ∣ m →
    nextMultiple 16 (clamp f.height dst.frmsize.minHeight dst.frmsize.maxHeight).toNat ≤ m →
      dst.frmsize.maxHeight.toNat < m
  accepts : 2 ^ A.log ≤ 32768 → r = .ok
  step_ne_zero : ∀ src p, pickFormat v false f = some (src, p) →
    needAlignment A.val src (fitOut src dst p) = true → A.val * 4 / mbDim ≠ 0

/-- A quarter of a DMA unit above 64 bytes. -/
theorem quarter_pow {n : ℕ} (hn : 6 < n) : 2 ^ n / 4 = 2 ^ (n - 2) ∧ 4 * 2 ^ (n - 2) = 2 ^ n := by
  obtain ⟨k, rfl⟩ := Nat.exists_eq_add_of_lt hn
  rw [show 6 + k + 1 = k + 5 + 2 by omega, Nat.add_sub_cancel, pow_add]
  omega

/-- The limits are met by every exit that succeeds, the DMA unit by the second rounding. -/
theorem fitted_exit {chip : Chip} {A : DmaAlign} {src dst : Fmt} {f f' : PixFormatMplane}
    (hsmem : src ∈ chip.variant.encFmts) (hdst : dst.Sound) (hm : SrcMatches src dst f')
    (he : TryFmtOutExit A.val src dst { f with pixelformat := src.fourcc } .ok f') :
    Fitted A chip.variant dst f f' := by
  have hsrc := (chip_sound chip).entry _ hsmem
  set p : PixFormatMplane := { f with pixelformat := src.fourcc }
  have hwidth := toNat_fitOut_width src p hdst
  have hheight := toNat_fitOut_height src p hdst
  have hframe := wholeFrame_fitOut hdst src p
  have hw16 : f'.width = (fitOut src dst p).width := by cases he <;> simp
  have hle : (fitOut src dst p).height.toNat ≤ f'.height.toNat := by
    cases he with
    | aligned => exact le_rfl
    | taller hneed hmax =>
      rw [calculatePlaneSizes_height,
        toNat_alignHeight (needAlignment_log hsrc hdst hneed)
          (hframe.height_le.trans hdst.maxHeight_le)]
      exact le_nextMultiple (Nat.two_pow_pos _) _
  have haligned : ∀ i : Plane, i.val < src.numPlanes →
      2 ^ A.log ∣ (f'.planeFmt i).sizeimage.toNat := by
    intro i hi
    cases he with
    | aligned hneed =>
      exact (isAligned_iff A.toNat_val).mp (needAlignment_eq_false.mp hneed i hi)
    | taller hneed hmax =>
      have hlog := needAlignment_log hsrc hdst hneed
      rw [← (quarter_pow hlog).2]
      refine hm.sizeimage_dvd hi hsrc ?_
      rw [calculatePlaneSizes_height,
        toNat_alignHeight hlog (hframe.height_le.trans hdst.maxHeight_le)]
      exact dvd_nextMultiple _ _
  exact
    { width_dvd := hm.width_dvd
      height_dvd := hm.height_dvd
      le_width := by
        rw [hw16, hwidth]
        exact le_nextMultiple (by norm_num) _
      width_lt := by
        rw [hw16, hwidth]
        exact nextMultiple_lt (by norm_num) _
      le_height := by
        refine le_trans ?_ hle
        rw [hheight]
        exact le_nextMultiple (by norm_num) _
      height_le := hm.height_le
      planes := by
        refine ⟨src, ?_, hm.numPlanes_eq, fun i hi => ⟨hm.sizeimage_exact hi, haligned i hi⟩⟩
        rw [hm.pixelformat_eq]
        exact findFormat_self (chip_sound chip).distinct hsmem }

/-- The second rounding fails only where no multiple of its step is left. -/
theorem tooTall_lt {A : DmaAlign} {src dst : Fmt} {p : PixFormatMplane} (hsrc : src.Sound)
    (hdst : dst.Sound) (hneed : needAlignment A.val src (fitOut src dst p) = true)
    (hmax : dst.frmsize.maxHeight < (alignHeight A.val (fitOut src dst p)).height) {m : ℕ}
    (hdvd : 2 ^ A.log / 4 ∣ m) (hle : (fitOut src dst p).height.toNat ≤ m) :
    dst.frmsize.maxHeight.toNat < m := by
  have hlog := needAlignment_log hsrc hdst hneed
  have hframe := wholeFrame_fitOut hdst src p
  rw [BitVec.lt_def, toNat_alignHeight hlog (hframe.height_le.trans hdst.maxHeight_le)] at hmax
  rw [(quarter_pow hlog).1] at hdvd
  exact hmax.trans_le (nextMultiple_le (Nat.two_pow_pos _) hle hdvd)

theorem defaultCodec_maxHeight (chip : Chip) : chip.defaultCodec.frmsize.maxHeight = 8192 := by
  cases chip <;> rfl

/-- Up to a unit of 32768 the greatest height is itself a multiple of the step, and the
second rounding stays below it. -/
theorem not_tooTall {chip : Chip} {A : DmaAlign} {src : Fmt} {p : PixFormatMplane}
    (hsrc : src.Sound) (hA : 2 ^ A.log ≤ 32768)
    (hneed : needAlignment A.val src (fitOut src chip.defaultCodec p) = true) :
    ¬ chip.defaultCodec.frmsize.maxHeight <
      (alignHeight A.val (fitOut src chip.defaultCodec p)).height := by
  intro hmax
  have hdst := (chip_sound chip).entry _ (defaultCodec_mem chip)
  have hstep : 2 ^ A.log / 4 ∣ 2 ^ 13 := by
    rw [(quarter_pow (needAlignment_log hsrc hdst hneed)).1]
    have hle : A.log ≤ 15 := (Nat.pow_le_pow_iff_right (by norm_num)).mp (hA.trans (by norm_num))
    exact pow_dvd_pow 2 (by omega)
  have hlt := tooTall_lt hsrc hdst hneed hmax hstep
    ((wholeFrame_fitOut hdst src p).height_le.trans hdst.maxHeight_le)
  rw [defaultCodec_maxHeight] at hlt
  exact absurd hlt (by decide)

/-- Where the second rounding is made its step is a power of two. -/
theorem step_ne_zero {A : DmaAlign} {src dst : Fmt} {p : PixFormatMplane} (hsrc : src.Sound)
    (hdst : dst.Sound) (hneed : needAlignment A.val src (fitOut src dst p) = true) :
    A.val * 4 / mbDim ≠ 0 := by
  intro hzero
  have hlog := needAlignment_log hsrc hdst hneed
  have hstep := A.toNat_step (by omega)
  rw [hzero] at hstep
  exact absurd hstep (Nat.two_pow_pos _).ne

/-- TRY_FMT(OUTPUT) on any request, with the JPEG format selected on CAPTURE. -/
theorem tryFmtOut_correct (chip : Chip) (A : DmaAlign) {ctx : Ctx}
    (hctx : ctx.variant = chip.variant) (hdst : ctx.vpuDstFmt = some chip.defaultCodec)
    (f : PixFormatMplane) : ∃ r f', vidiocTryFmtOut A.val ctx f = some (r, f') ∧
      TryFmtOutSpec A chip.variant chip.defaultCodec f r f' := by
  have hsmem := chosenFmt_mem chip false f.pixelformat
  have hs := (chip_sound chip).entry _ hsmem
  have hd := (chip_sound chip).entry _ (defaultCodec_mem chip)
  obtain ⟨r, f', htry, hexit⟩ := vidiocTryFmtOut_exit A.val hctx hdst f
  refine ⟨r, f', htry, ?_, ?_, ?_, ?_⟩
  · rintro rfl
    exact fitted_exit hsmem hd
      (srcMatches_tryFmtOut hctx hdst (defaultCodec_mem chip) htry) hexit
  · rintro e rfl
    cases hexit with
    | tooTall hneed hmax =>
      refine ⟨rfl, fun m hdvd hle => tooTall_lt hs hd hneed hmax hdvd ?_⟩
      rwa [toNat_fitOut_height _ _ hd]
  · intro hA
    cases hexit with
    | aligned => rfl
    | taller => rfl
    | tooTall hneed hmax => exact absurd hmax (not_tooTall hs hA hneed)
  · intro src p hpick hneed
    rw [pickFormat_eq] at hpick
    obtain ⟨rfl, rfl⟩ := Prod.mk.inj (Option.some.inj hpick)
    exact step_ne_zero hs hd hneed

/-- A height of 1081 on a 4096-byte DMA unit. -/
theorem tryFmtOut_correct_unit4096 : ∃ r f',
    vidiocTryFmtOut (DmaAlign.mk 12 (by decide)).val (opened .rk3288)
        { width := 1919, height := 1081, pixelformat := pixFmtNv12m } = some (r, f') ∧
      TryFmtOutSpec ⟨12, by decide⟩ (Chip.rk3288).variant (Chip.rk3288).defaultCodec
        { width := 1919, height := 1081, pixelformat := pixFmtNv12m } r f' :=
  tryFmtOut_correct .rk3288 ⟨12, by decide⟩ rfl rfl _

end RockchipVpu.Format
