import RockchipVpu.Format.TryFmt

/-! ENUM_FRAMESIZES of the encoder. The handler hands out the limits of a coded format and knows
nothing of the DMA unit, while TRY_FMT(OUTPUT) applies both. So what is offered for the format
selected on CAPTURE is what TRY_FMT(OUTPUT) leaves as it is, as far as the planes come out
aligned: on units up to 64 bytes they always do, and above it never for every offered size. -/

namespace RockchipVpu.Format

open Base

/-! ### The handler -/

/-- `struct v4l2_frmsizeenum`, its union read as `stepwise`. -/
structure Frmsizeenum where
  index : U32 := 0
  pixelFormat : U32 := 0
  type : U32 := 0
  stepwise : FrmsizeStepwise := {}
  deriving DecidableEq

/-- `V4L2_FRMSIZE_TYPE_STEPWISE`. -/
def frmsizeTypeStepwise : U32 := 3

/-- The handler of both drivers, over the lookup of each. -/
def enumFramesizes (findFormat : U32 → Option Fmt) (fsize : Frmsizeenum) : Ret × Frmsizeenum :=
  if fsize.index ≠ 0 then (.err .einval, fsize)
  else match findFormat fsize.pixelFormat with
    | none => (.err .einval, fsize)
    | some fmt =>
      if fmt.codecMode = .none then (.err .einval, fsize)
      else (.ok, { fsize with type := frmsizeTypeStepwise, stepwise := fmt.frmsize })

/-- `vidioc_enum_framesizes`. -/
def vidiocEnumFramesizes (v : Variant) : Frmsizeenum → Ret × Frmsizeenum :=
  enumFramesizes (findFormat v)

/-- The handler succeeds on index zero of a coded format. -/
theorem enumFramesizes_some {find : U32 → Option Fmt} {fsize : Frmsizeenum} {fmt : Fmt}
    (hindex : fsize.index = 0) (hfind : find fsize.pixelFormat = some fmt)
    (hmode : fmt.codecMode ≠ .none) : enumFramesizes find fsize =
      (.ok, { fsize with type := frmsizeTypeStepwise, stepwise := fmt.frmsize }) := by
  unfold enumFramesizes
  rw [if_neg (not_not.mpr hindex), hfind]
  exact if_neg hmode

/-! ### Offered sizes -/

/-- The side is one of `lo`, `lo + step`, `lo + 2 * step`, ... up to `hi`. -/
structure OffersSide (lo hi step x : U32) : Prop where
  le : lo.toNat ≤ x.toNat
  ge : x.toNat ≤ hi.toNat
  dvd : step.toNat ∣ x.toNat - lo.toNat

structure Offers (sizes : FrmsizeStepwise) (width height : U32) : Prop where
  width : OffersSide sizes.minWidth sizes.maxWidth sizes.stepWidth width
  height : OffersSide sizes.minHeight sizes.maxHeight sizes.stepHeight height

theorem offersSide_mb_iff {lo hi x : U32} (hlo : 16 ∣ lo.toNat) :
    OffersSide lo hi mbDim x ↔ lo.toNat ≤ x.toNat ∧ x.toNat ≤ hi.toNat ∧ 16 ∣ x.toNat := by
  have hstep : mbDim.toNat = 16 := rfl
  constructor
  · rintro ⟨hle, hge, hdvd⟩
    rw [hstep] at hdvd
    exact ⟨hle, hge, by omega⟩
  · rintro ⟨hle, hge, hdvd⟩
    exact ⟨hle, hge, by rw [hstep]; exact Nat.dvd_sub hdvd hlo⟩

/-- With steps of a macroblock the whole frames within the limits are offered. -/
theorem offers_iff_wholeFrame {dst : Fmt} (hd : dst.Sound) (hw : dst.frmsize.stepWidth = mbDim)
    (hh : dst.frmsize.stepHeight = mbDim) (width height : U32) :
    Offers dst.frmsize width height ↔ WholeFrame dst width height := by
  constructor
  · rintro ⟨hwidth, hheight⟩
    rw [hw, offersSide_mb_iff hd.minWidth_dvd] at hwidth
    rw [hh, offersSide_mb_iff hd.minHeight_dvd] at hheight
    exact ⟨hwidth.2.2, hheight.2.2, hwidth.1, hwidth.2.1, hheight.1, hheight.2.1⟩
  · rintro ⟨hwdvd, hhdvd, hlw, hwl, hlh, hhl⟩
    constructor
    · rw [hw, offersSide_mb_iff hd.minWidth_dvd]
      exact ⟨hlw, hwl, hwdvd⟩
    · rw [hh, offersSide_mb_iff hd.minHeight_dvd]
      exact ⟨hlh, hhl, hhdvd⟩

/-! ### Sizes that are kept -/

/-- TRY_FMT(OUTPUT) accepts the request and leaves its size as it is. -/
def KeepsSize (dmaAlign : U32) (ctx : Ctx) (f : PixFormatMplane) : Prop :=
  ∃ f', vidiocTryFmtOut dmaAlign ctx f = some (.ok, f') ∧ f'.width = f.width ∧ f'.height = f.height

/-- The bytes of each plane of a picture of this size fill whole DMA units. -/
def PlanesAligned (A : DmaAlign) (src : Fmt) (width height : U32) : Prop :=
  ∀ i : Plane, i.val < src.numPlanes →
    2 ^ A.log ∣ width.toNat * height.toNat * (src.depthAt i).toNat / 8

section Kept

variable {chip : Chip} {A : DmaAlign} {src dst : Fmt} {p : PixFormatMplane}

theorem SrcMatches.wholeFrame (hm : SrcMatches src dst p) : WholeFrame dst p.width p.height :=
  ⟨hm.width_dvd, hm.height_dvd, hm.le_width, hm.width_le, hm.le_height, hm.height_le⟩

/-- The planes of a matching format are aligned when the bytes of a picture are. -/
theorem SrcMatches.planesAligned_iff (hm : SrcMatches src dst p) :
    PlanesAligned A src p.width p.height ↔
      ∀ i : Plane, i.val < src.numPlanes → 2 ^ A.log ∣ (p.planeFmt i).sizeimage.toNat := by
  refine forall₂_congr fun i hi => ?_
  rw [← hm.sizeimage_exact hi, Nat.mul_div_cancel _ (by norm_num)]

/-- The first rounding leaves a whole frame as it is. -/
theorem fitOut_wholeFrame (hd : dst.Sound) (hframe : WholeFrame dst p.width p.height) :
    (fitOut src dst p).width = p.width ∧ (fitOut src dst p).height = p.height := by
  constructor
  · apply BitVec.eq_of_toNat_eq
    rw [toNat_fitOut_width src p hd, clamp_eq_self hframe.le_width hframe.width_le]
    exact nextMultiple_eq_self (by norm_num) hframe.width_dvd
  · apply BitVec.eq_of_toNat_eq
    rw [toNat_fitOut_height src p hd, clamp_eq_self hframe.le_height hframe.height_le]
    exact nextMultiple_eq_self (by norm_num) hframe.height_dvd

theorem keepsSize_iff {ctx : Ctx} (hctx : ctx.variant = chip.variant)
    (hdst : ctx.vpuDstFmt = some dst) (hmem : dst ∈ chip.variant.encFmts)
    (f : PixFormatMplane) : KeepsSize A.val ctx f ↔ WholeFrame dst f.width f.height ∧
      PlanesAligned A (chosenFmt chip false f.pixelformat) f.width f.height := by
  have hsmem := chosenFmt_mem chip false f.pixelformat
  have hs := (chip_sound chip).entry _ hsmem
  have hd := (chip_sound chip).entry _ hmem
  constructor
  · rintro ⟨f', htry, hw, hh⟩
    have hm := srcMatches_tryFmtOut hctx hdst hmem htry
    obtain ⟨r, f'', htry', hexit⟩ := vidiocTryFmtOut_exit A.val hctx hdst f
    obtain ⟨rfl, rfl⟩ := Prod.mk.inj (Option.some.inj (htry.symm.trans htry'))
    obtain ⟨src, hfind, -, hplanes⟩ := (fitted_exit hsmem hd hm hexit).planes
    rw [hm.pixelformat_eq, findFormat_chosenFmt] at hfind
    obtain rfl := Option.some.inj hfind
    rw [← hw, ← hh]
    exact ⟨hm.wholeFrame, hm.planesAligned_iff.mpr fun i hi => (hplanes i hi).2⟩
  · rintro ⟨hframe, haligned⟩
    set p : PixFormatMplane :=
      { f with pixelformat := (chosenFmt chip false f.pixelformat).fourcc }
    obtain ⟨hw, hh⟩ : (fitOut (chosenFmt chip false f.pixelformat) dst p).width = p.width ∧
        (fitOut (chosenFmt chip false f.pixelformat) dst p).height = p.height :=
      fitOut_wholeFrame hd hframe
    have hm := srcMatches_fitOut (p := p) hs hd rfl
    have hneed : needAlignment A.val (chosenFmt chip false f.pixelformat)
        (fitOut (chosenFmt chip false f.pixelformat) dst p) = false := by
      refine needAlignment_eq_false.mpr fun i hi => ?_
      rw [isAligned_iff A.toNat_val]
      refine hm.planesAligned_iff.mp ?_ i hi
      rw [hw, hh]
      exact haligned
    refine ⟨_, ?_, hw, hh⟩
    rw [vidiocTryFmtOut_eq hctx A.val hdst f]
    exact congrArg some (if_pos hneed)

/-- Whole macroblocks of even depth fill units of 64 bytes. -/
theorem planesAligned_of_le (hs : src.Sound) (hA : A.log ≤ 6) {width height : U32}
    (hw : 16 ∣ width.toNat) (hh : 16 ∣ height.toNat) : PlanesAligned A src width height := by
  intro i _
  obtain ⟨a, ha⟩ := hw
  obtain ⟨b, hb⟩ := hh
  obtain ⟨c, hc⟩ := hs.depth_even i
  have hbytes : width.toNat * height.toNat * (src.depthAt i).toNat / 8 = 2 ^ 6 * (a * b * c) := by
    rw [ha, hb, hc, show 16 * a * (16 * b) * (2 * c) = 8 * (2 ^ 6 * (a * b * c)) by ring]
    exact Nat.mul_div_cancel_left _ (by norm_num)
  rw [hbytes]
  exact (pow_dvd_pow 2 hA).trans (Nat.dvd_mul_right _ _)

end Kept

/-! ### Offered and kept -/

theorem coded_frmsize {chip : Chip} {dst : Fmt} (hmem : dst ∈ chip.variant.encFmts)
    (hcoded : dst.codecMode ≠ .none) : dst.frmsize = jpegFrmsize := by
  revert dst
  cases chip <;> decide

/-- The chroma planes of a planar picture of 7 by 3 macroblocks have 21 times 64 bytes. -/
def sevenByThree : PixFormatMplane where
  width := 112
  height := 48
  pixelformat := pixFmtYuv420m

theorem wholeFrame_sevenByThree {dst : Fmt} (hsizes : dst.frmsize = jpegFrmsize) :
    WholeFrame dst sevenByThree.width sevenByThree.height where
  width_dvd := by decide
  height_dvd := by decide
  le_width := by rw [hsizes]; decide
  width_le := by rw [hsizes]; decide
  le_height := by rw [hsizes]; decide
  height_le := by rw [hsizes]; decide

theorem not_planesAligned_sevenByThree (chip : Chip) {A : DmaAlign} (hA : 6 < A.log) :
    ¬ PlanesAligned A (chosenFmt chip false pixFmtYuv420m) 112 48 := by
  intro h
  have hplane : 2 ^ A.log ∣ 1344 := by
    have := h 1 (by cases chip <;> decide)
    cases chip <;> exact this
  have hdvd : 2 ^ 7 ∣ 1344 := (pow_dvd_pow 2 hA).trans hplane
  exact absurd hdvd (by decide)

/-- In every context whose CAPTURE format is coded, ENUM_FRAMESIZES of that format succeeds, and
TRY_FMT(OUTPUT) keeps a size exactly when it is one of those that are offered and the planes of
the raw format come out aligned. All that is offered is kept exactly on units up to 64 bytes. -/
theorem framesizes_kept_iff (chip : Chip) (A : DmaAlign) {ctx : Ctx} {dst : Fmt}
    (h : Reach (fmtStep A.val) AnyStep (opened chip) ctx) (hdst : ctx.vpuDstFmt = some dst)
    (hcoded : dst.codecMode ≠ .none) : ∃ sizes,
      vidiocEnumFramesizes ctx.variant { pixelFormat := ctx.dstFmt.pixelformat } = (.ok, sizes) ∧
        (∀ f, KeepsSize A.val ctx f ↔ Offers sizes.stepwise f.width f.height ∧
          PlanesAligned A (chosenFmt chip false f.pixelformat) f.width f.height) ∧
        ((∀ f, Offers sizes.stepwise f.width f.height → KeepsSize A.val ctx f) ↔ A.log ≤ 6) := by
  have hc : Consistent chip.variant ctx :=
    h.invariant (consistent_opened chip) fun _ _ _ hc _ hs => consistent_step hc hs
  obtain ⟨hv, -, -, dst', hmem, -, hdst', -, hm⟩ := hc
  obtain rfl : dst = dst' := Option.some.inj (hdst.symm.trans hdst')
  have hd := (chip_sound chip).entry _ hmem
  have hsizes := coded_frmsize hmem hcoded
  have hframe (width height : U32) : Offers dst.frmsize width height ↔
      WholeFrame dst width height :=
    offers_iff_wholeFrame hd (by rw [hsizes]; rfl) (by rw [hsizes]; rfl) width height
  have hfind : findFormat ctx.variant ctx.dstFmt.pixelformat = some dst := by
    rw [hm.pixelformat_eq, hv]
    exact findFormat_self (chip_sound chip).distinct hmem
  refine ⟨_, enumFramesizes_some rfl hfind hcoded, fun f => ?_, ?_, fun hA f hf => ?_⟩
  · rw [keepsSize_iff hv hdst hmem, hframe]
  · intro hall
    by_contra hA
    have hoffers : Offers dst.frmsize sevenByThree.width sevenByThree.height :=
      (hframe _ _).mpr (wholeFrame_sevenByThree hsizes)
    have hkept := (keepsSize_iff hv hdst hmem sevenByThree).mp (hall sevenByThree hoffers)
    exact not_planesAligned_sevenByThree chip (by omega) hkept.2
  · have hwhole := (hframe _ _).mp hf
    have hs := (chip_sound chip).entry _ (chosenFmt_mem chip false f.pixelformat)
    exact (keepsSize_iff hv hdst hmem f).mpr
      ⟨hwhole, planesAligned_of_le hs hA hwhole.width_dvd hwhole.height_dvd⟩

/-- After S_FMT(CAPTURE) with the JPEG format, on a unit of 64 bytes. -/
theorem framesizes_kept_iff_jpeg : ∃ ctx sizes,
    run (fmtStep (DmaAlign.mk 6 (by decide)).val) (opened .rk3288)
        [.sFmtCap ⟨⟨false, false⟩, ⟨false, false⟩⟩
          { width := 1920, height := 1080, pixelformat := pixFmtJpegRaw }] = some ctx ∧
      vidiocEnumFramesizes ctx.variant { pixelFormat := ctx.dstFmt.pixelformat } = (.ok, sizes) ∧
        ∀ f, Offers sizes.stepwise f.width f.height →
          KeepsSize (DmaAlign.mk 6 (by decide)).val ctx f := by
  have hrun : (run (fmtStep (DmaAlign.mk 6 (by decide)).val) (opened .rk3288)
      [.sFmtCap ⟨⟨false, false⟩, ⟨false, false⟩⟩
        { width := 1920, height := 1080, pixelformat := pixFmtJpegRaw }]).bind
          (·.vpuDstFmt) = some (Chip.rk3288).defaultCodec := by decide +kernel
  obtain ⟨ctx, hs, hdst⟩ := Option.bind_eq_some_iff.mp hrun
  obtain ⟨sizes, hok, -, hall⟩ :=
    framesizes_kept_iff .rk3288 ⟨6, by decide⟩ (reach_of_run_any hs) hdst (by decide)
  exact ⟨ctx, sizes, hs, hok, hall.mpr le_rfl⟩

end RockchipVpu.Format
