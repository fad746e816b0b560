import RockchipVpu.Format.Session

/-! What the stored formats of an encoder context always satisfy. A source format
matches its descriptor and lies, in whole macroblocks, between the limits of the
destination descriptor; a destination format lies between its own limits; every
size is the exact product of natural numbers. Each format the negotiation
functions produce has these properties, so every reachable context has them. -/

namespace RockchipVpu.Format

open Base

/-- A result of `dma_get_cache_alignment`: a power of two below `2 ^ 30`. -/
structure DmaAlign where
  log : ℕ
  log_lt : log < 30

def DmaAlign.val (a : DmaAlign) : U32 := BitVec.ofNat 32 (2 ^ a.log)

theorem DmaAlign.toNat_val (a : DmaAlign) : a.val.toNat = 2 ^ a.log := by
  rw [DmaAlign.val, BitVec.toNat_ofNat]
  exact Nat.mod_eq_of_lt (Nat.pow_lt_pow_right (by norm_num) (a.log_lt.trans (by norm_num)))

/-- The step `dma_align * 4 / MB_DIM` of the second rounding. -/
theorem DmaAlign.toNat_step (a : DmaAlign) (ha : 2 ≤ a.log) :
    (a.val * 4 / mbDim).toNat = 2 ^ (a.log - 2) := by
  obtain ⟨k, hk⟩ := Nat.exists_eq_add_of_le ha
  have hlt : 2 ^ k < 2 ^ 28 := Nat.pow_lt_pow_right (by norm_num) (by have := a.log_lt; omega)
  have hval : a.val.toNat = 4 * 2 ^ k := by rw [a.toNat_val, hk, pow_add]; norm_num
  have hmul : (a.val * 4).toNat = 16 * 2 ^ k := by
    rw [BitVec.toNat_mul, hval, show (4 : U32).toNat = 4 from rfl, Nat.mod_eq_of_lt (by omega)]
    omega
  rw [BitVec.toNat_udiv, hmul, show mbDim.toNat = 16 from rfl,
    Nat.mul_div_cancel_left _ (by norm_num)]
  congr 1
  omega

theorem toNat_mbCount {x : U32} (hx : x.toNat ≤ 8192) : (mbCount x).toNat = x.toNat ⌈/⌉ 16 :=
  toNat_divRoundUp (by decide) (by have hd : mbDim.toNat = 16 := rfl; omega)

theorem mbCount_le_iff {x : U32} {n : ℕ} (hx : x.toNat ≤ 8192) :
    (mbCount x).toNat ≤ n ↔ x.toNat ≤ 16 * n := by
  rw [toNat_mbCount hx]
  exact ceilDiv_le_iff_le_mul (by norm_num)

/-- Macroblocks cover a whole number of them exactly. -/
theorem mbCount_mul {x : U32} (hx : 16 ∣ x.toNat) (hle : x.toNat ≤ 8192) :
    16 * (mbCount x).toNat = x.toNat := by
  rw [toNat_mbCount hle, mul_comm]
  exact nextMultiple_eq_self (by norm_num) hx

/-! ### The invariant -/

/-- A source format negotiated for descriptor `src` while `dst` is selected. -/
structure SrcMatches (src dst : Fmt) (pixMp : PixFormatMplane) : Prop where
  pixelformat_eq : pixMp.pixelformat = src.fourcc
  numPlanes_eq : pixMp.numPlanes = src.numPlanes
  width_dvd : 16 ∣ pixMp.width.toNat
  height_dvd : 16 ∣ pixMp.height.toNat
  le_width : dst.frmsize.minWidth.toNat ≤ pixMp.width.toNat
  width_le : pixMp.width.toNat ≤ dst.frmsize.maxWidth.toNat
  le_height : dst.frmsize.minHeight.toNat ≤ pixMp.height.toNat
  height_le : pixMp.height.toNat ≤ dst.frmsize.maxHeight.toNat
  bytesperline_eq : ∀ i : Plane, i.val < src.numPlanes →
    (pixMp.planeFmt i).bytesperline.toNat = pixMp.width.toNat * (src.depthAt i).toNat / 8
  sizeimage_eq : ∀ i : Plane, i.val < src.numPlanes →
    (pixMp.planeFmt i).sizeimage.toNat =
      pixMp.height.toNat * (pixMp.planeFmt i).bytesperline.toNat

/-- A destination format negotiated for descriptor `dst`. -/
structure DstMatches (dst : Fmt) (pixMp : PixFormatMplane) : Prop where
  pixelformat_eq : pixMp.pixelformat = dst.fourcc
  numPlanes_eq : pixMp.numPlanes = dst.numPlanes
  le_width : dst.frmsize.minWidth.toNat ≤ pixMp.width.toNat
  width_le : pixMp.width.toNat ≤ dst.frmsize.maxWidth.toNat
  le_height : dst.frmsize.minHeight.toNat ≤ pixMp.height.toNat
  height_le : pixMp.height.toNat ≤ dst.frmsize.maxHeight.toNat
  sizeimage_eq : (pixMp.planeFmt 0).sizeimage.toNat =
    pixMp.width.toNat * pixMp.height.toNat * dst.maxDepth.toNat

/-- Both descriptors are entries of the variant's encoder table and both stored
formats are formats of theirs. -/
structure Consistent (v : Variant) (ctx : Ctx) : Prop where
  variant_eq : ctx.variant = v
  formats : ∃ src ∈ v.encFmts, ∃ dst ∈ v.encFmts,
    ctx.vpuSrcFmt = some src ∧ ctx.vpuDstFmt = some dst ∧
      SrcMatches src dst ctx.srcFmt ∧ DstMatches dst ctx.dstFmt

/-! ### Products that do not wrap -/

theorem toNat_mul_of_le {a b : U32} {m n : ℕ} (ha : a.toNat ≤ m) (hb : b.toNat ≤ n)
    (h : m * n < 2 ^ 32) : (a * b).toNat = a.toNat * b.toNat := by
  rw [BitVec.toNat_mul, Nat.mod_eq_of_lt (lt_of_le_of_lt (Nat.mul_le_mul ha hb) h)]

section PlaneSizes
variable {fmt : Fmt} (hfmt : fmt.Sound) {w h : U32} (hw : w.toNat ≤ 8192) (hh : h.toNat ≤ 8192)
  (i : Plane)
include hfmt hw

theorem planeSizes_bytesperline :
    (planeSizes fmt w h i).bytesperline.toNat = w.toNat * (fmt.depthAt i).toNat / 8 := by
  have hmul := toNat_mul_of_le hw (hfmt.depth_le i) (by norm_num)
  rw [planeSizes, BitVec.toNat_udiv, hmul]
  rfl

include hh in
theorem planeSizes_sizeimage :
    (planeSizes fmt w h i).sizeimage.toNat =
      h.toNat * (planeSizes fmt w h i).bytesperline.toNat := by
  have hb : (planeSizes fmt w h i).bytesperline.toNat ≤ 16384 := by
    rw [planeSizes_bytesperline hfmt hw]
    have := Nat.mul_le_mul hw (hfmt.depth_le i)
    omega
  exact toNat_mul_of_le hh hb (by norm_num)

include hh in
/-- Planes of whole macroblocks are whole multiples of 64 bytes. -/
theorem planeSizes_dvd (hwd : 16 ∣ w.toNat) (hhd : 16 ∣ h.toNat) :
    64 ∣ (planeSizes fmt w h i).sizeimage.toNat := by
  rw [planeSizes_sizeimage hfmt hw hh, planeSizes_bytesperline hfmt hw]
  obtain ⟨a, ha⟩ := hwd
  obtain ⟨b, hb⟩ := hhd
  obtain ⟨c, hc⟩ := hfmt.depth_even i
  have hline : w.toNat * (fmt.depthAt i).toNat / 8 = 4 * (a * c) := by
    rw [ha, hc, show 16 * a * (2 * c) = 8 * (4 * (a * c)) by ring,
      Nat.mul_div_cancel_left _ (by norm_num)]
  rw [hline, hb]
  exact ⟨b * (a * c), by ring⟩

end PlaneSizes

/-! ### What the negotiation functions produce -/

/-- Whole-macroblock dimensions within the limits of a descriptor. -/
structure WholeFrame (dst : Fmt) (w h : U32) : Prop where
  width_dvd : 16 ∣ w.toNat
  height_dvd : 16 ∣ h.toNat
  le_width : dst.frmsize.minWidth.toNat ≤ w.toNat
  width_le : w.toNat ≤ dst.frmsize.maxWidth.toNat
  le_height : dst.frmsize.minHeight.toNat ≤ h.toNat
  height_le : h.toNat ≤ dst.frmsize.maxHeight.toNat

/-- Filling in the plane sizes of a whole frame gives a matching source format. -/
theorem srcMatches_calculatePlaneSizes {src dst : Fmt} (hsrc : src.Sound) (hdst : dst.Sound)
    {p : PixFormatMplane} (hpix : p.pixelformat = src.fourcc) (hnum : p.numPlanes = src.numPlanes)
    (hframe : WholeFrame dst p.width p.height) :
    SrcMatches src dst (calculatePlaneSizes src p) := by
  have hw := hframe.width_le.trans hdst.maxWidth_le
  have hh := hframe.height_le.trans hdst.maxHeight_le
  rw [calculatePlaneSizes_eq]
  exact
    { pixelformat_eq := hpix
      numPlanes_eq := hnum
      width_dvd := hframe.width_dvd
      height_dvd := hframe.height_dvd
      le_width := hframe.le_width
      width_le := hframe.width_le
      le_height := hframe.le_height
      height_le := hframe.height_le
      bytesperline_eq := fun i hi => by
        simp only [hi, ↓reduceIte]
        exact planeSizes_bytesperline hsrc hw i
      sizeimage_eq := fun i hi => by
        simp only [hi, ↓reduceIte]
        exact planeSizes_sizeimage hsrc hw hh i }

/-- Rounding a clamped side up to macroblocks stays between whole-macroblock limits. -/
theorem roundUp_clamp_mb {x lo hi : U32} (hle : lo.toNat ≤ hi.toNat) (hmax : hi.toNat ≤ 8192)
    (hhi : 16 ∣ hi.toNat) :
    16 ∣ (roundUp (clamp x lo hi) mbDim).toNat ∧
      lo.toNat ≤ (roundUp (clamp x lo hi) mbDim).toNat ∧
      (roundUp (clamp x lo hi) mbDim).toNat ≤ hi.toNat := by
  have hc := clamp_le x lo hi
  have hl := le_clamp (x := x) hle
  have hr : (roundUp (clamp x lo hi) mbDim).toNat = nextMultiple 16 (clamp x lo hi).toNat :=
    toNat_roundUp (k := 4) rfl (by omega)
  rw [hr]
  exact ⟨dvd_nextMultiple _ _, hl.trans (le_nextMultiple (by norm_num) _),
    nextMultiple_le (by norm_num) hc hhi⟩

/-- Clamping zero gives the lower limit, which is in whole macroblocks already. -/
theorem clamp_zero {lo hi : U32} (hle : lo.toNat ≤ hi.toNat) : clamp 0 lo hi = lo := by
  apply BitVec.eq_of_toNat_eq
  rw [toNat_clamp, show (0 : U32).toNat = 0 from rfl]
  omega

theorem wholeFrame_fitOut {dst : Fmt} (hdst : dst.Sound) (fmt : Fmt) (p : PixFormatMplane) :
    WholeFrame dst (fitOut fmt dst p).width (fitOut fmt dst p).height := by
  rw [fitOut, calculatePlaneSizes_eq]
  have hw := roundUp_clamp_mb (x := p.width) hdst.minWidth_le hdst.maxWidth_le hdst.maxWidth_dvd
  have hh := roundUp_clamp_mb (x := p.height) hdst.minHeight_le hdst.maxHeight_le
    hdst.maxHeight_dvd
  exact ⟨hw.1, hh.1, hw.2.1, hw.2.2, hh.2.1, hh.2.2⟩

theorem srcMatches_fitOut {src dst : Fmt} (hsrc : src.Sound) (hdst : dst.Sound)
    {p : PixFormatMplane} (hpix : p.pixelformat = src.fourcc) :
    SrcMatches src dst (fitOut src dst p) := by
  have h := wholeFrame_fitOut hdst src p
  rw [fitOut, calculatePlaneSizes_eq] at h
  exact srcMatches_calculatePlaneSizes hsrc hdst hpix rfl h

/-- Alignment is only ever missing for DMA units above 64 bytes. -/
theorem needAlignment_log {A : DmaAlign} {src dst : Fmt} (hsrc : src.Sound) (hdst : dst.Sound)
    {p : PixFormatMplane} (h : needAlignment A.val src (fitOut src dst p) = true) :
    6 < A.log := by
  by_contra hlog
  have hframe := wholeFrame_fitOut hdst src p
  suffices needAlignment A.val src (fitOut src dst p) = false by simp [this] at h
  rw [needAlignment_eq_false]
  intro i hi
  rw [isAligned_iff A.toNat_val]
  have hdvd : 2 ^ A.log ∣ 2 ^ 6 := pow_dvd_pow 2 (by omega)
  refine hdvd.trans ?_
  rw [fitOut, calculatePlaneSizes_eq] at hframe ⊢
  simp only [hi, ↓reduceIte]
  exact planeSizes_dvd hsrc (hframe.width_le.trans hdst.maxWidth_le)
    (hframe.height_le.trans hdst.maxHeight_le) i hframe.width_dvd hframe.height_dvd

/-- The second rounding, once the alignment is missing, gives the next multiple of
a step that is itself a whole number of macroblocks. -/
theorem toNat_alignHeight {A : DmaAlign} (hA : 6 < A.log) {p : PixFormatMplane}
    (hp : p.height.toNat ≤ 8192) :
    (alignHeight A.val p).height.toNat = nextMultiple (2 ^ (A.log - 2)) p.height.toNat := by
  have hlt : 2 ^ (A.log - 2) ≤ 2 ^ 27 :=
    Nat.pow_le_pow_right (by norm_num) (by have := A.log_lt; omega)
  exact toNat_roundUp (A.toNat_step (by omega)) (by omega)

theorem wholeFrame_alignHeight {A : DmaAlign} {dst : Fmt} (hdst : dst.Sound) (hA : 6 < A.log)
    {p : PixFormatMplane} (hframe : WholeFrame dst p.width p.height)
    (hle : ¬ dst.frmsize.maxHeight < (alignHeight A.val p).height) :
    WholeFrame dst (alignHeight A.val p).width (alignHeight A.val p).height := by
  have hval := toNat_alignHeight hA (hframe.height_le.trans hdst.maxHeight_le)
  have hstep : 16 ∣ 2 ^ (A.log - 2) := pow_dvd_pow 2 (show 4 ≤ A.log - 2 by omega)
  exact
    { width_dvd := hframe.width_dvd
      height_dvd := by rw [hval]; exact hstep.trans (dvd_nextMultiple _ _)
      le_width := hframe.le_width
      width_le := hframe.width_le
      le_height := by
        rw [hval]
        exact hframe.le_height.trans (le_nextMultiple (Nat.two_pow_pos _) _)
      height_le := by rw [BitVec.lt_def] at hle; omega }

/-- A successful TRY_FMT(OUTPUT) hands back a format that matches the entry it chose. -/
theorem srcMatches_tryFmtOut {chip : Chip} {A : DmaAlign} {ctx : Ctx} {dst : Fmt}
    {f f' : PixFormatMplane} (hctx : ctx.variant = chip.variant)
    (hdst : ctx.vpuDstFmt = some dst) (hmem : dst ∈ chip.variant.encFmts)
    (h : vidiocTryFmtOut A.val ctx f = some (.ok, f')) :
    SrcMatches (chosenFmt chip false f.pixelformat) dst f' := by
  have hs := (chip_sound chip).entry _ (chosenFmt_mem chip false f.pixelformat)
  have hd := (chip_sound chip).entry _ hmem
  rw [vidiocTryFmtOut_eq hctx A.val hdst f] at h
  simp only [Option.some.injEq] at h
  split_ifs at h with hneed hmax
  · obtain rfl := (Prod.mk.inj h).2
    exact srcMatches_fitOut hs hd rfl
  · cases (Prod.mk.inj h).1
  · obtain rfl := (Prod.mk.inj h).2
    have hA := needAlignment_log hs hd (by simpa using hneed)
    refine srcMatches_calculatePlaneSizes hs hd ?_ ?_
      (wholeFrame_alignHeight hd hA (wholeFrame_fitOut hd _ _) hmax)
    · simp [alignHeight, fitOut, calculatePlaneSizes_eq]
    · simp [alignHeight, fitOut, calculatePlaneSizes_eq]

/-- The coded size of clamped dimensions does not wrap. -/
theorem dstMatches_setCodedSize {dst : Fmt} (hdst : dst.Sound) {p : PixFormatMplane} {w h : U32}
    (hpix : p.pixelformat = dst.fourcc) (hnum : p.numPlanes = dst.numPlanes)
    (hw : p.width = clamp w dst.frmsize.minWidth dst.frmsize.maxWidth)
    (hh : p.height = clamp h dst.frmsize.minHeight dst.frmsize.maxHeight) :
    DstMatches dst (setCodedSize dst p) := by
  have hwl : p.width.toNat ≤ dst.frmsize.maxWidth.toNat := hw ▸ clamp_le _ _ _
  have hhl : p.height.toNat ≤ dst.frmsize.maxHeight.toNat := hh ▸ clamp_le _ _ _
  have harea := toNat_mul_of_le (hwl.trans hdst.maxWidth_le) (hhl.trans hdst.maxHeight_le)
    (by norm_num)
  have harea_le : (p.width * p.height).toNat ≤ 8192 * 8192 := by
    rw [harea]
    exact Nat.mul_le_mul (hwl.trans hdst.maxWidth_le) (hhl.trans hdst.maxHeight_le)
  exact
    { pixelformat_eq := hpix
      numPlanes_eq := hnum
      le_width := by
        have := le_clamp (x := w) hdst.minWidth_le
        rw [← hw] at this
        exact this
      width_le := hwl
      le_height := by
        have := le_clamp (x := h) hdst.minHeight_le
        rw [← hh] at this
        exact this
      height_le := hhl
      sizeimage_eq := by
        have hsize := toNat_mul_of_le harea_le hdst.maxDepth_le (by norm_num)
        rw [harea] at hsize
        simpa [setCodedSize, PixFormatMplane.setPlane] using hsize }

theorem dstMatches_tryFmtCap {chip : Chip} {ctx : Ctx} {r : Ret} {f f' : PixFormatMplane}
    (hctx : ctx.variant = chip.variant) (h : vidiocTryFmtCap ctx f = some (r, f')) :
    DstMatches (chosenFmt chip true f.pixelformat) f' := by
  have hd := (chip_sound chip).entry _ (chosenFmt_mem chip true f.pixelformat)
  rw [vidiocTryFmtCap_eq hctx f] at h
  simp only [Option.some.injEq] at h
  obtain rfl := (Prod.mk.inj h).2
  exact dstMatches_setCodedSize hd rfl rfl rfl rfl

/-- The raw format both `open` and S_FMT(CAPTURE) fall back to. -/
theorem srcMatches_reset {src dst : Fmt} (hsrc : src.Sound) (hdst : dst.Sound) (c : Colorimetry) :
    SrcMatches src dst (resetSrcFmt src dst c) := by
  apply srcMatches_calculatePlaneSizes hsrc hdst rfl rfl
  simp only [clamp_zero hdst.minWidth_le, clamp_zero hdst.minHeight_le]
  exact ⟨hdst.minWidth_dvd, hdst.minHeight_dvd, le_rfl, hdst.minWidth_le, le_rfl,
    hdst.minHeight_le⟩

/-! ### Every call keeps the formats consistent -/

theorem defaultRaw_mem (chip : Chip) : chip.defaultRaw ∈ chip.variant.encFmts := by
  cases chip <;> decide

theorem defaultCodec_mem (chip : Chip) : chip.defaultCodec ∈ chip.variant.encFmts := by
  cases chip <;> decide

/-- Resetting the source format completes a context whose destination is set. -/
theorem consistent_reset {chip : Chip} {ctx ctx' : Ctx} {dst : Fmt}
    (hctx : ctx.variant = chip.variant) (hdst : ctx.vpuDstFmt = some dst)
    (hmem : dst ∈ chip.variant.encFmts) (hd : DstMatches dst ctx.dstFmt)
    (h : encResetSrcFmt ctx = some ctx') : Consistent chip.variant ctx' := by
  rw [encResetSrcFmt_eq hctx hdst] at h
  obtain rfl := Option.some.inj h
  have hsound := (chip_sound chip).entry
  exact ⟨hctx, chip.defaultRaw, defaultRaw_mem chip, dst, hmem, rfl, hdst,
    srcMatches_reset (hsound _ (defaultRaw_mem chip)) (hsound _ hmem) _, hd⟩

theorem consistent_opened (chip : Chip) : Consistent chip.variant (opened chip) := by
  have hd := (chip_sound chip).entry _ (defaultCodec_mem chip)
  have h := openFormats_eq chip
  simp only [openFormats, encResetDstFmt, getDefaultFmt_codec, Option.bind_eq_bind,
    Option.bind_some] at h
  exact consistent_reset rfl rfl (defaultCodec_mem chip)
    (dstMatches_setCodedSize hd rfl rfl rfl rfl) h

/-- Only the stored formats and the descriptors matter. -/
theorem Consistent.congr {v : Variant} {ctx ctx' : Ctx} (h : Consistent v ctx)
    (hv : ctx'.variant = ctx.variant) (hvs : ctx'.vpuSrcFmt = ctx.vpuSrcFmt)
    (hs : ctx'.srcFmt = ctx.srcFmt) (hvd : ctx'.vpuDstFmt = ctx.vpuDstFmt)
    (hd : ctx'.dstFmt = ctx.dstFmt) : Consistent v ctx' :=
  ⟨hv.trans h.variant_eq, by rw [hvs, hs, hvd, hd]; exact h.formats⟩

/-- The source descriptor a successful S_FMT(OUTPUT) stores is the entry TRY_FMT
worked with. -/
theorem sFmtOut_descriptor {chip : Chip} {A : DmaAlign} {ctx : Ctx} {dst : Fmt}
    {f f' : PixFormatMplane} (hctx : ctx.variant = chip.variant)
    (hdst : ctx.vpuDstFmt = some dst) (hmem : dst ∈ chip.variant.encFmts)
    (h : vidiocTryFmtOut A.val ctx f = some (.ok, f')) :
    findFormat ctx.variant f'.pixelformat = some (chosenFmt chip false f.pixelformat) := by
  rw [hctx, (srcMatches_tryFmtOut hctx hdst hmem h).pixelformat_eq, findFormat_chosenFmt]

/-- The context a successful S_FMT(CAPTURE) leaves, the reset included. -/
theorem sFmtCap_stored {chip : Chip} {ctx ctx' : Ctx} {f f' : PixFormatMplane}
    (hctx : ctx.variant = chip.variant) (ht : vidiocTryFmtCap ctx f = some (.ok, f'))
    (hr : encResetSrcFmt { ctx with
        colorimetry := f.colorimetry
        vpuDstFmt := findFormat ctx.variant f'.pixelformat
        dstFmt := f' } = some ctx') :
    ctx' = { ctx with
      colorimetry := f.colorimetry
      vpuSrcFmt := some chip.defaultRaw
      srcFmt := resetSrcFmt chip.defaultRaw (chosenFmt chip true f.pixelformat) f.colorimetry
      vpuDstFmt := some (chosenFmt chip true f.pixelformat)
      dstFmt := f' } := by
  have hfind : findFormat ctx.variant f'.pixelformat =
      some (chosenFmt chip true f.pixelformat) := by
    rw [hctx, (dstMatches_tryFmtCap hctx ht).pixelformat_eq, findFormat_chosenFmt]
  rw [hfind] at hr
  have heq := hr.symm.trans (encResetSrcFmt_eq (by exact hctx) rfl)
  exact Option.some.inj heq

theorem consistent_sFmtOut {chip : Chip} {A : DmaAlign} {q : Queues} {ctx ctx' : Ctx} {r : Ret}
    {f f' : PixFormatMplane} (hc : Consistent chip.variant ctx)
    (h : vidiocSFmtOut A.val q ctx f = some (r, ctx', f')) : Consistent chip.variant ctx' := by
  cases vidiocSFmtOut_exit h with
  | streaming => exact hc
  | peerBusy => exact hc.congr rfl rfl rfl rfl rfl
  | refused => exact hc.congr rfl rfl rfl rfl rfl
  | stored hq ht =>
    obtain ⟨hv, src, -, dst, hmem, -, hdst, -, hd⟩ := hc
    exact ⟨hv, _, chosenFmt_mem chip false f.pixelformat, dst, hmem,
      sFmtOut_descriptor hv hdst hmem ht, hdst, srcMatches_tryFmtOut hv hdst hmem ht, hd⟩

theorem consistent_sFmtCap {chip : Chip} {q : Queues} {ctx ctx' : Ctx} {r : Ret}
    {f f' : PixFormatMplane} (hc : Consistent chip.variant ctx)
    (h : vidiocSFmtCap q ctx f = some (r, ctx', f')) : Consistent chip.variant ctx' := by
  cases vidiocSFmtCap_exit h with
  | streaming => exact hc
  | peerBusy => exact hc.congr rfl rfl rfl rfl rfl
  | stored hq ht hr =>
    have hd := dstMatches_tryFmtCap hc.variant_eq ht
    obtain rfl := sFmtCap_stored hc.variant_eq ht hr
    have hsound := (chip_sound chip).entry
    have hmem := chosenFmt_mem chip true f.pixelformat
    exact ⟨hc.variant_eq, chip.defaultRaw, defaultRaw_mem chip, _, hmem, rfl, rfl,
      srcMatches_reset (hsound _ (defaultRaw_mem chip)) (hsound _ hmem) _, hd⟩

theorem startStreaming_some {type : BufType} {ctx ctx' : Ctx}
    (h : startStreaming type ctx = some ctx') :
    ∃ dst, ctx.vpuDstFmt = some dst ∧ ctx' = { ctx with
      sequenceOut := if type = .output then 0 else ctx.sequenceOut
      sequenceCap := if type = .capture then 0 else ctx.sequenceCap
      codecOps := ctx.variant.codecOpsAt dst.codecMode } := by
  unfold startStreaming at h
  cases type <;>
  · obtain ⟨dst, hdst, h⟩ := Option.bind_eq_some_iff.mp h
    exact ⟨dst, hdst, (Option.some.inj h).symm⟩

theorem consistent_step {chip : Chip} {A : DmaAlign} {ctx ctx' : Ctx} {a : FmtAct}
    (hc : Consistent chip.variant ctx) (h : fmtStep A.val ctx a = some ctx') :
    Consistent chip.variant ctx' := by
  cases a with
  | tryFmtOut f =>
    obtain ⟨_, -, rfl⟩ := Option.map_eq_some_iff.mp h
    exact hc
  | tryFmtCap f =>
    obtain ⟨_, -, rfl⟩ := Option.map_eq_some_iff.mp h
    exact hc
  | sFmtOut q f =>
    obtain ⟨_, hs, rfl⟩ := Option.map_eq_some_iff.mp h
    exact consistent_sFmtOut hc hs
  | sFmtCap q f =>
    obtain ⟨_, hs, rfl⟩ := Option.map_eq_some_iff.mp h
    exact consistent_sFmtCap hc hs
  | streamon type =>
    obtain ⟨_, -, rfl⟩ := startStreaming_some h
    exact hc.congr rfl rfl rfl rfl rfl
  | streamoff type =>
    obtain rfl := Option.some.inj h
    exact hc

/-- In every state reachable from `open`, whatever was requested in whatever queue
states and whether or not it succeeded, the stored formats are consistent. -/
theorem storedFormats_consistent (chip : Chip) (A : DmaAlign) {ctx : Ctx}
    (h : Reach (fmtStep A.val) AnyStep (opened chip) ctx) : Consistent chip.variant ctx :=
  h.invariant (consistent_opened chip) fun _ _ _ hc _ hs => consistent_step hc hs

/-- A 1080p NV12M source with both queues idle and a 128-byte DMA unit, where the
height is rounded a second time. -/
theorem storedFormats_consistent_nv12m :
    Consistent (Chip.rk3399).variant
      ((run (fmtStep (DmaAlign.mk 7 (by decide)).val) (opened .rk3399)
        [.sFmtOut ⟨⟨false, false⟩, ⟨false, false⟩⟩
          { width := 1920, height := 1080, pixelformat := pixFmtNv12m }]).get (by decide)) :=
  storedFormats_consistent .rk3399 ⟨7, by decide⟩ (reach_of_run_any (Option.some_get _).symm)

end RockchipVpu.Format
