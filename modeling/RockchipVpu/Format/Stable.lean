import RockchipVpu.Format.TryFmt

/-! Negotiation is stable. What TRY_FMT hands back is settled: its frame is already
clamped and rounded, its planes already have their sizes and are aligned, so TRY_FMT
does not change it again. S_FMT of it stores it, and G_FMT, which overlays the
colorimetry kept in the context, reports it as it was given. -/

namespace RockchipVpu.Format

open Base

/-- TRY_FMT on the queue named by the type of the request. -/
def vidiocTryFmt (dmaAlign : U32) (ctx : Ctx) (type : BufType) (f : PixFormatMplane) :
    Option (Ret × PixFormatMplane) :=
  match type with
  | .output => vidiocTryFmtOut dmaAlign ctx f
  | .capture => vidiocTryFmtCap ctx f

/-- G_FMT on the queue named by the type of the request. -/
def vidiocGFmt (ctx : Ctx) : BufType → PixFormatMplane
  | .output => vidiocGFmtOut ctx
  | .capture => vidiocGFmtCap ctx

/-! ### OUTPUT -/

/-- A source format that TRY_FMT(OUTPUT) leaves as it is. -/
structure Settled (A : DmaAlign) (src dst : Fmt) (p : PixFormatMplane) : Prop where
  pixelformat_eq : p.pixelformat = src.fourcc
  numPlanes_eq : p.numPlanes = src.numPlanes
  field_eq : p.field = fieldNone
  frame : WholeFrame dst p.width p.height
  planes_eq : ∀ i : Plane, i.val < src.numPlanes → p.planeFmt i = planeSizes src p.width p.height i
  aligned : ∀ i : Plane, i.val < src.numPlanes →
    isAligned (p.planeFmt i).sizeimage A.val = true

/-- A side that is a whole number of macroblocks within the limits is its own rounding. -/
theorem roundUp_clamp_eq {x lo hi : U32} (hdvd : 16 ∣ x.toNat) (hlo : lo.toNat ≤ x.toNat)
    (hhi : x.toNat ≤ hi.toNat) (hmax : hi.toNat ≤ 8192) : roundUp (clamp x lo hi) mbDim = x := by
  apply BitVec.eq_of_toNat_eq
  rw [clamp_eq_self hlo hhi, toNat_roundUp_mb (hhi.trans hmax)]
  exact nextMultiple_eq_self (by norm_num) hdvd

/-- Filling in plane sizes that are there already. -/
theorem calculatePlaneSizes_eq_self {src : Fmt} {p : PixFormatMplane}
    (h : ∀ i : Plane, i.val < src.numPlanes → p.planeFmt i = planeSizes src p.width p.height i) :
    calculatePlaneSizes src p = p := by
  have hplanes : (fun i : Plane => if i.val < src.numPlanes then planeSizes src p.width p.height i
      else p.planeFmt i) = p.planeFmt := by
    funext i
    by_cases hi : i.val < src.numPlanes
    · simp [hi, h i hi]
    · simp [hi]
  rw [calculatePlaneSizes_eq, hplanes]

section Output
variable {A : DmaAlign} {src dst : Fmt} {p : PixFormatMplane}

theorem Settled.fitOut_eq (hdst : dst.Sound) (h : Settled A src dst p) : fitOut src dst p = p := by
  have hw := roundUp_clamp_eq h.frame.width_dvd h.frame.le_width h.frame.width_le hdst.maxWidth_le
  have hh := roundUp_clamp_eq h.frame.height_dvd h.frame.le_height h.frame.height_le
    hdst.maxHeight_le
  rw [fitOut, hw, hh, ← h.numPlanes_eq, ← h.field_eq]
  exact calculatePlaneSizes_eq_self h.planes_eq

theorem fitOut_planes (src dst : Fmt) (p : PixFormatMplane) {i : Plane} (hi : i.val < src.numPlanes) :
    (fitOut src dst p).planeFmt i =
      planeSizes src (fitOut src dst p).width (fitOut src dst p).height i := by
  rw [fitOut, calculatePlaneSizes_eq]
  simp [hi]

/-- Every successful exit hands back a settled format. -/
theorem settled_exit {chip : Chip} {f' : PixFormatMplane} (hsmem : src ∈ chip.variant.encFmts)
    (hdst : dst.Sound) (hp : p.pixelformat = src.fourcc)
    (he : TryFmtOutExit A.val src dst p .ok f') : Settled A src dst f' := by
  have hsrc := (chip_sound chip).entry _ hsmem
  have hframe := wholeFrame_fitOut hdst src p
  cases he with
  | aligned hneed =>
    have hm := srcMatches_fitOut hsrc hdst hp
    exact ⟨hm.pixelformat_eq, hm.numPlanes_eq, by rw [fitOut, calculatePlaneSizes_eq], hframe,
      fun i hi => fitOut_planes src dst p hi, needAlignment_eq_false.mp hneed⟩
  | taller hneed hmax =>
    have hlog := needAlignment_log hsrc hdst hneed
    have htall := wholeFrame_alignHeight hdst hlog hframe hmax
    have hpix : (alignHeight A.val (fitOut src dst p)).pixelformat = src.fourcc := by
      simp [alignHeight, fitOut, calculatePlaneSizes_eq, hp]
    have hm := srcMatches_calculatePlaneSizes hsrc hdst hpix
      (by simp [alignHeight, fitOut, calculatePlaneSizes_eq]) htall
    refine ⟨hm.pixelformat_eq, hm.numPlanes_eq, ?_, ?_, fun i hi => ?_, fun i hi => ?_⟩
    · simp [alignHeight, fitOut, calculatePlaneSizes_eq]
    · rwa [calculatePlaneSizes_width, calculatePlaneSizes_height]
    · rw [calculatePlaneSizes_width, calculatePlaneSizes_height, calculatePlaneSizes_eq]
      simp [hi]
    · rw [isAligned_iff A.toNat_val, ← (quarter_pow hlog).2]
      refine hm.sizeimage_dvd hi hsrc ?_
      rw [calculatePlaneSizes_height,
        toNat_alignHeight hlog (hframe.height_le.trans hdst.maxHeight_le)]
      exact dvd_nextMultiple _ _

/-- A settled format is handed back unchanged. -/
theorem Settled.tryFmtOut {chip : Chip} {ctx : Ctx} (hctx : ctx.variant = chip.variant)
    (hdst : ctx.vpuDstFmt = some dst) (hsound : dst.Sound) (hsmem : src ∈ chip.variant.encFmts)
    (h : Settled A src dst p) : vidiocTryFmtOut A.val ctx p = some (.ok, p) := by
  have hsrc : chosenFmt chip false p.pixelformat = src := by
    rw [h.pixelformat_eq, chosenFmt_self chip false hsmem]
  have hp : ({ p with pixelformat := src.fourcc } : PixFormatMplane) = p := by
    rw [← h.pixelformat_eq]
  rw [vidiocTryFmtOut_eq hctx A.val hdst, hsrc]
  simp only [hp, h.fitOut_eq hsound, needAlignment_eq_false.mpr h.aligned, ↓reduceIte]

end Output

/-! ### CAPTURE -/

/-- Clamping and sizing a coded format twice is clamping and sizing it once. -/
theorem fitCap_fitCap (fmt : Fmt) (p : PixFormatMplane) :
    fitCap fmt (fitCap fmt p) = fitCap fmt p := by
  simp [fitCap, setCodedSize, PixFormatMplane.setPlane, clamp_clamp]

theorem tryFmtCap_stable {chip : Chip} {ctx : Ctx} {f f' : PixFormatMplane}
    (hctx : ctx.variant = chip.variant) (h : vidiocTryFmtCap ctx f = some (.ok, f')) :
    vidiocTryFmtCap ctx f' = some (.ok, f') := by
  rw [vidiocTryFmtCap_eq hctx] at h
  obtain ⟨-, rfl⟩ := Prod.mk.inj (Option.some.inj h)
  have hmem := chosenFmt_mem chip true f.pixelformat
  set fmt := chosenFmt chip true f.pixelformat
  have hpix : (fitCap fmt { f with pixelformat := fmt.fourcc }).pixelformat = fmt.fourcc := rfl
  have hself : ({ fitCap fmt { f with pixelformat := fmt.fourcc } with
      pixelformat := fmt.fourcc } : PixFormatMplane) =
        fitCap fmt { f with pixelformat := fmt.fourcc } := rfl
  rw [vidiocTryFmtCap_eq hctx, hpix, chosenFmt_self chip true hmem]
  simp only [hself, fitCap_fitCap]

/-! ### S_FMT and G_FMT -/

/-- S_FMT of a format that TRY_FMT leaves as it is stores it for G_FMT to report. -/
theorem sFmt_gFmt {chip : Chip} {A : DmaAlign} {q : Queues} {ctx : Ctx} {type : BufType}
    {f : PixFormatMplane} (hctx : ctx.variant = chip.variant)
    (htry : vidiocTryFmt A.val ctx type f = some (.ok, f))
    (hs : (q.getVq type).streaming = false) (hb : (q.getVq type.peer).busy = false) :
    ∃ ctx', vidiocSFmt A.val q ctx type f = some (.ok, ctx', f) ∧ vidiocGFmt ctx' type = f := by
  cases type with
  | output =>
    simp only [Queues.getVq, BufType.peer] at hs hb
    have ht : vidiocTryFmtOut A.val { ctx with colorimetry := f.colorimetry } f =
        some (.ok, f) := htry
    have hset : vidiocSFmtOut A.val q ctx f = some (.ok, { ctx with
        colorimetry := f.colorimetry
        vpuSrcFmt := findFormat ctx.variant f.pixelformat
        srcFmt := f }, f) := by
      simp only [vidiocSFmtOut, hs, hb, ht, Bool.false_eq_true, ↓reduceIte, Bool.false_and]
    exact ⟨_, hset, rfl⟩
  | capture =>
    simp only [Queues.getVq, BufType.peer] at hs hb
    have ht : vidiocTryFmtCap { ctx with colorimetry := f.colorimetry } f = some (.ok, f) := htry
    set fmt := chosenFmt chip true f.pixelformat
    have hfind : findFormat ctx.variant f.pixelformat = some fmt := by
      rw [hctx, (dstMatches_tryFmtCap hctx htry).pixelformat_eq, findFormat_chosenFmt]
    -- The reset of the source format that follows touches neither the stored format nor
    -- the colorimetry.
    have hreset : encResetSrcFmt { ctx with
        colorimetry := f.colorimetry
        vpuDstFmt := some fmt
        dstFmt := f } = some { ctx with
        colorimetry := f.colorimetry
        vpuSrcFmt := some chip.defaultRaw
        srcFmt := resetSrcFmt chip.defaultRaw fmt f.colorimetry
        vpuDstFmt := some fmt
        dstFmt := f } := encResetSrcFmt_eq (by exact hctx) rfl
    have hset : vidiocSFmtCap q ctx f = some (.ok, { ctx with
        colorimetry := f.colorimetry
        vpuSrcFmt := some chip.defaultRaw
        srcFmt := resetSrcFmt chip.defaultRaw fmt f.colorimetry
        vpuDstFmt := some fmt
        dstFmt := f }, f) := by
      simp only [vidiocSFmtCap, hs, hb, ht, hfind, hreset, Bool.false_eq_true, ↓reduceIte,
        Bool.false_and, Option.map_some]
    exact ⟨_, hset, rfl⟩

/-- TRY_FMT's answer is a fixed point of TRY_FMT, and queues that permit S_FMT store it
and report it unchanged, in every context reachable from `open`. -/
theorem negotiation_stable (chip : Chip) (A : DmaAlign) {ctx : Ctx} {type : BufType}
    {f f' : PixFormatMplane} (hreach : Reach (fmtStep A.val) AnyStep (opened chip) ctx)
    (h : vidiocTryFmt A.val ctx type f = some (.ok, f')) :
    vidiocTryFmt A.val ctx type f' = some (.ok, f') ∧
      ∀ q : Queues, (q.getVq type).streaming = false → (q.getVq type.peer).busy = false →
        ∃ ctx', vidiocSFmt A.val q ctx type f' = some (.ok, ctx', f') ∧
          vidiocGFmt ctx' type = f' := by
  obtain ⟨hctx, -, -, dst, hdmem, -, hdst, -, -⟩ := hreach.invariant (consistent_opened chip)
    fun _ _ _ hc _ hs => consistent_step hc hs
  have hd := (chip_sound chip).entry _ hdmem
  have hstable : vidiocTryFmt A.val ctx type f' = some (.ok, f') := by
    cases type with
    | output =>
      have hsmem := chosenFmt_mem chip false f.pixelformat
      obtain ⟨r, g, htry, hexit⟩ := vidiocTryFmtOut_exit A.val hctx hdst f
      obtain ⟨rfl, rfl⟩ := Prod.mk.inj (Option.some.inj (htry.symm.trans h))
      exact (settled_exit hsmem hd rfl hexit).tryFmtOut hctx hdst hd hsmem
    | capture => exact tryFmtCap_stable hctx h
  exact ⟨hstable, fun q hs hb => sFmt_gFmt hctx hstable hs hb⟩

/-- An NV12M request that is rounded a second time, on a 128-byte DMA unit. -/
theorem negotiation_stable_nv12m : ∃ f',
    vidiocTryFmt (DmaAlign.mk 7 (by decide)).val (opened .rk3399) .output
        { width := 1920, height := 1080, pixelformat := pixFmtNv12m,
          colorimetry := { colorspace := 3 } } = some (.ok, f') ∧
      vidiocTryFmt (DmaAlign.mk 7 (by decide)).val (opened .rk3399) .output f' = some (.ok, f') := by
  obtain ⟨f', h⟩ : ∃ f', vidiocTryFmt (DmaAlign.mk 7 (by decide)).val (opened .rk3399) .output
      { width := 1920, height := 1080, pixelformat := pixFmtNv12m,
        colorimetry := { colorspace := 3 } } = some (.ok, f') := ⟨_, rfl⟩
  exact ⟨f', h, (negotiation_stable .rk3399 ⟨7, by decide⟩ .start h).1⟩

end RockchipVpu.Format
