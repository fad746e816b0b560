import RockchipVpu.Decoder.TryFmt

/-! The size of the decoder's capture buffers. It is put together from the plane size that
S_FMT(CAPTURE) computes, which is zero because the decoder's table has no depths, and the
space for motion vectors that `queue_setup` adds for H264. So the reported size is that of
the motion vectors alone, and never holds the picture; `buf_prepare`, which compares with
the stored size, accepts such a buffer. -/

namespace RockchipVpu.Decoder

open Base Format Queue

/-! ### What a capture buffer has to hold -/

/-- The macroblocks of the stored capture format. -/
def macroblocks (ctx : Ctx) : ℕ :=
  (mbCount ctx.dstFmt.width).toNat * (mbCount ctx.dstFmt.height).toNat

/-- What is appended for motion vectors. -/
def vectorBytes (ctx : Ctx) : ℕ :=
  if ctx.vpuSrcFmt.map Fmt.fourcc = some pixFmtH264 then 64 * macroblocks ctx else 0

/-- A byte for each luma sample, and the motion vectors. -/
def neededBytes (ctx : Ctx) : ℕ := 256 * macroblocks ctx + vectorBytes ctx

/-- `queue_setup` reports a size for plane zero of CAPTURE that holds the picture and the
motion vectors, and `buf_prepare` accepts a buffer of the reported sizes. -/
def CaptureHolds (ctx : Ctx) (count : ℕ) (zeros : Plane → U32) : Prop :=
  ∃ n numPlanes sizes, queueSetup ctx .capture count zeros = some (n, numPlanes, sizes) ∧
    neededBytes ctx ≤ (sizes 0).toNat ∧
      bufPrepare ctx .capture (newBuffer numPlanes sizes) = some .ok

/-- The call is an S_FMT on this queue, and succeeds. -/
def SFmtSucceeds (dmaAlign : U32) (type : BufType) (s : Session) (act : DecAct) : Prop :=
  ∃ f ctx' f', act = .sFmt type f ∧
    vidiocSFmt dmaAlign s.queues s.ctx type f = some (.ok, ctx', f')

theorem decStep_sFmt {dmaAlign : U32} {s : Session} {type : BufType} {r : Ret} {ctx' : Ctx}
    {f f' : PixFormatMplane}
    (h : vidiocSFmt dmaAlign s.queues s.ctx type f = some (r, ctx', f')) :
    decStep dmaAlign s (.sFmt type f) = some { s with ctx := ctx' } := by
  rw [decStep, h]
  rfl

/-! ### What S_FMT leaves behind -/

/-- A capture format of the table, of a legal size but with no bytes. -/
structure NoBytes (v : Variant) (ctx : Ctx) : Prop where
  descriptor : ∃ dst ∈ v.decFmts, ctx.vpuDstFmt = some dst
  sizeimage_eq : (ctx.dstFmt.planeFmt 0).sizeimage = 0
  width_pos : 0 < ctx.dstFmt.width.toNat
  width_le : ctx.dstFmt.width.toNat ≤ 4096
  height_pos : 0 < ctx.dstFmt.height.toNat
  height_le : ctx.dstFmt.height.toNat ≤ 4096

theorem noBytes_sFmtCap {chip : Chip} {dmaAlign : U32} {q : Queues} {ctx ctx' : Ctx}
    {f f' : PixFormatMplane} (hc : FromTable chip.variant ctx)
    (h : vidiocSFmtCap dmaAlign q ctx f = some (.ok, ctx', f')) : NoBytes chip.variant ctx' := by
  cases vidiocSFmtCap_exit h with
  | @stored fmt dst hq hfind hn hdst =>
    have hmem : fmt ∈ chip.variant.decFmts := hc.variant_eq ▸ (findFormat_some hfind).1
    obtain ⟨-, hone, hdepth⟩ := decFmts_entry chip fmt hmem
    obtain ⟨hlimits, -, -⟩ := decFmts_entry chip dst (hc.dst_mem dst hdst)
    rw [hlimits, captureSizes_table hone hdepth]
    refine ⟨⟨fmt, hmem, rfl⟩, by simp [PixFormatMplane.setPlane], ?_, ?_, ?_, ?_⟩
    · exact (show 0 < decFrmsize.minWidth.toNat by decide).trans_le (le_clamp (by decide))
    · exact clamp_le _ _ _
    · exact (show 0 < decFrmsize.minHeight.toNat by decide).trans_le (le_clamp (by decide))
    · exact clamp_le _ _ _

/-- Every later call leaves a format without bytes, that one or another. -/
theorem noBytes_step {chip : Chip} {dmaAlign : U32} {s t : Session} {act : DecAct}
    (hc : FromTable chip.variant s.ctx) (hn : NoBytes chip.variant s.ctx)
    (h : decStep dmaAlign s act = some t) : NoBytes chip.variant t.ctx := by
  cases decStep_exit h with
  | @format type f f' r ctx' hs =>
    cases type with
    | output =>
      cases vidiocSFmtOut_exit (Option.some.inj hs) with
      | busy => exact hn
      | refused => exact hn
      | stored => exact ⟨hn.1, hn.2, hn.3, hn.4, hn.5, hn.6⟩
    | capture =>
      cases r with
      | ok => exact noBytes_sFmtCap hc hs
      | err e =>
        cases vidiocSFmtCap_exit hs with
        | busy => exact hn
        | refused => exact hn
  | queues => exact hn
  | start hbusy hs =>
    obtain ⟨dst, -, rfl⟩ := startStreaming_some hs
    exact ⟨hn.1, hn.2, hn.3, hn.4, hn.5, hn.6⟩

/-- Once a coded format is set there always is one. -/
theorem vpuSrcFmt_step {dmaAlign : U32} {s t : Session} {act : DecAct}
    (hsrc : s.ctx.vpuSrcFmt.isSome = true) (h : decStep dmaAlign s act = some t) :
    t.ctx.vpuSrcFmt.isSome = true := by
  cases decStep_exit h with
  | @format type f f' r ctx' hs =>
    cases type with
    | output =>
      cases vidiocSFmtOut_exit (Option.some.inj hs) with
      | busy => exact hsrc
      | refused => exact hsrc
      | stored => rfl
    | capture =>
      cases vidiocSFmtCap_exit hs with
      | busy => exact hsrc
      | refused => exact hsrc
      | stored => exact hsrc
  | queues => exact hsrc
  | start hbusy hs =>
    obtain ⟨dst, -, rfl⟩ := startStreaming_some hs
    exact hsrc

/-! ### The reported size -/

section Sizes
variable {chip : Chip} {ctx : Ctx} (hn : NoBytes chip.variant ctx)
include hn

theorem macroblocks_pos : 0 < macroblocks ctx := by
  have hpos {x : U32} (hx : 0 < x.toNat) (hle : x.toNat ≤ 4096) : 0 < (mbCount x).toNat := by
    by_contra hzero
    have hmb := (mbCount_le_iff (n := 0) (show x.toNat ≤ 8192 by omega)).mp (not_lt.mp hzero)
    omega
  exact Nat.mul_pos (hpos hn.width_pos hn.width_le) (hpos hn.height_pos hn.height_le)

/-- The space for motion vectors does not wrap. -/
theorem toNat_motionVectorSize : (motionVectorSize ctx.dstFmt).toNat = 64 * macroblocks ctx := by
  have hw : (mbCount ctx.dstFmt.width).toNat ≤ 256 :=
    (mbCount_le_iff (hn.width_le.trans (by norm_num))).mpr hn.width_le
  have hh : (mbCount ctx.dstFmt.height).toNat ≤ 256 :=
    (mbCount_le_iff (hn.height_le.trans (by norm_num))).mpr hn.height_le
  have hrow : (64 * mbCount ctx.dstFmt.width).toNat = 64 * (mbCount ctx.dstFmt.width).toNat :=
    toNat_mul_of_le (a := 64) (m := 64) le_rfl hw (by norm_num)
  have hrow_le : (64 * mbCount ctx.dstFmt.width).toNat ≤ 64 * 256 := by omega
  rw [motionVectorSize, toNat_mul_of_le hrow_le hh (by norm_num), hrow, mul_assoc]
  rfl

/-- The reported size is exactly that of the motion vectors, and `buf_prepare` accepts it. -/
theorem queueSetup_capture (hsrc : ctx.vpuSrcFmt.isSome = true) (count : ℕ) (zeros : Plane → U32) :
    ∃ n numPlanes sizes, queueSetup ctx .capture count zeros = some (n, numPlanes, sizes) ∧
      (sizes 0).toNat = vectorBytes ctx ∧
        bufPrepare ctx .capture (newBuffer numPlanes sizes) = some .ok := by
  obtain ⟨dst, hmem, hdst⟩ := hn.descriptor
  obtain ⟨-, hone, -⟩ := decFmts_entry chip dst hmem
  obtain ⟨src, hsrc⟩ := Option.isSome_iff_exists.mp hsrc
  have hround : roundUp (ctx.dstFmt.planeFmt 0).sizeimage 8 = 0 := by
    rw [hn.sizeimage_eq]
    decide
  have hsetup : queueSetup ctx .capture count zeros =
      some (limitBuffers count, dst.numPlanes, Function.update zeros 0
        (if src.fourcc = pixFmtH264 then 0 + motionVectorSize ctx.dstFmt else 0)) := by
    rw [queueSetup, hdst, hsrc, ← hround]
    rfl
  refine ⟨_, _, _, hsetup, ?_, ?_⟩
  · rw [Function.update_self, vectorBytes, hsrc, Option.map_some]
    split_ifs with hcoded hmap hmap
    · have hzero : 0 + motionVectorSize ctx.dstFmt = motionVectorSize ctx.dstFmt :=
        BitVec.zero_add _
      rw [hzero, toNat_motionVectorSize hn]
    · exact absurd (congrArg some hcoded) hmap
    · exact absurd (Option.some.inj hmap) hcoded
    · rfl
  · rw [bufPrepare, hdst, Option.map_some, Option.some.injEq, checkPlanes_ok]
    refine ⟨dst, rfl, fun i hi => ?_⟩
    obtain rfl : i = 0 := Fin.ext (by rw [hone] at hi; exact Nat.lt_one_iff.mp hi)
    rw [hn.sizeimage_eq]
    exact Nat.zero_le _

/-- There is never room for the picture. -/
theorem not_captureHolds (hsrc : ctx.vpuSrcFmt.isSome = true) (count : ℕ) (zeros : Plane → U32) :
    ¬ CaptureHolds ctx count zeros := by
  rintro ⟨n, numPlanes, sizes, hsetup, hle, -⟩
  obtain ⟨n', numPlanes', sizes', hsetup', hsize, -⟩ := queueSetup_capture hn hsrc count zeros
  have hsame := Option.some.inj (hsetup.symm.trans hsetup')
  simp only [Prod.mk.injEq] at hsame
  obtain ⟨-, -, rfl⟩ := hsame
  have hpos := macroblocks_pos hn
  rw [hsize, neededBytes] at hle
  omega

end Sizes

/-! ### Runs -/

/-- After any run in which S_FMT has succeeded on both queues, the capture buffers are too
small. -/
theorem captureHolds_never (chip : Chip) (dmaAlign : U32) {s t : Session} {acts : List DecAct}
    (hc : FromTable chip.variant s.ctx) (hrun : run (decStep dmaAlign) s acts = some t)
    (hout : Sometime (decStep dmaAlign) (SFmtSucceeds dmaAlign .output) s acts)
    (hcap : Sometime (decStep dmaAlign) (SFmtSucceeds dmaAlign .capture) s acts) (count : ℕ)
    (zeros : Plane → U32) : ¬ CaptureHolds t.ctx count zeros := by
  have hsrc : t.ctx.vpuSrcFmt.isSome = true := by
    refine of_sometime (I := fun _ => True) (Q := fun s => s.ctx.vpuSrcFmt.isSome = true)
      (fun _ _ _ _ _ => trivial) ?_ (fun _ _ _ _ h hs => vpuSrcFmt_step h hs) trivial hout hrun
    rintro s t a - ⟨f, ctx', f', rfl, hset⟩ hs
    obtain rfl := Option.some.inj ((decStep_sFmt hset).symm.trans hs)
    cases vidiocSFmtOut_exit (Option.some.inj hset) with
    | stored => rfl
  have hn : NoBytes chip.variant t.ctx := by
    refine of_sometime (I := fun s => FromTable chip.variant s.ctx)
      (Q := fun s => NoBytes chip.variant s.ctx) (fun _ _ _ hc hs => fromTable_step hc hs) ?_
      (fun _ _ _ hc hn hs => noBytes_step hc hn hs) hc hcap hrun
    rintro s t a hc ⟨f, ctx', f', rfl, hset⟩ hs
    obtain rfl := Option.some.inj ((decStep_sFmt hset).symm.trans hs)
    exact noBytes_sFmtCap hc hset
  exact not_captureHolds hn hsrc count zeros

/-- H264 on both queues, a picture of 640x480. -/
def h264Formats : List DecAct := [
  .sFmt .output { pixelformat := pixFmtH264, planeFmt := fun _ => { sizeimage := 65536 } },
  .sFmt .capture { pixelformat := pixFmtH264, width := 640, height := 480, numPlanes := 1 }]

theorem captureHolds_never_h264 : ∃ t, run (decStep 64) h264Session h264Formats = some t ∧
    ¬ CaptureHolds t.ctx 4 fun _ => 0 := by
  have hout : Sometime (decStep 64) (SFmtSucceeds 64 .output) h264Session h264Formats :=
    Or.inl ⟨_, _, _, rfl, rfl⟩
  have hcap : Sometime (decStep 64) (SFmtSucceeds 64 .capture) h264Session h264Formats :=
    Or.inr (Or.inl ⟨_, _, _, rfl, rfl⟩)
  exact ⟨_, rfl, captureHolds_never .rk3288 64 fromTable_h264Session rfl hout hcap 4 _⟩

/-- The buffers for that picture have room for the motion vectors of its 1200 macroblocks. -/
theorem captureHolds_h264_vectors : ∃ t n numPlanes sizes,
    run (decStep 64) h264Session h264Formats = some t ∧
      queueSetup t.ctx .capture 4 (fun _ => 0) = some (n, numPlanes, sizes) ∧
      sizes 0 = 76800 ∧ neededBytes t.ctx = 384000 ∧ ¬ CaptureHolds t.ctx 4 fun _ => 0 := by
  refine ⟨_, _, _, _, rfl, rfl, by decide, by decide, ?_⟩
  rintro ⟨n, numPlanes, sizes, hsetup, hle, -⟩
  have hsame := Option.some.inj hsetup
  simp only [Prod.mk.injEq] at hsame
  obtain ⟨-, -, rfl⟩ := hsame
  exact absurd hle (by decide)

end RockchipVpu.Decoder
