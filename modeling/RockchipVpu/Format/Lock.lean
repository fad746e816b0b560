import RockchipVpu.Format.Consistent

/-! The two guards of S_FMT and what they leave open. A queue that streams must keep
its format, and a queue whose peer has buffers must keep its pixel format. Every
exit of `vidioc_s_fmt_out` respects both rules. `vidioc_s_fmt_cap` guards only the
format of its own queue, and its final reset rewrites the OUTPUT format as well.
A call that fails has already stored its colorimetry on every exit but the first. -/

namespace RockchipVpu.Format

open Base

/-! ### The rules -/

/-- The two rules that the comments in both S_FMT handlers state. -/
structure LocksHold (q : Queues) (ctx ctx' : Ctx) : Prop where
  output_streaming : q.output.streaming = true →
    ctx'.srcFmt = ctx.srcFmt ∧ ctx'.vpuSrcFmt = ctx.vpuSrcFmt
  capture_streaming : q.capture.streaming = true →
    ctx'.dstFmt = ctx.dstFmt ∧ ctx'.vpuDstFmt = ctx.vpuDstFmt
  output_busy : q.output.busy = true → ctx'.dstFmt.pixelformat = ctx.dstFmt.pixelformat
  capture_busy : q.capture.busy = true → ctx'.srcFmt.pixelformat = ctx.srcFmt.pixelformat

theorem LocksHold.of_formats {q : Queues} {ctx ctx' : Ctx} (hs : ctx'.srcFmt = ctx.srcFmt)
    (hvs : ctx'.vpuSrcFmt = ctx.vpuSrcFmt) (hd : ctx'.dstFmt = ctx.dstFmt)
    (hvd : ctx'.vpuDstFmt = ctx.vpuDstFmt) : LocksHold q ctx ctx' where
  output_streaming _ := ⟨hs, hvs⟩
  capture_streaming _ := ⟨hd, hvd⟩
  output_busy _ := by rw [hd]
  capture_busy _ := by rw [hs]

/-- The stored source format is the zero-initialised frame of the first raw entry,
of the smallest size of `dst` and with colorimetry `c`. -/
structure SmallestRaw (v : Variant) (dst : Fmt) (c : Colorimetry) (ctx : Ctx) : Prop where
  descriptor : ctx.vpuSrcFmt = getDefaultFmt v false
  width_eq : ctx.srcFmt.width = dst.frmsize.minWidth
  height_eq : ctx.srcFmt.height = dst.frmsize.minHeight
  field_eq : ctx.srcFmt.field = fieldNone
  colorimetry_eq : ctx.srcFmt.colorimetry = c
  flags_eq : ctx.srcFmt.flags = 0
  reserved_eq : ∀ i, (ctx.srcFmt.planeFmt i).reserved = List.replicate 6 0
  unused_eq : ∀ i : Plane, ctx.srcFmt.numPlanes ≤ i.val → ctx.srcFmt.planeFmt i = {}

/-- The codec entry that S_FMT(CAPTURE) selects for a request. -/
def requestedCodec (v : Variant) (f : PixFormatMplane) : Option Fmt :=
  (findFormat v f.pixelformat).or (getDefaultFmt v true)

/-- A call that cannot break a rule: one on OUTPUT, one that a guard refuses, or an
S_FMT(CAPTURE) while OUTPUT does not stream, or streams with the smallest raw
format, and CAPTURE has no buffers, or the default raw fourcc is stored. -/
def KeepsLocks (q : Queues) (ctx : Ctx) (f : PixFormatMplane) : BufType → Prop
  | .output => True
  | .capture => SFmtCapBusy q ctx f ∨
      (q.output.streaming = true → ∃ dst, requestedCodec ctx.variant f = some dst ∧
        SmallestRaw ctx.variant dst f.colorimetry ctx) ∧
      (q.capture.busy = true → ∃ raw, getDefaultFmt ctx.variant false = some raw ∧
        ctx.srcFmt.pixelformat = raw.fourcc)

theorem requestedCodec_eq (chip : Chip) (f : PixFormatMplane) :
    requestedCodec chip.variant f = some (chosenFmt chip true f.pixelformat) := by
  rw [requestedCodec, chosenFmt, getDefaultFmt_codec]
  cases findFormat chip.variant f.pixelformat <;> rfl

/-! ### When the reset changes nothing -/

/-- The sizes of a matching source format are determined by its frame. -/
theorem SrcMatches.planes_eq {src dst dst' : Fmt} {p p' : PixFormatMplane}
    (h : SrcMatches src dst p) (h' : SrcMatches src dst' p') (hw : p.width = p'.width)
    (hh : p.height = p'.height) {i : Plane} (hi : i.val < src.numPlanes) :
    (p.planeFmt i).bytesperline = (p'.planeFmt i).bytesperline ∧
      (p.planeFmt i).sizeimage = (p'.planeFmt i).sizeimage := by
  have hb : (p.planeFmt i).bytesperline = (p'.planeFmt i).bytesperline := by
    apply BitVec.eq_of_toNat_eq
    rw [h.bytesperline_eq i hi, h'.bytesperline_eq i hi, hw]
  refine ⟨hb, BitVec.eq_of_toNat_eq ?_⟩
  rw [h.sizeimage_eq i hi, h'.sizeimage_eq i hi, hh, hb]

/-- The reset stores what is there already exactly when the smallest raw format is. -/
theorem resetSrcFmt_eq_iff {chip : Chip} {ctx : Ctx} {dst : Fmt} {c : Colorimetry}
    (hc : Consistent chip.variant ctx) (hdst : dst ∈ chip.variant.encFmts) :
    (resetSrcFmt chip.defaultRaw dst c = ctx.srcFmt ∧ some chip.defaultRaw = ctx.vpuSrcFmt) ↔
      SmallestRaw ctx.variant dst c ctx := by
  have hsound := (chip_sound chip).entry
  have hd := hsound _ hdst
  have hreset := srcMatches_reset (hsound _ (defaultRaw_mem chip)) hd c
  have hraw : getDefaultFmt ctx.variant false = some chip.defaultRaw := by
    rw [hc.variant_eq, getDefaultFmt_raw]
  constructor
  · rintro ⟨hfmt, hvpu⟩
    refine ⟨by rw [hraw, hvpu], ?_, ?_, ?_, ?_, ?_, ?_, ?_⟩
    all_goals rw [← hfmt, resetSrcFmt, calculatePlaneSizes_eq]
    · exact clamp_zero hd.minWidth_le
    · exact clamp_zero hd.minHeight_le
    · intro i
      by_cases hi : i.val < chip.defaultRaw.numPlanes <;> simp [hi, planeSizes]
    · intro i hi
      simp [Nat.not_lt.mpr hi]
  · intro h
    have hvpu : ctx.vpuSrcFmt = some chip.defaultRaw := h.descriptor.trans hraw
    obtain ⟨-, src, -, dst', -, hsrc, -, hm, -⟩ := hc
    obtain rfl : src = chip.defaultRaw := Option.some.inj (hsrc.symm.trans hvpu)
    refine ⟨?_, hvpu.symm⟩
    have hw : (resetSrcFmt chip.defaultRaw dst c).width = ctx.srcFmt.width := by
      rw [h.width_eq, ← clamp_zero hd.minWidth_le, resetSrcFmt, calculatePlaneSizes_eq]
    have hh : (resetSrcFmt chip.defaultRaw dst c).height = ctx.srcFmt.height := by
      rw [h.height_eq, ← clamp_zero hd.minHeight_le, resetSrcFmt, calculatePlaneSizes_eq]
    ext1
    · exact hw
    · exact hh
    · exact hreset.pixelformat_eq.trans hm.pixelformat_eq.symm
    · rw [h.field_eq, resetSrcFmt, calculatePlaneSizes_eq]
    · rw [h.colorimetry_eq, resetSrcFmt, calculatePlaneSizes_eq]
    · funext i
      by_cases hi : i.val < chip.defaultRaw.numPlanes
      · obtain ⟨hline, hsize⟩ := hreset.planes_eq hm hw hh hi
        refine PlanePixFormat.ext hsize hline ?_
        rw [h.reserved_eq i, resetSrcFmt, calculatePlaneSizes_eq]
        simp [hi, planeSizes]
      · rw [h.unused_eq i (by rw [hm.numPlanes_eq]; omega), resetSrcFmt, calculatePlaneSizes_eq]
        simp [hi]
    · exact hreset.numPlanes_eq.trans hm.numPlanes_eq.symm
    · rw [h.flags_eq, resetSrcFmt, calculatePlaneSizes_eq]

/-! ### The rules, call by call -/

/-- A fourcc that is stored already is chosen again. -/
theorem chosenFmt_stored {chip : Chip} (b : Bool) {fmt : Fmt} (hmem : fmt ∈ chip.variant.encFmts)
    {stored fourcc : U32} (hs : stored = fmt.fourcc) (hf : fourcc = stored) :
    (chosenFmt chip b fourcc).fourcc = stored := by
  rw [hf, hs, chosenFmt_self chip b hmem]

theorem locksHold_sFmtOut {chip : Chip} {A : DmaAlign} {q : Queues} {ctx ctx' : Ctx} {r : Ret}
    {f f' : PixFormatMplane} (hc : Consistent chip.variant ctx)
    (h : vidiocSFmtOut A.val q ctx f = some (r, ctx', f')) : LocksHold q ctx ctx' := by
  cases vidiocSFmtOut_exit h with
  | streaming => exact .of_formats rfl rfl rfl rfl
  | peerBusy => exact .of_formats rfl rfl rfl rfl
  | refused => exact .of_formats rfl rfl rfl rfl
  | stored hq ht =>
    obtain ⟨hv, src, hsrc, dst, hmem, -, hdst, hm, -⟩ := hc
    refine ⟨fun hs => absurd (.inl hs) hq, fun _ => ⟨rfl, rfl⟩, fun _ => rfl, fun hb => ?_⟩
    have hsame : f.pixelformat = ctx.srcFmt.pixelformat := by
      by_contra hne
      exact hq (.inr ⟨hb, hne⟩)
    exact (srcMatches_tryFmtOut hv hdst hmem ht).pixelformat_eq.trans
      (chosenFmt_stored false hsrc hm.pixelformat_eq hsame)

theorem locksHold_sFmtCap {chip : Chip} {q : Queues} {ctx ctx' : Ctx} {r : Ret}
    {f f' : PixFormatMplane} (hc : Consistent chip.variant ctx)
    (h : vidiocSFmtCap q ctx f = some (r, ctx', f')) :
    LocksHold q ctx ctx' ↔ KeepsLocks q ctx f .capture := by
  cases vidiocSFmtCap_exit h with
  | streaming hs => exact iff_of_true (.of_formats rfl rfl rfl rfl) (.inl (.inl hs))
  | peerBusy hs hb hf =>
    exact iff_of_true (.of_formats rfl rfl rfl rfl) (.inl (.inr ⟨hb, hf⟩))
  | stored hq ht hr =>
    have hv := hc.variant_eq
    have hmatch := dstMatches_tryFmtCap hv ht
    obtain rfl := sFmtCap_stored hv ht hr
    have hiff := resetSrcFmt_eq_iff (c := f.colorimetry) hc
      (chosenFmt_mem chip true f.pixelformat)
    have hraw : getDefaultFmt ctx.variant false = some chip.defaultRaw := by
      rw [hv, getDefaultFmt_raw]
    have hreq : requestedCodec ctx.variant f = some (chosenFmt chip true f.pixelformat) := by
      rw [hv, requestedCodec_eq]
    have hfour := resetSrcFmt_pixelformat chip.defaultRaw (chosenFmt chip true f.pixelformat)
      f.colorimetry
    simp only [KeepsLocks, hq, false_or, hraw, hreq, Option.some.injEq, exists_eq_left']
    constructor
    · rintro ⟨hos, -, -, hcb⟩
      exact ⟨fun hs => hiff.mp (hos hs), fun hb => (hfour.symm.trans (hcb hb)).symm⟩
    · rintro ⟨hos, hcb⟩
      refine ⟨fun hs => hiff.mpr (hos hs), fun hs => absurd (.inl hs) hq, fun hb => ?_,
        fun hb => hfour.trans (hcb hb).symm⟩
      have hsame : f.pixelformat = ctx.dstFmt.pixelformat := by
        by_contra hne
        exact hq (.inr ⟨hb, hne⟩)
      obtain ⟨-, -, -, dst, hmem, -, -, -, hd⟩ := hc
      exact hmatch.pixelformat_eq.trans (chosenFmt_stored true hmem hd.pixelformat_eq hsame)

/-- In every reachable context, with any queue states, an S_FMT obeys both rules
exactly when it is not an accepted S_FMT(CAPTURE) whose reset rewrites a locked
source format. -/
theorem locksHold_iff (chip : Chip) (A : DmaAlign) {q : Queues} {ctx ctx' : Ctx} {type : BufType}
    {r : Ret} {f f' : PixFormatMplane} (hreach : Reach (fmtStep A.val) AnyStep (opened chip) ctx)
    (h : vidiocSFmt A.val q ctx type f = some (r, ctx', f')) :
    LocksHold q ctx ctx' ↔ KeepsLocks q ctx f type := by
  have hc : Consistent chip.variant ctx :=
    hreach.invariant (consistent_opened chip) fun _ _ _ hc _ hs => consistent_step hc hs
  cases type with
  | output => exact iff_of_true (locksHold_sFmtOut hc h) trivial
  | capture => exact locksHold_sFmtCap hc h

/-- OUTPUT streams with the format of a fresh node and CAPTURE has buffers: the reset finds the
source as it would set it. -/
theorem locksHold_iff_streaming : ∃ ctx' f',
    vidiocSFmt 64 ⟨⟨true, true⟩, ⟨false, true⟩⟩ (opened .rk3288) .capture
        (opened .rk3288).dstFmt = some (.ok, ctx', f') ∧
      LocksHold ⟨⟨true, true⟩, ⟨false, true⟩⟩ (opened .rk3288) ctx' := by
  obtain ⟨ctx', f', h⟩ : ∃ ctx' f',
      vidiocSFmt (DmaAlign.mk 6 (by decide)).val ⟨⟨true, true⟩, ⟨false, true⟩⟩ (opened .rk3288)
        .capture (opened .rk3288).dstFmt = some (.ok, ctx', f') := ⟨_, _, rfl⟩
  have hsmallest : SmallestRaw Chip.rk3288.variant (chosenFmt .rk3288 true
      (opened .rk3288).dstFmt.pixelformat) (opened .rk3288).dstFmt.colorimetry (opened .rk3288) :=
    ⟨by decide, by decide, by decide, by decide, by decide, by decide, by decide, by decide⟩
  exact ⟨ctx', f', h, (locksHold_iff .rk3288 _ .start h).mpr (.inr
    ⟨fun _ => ⟨_, requestedCodec_eq .rk3288 _, hsmallest⟩, fun _ => ⟨_, rfl, by decide⟩⟩)⟩

/-- A 720p NV12M source is negotiated and OUTPUT streams. S_FMT(CAPTURE) of the very
format that CAPTURE has is accepted and turns the source into the smallest YM12. -/
theorem locks_streaming_output : ∃ ctx ctx' f',
    Reach (fmtStep 64) AnyStep (opened .rk3288) ctx ∧
      vidiocSFmt 64 ⟨⟨true, true⟩, ⟨false, false⟩⟩ ctx .capture ctx.dstFmt =
        some (.ok, ctx', f') ∧
      ¬ LocksHold ⟨⟨true, true⟩, ⟨false, false⟩⟩ ctx ctx' := by
  have hreach := reach_of_run_any (Option.some_get (x := run (fmtStep 64) (opened .rk3288)
    [.sFmtOut ⟨⟨false, false⟩, ⟨false, false⟩⟩
      { width := 1280, height := 720, pixelformat := pixFmtNv12m }]) rfl).symm
  refine ⟨_, _, _, hreach, rfl, ?_⟩
  intro h
  exact absurd (h.output_streaming rfl).1 (by decide)

/-! ### A failed call -/

/-- What both queues negotiated, G_FMT included, is as before. -/
structure SameNegotiated (ctx ctx' : Ctx) : Prop where
  srcFmt_eq : ctx'.srcFmt = ctx.srcFmt
  dstFmt_eq : ctx'.dstFmt = ctx.dstFmt
  vpuSrcFmt_eq : ctx'.vpuSrcFmt = ctx.vpuSrcFmt
  vpuDstFmt_eq : ctx'.vpuDstFmt = ctx.vpuDstFmt
  colorimetry_eq : ctx'.colorimetry = ctx.colorimetry
  gFmtOut_eq : vidiocGFmtOut ctx' = vidiocGFmtOut ctx
  gFmtCap_eq : vidiocGFmtCap ctx' = vidiocGFmtCap ctx

/-- A failing call returns before it touches the context only when its own queue
streams; otherwise it has stored the colorimetry and nothing else. -/
theorem sFmt_failed {dmaAlign : U32} {q : Queues} {ctx ctx' : Ctx} {type : BufType} {e : Errno}
    {f f' : PixFormatMplane} (h : vidiocSFmt dmaAlign q ctx type f = some (.err e, ctx', f')) :
    ((q.getVq type).streaming = true ∧ ctx' = ctx) ∨
      ((q.getVq type).streaming = false ∧ ctx' = { ctx with colorimetry := f.colorimetry }) := by
  cases type with
  | output =>
    cases vidiocSFmtOut_exit h with
    | streaming hs => exact .inl ⟨hs, rfl⟩
    | peerBusy hs => exact .inr ⟨hs, rfl⟩
    | refused hq =>
      have hs : q.output.streaming ≠ true := fun hs => hq (.inl hs)
      exact .inr ⟨Bool.eq_false_of_not_eq_true hs, rfl⟩
  | capture =>
    cases vidiocSFmtCap_exit h with
    | streaming hs => exact .inl ⟨hs, rfl⟩
    | peerBusy hs => exact .inr ⟨hs, rfl⟩

/-- A failed S_FMT leaves the negotiated state unchanged exactly when its queue
streams or it carries the colorimetry already stored. -/
theorem failed_unchanged_iff {dmaAlign : U32} {q : Queues} {ctx ctx' : Ctx} {type : BufType}
    {e : Errno} {f f' : PixFormatMplane}
    (h : vidiocSFmt dmaAlign q ctx type f = some (.err e, ctx', f')) :
    SameNegotiated ctx ctx' ↔
      (q.getVq type).streaming = true ∨ f.colorimetry = ctx.colorimetry := by
  rcases sFmt_failed h with ⟨hs, rfl⟩ | ⟨hs, rfl⟩
  · exact iff_of_true ⟨rfl, rfl, rfl, rfl, rfl, rfl, rfl⟩ (.inl hs)
  · constructor
    · exact fun hsame => .inr hsame.colorimetry_eq
    · rintro (hst | hcol)
      · simp [hs] at hst
      · refine ⟨rfl, rfl, rfl, rfl, hcol, ?_, ?_⟩ <;> simp [vidiocGFmtOut, vidiocGFmtCap, hcol]

/-- A request with a colorspace of its own. -/
def otherColorspace : PixFormatMplane where
  width := 640
  height := 480
  pixelformat := pixFmtJpegRaw
  colorimetry := { colorspace := 8 }

/-- CAPTURE streams, so S_FMT(CAPTURE) is refused at once. -/
theorem failed_unchanged_iff_streaming :
    vidiocSFmt 64 ⟨⟨true, true⟩, ⟨true, true⟩⟩ (opened .rk3399) .capture otherColorspace =
        some (.err .ebusy, opened .rk3399, otherColorspace) ∧
      SameNegotiated (opened .rk3399) (opened .rk3399) := by
  have h : vidiocSFmt 64 ⟨⟨true, true⟩, ⟨true, true⟩⟩ (opened .rk3399) .capture otherColorspace =
      some (.err .ebusy, opened .rk3399, otherColorspace) := rfl
  exact ⟨h, (failed_unchanged_iff h).mpr (.inl rfl)⟩

/-- CAPTURE has buffers, so S_FMT(OUTPUT) may not change the pixel format; the
refused call has changed the colorspace that G_FMT reports on both queues. -/
theorem failed_changes_colorspace : ∃ ctx' f',
    vidiocSFmt 64 ⟨⟨false, false⟩, ⟨false, true⟩⟩ (opened .rk3288) .output
        { pixelformat := pixFmtNv12m, colorimetry := { colorspace := 8 } } =
        some (.err .ebusy, ctx', f') ∧
      ¬ SameNegotiated (opened .rk3288) ctx' ∧
      (vidiocGFmtCap ctx').colorimetry ≠ (vidiocGFmtCap (opened .rk3288)).colorimetry := by
  refine ⟨_, _, rfl, fun h => absurd h.colorimetry_eq (by decide), by decide⟩

end RockchipVpu.Format
