import RockchipVpu.Format.TryFmt
import RockchipVpu.Hw.Program

/-! Where the JPEG program keeps the geometry of the frame: the macroblock counts in the
start word, the row length and the pixel format in the image control words. The counts
have nine bits each, but for the width on RK3288, which has ten; the format table admits
sides of 512 macroblocks, one more than nine bits hold. A frame with such a side is read
back wrong, every other one exactly. -/

namespace RockchipVpu.Hw

open Base Format Queue

/-! ### Layouts -/

/-- A range of bits of a register. -/
structure BitRange where
  reg : U32
  lo : ℕ
  len : ℕ

def BitRange.read (b : BitRange) (regs : RegFile) : ℕ := field b.lo b.len (regs b.reg)

/-- The geometry fields of a chip. `mode` has the mode and enable bits of the start
register, `clear` all the other bits of these registers. -/
structure GeometryLayout where
  mbHeight : BitRange
  mbWidth : BitRange
  mode : BitRange
  rowLen : BitRange
  fmt : BitRange
  clear : List BitRange

def geometryLayout : Chip → GeometryLayout
  | .rk3288 => {
      mbHeight := ⟨Rk3288.vepuRegEncCtrl, 10, 9⟩
      mbWidth := ⟨Rk3288.vepuRegEncCtrl, 19, 10⟩
      mode := ⟨Rk3288.vepuRegEncCtrl, 0, 10⟩
      rowLen := ⟨Rk3288.vepuRegInImgCtrl, 12, 20⟩
      fmt := ⟨Rk3288.vepuRegInImgCtrl, 2, 4⟩
      clear := [⟨Rk3288.vepuRegEncCtrl, 29, 3⟩, ⟨Rk3288.vepuRegInImgCtrl, 0, 2⟩,
        ⟨Rk3288.vepuRegInImgCtrl, 6, 6⟩] }
  | .rk3399 => {
      mbHeight := ⟨Rk3399.vepuRegEncodeStart, 20, 9⟩
      mbWidth := ⟨Rk3399.vepuRegEncodeStart, 8, 9⟩
      mode := ⟨Rk3399.vepuRegEncodeStart, 0, 8⟩
      rowLen := ⟨Rk3399.vepuRegInputLumaInfo, 0, 14⟩
      fmt := ⟨Rk3399.vepuRegEncCtrl1, 4, 4⟩
      clear := [⟨Rk3399.vepuRegEncodeStart, 17, 3⟩, ⟨Rk3399.vepuRegEncodeStart, 29, 3⟩,
        ⟨Rk3399.vepuRegInputLumaInfo, 14, 18⟩, ⟨Rk3399.vepuRegEncCtrl1, 0, 4⟩,
        ⟨Rk3399.vepuRegEncCtrl1, 8, 24⟩, ⟨Rk3399.vepuRegEncOverFillStrmOffset, 0, 32⟩] }

/-- An intra frame in JPEG mode, enabled. -/
def modeBits : Chip → ℕ
  | .rk3288 => (Rk3288.vepuRegEncCtrlEncModeJpeg ||| Rk3288.vepuRegEncPicIntra |||
      Rk3288.vepuRegEncCtrlEnBit).toNat
  | .rk3399 => (Rk3399.vepuRegFrameTypeIntra ||| Rk3399.vepuRegEncodeFormatJpeg |||
      Rk3399.vepuRegEncodeEnable).toNat

/-- The control words give back the frame, and no value has left its field. -/
structure GeometryFaithful (chip : Chip) (pixMp : PixFormatMplane) (vpuSrcFmt : Fmt)
    (regs : RegFile) : Prop where
  mbHeight : (geometryLayout chip).mbHeight.read regs = (mbCount pixMp.height).toNat
  mbWidth : (geometryLayout chip).mbWidth.read regs = (mbCount pixMp.width).toNat
  mode : (geometryLayout chip).mode.read regs = modeBits chip
  rowLen : (geometryLayout chip).rowLen.read regs = pixMp.width.toNat
  fmt : (geometryLayout chip).fmt.read regs = (encFmtVal vpuSrcFmt.encFmt).toNat
  clear : ∀ b ∈ (geometryLayout chip).clear, b.read regs = 0

def GeometryLayout.ranges (g : GeometryLayout) : List BitRange :=
  g.mbHeight :: g.mbWidth :: g.mode :: g.rowLen :: g.fmt :: g.clear

/-- Only the registers of the layout matter. -/
theorem GeometryFaithful.congr {chip : Chip} {pixMp : PixFormatMplane} {vpuSrcFmt : Fmt}
    {regs regs' : RegFile} (hf : GeometryFaithful chip pixMp vpuSrcFmt regs)
    (h : ∀ b ∈ (geometryLayout chip).ranges, regs' b.reg = regs b.reg) :
    GeometryFaithful chip pixMp vpuSrcFmt regs' := by
  have hread (b : BitRange) (hb : b ∈ (geometryLayout chip).ranges) :
      b.read regs' = b.read regs := by
    rw [BitRange.read, BitRange.read, h b hb]
  obtain ⟨hh, hw, hm, hr, hfmt, hclear⟩ := hf
  refine ⟨?_, ?_, ?_, ?_, ?_, fun b hb => ?_⟩
  · rw [hread _ (by simp [GeometryLayout.ranges]), hh]
  · rw [hread _ (by simp [GeometryLayout.ranges]), hw]
  · rw [hread _ (by simp [GeometryLayout.ranges]), hm]
  · rw [hread _ (by simp [GeometryLayout.ranges]), hr]
  · rw [hread _ (by simp [GeometryLayout.ranges]), hfmt]
  · rw [hread _ (by simp [GeometryLayout.ranges, hb]), hclear b hb]

/-- No side has 512 macroblocks, but for the width on RK3288. -/
def WithinFields (chip : Chip) (pixMp : PixFormatMplane) : Prop :=
  pixMp.height.toNat ≤ 8176 ∧ (chip = .rk3399 → pixMp.width.toNat ≤ 8176)

instance (chip : Chip) (pixMp : PixFormatMplane) : Decidable (WithinFields chip pixMp) :=
  inferInstanceAs (Decidable (_ ∧ _))

/-! ### The words as stacks of values -/

theorem encFmtVal_lt (e : EncFmt) : (encFmtVal e).toNat < 2 ^ 4 := by
  cases e <;> decide

theorem rk3288EncCtrl_eq (ctx : Ctx) : rk3288EncCtrl ctx =
    stack 10 19 (Rk3288.vepuRegEncCtrlEncModeJpeg ||| Rk3288.vepuRegEncPicIntra |||
        Rk3288.vepuRegEncCtrlEnBit)
      (mbCount ctx.srcFmt.height) (mbCount ctx.srcFmt.width) := by
  simp only [rk3288EncCtrl, stack, Rk3288.vepuRegEncCtrlWidth, Rk3288.vepuRegEncCtrlHeight,
    BitVec.or_assoc]

theorem rk3399EncodeStart_eq (ctx : Ctx) : rk3399EncodeStart ctx =
    stack 8 20 (Rk3399.vepuRegFrameTypeIntra ||| Rk3399.vepuRegEncodeFormatJpeg |||
        Rk3399.vepuRegEncodeEnable)
      (mbCount ctx.srcFmt.width &&& 0x1ff) (mbCount ctx.srcFmt.height &&& 0x1ff) := by
  rw [rk3399EncodeStart, stack, Rk3399.vepuRegMbWidth, Rk3399.vepuRegMbHeight,
    BitVec.or_comm ((mbCount ctx.srcFmt.width &&& 0x1ff) <<< 8)]
  simp only [BitVec.or_assoc]

/-- The one image control word of RK3288. -/
def rk3288InImgCtrl (ctx : Ctx) (vpuSrcFmt : Fmt) : U32 :=
  stack 2 12 0 (encFmtVal vpuSrcFmt.encFmt) ctx.srcFmt.width

theorem rk3288VpuSetSrcImgCtrl_eq (ctx : Ctx) (vpuSrcFmt : Fmt) :
    rk3288VpuSetSrcImgCtrl ctx vpuSrcFmt =
      [⟨rk3288InImgCtrl ctx vpuSrcFmt, Rk3288.vepuRegInImgCtrl⟩] := by
  simp [rk3288VpuSetSrcImgCtrl, rk3288InImgCtrl, stack, Rk3288.vepuRegInImgCtrlRowLen,
    Rk3288.vepuRegInImgCtrlOvrflrD4, Rk3288.vepuRegInImgCtrlOvrflbD4, Rk3288.vepuRegInImgCtrlFmt]

/-! ### Stored formats -/

/-- Nine bits hold the macroblocks of a side of at most 8176. -/
theorem mbCount_lt_iff {x : U32} (hx : x.toNat ≤ 8192) :
    (mbCount x).toNat < 2 ^ 9 ↔ x.toNat ≤ 8176 := by
  rw [Nat.lt_iff_le_pred (by norm_num)]
  exact mbCount_le_iff hx

/-- Whatever TRY_FMT(OUTPUT) accepts is within the limits of the codec, and carries the
fourcc of the entry it worked with. -/
theorem tryFmtOut_within {chip : Chip} {dmaAlign : U32} {ctx : Ctx} {f f' : PixFormatMplane}
    (hctx : ctx.variant = chip.variant) (hdst : ctx.vpuDstFmt = some chip.defaultCodec)
    (h : vidiocTryFmtOut dmaAlign ctx f = some (.ok, f')) :
    f'.width.toNat ≤ 8192 ∧ f'.height.toNat ≤ 8192 ∧
      f'.pixelformat = (chosenFmt chip false f.pixelformat).fourcc := by
  have hd := (chip_sound chip).entry _ (defaultCodec_mem chip)
  obtain ⟨r, g, htry, hexit⟩ := vidiocTryFmtOut_exit dmaAlign hctx hdst f
  obtain ⟨rfl, rfl⟩ := Prod.mk.inj (Option.some.inj (h.symm.trans htry))
  have hframe := wholeFrame_fitOut hd (chosenFmt chip false f.pixelformat)
    { f with pixelformat := (chosenFmt chip false f.pixelformat).fourcc }
  have hw := hframe.width_le.trans hd.maxWidth_le
  have hh := hframe.height_le.trans hd.maxHeight_le
  cases hexit with
  | aligned => exact ⟨hw, hh, by simp [fitOut, calculatePlaneSizes_eq]⟩
  | taller hneed hmax =>
    rw [calculatePlaneSizes_width, calculatePlaneSizes_height, alignHeight_width]
    rw [BitVec.lt_def] at hmax
    exact ⟨hw, (not_lt.mp hmax).trans hd.maxHeight_le,
      by simp [alignHeight, fitOut, calculatePlaneSizes_eq]⟩

/-! ### Reading the geometry back -/

section Program
variable (chip : Chip) {ctx : Ctx} {vpuSrcFmt : Fmt} {qtable : JpegQuantization}
  {src dst : Vb2Buffer} (prior : RegFile)

theorem runWrites_start :
    runWrites (program chip ctx vpuSrcFmt qtable src dst) prior (startReg chip) =
      startWord chip ctx := by
  have h : runWrites (program chip ctx vpuSrcFmt qtable src dst) prior
      (Write.reg ⟨startWord chip ctx, startReg chip⟩) =
        Write.val ⟨startWord chip ctx, startReg chip⟩ := writeAll_bracketed_last prior
  exact h

theorem runWrites_img {w : Write} (hw : w ∈ setSrcImgCtrl chip ctx vpuSrcFmt) :
    runWrites (program chip ctx vpuSrcFmt qtable src dst) prior w.reg = w.val :=
  runWrites_body chip prior (by simp [programBody, hw])

end Program

/-- A count cut to nine bits is the count of every side but that of 512 macroblocks. -/
theorem mbCount_mod_iff {x : U32} (hx : x.toNat ≤ 8192) :
    (mbCount x).toNat % 2 ^ 9 = (mbCount x).toNat ↔ x.toNat ≤ 8176 :=
  (Nat.mod_eq_iff_lt (by norm_num)).trans (mbCount_lt_iff hx)

theorem modeBits_lt_rk3288 : modeBits .rk3288 < 2 ^ 10 := by decide

theorem modeBits_lt_rk3399 : modeBits .rk3399 < 2 ^ 8 := by decide

section Rk3288
variable {ctx : Ctx} {regs : RegFile}

theorem rk3288_mbHeight_read (hstart : regs Rk3288.vepuRegEncCtrl = rk3288EncCtrl ctx) :
    (geometryLayout .rk3288).mbHeight.read regs = (mbCount ctx.srcFmt.height).toNat % 2 ^ 9 := by
  rw [rk3288EncCtrl_eq] at hstart
  simp only [geometryLayout, BitRange.read, hstart]
  exact field_stack_mid modeBits_lt_rk3288 _ _ (by norm_num) (by norm_num)

/-- A height of 512 macroblocks is the one value that leaves its field. -/
theorem rk3288_geometryFaithful_iff (vpuSrcFmt : Fmt) (hw : ctx.srcFmt.width.toNat ≤ 8192)
    (hh : ctx.srcFmt.height.toNat ≤ 8192)
    (hstart : regs Rk3288.vepuRegEncCtrl = rk3288EncCtrl ctx)
    (himg : regs Rk3288.vepuRegInImgCtrl = rk3288InImgCtrl ctx vpuSrcFmt) :
    GeometryFaithful .rk3288 ctx.srcFmt vpuSrcFmt regs ↔ WithinFields .rk3288 ctx.srcFmt := by
  have hheight := rk3288_mbHeight_read hstart
  rw [rk3288EncCtrl_eq] at hstart
  have hmode := modeBits_lt_rk3288
  constructor
  · intro h
    exact ⟨(mbCount_mod_iff hh).mp (hheight.symm.trans h.mbHeight), by simp⟩
  · rintro ⟨hle, -⟩
    have hmbh := (mbCount_lt_iff hh).mpr hle
    have hmbw : (mbCount ctx.srcFmt.width).toNat < 2 ^ 10 :=
      ((mbCount_le_iff (n := 512) hw).mpr hw).trans_lt (by norm_num)
    have hfmt := encFmtVal_lt vpuSrcFmt.encFmt
    have hzero : (0 : U32).toNat < 2 ^ 2 := by decide
    have hrow : ctx.srcFmt.width.toNat < 2 ^ 20 := hw.trans_lt (by norm_num)
    constructor
    · exact hheight.trans ((mbCount_mod_iff hh).mpr hle)
    · simp only [geometryLayout, BitRange.read, hstart]
      rw [field_stack_high hmode _ hmbh (by norm_num) (by norm_num), Nat.mod_eq_of_lt hmbw]
    · simp only [geometryLayout, BitRange.read, hstart]
      exact field_stack_low hmode _ _ (by norm_num) (by norm_num)
    · simp only [geometryLayout, BitRange.read, himg, rk3288InImgCtrl]
      rw [field_stack_high hzero _ hfmt (by norm_num) (by norm_num), Nat.mod_eq_of_lt hrow]
    · simp only [geometryLayout, BitRange.read, himg, rk3288InImgCtrl]
      rw [field_stack_mid hzero _ _ (by norm_num) (by norm_num), Nat.mod_eq_of_lt hfmt]
    · simp only [geometryLayout, BitRange.read, List.forall_mem_cons, List.not_mem_nil,
        false_imp_iff, implies_true, and_true, hstart, himg, rk3288InImgCtrl]
      exact ⟨field_stack_top hmode hmbh hmbw (by norm_num),
        field_stack_low hzero _ _ (by norm_num) (by norm_num),
        field_stack_gap hzero _ hfmt (by norm_num)⟩

end Rk3288

section Rk3399
variable {ctx : Ctx} {regs : RegFile}

/-- A count masked to nine bits. -/
theorem mask9_lt (x : U32) : (x &&& 0x1ff).toNat < 2 ^ 9 :=
  toNat_and_mask_lt (show (0x1ff : U32).toNat = 2 ^ 9 - 1 from rfl) x

theorem mask9_mod (x : U32) : (x &&& 0x1ff).toNat % 2 ^ 9 = x.toNat % 2 ^ 9 := by
  rw [toNat_and_mask (show (0x1ff : U32).toNat = 2 ^ 9 - 1 from rfl), Nat.mod_mod]

section Start
variable (hstart : regs Rk3399.vepuRegEncodeStart = rk3399EncodeStart ctx)
include hstart

theorem rk3399_mbHeight_read : (geometryLayout .rk3399).mbHeight.read regs =
    (mbCount ctx.srcFmt.height).toNat % 2 ^ 9 := by
  rw [rk3399EncodeStart_eq] at hstart
  simp only [geometryLayout, BitRange.read, hstart]
  rw [field_stack_high modeBits_lt_rk3399 _ (mask9_lt _) (by norm_num) (by norm_num), mask9_mod]

theorem rk3399_mbWidth_read : (geometryLayout .rk3399).mbWidth.read regs =
    (mbCount ctx.srcFmt.width).toNat % 2 ^ 9 := by
  rw [rk3399EncodeStart_eq] at hstart
  simp only [geometryLayout, BitRange.read, hstart]
  rw [field_stack_mid modeBits_lt_rk3399 _ _ (by norm_num) (by norm_num), mask9_mod]

end Start

/-- Both counts are masked to nine bits, so that nothing ever leaves its field but 512
macroblocks are read back as none. -/
theorem rk3399_geometryFaithful_iff (vpuSrcFmt : Fmt) (hw : ctx.srcFmt.width.toNat ≤ 8192)
    (hh : ctx.srcFmt.height.toNat ≤ 8192)
    (hstart : regs Rk3399.vepuRegEncodeStart = rk3399EncodeStart ctx)
    (hluma : regs Rk3399.vepuRegInputLumaInfo = Rk3399.vepuRegInImgCtrlRowLen ctx.srcFmt.width)
    (hfill : regs Rk3399.vepuRegEncOverFillStrmOffset = 0)
    (hctrl : regs Rk3399.vepuRegEncCtrl1 =
      Rk3399.vepuRegInImgCtrlFmt (encFmtVal vpuSrcFmt.encFmt)) :
    GeometryFaithful .rk3399 ctx.srcFmt vpuSrcFmt regs ↔ WithinFields .rk3399 ctx.srcFmt := by
  have hheight := rk3399_mbHeight_read hstart
  have hwidth := rk3399_mbWidth_read hstart
  rw [rk3399EncodeStart_eq] at hstart
  have hmode := modeBits_lt_rk3399
  have hrow : (ctx.srcFmt.width &&& 0x3fff).toNat = ctx.srcFmt.width.toNat := by
    rw [toNat_and_mask (show (0x3fff : U32).toNat = 2 ^ 14 - 1 from rfl),
      Nat.mod_eq_of_lt (hw.trans_lt (by norm_num))]
  have hfmt : (encFmtVal vpuSrcFmt.encFmt &&& 0xf).toNat =
      (encFmtVal vpuSrcFmt.encFmt).toNat := by
    rw [toNat_and_mask (show (0xf : U32).toNat = 2 ^ 4 - 1 from rfl),
      Nat.mod_eq_of_lt (encFmtVal_lt _)]
  constructor
  · intro h
    exact ⟨(mbCount_mod_iff hh).mp (hheight.symm.trans h.mbHeight),
      fun _ => (mbCount_mod_iff hw).mp (hwidth.symm.trans h.mbWidth)⟩
  · rintro ⟨hmh, hmw⟩
    constructor
    · exact hheight.trans ((mbCount_mod_iff hh).mpr hmh)
    · exact hwidth.trans ((mbCount_mod_iff hw).mpr (hmw rfl))
    · simp only [geometryLayout, BitRange.read, hstart]
      exact field_stack_low hmode _ _ (by norm_num) (by norm_num)
    · simp only [geometryLayout, BitRange.read, hluma, Rk3399.vepuRegInImgCtrlRowLen]
      rw [field_shiftLeft_self (by norm_num), hrow, Nat.mod_eq_of_lt (hw.trans_lt (by norm_num))]
    · simp only [geometryLayout, BitRange.read, hctrl, Rk3399.vepuRegInImgCtrlFmt]
      rw [field_shiftLeft_self (by norm_num), hfmt, Nat.mod_eq_of_lt (encFmtVal_lt _)]
    · simp only [geometryLayout, BitRange.read, List.forall_mem_cons, List.not_mem_nil,
        false_imp_iff, implies_true, and_true, hstart, hluma, hctrl, hfill,
        Rk3399.vepuRegInImgCtrlRowLen, Rk3399.vepuRegInImgCtrlFmt]
      refine ⟨field_stack_gap hmode _ (mask9_lt _) (by norm_num),
        field_stack_top hmode (mask9_lt _) (mask9_lt _) (by norm_num),
        field_shiftLeft_of_lt (by norm_num) ?_, field_shiftLeft_of_le (by norm_num) _,
        field_shiftLeft_of_lt (by norm_num) ?_, by decide⟩
      · rw [hrow]
        exact hw.trans_lt (by norm_num)
      · rw [hfmt]
        exact encFmtVal_lt _

end Rk3399

/-- The program of either chip, run for a frame within the limits of the codec. -/
theorem program_geometryFaithful_iff (chip : Chip) {ctx : Ctx} {vpuSrcFmt : Fmt}
    {qtable : JpegQuantization} {src dst : Vb2Buffer} (hw : ctx.srcFmt.width.toNat ≤ 8192)
    (hh : ctx.srcFmt.height.toNat ≤ 8192) (prior : RegFile) :
    GeometryFaithful chip ctx.srcFmt vpuSrcFmt
        (runWrites (program chip ctx vpuSrcFmt qtable src dst) prior) ↔
      WithinFields chip ctx.srcFmt := by
  have hstart : runWrites (program chip ctx vpuSrcFmt qtable src dst) prior (startReg chip) =
      startWord chip ctx := runWrites_start chip prior
  cases chip with
  | rk3288 =>
    refine rk3288_geometryFaithful_iff vpuSrcFmt hw hh hstart ?_
    exact runWrites_img .rk3288 prior
      (w := ⟨rk3288InImgCtrl ctx vpuSrcFmt, Rk3288.vepuRegInImgCtrl⟩)
      (by rw [setSrcImgCtrl, rk3288VpuSetSrcImgCtrl_eq, List.mem_singleton])
  | rk3399 =>
    refine rk3399_geometryFaithful_iff vpuSrcFmt hw hh hstart ?_ ?_ ?_
    · exact runWrites_img .rk3399 prior
        (w := ⟨Rk3399.vepuRegInImgCtrlRowLen ctx.srcFmt.width, Rk3399.vepuRegInputLumaInfo⟩)
        (by simp [setSrcImgCtrl, rk3399VpuSetSrcImgCtrl])
    · exact runWrites_img .rk3399 prior
        (w := ⟨Rk3399.vepuRegInImgCtrlOvrflrD4 0 ||| Rk3399.vepuRegInImgCtrlOvrflb 0,
          Rk3399.vepuRegEncOverFillStrmOffset⟩)
        (by simp [setSrcImgCtrl, rk3399VpuSetSrcImgCtrl])
    · exact runWrites_img .rk3399 prior
        (w := ⟨Rk3399.vepuRegInImgCtrlFmt (encFmtVal vpuSrcFmt.encFmt), Rk3399.vepuRegEncCtrl1⟩)
        (by simp [setSrcImgCtrl, rk3399VpuSetSrcImgCtrl])

/-- Whatever S_FMT(OUTPUT) stores, the control words of the job that follows give the
frame back exactly when its sides are within the fields. -/
theorem jpegEncRun_geometry_iff (chip : Chip) {dmaAlign : U32} {q : Queues} {ctx ctx' : Ctx}
    {f f' : PixFormatMplane} (hctx : ctx.variant = chip.variant)
    (hdst : ctx.vpuDstFmt = some chip.defaultCodec)
    (hset : vidiocSFmtOut dmaAlign q ctx f = some (.ok, ctx', f')) (qtable : JpegQuantization)
    (src dst : Vb2Buffer) :
    ∃ vpuSrcFmt ws, ctx'.vpuSrcFmt = some vpuSrcFmt ∧
      jpegEncRun chip ctx' (some qtable) src dst = some ws ∧
      ∀ prior, GeometryFaithful chip ctx'.srcFmt vpuSrcFmt (runWrites ws prior) ↔
        WithinFields chip ctx'.srcFmt := by
  cases vidiocSFmtOut_exit hset with
  | stored hq htry =>
    obtain ⟨hw, hh, hpix⟩ := tryFmtOut_within hctx hdst htry
    have hfind : findFormat ctx.variant f'.pixelformat =
        some (chosenFmt chip false f.pixelformat) := by
      rw [hctx, hpix, findFormat_chosenFmt]
    exact ⟨_, _, hfind, jpegEncRun_eq chip hfind qtable src dst,
      fun prior => program_geometryFaithful_iff chip hw hh prior⟩

/-- S_FMT(OUTPUT) of YUYV on a freshly opened context with both queues stopped and empty. -/
def sFmtYuyv (chip : Chip) (width height : U32) : Option (Ret × Ctx × PixFormatMplane) :=
  vidiocSFmtOut 64 ⟨⟨false, false⟩, ⟨false, false⟩⟩ (opened chip)
    { width := width, height := height, pixelformat := pixFmtYuyv }

/-- The largest frame that fits on RK3399. -/
theorem jpegEncRun_geometry_iff_8176 : ∃ ctx' f',
    sFmtYuyv .rk3399 8176 8176 = some (.ok, ctx', f') ∧ ∃ vpuSrcFmt ws,
      ctx'.vpuSrcFmt = some vpuSrcFmt ∧
      jpegEncRun .rk3399 ctx' (some ⟨fun _ => 16, fun _ => 16⟩) {} {} = some ws ∧
      ∀ prior, GeometryFaithful .rk3399 ctx'.srcFmt vpuSrcFmt (runWrites ws prior) ↔
        WithinFields .rk3399 ctx'.srcFmt := by
  have hok : (sFmtYuyv .rk3399 8176 8176).map (·.1) = some .ok := by decide
  obtain ⟨⟨r, ctx', f'⟩, hset, rfl⟩ := Option.map_eq_some_iff.mp hok
  exact ⟨ctx', f', hset, jpegEncRun_geometry_iff .rk3399 rfl rfl hset _ _ _⟩

/-- A frame 8192 lines high, which the format table admits, reaches into the width. -/
theorem jpegEncRun_geometry_8192 : ∃ ctx' f',
    sFmtYuyv .rk3288 96 8192 = some (.ok, ctx', f') ∧ ∃ vpuSrcFmt ws,
      ctx'.vpuSrcFmt = some vpuSrcFmt ∧
      jpegEncRun .rk3288 ctx' (some ⟨fun _ => 16, fun _ => 16⟩) {} {} = some ws ∧
      ∀ prior, ¬ GeometryFaithful .rk3288 ctx'.srcFmt vpuSrcFmt (runWrites ws prior) := by
  have hok : (sFmtYuyv .rk3288 96 8192).map (fun x =>
      (x.1, x.2.1.vpuSrcFmt, x.2.1.srcFmt.width, x.2.1.srcFmt.height)) =
      some (.ok, some rk3288VpuEncFmts[2], 96, 8192) := by decide
  obtain ⟨⟨r, ctx', f'⟩, hset, heq⟩ := Option.map_eq_some_iff.mp hok
  simp only [Prod.mk.injEq] at heq
  obtain ⟨rfl, hsrc, hwidth, hheight⟩ := heq
  refine ⟨ctx', f', hset, _, _, hsrc, jpegEncRun_eq .rk3288 hsrc _ _ _, fun prior => ?_⟩
  rw [program_geometryFaithful_iff .rk3288 (by rw [hwidth]; decide) (by rw [hheight]; decide)]
  rw [WithinFields, hheight]
  exact fun h => absurd h.1 (by decide)

end RockchipVpu.Hw
