import RockchipVpu.Hw.Geometry

/-! The memory that the registers of the encoder tell it of. The format field says how many
planes there are and how deep they are, the macroblock height and the row length how far each of
them reaches, and the stream limit how much there is for the stream. What the encoder makes of
it is not part of the driver: it is assumed to read and write nothing else. After the program of
a job these are the planes of its buffers, and a plane is never longer than the size that its
descriptor gives the stored frame. -/

namespace RockchipVpu.Hw

open Base Format Queue

/-! ### Areas of memory -/

structure Area where
  base : ℕ
  bytes : ℕ

def Area.Within (a b : Area) : Prop := b.base ≤ a.base ∧ a.base + a.bytes ≤ b.base + b.bytes

theorem Area.Within.grow {a : Area} {base n m : ℕ} (h : a.Within ⟨base, n⟩) (hle : n ≤ m) :
    a.Within ⟨base, m⟩ :=
  ⟨h.1, h.2.trans (Nat.add_le_add_left hle base)⟩

/-- The area lies within the plane. -/
def InPlane (vb : Vb2Buffer) (i : Plane) (a : Area) : Prop :=
  a.Within ⟨(vb.planes i).dmaAddr.toNat, (vb2PlaneSize vb i).toNat⟩

/-- The register with the address of each plane. -/
def planeReg (r : JpegRegs) (i : Plane) : U32 :=
  if i.val = 0 then r.addrInLuma else if i.val = 1 then r.addrInCb else r.addrInCr

/-- All rows of macroblocks of a plane of an entry, as the registers place it. -/
def planeArea (chip : Chip) (regs : RegFile) (fmt : Fmt) (i : Plane) : Area :=
  let g := geometryLayout chip
  ⟨(regs (planeReg (jpegRegs chip) i)).toNat,
    16 * g.mbHeight.read regs * (g.rowLen.read regs * (fmt.depthAt i).toNat / 8)⟩

/-- The room for the stream, as the registers place it. -/
def streamArea (chip : Chip) (regs : RegFile) : Area where
  base := (regs (jpegRegs chip).addrOutputStream).toNat
  bytes := (regs (jpegRegs chip).strBufLimit).toNat

/-! ### The encoder as a master of the memory -/

/-- The areas that the encoder reads and writes while it works with these registers. -/
structure EncoderDma where
  fetches : RegFile → Area → Prop
  stores : RegFile → Area → Prop

/-- The registers are set for frames of this entry. -/
structure SetFor (chip : Chip) (regs : RegFile) (fmt : Fmt) : Prop where
  mem : fmt ∈ chip.variant.encFmts
  raw : fmt.codecMode = .none
  code : (geometryLayout chip).fmt.read regs = (encFmtVal fmt.encFmt).toNat

/-- The assumption on the hardware: set for frames of an entry, it reads the planes of such a
frame, and it writes within the room for the stream. -/
structure EncoderDma.Obeys (dma : EncoderDma) (chip : Chip) : Prop where
  fetch : ∀ {regs fmt a}, SetFor chip regs fmt → dma.fetches regs a →
    ∃ i : Plane, i.val < fmt.numPlanes ∧ a.Within (planeArea chip regs fmt i)
  store : ∀ {regs a}, dma.stores regs a → a.Within (streamArea chip regs)

/-- An encoder that reads whole planes and fills all the room. -/
def wholePlanes (chip : Chip) : EncoderDma where
  fetches regs a := ∃ fmt, SetFor chip regs fmt ∧ ∃ i : Plane, i.val < fmt.numPlanes ∧
    a = planeArea chip regs fmt i
  stores regs a := a = streamArea chip regs

/-- Raw entries of one table have codes of their own. -/
theorem raw_eq_of_code {chip : Chip} : ∀ fmt ∈ chip.variant.encFmts,
    ∀ fmt' ∈ chip.variant.encFmts, fmt.codecMode = .none → fmt'.codecMode = .none →
      (encFmtVal fmt.encFmt).toNat = (encFmtVal fmt'.encFmt).toNat → fmt = fmt' := by
  cases chip <;> decide

theorem wholePlanes_obeys (chip : Chip) : (wholePlanes chip).Obeys chip where
  fetch := by
    rintro regs fmt a hset ⟨fmt', hset', i, hi, rfl⟩
    obtain rfl := raw_eq_of_code fmt hset.mem fmt' hset'.mem hset.raw hset'.raw
      (hset.code.symm.trans hset'.code)
    exact ⟨i, hi, le_rfl, le_rfl⟩
  store := by
    rintro regs a rfl
    exact ⟨le_rfl, le_rfl⟩

/-! ### The registers of a program -/

section Program
variable (chip : Chip) {ctx : Ctx} {vpuSrcFmt : Fmt} {qtable : JpegQuantization}
  {src dst : Vb2Buffer} (prior : RegFile)

/-- The height is cut to nine bits on both chips. -/
theorem program_mbHeight : (geometryLayout chip).mbHeight.read
    (runWrites (program chip ctx vpuSrcFmt qtable src dst) prior) =
      (mbCount ctx.srcFmt.height).toNat % 2 ^ 9 := by
  have hstart : runWrites (program chip ctx vpuSrcFmt qtable src dst) prior (startReg chip) =
      startWord chip ctx := runWrites_start chip prior
  cases chip with
  | rk3288 => exact rk3288_mbHeight_read hstart
  | rk3399 => exact rk3399_mbHeight_read hstart

theorem program_rowLen (hw : ctx.srcFmt.width.toNat ≤ 8192) : (geometryLayout chip).rowLen.read
    (runWrites (program chip ctx vpuSrcFmt qtable src dst) prior) = ctx.srcFmt.width.toNat := by
  cases chip with
  | rk3288 =>
    have himg : runWrites (program .rk3288 ctx vpuSrcFmt qtable src dst) prior
        Rk3288.vepuRegInImgCtrl = rk3288InImgCtrl ctx vpuSrcFmt := by
      refine runWrites_img .rk3288 prior
        (w := ⟨rk3288InImgCtrl ctx vpuSrcFmt, Rk3288.vepuRegInImgCtrl⟩) ?_
      rw [setSrcImgCtrl, rk3288VpuSetSrcImgCtrl_eq, List.mem_singleton]
    have hzero : (0 : U32).toNat < 2 ^ 2 := by decide
    simp only [geometryLayout, BitRange.read, himg, rk3288InImgCtrl]
    rw [field_stack_high hzero _ (encFmtVal_lt _) (by norm_num) (by norm_num),
      Nat.mod_eq_of_lt (hw.trans_lt (by norm_num))]
  | rk3399 =>
    have hluma : runWrites (program .rk3399 ctx vpuSrcFmt qtable src dst) prior
        Rk3399.vepuRegInputLumaInfo = Rk3399.vepuRegInImgCtrlRowLen ctx.srcFmt.width := by
      refine runWrites_img .rk3399 prior
        (w := ⟨Rk3399.vepuRegInImgCtrlRowLen ctx.srcFmt.width, Rk3399.vepuRegInputLumaInfo⟩) ?_
      simp [setSrcImgCtrl, rk3399VpuSetSrcImgCtrl]
    have hrow : (ctx.srcFmt.width &&& 0x3fff).toNat = ctx.srcFmt.width.toNat := by
      rw [toNat_and_mask (show (0x3fff : U32).toNat = 2 ^ 14 - 1 from rfl),
        Nat.mod_eq_of_lt (hw.trans_lt (by norm_num))]
    simp only [geometryLayout, BitRange.read, hluma, Rk3399.vepuRegInImgCtrlRowLen]
    rw [field_shiftLeft_self (by norm_num), hrow, Nat.mod_eq_of_lt (hw.trans_lt (by norm_num))]

theorem program_fmt : (geometryLayout chip).fmt.read
    (runWrites (program chip ctx vpuSrcFmt qtable src dst) prior) =
      (encFmtVal vpuSrcFmt.encFmt).toNat := by
  cases chip with
  | rk3288 =>
    have himg : runWrites (program .rk3288 ctx vpuSrcFmt qtable src dst) prior
        Rk3288.vepuRegInImgCtrl = rk3288InImgCtrl ctx vpuSrcFmt := by
      refine runWrites_img .rk3288 prior
        (w := ⟨rk3288InImgCtrl ctx vpuSrcFmt, Rk3288.vepuRegInImgCtrl⟩) ?_
      rw [setSrcImgCtrl, rk3288VpuSetSrcImgCtrl_eq, List.mem_singleton]
    have hzero : (0 : U32).toNat < 2 ^ 2 := by decide
    simp only [geometryLayout, BitRange.read, himg, rk3288InImgCtrl]
    rw [field_stack_mid hzero _ _ (by norm_num) (by norm_num), Nat.mod_eq_of_lt (encFmtVal_lt _)]
  | rk3399 =>
    have hctrl : runWrites (program .rk3399 ctx vpuSrcFmt qtable src dst) prior
        Rk3399.vepuRegEncCtrl1 = Rk3399.vepuRegInImgCtrlFmt (encFmtVal vpuSrcFmt.encFmt) := by
      refine runWrites_img .rk3399 prior
        (w := ⟨Rk3399.vepuRegInImgCtrlFmt (encFmtVal vpuSrcFmt.encFmt),
          Rk3399.vepuRegEncCtrl1⟩) ?_
      simp [setSrcImgCtrl, rk3399VpuSetSrcImgCtrl]
    have hfmt : (encFmtVal vpuSrcFmt.encFmt &&& 0xf).toNat =
        (encFmtVal vpuSrcFmt.encFmt).toNat := by
      rw [toNat_and_mask (show (0xf : U32).toNat = 2 ^ 4 - 1 from rfl),
        Nat.mod_eq_of_lt (encFmtVal_lt _)]
    simp only [geometryLayout, BitRange.read, hctrl, Rk3399.vepuRegInImgCtrlFmt]
    rw [field_shiftLeft_self (by norm_num), hfmt, Nat.mod_eq_of_lt (encFmtVal_lt _)]

/-- The address registers. -/
theorem program_planeReg (h3 : ctx.srcFmt.numPlanes ≤ 3) {i : Plane}
    (hi : i.val < ctx.srcFmt.numPlanes) :
    runWrites (program chip ctx vpuSrcFmt qtable src dst) prior (planeReg (jpegRegs chip) i) =
      (src.planes i).dmaAddr := by
  have hbufs := planeAddrs_eq (by omega) h3 src
  have hbuf {w : Write} (hw : w ∈ jpegEncSetBuffers (jpegRegs chip) ctx src dst) :
      runWrites (program chip ctx vpuSrcFmt qtable src dst) prior w.reg = w.val :=
    runWrites_body chip prior (by simp [programBody, hw])
  have hplane : orLast ctx.srcFmt.numPlanes i = i := Fin.ext (min_eq_left (by omega))
  have hcases : i = 0 ∨ i = 1 ∨ i = 2 := by
    rcases i with ⟨i, hlt⟩
    simp only [Fin.ext_iff, Fin.val_zero, Fin.val_one, Fin.val_two] at hi ⊢
    omega
  rcases hcases with rfl | rfl | rfl
  · exact hbuf (w := ⟨_, (jpegRegs chip).addrInLuma⟩) (by simp [jpegEncSetBuffers, hbufs])
  · exact hbuf (w := ⟨_, (jpegRegs chip).addrInCb⟩) (by simp [jpegEncSetBuffers, hbufs, hplane])
  · exact hbuf (w := ⟨_, (jpegRegs chip).addrInCr⟩) (by simp [jpegEncSetBuffers, hbufs, hplane])

/-- The room for the stream is the first plane of the capture buffer. -/
theorem streamArea_program :
    streamArea chip (runWrites (program chip ctx vpuSrcFmt qtable src dst) prior) =
      ⟨(dst.planes 0).dmaAddr.toNat, (vb2PlaneSize dst 0).toNat⟩ := by
  have hbuf {w : Write} (hw : w ∈ jpegEncSetBuffers (jpegRegs chip) ctx src dst) :
      runWrites (program chip ctx vpuSrcFmt qtable src dst) prior w.reg = w.val :=
    runWrites_body chip prior (by simp [programBody, hw])
  have haddr := hbuf (w := ⟨(dst.planes 0).dmaAddr, (jpegRegs chip).addrOutputStream⟩)
    (by simp [jpegEncSetBuffers])
  have hlimit := hbuf (w := ⟨vb2PlaneSize dst 0, (jpegRegs chip).strBufLimit⟩)
    (by simp [jpegEncSetBuffers])
  simp only [streamArea, haddr, hlimit]

end Program

/-! ### What is touched -/

section Touched
variable {chip : Chip} {dma : EncoderDma} {ctx : Ctx} {vpuSrcFmt : Fmt} {qtable : JpegQuantization}
  {src dst : Vb2Buffer} {a : Area}

/-- Whatever is fetched of a raw frame that its buffer holds lies in the planes of the buffer. -/
theorem fetch_program (hdma : dma.Obeys chip) (hmem : vpuSrcFmt ∈ chip.variant.encFmts)
    (hraw : vpuSrcFmt.codecMode = .none) (hnum : ctx.srcFmt.numPlanes = vpuSrcFmt.numPlanes)
    (hw : ctx.srcFmt.width.toNat ≤ 8192)
    (hframe : ∀ i : Plane, i.val < vpuSrcFmt.numPlanes →
      16 * (mbCount ctx.srcFmt.height).toNat *
        (ctx.srcFmt.width.toNat * (vpuSrcFmt.depthAt i).toNat / 8) ≤ (vb2PlaneSize src i).toNat)
    (prior : RegFile)
    (ha : dma.fetches (runWrites (program chip ctx vpuSrcFmt qtable src dst) prior) a) :
    ∃ i : Plane, i.val < vpuSrcFmt.numPlanes ∧ InPlane src i a := by
  have h3 := (numPlanes_between hmem).2
  obtain ⟨i, hi, hin⟩ := hdma.fetch ⟨hmem, hraw, program_fmt chip prior⟩ ha
  refine ⟨i, hi, ?_⟩
  rw [planeArea, program_planeReg chip prior (hnum ▸ h3) (hnum ▸ hi), program_mbHeight,
    program_rowLen chip prior hw] at hin
  -- the field for the height may have lost its upper bits
  have hrows : 16 * ((mbCount ctx.srcFmt.height).toNat % 2 ^ 9) ≤
      16 * (mbCount ctx.srcFmt.height).toNat := Nat.mul_le_mul_left _ (Nat.mod_le _ _)
  exact hin.grow ((Nat.mul_le_mul_right _ hrows).trans (hframe i hi))

/-- What is written lies in the first plane of the capture buffer. -/
theorem store_program (hdma : dma.Obeys chip) (prior : RegFile)
    (ha : dma.stores (runWrites (program chip ctx vpuSrcFmt qtable src dst) prior) a) :
    InPlane dst 0 a := by
  have hin := hdma.store ha
  rwa [streamArea_program] at hin

end Touched

end RockchipVpu.Hw
