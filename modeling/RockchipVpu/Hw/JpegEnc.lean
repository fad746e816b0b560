import RockchipVpu.Hw.Regs
import RockchipVpu.Queue.Buffer

/-! The JPEG program of both chips: the register writes of one job, in order. The
buffer addresses and the quantization tables are written the same way on both, to
the registers of the chip; the image control words differ in layout. The last
write of a program is the one that starts the encoder. -/

namespace RockchipVpu.Hw

open Base Format Queue

/-- `struct v4l2_ctrl_jpeg_quantization`. -/
structure JpegQuantization where
  luma : Fin 64 → BitVec 16
  chroma : Fin 64 → BitVec 16

/-- The value of the enumerator. -/
def encFmtVal : EncFmt → U32
  | .yuv420p => 0
  | .yuv420sp => 1
  | .yuyv422 => 2
  | .uyvy422 => 3

/-- `RK_QUANT_ROW`. -/
def rkQuantRow (e0 e1 e2 e3 : BitVec 16) : U32 :=
  (e0.setWidth 32 &&& 0xff) ||| ((e1.setWidth 32 &&& 0xff) <<< 8) |||
    ((e2.setWidth 32 &&& 0xff) <<< 16) ||| ((e3.setWidth 32 &&& 0xff) <<< 24)

/-- Row `i` of a table of coefficients. -/
def quantRow (coef : Fin 64 → BitVec 16) (i : Fin 16) : U32 :=
  rkQuantRow (coef ⟨i * 4, by omega⟩) (coef ⟨i * 4 + 1, by omega⟩)
    (coef ⟨i * 4 + 2, by omega⟩) (coef ⟨i * 4 + 3, by omega⟩)

/-! ### The parts that both chips share -/

/-- The registers that `set_buffers` and `set_qtable` write. -/
structure JpegRegs where
  addrOutputStream : U32
  strBufLimit : U32
  addrInLuma : U32
  addrInCb : U32
  addrInCr : U32
  lumaQuat : U32 → U32
  chromaQuat : U32 → U32

/-- The addresses of the Y, Cb and Cr planes; formats with fewer planes repeat the
last one. -/
def planeAddrs (pixFmt : PixFormatMplane) (src : Vb2Buffer) : U32 × U32 × U32 :=
  let addr i := (src.planes i).dmaAddr
  if pixFmt.numPlanes = 1 then (addr 0, addr 0, addr 0)
  else if pixFmt.numPlanes = 2 then (addr 0, addr 1, addr 1)
  else (addr 0, addr 1, addr 2)

def jpegEncSetBuffers (r : JpegRegs) (ctx : Ctx) (src dst : Vb2Buffer) : List Write :=
  let (y, cb, cr) := planeAddrs ctx.srcFmt src
  [⟨(dst.planes 0).dmaAddr, r.addrOutputStream⟩, ⟨vb2PlaneSize dst 0, r.strBufLimit⟩,
    ⟨y, r.addrInLuma⟩, ⟨cr, r.addrInCr⟩, ⟨cb, r.addrInCb⟩]

def jpegEncSetQtable (r : JpegRegs) (qtable : JpegQuantization) : List Write :=
  (List.finRange 16).flatMap fun i =>
    [⟨quantRow qtable.luma i, r.lumaQuat (BitVec.ofNat 32 i)⟩,
      ⟨quantRow qtable.chroma i, r.chromaQuat (BitVec.ofNat 32 i)⟩]

/-! ### RK3288 -/

section Rk3288
open Rk3288

def rk3288JpegRegs : JpegRegs where
  addrOutputStream := vepuRegAddrOutputStream
  strBufLimit := vepuRegStrBufLimit
  addrInLuma := vepuRegAddrInLuma
  addrInCb := vepuRegAddrInCb
  addrInCr := vepuRegAddrInCr
  lumaQuat := vepuRegJpegLumaQuat
  chromaQuat := vepuRegJpegChromaQuat

def rk3288VpuSetSrcImgCtrl (ctx : Ctx) (vpuSrcFmt : Fmt) : List Write :=
  [⟨vepuRegInImgCtrlRowLen ctx.srcFmt.width ||| vepuRegInImgCtrlOvrflrD4 0 |||
    vepuRegInImgCtrlOvrflbD4 0 ||| vepuRegInImgCtrlFmt (encFmtVal vpuSrcFmt.encFmt),
    vepuRegInImgCtrl⟩]

def rk3288VpuJpegEncSetBuffers : Ctx → Vb2Buffer → Vb2Buffer → List Write :=
  jpegEncSetBuffers rk3288JpegRegs

def rk3288VpuJpegEncSetQtable : JpegQuantization → List Write :=
  jpegEncSetQtable rk3288JpegRegs

/-- The control word written before the last one. -/
def rk3288AxiCtrl : U32 :=
  vepuRegAxiCtrlOutputSwap16 ||| vepuRegAxiCtrlInputSwap16 ||| vepuRegAxiCtrlBurstLen 16 |||
    vepuRegAxiCtrlOutputSwap32 ||| vepuRegAxiCtrlInputSwap32 ||| vepuRegAxiCtrlOutputSwap8 |||
    vepuRegAxiCtrlInputSwap8

/-- The start word. -/
def rk3288EncCtrl (ctx : Ctx) : U32 :=
  vepuRegEncCtrlWidth (mbCount ctx.srcFmt.width) |||
    vepuRegEncCtrlHeight (mbCount ctx.srcFmt.height) |||
    vepuRegEncCtrlEncModeJpeg ||| vepuRegEncPicIntra ||| vepuRegEncCtrlEnBit

/-- `rk3288_vpu_jpeg_enc_run`, after both queue heads have been read. The watchdog
is scheduled before the last write. -/
def rk3288VpuJpegEncRun (ctx : Ctx) (qtable : Option JpegQuantization)
    (src dst : Vb2Buffer) : Option (List Write) := do
  let vpuSrcFmt ← ctx.vpuSrcFmt
  let qtable ← qtable
  return [⟨vepuRegEncCtrlEncModeJpeg, vepuRegEncCtrl⟩] ++
    rk3288VpuSetSrcImgCtrl ctx vpuSrcFmt ++
    rk3288VpuJpegEncSetBuffers ctx src dst ++
    rk3288VpuJpegEncSetQtable qtable ++
    [⟨rk3288AxiCtrl, vepuRegAxiCtrl⟩, ⟨rk3288EncCtrl ctx, vepuRegEncCtrl⟩]

end Rk3288

/-! ### RK3399 -/

section Rk3399
open Rk3399

def rk3399JpegRegs : JpegRegs where
  addrOutputStream := vepuRegAddrOutputStream
  strBufLimit := vepuRegStrBufLimit
  addrInLuma := vepuRegAddrInLuma
  addrInCb := vepuRegAddrInCb
  addrInCr := vepuRegAddrInCr
  lumaQuat := vepuRegJpegLumaQuat
  chromaQuat := vepuRegJpegChromaQuat

def rk3399VpuSetSrcImgCtrl (ctx : Ctx) (vpuSrcFmt : Fmt) : List Write :=
  [⟨vepuRegInImgCtrlRowLen ctx.srcFmt.width, vepuRegInputLumaInfo⟩,
    ⟨vepuRegInImgCtrlOvrflrD4 0 ||| vepuRegInImgCtrlOvrflb 0, vepuRegEncOverFillStrmOffset⟩,
    ⟨vepuRegInImgCtrlFmt (encFmtVal vpuSrcFmt.encFmt), vepuRegEncCtrl1⟩]

def rk3399VpuJpegEncSetBuffers : Ctx → Vb2Buffer → Vb2Buffer → List Write :=
  jpegEncSetBuffers rk3399JpegRegs

def rk3399VpuJpegEncSetQtable : JpegQuantization → List Write :=
  jpegEncSetQtable rk3399JpegRegs

/-- The byte order of input and output. -/
def rk3399DataEndian : U32 :=
  vepuRegOutputSwap32 ||| vepuRegOutputSwap16 ||| vepuRegOutputSwap8 ||| vepuRegInputSwap8 |||
    vepuRegInputSwap16 ||| vepuRegInputSwap32

/-- The start word. -/
def rk3399EncodeStart (ctx : Ctx) : U32 :=
  vepuRegMbWidth (mbCount ctx.srcFmt.width) ||| vepuRegMbHeight (mbCount ctx.srcFmt.height) |||
    vepuRegFrameTypeIntra ||| vepuRegEncodeFormatJpeg ||| vepuRegEncodeEnable

/-- `rk3399_vpu_jpeg_enc_run`. -/
def rk3399VpuJpegEncRun (ctx : Ctx) (qtable : Option JpegQuantization)
    (src dst : Vb2Buffer) : Option (List Write) := do
  let vpuSrcFmt ← ctx.vpuSrcFmt
  let qtable ← qtable
  return [⟨vepuRegEncodeFormatJpeg, vepuRegEncodeStart⟩] ++
    rk3399VpuSetSrcImgCtrl ctx vpuSrcFmt ++
    rk3399VpuJpegEncSetBuffers ctx src dst ++
    rk3399VpuJpegEncSetQtable qtable ++
    [⟨rk3399DataEndian, vepuRegDataEndian⟩, ⟨vepuRegAxiCtrlBurstLen 16, vepuRegAxiCtrl⟩,
      ⟨rk3399EncodeStart ctx, vepuRegEncodeStart⟩]

end Rk3399

end RockchipVpu.Hw
