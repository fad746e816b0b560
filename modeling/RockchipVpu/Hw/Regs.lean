import RockchipVpu.Base.Word

/-! The registers that the JPEG program and the interrupt handlers touch, as byte offsets
from the base of the encoder or of the decoder, and the fields that are written to them. The
two chips have the same registers at different places and with different layouts. -/

namespace RockchipVpu.Hw

open Base

/-- `BIT(n)`. -/
def bit (n : ℕ) : U32 := 1#32 <<< n

/-- A register write, in the argument order of `vepu_write`. -/
structure Write where
  val : U32
  reg : U32
  deriving DecidableEq

namespace Rk3288

def vepuRegInterrupt : U32 := 0x004
def vepuRegInterruptFrameRdy : U32 := bit 2
def vepuRegInterruptDisBit : U32 := bit 1
def vepuRegAxiCtrl : U32 := 0x008
def vepuRegAxiCtrlOutputSwap16 : U32 := bit 15
def vepuRegAxiCtrlInputSwap16 : U32 := bit 14
def vepuRegAxiCtrlBurstLen (x : U32) : U32 := x <<< 8
def vepuRegAxiCtrlOutputSwap32 : U32 := bit 3
def vepuRegAxiCtrlInputSwap32 : U32 := bit 2
def vepuRegAxiCtrlOutputSwap8 : U32 := bit 1
def vepuRegAxiCtrlInputSwap8 : U32 := bit 0
def vepuRegAddrOutputStream : U32 := 0x014
def vepuRegAddrInLuma : U32 := 0x02c
def vepuRegAddrInCb : U32 := 0x030
def vepuRegAddrInCr : U32 := 0x034
def vepuRegEncCtrl : U32 := 0x038
def vepuRegEncCtrlWidth (w : U32) : U32 := w <<< 19
def vepuRegEncCtrlHeight (h : U32) : U32 := h <<< 10
def vepuRegEncPicIntra : U32 := 0x1#32 <<< 3
def vepuRegEncCtrlEncModeJpeg : U32 := 0x2#32 <<< 1
def vepuRegEncCtrlEnBit : U32 := bit 0
def vepuRegInImgCtrl : U32 := 0x03c
def vepuRegInImgCtrlRowLen (x : U32) : U32 := x <<< 12
def vepuRegInImgCtrlOvrflrD4 (x : U32) : U32 := x <<< 10
def vepuRegInImgCtrlOvrflbD4 (x : U32) : U32 := x <<< 6
def vepuRegInImgCtrlFmt (x : U32) : U32 := x <<< 2
def vepuRegStrBufLimit : U32 := 0x060
def vepuRegJpegLumaQuat (i : U32) : U32 := 0x100 + i * 0x4
def vepuRegJpegChromaQuat (i : U32) : U32 := 0x140 + i * 0x4
def vdpuRegInterrupt : U32 := 0x004

end Rk3288

namespace Rk3399

def vepuRegJpegLumaQuat (i : U32) : U32 := 0x000 + i * 0x4
def vepuRegJpegChromaQuat (i : U32) : U32 := 0x040 + i * 0x4
def vepuRegAddrInLuma : U32 := 0x0c0
def vepuRegAddrInCb : U32 := 0x0c4
def vepuRegAddrInCr : U32 := 0x0c8
def vepuRegStrBufLimit : U32 := 0x0d4
def vepuRegAxiCtrl : U32 := 0x0d8
def vepuRegAxiCtrlBurstLen (x : U32) : U32 := (x &&& 0x3f) <<< 8
def vepuRegEncOverFillStrmOffset : U32 := 0x0f0
def vepuRegInImgCtrlOvrflrD4 (x : U32) : U32 := (x &&& 0x3) <<< 4
def vepuRegInImgCtrlOvrflb (x : U32) : U32 := (x &&& 0xf) <<< 0
def vepuRegInputLumaInfo : U32 := 0x0f4
def vepuRegInImgCtrlRowLen (x : U32) : U32 := (x &&& 0x3fff) <<< 0
def vepuRegEncCtrl1 : U32 := 0x128
def vepuRegInImgCtrlFmt (x : U32) : U32 := (x &&& 0xf) <<< 4
def vepuRegAddrOutputStream : U32 := 0x134
def vepuRegEncodeStart : U32 := 0x19c
def vepuRegMbHeight (x : U32) : U32 := (x &&& 0x1ff) <<< 20
def vepuRegMbWidth (x : U32) : U32 := (x &&& 0x1ff) <<< 8
def vepuRegFrameTypeIntra : U32 := 1#32 <<< 6
def vepuRegEncodeFormatJpeg : U32 := 2#32 <<< 4
def vepuRegEncodeEnable : U32 := bit 0
def vepuRegDataEndian : U32 := 0x1a4
def vepuRegInputSwap8 : U32 := bit 31
def vepuRegInputSwap16 : U32 := bit 30
def vepuRegInputSwap32 : U32 := bit 29
def vepuRegOutputSwap8 : U32 := bit 28
def vepuRegOutputSwap16 : U32 := bit 27
def vepuRegOutputSwap32 : U32 := bit 26
def vepuRegInterrupt : U32 := 0x1b4
def vepuRegInterruptDisBit : U32 := bit 8
def vepuRegInterruptFrameReady : U32 := bit 1
def vdpuRegInterrupt : U32 := 0x0dc
def vdpuRegAxiCtrl : U32 := 0x0e0

end Rk3399

end RockchipVpu.Hw
