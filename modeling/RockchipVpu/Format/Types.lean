import Mathlib.Data.Fintype.Pi
import Mathlib.Data.List.FinRange
import RockchipVpu.Base.Word

/-! The data of format negotiation: the driver's format descriptors, the V4L2
multi-planar pixel format, and the part of a context the encoder ioctls read and
write. Pointers to descriptors and to codec operations are options, `none` being
the null pointer. -/

namespace RockchipVpu.Format

open Base

/-! ### Constants -/

/-- Four character codes, least significant byte first. -/
def v4l2Fourcc (a b c d : Char) : U32 :=
  BitVec.ofNat 32 a.toNat ||| BitVec.ofNat 32 b.toNat <<< 8 |||
    BitVec.ofNat 32 c.toNat <<< 16 ||| BitVec.ofNat 32 d.toNat <<< 24

def pixFmtYuv420m : U32 := v4l2Fourcc 'Y' 'M' '1' '2'
def pixFmtNv12m : U32 := v4l2Fourcc 'N' 'M' '1' '2'
def pixFmtYuyv : U32 := v4l2Fourcc 'Y' 'U' 'Y' 'V'
def pixFmtUyvy : U32 := v4l2Fourcc 'U' 'Y' 'V' 'Y'
def pixFmtJpegRaw : U32 := v4l2Fourcc 'J' 'P' 'G' 'R'
def pixFmtH264 : U32 := v4l2Fourcc 'H' '2' '6' '4'
def pixFmtVp8 : U32 := v4l2Fourcc 'V' 'P' '8' '0'

def fieldAny : U32 := 0
def fieldNone : U32 := 1

/-- `MB_DIM`. -/
def mbDim : U32 := 16

/-- `MB_WIDTH` and `MB_HEIGHT`: the macroblocks that cover a side. -/
def mbCount (size : U32) : U32 := divRoundUp size mbDim

/-- `VIDEO_MAX_PLANES`. -/
abbrev videoMaxPlanes : ℕ := 8

instance : NeZero videoMaxPlanes := ⟨by decide⟩

/-- An index into a plane array. -/
abbrev Plane := Fin videoMaxPlanes

/-- The planes that a loop `for (i = 0; i < n; ++i)` visits. -/
def planesOf (n : ℕ) : List Plane := (List.finRange videoMaxPlanes).filter (·.val < n)

@[simp] theorem mem_planesOf {n : ℕ} {i : Plane} : i ∈ planesOf n ↔ i.val < n := by
  simp [planesOf]

/-- Error numbers of the modelled functions. -/
inductive Errno
  | einval | ebusy | enomem | enodev | enxio
  deriving DecidableEq

/-- The return code of an ioctl. -/
inductive Ret
  | ok
  | err (e : Errno)
  deriving DecidableEq

/-! ### Descriptors -/

/-- `enum rockchip_vpu_codec_mode`. -/
inductive CodecMode
  | none | jpegEnc | h264Dec | vp8Dec
  deriving DecidableEq

/-- The value of the enumerator, the index into `codec_ops`. -/
def CodecMode.toInt : CodecMode → ℤ
  | .none => -1
  | .jpegEnc => 0
  | .h264Dec => 1
  | .vp8Dec => 2

/-- `enum rockchip_vpu_enc_fmt`. -/
inductive EncFmt
  | yuv420p | yuv420sp | yuyv422 | uyvy422
  deriving DecidableEq

/-- `struct v4l2_frmsize_stepwise`. -/
structure FrmsizeStepwise where
  minWidth : U32 := 0
  maxWidth : U32 := 0
  stepWidth : U32 := 0
  minHeight : U32 := 0
  maxHeight : U32 := 0
  stepHeight : U32 := 0
  deriving DecidableEq

/-- `struct rockchip_vpu_fmt`; what an initializer leaves out is zero. The plane
count never exceeds the plane arrays it indexes. -/
structure Fmt where
  fourcc : U32
  codecMode : CodecMode
  numPlanes : ℕ
  maxDepth : U32 := 0
  depth : List (BitVec 8) := []
  encFmt : EncFmt := .yuv420p
  frmsize : FrmsizeStepwise := {}
  numPlanes_le : numPlanes ≤ videoMaxPlanes := by decide
  deriving DecidableEq

/-- `fmt->depth[i]`, promoted to the 32-bit type it is multiplied in. -/
def Fmt.depthAt (fmt : Fmt) (i : Plane) : U32 := (fmt.depth.getD i 0).setWidth 32

/-- The functions `codec_ops` entries point to. -/
inductive RunFn
  | rk3288JpegEncRun | rk3399JpegEncRun | rk3288H264DecRun | rk3288Vp8DecRun
  deriving DecidableEq

inductive ResetFn
  | rk3288EncReset | rk3399EncReset | rk3288DecReset
  deriving DecidableEq

/-- `struct rockchip_vpu_codec_ops`. -/
structure CodecOps where
  run : Option RunFn
  reset : Option ResetFn
  deriving DecidableEq

/-- `struct rockchip_vpu_variant`. -/
structure Variant where
  encFmts : List Fmt
  decFmts : List Fmt
  codec : U32
  codecOps : List CodecOps
  deriving DecidableEq

/-- `&variant->codec_ops[codec_mode]`; `none` outside of the table. -/
def Variant.codecOpsAt (v : Variant) (mode : CodecMode) : Option CodecOps :=
  if 0 ≤ mode.toInt then v.codecOps[mode.toInt.toNat]? else none

/-! ### Pixel formats -/

/-- `struct v4l2_plane_pix_format`. -/
@[ext]
structure PlanePixFormat where
  sizeimage : U32 := 0
  bytesperline : U32 := 0
  reserved : List (BitVec 16) := List.replicate 6 0
  deriving DecidableEq

/-- The colorimetry fields, kept in every pixel format and once in the context. -/
structure Colorimetry where
  colorspace : U32 := 0
  ycbcrEnc : BitVec 8 := 0
  xferFunc : BitVec 8 := 0
  quantization : BitVec 8 := 0
  deriving DecidableEq

/-- `struct v4l2_pix_format_mplane`; the default is the zeroed structure. -/
@[ext]
structure PixFormatMplane where
  width : U32 := 0
  height : U32 := 0
  pixelformat : U32 := 0
  field : U32 := 0
  colorimetry : Colorimetry := {}
  planeFmt : Plane → PlanePixFormat := fun _ => {}
  numPlanes : ℕ := 0
  flags : BitVec 8 := 0
  deriving DecidableEq

def PixFormatMplane.setPlane (pixMp : PixFormatMplane) (i : Plane) (p : PlanePixFormat) :
    PixFormatMplane :=
  { pixMp with planeFmt := Function.update pixMp.planeFmt i p }

/-! ### Contexts and queues -/

/-- The format part of `struct rockchip_vpu_ctx`. -/
structure Ctx where
  variant : Variant
  sequenceCap : U32 := 0
  sequenceOut : U32 := 0
  vpuSrcFmt : Option Fmt := none
  srcFmt : PixFormatMplane := {}
  vpuDstFmt : Option Fmt := none
  dstFmt : PixFormatMplane := {}
  colorimetry : Colorimetry := {}
  codecOps : Option CodecOps := none
  deriving DecidableEq

/-- The two queues of a context. -/
inductive BufType
  | output | capture
  deriving DecidableEq

/-- The other queue. -/
def BufType.peer : BufType → BufType
  | .output => .capture
  | .capture => .output

/-- What `vb2_is_streaming` and `vb2_is_busy` answer for a queue. -/
structure QueueState where
  streaming : Bool
  busy : Bool
  deriving DecidableEq

structure Queues where
  output : QueueState
  capture : QueueState
  deriving DecidableEq

/-- `v4l2_m2m_get_vq`. -/
def Queues.getVq (q : Queues) : BufType → QueueState
  | .output => q.output
  | .capture => q.capture

end RockchipVpu.Format
