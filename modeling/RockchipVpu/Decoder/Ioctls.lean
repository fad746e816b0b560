import RockchipVpu.Format.Encoder
import RockchipVpu.Queue.Buffer

/-! The decoder's format ioctls and queue operations, function by function and under the names
of the source. Both queues negotiate formats of one table of codecs. A result of `none` is the
dereference of a null descriptor, which TRY_FMT(OUTPUT) and S_FMT(OUTPUT) never make. -/

namespace RockchipVpu.Decoder

open Base Format Queue

def findFormat (v : Variant) (fourcc : U32) : Option Fmt :=
  v.decFmts.find? fun fmt => fmt.fourcc == fourcc

/-! ### G_FMT and TRY_FMT -/

def vidiocGFmtOut (ctx : Ctx) : PixFormatMplane := ctx.srcFmt

def vidiocGFmtCap (ctx : Ctx) : PixFormatMplane := ctx.dstFmt

def clearLine (pixMp : PixFormatMplane) : PixFormatMplane :=
  pixMp.setPlane 0 { pixMp.planeFmt 0 with bytesperline := 0 }

def vidiocTryFmtOut (ctx : Ctx) (pixMp : PixFormatMplane) : Ret × PixFormatMplane :=
  match findFormat ctx.variant pixMp.pixelformat with
  | none => (.err .einval, pixMp)
  | some _ =>
    if (pixMp.planeFmt 0).sizeimage = 0 then (.err .einval, pixMp)
    else (.ok, clearLine pixMp)

/-- The loop that sets `need_alignment`: it does so for a plane that is aligned. -/
def needAlignment (dmaAlign : U32) (fmt : Fmt) (pixMp : PixFormatMplane) : Bool :=
  (planesOf fmt.numPlanes).any fun i => isAligned (pixMp.planeFmt i).sizeimage dmaAlign

def heightStep (dmaAlign : U32) (fmt : Fmt) (limits : FrmsizeStepwise) (pixMp : PixFormatMplane) :
    U32 :=
  if needAlignment dmaAlign fmt pixMp then dmaAlign * 4 / limits.stepHeight
  else limits.stepHeight

/-- The rest of `vidioc_try_fmt_cap`: each side is rounded up first and clamped then. -/
def fitCap (dmaAlign : U32) (fmt : Fmt) (limits : FrmsizeStepwise) (pixMp : PixFormatMplane) :
    PixFormatMplane :=
  let roundedHeight := roundUp pixMp.height (heightStep dmaAlign fmt limits pixMp)
  let roundedWidth := roundUp pixMp.width limits.stepWidth
  clearLine { pixMp with
    width := clamp roundedWidth limits.minWidth limits.maxWidth
    height := clamp roundedHeight limits.minHeight limits.maxHeight }

/-- The limits are those of the descriptor that is stored, not of the one requested. -/
def vidiocTryFmtCap (dmaAlign : U32) (ctx : Ctx) (pixMp : PixFormatMplane) :
    Option (Ret × PixFormatMplane) :=
  match findFormat ctx.variant pixMp.pixelformat with
  | none => some (.err .einval, pixMp)
  | some fmt =>
    if fmt.numPlanes ≠ pixMp.numPlanes then some (.err .einval, pixMp)
    else ctx.vpuDstFmt.map fun dst => (.ok, fitCap dmaAlign fmt dst.frmsize pixMp)

/-! ### S_FMT -/

def vidiocSFmtOut (q : Queues) (ctx : Ctx) (pixMp : PixFormatMplane) :
    Ret × Ctx × PixFormatMplane :=
  if q.output.streaming then (.err .ebusy, ctx, pixMp)
  else if q.capture.busy && pixMp.pixelformat != ctx.srcFmt.pixelformat then
    (.err .ebusy, ctx, pixMp)
  else match vidiocTryFmtOut ctx pixMp with
    | (.err e, pixMp) => (.err e, ctx, pixMp)
    | (.ok, pixMp) =>
      (.ok, { ctx with
        vpuSrcFmt := findFormat ctx.variant pixMp.pixelformat
        srcFmt := pixMp }, pixMp)

def captureSizes (fmt : Fmt) (pixMp : PixFormatMplane) : PixFormatMplane :=
  let mbWidth := mbCount pixMp.width
  let mbHeight := mbCount pixMp.height
  (planesOf fmt.numPlanes).foldl (fun p i =>
    let bytesperline := mbWidth * mbDim * fmt.depthAt i / 8
    p.setPlane i { p.planeFmt i with
      bytesperline := bytesperline
      sizeimage := (bytesperline * mbHeight * mbDim) >>> (if i = 0 then 0 else 1) }) pixMp

/-- The peer it asks about buffers is CAPTURE, its own queue. -/
def vidiocSFmtCap (dmaAlign : U32) (q : Queues) (ctx : Ctx) (pixMp : PixFormatMplane) :
    Option (Ret × Ctx × PixFormatMplane) :=
  if q.capture.streaming then some (.err .ebusy, ctx, pixMp)
  else if q.capture.busy && pixMp.pixelformat != ctx.dstFmt.pixelformat then
    some (.err .ebusy, ctx, pixMp)
  else match vidiocTryFmtCap dmaAlign ctx pixMp with
    | none => none
    | some (.err e, pixMp) => some (.err e, ctx, pixMp)
    | some (.ok, pixMp) => do
      let fmt ← findFormat ctx.variant pixMp.pixelformat
      let pixMp := captureSizes fmt pixMp
      return (.ok, { ctx with vpuDstFmt := some fmt, dstFmt := pixMp }, pixMp)

def vidiocSFmt (dmaAlign : U32) (q : Queues) (ctx : Ctx) (type : BufType)
    (f : PixFormatMplane) : Option (Ret × Ctx × PixFormatMplane) :=
  match type with
  | .output => some (vidiocSFmtOut q ctx f)
  | .capture => vidiocSFmtCap dmaAlign q ctx f

/-! ### Queue operations -/

def limitBuffers (numBuffers : ℕ) : ℕ :=
  let n := if numBuffers < 1 then 1 else numBuffers
  if videoMaxFrame < n then videoMaxFrame else n

def motionVectorSize (pixMp : PixFormatMplane) : U32 :=
  64 * mbCount pixMp.width * mbCount pixMp.height

/-- The numbers of buffers and of planes, and the sizes of the planes. The coded format is the one
on OUTPUT. -/
def queueSetup (ctx : Ctx) (type : BufType) (numBuffers : ℕ) (sizes : Plane → U32) :
    Option (ℕ × ℕ × (Plane → U32)) :=
  match type with
  | .output => do
    let vpuSrcFmt ← ctx.vpuSrcFmt
    return (limitBuffers numBuffers, vpuSrcFmt.numPlanes,
      Function.update sizes 0 (ctx.srcFmt.planeFmt 0).sizeimage)
  | .capture => do
    let vpuDstFmt ← ctx.vpuDstFmt
    let size := roundUp (ctx.dstFmt.planeFmt 0).sizeimage 8
    let vpuSrcFmt ← ctx.vpuSrcFmt
    return (limitBuffers numBuffers, vpuDstFmt.numPlanes, Function.update sizes 0
      (if vpuSrcFmt.fourcc = pixFmtH264 then size + motionVectorSize ctx.dstFmt else size))

def bufPrepare (ctx : Ctx) (type : BufType) (vb : Vb2Buffer) : Option Ret :=
  match type with
  | .output =>
    some (if vb2PlaneSize vb 0 < (ctx.srcFmt.planeFmt 0).sizeimage then .err .einval else .ok)
  | .capture => ctx.vpuDstFmt.map fun vpuDstFmt => checkPlanes vpuDstFmt ctx.dstFmt vb

/-- `rockchip_vpu_start_streaming`, a copy of the encoder's. -/
def startStreaming : BufType → Ctx → Option Ctx := Format.startStreaming

end RockchipVpu.Decoder
