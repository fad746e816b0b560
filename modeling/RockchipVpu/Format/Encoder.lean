import RockchipVpu.Format.Variants

/-! The encoder's format ioctls, function by function and under the names of the
source. A result of `none` is the dereference of a null descriptor; otherwise an
ioctl returns its code, the format it hands back and, where it can change it, the
context. -/

namespace RockchipVpu.Format

open Base

/-! ### Descriptor lookup -/

def findFormat (v : Variant) (fourcc : U32) : Option Fmt :=
  v.encFmts.find? fun fmt => fmt.fourcc == fourcc

def getDefaultFmt (v : Variant) (bitstream : Bool) : Option Fmt :=
  v.encFmts.find? fun fmt => bitstream == (fmt.codecMode != .none)

/-! ### Sizes -/

def calculatePlaneSizes (fmt : Fmt) (pixMp : PixFormatMplane) : PixFormatMplane :=
  let w := pixMp.width
  let h := pixMp.height
  (planesOf fmt.numPlanes).foldl (fun p i =>
    let bytesperline := w * fmt.depthAt i / 8
    p.setPlane i { sizeimage := h * bytesperline, bytesperline := bytesperline }) pixMp

/-- `width * height * max_depth` on plane zero, as the codec side computes it. -/
def setCodedSize (fmt : Fmt) (pixMp : PixFormatMplane) : PixFormatMplane :=
  pixMp.setPlane 0
    { pixMp.planeFmt 0 with
      sizeimage := pixMp.width * pixMp.height * fmt.maxDepth
      reserved := List.replicate 6 0 }

/-! ### TRY_FMT -/

/-- The lookup both handlers begin with: an unknown fourcc is replaced by that of
the default entry. -/
def pickFormat (v : Variant) (bitstream : Bool) (pixMp : PixFormatMplane) :
    Option (Fmt × PixFormatMplane) :=
  match findFormat v pixMp.pixelformat with
  | some fmt => some (fmt, pixMp)
  | none => (getDefaultFmt v bitstream).map fun fmt =>
      (fmt, { pixMp with pixelformat := fmt.fourcc })

def fitCap (fmt : Fmt) (pixMp : PixFormatMplane) : PixFormatMplane :=
  setCodedSize fmt { pixMp with
    numPlanes := fmt.numPlanes
    field := fieldNone
    width := clamp pixMp.width fmt.frmsize.minWidth fmt.frmsize.maxWidth
    height := clamp pixMp.height fmt.frmsize.minHeight fmt.frmsize.maxHeight }

def vidiocTryFmtCap (ctx : Ctx) (pixMp : PixFormatMplane) : Option (Ret × PixFormatMplane) := do
  let (fmt, pixMp) ← pickFormat ctx.variant true pixMp
  return (.ok, fitCap fmt pixMp)

/-- `vidioc_try_fmt_out` up to the first call of `calculate_plane_sizes`: clamp to
the destination's limits and round up to macroblocks. -/
def fitOut (fmt dst : Fmt) (pixMp : PixFormatMplane) : PixFormatMplane :=
  calculatePlaneSizes fmt { pixMp with
    numPlanes := fmt.numPlanes
    field := fieldNone
    width := roundUp (clamp pixMp.width dst.frmsize.minWidth dst.frmsize.maxWidth) mbDim
    height := roundUp (clamp pixMp.height dst.frmsize.minHeight dst.frmsize.maxHeight) mbDim }

def needAlignment (dmaAlign : U32) (fmt : Fmt) (pixMp : PixFormatMplane) : Bool :=
  (planesOf fmt.numPlanes).any fun i => !isAligned (pixMp.planeFmt i).sizeimage dmaAlign

def alignHeight (dmaAlign : U32) (pixMp : PixFormatMplane) : PixFormatMplane :=
  { pixMp with height := roundUp pixMp.height (dmaAlign * 4 / mbDim) }

/-- `vidioc_try_fmt_out`, `dmaAlign` being the result of `dma_get_cache_alignment`. -/
def vidiocTryFmtOut (dmaAlign : U32) (ctx : Ctx) (pixMp : PixFormatMplane) :
    Option (Ret × PixFormatMplane) := do
  let (fmt, pixMp) ← pickFormat ctx.variant false pixMp
  let dst ← ctx.vpuDstFmt
  let pixMp := fitOut fmt dst pixMp
  if !needAlignment dmaAlign fmt pixMp then
    return (.ok, pixMp)
  let pixMp := alignHeight dmaAlign pixMp
  if dst.frmsize.maxHeight < pixMp.height then
    return (.err .einval, pixMp)
  return (.ok, calculatePlaneSizes fmt pixMp)

/-! ### Resets and open -/

def encResetDstFmt (ctx : Ctx) : Option Ctx := do
  let vpuDstFmt ← getDefaultFmt ctx.variant true
  let fmt : PixFormatMplane := {
    numPlanes := vpuDstFmt.numPlanes
    width := clamp 0 vpuDstFmt.frmsize.minWidth vpuDstFmt.frmsize.maxWidth
    height := clamp 0 vpuDstFmt.frmsize.minHeight vpuDstFmt.frmsize.maxHeight
    pixelformat := vpuDstFmt.fourcc
    field := fieldNone
    colorimetry := ctx.colorimetry }
  return { ctx with vpuDstFmt := some vpuDstFmt, dstFmt := setCodedSize vpuDstFmt fmt }

def encResetSrcFmt (ctx : Ctx) : Option Ctx := do
  let vpuSrcFmt ← getDefaultFmt ctx.variant false
  let dst ← ctx.vpuDstFmt
  let fmt : PixFormatMplane := {
    numPlanes := vpuSrcFmt.numPlanes
    width := clamp 0 dst.frmsize.minWidth dst.frmsize.maxWidth
    height := clamp 0 dst.frmsize.minHeight dst.frmsize.maxHeight
    pixelformat := vpuSrcFmt.fourcc
    field := fieldNone
    colorimetry := ctx.colorimetry }
  return { ctx with vpuSrcFmt := some vpuSrcFmt, srcFmt := calculatePlaneSizes vpuSrcFmt fmt }

/-- The format part of `rockchip_vpu_open` on the encoder node: both resets on a
zeroed context. -/
def openFormats (v : Variant) : Option Ctx := do
  let ctx ← encResetDstFmt { variant := v }
  encResetSrcFmt ctx

/-! ### G_FMT and S_FMT -/

def vidiocGFmtOut (ctx : Ctx) : PixFormatMplane :=
  { ctx.srcFmt with colorimetry := ctx.colorimetry }

def vidiocGFmtCap (ctx : Ctx) : PixFormatMplane :=
  { ctx.dstFmt with colorimetry := ctx.colorimetry }

def vidiocSFmtOut (dmaAlign : U32) (q : Queues) (ctx : Ctx) (pixMp : PixFormatMplane) :
    Option (Ret × Ctx × PixFormatMplane) :=
  if q.output.streaming then some (.err .ebusy, ctx, pixMp)
  else
    -- the colorimetry is stored before the peer check
    let ctx := { ctx with colorimetry := pixMp.colorimetry }
    if q.capture.busy && pixMp.pixelformat != ctx.srcFmt.pixelformat then
      some (.err .ebusy, ctx, pixMp)
    else match vidiocTryFmtOut dmaAlign ctx pixMp with
      | none => none
      | some (.err e, pixMp) => some (.err e, ctx, pixMp)
      | some (.ok, pixMp) =>
        let ctx := { ctx with
          vpuSrcFmt := findFormat ctx.variant pixMp.pixelformat
          srcFmt := pixMp }
        some (.ok, ctx, pixMp)

def vidiocSFmtCap (q : Queues) (ctx : Ctx) (pixMp : PixFormatMplane) :
    Option (Ret × Ctx × PixFormatMplane) :=
  if q.capture.streaming then some (.err .ebusy, ctx, pixMp)
  else
    let ctx := { ctx with colorimetry := pixMp.colorimetry }
    if q.output.busy && pixMp.pixelformat != ctx.dstFmt.pixelformat then
      some (.err .ebusy, ctx, pixMp)
    else match vidiocTryFmtCap ctx pixMp with
      | none => none
      | some (.err e, pixMp) => some (.err e, ctx, pixMp)
      | some (.ok, pixMp) =>
        let ctx := { ctx with
          vpuDstFmt := findFormat ctx.variant pixMp.pixelformat
          dstFmt := pixMp }
        (encResetSrcFmt ctx).map fun ctx => (.ok, ctx, pixMp)

def vidiocSFmt (dmaAlign : U32) (q : Queues) (ctx : Ctx) (type : BufType)
    (f : PixFormatMplane) : Option (Ret × Ctx × PixFormatMplane) :=
  match type with
  | .output => vidiocSFmtOut dmaAlign q ctx f
  | .capture => vidiocSFmtCap q ctx f

/-! ### Streaming -/

def startStreaming (type : BufType) (ctx : Ctx) : Option Ctx := do
  let ctx := match type with
    | .output => { ctx with sequenceOut := 0 }
    | .capture => { ctx with sequenceCap := 0 }
  let dst ← ctx.vpuDstFmt
  return { ctx with codecOps := ctx.variant.codecOpsAt dst.codecMode }

end RockchipVpu.Format
