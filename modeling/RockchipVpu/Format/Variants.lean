import RockchipVpu.Format.Types

/-! The format tables, the codec operation tables and the two hardware variants,
entry by entry, and what negotiation relies on in them: each encoder table has a
raw and a codec default, its dimensions are whole macroblocks small enough that
no plane size wraps, and every codec mode in it has operations. -/

namespace RockchipVpu.Format

open Base

/-! ### RK3288 -/

/-- The frame sizes of the JPEG encoder, the same on both chips. -/
def jpegFrmsize : FrmsizeStepwise where
  minWidth := 96
  maxWidth := 8192
  stepWidth := mbDim
  minHeight := 32
  maxHeight := 8192
  stepHeight := mbDim

/-- The frame sizes of both decoder formats. -/
def decFrmsize : FrmsizeStepwise where
  minWidth := 96
  maxWidth := 4096
  stepWidth := mbDim
  minHeight := 32
  maxHeight := 4096
  stepHeight := mbDim

def rk3288VpuEncFmts : List Fmt := [
  { fourcc := pixFmtYuv420m, codecMode := .none, numPlanes := 3, depth := [8, 2, 2],
    encFmt := .yuv420p },
  { fourcc := pixFmtNv12m, codecMode := .none, numPlanes := 2, depth := [8, 4],
    encFmt := .yuv420sp },
  { fourcc := pixFmtYuyv, codecMode := .none, numPlanes := 1, depth := [16],
    encFmt := .yuyv422 },
  { fourcc := pixFmtUyvy, codecMode := .none, numPlanes := 1, depth := [16],
    encFmt := .uyvy422 },
  { fourcc := pixFmtJpegRaw, codecMode := .jpegEnc, numPlanes := 1, maxDepth := 2,
    frmsize := jpegFrmsize }]

def rk3288VpuDecFmts : List Fmt := [
  { fourcc := pixFmtH264, codecMode := .h264Dec, numPlanes := 1, frmsize := decFrmsize },
  { fourcc := pixFmtVp8, codecMode := .vp8Dec, numPlanes := 1, frmsize := decFrmsize }]

/-- Indexed by `RK_VPU_MODE_JPEG_ENC`, `RK_VPU_MODE_H264_DEC`, `RK_VPU_MODE_VP8_DEC`. -/
def rk3288VpuCodecOps : List CodecOps := [
  { run := some .rk3288JpegEncRun, reset := some .rk3288EncReset },
  { run := some .rk3288H264DecRun, reset := some .rk3288DecReset },
  { run := some .rk3288Vp8DecRun, reset := some .rk3288DecReset }]

/-- `RK_VPU_CODEC_JPEG`. -/
def rkVpuCodecJpeg : U32 := 1

def rk3288VpuVariant : Variant where
  encFmts := rk3288VpuEncFmts
  decFmts := rk3288VpuDecFmts
  codec := rkVpuCodecJpeg
  codecOps := rk3288VpuCodecOps

/-! ### RK3399 -/

def rk3399VpuEncFmts : List Fmt := [
  { fourcc := pixFmtYuv420m, codecMode := .none, numPlanes := 3, depth := [8, 2, 2],
    encFmt := .yuv420p },
  { fourcc := pixFmtNv12m, codecMode := .none, numPlanes := 2, depth := [8, 4],
    encFmt := .yuv420sp },
  { fourcc := pixFmtYuyv, codecMode := .none, numPlanes := 1, depth := [16],
    encFmt := .yuyv422 },
  { fourcc := pixFmtUyvy, codecMode := .none, numPlanes := 1, depth := [16],
    encFmt := .uyvy422 },
  { fourcc := pixFmtJpegRaw, codecMode := .jpegEnc, numPlanes := 1, maxDepth := 2,
    frmsize := jpegFrmsize }]

def rk3399VpuCodecOps : List CodecOps := [
  { run := some .rk3399JpegEncRun, reset := some .rk3399EncReset }]

def rk3399VpuVariant : Variant where
  encFmts := rk3399VpuEncFmts
  decFmts := []
  codec := rkVpuCodecJpeg
  codecOps := rk3399VpuCodecOps

/-! ### Both -/

/-- The chips of `of_rockchip_vpu_match`. -/
inductive Chip
  | rk3288 | rk3399
  deriving DecidableEq

def Chip.variant : Chip → Variant
  | .rk3288 => rk3288VpuVariant
  | .rk3399 => rk3399VpuVariant

/-- What format negotiation uses of an entry of an encoder table. -/
structure Fmt.Sound (fmt : Fmt) : Prop where
  minWidth_le : fmt.frmsize.minWidth.toNat ≤ fmt.frmsize.maxWidth.toNat
  minHeight_le : fmt.frmsize.minHeight.toNat ≤ fmt.frmsize.maxHeight.toNat
  maxWidth_le : fmt.frmsize.maxWidth.toNat ≤ 8192
  maxHeight_le : fmt.frmsize.maxHeight.toNat ≤ 8192
  minWidth_dvd : 16 ∣ fmt.frmsize.minWidth.toNat
  minHeight_dvd : 16 ∣ fmt.frmsize.minHeight.toNat
  maxWidth_dvd : 16 ∣ fmt.frmsize.maxWidth.toNat
  maxHeight_dvd : 16 ∣ fmt.frmsize.maxHeight.toNat
  depth_le : ∀ i, (fmt.depthAt i).toNat ≤ 16
  depth_even : ∀ i, 2 ∣ (fmt.depthAt i).toNat
  maxDepth_le : fmt.maxDepth.toNat ≤ 2

/-- What format negotiation uses of a variant. -/
structure Variant.Sound (v : Variant) : Prop where
  entry : ∀ fmt ∈ v.encFmts, fmt.Sound
  ops : ∀ fmt ∈ v.encFmts, fmt.codecMode ≠ .none →
    ∃ ops, v.codecOpsAt fmt.codecMode = some ops ∧ ops.run.isSome ∧ ops.reset.isSome
  distinct : (v.encFmts.map Fmt.fourcc).Nodup

instance (fmt : Fmt) : Decidable fmt.Sound :=
  decidable_of_iff
    (fmt.frmsize.minWidth.toNat ≤ fmt.frmsize.maxWidth.toNat ∧
      fmt.frmsize.minHeight.toNat ≤ fmt.frmsize.maxHeight.toNat ∧
      fmt.frmsize.maxWidth.toNat ≤ 8192 ∧ fmt.frmsize.maxHeight.toNat ≤ 8192 ∧
      16 ∣ fmt.frmsize.minWidth.toNat ∧ 16 ∣ fmt.frmsize.minHeight.toNat ∧
      16 ∣ fmt.frmsize.maxWidth.toNat ∧ 16 ∣ fmt.frmsize.maxHeight.toNat ∧
      (∀ i, (fmt.depthAt i).toNat ≤ 16) ∧ (∀ i, 2 ∣ (fmt.depthAt i).toNat) ∧
      fmt.maxDepth.toNat ≤ 2)
    ⟨fun ⟨a, b, c, d, e, f, g, h, i, j, k⟩ => ⟨a, b, c, d, e, f, g, h, i, j, k⟩,
      fun ⟨a, b, c, d, e, f, g, h, i, j, k⟩ => ⟨a, b, c, d, e, f, g, h, i, j, k⟩⟩

theorem jpegOps_isSome (chip : Chip) :
    ∃ ops, chip.variant.codecOpsAt .jpegEnc = some ops ∧ ops.run.isSome ∧ ops.reset.isSome := by
  cases chip <;> exact ⟨_, rfl, rfl, rfl⟩

theorem chip_sound (chip : Chip) : chip.variant.Sound where
  entry := by cases chip <;> decide
  ops fmt hmem hmode := by
    have hjpeg : fmt.codecMode = .jpegEnc := by
      revert hmode
      revert fmt
      cases chip <;> decide
    rw [hjpeg]
    exact jpegOps_isSome chip
  distinct := by cases chip <;> decide

/-- Raw and codec entries alike have one to three planes. -/
theorem numPlanes_between {chip : Chip} {fmt : Fmt} (h : fmt ∈ chip.variant.encFmts) :
    1 ≤ fmt.numPlanes ∧ fmt.numPlanes ≤ 3 := by
  revert fmt
  cases chip <;> decide

end RockchipVpu.Format
