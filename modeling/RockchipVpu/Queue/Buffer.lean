import RockchipVpu.Format.Consistent

/-! The videobuf2 buffers of an encoder context and the two driver operations that
look at their planes: `queue_setup` decides how many planes of which sizes are
allocated, `buf_prepare` compares a buffer with the format stored at that moment.
Only a comparison that has been made says anything about a later job, so what it
establishes is stated as a predicate on the format and the buffer. -/

namespace RockchipVpu.Queue

open Base Format

/-! ### Buffers -/

/-- `VIDEO_MAX_FRAME`, the most buffers that videobuf2 gives a queue. -/
def videoMaxFrame : ℕ := 32

/-- `struct v4l2_timecode`. -/
structure Timecode where
  type : U32 := 0
  flags : U32 := 0
  frames : BitVec 8 := 0
  seconds : BitVec 8 := 0
  minutes : BitVec 8 := 0
  hours : BitVec 8 := 0
  userbits : BitVec 32 := 0
  deriving DecidableEq

/-- `struct vb2_plane`, with the address `vb2_dma_contig_plane_dma_addr` gives. -/
structure Vb2Plane where
  length : U32 := 0
  bytesused : U32 := 0
  dmaAddr : U32 := 0
  deriving DecidableEq

/-- `struct vb2_v4l2_buffer`. -/
structure Vb2Buffer where
  numPlanes : ℕ := 0
  planes : Plane → Vb2Plane := fun _ => {}
  timestamp : BitVec 64 := 0
  flags : U32 := 0
  field : U32 := 0
  timecode : Timecode := {}
  sequence : U32 := 0
  deriving DecidableEq

/-- `vb2_plane_size`: zero for a plane that the buffer does not have. -/
def vb2PlaneSize (vb : Vb2Buffer) (i : Plane) : U32 :=
  if i.val < vb.numPlanes then (vb.planes i).length else 0

/-- A buffer as videobuf2 allocates it. -/
def newBuffer (numPlanes : ℕ) (sizes : Plane → U32) : Vb2Buffer where
  numPlanes := numPlanes
  planes i := { length := sizes i }

/-! ### The two operations -/

/-- The selection by queue type that both operations begin with. -/
def queueFormat (ctx : Ctx) : BufType → Option Fmt × PixFormatMplane
  | .capture => (ctx.vpuDstFmt, ctx.dstFmt)
  | .output => (ctx.vpuSrcFmt, ctx.srcFmt)

/-- `rockchip_vpu_queue_setup`: with no planes requested it reports the stored
format, otherwise it checks the request. -/
def queueSetup (ctx : Ctx) (type : BufType) (numPlanes : ℕ) (sizes : Plane → U32) :
    Option (Ret × ℕ × (Plane → U32)) := do
  let (vpuFmt, pixfmt) := queueFormat ctx type
  let vpuFmt ← vpuFmt
  if numPlanes ≠ 0 then
    if numPlanes ≠ vpuFmt.numPlanes then
      return (.err .einval, numPlanes, sizes)
    if (planesOf vpuFmt.numPlanes).any fun i => sizes i < (pixfmt.planeFmt i).sizeimage then
      return (.err .einval, numPlanes, sizes)
    return (.ok, numPlanes, sizes)
  return (.ok, vpuFmt.numPlanes, fun i =>
    if i.val < vpuFmt.numPlanes then (pixfmt.planeFmt i).sizeimage else sizes i)

/-- The loop of `buf_prepare`. -/
def checkPlanes (vpuFmt : Fmt) (pixfmt : PixFormatMplane) (vb : Vb2Buffer) : Ret :=
  if (planesOf vpuFmt.numPlanes).any fun i =>
      vb2PlaneSize vb i < (pixfmt.planeFmt i).sizeimage
  then .err .einval else .ok

/-- `V4L2_FIELD_ANY` is taken as `V4L2_FIELD_NONE`. -/
def acceptField (vb : Vb2Buffer) : Vb2Buffer :=
  if vb.field = fieldAny then { vb with field := fieldNone } else vb

/-- `rockchip_vpu_buf_prepare`. -/
def bufPrepare (ctx : Ctx) (type : BufType) (vb : Vb2Buffer) : Option (Ret × Vb2Buffer) :=
  let (vpuFmt, pixfmt) := queueFormat ctx type
  match type with
  | .capture => do
    let vpuFmt ← vpuFmt
    return (checkPlanes vpuFmt pixfmt vb, vb)
  | .output =>
    let vb := acceptField vb
    if vb.field ≠ fieldNone then some (.err .einval, vb)
    else do
      let vpuFmt ← vpuFmt
      return (checkPlanes vpuFmt pixfmt vb, vb)

/-! ### What they establish -/

/-- Every plane of the descriptor is at least as large as the stored format says. -/
def PlanesFit (vpuFmt : Option Fmt) (pixfmt : PixFormatMplane) (vb : Vb2Buffer) : Prop :=
  ∃ fmt, vpuFmt = some fmt ∧ ∀ i : Plane, i.val < fmt.numPlanes →
    (pixfmt.planeFmt i).sizeimage.toNat ≤ (vb2PlaneSize vb i).toNat

theorem checkPlanes_ok {fmt : Fmt} {pixfmt : PixFormatMplane} {vb : Vb2Buffer} :
    checkPlanes fmt pixfmt vb = .ok ↔ PlanesFit (some fmt) pixfmt vb := by
  simp [checkPlanes, PlanesFit, BitVec.lt_def]

/-- Whatever the verdict, only the field can have changed. -/
theorem bufPrepare_frame {ctx : Ctx} {type : BufType} {vb vb' : Vb2Buffer} {r : Ret}
    (h : bufPrepare ctx type vb = some (r, vb')) : vb' = { vb with field := vb'.field } := by
  have hvb : acceptField vb = { vb with field := (acceptField vb).field } := by
    unfold acceptField
    split_ifs <;> rfl
  cases type with
  | capture =>
    obtain ⟨fmt, -, h⟩ := Option.bind_eq_some_iff.mp h
    obtain ⟨-, rfl⟩ := Prod.mk.inj (Option.some.inj h)
    rfl
  | output =>
    simp only [bufPrepare, queueFormat] at h
    split_ifs at h
    · obtain ⟨-, rfl⟩ := Prod.mk.inj (Option.some.inj h)
      exact hvb
    · obtain ⟨fmt, -, h⟩ := Option.bind_eq_some_iff.mp h
      obtain ⟨-, rfl⟩ := Prod.mk.inj (Option.some.inj h)
      exact hvb

/-- A source buffer that passes fits the format stored at that moment. -/
theorem bufPrepare_output_ok {ctx : Ctx} {vb vb' : Vb2Buffer}
    (h : bufPrepare ctx .output vb = some (.ok, vb')) :
    PlanesFit ctx.vpuSrcFmt ctx.srcFmt vb' := by
  simp only [bufPrepare, queueFormat] at h
  split_ifs at h with hfield
  · cases (Prod.mk.inj (Option.some.inj h)).1
  · obtain ⟨fmt, hfmt, h⟩ := Option.bind_eq_some_iff.mp h
    obtain ⟨hok, rfl⟩ := Prod.mk.inj (Option.some.inj h)
    rw [hfmt]
    exact checkPlanes_ok.mp hok

/-- Accepted requests have the plane count of the stored format. -/
theorem queueSetup_numPlanes {ctx : Ctx} {type : BufType} {n n' : ℕ} {sizes sizes' : Plane → U32}
    (h : queueSetup ctx type n sizes = some (.ok, n', sizes')) :
    ∃ fmt, (queueFormat ctx type).1 = some fmt ∧ n' = fmt.numPlanes := by
  obtain ⟨fmt, hfmt, h⟩ := Option.bind_eq_some_iff.mp h
  refine ⟨fmt, hfmt, ?_⟩
  split_ifs at h with h0 hn hs
  all_goals
    have hinj := Option.some.inj h
    simp only [Prod.mk.injEq, reduceCtorEq, false_and, true_and] at hinj
  · rw [← hinj.1]
    simpa using hn
  · exact hinj.1.symm

/-- REQBUFS asks with no planes, which is never refused. -/
theorem queueSetup_zero {ctx : Ctx} {type : BufType} {r : Ret} {n' : ℕ}
    {sizes sizes' : Plane → U32} (h : queueSetup ctx type 0 sizes = some (r, n', sizes')) :
    r = .ok := by
  obtain ⟨fmt, -, h⟩ := Option.bind_eq_some_iff.mp h
  exact (Prod.mk.inj (Option.some.inj h)).1.symm

/-! ### Their agreement -/

/-- The planes of the buffer have been allocated with these sizes. -/
structure AllocatedAs (n : ℕ) (sizes : Plane → U32) (vb : Vb2Buffer) : Prop where
  numPlanes : vb.numPlanes = n
  length : ∀ i : Plane, i.val < n → (vb.planes i).length = sizes i

/-- A source buffer is not interlaced. -/
def FieldSupported (type : BufType) (vb : Vb2Buffer) : Prop :=
  type = .output → vb.field = fieldAny ∨ vb.field = fieldNone

def Prepares (ctx : Ctx) (type : BufType) (vb : Vb2Buffer) : Prop :=
  ∃ vb', bufPrepare ctx type vb = some (.ok, vb')

/-- `queue_setup` in one context and `buf_prepare` in another agree on a queue with this
descriptor: buffers of the reported sizes are accepted, and a request for planes is
granted, as it is, exactly when buffers allocated for it will be accepted. -/
structure SetupAgrees (ctx ctx' : Ctx) (type : BufType) (fmt : Fmt) : Prop where
  reqbufs : ∀ sizes, ∃ n sizes', queueSetup ctx type 0 sizes = some (.ok, n, sizes') ∧
    ∀ vb, AllocatedAs n sizes' vb → FieldSupported type vb → Prepares ctx' type vb
  createBufs : ∀ n sizes, 0 < n → ∃ r, queueSetup ctx type n sizes = some (r, n, sizes) ∧
    ∀ vb, AllocatedAs n sizes vb → FieldSupported type vb →
      (r = .ok ↔ n = fmt.numPlanes ∧ Prepares ctx' type vb)

section Agreement
variable {ctx : Ctx} {type : BufType} {fmt : Fmt} {pixfmt : PixFormatMplane}
  (hformat : queueFormat ctx type = (some fmt, pixfmt))
include hformat

theorem prepares_iff {vb : Vb2Buffer} (hfield : FieldSupported type vb) :
    Prepares ctx type vb ↔ PlanesFit (some fmt) pixfmt vb := by
  rw [Prepares, bufPrepare, hformat]
  cases type with
  | capture =>
    rw [← checkPlanes_ok]
    simp
  | output =>
    have hnone : (acceptField vb).field = fieldNone := by
      rcases hfield rfl with h | h <;> simp [acceptField, h, fieldAny, fieldNone]
    -- the planes are not touched
    have hplanes : PlanesFit (some fmt) pixfmt (acceptField vb) ↔
        PlanesFit (some fmt) pixfmt vb := by
      unfold acceptField
      split_ifs <;> rfl
    rw [← hplanes, ← checkPlanes_ok]
    simp [hnone]

/-- Without planes the request is for what the stored format says. -/
theorem queueSetup_report (sizes : Plane → U32) :
    queueSetup ctx type 0 sizes = some (.ok, fmt.numPlanes, fun i =>
      if i.val < fmt.numPlanes then (pixfmt.planeFmt i).sizeimage else sizes i) := by
  rw [queueSetup, hformat]
  rfl

/-- A request with planes is answered unchanged. -/
theorem queueSetup_request {n : ℕ} (hn : 0 < n) (sizes : Plane → U32) :
    ∃ r, queueSetup ctx type n sizes = some (r, n, sizes) ∧
      (r = .ok ↔ n = fmt.numPlanes ∧ ∀ i : Plane, i.val < fmt.numPlanes →
        (pixfmt.planeFmt i).sizeimage.toNat ≤ (sizes i).toNat) := by
  rw [queueSetup, hformat]
  simp only [Option.bind_eq_bind, Option.bind_some, Option.pure_def, ne_eq, hn.ne',
    not_false_eq_true, ↓reduceIte]
  split_ifs with hcount hsmall
  · refine ⟨.err .einval, rfl, iff_of_false nofun fun h => ?_⟩
    obtain ⟨i, hi, hlt⟩ := List.any_eq_true.mp hsmall
    have hle := h.2 i (mem_planesOf.mp hi)
    simp only [decide_eq_true_eq, BitVec.lt_def] at hlt
    omega
  · refine ⟨.ok, rfl, iff_of_true rfl ⟨hcount, fun i hi => ?_⟩⟩
    by_contra hlt
    refine hsmall (List.any_eq_true.mpr ⟨i, mem_planesOf.mpr hi, ?_⟩)
    simpa only [decide_eq_true_eq, BitVec.lt_def, not_le] using hlt
  · exact ⟨.err .einval, rfl, iff_of_false nofun fun h => hcount h.1⟩

end Agreement

/-- The sizes that a buffer has been allocated with are those that are compared. -/
theorem planesFit_iff {fmt : Fmt} {pixfmt : PixFormatMplane} {sizes : Plane → U32} {vb : Vb2Buffer}
    (hvb : AllocatedAs fmt.numPlanes sizes vb) : PlanesFit (some fmt) pixfmt vb ↔
      ∀ i : Plane, i.val < fmt.numPlanes →
        (pixfmt.planeFmt i).sizeimage.toNat ≤ (sizes i).toNat := by
  have hsize (i : Plane) (hi : i.val < fmt.numPlanes) : vb2PlaneSize vb i = sizes i := by
    rw [vb2PlaneSize, hvb.numPlanes, if_pos hi, hvb.length i hi]
  constructor
  · rintro ⟨fmt', hfmt', h⟩ i hi
    obtain rfl := Option.some.inj hfmt'
    exact hsize i hi ▸ h i hi
  · intro h
    exact ⟨fmt, rfl, fun i hi => (hsize i hi).symm ▸ h i hi⟩

/-- As long as the formats stay the same the two operations agree. -/
theorem queueSetup_bufPrepare_agree {ctx ctx' : Ctx} {type : BufType} {fmt : Fmt}
    (hfmt : (queueFormat ctx type).1 = some fmt)
    (hsame : queueFormat ctx' type = queueFormat ctx type) : SetupAgrees ctx ctx' type fmt := by
  have hformat : queueFormat ctx type = (some fmt, (queueFormat ctx type).2) := Prod.ext hfmt rfl
  have hformat' := hsame.trans hformat
  refine ⟨fun sizes => ?_, fun n sizes hn => ?_⟩
  · refine ⟨_, _, queueSetup_report hformat sizes, fun vb hvb hfield => ?_⟩
    rw [prepares_iff hformat' hfield, planesFit_iff hvb]
    intro i hi
    rw [if_pos hi]
  · obtain ⟨r, hsetup, hr⟩ := queueSetup_request hformat hn sizes
    refine ⟨r, hsetup, fun vb hvb hfield => ?_⟩
    rw [hr]
    refine and_congr_right fun hcount => ?_
    rw [prepares_iff hformat' hfield, planesFit_iff (hcount ▸ hvb)]

/-- An NV12M source of 64x32. -/
def nv12mSource : Ctx where
  variant := rk3288VpuVariant
  vpuSrcFmt := some rk3288VpuEncFmts[1]
  srcFmt := { planeFmt := fun i => { sizeimage := if i = 0 then 2048 else 1024 } }

theorem queueSetup_bufPrepare_agree_nv12m :
    SetupAgrees nv12mSource { nv12mSource with sequenceOut := 7 } .output rk3288VpuEncFmts[1] :=
  queueSetup_bufPrepare_agree rfl rfl

end RockchipVpu.Queue
