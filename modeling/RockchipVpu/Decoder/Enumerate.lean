import RockchipVpu.Decoder.Session
import RockchipVpu.Format.Enumerate

/-! ENUM_FMT of the decoder, the same on both queues. It lists the codec entries of the
encoder's table, whereas TRY_FMT looks a pixelformat up in the decoder's. So the two agree
just when these have the same pixelformats, which they have on neither chip. -/

namespace RockchipVpu.Decoder

open Base Format

/-! ### The handlers -/

/-- `rockchip_vpu_enum_fmt`, which scans `enc_fmts`. -/
def rockchipVpuEnumFmt (v : Variant) : Fmtdesc → Ret × Fmtdesc :=
  enumFmt (fun fmt => fmt.codecMode != .none) v.encFmts

/-- `vidioc_enum_fmt_vid_cap_mplane`. -/
def vidiocEnumFmtVidCapMplane (v : Variant) : Fmtdesc → Ret × Fmtdesc := rockchipVpuEnumFmt v

/-- `vidioc_enum_fmt_vid_out_mplane`. -/
def vidiocEnumFmtVidOutMplane (v : Variant) : Fmtdesc → Ret × Fmtdesc := rockchipVpuEnumFmt v

/-- ENUM_FMT on the queue named by the type of the request. -/
def vidiocEnumFmt (v : Variant) : BufType → Fmtdesc → Ret × Fmtdesc
  | .output => vidiocEnumFmtVidOutMplane v
  | .capture => vidiocEnumFmtVidCapMplane v

/-- TRY_FMT on the queue named by the type of the request. -/
def vidiocTryFmt (dmaAlign : U32) (ctx : Ctx) (type : BufType) (f : PixFormatMplane) :
    Option (Ret × PixFormatMplane) :=
  match type with
  | .output => some (vidiocTryFmtOut ctx f)
  | .capture => vidiocTryFmtCap dmaAlign ctx f

/-! ### Recognised and listed pixelformats -/

def enumResult (v : Variant) (type : BufType) : U32 → Option U32 := enumAt (vidiocEnumFmt v type)

/-- TRY_FMT on the queue does not refuse every request for the pixelformat. -/
def Recognised (dmaAlign : U32) (ctx : Ctx) (type : BufType) (fourcc : U32) : Prop :=
  ∃ f : PixFormatMplane, f.pixelformat = fourcc ∧
    vidiocTryFmt dmaAlign ctx type f ≠ some (.err .einval, f)

/-- What ENUM_FMT lists on the queue is recognised there, by the lookup and so by TRY_FMT,
and what TRY_FMT recognises is listed under exactly one index. -/
structure EnumAgrees (dmaAlign : U32) (ctx : Ctx) (type : BufType) : Prop where
  listed : ∀ index fourcc, enumResult ctx.variant type index = some fourcc →
    (findFormat ctx.variant fourcc).isSome ∧ Recognised dmaAlign ctx type fourcc
  complete : ∀ fourcc, Recognised dmaAlign ctx type fourcc →
    ∃! index, enumResult ctx.variant type index = some fourcc

/-- The pixelformats of the codec entries that the scan of the encoder's table visits. -/
def listedFourccs (v : Variant) : List U32 :=
  ((scanned v.encFmts).filter fun fmt => fmt.codecMode != .none).map Fmt.fourcc

theorem enumResult_eq (v : Variant) (type : BufType) (index : U32) :
    enumResult v type index = (listedFourccs v)[index.toNat]? := by
  cases type <;> exact enumAt_enumFmt _ _ index

theorem length_listedFourccs (v : Variant) : (listedFourccs v).length ≤ 2 ^ 32 := by
  have hscanned := length_scanned_lt v.encFmts
  have hfilter := List.length_filter_le (fun fmt : Fmt => fmt.codecMode != .none) (scanned v.encFmts)
  rw [listedFourccs, List.length_map]
  omega

/-- The lookup knows the pixelformats of the decoder's table. -/
theorem findFormat_isSome_iff {v : Variant} {fourcc : U32} :
    (findFormat v fourcc).isSome ↔ fourcc ∈ v.decFmts.map Fmt.fourcc := by
  rw [findFormat, List.find?_isSome, List.mem_map]
  simp only [beq_iff_eq]

/-- A request that asks for what the entry has is not refused. -/
theorem recognised_iff {dmaAlign : U32} {ctx : Ctx} {type : BufType} {fourcc : U32} :
    Recognised dmaAlign ctx type fourcc ↔ (findFormat ctx.variant fourcc).isSome := by
  constructor
  · rintro ⟨f, rfl, hf⟩
    by_contra hnone
    rw [Option.not_isSome_iff_eq_none] at hnone
    cases type with
    | output => exact hf (by rw [vidiocTryFmt, vidiocTryFmtOut, hnone])
    | capture => exact hf (by rw [vidiocTryFmt, vidiocTryFmtCap, hnone])
  · intro hsome
    obtain ⟨fmt, hfmt⟩ := Option.isSome_iff_exists.mp hsome
    refine ⟨{ pixelformat := fourcc, numPlanes := fmt.numPlanes,
              planeFmt := fun _ => { sizeimage := 1 } }, rfl, ?_⟩
    cases type with
    | output => simp [vidiocTryFmt, vidiocTryFmtOut, hfmt]
    | capture => cases hdst : ctx.vpuDstFmt <;> simp [vidiocTryFmt, vidiocTryFmtCap, hfmt, hdst]

/-- Enumeration agrees with acceptance exactly when the codec entries of the encoder's
table have the pixelformats of the decoder's table, in any order. -/
theorem enumAgrees_iff {ctx : Ctx} (hnd : (ctx.variant.decFmts.map Fmt.fourcc).Nodup)
    (dmaAlign : U32) (type : BufType) : EnumAgrees dmaAlign ctx type ↔
      (listedFourccs ctx.variant).Perm (ctx.variant.decFmts.map Fmt.fourcc) := by
  have hrecognised (fourcc : U32) : Recognised dmaAlign ctx type fourcc ↔
      fourcc ∈ ctx.variant.decFmts.map Fmt.fourcc := recognised_iff.trans findFormat_isSome_iff
  rw [← indexed_iff_perm (length_listedFourccs ctx.variant) hnd]
  constructor
  · rintro ⟨hlisted, hcomplete⟩
    refine ⟨fun index fourcc h => ?_, fun fourcc h => ?_⟩
    · rw [← enumResult_eq _ type] at h
      exact findFormat_isSome_iff.mp (hlisted index fourcc h).1
    · simpa only [enumResult_eq] using hcomplete fourcc ((hrecognised fourcc).mpr h)
  · rintro ⟨hlisted, hcomplete⟩
    refine ⟨fun index fourcc h => ?_, fun fourcc h => ?_⟩
    · rw [enumResult_eq] at h
      have hmem := hlisted index fourcc h
      exact ⟨findFormat_isSome_iff.mpr hmem, (hrecognised fourcc).mpr hmem⟩
    · simpa only [enumResult_eq] using hcomplete fourcc ((hrecognised fourcc).mp h)

/-- An encoder that writes what the decoder reads. -/
def bothWays : Variant := { rk3288VpuVariant with encFmts := rk3288VpuDecFmts.reverse }

theorem enumAgrees_bothWays : EnumAgrees 64 { variant := bothWays } .capture :=
  (enumAgrees_iff (by decide) 64 .capture).mpr (by decide)

/-- On the RK3288 JPEG is listed and not recognised, H264 recognised and not listed. -/
theorem enumAgrees_rk3288 : (rk3288VpuVariant.decFmts.map Fmt.fourcc).Nodup ∧
      enumResult rk3288VpuVariant .output 0 = some pixFmtJpegRaw ∧
      (∀ f : PixFormatMplane, f.pixelformat = pixFmtJpegRaw →
        vidiocTryFmt 64 { variant := rk3288VpuVariant } .output f = some (.err .einval, f)) ∧
      Recognised 64 { variant := rk3288VpuVariant } .output pixFmtH264 ∧
      (∀ index, enumResult rk3288VpuVariant .output index ≠ some pixFmtH264) ∧
      ¬ EnumAgrees 64 { variant := rk3288VpuVariant } .output := by
  have hh264 : Recognised 64 { variant := rk3288VpuVariant } .output pixFmtH264 :=
    recognised_iff.mpr rfl
  have hlisted (index : U32) : enumResult rk3288VpuVariant .output index ≠ some pixFmtH264 := by
    intro h
    rw [enumResult_eq] at h
    exact absurd (List.mem_of_getElem? h) (by decide)
  refine ⟨by decide, by decide, fun f hf => ?_, hh264, hlisted, fun hagrees => ?_⟩
  · have hnone : findFormat rk3288VpuVariant f.pixelformat = none := by
      rw [hf]
      decide
    rw [vidiocTryFmt, vidiocTryFmtOut, hnone]
  · obtain ⟨index, hindex, -⟩ := hagrees.complete _ hh264
    exact hlisted index hindex

end RockchipVpu.Decoder
