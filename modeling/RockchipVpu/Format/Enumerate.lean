import RockchipVpu.Base.Scan
import RockchipVpu.Format.Session

/-! ENUM_FMT of the encoder. Both handlers scan the one table of formats and count the
entries of their own kind. So each lists that kind in table order, together they list the
table, and what stands under index zero is the default that the resets and TRY_FMT fall
back to. -/

namespace RockchipVpu.Format

open Base

/-! ### The handlers -/

/-- `struct v4l2_fmtdesc`, as far as the handlers read and write it. -/
structure Fmtdesc where
  index : U32 := 0
  pixelformat : U32 := 0
  deriving DecidableEq

/-- `int num_fmts`, which the variant has as an `unsigned int`. -/
def numFmts (formats : List Fmt) : ℤ := (BitVec.ofNat 32 formats.length).toInt

/-- The entries that a loop `for (i = 0; i < num_fmts; i++)` visits. -/
def scanned (formats : List Fmt) : List Fmt := formats.take (numFmts formats).toNat

/-- The entry at which the loop of an ENUM_FMT handler returns; `listed` holds of the
entries that it does not skip. -/
def enumEntry (listed : Fmt → Bool) (formats : List Fmt) (index : U32) : Option Fmt :=
  countTo listed index (scanned formats) 0

def enumFmt (listed : Fmt → Bool) (formats : List Fmt) (f : Fmtdesc) : Ret × Fmtdesc :=
  match enumEntry listed formats f.index with
  | some fmt => (.ok, { f with pixelformat := fmt.fourcc })
  | none => (.err .einval, f)

/-- `vidioc_enum_fmt_vid_cap_mplane`. -/
def vidiocEnumFmtVidCapMplane (v : Variant) : Fmtdesc → Ret × Fmtdesc :=
  enumFmt (fun fmt => fmt.codecMode != .none) v.encFmts

/-- `vidioc_enum_fmt_vid_out_mplane`. -/
def vidiocEnumFmtVidOutMplane (v : Variant) : Fmtdesc → Ret × Fmtdesc :=
  enumFmt (fun fmt => fmt.codecMode == .none) v.encFmts

/-- ENUM_FMT on the queue named by the type of the request. -/
def vidiocEnumFmt (v : Variant) : BufType → Fmtdesc → Ret × Fmtdesc
  | .output => vidiocEnumFmtVidOutMplane v
  | .capture => vidiocEnumFmtVidCapMplane v

/-! ### What is listed -/

/-- The entries for a queue: the raw ones for OUTPUT, the codec ones for CAPTURE. -/
def BufType.takes : BufType → Fmt → Bool
  | .output, fmt => fmt.codecMode == .none
  | .capture, fmt => fmt.codecMode != .none

def entriesFor (v : Variant) (type : BufType) : List Fmt := v.encFmts.filter type.takes

/-- The pixelformat that an ENUM_FMT handler returns for an index. -/
def enumAt (handler : Fmtdesc → Ret × Fmtdesc) (index : U32) : Option U32 :=
  match handler { index := index } with
  | (.ok, f) => some f.pixelformat
  | (.err _, _) => none

def enumResult (v : Variant) (type : BufType) : U32 → Option U32 := enumAt (vidiocEnumFmt v type)

/-- All that ENUM_FMT returns, for the indices 0, 1, 2, ... one after the other. -/
def enumerated (v : Variant) (type : BufType) : List U32 :=
  (List.range (2 ^ 32)).filterMap fun i => enumResult v type (BitVec.ofNat 32 i)

/-- The argument that each queue's handlers look up their default with. -/
def BufType.bitstream : BufType → Bool
  | .output => false
  | .capture => true

/-- ENUM_FMT lists the entries for each queue exactly, and the defaults are its first
results. -/
structure EnumExact (dmaAlign : U32) (v : Variant) : Prop where
  returned : ∀ type f (h : f.index.toNat < (entriesFor v type).length), vidiocEnumFmt v type f =
    (.ok, { f with pixelformat := (entriesFor v type)[f.index.toNat].fourcc })
  refused : ∀ type f, (entriesFor v type).length ≤ f.index.toNat →
    vidiocEnumFmt v type f = (.err .einval, f)
  listed : ∀ type, enumerated v type = (entriesFor v type).map Fmt.fourcc
  complete : (enumerated v .output ++ enumerated v .capture).Perm (v.encFmts.map Fmt.fourcc)
  default : ∀ type, getDefaultFmt v type.bitstream = (entriesFor v type)[0]?
  resetDst : ∀ ctx, ctx.variant = v →
    (encResetDstFmt ctx).bind (·.vpuDstFmt) = (entriesFor v .capture)[0]? ∧
      (encResetDstFmt ctx).map (·.dstFmt.pixelformat) = enumResult v .capture 0
  resetSrc : ∀ ctx, ctx.variant = v → ctx.vpuDstFmt.isSome →
    (encResetSrcFmt ctx).bind (·.vpuSrcFmt) = (entriesFor v .output)[0]? ∧
      (encResetSrcFmt ctx).map (·.srcFmt.pixelformat) = enumResult v .output 0
  tryCap : ∀ ctx f, ctx.variant = v → findFormat v f.pixelformat = none →
    (vidiocTryFmtCap ctx f).map (·.2.pixelformat) = enumResult v .capture 0
  tryOut : ∀ ctx f, ctx.variant = v → ctx.vpuDstFmt.isSome → findFormat v f.pixelformat = none →
    (vidiocTryFmtOut dmaAlign ctx f).map (·.2.pixelformat) = enumResult v .output 0

/-! ### The scan -/

theorem length_scanned_lt (formats : List Fmt) : (scanned formats).length < 2 ^ 31 := by
  have hnum : numFmts formats < 2 ^ 31 := BitVec.toInt_lt
  rw [scanned, List.length_take]
  omega

theorem scanned_eq {formats : List Fmt} (hlen : formats.length < 2 ^ 31) :
    scanned formats = formats := by
  have hto : (BitVec.ofNat 32 formats.length).toNat = formats.length := by
    rw [BitVec.toNat_ofNat, Nat.mod_eq_of_lt (by omega)]
  have hnum : numFmts formats = formats.length := by
    rw [numFmts, BitVec.toInt_eq_toNat_of_lt (by omega), hto]
  rw [scanned, hnum, Int.toNat_natCast, List.take_length]

section Scan
variable (listed : Fmt → Bool) (formats : List Fmt)

theorem enumEntry_eq (index : U32) :
    enumEntry listed formats index = ((scanned formats).filter listed)[index.toNat]? := by
  rw [enumEntry, countTo_zero]

theorem enumAt_enumFmt (index : U32) : enumAt (enumFmt listed formats) index =
    (((scanned formats).filter listed).map Fmt.fourcc)[index.toNat]? := by
  rw [enumAt, enumFmt, enumEntry_eq, List.getElem?_map]
  cases ((scanned formats).filter listed)[index.toNat]? <;> rfl

end Scan

/-- The default is the first entry that is listed. -/
theorem getDefaultFmt_eq (v : Variant) (type : BufType) :
    getDefaultFmt v type.bitstream = (entriesFor v type)[0]? := by
  have htakes : (fun fmt : Fmt => type.bitstream == (fmt.codecMode != .none)) = type.takes := by
    funext fmt
    cases type <;> simp only [BufType.bitstream, BufType.takes] <;> cases fmt.codecMode <;> rfl
  rw [getDefaultFmt, htakes, entriesFor, ← List.head?_eq_getElem?, List.head?_filter]

/-- Each handler passes over what is not for its queue. -/
theorem vidiocEnumFmt_eq (v : Variant) (type : BufType) :
    vidiocEnumFmt v type = enumFmt type.takes v.encFmts := by
  cases type <;> rfl

section Table
variable {v : Variant} (hlen : v.encFmts.length < 2 ^ 31)
include hlen

theorem vidiocEnumFmt_spec (type : BufType) (f : Fmtdesc) : vidiocEnumFmt v type f =
    match (entriesFor v type)[f.index.toNat]? with
    | some fmt => (.ok, { f with pixelformat := fmt.fourcc })
    | none => (.err .einval, f) := by
  rw [vidiocEnumFmt_eq, enumFmt, enumEntry_eq, scanned_eq hlen, entriesFor]

theorem enumResult_eq (type : BufType) (index : U32) :
    enumResult v type index = ((entriesFor v type).map Fmt.fourcc)[index.toNat]? := by
  rw [enumResult, vidiocEnumFmt_eq, enumAt_enumFmt, scanned_eq hlen, entriesFor]

theorem enumerated_eq (type : BufType) : enumerated v type = (entriesFor v type).map Fmt.fourcc := by
  have hentries : (entriesFor v type).length ≤ 2 ^ 32 := by
    have := List.length_filter_le type.takes v.encFmts
    rw [entriesFor]
    omega
  have hresult : ∀ i ∈ List.range (2 ^ 32), enumResult v type (BitVec.ofNat 32 i) =
      ((entriesFor v type).map Fmt.fourcc)[i]? := by
    intro i hi
    rw [enumResult_eq hlen, BitVec.toNat_ofNat, Nat.mod_eq_of_lt (List.mem_range.mp hi)]
  rw [enumerated, List.filterMap_congr hresult, filterMap_getElem?_range,
    List.take_of_length_le (by rwa [List.length_map])]

theorem enumResult_zero (type : BufType) :
    enumResult v type 0 = (getDefaultFmt v type.bitstream).map Fmt.fourcc := by
  rw [enumResult_eq hlen, getDefaultFmt_eq, List.getElem?_map]
  rfl

/-- A table has raw entries and codec entries and no others. -/
theorem enumerated_perm :
    (enumerated v .output ++ enumerated v .capture).Perm (v.encFmts.map Fmt.fourcc) := by
  rw [enumerated_eq hlen, enumerated_eq hlen, ← List.map_append]
  exact (List.filter_append_perm (BufType.takes .output) v.encFmts).map Fmt.fourcc

end Table

/-! ### The defaults -/

theorem encResetDstFmt_default (ctx : Ctx) :
    (encResetDstFmt ctx).bind (·.vpuDstFmt) = getDefaultFmt ctx.variant true ∧
      (encResetDstFmt ctx).map (·.dstFmt.pixelformat) =
        (getDefaultFmt ctx.variant true).map Fmt.fourcc := by
  rw [encResetDstFmt]
  cases getDefaultFmt ctx.variant true with
  | none => exact ⟨rfl, rfl⟩
  | some fmt => exact ⟨rfl, rfl⟩

theorem encResetSrcFmt_default {ctx : Ctx} (hdst : ctx.vpuDstFmt.isSome) :
    (encResetSrcFmt ctx).bind (·.vpuSrcFmt) = getDefaultFmt ctx.variant false ∧
      (encResetSrcFmt ctx).map (·.srcFmt.pixelformat) =
        (getDefaultFmt ctx.variant false).map Fmt.fourcc := by
  obtain ⟨dst, hdst⟩ := Option.isSome_iff_exists.mp hdst
  rw [encResetSrcFmt]
  cases getDefaultFmt ctx.variant false with
  | none => exact ⟨rfl, rfl⟩
  | some fmt =>
    rw [hdst]
    exact ⟨rfl, congrArg some (resetSrcFmt_pixelformat fmt dst ctx.colorimetry)⟩

section Unknown
variable {ctx : Ctx} {f : PixFormatMplane} (hfind : findFormat ctx.variant f.pixelformat = none)
include hfind

/-- An unknown pixelformat is replaced by the default one. -/
theorem pickFormat_unknown (b : Bool) : pickFormat ctx.variant b f =
    (getDefaultFmt ctx.variant b).map fun fmt => (fmt, { f with pixelformat := fmt.fourcc }) := by
  rw [pickFormat, hfind]

theorem vidiocTryFmtCap_unknown : (vidiocTryFmtCap ctx f).map (·.2.pixelformat) =
    (getDefaultFmt ctx.variant true).map Fmt.fourcc := by
  rw [vidiocTryFmtCap, pickFormat_unknown hfind]
  cases getDefaultFmt ctx.variant true <;> rfl

theorem vidiocTryFmtOut_unknown (dmaAlign : U32) (hdst : ctx.vpuDstFmt.isSome) :
    (vidiocTryFmtOut dmaAlign ctx f).map (·.2.pixelformat) =
      (getDefaultFmt ctx.variant false).map Fmt.fourcc := by
  obtain ⟨dst, hdst⟩ := Option.isSome_iff_exists.mp hdst
  rw [vidiocTryFmtOut, pickFormat_unknown hfind]
  cases getDefaultFmt ctx.variant false with
  | none => rfl
  | some fmt =>
    -- each of the three exits leaves the fourcc as it is
    simp only [Option.map_some, Option.bind_eq_bind, Option.bind_some, hdst, Option.pure_def]
    split_ifs <;> simp [fitOut, alignHeight, calculatePlaneSizes_eq]

end Unknown

/-- For every table that the loops can count, ENUM_FMT is exact. -/
theorem enumFmt_exact (dmaAlign : U32) {v : Variant} (hlen : v.encFmts.length < 2 ^ 31) :
    EnumExact dmaAlign v where
  returned type f h := by
    rw [vidiocEnumFmt_spec hlen, List.getElem?_eq_getElem h]
  refused type f h := by
    rw [vidiocEnumFmt_spec hlen, List.getElem?_eq_none h]
  listed := enumerated_eq hlen
  complete := enumerated_perm hlen
  default := getDefaultFmt_eq v
  resetDst ctx hctx := by
    obtain ⟨hentry, hfourcc⟩ := encResetDstFmt_default ctx
    rw [hentry, hfourcc, hctx]
    exact ⟨getDefaultFmt_eq v .capture, (enumResult_zero hlen .capture).symm⟩
  resetSrc ctx hctx hdst := by
    obtain ⟨hentry, hfourcc⟩ := encResetSrcFmt_default hdst
    rw [hentry, hfourcc, hctx]
    exact ⟨getDefaultFmt_eq v .output, (enumResult_zero hlen .output).symm⟩
  tryCap ctx f hctx hfind := by
    rw [vidiocTryFmtCap_unknown (by rwa [hctx]), hctx]
    exact (enumResult_zero hlen .capture).symm
  tryOut ctx f hctx hdst hfind := by
    rw [vidiocTryFmtOut_unknown (by rwa [hctx]) dmaAlign hdst, hctx]
    exact (enumResult_zero hlen .output).symm

/-- The four raw formats of the RK3399 and then JPEG, one after the other. -/
theorem enumFmt_exact_rk3399 : EnumExact 64 rk3399VpuVariant ∧
    (entriesFor rk3399VpuVariant .output).map Fmt.fourcc =
      [pixFmtYuv420m, pixFmtNv12m, pixFmtYuyv, pixFmtUyvy] ∧
    (entriesFor rk3399VpuVariant .capture).map Fmt.fourcc = [pixFmtJpegRaw] :=
  ⟨enumFmt_exact 64 (by decide), by decide, by decide⟩

end RockchipVpu.Format
