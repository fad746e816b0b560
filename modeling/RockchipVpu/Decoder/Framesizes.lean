import RockchipVpu.Decoder.TryFmt
import RockchipVpu.Format.Framesizes

/-! ENUM_FRAMESIZES of the decoder. What the encoder does for raw formats, TRY_FMT(CAPTURE) of
the decoder does for coded ones, but it rounds the height of a request whose plane size is a
multiple of the DMA unit by a step of its own. So it keeps the sizes that are offered on units
from 4 to 64 bytes; on smaller ones, and on larger ones, it moves some of them. -/

namespace RockchipVpu.Decoder

open Base Format

/-- `vidioc_enum_framesizes`. -/
def vidiocEnumFramesizes (v : Variant) : Frmsizeenum → Ret × Frmsizeenum :=
  enumFramesizes (findFormat v)

/-! ### One side -/

section Side
variable {lo hi step x : U32}

/-- A side that is rounded up and then clamped comes out as it was when it is a multiple of the
step within the limits, or the upper limit. -/
theorem clamp_roundUp_eq_self_iff {k : ℕ} (hstep : step.toNat = 2 ^ k) (hle : lo.toNat ≤ hi.toNat)
    (hroom : hi.toNat + 2 ^ k ≤ 2 ^ 32) : clamp (roundUp x step) lo hi = x ↔
      lo.toNat ≤ x.toNat ∧ x.toNat ≤ hi.toNat ∧ (2 ^ k ∣ x.toNat ∨ x.toNat = hi.toNat) := by
  constructor
  · intro hx
    have hlo : lo.toNat ≤ x.toNat := hx ▸ le_clamp hle
    have hhi : x.toNat ≤ hi.toNat := hx ▸ clamp_le ..
    refine ⟨hlo, hhi, ?_⟩
    by_contra hne
    simp only [not_or] at hne
    have hround : (roundUp x step).toNat = nextMultiple (2 ^ k) x.toNat :=
      toNat_roundUp hstep (by omega)
    have hval := congrArg BitVec.toNat hx
    rw [toNat_clamp, hround] at hval
    -- below the upper limit only the rounding can have kept the side
    have hself : nextMultiple (2 ^ k) x.toNat = x.toNat := by
      have := le_nextMultiple (Nat.two_pow_pos k) x.toNat
      omega
    exact hne.1 (hself ▸ dvd_nextMultiple ..)
  · rintro ⟨hlo, hhi, hkept⟩
    have hround : (roundUp x step).toNat = nextMultiple (2 ^ k) x.toNat :=
      toNat_roundUp hstep (by omega)
    apply BitVec.eq_of_toNat_eq
    rw [toNat_clamp, hround]
    rcases hkept with hdvd | hmax
    · rw [nextMultiple_eq_self (Nat.two_pow_pos k) hdvd]
      omega
    · have := le_nextMultiple (Nat.two_pow_pos k) x.toNat
      omega

/-- With steps of a macroblock these are the sides that are offered. -/
theorem clamp_roundUp_mb_iff (hle : lo.toNat ≤ hi.toNat) (hroom : hi.toNat ≤ 8192)
    (hlo : 16 ∣ lo.toNat) (hhi : 16 ∣ hi.toNat) :
    clamp (roundUp x mbDim) lo hi = x ↔ OffersSide lo hi mbDim x := by
  rw [clamp_roundUp_eq_self_iff (k := 4) rfl hle (by omega), offersSide_mb_iff hlo]
  refine and_congr_right fun _ => and_congr_right fun _ => ?_
  constructor
  · rintro (hdvd | hmax)
    · exact hdvd
    · rwa [hmax]
  · exact .inl

end Side

/-! ### Kept sizes -/

/-- TRY_FMT(CAPTURE) accepts the request and leaves its size as it is. -/
def KeepsSize (dmaAlign : U32) (ctx : Ctx) (f : PixFormatMplane) : Prop :=
  ∃ f', vidiocTryFmtCap dmaAlign ctx f = some (.ok, f') ∧ f'.width = f.width ∧ f'.height = f.height

/-- The heights that the step of the unit keeps. -/
def StepKeeps (a : CacheAlign) (height : ℕ) : Prop :=
  if a.ZeroStep then height = 32
  else 32 ≤ height ∧ height ≤ 4096 ∧ (2 ^ (a.log - 2) ∣ height ∨ height = 4096)

theorem clamp_step_eq_self_iff (a : CacheAlign) (x : U32) :
    clamp (roundUp x (a.val * 4 / mbDim)) decFrmsize.minHeight decFrmsize.maxHeight = x ↔
      StepKeeps a x.toNat := by
  have hmin : decFrmsize.minHeight.toNat = 32 := rfl
  have hmax : decFrmsize.maxHeight.toNat = 4096 := rfl
  unfold StepKeeps
  split_ifs with hzero
  · rw [CacheAlign.step_eq_zero hzero, show roundUp x 0 = 0 from roundUp_zero_step x,
      ← BitVec.toNat_inj, toNat_clamp]
    have hz : (0 : U32).toNat = 0 := rfl
    omega
  · have hlog := a.log_le
    have hpow : 2 ^ (a.log - 2) ≤ 2 ^ 28 := Nat.pow_le_pow_right (by norm_num) (by omega)
    rw [clamp_roundUp_eq_self_iff (CacheAlign.toNat_step hzero) (by omega) (by omega), hmin, hmax]

/-- The plane size that a request hands in decides how its height is rounded. -/
theorem keepsSize_iff {chip : Chip} {a : CacheAlign} {ctx : Ctx} {fmt dst : Fmt}
    {f : PixFormatMplane} (hc : FromTable chip.variant ctx) (hdst : ctx.vpuDstFmt = some dst)
    (hfind : findFormat ctx.variant f.pixelformat = some fmt) (hn : f.numPlanes = fmt.numPlanes) :
    KeepsSize a.val ctx f ↔
      OffersSide decFrmsize.minWidth decFrmsize.maxWidth mbDim f.width ∧
        if 2 ^ a.log ∣ (f.planeFmt 0).sizeimage.toNat then StepKeeps a f.height.toNat
        else OffersSide decFrmsize.minHeight decFrmsize.maxHeight mbDim f.height := by
  obtain ⟨hlimits, -, -⟩ := decFmts_entry chip dst (hc.dst_mem dst hdst)
  obtain ⟨-, hone, -⟩ := decFmts_entry chip fmt (hc.variant_eq ▸ (findFormat_some hfind).1)
  have htry : vidiocTryFmtCap a.val ctx f = some (.ok, fitCap a.val fmt decFrmsize f) := by
    simp [vidiocTryFmtCap, hfind, hn, hdst, hlimits]
  have hkeeps : KeepsSize a.val ctx f ↔ (fitCap a.val fmt decFrmsize f).width = f.width ∧
      (fitCap a.val fmt decFrmsize f).height = f.height := by
    constructor
    · rintro ⟨f', hf', hsame⟩
      obtain ⟨-, rfl⟩ := Prod.mk.inj (Option.some.inj (htry.symm.trans hf'))
      exact hsame
    · exact fun hsame => ⟨_, htry, hsame⟩
  rw [hkeeps]
  refine and_congr ?_ ?_
  · exact clamp_roundUp_mb_iff (by decide) (by decide) (by decide) (by decide)
  · simp only [fitCap, clearLine, PixFormatMplane.setPlane, heightStep, needAlignment_iff hone]
    split_ifs
    · exact clamp_step_eq_self_iff a f.height
    · exact clamp_roundUp_mb_iff (by decide) (by decide) (by decide) (by decide)

/-- The step of a unit from 4 to 64 bytes divides a macroblock. -/
theorem stepKeeps_of_offers {a : CacheAlign} (hmin : 2 ≤ a.log) (hmax : a.log ≤ 6) {x : U32}
    (hx : OffersSide decFrmsize.minHeight decFrmsize.maxHeight mbDim x) :
    StepKeeps a x.toNat := by
  obtain ⟨hle, hge, hdvd⟩ := (offersSide_mb_iff (by decide)).mp hx
  have hstep : ¬ a.ZeroStep := by
    unfold CacheAlign.ZeroStep
    omega
  unfold StepKeeps
  rw [if_neg hstep]
  have hpow : 2 ^ (a.log - 2) ∣ 2 ^ 4 := pow_dvd_pow 2 (by omega)
  exact ⟨hle, hge, .inl (hpow.trans hdvd)⟩

/-- The step of every other unit moves a height of three macroblocks. -/
theorem not_stepKeeps {a : CacheAlign} (h : ¬ (2 ≤ a.log ∧ a.log ≤ 6)) : ¬ StepKeeps a 48 := by
  unfold StepKeeps
  split_ifs with hzero
  · decide
  · rintro ⟨-, -, hdvd | hmax⟩
    · have hlarge : 6 < a.log := by
        unfold CacheAlign.ZeroStep at hzero
        omega
      have hpow : 2 ^ 5 ∣ 48 := (pow_dvd_pow 2 (by omega)).trans hdvd
      exact absurd hpow (by decide)
    · cases hmax

theorem findFormat_entry (chip : Chip) : ∀ fmt ∈ chip.variant.decFmts,
    findFormat chip.variant fmt.fourcc = some fmt ∧ fmt.codecMode ≠ .none := by
  cases chip <;> decide

/-- ENUM_FRAMESIZES succeeds for each format of the table, and TRY_FMT(CAPTURE) with that format
keeps all the sizes that are offered, whatever plane size comes with them, exactly on units from
4 to 64 bytes. -/
theorem offered_kept_iff (chip : Chip) (a : CacheAlign) {ctx : Ctx} {fmt dst : Fmt}
    (hc : FromTable chip.variant ctx) (hdst : ctx.vpuDstFmt = some dst)
    (hmem : fmt ∈ chip.variant.decFmts) : ∃ sizes,
      vidiocEnumFramesizes ctx.variant { pixelFormat := fmt.fourcc } = (.ok, sizes) ∧
        ((∀ f : PixFormatMplane, f.pixelformat = fmt.fourcc → f.numPlanes = fmt.numPlanes →
          Offers sizes.stepwise f.width f.height → KeepsSize a.val ctx f) ↔
            2 ≤ a.log ∧ a.log ≤ 6) := by
  obtain ⟨hfind, hcodec⟩ := findFormat_entry chip fmt hmem
  rw [← hc.variant_eq] at hfind
  obtain ⟨hsizes, -, -⟩ := decFmts_entry chip fmt hmem
  refine ⟨_, enumFramesizes_some rfl hfind hcodec, ?_⟩
  simp only [hsizes]
  constructor
  · intro hall
    by_contra hunit
    -- with a plane size of zero the height is rounded by the step of the unit
    let f : PixFormatMplane :=
      { width := 96, height := 48, pixelformat := fmt.fourcc, numPlanes := fmt.numPlanes }
    have hoffers : Offers decFrmsize 96 48 :=
      ⟨(offersSide_mb_iff (by decide)).mpr (by decide),
        (offersSide_mb_iff (by decide)).mpr (by decide)⟩
    have hkept := (keepsSize_iff hc hdst hfind rfl).mp (hall f rfl rfl hoffers)
    have hzero : 2 ^ a.log ∣ (f.planeFmt 0).sizeimage.toNat := dvd_zero _
    rw [if_pos hzero] at hkept
    exact not_stepKeeps hunit hkept.2
  · rintro ⟨hmin, hmax⟩ f hpix hn hoffers
    rw [← hpix] at hfind
    refine (keepsSize_iff hc hdst hfind hn).mpr ⟨hoffers.width, ?_⟩
    split_ifs
    · exact stepKeeps_of_offers hmin hmax hoffers.height
    · exact hoffers.height

/-- The sizes for VP8 on a unit of 64 bytes. -/
theorem offered_kept_iff_vp8 : ∃ sizes,
    vidiocEnumFramesizes h264Session.ctx.variant { pixelFormat := pixFmtVp8 } = (.ok, sizes) ∧
      ∀ f : PixFormatMplane, f.pixelformat = pixFmtVp8 → f.numPlanes = 1 →
        Offers sizes.stepwise f.width f.height →
          KeepsSize (CacheAlign.mk 6 (by decide)).val h264Session.ctx f := by
  obtain ⟨sizes, hok, hkept⟩ := offered_kept_iff .rk3288 ⟨6, by decide⟩ fromTable_h264Session
    rfl (show rk3288VpuDecFmts[1] ∈ (Chip.rk3288).variant.decFmts by decide)
  exact ⟨sizes, hok, hkept.mpr (by decide)⟩

end RockchipVpu.Decoder
