import RockchipVpu.Decoder.Session

/-! What TRY_FMT(CAPTURE) of the decoder answers. Each side is rounded up in 32 bits and
clamped to the limits afterwards, so a request near the end of the range wraps to zero and
becomes the minimum. The height of a request whose plane size is already a multiple of the
DMA unit is rounded by a step derived from that unit, which is below a macroblock for
small units and zero for the smallest and the largest. -/

namespace RockchipVpu.Decoder

open Base Format

/-! ### DMA units -/

/-- A result of `dma_get_cache_alignment`, which is an `int`: a power of two. -/
structure CacheAlign where
  log : ℕ
  log_le : log ≤ 30

def CacheAlign.val (a : CacheAlign) : U32 := BitVec.ofNat 32 (2 ^ a.log)

theorem CacheAlign.toNat_val (a : CacheAlign) : a.val.toNat = 2 ^ a.log := by
  rw [CacheAlign.val, BitVec.toNat_ofNat]
  exact Nat.mod_eq_of_lt (Nat.pow_lt_pow_right (by norm_num) (a.log_le.trans_lt (by norm_num)))

/-- The units for which the step `dma_align * 4 / step_height` is zero. -/
def CacheAlign.ZeroStep (a : CacheAlign) : Prop := a.log < 2 ∨ a.log = 30

instance (a : CacheAlign) : Decidable a.ZeroStep := inferInstanceAs (Decidable (_ ∨ _))

theorem CacheAlign.step_eq_zero {a : CacheAlign} (ha : a.ZeroStep) : a.val * 4 / mbDim = 0 := by
  have hlog : a.log = 0 ∨ a.log = 1 ∨ a.log = 30 := by
    rcases ha with h | h <;> omega
  rcases hlog with h | h | h <;> rw [CacheAlign.val, h] <;> decide

theorem CacheAlign.toNat_step {a : CacheAlign} (ha : ¬ a.ZeroStep) :
    (a.val * 4 / mbDim).toNat = 2 ^ (a.log - 2) := by
  have hlog := a.log_le
  simp only [ZeroStep, not_or] at ha
  exact DmaAlign.toNat_step ⟨a.log, by omega⟩ (by show 2 ≤ a.log; omega)

/-! ### One side -/

/-- `given` is a legal answer to a request for a side of `asked`. -/
structure LegalSide (lo hi step asked given : U32) : Prop where
  lo_le : lo.toNat ≤ given.toNat
  le_hi : given.toNat ≤ hi.toNat
  dvd : step.toNat ∣ given.toNat
  asked_le : min asked.toNat hi.toNat ≤ given.toNat

section Side
variable {lo hi step asked y : U32} (hlt : lo.toNat < hi.toNat) (hlo : step.toNat ∣ lo.toNat)
  (hhi : step.toNat ∣ hi.toNat)
include hlt hlo hhi

/-- Clamping gives a legal side when what is clamped is not too small, and is a multiple
of the step unless it is cut off. -/
theorem legalSide_clamp_iff : LegalSide lo hi step asked (clamp y lo hi) ↔
    min asked.toNat hi.toNat ≤ max y.toNat lo.toNat ∧
      (y.toNat ≤ lo.toNat ∨ hi.toNat ≤ y.toNat ∨ step.toNat ∣ y.toNat) := by
  have hval := toNat_clamp y lo hi
  constructor
  · rintro ⟨-, -, hdvd, hasked⟩
    refine ⟨by omega, ?_⟩
    by_contra hcut
    simp only [not_or] at hcut
    have hy : (clamp y lo hi).toNat = y.toNat := by omega
    exact hcut.2.2 (hy ▸ hdvd)
  · rintro ⟨hasked, hcut⟩
    refine ⟨by omega, by omega, ?_, by omega⟩
    rcases hcut with h | h | h
    · have hy : (clamp y lo hi).toNat = lo.toNat := by omega
      rwa [hy]
    · have hy : (clamp y lo hi).toNat = hi.toNat := by omega
      rwa [hy]
    · rw [hval]
      rcases le_total (max y.toNat lo.toNat) hi.toNat with hm | hm
      · rw [min_eq_left hm]
        rcases max_choice y.toNat lo.toNat with hc | hc <;> rw [hc]
        · exact h
        · exact hlo
      · rw [min_eq_right hm]
        exact hhi

/-- A side that has wrapped to zero is legal when not more than the minimum was asked for. -/
theorem legalSide_zero_iff : LegalSide lo hi step asked (clamp 0 lo hi) ↔
    asked.toNat ≤ lo.toNat := by
  have hzero : (0 : U32).toNat = 0 := rfl
  rw [legalSide_clamp_iff hlt hlo hhi]
  omega

/-- A side rounded up without wrap is legal when the result is a multiple of the step,
unless it is cut off. -/
theorem legalSide_rounded_iff {s : ℕ} (hs : 0 < s)
    (hy : y.toNat = nextMultiple s asked.toNat) :
    LegalSide lo hi step asked (clamp y lo hi) ↔
      (nextMultiple s asked.toNat ≤ lo.toNat ∨ hi.toNat ≤ nextMultiple s asked.toNat ∨
        step.toNat ∣ nextMultiple s asked.toNat) := by
  have hle := le_nextMultiple hs asked.toNat
  rw [legalSide_clamp_iff hlt hlo hhi, hy]
  exact and_iff_right (by omega)

end Side

/-- The next macroblock is a legal side, for every request but the last few that wrap. -/
theorem legalSide_mb_iff {lo hi asked : U32} (hlt : lo.toNat < hi.toNat) (hmax : hi.toNat < 2 ^ 31)
    (hlo : mbDim.toNat ∣ lo.toNat) (hhi : mbDim.toNat ∣ hi.toNat) :
    LegalSide lo hi mbDim asked (clamp (roundUp asked mbDim) lo hi) ↔
      asked.toNat ≤ 2 ^ 32 - 16 := by
  by_cases hwrap : asked.toNat ≤ 2 ^ 32 - 16
  · have hval : (roundUp asked mbDim).toNat = nextMultiple 16 asked.toNat :=
      toNat_roundUp (k := 4) rfl (by omega)
    rw [legalSide_rounded_iff hlt hlo hhi (by norm_num) hval]
    exact iff_of_true (.inr (.inr (dvd_nextMultiple 16 _))) hwrap
  · have hzero : roundUp asked mbDim = 0 := roundUp_wrap (k := 4) rfl (by omega)
    rw [hzero, legalSide_zero_iff hlt hlo hhi]
    omega

/-! ### The height of an aligned request -/

/-- The requested heights for which the step of unit `a` gives a legal height. A zero step
always gives the minimum; a step below a macroblock gives a multiple of 16 only just below
one, at the limits or beyond them. -/
def StepReaches (a : CacheAlign) (height : ℕ) : Prop :=
  if a.ZeroStep then height ≤ 32
  else height ≤ 2 ^ 32 - 2 ^ (a.log - 2) ∧
    (6 ≤ a.log ∨ height ≤ 32 ∨ 4096 ≤ height ∨ height % 16 = 0 ∨
      16 - 2 ^ (a.log - 2) < height % 16)

/-- Where the multiples of `2 ^ (n - 2)` above a height are cut off or macroblocks. -/
theorem step_multiple_iff {n : ℕ} (hn : 2 ≤ n) (height : ℕ) :
    (nextMultiple (2 ^ (n - 2)) height ≤ 32 ∨ 4096 ≤ nextMultiple (2 ^ (n - 2)) height ∨
        16 ∣ nextMultiple (2 ^ (n - 2)) height) ↔
      (6 ≤ n ∨ height ≤ 32 ∨ 4096 ≤ height ∨ height % 16 = 0 ∨
        16 - 2 ^ (n - 2) < height % 16) := by
  by_cases hlarge : 6 ≤ n
  · have hdvd : 16 ∣ 2 ^ (n - 2) := pow_dvd_pow 2 (show 4 ≤ n - 2 by omega)
    exact iff_of_true (.inr (.inr (hdvd.trans (dvd_nextMultiple _ _)))) (.inl hlarge)
  · have hsmall : n = 2 ∨ n = 3 ∨ n = 4 ∨ n = 5 := by omega
    rcases hsmall with rfl | rfl | rfl | rfl <;>
    · simp only [nextMultiple, Nat.ceilDiv_eq_add_pred_div]
      omega

theorem legalSide_step_iff (a : CacheAlign) (asked : U32) :
    LegalSide decFrmsize.minHeight decFrmsize.maxHeight mbDim asked
        (clamp (roundUp asked (a.val * 4 / mbDim)) decFrmsize.minHeight decFrmsize.maxHeight) ↔
      StepReaches a asked.toNat := by
  have hlt : decFrmsize.minHeight.toNat < decFrmsize.maxHeight.toNat := by decide
  have hlo : mbDim.toNat ∣ decFrmsize.minHeight.toNat := by decide
  have hhi : mbDim.toNat ∣ decFrmsize.maxHeight.toNat := by decide
  unfold StepReaches
  split_ifs with hzero
  · have hwrap : roundUp asked (a.val * 4 / mbDim) = 0 := by
      rw [CacheAlign.step_eq_zero hzero]
      exact roundUp_zero_step asked
    rw [hwrap]
    exact legalSide_zero_iff hlt hlo hhi
  · have hstep := CacheAlign.toNat_step hzero
    have hlog : 2 ≤ a.log ∧ a.log < 30 := by
      have := a.log_le
      simp only [CacheAlign.ZeroStep, not_or] at hzero
      omega
    have hpow : 2 ^ (a.log - 2) ≤ 2 ^ 28 := Nat.pow_le_pow_right (by norm_num) (by omega)
    by_cases hwrap : asked.toNat ≤ 2 ^ 32 - 2 ^ (a.log - 2)
    · rw [legalSide_rounded_iff hlt hlo hhi (Nat.two_pow_pos _)
        (toNat_roundUp hstep (by omega)), and_iff_right hwrap]
      exact step_multiple_iff hlog.1 asked.toNat
    · rw [roundUp_wrap hstep (by omega)]
      have hmin : decFrmsize.minHeight.toNat = 32 := rfl
      refine iff_of_false (fun h => ?_) fun h => hwrap h.1
      have hle : asked.toNat ≤ decFrmsize.minHeight.toNat := (legalSide_zero_iff hlt hlo hhi).mp h
      omega

/-! ### The answer -/

/-- The answer `f'` to `f` is within the limits, in whole steps and not below the request. -/
structure LegalSize (limits : FrmsizeStepwise) (f f' : PixFormatMplane) : Prop where
  width : LegalSide limits.minWidth limits.maxWidth limits.stepWidth f.width f'.width
  height : LegalSide limits.minHeight limits.maxHeight limits.stepHeight f.height f'.height

/-- The requests that are rounded well: no side wraps, and the step for the height, which
depends on whether the requested plane size is a multiple of the DMA unit, reaches a legal
height. -/
def RoundsWell (a : CacheAlign) (f : PixFormatMplane) : Prop :=
  f.width.toNat ≤ 2 ^ 32 - 16 ∧
    if 2 ^ a.log ∣ (f.planeFmt 0).sizeimage.toNat then StepReaches a f.height.toNat
    else f.height.toNat ≤ 2 ^ 32 - 16

/-- The entries of a decoder table differ in fourcc and codec only. -/
theorem decFmts_entry (chip : Chip) : ∀ fmt ∈ chip.variant.decFmts,
    fmt.frmsize = decFrmsize ∧ fmt.numPlanes = 1 ∧ fmt.depth = [] := by
  cases chip <;> decide

theorem needAlignment_iff {a : CacheAlign} {fmt : Fmt} (hn : fmt.numPlanes = 1)
    (f : PixFormatMplane) :
    needAlignment a.val fmt f = true ↔ 2 ^ a.log ∣ (f.planeFmt 0).sizeimage.toNat := by
  have hplanes : planesOf fmt.numPlanes = [0] := by rw [hn]; decide
  rw [needAlignment, hplanes, ← isAligned_iff a.toNat_val]
  simp

theorem legalSize_fitCap_iff (a : CacheAlign) {fmt : Fmt} (hn : fmt.numPlanes = 1)
    (f : PixFormatMplane) :
    LegalSize decFrmsize f (fitCap a.val fmt decFrmsize f) ↔ RoundsWell a f := by
  have hwidth : LegalSide decFrmsize.minWidth decFrmsize.maxWidth mbDim f.width
      (fitCap a.val fmt decFrmsize f).width ↔ f.width.toNat ≤ 2 ^ 32 - 16 :=
    legalSide_mb_iff (by decide) (by decide) (by decide) (by decide)
  have hheight : LegalSide decFrmsize.minHeight decFrmsize.maxHeight mbDim f.height
      (fitCap a.val fmt decFrmsize f).height ↔
        if 2 ^ a.log ∣ (f.planeFmt 0).sizeimage.toNat then StepReaches a f.height.toNat
        else f.height.toNat ≤ 2 ^ 32 - 16 := by
    simp only [fitCap, clearLine, PixFormatMplane.setPlane, heightStep, needAlignment_iff hn]
    split_ifs
    · exact legalSide_step_iff a f.height
    · exact legalSide_mb_iff (by decide) (by decide) (by decide) (by decide)
  exact ⟨fun h => ⟨hwidth.mp h.width, hheight.mp h.height⟩,
    fun h => ⟨hwidth.mpr h.1, hheight.mpr h.2⟩⟩

/-- TRY_FMT(CAPTURE) accepts every known pixel format with its number of planes, and its
answer is a legal size exactly when the request is rounded well. -/
theorem tryFmtCap_legal_iff (chip : Chip) (a : CacheAlign) {ctx : Ctx} {fmt dst : Fmt}
    {f : PixFormatMplane} (hv : ctx.variant = chip.variant) (hdst : ctx.vpuDstFmt = some dst)
    (hmem : dst ∈ chip.variant.decFmts)
    (hfind : findFormat ctx.variant f.pixelformat = some fmt)
    (hn : f.numPlanes = fmt.numPlanes) :
    ∃ f', vidiocTryFmtCap a.val ctx f = some (.ok, f') ∧
      (LegalSize fmt.frmsize f f' ↔ RoundsWell a f) := by
  obtain ⟨hlimits, -, -⟩ := decFmts_entry chip dst hmem
  obtain ⟨hfmt, hone, -⟩ := decFmts_entry chip fmt (hv ▸ (findFormat_some hfind).1)
  refine ⟨fitCap a.val fmt dst.frmsize f, ?_, ?_⟩
  · simp [vidiocTryFmtCap, hfind, hn, hdst]
  · rw [hlimits, hfmt]
    exact legalSize_fitCap_iff a hone f

/-- A 1080p request with the plane size still zero, on a 64-byte DMA unit. -/
theorem tryFmtCap_legal_iff_1080p : ∃ f',
    vidiocTryFmtCap (CacheAlign.mk 6 (by decide)).val h264Session.ctx
        { width := 1920, height := 1080, pixelformat := pixFmtH264, numPlanes := 1 } =
        some (.ok, f') ∧
      (LegalSize rk3288VpuDecFmts[0].frmsize
          { width := 1920, height := 1080, pixelformat := pixFmtH264, numPlanes := 1 } f' ↔
        RoundsWell ⟨6, by decide⟩
          { width := 1920, height := 1080, pixelformat := pixFmtH264, numPlanes := 1 }) :=
  tryFmtCap_legal_iff .rk3288 ⟨6, by decide⟩ rfl rfl
    (show rk3288VpuDecFmts[0] ∈ rk3288VpuDecFmts by decide) rfl rfl

/-- The greatest width that can be asked for is answered with the minimum. -/
theorem tryFmtCap_wraps : ∃ f',
    vidiocTryFmtCap (CacheAlign.mk 6 (by decide)).val h264Session.ctx
        { width := 0xffffffff, height := 1080, pixelformat := pixFmtH264, numPlanes := 1 } =
        some (.ok, f') ∧
      f'.width = 96 ∧
      ¬ LegalSize decFrmsize
        { width := 0xffffffff, height := 1080, pixelformat := pixFmtH264, numPlanes := 1 } f' := by
  refine ⟨_, rfl, by decide, fun h => ?_⟩
  exact absurd h.width.asked_le (by decide)

/-! ### S_FMT after TRY_FMT -/

/-- The fields that a negotiation settles agree. -/
structure SameAnswer (f f' : PixFormatMplane) : Prop where
  pixelformat_eq : f'.pixelformat = f.pixelformat
  width_eq : f'.width = f.width
  height_eq : f'.height = f.height
  numPlanes_eq : f'.numPlanes = f.numPlanes
  bytesperline_eq : ∀ i, (f'.planeFmt i).bytesperline = (f.planeFmt i).bytesperline
  sizeimage_eq : ∀ i, (f'.planeFmt i).sizeimage = (f.planeFmt i).sizeimage

/-- TRY_FMT(CAPTURE) and S_FMT(CAPTURE) return the same code, and when they succeed the same
format, which is stored and which G_FMT reports. -/
def SFmtPredicted (dmaAlign : U32) (q : Queues) (ctx : Ctx) (f : PixFormatMplane) : Prop :=
  ∃ r f₁ ctx' f₂, vidiocTryFmtCap dmaAlign ctx f = some (r, f₁) ∧
    vidiocSFmtCap dmaAlign q ctx f = some (r, ctx', f₂) ∧
      (r = .ok → SameAnswer f₁ f₂ ∧ ctx'.dstFmt = f₂ ∧ vidiocGFmtCap ctx' = f₂)

/-- No guard on the queue holds, and the request is refused by TRY_FMT or has a zero plane
size. -/
def AsksNoSize (q : Queues) (ctx : Ctx) (f : PixFormatMplane) : Prop :=
  ¬ SFmtCapBusy q ctx f ∧ ∀ fmt, findFormat ctx.variant f.pixelformat = some fmt →
    f.numPlanes = fmt.numPlanes → (f.planeFmt 0).sizeimage = 0

/-- With no depth in the table S_FMT(CAPTURE) sets the sizes of the one plane to zero. -/
theorem captureSizes_table {fmt : Fmt} (hn : fmt.numPlanes = 1) (hdepth : fmt.depth = [])
    (p : PixFormatMplane) : captureSizes fmt p =
      p.setPlane 0 { p.planeFmt 0 with sizeimage := 0, bytesperline := 0 } := by
  have hplane (i : Plane) (plane : PlanePixFormat) : capturePlane fmt p.width p.height i plane =
      { plane with sizeimage := 0, bytesperline := 0 } := by
    have hzero : fmt.depthAt i = 0 := by simp [Fmt.depthAt, hdepth]
    simp [capturePlane, hzero]
  rw [captureSizes_eq, PixFormatMplane.setPlane, PixFormatMplane.mk.injEq]
  refine ⟨rfl, rfl, rfl, rfl, rfl, ?_, rfl, rfl⟩
  funext i
  by_cases hi : i = 0
  · subst hi
    simp [hn, hplane]
  · have hge : ¬ i.val < 1 := by
      rw [Nat.lt_one_iff]
      exact fun h => hi (Fin.ext h)
    simp [hn, hge, hi]

/-- So S_FMT(CAPTURE) stores what TRY_FMT(CAPTURE) answers exactly when the caller's plane
size, which TRY_FMT hands back, is zero. -/
theorem sameAnswer_captureSizes_iff {fmt : Fmt} (hn : fmt.numPlanes = 1) (hdepth : fmt.depth = [])
    (dmaAlign : U32) (limits : FrmsizeStepwise) (f : PixFormatMplane) :
    SameAnswer (fitCap dmaAlign fmt limits f) (captureSizes fmt (fitCap dmaAlign fmt limits f)) ↔
      (f.planeFmt 0).sizeimage = 0 := by
  rw [captureSizes_table hn hdepth]
  constructor
  · intro h
    have hsize := h.sizeimage_eq 0
    simpa [PixFormatMplane.setPlane, fitCap, clearLine] using hsize.symm
  · intro hsize
    refine ⟨rfl, rfl, rfl, rfl, fun i => ?_, fun i => ?_⟩
    · by_cases hi : i = 0
      · subst hi
        simp [PixFormatMplane.setPlane, fitCap, clearLine]
      · simp [PixFormatMplane.setPlane, hi]
    · by_cases hi : i = 0
      · subst hi
        simp [PixFormatMplane.setPlane, fitCap, clearLine, hsize]
      · simp [PixFormatMplane.setPlane, hi]

section Predicted
variable {dmaAlign : U32} {q : Queues} {ctx : Ctx} {f : PixFormatMplane}

/-- A guard refuses the call with a code that TRY_FMT(CAPTURE) never returns. -/
theorem not_sFmtPredicted_busy (hq : SFmtCapBusy q ctx f) :
    ¬ SFmtPredicted dmaAlign q ctx f := by
  rintro ⟨r, f₁, ctx', f₂, htry, hset, -⟩
  rw [vidiocSFmtCap_busy hq] at hset
  obtain ⟨rfl, -⟩ := Prod.mk.inj (Option.some.inj hset)
  cases vidiocTryFmtCap_exit htry

theorem sFmtPredicted_refused (hq : ¬ SFmtCapBusy q ctx f)
    (htry : vidiocTryFmtCap dmaAlign ctx f = some (.err .einval, f)) :
    SFmtPredicted dmaAlign q ctx f :=
  ⟨_, _, _, _, htry, vidiocSFmtCap_err hq htry, by simp⟩

/-- When TRY_FMT(CAPTURE) accepts, all depends on the plane size of the request. -/
theorem sFmtPredicted_fitted_iff {chip : Chip} {fmt dst : Fmt} (hv : ctx.variant = chip.variant)
    (hq : ¬ SFmtCapBusy q ctx f) (hfind : findFormat ctx.variant f.pixelformat = some fmt)
    (hn : fmt.numPlanes = f.numPlanes) (hdst : ctx.vpuDstFmt = some dst) :
    SFmtPredicted dmaAlign q ctx f ↔ (f.planeFmt 0).sizeimage = 0 := by
  obtain ⟨-, hone, hdepth⟩ := decFmts_entry chip fmt (hv ▸ (findFormat_some hfind).1)
  have htry : vidiocTryFmtCap dmaAlign ctx f = some (.ok, fitCap dmaAlign fmt dst.frmsize f) := by
    simp [vidiocTryFmtCap, hfind, hn, hdst]
  have hset := vidiocSFmtCap_ok hq htry hfind
  rw [← sameAnswer_captureSizes_iff hone hdepth dmaAlign dst.frmsize f]
  constructor
  · rintro ⟨r, f₁, ctx', f₂, htry', hset', hok⟩
    obtain ⟨rfl, rfl⟩ := Prod.mk.inj (Option.some.inj (htry.symm.trans htry'))
    have hres := Option.some.inj (hset.symm.trans hset')
    simp only [Prod.mk.injEq] at hres
    obtain ⟨-, -, rfl⟩ := hres
    exact (hok rfl).1
  · exact fun hsame => ⟨_, _, _, _, htry, hset, fun _ => ⟨hsame, rfl, rfl⟩⟩

end Predicted

/-- In every context whose CAPTURE descriptor is set, TRY_FMT(CAPTURE) predicts
S_FMT(CAPTURE) exactly when the guards let the call pass and no plane size is asked for, or
the request is refused. -/
theorem sFmtCap_predicted_iff (chip : Chip) (dmaAlign : U32) (q : Queues) {ctx : Ctx} {dst : Fmt}
    (hv : ctx.variant = chip.variant) (hdst : ctx.vpuDstFmt = some dst) (f : PixFormatMplane) :
    SFmtPredicted dmaAlign q ctx f ↔ AsksNoSize q ctx f := by
  by_cases hq : SFmtCapBusy q ctx f
  · exact iff_of_false (not_sFmtPredicted_busy hq) fun h => h.1 hq
  · cases hfind : findFormat ctx.variant f.pixelformat with
    | none =>
      exact iff_of_true (sFmtPredicted_refused hq (by simp [vidiocTryFmtCap, hfind]))
        ⟨hq, by simp [hfind]⟩
    | some fmt =>
      by_cases hn : fmt.numPlanes = f.numPlanes
      · rw [sFmtPredicted_fitted_iff hv hq hfind hn hdst]
        exact ⟨fun hsize => ⟨hq, fun _ _ _ => hsize⟩, fun h => h.2 fmt hfind hn.symm⟩
      · refine iff_of_true (sFmtPredicted_refused hq (by simp [vidiocTryFmtCap, hfind, hn]))
          ⟨hq, fun fmt' hfmt hn' => ?_⟩
        obtain rfl := Option.some.inj (hfind.symm.trans hfmt)
        exact absurd hn'.symm hn

/-- A request with a zero plane size on idle queues. -/
theorem sFmtCap_predicted_vp8 : SFmtPredicted 64 h264Session.queues h264Session.ctx
    { width := 640, height := 480, pixelformat := pixFmtVp8, numPlanes := 1 } :=
  (sFmtCap_predicted_iff .rk3288 64 h264Session.queues rfl rfl _).mpr
    ⟨by simp [SFmtCapBusy, h264Session], fun _ _ _ => rfl⟩

/-- TRY_FMT(CAPTURE) hands back the size of a 640x480 picture that it was given, S_FMT
stores zero. -/
theorem sFmtCap_unpredicted : ∃ f₁ ctx' f₂,
    vidiocTryFmtCap 64 h264Session.ctx
        { width := 640, height := 480, pixelformat := pixFmtH264, numPlanes := 1,
          planeFmt := fun _ => { sizeimage := 460800 } } = some (.ok, f₁) ∧
      vidiocSFmtCap 64 h264Session.queues h264Session.ctx
        { width := 640, height := 480, pixelformat := pixFmtH264, numPlanes := 1,
          planeFmt := fun _ => { sizeimage := 460800 } } = some (.ok, ctx', f₂) ∧
      (f₁.planeFmt 0).sizeimage = 460800 ∧ (f₂.planeFmt 0).sizeimage = 0 ∧
      ¬ SFmtPredicted 64 h264Session.queues h264Session.ctx
        { width := 640, height := 480, pixelformat := pixFmtH264, numPlanes := 1,
          planeFmt := fun _ => { sizeimage := 460800 } } := by
  refine ⟨_, _, _, rfl, rfl, by decide, by decide, ?_⟩
  rintro ⟨r, f₁, ctx', f₂, htry, hset, hok⟩
  obtain ⟨rfl, rfl⟩ := Prod.mk.inj (Option.some.inj htry)
  have hres := Option.some.inj hset
  simp only [Prod.mk.injEq] at hres
  obtain ⟨-, -, rfl⟩ := hres
  exact absurd ((hok rfl).1.sizeimage_eq 0) (by decide)

end RockchipVpu.Decoder
