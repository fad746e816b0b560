import RockchipVpu.Format.Consistent

/-! Which kind of descriptor each queue holds. The encoder reads raw frames and
writes a coded stream, and `start_streaming` indexes the codec operations with the
mode of the destination descriptor. The shared lookup does not know the direction
of the queue, so this is kept exactly as long as no accepted S_FMT names a codec
format on OUTPUT or a raw format on CAPTURE. -/

namespace RockchipVpu.Format

open Base

/-- A raw source, a codec destination, and operations for its mode that can be
both run and reset. -/
structure KindInvariant (ctx : Ctx) : Prop where
  src_raw : ∃ src, ctx.vpuSrcFmt = some src ∧ src.codecMode = .none
  dst_codec : ∃ dst, ctx.vpuDstFmt = some dst ∧ dst.codecMode ≠ .none
  select : ∃ dst ops, ctx.vpuDstFmt = some dst ∧
    ctx.variant.codecOpsAt dst.codecMode = some ops ∧ ops.run.isSome ∧ ops.reset.isSome

/-- The call does not get past its guards with a format of the other kind. -/
def NamesOwnKind (ctx : Ctx) : FmtAct → Prop
  | .sFmtOut q f => SFmtOutBusy q ctx f ∨
      ∀ fmt ∈ ctx.variant.encFmts, fmt.fourcc = f.pixelformat → fmt.codecMode = .none
  | .sFmtCap q f => SFmtCapBusy q ctx f ∨
      ∀ fmt ∈ ctx.variant.encFmts, fmt.fourcc = f.pixelformat → fmt.codecMode ≠ .none
  | _ => True

/-! ### Kinds of the chosen entry -/

theorem defaultRaw_codecMode (chip : Chip) : chip.defaultRaw.codecMode = .none := by
  cases chip <;> rfl

theorem defaultCodec_codecMode (chip : Chip) : chip.defaultCodec.codecMode = .jpegEnc := by
  cases chip <;> rfl

/-- A property of the default entry holds of the chosen one exactly when it holds
of every entry with the requested fourcc. -/
theorem chosenFmt_iff (chip : Chip) (b : Bool) (fourcc : U32) (P : Fmt → Prop)
    (hdef : P (if b then chip.defaultCodec else chip.defaultRaw)) :
    P (chosenFmt chip b fourcc) ↔
      ∀ fmt ∈ chip.variant.encFmts, fmt.fourcc = fourcc → P fmt := by
  cases hf : findFormat chip.variant fourcc with
  | none =>
    have hnone := List.find?_eq_none.mp hf
    have hch : chosenFmt chip b fourcc = if b then chip.defaultCodec else chip.defaultRaw := by
      rw [chosenFmt, hf, Option.getD_none]
    rw [hch]
    refine iff_of_true hdef fun fmt hmem hfour => ?_
    exact absurd (by simpa using hfour) (hnone fmt hmem)
  | some g =>
    obtain ⟨hmem, hfour⟩ := findFormat_some hf
    have hch : chosenFmt chip b fourcc = g := by rw [chosenFmt, hf, Option.getD_some]
    rw [hch]
    constructor
    · intro hg fmt hfmt hfe
      rwa [List.inj_on_of_nodup_map (chip_sound chip).distinct hfmt hmem (hfe.trans hfour.symm)]
    · exact fun h => h g hmem hfour

theorem chosenFmt_raw_iff (chip : Chip) (fourcc : U32) :
    (chosenFmt chip false fourcc).codecMode = .none ↔
      ∀ fmt ∈ chip.variant.encFmts, fmt.fourcc = fourcc → fmt.codecMode = .none :=
  chosenFmt_iff chip false fourcc (·.codecMode = .none) (defaultRaw_codecMode chip)

theorem chosenFmt_codec_iff (chip : Chip) (fourcc : U32) :
    (chosenFmt chip true fourcc).codecMode ≠ .none ↔
      ∀ fmt ∈ chip.variant.encFmts, fmt.fourcc = fourcc → fmt.codecMode ≠ .none :=
  chosenFmt_iff chip true fourcc (·.codecMode ≠ .none)
    (by simp [defaultCodec_codecMode])

/-- Codec entries have no plane depths. -/
theorem depthAt_codec {chip : Chip} {fmt : Fmt} (hmem : fmt ∈ chip.variant.encFmts)
    (hmode : fmt.codecMode ≠ .none) (i : Plane) : fmt.depthAt i = 0 := by
  revert i
  revert hmode
  revert fmt
  cases chip <;> decide

/-- Hence a codec format on OUTPUT always passes the size negotiation. -/
theorem tryFmtOut_codec {chip : Chip} {A : DmaAlign} {ctx : Ctx} {dst : Fmt} {e : Errno}
    {f f' : PixFormatMplane} (hctx : ctx.variant = chip.variant)
    (hdst : ctx.vpuDstFmt = some dst)
    (hmode : (chosenFmt chip false f.pixelformat).codecMode ≠ .none) :
    vidiocTryFmtOut A.val ctx f ≠ some (.err e, f') := by
  rw [vidiocTryFmtOut_eq hctx A.val hdst f]
  have hneed : ∀ p, needAlignment A.val (chosenFmt chip false f.pixelformat)
      (fitOut (chosenFmt chip false f.pixelformat) dst p) = false := by
    intro p
    rw [needAlignment_eq_false]
    intro i hi
    rw [isAligned_iff A.toNat_val, fitOut, calculatePlaneSizes_eq]
    simp [hi, planeSizes, depthAt_codec (chosenFmt_mem chip false f.pixelformat) hmode]
  simp [hneed]

/-! ### The law over runs -/

/-- With a codec destination the selection is inside the table. -/
theorem kindInvariant_of_kinds {chip : Chip} {ctx : Ctx} {src dst : Fmt}
    (hctx : ctx.variant = chip.variant) (hs : ctx.vpuSrcFmt = some src)
    (hraw : src.codecMode = .none) (hd : ctx.vpuDstFmt = some dst)
    (hmem : dst ∈ chip.variant.encFmts) (hcodec : dst.codecMode ≠ .none) :
    KindInvariant ctx := by
  obtain ⟨ops, hops, hrun, hreset⟩ := (chip_sound chip).ops dst hmem hcodec
  exact ⟨⟨src, hs, hraw⟩, ⟨dst, hd, hcodec⟩, dst, ops, hd, by rw [hctx]; exact hops, hrun, hreset⟩

/-- Only the descriptors matter. -/
theorem KindInvariant.congr {ctx ctx' : Ctx} (h : KindInvariant ctx)
    (hv : ctx'.variant = ctx.variant) (hs : ctx'.vpuSrcFmt = ctx.vpuSrcFmt)
    (hd : ctx'.vpuDstFmt = ctx.vpuDstFmt) : KindInvariant ctx' :=
  ⟨by rw [hs]; exact h.src_raw, by rw [hd]; exact h.dst_codec, by rw [hd, hv]; exact h.select⟩

theorem kindInvariant_opened (chip : Chip) : KindInvariant (opened chip) := by
  obtain ⟨hv, -⟩ := consistent_opened chip
  have hs : (opened chip).vpuSrcFmt = some chip.defaultRaw := by cases chip <;> rfl
  have hd : (opened chip).vpuDstFmt = some chip.defaultCodec := by cases chip <;> rfl
  exact kindInvariant_of_kinds hv hs (defaultRaw_codecMode chip) hd (defaultCodec_mem chip)
    (by simp [defaultCodec_codecMode])

/-- One S_FMT(OUTPUT) keeps the kinds exactly when it names its own. -/
theorem kindInvariant_sFmtOut {chip : Chip} {A : DmaAlign} {q : Queues} {ctx ctx' : Ctx}
    {r : Ret} {f f' : PixFormatMplane} (hc : Consistent chip.variant ctx) (hk : KindInvariant ctx)
    (h : vidiocSFmtOut A.val q ctx f = some (r, ctx', f')) :
    KindInvariant ctx' ↔ NamesOwnKind ctx (.sFmtOut q f) := by
  obtain ⟨hv, -, -, dst, hmem, -, hdst, -, -⟩ := hc
  have hown := chosenFmt_raw_iff chip f.pixelformat
  simp only [NamesOwnKind, hv, ← hown]
  cases vidiocSFmtOut_exit h with
  | streaming hs => exact iff_of_true hk (.inl (.inl hs))
  | peerBusy hs hb hf =>
    exact iff_of_true (hk.congr rfl rfl rfl) (.inl (.inr ⟨hb, hf⟩))
  | refused hq ht =>
    refine iff_of_true (hk.congr rfl rfl rfl) (.inr ?_)
    by_contra hmode
    exact tryFmtOut_codec hv hdst hmode ht
  | stored hq ht =>
    have hfind := sFmtOut_descriptor hv hdst hmem ht
    simp only [hq, false_or]
    constructor
    · rintro ⟨⟨src, hsrc, hraw⟩, -, -⟩
      simp only [hfind, Option.some.injEq] at hsrc
      rwa [hsrc]
    · intro hraw
      exact ⟨⟨_, hfind, hraw⟩, hk.dst_codec, hk.select⟩

/-- One S_FMT(CAPTURE) keeps the kinds exactly when it names its own. -/
theorem kindInvariant_sFmtCap {chip : Chip} {q : Queues} {ctx ctx' : Ctx} {r : Ret}
    {f f' : PixFormatMplane} (hc : Consistent chip.variant ctx) (hk : KindInvariant ctx)
    (h : vidiocSFmtCap q ctx f = some (r, ctx', f')) :
    KindInvariant ctx' ↔ NamesOwnKind ctx (.sFmtCap q f) := by
  have hv := hc.variant_eq
  have hown := chosenFmt_codec_iff chip f.pixelformat
  simp only [NamesOwnKind, hv, ← hown]
  cases vidiocSFmtCap_exit h with
  | streaming hs => exact iff_of_true hk (.inl (.inl hs))
  | peerBusy hs hb hf =>
    exact iff_of_true (hk.congr rfl rfl rfl) (.inl (.inr ⟨hb, hf⟩))
  | stored hq ht hr =>
    obtain rfl := sFmtCap_stored hv ht hr
    simp only [hq, false_or]
    constructor
    · rintro ⟨-, ⟨dst, hdst, hcodec⟩, -⟩
      rwa [Option.some.inj hdst]
    · intro hcodec
      exact kindInvariant_of_kinds hv rfl (defaultRaw_codecMode chip) rfl
        (chosenFmt_mem chip true f.pixelformat) hcodec

theorem kindInvariant_step {chip : Chip} {A : DmaAlign} {ctx ctx' : Ctx} {a : FmtAct}
    (hc : Consistent chip.variant ctx) (hk : KindInvariant ctx)
    (h : fmtStep A.val ctx a = some ctx') : KindInvariant ctx' ↔ NamesOwnKind ctx a := by
  cases a with
  | tryFmtOut f =>
    obtain ⟨_, -, rfl⟩ := Option.map_eq_some_iff.mp h
    exact iff_of_true hk trivial
  | tryFmtCap f =>
    obtain ⟨_, -, rfl⟩ := Option.map_eq_some_iff.mp h
    exact iff_of_true hk trivial
  | sFmtOut q f =>
    obtain ⟨_, hs, rfl⟩ := Option.map_eq_some_iff.mp h
    exact kindInvariant_sFmtOut hc hk hs
  | sFmtCap q f =>
    obtain ⟨_, hs, rfl⟩ := Option.map_eq_some_iff.mp h
    exact kindInvariant_sFmtCap hc hk hs
  | streamon type =>
    obtain ⟨_, -, rfl⟩ := startStreaming_some h
    exact iff_of_true (hk.congr rfl rfl rfl) trivial
  | streamoff type =>
    obtain rfl := Option.some.inj h
    exact iff_of_true hk trivial

/-- A run from `open` has the right kinds in all of its states exactly when every
S_FMT in it that passes its guards names a format of its own queue's kind. -/
theorem kinds_throughout_iff (chip : Chip) (A : DmaAlign) (as : List FmtAct) :
    Throughout (fmtStep A.val) KindInvariant (opened chip) as ↔
      Along (fmtStep A.val) NamesOwnKind (opened chip) as :=
  throughout_iff_along (fun _ _ _ hc hs => consistent_step hc hs)
    (fun _ _ _ hc hk hs => kindInvariant_step hc hk hs) (consistent_opened chip)
    (kindInvariant_opened chip) as

/-- S_FMT(CAPTURE) with YUYV on an idle context stores a raw destination, and the
following STREAMON selects operations outside of the table. -/
theorem kinds_yuyv_capture : ∃ ctx,
    run (fmtStep 64) (opened .rk3288)
        [.sFmtCap ⟨⟨false, false⟩, ⟨false, false⟩⟩ { pixelformat := pixFmtYuyv },
          .streamon .capture] = some ctx ∧
      ¬ KindInvariant ctx ∧ ctx.codecOps = none := by
  refine ⟨_, rfl, ?_, by decide⟩
  rintro ⟨-, ⟨dst, hdst, hcodec⟩, -⟩
  exact hcodec (by obtain rfl := Option.some.inj hdst; rfl)

end RockchipVpu.Format
