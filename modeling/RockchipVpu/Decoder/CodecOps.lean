import RockchipVpu.Decoder.Session

/-! The codec operations of a decoder context. STREAMON selects them for the descriptor
of CAPTURE, as the encoder does, but the coded stream of a decoder is on OUTPUT, and
both queues take their formats from one table of codecs. So the operations are those of
the stream exactly when the STREAMON that completes the pair of streaming queues finds
one codec on both. -/

namespace RockchipVpu.Decoder

open Base Format

/-- Both queues stream, so that jobs can run. -/
def BothStream (q : Queues) : Prop := q.output.streaming = true ∧ q.capture.streaming = true

/-- The operations are the variant's entry for the codec of the coded stream. -/
def OpsMatchSource (ctx : Ctx) : Prop :=
  ∃ src ops, ctx.vpuSrcFmt = some src ∧ ctx.variant.codecOpsAt src.codecMode = some ops ∧
    ctx.codecOps = some ops

/-- While both queues stream the operations are those of the coded stream. -/
def OpsOfSource (s : Session) : Prop := BothStream s.queues → OpsMatchSource s.ctx

/-- Both queues have formats of one codec. -/
def SameCodec (ctx : Ctx) : Prop :=
  ∃ src dst, ctx.vpuSrcFmt = some src ∧ ctx.vpuDstFmt = some dst ∧ src.codecMode = dst.codecMode

/-- A STREAMON that starts a queue while the other one streams finds one codec on both
queues. -/
def CompletesWithSameCodec (s : Session) : DecAct → Prop
  | .streamon type => (s.queues.getVq type).streaming = false → (s.queues.getVq type).busy = true →
      (s.queues.getVq type.peer).streaming = true → SameCodec s.ctx
  | _ => True

instance (ctx : Ctx) : Decidable (SameCodec ctx) :=
  decidable_of_iff (∃ src ∈ ctx.vpuSrcFmt, ∃ dst ∈ ctx.vpuDstFmt, src.codecMode = dst.codecMode)
    (by simp [SameCodec])

instance (s : Session) : (act : DecAct) → Decidable (CompletesWithSameCodec s act)
  | .streamon _ => inferInstanceAs (Decidable (_ → _ → _ → _))
  | .sFmt _ _ | .reqbufs _ _ _ | .createBufs _ _ _ | .streamoff _ => isTrue trivial

/-! ### Steps -/

theorem bothStream_iff (q : Queues) (type : BufType) : BothStream q ↔
    (q.getVq type).streaming = true ∧ (q.getVq type.peer).streaming = true := by
  cases type
  · exact Iff.rfl
  · exact and_comm

/-- After a start both queues stream exactly when the other one did. -/
theorem bothStream_start (q : Queues) (type : BufType) {s : QueueState}
    (hs : s.streaming = true) :
    BothStream (setQueue q type s) ↔ (q.getVq type.peer).streaming = true := by
  have hpeer : type.peer ≠ type := by cases type <;> simp [BufType.peer]
  rw [bothStream_iff _ type, getVq_setQueue, getVq_setQueue, if_pos rfl, if_neg hpeer, hs]
  simp

/-- While both queues stream no S_FMT gets past its guards. -/
theorem sFmt_bothStream {dmaAlign : U32} {q : Queues} {ctx ctx' : Ctx} {type : BufType} {r : Ret}
    {f f' : PixFormatMplane} (hq : BothStream q)
    (h : vidiocSFmt dmaAlign q ctx type f = some (r, ctx', f')) : ctx' = ctx := by
  cases type with
  | output =>
    cases vidiocSFmtOut_exit (Option.some.inj h) with
    | busy => rfl
    | refused => rfl
    | stored hn => exact absurd (.inl hq.1) hn
  | capture =>
    cases vidiocSFmtCap_exit h with
    | busy => rfl
    | refused => rfl
    | stored hn => exact absurd (.inl hq.2) hn

/-- A step that starts no queue keeps the law. -/
theorem opsOfSource_other {dmaAlign : U32} {s t : Session} {act : DecAct} (hp : OpsOfSource s)
    (ha : ∀ type, act ≠ .streamon type) (h : decStep dmaAlign s act = some t) :
    OpsOfSource t := by
  cases decStep_exit h with
  | format hs =>
    intro hboth
    rw [sFmt_bothStream hboth hs]
    exact hp hboth
  | queues hact hq => exact fun hboth => hp ⟨hq .output hboth.1, hq .capture hboth.2⟩
  | start => exact absurd rfl (ha _)

/-- Every entry of a decoder table has operations of its own. -/
theorem decOps_inj (chip : Chip) : ∀ src ∈ chip.variant.decFmts, ∀ dst ∈ chip.variant.decFmts,
    (chip.variant.codecOpsAt src.codecMode).isSome ∧
      (chip.variant.codecOpsAt src.codecMode = chip.variant.codecOpsAt dst.codecMode →
        src.codecMode = dst.codecMode) := by
  cases chip <;> decide

/-- The operations selected for CAPTURE are those of the stream exactly when both queues
have one codec. -/
theorem opsMatchSource_iff {chip : Chip} {ctx : Ctx} {dst : Fmt} (hc : FromTable chip.variant ctx)
    (hdst : ctx.vpuDstFmt = some dst)
    (hops : ctx.codecOps = ctx.variant.codecOpsAt dst.codecMode) :
    OpsMatchSource ctx ↔ SameCodec ctx := by
  have hmem := hc.dst_mem dst hdst
  rw [hc.variant_eq] at hops
  constructor
  · rintro ⟨src, ops, hsrc, hat, hctx⟩
    rw [hc.variant_eq] at hat
    refine ⟨src, dst, hsrc, hdst, (decOps_inj chip src (hc.src_mem src hsrc) dst hmem).2 ?_⟩
    rw [hat, ← hctx, hops]
  · rintro ⟨src, dst', hsrc, hdst', hmode⟩
    obtain rfl : dst = dst' := Option.some.inj (hdst.symm.trans hdst')
    obtain ⟨ops, hat⟩ := Option.isSome_iff_exists.mp (decOps_inj chip dst hmem dst hmem).1
    exact ⟨src, ops, hsrc, by rw [hc.variant_eq, hmode, hat], hops.trans hat⟩

/-- A STREAMON keeps the law exactly when it does not complete the pair on two codecs. -/
theorem opsOfSource_streamon {chip : Chip} {s t : Session} {type : BufType}
    (hc : FromTable chip.variant s.ctx) (hp : OpsOfSource s) (h : streamon s type = some t) :
    OpsOfSource t ↔ CompletesWithSameCodec s (.streamon type) := by
  rcases streamon_exit h with ⟨hguard, rfl⟩ | ⟨hstopped, hbusy, ctx', hs, rfl⟩
  · refine iff_of_true hp fun hstopped hbusy => ?_
    simp [hstopped, hbusy] at hguard
  · obtain ⟨dst, hdst, hctx⟩ := startStreaming_some hs
    have hc' : FromTable chip.variant ctx' := by
      rw [hctx]
      exact hc.congr rfl rfl rfl
    have hmatch : OpsMatchSource ctx' ↔ SameCodec s.ctx := by
      rw [opsMatchSource_iff hc' (by rw [hctx]; exact hdst) (by rw [hctx]), hctx]
      rfl
    rw [OpsOfSource, bothStream_start _ _ rfl, hmatch]
    exact ⟨fun hr _ _ => hr, fun hr => hr hstopped hbusy⟩

theorem opsOfSource_step {chip : Chip} {dmaAlign : U32} {s t : Session} {act : DecAct}
    (hc : FromTable chip.variant s.ctx) (hp : OpsOfSource s)
    (h : decStep dmaAlign s act = some t) : OpsOfSource t ↔ CompletesWithSameCodec s act := by
  cases act with
  | streamon type => exact opsOfSource_streamon hc hp h
  | _ => exact iff_of_true (opsOfSource_other hp (by simp) h) trivial

/-! ### Runs -/

/-- A run has the operations of the coded stream in all of its states exactly when no
STREAMON completes the pair of streaming queues on two codecs. -/
theorem ops_throughout_iff (chip : Chip) (dmaAlign : U32) {s : Session}
    (hc : FromTable chip.variant s.ctx) (hstopped : ¬ BothStream s.queues) (acts : List DecAct) :
    Throughout (decStep dmaAlign) OpsOfSource s acts ↔
      Along (decStep dmaAlign) CompletesWithSameCodec s acts :=
  throughout_iff_along (fun _ _ _ hc hs => fromTable_step hc hs)
    (fun _ _ _ hc hp hs => opsOfSource_step hc hp hs) hc (fun hboth => absurd hboth hstopped) acts

/-! ### Two runs -/

/-- The formats of both queues are set, then both queues get buffers and start. -/
def setAndStart (out cap : U32) : List DecAct :=
  [.sFmt .output { pixelformat := out, planeFmt := fun _ => { sizeimage := 65536 } },
    .sFmt .capture { pixelformat := cap, width := 640, height := 480, numPlanes := 1 },
    .reqbufs .output 4 4, .reqbufs .capture 4 4, .streamon .output, .streamon .capture]

/-- H264 on both queues. -/
theorem ops_throughout_h264 :
    Throughout (decStep 64) OpsOfSource h264Session (setAndStart pixFmtH264 pixFmtH264) :=
  (ops_throughout_iff .rk3288 64 fromTable_h264Session (by simp [BothStream, h264Session]) _).mpr
    (by decide)

/-- H264 on OUTPUT and VP8 on CAPTURE: the stream is run by the operations of VP8. -/
theorem ops_h264_by_vp8 : ∃ s,
    run (decStep 64) h264Session (setAndStart pixFmtH264 pixFmtVp8) = some s ∧
      BothStream s.queues ∧ s.ctx.vpuSrcFmt = some rk3288VpuDecFmts[0] ∧
      s.ctx.codecOps = some rk3288VpuCodecOps[2] ∧ ¬ OpsOfSource s := by
  obtain ⟨s, hrun, hboth, hsrc, hv, hops⟩ : ∃ s,
      run (decStep 64) h264Session (setAndStart pixFmtH264 pixFmtVp8) = some s ∧
        BothStream s.queues ∧ s.ctx.vpuSrcFmt = some rk3288VpuDecFmts[0] ∧
        s.ctx.variant = rk3288VpuVariant ∧ s.ctx.codecOps = some rk3288VpuCodecOps[2] :=
    ⟨_, rfl, ⟨rfl, rfl⟩, rfl, rfl, rfl⟩
  refine ⟨s, hrun, hboth, hsrc, hops, fun h => ?_⟩
  obtain ⟨src, ops, hsrc', hat, hctx⟩ := h hboth
  obtain rfl := Option.some.inj (hsrc.symm.trans hsrc')
  rw [hv, ← hctx, hops] at hat
  exact absurd hat (by decide)

end RockchipVpu.Decoder
