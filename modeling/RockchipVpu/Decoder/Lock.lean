import RockchipVpu.Decoder.Session

/-! The two guards of the decoder's S_FMT. A queue that streams keeps its format, and a
queue keeps its pixel format while the other one has buffers. Both handlers ask CAPTURE
about buffers, which is the other queue only for S_FMT(OUTPUT): S_FMT(CAPTURE) asks its
own queue, and obeys the second rule exactly when that does not matter. -/

namespace RockchipVpu.Decoder

open Base Format Queue

/-- The format stored for a queue. -/
def stored (ctx : Ctx) (type : BufType) : PixFormatMplane := (queueFormat ctx type).2

/-- The queue streams, or its pixel format would change while the other one has buffers. -/
def Locked (q : Queues) (ctx : Ctx) (type : BufType) (f : PixFormatMplane) : Prop :=
  (q.getVq type).streaming = true ∨
    ((q.getVq type.peer).busy = true ∧ f.pixelformat ≠ (stored ctx type).pixelformat)

/-- Neither stored format nor descriptor changes. -/
structure SameFormats (ctx ctx' : Ctx) : Prop where
  srcFmt_eq : ctx'.srcFmt = ctx.srcFmt
  dstFmt_eq : ctx'.dstFmt = ctx.dstFmt
  vpuSrcFmt_eq : ctx'.vpuSrcFmt = ctx.vpuSrcFmt
  vpuDstFmt_eq : ctx'.vpuDstFmt = ctx.vpuDstFmt

/-- S_FMT on a locked queue is refused as busy and changes nothing. -/
def LockHolds (dmaAlign : U32) (q : Queues) (ctx : Ctx) (type : BufType) (f : PixFormatMplane) :
    Prop :=
  Locked q ctx type f → ∃ ctx' f',
    vidiocSFmt dmaAlign q ctx type f = some (.err .ebusy, ctx', f') ∧ SameFormats ctx ctx'

/-- It makes no difference that S_FMT(CAPTURE) asks its own queue: that one streams or
has buffers as well, or OUTPUT has none, or the pixel format stays. -/
def PeerAsked (q : Queues) (ctx : Ctx) (f : PixFormatMplane) : BufType → Prop
  | .output => True
  | .capture => q.capture.streaming = true ∨ q.capture.busy = true ∨ q.output.busy = false ∨
      f.pixelformat = ctx.dstFmt.pixelformat

/-- A step meets the condition when it is no S_FMT or an S_FMT that does. -/
def StepPeerAsked (s : Session) : DecAct → Prop
  | .sFmt type f => PeerAsked s.queues s.ctx f type
  | _ => True

/-- The step changes the pixel format of no queue whose peer has buffers. -/
def KeepsPixelformats (dmaAlign : U32) (s : Session) (act : DecAct) : Prop :=
  ∀ t, decStep dmaAlign s act = some t → ∀ type : BufType,
    (s.queues.getVq type.peer).busy = true →
      (stored t.ctx type).pixelformat = (stored s.ctx type).pixelformat

instance (q : Queues) (ctx : Ctx) (f : PixFormatMplane) :
    (type : BufType) → Decidable (PeerAsked q ctx f type)
  | .output => isTrue trivial
  | .capture => inferInstanceAs (Decidable (_ ∨ _))

instance (s : Session) : (act : DecAct) → Decidable (StepPeerAsked s act)
  | .sFmt type f => inferInstanceAs (Decidable (PeerAsked s.queues s.ctx f type))
  | .reqbufs _ _ _ | .createBufs _ _ _ | .streamon _ | .streamoff _ => isTrue trivial

/-! ### One call -/

/-- The rule for OUTPUT is the guard of its handler. -/
theorem lockHolds_output (dmaAlign : U32) (q : Queues) (ctx : Ctx) (f : PixFormatMplane) :
    LockHolds dmaAlign q ctx .output f := fun hl =>
  ⟨ctx, f, congrArg some (vidiocSFmtOut_busy hl), rfl, rfl, rfl, rfl⟩

/-- S_FMT(CAPTURE) says it is busy only when its guard holds. -/
theorem sFmtCapBusy_of_ebusy {dmaAlign : U32} {q : Queues} {ctx ctx' : Ctx}
    {f f' : PixFormatMplane}
    (h : vidiocSFmtCap dmaAlign q ctx f = some (.err .ebusy, ctx', f')) : SFmtCapBusy q ctx f := by
  cases vidiocSFmtCap_exit h with
  | busy hb => exact hb

/-- The guard of `vidioc_s_fmt_cap` is the rule exactly when the peer it asks will do. -/
theorem lockHolds_capture_iff (dmaAlign : U32) (q : Queues) (ctx : Ctx) (f : PixFormatMplane) :
    LockHolds dmaAlign q ctx .capture f ↔ PeerAsked q ctx f .capture := by
  constructor
  · intro h
    by_contra hpeer
    simp only [PeerAsked, not_or] at hpeer
    obtain ⟨hs, hb, ho, hne⟩ := hpeer
    obtain ⟨ctx', f', hset, -⟩ := h (.inr ⟨Bool.eq_true_of_not_eq_false ho, hne⟩)
    rcases sFmtCapBusy_of_ebusy hset with hs' | ⟨hb', -⟩
    · exact hs hs'
    · exact hb hb'
  · rintro hpeer hl
    refine ⟨ctx, f, vidiocSFmtCap_busy ?_, rfl, rfl, rfl, rfl⟩
    rcases hl with hs | ⟨ho, hne⟩
    · exact .inl hs
    · rcases hpeer with hs | hb | hno | heq
      · exact .inl hs
      · exact .inr ⟨hb, hne⟩
      · cases ho.symm.trans hno
      · exact absurd heq hne

theorem lockHolds_iff (dmaAlign : U32) (q : Queues) (ctx : Ctx) (type : BufType)
    (f : PixFormatMplane) : LockHolds dmaAlign q ctx type f ↔ PeerAsked q ctx f type := by
  cases type with
  | output => exact iff_of_true (lockHolds_output dmaAlign q ctx f) trivial
  | capture => exact lockHolds_capture_iff dmaAlign q ctx f

/-! ### Runs -/

/-- An S_FMT leaves the other queue's format alone, and stores for its own either nothing
or the pixel format of the request. -/
theorem sFmt_pixelformat {dmaAlign : U32} {q : Queues} {ctx ctx' : Ctx} {type : BufType} {r : Ret}
    {f f' : PixFormatMplane} (h : vidiocSFmt dmaAlign q ctx type f = some (r, ctx', f')) :
    stored ctx' type.peer = stored ctx type.peer ∧
      ((stored ctx' type).pixelformat = (stored ctx type).pixelformat ∨
        (stored ctx' type).pixelformat = f.pixelformat) := by
  cases type with
  | output =>
    cases vidiocSFmtOut_exit (Option.some.inj h) with
    | busy => exact ⟨rfl, .inl rfl⟩
    | refused => exact ⟨rfl, .inl rfl⟩
    | stored => exact ⟨rfl, .inr rfl⟩
  | capture =>
    cases vidiocSFmtCap_exit h with
    | busy => exact ⟨rfl, .inl rfl⟩
    | refused => exact ⟨rfl, .inl rfl⟩
    | stored => exact ⟨rfl, .inr (captureSizes_pixelformat _ _)⟩

theorem keepsPixelformats_step {dmaAlign : U32} {s : Session} {act : DecAct}
    (hpeer : StepPeerAsked s act) : KeepsPixelformats dmaAlign s act := by
  intro t h type hbusy
  cases decStep_exit h with
  | @format type' f f' r ctx' hs =>
    obtain ⟨hother, hown⟩ := sFmt_pixelformat hs
    by_cases htype : type = type'
    · subst htype
      by_cases hsame : f.pixelformat = (stored s.ctx type).pixelformat
      · rcases hown with hown | hown
        · exact hown
        · exact hown.trans hsame
      · obtain ⟨c, g, hrefused, hfmt⟩ :=
          (lockHolds_iff dmaAlign s.queues s.ctx type f).mpr hpeer (.inr ⟨hbusy, hsame⟩)
        have hc : ctx' = c := by
          simpa using congrArg (Option.map (·.2.1)) (hs.symm.trans hrefused)
        cases type with
        | output => exact congrArg _ (hc ▸ hfmt.srcFmt_eq)
        | capture => exact congrArg _ (hc ▸ hfmt.dstFmt_eq)
    · have hpeer' : type = type'.peer := by
        cases type <;> cases type' <;> simp_all [BufType.peer]
      rw [hpeer']
      exact congrArg _ hother
  | queues => rfl
  | start hstopped hst =>
    obtain ⟨dst, -, rfl⟩ := startStreaming_some hst
    cases type <;> rfl

/-- A call obeys the rule exactly when it does not matter whose buffers S_FMT(CAPTURE)
asks about; and in a run all of whose calls are such, no queue's pixel format ever changes
while the other queue has buffers. -/
theorem locks_hold_iff (dmaAlign : U32) :
    (∀ q ctx type f, LockHolds dmaAlign q ctx type f ↔ PeerAsked q ctx f type) ∧
      ∀ s acts, Along (decStep dmaAlign) StepPeerAsked s acts →
        Along (decStep dmaAlign) (KeepsPixelformats dmaAlign) s acts :=
  ⟨lockHolds_iff dmaAlign, fun _ _ h => h.mono fun _ _ => keepsPixelformats_step⟩

/-- Formats first, buffers then, and a last S_FMT that changes the size only. -/
theorem locks_hold_iff_resize : Along (decStep 64) (KeepsPixelformats 64) h264Session
    [.sFmt .capture { pixelformat := pixFmtVp8, numPlanes := 1 }, .reqbufs .output 2 2,
      .sFmt .capture { pixelformat := pixFmtVp8, width := 640, height := 480, numPlanes := 1 }] :=
  (locks_hold_iff 64).2 _ _ (by decide)

/-- OUTPUT has buffers and CAPTURE has none: S_FMT(CAPTURE) changes H264 to VP8. -/
theorem locks_output_buffers : ∃ s t,
    run (decStep 64) h264Session [.sFmt .capture { pixelformat := pixFmtH264, numPlanes := 1 },
        .reqbufs .output 2 2] = some s ∧
      s.queues.output.busy = true ∧
      ¬ LockHolds 64 s.queues s.ctx .capture { pixelformat := pixFmtVp8, numPlanes := 1 } ∧
      decStep 64 s (.sFmt .capture { pixelformat := pixFmtVp8, numPlanes := 1 }) = some t ∧
      s.ctx.dstFmt.pixelformat = pixFmtH264 ∧ t.ctx.dstFmt.pixelformat = pixFmtVp8 := by
  refine ⟨_, _, rfl, rfl, ?_, rfl, rfl, rfl⟩
  rw [lockHolds_iff]
  decide

end RockchipVpu.Decoder
