import RockchipVpu.Base.Simulation
import RockchipVpu.Format.Consistent

/-! What the formats of a context remember. A request on CAPTURE that is accepted overrides all
that was negotiated before, because the source format is reset, and one on OUTPUT overrides the
last one on OUTPUT. So the formats are those of a freshly opened node that makes at most two of
the requests again, whatever else was tried, refused or streamed in between. -/

namespace RockchipVpu.Format

open Base

/-! ### Requests in force -/

abbrev Request := BufType × PixFormatMplane

/-- The request of a call that S_FMT accepts. -/
def accepted (dmaAlign : U32) (ctx : Ctx) : FmtAct → List Request
  | .sFmtOut q f =>
    if (vidiocSFmtOut dmaAlign q ctx f).map (·.1) = some .ok then [(.output, f)] else []
  | .sFmtCap q f => if (vidiocSFmtCap q ctx f).map (·.1) = some .ok then [(.capture, f)] else []
  | .tryFmtOut _ | .tryFmtCap _ | .streamon _ | .streamoff _ => []

/-- The last request on CAPTURE, and the last one on OUTPUT after it. -/
structure Settings where
  capture : Option PixFormatMplane := none
  output : Option PixFormatMplane := none

def Settings.set (s : Settings) : Request → Settings
  | (.capture, f) => { capture := some f }
  | (.output, f) => { s with output := some f }

/-- The requests in force after these have been accepted. -/
def inForce (requests : List Request) : Settings := requests.foldl Settings.set {}

def idleQueues : Queues := ⟨⟨false, false⟩, ⟨false, false⟩⟩

/-- The requests in force, made once more. -/
def Settings.acts (s : Settings) : List FmtAct :=
  s.capture.toList.map (.sFmtCap idleQueues) ++ s.output.toList.map (.sFmtOut idleQueues)

/-! ### The same formats -/

structure SameFormats (ctx ctx' : Ctx) : Prop where
  vpuSrcFmt : ctx'.vpuSrcFmt = ctx.vpuSrcFmt
  srcFmt : ctx'.srcFmt = ctx.srcFmt
  vpuDstFmt : ctx'.vpuDstFmt = ctx.vpuDstFmt
  dstFmt : ctx'.dstFmt = ctx.dstFmt

theorem SameFormats.trans {a b c : Ctx} (h : SameFormats a b) (h' : SameFormats b c) :
    SameFormats a c :=
  ⟨h'.vpuSrcFmt.trans h.vpuSrcFmt, h'.srcFmt.trans h.srcFmt, h'.vpuDstFmt.trans h.vpuDstFmt,
    h'.dstFmt.trans h.dstFmt⟩

section Requests

variable {chip : Chip} {A : DmaAlign} {ctx ctx' c : Ctx} {f f' : PixFormatMplane} {q : Queues}

/-- TRY_FMT(OUTPUT) reads the variant and the descriptor of CAPTURE. -/
theorem vidiocTryFmtOut_congr (dmaAlign : U32) (hv : c.variant = ctx.variant)
    (hd : c.vpuDstFmt = ctx.vpuDstFmt) (f : PixFormatMplane) :
    vidiocTryFmtOut dmaAlign c f = vidiocTryFmtOut dmaAlign ctx f := by
  simp only [vidiocTryFmtOut, hv, hd]

theorem vidiocTryFmtCap_congr (hv : c.variant = ctx.variant) (f : PixFormatMplane) :
    vidiocTryFmtCap c f = vidiocTryFmtCap ctx f := by
  simp only [vidiocTryFmtCap, hv]

/-- The context after an accepted request on OUTPUT. -/
def Ctx.storeOut (ctx : Ctx) (f f' : PixFormatMplane) : Ctx :=
  { ctx with
    colorimetry := f.colorimetry
    vpuSrcFmt := findFormat ctx.variant f'.pixelformat
    srcFmt := f' }

/-- Idle queues accept what TRY_FMT accepts. -/
theorem sFmtOut_idle (ht : vidiocTryFmtOut A.val ctx f = some (.ok, f')) :
    fmtStep A.val ctx (.sFmtOut idleQueues f) = some (ctx.storeOut f f') := by
  have ht' : vidiocTryFmtOut A.val { ctx with colorimetry := f.colorimetry } f = some (.ok, f') :=
    ht
  simp only [fmtStep, vidiocSFmtOut, idleQueues, ht', Bool.false_eq_true, ↓reduceIte,
    Bool.false_and, Option.map_some]
  rfl

/-- The context after an accepted request on CAPTURE. -/
def Ctx.storeCap (chip : Chip) (ctx : Ctx) (f f' : PixFormatMplane) : Ctx :=
  { ctx with
    colorimetry := f.colorimetry
    vpuSrcFmt := some chip.defaultRaw
    srcFmt := resetSrcFmt chip.defaultRaw (chosenFmt chip true f.pixelformat) f.colorimetry
    vpuDstFmt := some (chosenFmt chip true f.pixelformat)
    dstFmt := f' }

theorem sFmtCap_idle (hv : ctx.variant = chip.variant)
    (ht : vidiocTryFmtCap ctx f = some (.ok, f')) :
    fmtStep A.val ctx (.sFmtCap idleQueues f) = some (ctx.storeCap chip f f') := by
  have ht' : vidiocTryFmtCap { ctx with colorimetry := f.colorimetry } f = some (.ok, f') := ht
  have hfind : findFormat ctx.variant f'.pixelformat =
      some (chosenFmt chip true f.pixelformat) := by
    rw [hv, (dstMatches_tryFmtCap hv ht).pixelformat_eq, findFormat_chosenFmt]
  simp only [fmtStep, vidiocSFmtCap, idleQueues, ht', hfind, Bool.false_eq_true, ↓reduceIte,
    Bool.false_and]
  rw [encResetSrcFmt_eq (by exact hv) rfl]
  rfl

/-- A call is accepted and stores what TRY_FMT answers, or leaves the formats as they are. -/
inductive FormatsExit (chip : Chip) (A : DmaAlign) (ctx ctx' : Ctx) : List Request → Prop
  | kept (h : SameFormats ctx ctx') : FormatsExit chip A ctx ctx' []
  | output {f f' : PixFormatMplane} (ht : vidiocTryFmtOut A.val ctx f = some (.ok, f'))
      (h : ctx' = ctx.storeOut f f') : FormatsExit chip A ctx ctx' [(.output, f)]
  | capture {f f' : PixFormatMplane} (ht : vidiocTryFmtCap ctx f = some (.ok, f'))
      (h : ctx' = ctx.storeCap chip f f') : FormatsExit chip A ctx ctx' [(.capture, f)]

theorem fmtStep_formatsExit (hc : Consistent chip.variant ctx) {act : FmtAct}
    (hs : fmtStep A.val ctx act = some ctx') :
    FormatsExit chip A ctx ctx' (accepted A.val ctx act) := by
  cases act with
  | tryFmtOut f =>
    obtain ⟨r, -, rfl⟩ := Option.map_eq_some_iff.mp hs
    exact .kept ⟨rfl, rfl, rfl, rfl⟩
  | tryFmtCap f =>
    obtain ⟨r, -, rfl⟩ := Option.map_eq_some_iff.mp hs
    exact .kept ⟨rfl, rfl, rfl, rfl⟩
  | sFmtOut q f =>
    obtain ⟨⟨r, c, g⟩, hset, rfl⟩ := Option.map_eq_some_iff.mp hs
    simp only [accepted, hset, Option.map_some, Option.some.injEq]
    cases vidiocSFmtOut_exit hset with
    | streaming => exact .kept ⟨rfl, rfl, rfl, rfl⟩
    | peerBusy => exact .kept ⟨rfl, rfl, rfl, rfl⟩
    | refused => exact .kept ⟨rfl, rfl, rfl, rfl⟩
    | stored hq ht => exact .output ht rfl
  | sFmtCap q f =>
    obtain ⟨⟨r, c, g⟩, hset, rfl⟩ := Option.map_eq_some_iff.mp hs
    simp only [accepted, hset, Option.map_some, Option.some.injEq]
    cases vidiocSFmtCap_exit hset with
    | streaming => exact .kept ⟨rfl, rfl, rfl, rfl⟩
    | peerBusy => exact .kept ⟨rfl, rfl, rfl, rfl⟩
    | stored hq ht hr => exact .capture ht (sFmtCap_stored hc.variant_eq ht hr)
  | streamon type =>
    obtain ⟨dst, -, rfl⟩ := startStreaming_some hs
    exact .kept ⟨rfl, rfl, rfl, rfl⟩
  | streamoff type =>
    obtain rfl := Option.some.inj hs
    exact .kept ⟨rfl, rfl, rfl, rfl⟩

end Requests

/-! ### Runs -/

section Runs

variable {chip : Chip} {A : DmaAlign}

/-- The requests in force lead a freshly opened node to the formats of the context. -/
structure Replays (chip : Chip) (A : DmaAlign) (ctx : Ctx) (s : Settings) : Prop where
  consistent : Consistent chip.variant ctx
  fresh : ∃ c, run (fmtStep A.val) (opened chip) s.acts = some c ∧ SameFormats c ctx

theorem replays_opened (chip : Chip) (A : DmaAlign) : Replays chip A (opened chip) {} where
  consistent := consistent_opened chip
  fresh := ⟨_, rfl, rfl, rfl, rfl, rfl⟩

/-- A request on OUTPUT leaves the descriptor of CAPTURE and its format. -/
theorem sFmtOut_keeps {ctx ctx' : Ctx} {q : Queues} {f : PixFormatMplane}
    (hs : fmtStep A.val ctx (.sFmtOut q f) = some ctx') :
    ctx'.vpuDstFmt = ctx.vpuDstFmt ∧ ctx'.dstFmt = ctx.dstFmt := by
  obtain ⟨⟨r, c, g⟩, hset, rfl⟩ := Option.map_eq_some_iff.mp hs
  cases vidiocSFmtOut_exit hset <;> exact ⟨rfl, rfl⟩

/-- The node after the request on CAPTURE alone. -/
theorem Replays.capture {ctx : Ctx} {s : Settings} (h : Replays chip A ctx s) : ∃ c,
    run (fmtStep A.val) (opened chip) (s.capture.toList.map (.sFmtCap idleQueues)) = some c ∧
      c.variant = ctx.variant ∧ c.vpuDstFmt = ctx.vpuDstFmt ∧ c.dstFmt = ctx.dstFmt := by
  obtain ⟨fresh, hrun, hsame⟩ := h.fresh
  rw [Settings.acts, run_append] at hrun
  obtain ⟨c, hc, hrest⟩ := Option.bind_eq_some_iff.mp hrun
  have hcons : Consistent chip.variant c := (reach_of_run_any hc).invariant (consistent_opened chip)
    fun _ _ _ hi _ hs => consistent_step hi hs
  refine ⟨c, hc, hcons.variant_eq.trans h.consistent.variant_eq.symm, ?_⟩
  cases hout : s.output with
  | none =>
    rw [hout] at hrest
    obtain rfl : c = fresh := Option.some.inj hrest
    exact ⟨hsame.vpuDstFmt.symm, hsame.dstFmt.symm⟩
  | some f =>
    rw [hout, Option.toList_some, List.map_singleton, run_singleton] at hrest
    obtain ⟨hdst, hfmt⟩ := sFmtOut_keeps hrest
    exact ⟨hdst.symm.trans hsame.vpuDstFmt.symm, hfmt.symm.trans hsame.dstFmt.symm⟩

/-- An accepted request takes the place of those that it overrides. -/
theorem Replays.step {ctx ctx' : Ctx} {s : Settings} {requests : List Request}
    (h : Replays chip A ctx s) (hc : Consistent chip.variant ctx')
    (he : FormatsExit chip A ctx ctx' requests) :
    Replays chip A ctx' (requests.foldl Settings.set s) := by
  refine ⟨hc, ?_⟩
  cases he with
  | kept hsame =>
    obtain ⟨c, hrun, hc⟩ := h.fresh
    exact ⟨c, hrun, hc.trans hsame⟩
  | @output f f' ht hctx =>
    obtain ⟨c, hrun, hv, hd, hfmt⟩ := h.capture
    rw [← vidiocTryFmtOut_congr A.val hv hd] at ht
    refine ⟨c.storeOut f f', ?_, ?_⟩
    · simp only [List.foldl_cons, List.foldl_nil, Settings.set, Settings.acts, Option.toList_some,
        List.map_singleton]
      rw [run_append, hrun, Option.bind_some, run_singleton]
      exact sFmtOut_idle ht
    · rw [hctx]
      exact ⟨by rw [Ctx.storeOut, Ctx.storeOut, hv], rfl, hd.symm, hfmt.symm⟩
  | @capture f f' ht hctx =>
    have hv : (opened chip).variant = ctx.variant :=
      (consistent_opened chip).variant_eq.trans h.consistent.variant_eq.symm
    rw [← vidiocTryFmtCap_congr hv] at ht
    refine ⟨(opened chip).storeCap chip f f', ?_, ?_⟩
    · simp only [List.foldl_cons, List.foldl_nil, Settings.set, Settings.acts, Option.toList_some,
        Option.toList_none, List.map_singleton, List.map_nil, List.append_nil]
      rw [run_singleton]
      exact sFmtCap_idle (consistent_opened chip).variant_eq ht
    · rw [hctx]
      exact ⟨rfl, rfl, rfl, rfl⟩

def Settings.step (s : Settings) (r : Request) : Option Settings := some (s.set r)

theorem run_settings (s : Settings) (requests : List Request) :
    run Settings.step s requests = some (requests.foldl Settings.set s) := by
  induction requests generalizing s with
  | nil => rfl
  | cons r requests ih => exact ih (s.set r)

/-- Negotiation refines the settings in force. -/
theorem negotiation_simulates (chip : Chip) (A : DmaAlign) :
    Simulates (fmtStep A.val) AnyStep Settings.step (accepted A.val) (Replays chip A) where
  answered h _ hs := ⟨_, run_settings _ _, h.step (consistent_step h.consistent hs)
    (fmtStep_formatsExit h.consistent hs)⟩

/-- After any run of format calls and stream starts and stops, with any queue states, the formats
of the context are those of a freshly opened node on which the last accepted request on CAPTURE
has been made, and then the last accepted one on OUTPUT since. -/
theorem formats_replay (chip : Chip) (A : DmaAlign) {ctx : Ctx} {as : List FmtAct}
    (hr : run (fmtStep A.val) (opened chip) as = some ctx) : ∃ fresh,
      run (fmtStep A.val) (opened chip)
          (inForce (answers (fmtStep A.val) (accepted A.val) (opened chip) as)).acts = some fresh ∧
        SameFormats fresh ctx := by
  obtain ⟨s, hs, hreplays⟩ := (negotiation_simulates chip A).run (replays_opened chip A)
    (along_any _ as) hr
  rw [run_settings] at hs
  obtain rfl := Option.some.inj hs
  exact hreplays.fresh

end Runs

/-- A source format is set, the destination is set again, a source format is refused while
buffers of CAPTURE exist, and one more is set. -/
def renegotiation : List FmtAct := [
  .sFmtOut idleQueues { width := 1920, height := 1080, pixelformat := pixFmtNv12m },
  .sFmtCap idleQueues { width := 640, height := 480, pixelformat := pixFmtJpegRaw },
  .sFmtOut ⟨⟨false, false⟩, ⟨false, true⟩⟩
    { width := 640, height := 480, pixelformat := pixFmtYuyv },
  .sFmtOut idleQueues { width := 640, height := 480, pixelformat := pixFmtUyvy },
  .streamon .output]

theorem formats_replay_renegotiation : ∃ ctx fresh,
    run (fmtStep (DmaAlign.mk 6 (by decide)).val) (opened .rk3399) renegotiation = some ctx ∧
      run (fmtStep (DmaAlign.mk 6 (by decide)).val) (opened .rk3399)
        (inForce (answers (fmtStep (DmaAlign.mk 6 (by decide)).val)
          (accepted (DmaAlign.mk 6 (by decide)).val) (opened .rk3399) renegotiation)).acts =
            some fresh ∧ SameFormats fresh ctx := by
  have hsome : (run (fmtStep (DmaAlign.mk 6 (by decide)).val) (opened .rk3399)
      renegotiation).isSome := by decide +kernel
  obtain ⟨ctx, hctx⟩ := Option.isSome_iff_exists.mp hsome
  obtain ⟨fresh, hfresh, hsame⟩ := formats_replay .rk3399 ⟨6, by decide⟩ hctx
  exact ⟨ctx, fresh, hctx, hfresh, hsame⟩

end RockchipVpu.Format
