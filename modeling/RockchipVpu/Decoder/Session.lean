import RockchipVpu.Base.Transition
import RockchipVpu.Decoder.Ioctls
import RockchipVpu.Format.Consistent

/-! One decoder context as a transition system: S_FMT, the allocation of buffers and the
stream calls, on either queue and in any order. Beside it what each format ioctl can do,
and what every call keeps: the descriptors are entries of the decoder's table. -/

namespace RockchipVpu.Decoder

open Base Format Queue

/-! ### Lookup -/

theorem findFormat_some {v : Variant} {fourcc : U32} {fmt : Fmt}
    (h : findFormat v fourcc = some fmt) : fmt ∈ v.decFmts ∧ fmt.fourcc = fourcc :=
  ⟨List.mem_of_find?_eq_some h, by simpa using List.find?_some h⟩

/-! ### What TRY_FMT and S_FMT can do -/

/-- One plane of the loop in `vidioc_s_fmt_cap`. -/
def capturePlane (fmt : Fmt) (width height : U32) (i : Plane) (plane : PlanePixFormat) :
    PlanePixFormat :=
  let bytesperline := mbCount width * mbDim * fmt.depthAt i / 8
  { plane with
    bytesperline := bytesperline
    sizeimage := (bytesperline * mbCount height * mbDim) >>> (if i = 0 then 0 else 1) }

theorem captureSizes_eq (fmt : Fmt) (pixMp : PixFormatMplane) : captureSizes fmt pixMp =
    { pixMp with
      planeFmt := fun i =>
        if i.val < fmt.numPlanes then
          capturePlane fmt pixMp.width pixMp.height i (pixMp.planeFmt i)
        else pixMp.planeFmt i } :=
  foldl_planesOf fmt.numPlanes (capturePlane fmt pixMp.width pixMp.height) pixMp

@[simp] theorem captureSizes_pixelformat (fmt : Fmt) (pixMp : PixFormatMplane) :
    (captureSizes fmt pixMp).pixelformat = pixMp.pixelformat := by
  rw [captureSizes_eq]

@[simp] theorem fitCap_pixelformat (dmaAlign : U32) (fmt : Fmt) (limits : FrmsizeStepwise)
    (f : PixFormatMplane) : (fitCap dmaAlign fmt limits f).pixelformat = f.pixelformat := rfl

/-- The exits of `vidioc_try_fmt_cap` that follow no null pointer. -/
inductive TryFmtCapExit (dmaAlign : U32) (ctx : Ctx) (f : PixFormatMplane) :
    Ret → PixFormatMplane → Prop
  | unknown (h : findFormat ctx.variant f.pixelformat = none) :
      TryFmtCapExit dmaAlign ctx f (.err .einval) f
  | planes {fmt : Fmt} (hfind : findFormat ctx.variant f.pixelformat = some fmt)
      (hn : fmt.numPlanes ≠ f.numPlanes) : TryFmtCapExit dmaAlign ctx f (.err .einval) f
  | fitted {fmt dst : Fmt} (hfind : findFormat ctx.variant f.pixelformat = some fmt)
      (hn : fmt.numPlanes = f.numPlanes) (hdst : ctx.vpuDstFmt = some dst) :
      TryFmtCapExit dmaAlign ctx f .ok (fitCap dmaAlign fmt dst.frmsize f)

/-- S_FMT(CAPTURE) is refused because a guard on its own queue holds. The guards of
S_FMT(OUTPUT) are those of the encoder. -/
def SFmtCapBusy (q : Queues) (ctx : Ctx) (f : PixFormatMplane) : Prop :=
  q.capture.streaming = true ∨
    (q.capture.busy = true ∧ f.pixelformat ≠ ctx.dstFmt.pixelformat)

/-- The exits of `vidioc_s_fmt_out`, each with the context it leaves behind. -/
inductive SFmtOutExit (q : Queues) (ctx : Ctx) (f : PixFormatMplane) :
    Ret → Ctx → PixFormatMplane → Prop
  | busy (h : SFmtOutBusy q ctx f) : SFmtOutExit q ctx f (.err .ebusy) ctx f
  | refused (hq : ¬ SFmtOutBusy q ctx f) : SFmtOutExit q ctx f (.err .einval) ctx f
  | stored {fmt : Fmt} (hq : ¬ SFmtOutBusy q ctx f)
      (hfind : findFormat ctx.variant f.pixelformat = some fmt) :
      SFmtOutExit q ctx f .ok { ctx with vpuSrcFmt := some fmt, srcFmt := clearLine f }
        (clearLine f)

/-- The exits of `vidioc_s_fmt_cap` that follow no null pointer. -/
inductive SFmtCapExit (dmaAlign : U32) (q : Queues) (ctx : Ctx) (f : PixFormatMplane) :
    Ret → Ctx → PixFormatMplane → Prop
  | busy (h : SFmtCapBusy q ctx f) : SFmtCapExit dmaAlign q ctx f (.err .ebusy) ctx f
  | refused (hq : ¬ SFmtCapBusy q ctx f)
      (ht : vidiocTryFmtCap dmaAlign ctx f = some (.err .einval, f)) :
      SFmtCapExit dmaAlign q ctx f (.err .einval) ctx f
  | stored {fmt dst : Fmt} (hq : ¬ SFmtCapBusy q ctx f)
      (hfind : findFormat ctx.variant f.pixelformat = some fmt)
      (hn : fmt.numPlanes = f.numPlanes) (hdst : ctx.vpuDstFmt = some dst) :
      SFmtCapExit dmaAlign q ctx f .ok
        { ctx with
          vpuDstFmt := some fmt
          dstFmt := captureSizes fmt (fitCap dmaAlign fmt dst.frmsize f) }
        (captureSizes fmt (fitCap dmaAlign fmt dst.frmsize f))

section Exits
variable {dmaAlign : U32} {q : Queues} {ctx ctx' : Ctx} {f f' : PixFormatMplane} {r : Ret}

theorem vidiocTryFmtCap_exit (h : vidiocTryFmtCap dmaAlign ctx f = some (r, f')) :
    TryFmtCapExit dmaAlign ctx f r f' := by
  unfold vidiocTryFmtCap at h
  split at h
  · next hfind =>
    obtain ⟨rfl, rfl⟩ := Prod.mk.inj (Option.some.inj h)
    exact .unknown hfind
  · next fmt hfind =>
    split_ifs at h with hn
    · obtain ⟨rfl, rfl⟩ := Prod.mk.inj (Option.some.inj h)
      exact .planes hfind hn
    · obtain ⟨dst, hdst, h⟩ := Option.map_eq_some_iff.mp h
      obtain ⟨rfl, rfl⟩ := Prod.mk.inj h
      exact .fitted hfind (not_not.mp hn) hdst

theorem vidiocTryFmtCap_err {e : Errno} (h : vidiocTryFmtCap dmaAlign ctx f = some (.err e, f')) :
    e = .einval ∧ f' = f := by
  cases vidiocTryFmtCap_exit h with
  | unknown => exact ⟨rfl, rfl⟩
  | planes => exact ⟨rfl, rfl⟩

theorem vidiocSFmtOut_exit (h : vidiocSFmtOut q ctx f = (r, ctx', f')) :
    SFmtOutExit q ctx f r ctx' f' := by
  unfold vidiocSFmtOut at h
  split_ifs at h with hs hb
  · obtain ⟨rfl, rfl, rfl⟩ := by simpa only [Prod.mk.injEq] using h
    exact .busy (.inl hs)
  · obtain ⟨rfl, rfl, rfl⟩ := by simpa only [Prod.mk.injEq] using h
    exact .busy (busy_iff.mpr (.inr hb))
  · have hq : ¬ SFmtOutBusy q ctx f := fun hq => (busy_iff.mp hq).elim hs hb
    unfold vidiocTryFmtOut at h
    cases hfind : findFormat ctx.variant f.pixelformat with
    | none =>
      simp only [hfind, Prod.mk.injEq] at h
      obtain ⟨rfl, rfl, rfl⟩ := h
      exact .refused hq
    | some fmt =>
      simp only [hfind] at h
      split_ifs at h
      · simp only [Prod.mk.injEq] at h
        obtain ⟨rfl, rfl, rfl⟩ := h
        exact .refused hq
      · have hsame : findFormat ctx.variant (clearLine f).pixelformat = some fmt := hfind
        simp only [hsame, Prod.mk.injEq] at h
        obtain ⟨rfl, rfl, rfl⟩ := h
        exact .stored hq hfind

theorem vidiocSFmtCap_exit (h : vidiocSFmtCap dmaAlign q ctx f = some (r, ctx', f')) :
    SFmtCapExit dmaAlign q ctx f r ctx' f' := by
  unfold vidiocSFmtCap at h
  split_ifs at h with hs hb
  · obtain ⟨rfl, rfl, rfl⟩ := by simpa only [Option.some.injEq, Prod.mk.injEq] using h
    exact .busy (.inl hs)
  · obtain ⟨rfl, rfl, rfl⟩ := by simpa only [Option.some.injEq, Prod.mk.injEq] using h
    exact .busy (busy_iff.mpr (.inr hb))
  · have hq : ¬ SFmtCapBusy q ctx f := fun hq => (busy_iff.mp hq).elim hs hb
    split at h
    · cases h
    · next e p ht =>
      simp only [Option.some.injEq, Prod.mk.injEq] at h
      obtain ⟨rfl, rfl, rfl⟩ := h
      obtain ⟨rfl, rfl⟩ := vidiocTryFmtCap_err ht
      exact .refused hq ht
    · next p ht =>
      cases vidiocTryFmtCap_exit ht with
      | fitted hfind hn hdst =>
        simp only [fitCap_pixelformat, hfind, Option.bind_eq_bind, Option.bind_some,
          Option.pure_def, Option.some.injEq, Prod.mk.injEq] at h
        obtain ⟨rfl, rfl, rfl⟩ := h
        exact .stored hq hfind hn hdst

theorem vidiocSFmtOut_busy (h : SFmtOutBusy q ctx f) :
    vidiocSFmtOut q ctx f = (.err .ebusy, ctx, f) := by
  unfold vidiocSFmtOut
  split_ifs with hs hb
  · rfl
  · rfl
  · exact ((busy_iff.mp h).elim hs hb).elim

theorem vidiocSFmtCap_busy (h : SFmtCapBusy q ctx f) :
    vidiocSFmtCap dmaAlign q ctx f = some (.err .ebusy, ctx, f) := by
  unfold vidiocSFmtCap
  split_ifs with hs hb
  · rfl
  · rfl
  · exact ((busy_iff.mp h).elim hs hb).elim

/-- Behind its guards S_FMT(CAPTURE) returns TRY_FMT's error. -/
theorem vidiocSFmtCap_err {e : Errno} (hq : ¬ SFmtCapBusy q ctx f)
    (ht : vidiocTryFmtCap dmaAlign ctx f = some (.err e, f')) :
    vidiocSFmtCap dmaAlign q ctx f = some (.err e, ctx, f') := by
  rw [SFmtCapBusy, busy_iff, not_or] at hq
  rw [vidiocSFmtCap, if_neg hq.1, if_neg hq.2, ht]

/-- Behind its guards S_FMT(CAPTURE) stores what its loop makes of TRY_FMT's answer. -/
theorem vidiocSFmtCap_ok {fmt : Fmt} (hq : ¬ SFmtCapBusy q ctx f)
    (ht : vidiocTryFmtCap dmaAlign ctx f = some (.ok, f'))
    (hfind : findFormat ctx.variant f'.pixelformat = some fmt) :
    vidiocSFmtCap dmaAlign q ctx f =
      some (.ok, { ctx with vpuDstFmt := some fmt, dstFmt := captureSizes fmt f' },
        captureSizes fmt f') := by
  rw [SFmtCapBusy, busy_iff, not_or] at hq
  rw [vidiocSFmtCap, if_neg hq.1, if_neg hq.2, ht]
  simp [hfind]

end Exits

/-! ### The transition system -/

structure Session where
  ctx : Ctx
  queues : Queues
  deriving DecidableEq

def setQueue (q : Queues) (type : BufType) (s : QueueState) : Queues :=
  match type with
  | .output => { q with output := s }
  | .capture => { q with capture := s }

/-- The calls on a decoder node. Those that allocate carry the number of buffers that
there is memory for. -/
inductive DecAct
  | sFmt (type : BufType) (f : PixFormatMplane)
  | reqbufs (type : BufType) (count available : ℕ)
  | createBufs (type : BufType) (count available : ℕ)
  | streamon (type : BufType)
  | streamoff (type : BufType)

/-- Whether the queue gets any of the buffers that `queue_setup` agrees to. -/
def allocates (ctx : Ctx) (type : BufType) (count available : ℕ) : Option Bool :=
  (queueSetup ctx type count fun _ => 0).map fun (n, _, _) => 0 < min n available

/-- REQBUFS: refused while the queue streams, else all buffers are replaced. -/
def reqbufs (s : Session) (type : BufType) (count available : ℕ) : Option Session :=
  let vq := s.queues.getVq type
  if vq.streaming then some s
  else if count = 0 then
    some { s with queues := setQueue s.queues type { vq with busy := false } }
  else do
    let busy ← allocates s.ctx type count available
    return { s with queues := setQueue s.queues type { vq with busy := busy } }

/-- CREATE_BUFS: further buffers. -/
def createBufs (s : Session) (type : BufType) (count available : ℕ) : Option Session := do
  let vq := s.queues.getVq type
  let busy ← allocates s.ctx type count available
  return { s with queues := setQueue s.queues type { vq with busy := vq.busy || busy } }

/-- STREAMON starts a queue that has buffers and does not stream yet. -/
def streamon (s : Session) (type : BufType) : Option Session :=
  let vq := s.queues.getVq type
  if vq.streaming || !vq.busy then some s
  else do
    let ctx ← startStreaming type s.ctx
    return { ctx := ctx, queues := setQueue s.queues type { vq with streaming := true } }

def streamoff (s : Session) (type : BufType) : Session :=
  { s with queues := setQueue s.queues type { s.queues.getVq type with streaming := false } }

def decStep (dmaAlign : U32) (s : Session) : DecAct → Option Session
  | .sFmt type f => (vidiocSFmt dmaAlign s.queues s.ctx type f).map fun r =>
      { s with ctx := r.2.1 }
  | .reqbufs type count available => reqbufs s type count available
  | .createBufs type count available => createBufs s type count available
  | .streamon type => streamon s type
  | .streamoff type => some (streamoff s type)

/-- What a step can do: an S_FMT changes the context and no queue, a stream start both,
and every other step at most the queues, none of which begins to stream. -/
inductive DecExit (dmaAlign : U32) (s : Session) : DecAct → Session → Prop
  | format {type : BufType} {f f' : PixFormatMplane} {r : Ret} {ctx' : Ctx}
      (h : vidiocSFmt dmaAlign s.queues s.ctx type f = some (r, ctx', f')) :
      DecExit dmaAlign s (.sFmt type f) { s with ctx := ctx' }
  | queues {act : DecAct} {q : Queues} (hact : ∀ type f, act ≠ .sFmt type f)
      (h : ∀ type, (q.getVq type).streaming = true → (s.queues.getVq type).streaming = true) :
      DecExit dmaAlign s act { s with queues := q }
  | start {type : BufType} {ctx' : Ctx} (hbusy : (s.queues.getVq type).busy = true)
      (h : startStreaming type s.ctx = some ctx') :
      DecExit dmaAlign s (.streamon type)
        ⟨ctx', setQueue s.queues type { s.queues.getVq type with streaming := true }⟩

theorem getVq_setQueue (q : Queues) (type type' : BufType) (s : QueueState) :
    (setQueue q type s).getVq type' = if type' = type then s else q.getVq type' := by
  cases type <;> cases type' <;> rfl

/-- A queue that takes a new state without starting. -/
theorem setQueue_streaming {q : Queues} {type : BufType} {s : QueueState}
    (hs : s.streaming = true → (q.getVq type).streaming = true) (type' : BufType)
    (h : ((setQueue q type s).getVq type').streaming = true) :
    (q.getVq type').streaming = true := by
  rw [getVq_setQueue] at h
  split_ifs at h with heq
  · subst heq
    exact hs h
  · exact h

section Step
variable {dmaAlign : U32} {s t : Session}

/-- STREAMON does nothing on a queue that streams or has no buffers. -/
theorem streamon_exit {type : BufType} (h : streamon s type = some t) :
    (((s.queues.getVq type).streaming = true ∨ (s.queues.getVq type).busy = false) ∧ t = s) ∨
      ((s.queues.getVq type).streaming = false ∧ (s.queues.getVq type).busy = true ∧
        ∃ ctx', startStreaming type s.ctx = some ctx' ∧
        t = ⟨ctx', setQueue s.queues type { s.queues.getVq type with streaming := true }⟩) := by
  simp only [streamon] at h
  split_ifs at h with hg
  · left
    obtain rfl := Option.some.inj h
    exact ⟨by simpa using hg, rfl⟩
  · right
    obtain ⟨ctx', hc, h⟩ := Option.bind_eq_some_iff.mp h
    obtain rfl := Option.some.inj h
    simp only [Bool.or_eq_true, Bool.not_eq_true', not_or] at hg
    exact ⟨by simpa using hg.1, by simpa using hg.2, ctx', hc, rfl⟩

theorem decStep_exit {act : DecAct} (h : decStep dmaAlign s act = some t) :
    DecExit dmaAlign s act t := by
  cases act with
  | sFmt type f =>
    obtain ⟨⟨r, ctx', f'⟩, hs, rfl⟩ := Option.map_eq_some_iff.mp h
    exact .format hs
  | reqbufs type count available =>
    simp only [decStep, reqbufs] at h
    split_ifs at h with hs hz
    · obtain rfl := Option.some.inj h
      exact .queues (by simp) fun _ h => h
    · obtain rfl := Option.some.inj h
      exact .queues (by simp) (setQueue_streaming id)
    · obtain ⟨busy, -, h⟩ := Option.bind_eq_some_iff.mp h
      obtain rfl := Option.some.inj h
      exact .queues (by simp) (setQueue_streaming id)
  | createBufs type count available =>
    obtain ⟨busy, -, h⟩ := Option.bind_eq_some_iff.mp h
    obtain rfl := Option.some.inj h
    exact .queues (by simp) (setQueue_streaming id)
  | streamon type =>
    rcases streamon_exit h with ⟨-, rfl⟩ | ⟨-, hbusy, ctx', hs, rfl⟩
    · exact .queues (by simp) fun _ h => h
    · exact .start hbusy hs
  | streamoff type =>
    obtain rfl := Option.some.inj h
    exact .queues (by simp) (setQueue_streaming (by simp))

end Step

/-! ### The descriptors -/

/-- A descriptor that is set is an entry of the decoder's table. -/
structure FromTable (v : Variant) (ctx : Ctx) : Prop where
  variant_eq : ctx.variant = v
  src_mem : ∀ fmt, ctx.vpuSrcFmt = some fmt → fmt ∈ v.decFmts
  dst_mem : ∀ fmt, ctx.vpuDstFmt = some fmt → fmt ∈ v.decFmts

/-- Only the descriptors matter. -/
theorem FromTable.congr {v : Variant} {ctx ctx' : Ctx} (h : FromTable v ctx)
    (hv : ctx'.variant = ctx.variant) (hs : ctx'.vpuSrcFmt = ctx.vpuSrcFmt)
    (hd : ctx'.vpuDstFmt = ctx.vpuDstFmt) : FromTable v ctx' :=
  ⟨hv.trans h.variant_eq, by rw [hs]; exact h.src_mem, by rw [hd]; exact h.dst_mem⟩

theorem fromTable_sFmt {dmaAlign : U32} {v : Variant} {q : Queues} {ctx ctx' : Ctx}
    {type : BufType} {r : Ret} {f f' : PixFormatMplane} (hc : FromTable v ctx)
    (h : vidiocSFmt dmaAlign q ctx type f = some (r, ctx', f')) : FromTable v ctx' := by
  cases type with
  | output =>
    cases vidiocSFmtOut_exit (Option.some.inj h) with
    | busy => exact hc
    | refused => exact hc
    | stored hq hfind =>
      refine ⟨hc.variant_eq, fun fmt hfmt => ?_, hc.dst_mem⟩
      obtain rfl := Option.some.inj hfmt
      rw [← hc.variant_eq]
      exact (findFormat_some hfind).1
  | capture =>
    cases vidiocSFmtCap_exit h with
    | busy => exact hc
    | refused => exact hc
    | stored hq hfind =>
      refine ⟨hc.variant_eq, hc.src_mem, fun fmt hfmt => ?_⟩
      obtain rfl := Option.some.inj hfmt
      rw [← hc.variant_eq]
      exact (findFormat_some hfind).1

theorem fromTable_step {dmaAlign : U32} {v : Variant} {s t : Session} {act : DecAct}
    (hc : FromTable v s.ctx) (h : decStep dmaAlign s act = some t) : FromTable v t.ctx := by
  cases decStep_exit h with
  | format hs => exact fromTable_sFmt hc hs
  | queues => exact hc
  | start hbusy hs =>
    obtain ⟨dst, -, rfl⟩ := startStreaming_some hs
    exact hc.congr rfl rfl rfl

/-- Both descriptors set, to the entry for H264, and both queues idle. -/
def h264Session : Session where
  ctx := {
    variant := rk3288VpuVariant
    vpuSrcFmt := some rk3288VpuDecFmts[0]
    vpuDstFmt := some rk3288VpuDecFmts[0] }
  queues := ⟨⟨false, false⟩, ⟨false, false⟩⟩

theorem fromTable_h264Session : FromTable (Chip.rk3288).variant h264Session.ctx :=
  ⟨rfl, by decide, by decide⟩

end RockchipVpu.Decoder
