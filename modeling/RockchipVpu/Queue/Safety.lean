import RockchipVpu.Queue.Node

/-! The source buffer a job starts with. `buf_prepare` compares a buffer with the
stored format when it is prepared, the run function programs the format stored when
the job starts, and S_FMT is refused only while its own queue streams. The buffer
covers the programmed frame in every run in which no accepted S_FMT, on either
queue, finds an OUTPUT buffer that is already prepared or queued. -/

namespace RockchipVpu.Queue

open Base Format

/-! ### What a step can do -/

/-- What the buffer ioctls can do to one pool. -/
inductive PoolStep (ctx : Ctx) (type : BufType) (p : Pool Vb2Buffer) : Pool Vb2Buffer → Prop
  | same : PoolStep ctx type p p
  | realloc {n n' : ℕ} {sizes sizes' : Plane → U32} (count : ℕ)
      (h : queueSetup ctx type n sizes = some (.ok, n', sizes')) :
      PoolStep ctx type p (p.realloc count (newBuffer n' sizes'))
  | alloc {n n' : ℕ} {sizes sizes' : Plane → U32} (count : ℕ)
      (h : queueSetup ctx type n sizes = some (.ok, n', sizes')) :
      PoolStep ctx type p (p.alloc count (newBuffer n' sizes'))
  | refuse {i : ℕ} {vb vb' : Vb2Buffer} {field : U32} {e : Errno} (hb : p.Holds i .dequeued vb)
      (h : bufPrepare ctx type { vb with field := field } = some (.err e, vb')) :
      PoolStep ctx type p (p.dequeue i vb')
  | prepare {i : ℕ} {vb vb' : Vb2Buffer} {field : U32} (hb : p.Holds i .dequeued vb)
      (h : bufPrepare ctx type { vb with field := field } = some (.ok, vb')) :
      PoolStep ctx type p (p.prepare i vb')
  | enqueue {i : ℕ} {vb vb' : Vb2Buffer} {field : U32} (hb : p.Holds i .dequeued vb)
      (h : bufPrepare ctx type { vb with field := field } = some (.ok, vb')) :
      PoolStep ctx type p (p.enqueue i vb')
  | requeue {i : ℕ} {vb : Vb2Buffer} (hb : p.Holds i .prepared vb) :
      PoolStep ctx type p (p.enqueue i vb)
  | collect {i : ℕ} {vb : Vb2Buffer} (hb : p.Holds i .done vb) :
      PoolStep ctx type p (p.dequeue i vb)
  | cancel : PoolStep ctx type p p.cancel

theorem PoolStep.streaming {ctx : Ctx} {type : BufType} {p p' : Pool Vb2Buffer}
    (h : PoolStep ctx type p p') : p'.streaming = true → p.streaming = true := by
  cases h with
  | cancel => intro hs; cases hs
  | _ => exact id

/-- What a step of the node can do. -/
inductive NodeExit (dmaAlign : U32) (node : Node) : NodeAct → Node → Prop
  | format {type : BufType} {f f' : PixFormatMplane} {r : Ret} {ctx' : Ctx}
      (h : vidiocSFmt dmaAlign node.queues node.ctx type f = some (r, ctx', f')) :
      NodeExit dmaAlign node (.sFmt type f) { node with ctx := ctx' }
  | pool {act : NodeAct} {type : BufType} {p : Pool Vb2Buffer} (ha : act ≠ .deviceRun)
      (h : PoolStep node.ctx type (node.pool type) p) :
      NodeExit dmaAlign node act (node.setPool type p)
  | start {type : BufType} {ctx' : Ctx} (h : startStreaming type node.ctx = some ctx') :
      NodeExit dmaAlign node (.streamon type)
        { node.setPool type (node.pool type).start with ctx := ctx' }
  | run {ops : CodecOps} (ho : node.output.streaming = true) (hc : node.capture.streaming = true)
      (hq : node.output.queue ≠ []) (hops : node.ctx.codecOps = some ops) :
      NodeExit dmaAlign node .deviceRun { node with running := true }
  | done : NodeExit dmaAlign node .jobDone { node with
      output := node.output.complete
      capture := node.capture.complete
      running := false }

theorem setPool_pool (node : Node) (type : BufType) :
    node.setPool type (node.pool type) = node := by
  cases type <;> rfl

section Inversion
variable {dmaAlign : U32} {node node' : Node}

/-- The result of an operation on the pool of one queue. -/
def PoolResult (node : Node) (type : BufType) (node' : Node) : Prop :=
  ∃ p, PoolStep node.ctx type (node.pool type) p ∧ node' = node.setPool type p

theorem PoolResult.same (node : Node) (type : BufType) : PoolResult node type node :=
  ⟨_, .same, (setPool_pool node type).symm⟩

theorem reqbufs_result {type : BufType} {count : ℕ} (h : reqbufs node type count = some node') :
    PoolResult node type node' := by
  unfold reqbufs at h
  split_ifs at h with hs
  · obtain rfl := Option.some.inj h
    exact .same node type
  · obtain ⟨⟨r, n, sizes⟩, hq, h⟩ := Option.bind_eq_some_iff.mp h
    obtain rfl := Option.some.inj h
    obtain rfl := queueSetup_zero hq
    exact ⟨_, .realloc _ hq, rfl⟩

theorem createBufs_result {type : BufType} {count n : ℕ} {sizes : Plane → U32}
    (h : createBufs node type count n sizes = some node') : PoolResult node type node' := by
  simp only [createBufs] at h
  split_ifs at h with h0
  · obtain rfl := Option.some.inj h
    exact .same node type
  · split at h
    · cases h
    · obtain rfl := Option.some.inj h
      exact .same node type
    · next n' sizes' hq =>
      obtain rfl := Option.some.inj h
      exact ⟨_, .alloc _ hq, rfl⟩

theorem prepareBuf_result {type : BufType} {i : ℕ} {field : U32}
    (h : prepareBuf node type i field = some node') : PoolResult node type node' := by
  unfold prepareBuf at h
  split at h
  · next vb hb =>
    split at h
    · cases h
    · next hp =>
      obtain rfl := Option.some.inj h
      exact ⟨_, .refuse hb hp, rfl⟩
    · next hp =>
      obtain rfl := Option.some.inj h
      exact ⟨_, .prepare hb hp, rfl⟩
  · obtain rfl := Option.some.inj h
    exact .same node type

theorem qbuf_result {type : BufType} {i : ℕ} {field : U32}
    (h : qbuf node type i field = some node') : PoolResult node type node' := by
  unfold qbuf at h
  split at h
  · next vb hb =>
    split at h
    · cases h
    · next hp =>
      obtain rfl := Option.some.inj h
      exact ⟨_, .refuse hb hp, rfl⟩
    · next hp =>
      obtain rfl := Option.some.inj h
      exact ⟨_, .enqueue hb hp, rfl⟩
  · next vb hb =>
    obtain rfl := Option.some.inj h
    exact ⟨_, .requeue hb, rfl⟩
  · obtain rfl := Option.some.inj h
    exact .same node type

theorem dqbuf_result (type : BufType) (i : ℕ) : PoolResult node type (dqbuf node type i) := by
  unfold dqbuf
  split
  · next vb hb => exact ⟨_, .collect hb, rfl⟩
  · exact .same node type

theorem PoolResult.exit {type : BufType} (h : PoolResult node type node') {act : NodeAct}
    (ha : act ≠ .deviceRun) : NodeExit dmaAlign node act node' := by
  obtain ⟨p, hp, rfl⟩ := h
  exact .pool ha hp

/-- STREAMON does nothing on a queue that streams or has no buffers. -/
theorem streamon_exit {type : BufType} (h : streamon node type = some node') :
    (((node.pool type).streaming = true ∨ (node.pool type).busy = false) ∧ node' = node) ∨
      ((node.pool type).busy = true ∧ ∃ ctx', startStreaming type node.ctx = some ctx' ∧
        node' = { node.setPool type (node.pool type).start with ctx := ctx' }) := by
  unfold streamon at h
  split_ifs at h with hg
  · left
    obtain rfl := Option.some.inj h
    exact ⟨by simpa using hg, rfl⟩
  · right
    obtain ⟨ctx', hc, h⟩ := Option.bind_eq_some_iff.mp h
    obtain rfl := Option.some.inj h
    simp only [Bool.or_eq_true, Bool.not_eq_true', not_or] at hg
    exact ⟨by simpa using hg.2, ctx', hc, rfl⟩

theorem nodeStep_exit {act : NodeAct} (h : nodeStep dmaAlign node act = some node') :
    NodeExit dmaAlign node act node' := by
  cases act with
  | sFmt type f =>
    obtain ⟨⟨r, ctx', f'⟩, hs, rfl⟩ := Option.map_eq_some_iff.mp h
    exact .format hs
  | reqbufs type count => exact (reqbufs_result h).exit (by simp)
  | createBufs type count n sizes => exact (createBufs_result h).exit (by simp)
  | prepareBuf type i field => exact (prepareBuf_result h).exit (by simp)
  | qbuf type i field => exact (qbuf_result h).exit (by simp)
  | dqbuf type i =>
    obtain rfl := Option.some.inj h
    exact (dqbuf_result type i).exit (by simp)
  | streamon type =>
    rcases streamon_exit h with ⟨-, rfl⟩ | ⟨-, ctx', hs, rfl⟩
    · exact (PoolResult.same _ type).exit (by simp)
    · exact .start hs
  | streamoff type =>
    simp only [nodeStep, streamoff] at h
    split_ifs at h with hs
    obtain rfl := Option.some.inj h
    exact .pool (by simp) .cancel
  | deviceRun =>
    simp only [nodeStep, deviceRun] at h
    split_ifs at h with hg
    obtain ⟨ops, hops, h⟩ := Option.bind_eq_some_iff.mp h
    obtain ⟨run, -, h⟩ := Option.bind_eq_some_iff.mp h
    obtain rfl := Option.some.inj h
    exact .run hg.2.1 hg.2.2.1 hg.2.2.2.1 hops
  | jobDone =>
    simp only [nodeStep, jobDone] at h
    split_ifs at h
    obtain rfl := Option.some.inj h
    exact .done

end Inversion

/-! ### The invariant -/

/-- The operations selected are those of the current destination descriptor. -/
def OpsMatch (ctx : Ctx) : Prop :=
  ∃ dst, ctx.vpuDstFmt = some dst ∧ ctx.codecOps = ctx.variant.codecOpsAt dst.codecMode

structure NodeInv (v : Variant) (node : Node) : Prop where
  consistent : Consistent v node.ctx
  ops : node.output.streaming = true → node.capture.streaming = true → OpsMatch node.ctx
  planes : node.output.Forall (0 < ·.numPlanes)
  fits : node.output.Valid (PlanesFit node.ctx.vpuSrcFmt node.ctx.srcFmt)

/-- No S_FMT gets past its guards while an OUTPUT buffer is prepared or queued. -/
def NoStaleCheck (node : Node) : NodeAct → Prop
  | .sFmt type f => SFmtBusy node.queues node.ctx f type ∨ node.output.Unchecked
  | _ => True

instance (node : Node) : (act : NodeAct) → Decidable (NoStaleCheck node act)
  | .sFmt type f => inferInstanceAs (Decidable (SFmtBusy _ _ f type ∨ _))
  | .reqbufs .. | .createBufs .. | .prepareBuf .. | .qbuf .. | .dqbuf .. | .streamon _
  | .streamoff _ | .deviceRun | .jobDone => inferInstanceAs (Decidable True)

theorem numPlanes_pos {chip : Chip} {fmt : Fmt} (h : fmt ∈ chip.variant.encFmts) :
    0 < fmt.numPlanes := by
  revert fmt
  cases chip <;> decide

/-- Newly allocated source buffers have a plane. -/
theorem queueSetup_pos {chip : Chip} {ctx : Ctx} (hc : Consistent chip.variant ctx) {n n' : ℕ}
    {sizes sizes' : Plane → U32} (h : queueSetup ctx .output n sizes = some (.ok, n', sizes')) :
    0 < n' := by
  obtain ⟨fmt, hfmt, rfl⟩ := queueSetup_numPlanes h
  obtain ⟨-, src, hmem, -, -, hsrc, -⟩ := hc
  obtain rfl : src = fmt := Option.some.inj (hsrc.symm.trans hfmt)
  exact numPlanes_pos hmem

section PoolSteps
variable {chip : Chip} {ctx : Ctx} {p p' : Pool Vb2Buffer} (h : PoolStep ctx .output p p')
include h

theorem forall_poolStep (hc : Consistent chip.variant ctx) (hp : p.Forall (0 < ·.numPlanes)) :
    p'.Forall (0 < ·.numPlanes) := by
  have hprep : ∀ {i : ℕ} {vb vb' : Vb2Buffer} {field : U32} {r : Ret}, p.Holds i .dequeued vb →
      bufPrepare ctx .output { vb with field := field } = some (r, vb') → 0 < vb'.numPlanes := by
    intro i vb vb' field r hb h
    have hpos := hp.holds hb
    rw [bufPrepare_frame h]
    exact hpos
  cases h with
  | same => exact hp
  | realloc count h => exact Pool.forall_realloc p (queueSetup_pos hc h)
  | alloc count h => exact hp.alloc (queueSetup_pos hc h)
  | refuse hb h => exact hp.set (hprep hb h)
  | prepare hb h => exact hp.set (hprep hb h)
  | enqueue hb h => exact hp.set (hprep hb h)
  | requeue hb => exact hp.set (hp.holds hb)
  | collect hb => exact hp.set (hp.holds hb)
  | cancel => exact hp.cancel

theorem valid_poolStep (hp : p.Valid (PlanesFit ctx.vpuSrcFmt ctx.srcFmt)) :
    p'.Valid (PlanesFit ctx.vpuSrcFmt ctx.srcFmt) := by
  cases h with
  | same => exact hp
  | realloc count _ => exact Pool.valid_realloc _ _ _ _
  | alloc count _ => exact hp.alloc _ _
  | refuse hb _ => exact hp.dequeue hb (by simp)
  | prepare hb h => exact hp.prepare hb (bufPrepare_output_ok h)
  | enqueue hb h => exact hp.enqueue hb (by simp) (bufPrepare_output_ok h)
  | requeue hb =>
    exact hp.enqueue hb (by simp) (hp.checked _ (List.mem_of_getElem? hb) (.inl rfl))
  | collect hb => exact hp.dequeue hb (by simp)
  | cancel => exact Pool.valid_cancel _ _

end PoolSteps

theorem consistent_sFmt {chip : Chip} {A : DmaAlign} {q : Queues} {ctx ctx' : Ctx}
    {type : BufType} {r : Ret} {f f' : PixFormatMplane} (hc : Consistent chip.variant ctx)
    (h : vidiocSFmt A.val q ctx type f = some (r, ctx', f')) : Consistent chip.variant ctx' := by
  cases type with
  | output => exact consistent_sFmtOut hc h
  | capture => exact consistent_sFmtCap hc h

/-- While both queues stream every S_FMT is refused. -/
theorem sFmtBusy_streaming {node : Node} (ho : node.output.streaming = true)
    (hcap : node.capture.streaming = true) (f : PixFormatMplane) (type : BufType) :
    SFmtBusy node.queues node.ctx f type := by
  cases type with
  | output => exact .inl ho
  | capture => exact .inl hcap

theorem consistent_nodeStep {chip : Chip} {A : DmaAlign} {node node' : Node} {act : NodeAct}
    (hc : Consistent chip.variant node.ctx) (h : nodeStep A.val node act = some node') :
    Consistent chip.variant node'.ctx := by
  cases nodeStep_exit h with
  | format hs => exact consistent_sFmt hc hs
  | @pool _ type _ _ _ => cases type <;> exact hc
  | start hs =>
    obtain ⟨dst, -, rfl⟩ := startStreaming_some hs
    exact hc.congr rfl rfl rfl rfl rfl
  | run => exact hc
  | done => exact hc

/-- A law for the context while both queues stream survives every step that starts no
queue, unless it speaks of the colorimetry. -/
theorem whileStreaming_other {P : Ctx → Prop} {dmaAlign : U32} {node node' : Node}
    {act : NodeAct} (hcol : ∀ ctx c, P ctx → P { ctx with colorimetry := c })
    (hp : node.output.streaming = true → node.capture.streaming = true → P node.ctx)
    (ha : ∀ type, act ≠ .streamon type) (h : nodeStep dmaAlign node act = some node')
    (ho : node'.output.streaming = true) (hcap : node'.capture.streaming = true) :
    P node'.ctx := by
  cases nodeStep_exit h with
  | @format type f f' r ctx' hs =>
    have ho' : node.output.streaming = true := ho
    have hbusy := sFmtBusy_streaming ho' hcap f type
    rw [vidiocSFmt_busy hbusy hs]
    exact hcol _ _ (hp ho hcap)
  | @pool _ type p _ hstep =>
    cases type with
    | output => exact hp (hstep.streaming ho) hcap
    | capture => exact hp ho (hstep.streaming hcap)
  | start => exact absurd rfl (ha _)
  | run => exact hp ho hcap
  | done =>
    rw [Pool.complete_streaming] at ho hcap
    exact hp ho hcap

/-- A start selects the operations anew. -/
theorem opsMatch_step {dmaAlign : U32} {node node' : Node} {act : NodeAct}
    (hops : node.output.streaming = true → node.capture.streaming = true → OpsMatch node.ctx)
    (h : nodeStep dmaAlign node act = some node') :
    node'.output.streaming = true → node'.capture.streaming = true → OpsMatch node'.ctx := by
  cases act with
  | streamon type =>
    rcases streamon_exit h with ⟨-, rfl⟩ | ⟨-, ctx', hs, rfl⟩
    · exact hops
    · obtain ⟨dst, hdst, rfl⟩ := startStreaming_some hs
      exact fun _ _ => ⟨dst, hdst, rfl⟩
  | _ => exact whileStreaming_other (fun _ _ hm => hm) hops (by simp) h

theorem nodeInv_step {chip : Chip} {A : DmaAlign} {node node' : Node} {act : NodeAct}
    (hi : NodeInv chip.variant node) (hcond : NoStaleCheck node act)
    (h : nodeStep A.val node act = some node') : NodeInv chip.variant node' := by
  obtain ⟨hc, hops, hplanes, hfits⟩ := hi
  refine ⟨consistent_nodeStep hc h, opsMatch_step hops h, ?_, ?_⟩
  · cases nodeStep_exit h with
    | format => exact hplanes
    | @pool _ type p _ hp =>
      cases type with
      | output => exact forall_poolStep hp hc hplanes
      | capture => exact hplanes
    | @start type => cases type <;> exact hplanes
    | run => exact hplanes
    | done => exact hplanes.complete
  · cases nodeStep_exit h with
    | format hs =>
      rcases hcond with hbusy | hfree
      · rw [vidiocSFmt_busy hbusy hs]
        exact hfits
      · exact hfits.of_unchecked hfree
    | @pool _ type p _ hp =>
      cases type with
      | output => exact valid_poolStep hp hfits
      | capture => exact hfits
    | @start type ctx' hs =>
      obtain ⟨dst, -, rfl⟩ := startStreaming_some hs
      cases type with
      | output => exact hfits.start
      | capture => exact hfits
    | run => exact hfits
    | done => exact hfits.complete

theorem nodeInv_opened (chip : Chip) : NodeInv chip.variant (openedNode chip) where
  consistent := consistent_opened chip
  ops ho := by cases ho
  planes s hs := by cases hs
  fits := Pool.valid_empty _

/-! ### The head source buffer -/

/-- The memory handed to the hardware covers the frame that is programmed: rows of
`width` pixels, which is a whole number of macroblocks, and `MB_HEIGHT` rows of
macroblocks. -/
structure SourceFits (ctx : Ctx) (vb : Vb2Buffer) : Prop where
  planes : ctx.srcFmt.numPlanes ≤ vb.numPlanes
  sizes : ∀ i : Plane, i.val < ctx.srcFmt.numPlanes →
    (ctx.srcFmt.planeFmt i).sizeimage.toNat ≤ (vb2PlaneSize vb i).toNat
  row : 16 * (mbCount ctx.srcFmt.width).toNat = ctx.srcFmt.width.toNat
  frame : ∃ src, ctx.vpuSrcFmt = some src ∧ ∀ i : Plane, i.val < src.numPlanes →
    16 * (mbCount ctx.srcFmt.height).toNat * (ctx.srcFmt.width.toNat * (src.depthAt i).toNat / 8) ≤
      (vb2PlaneSize vb i).toNat

/-- A destination whose mode has operations has a smallest frame that is not empty. -/
theorem minSize_pos {chip : Chip} {dst : Fmt} {ops : CodecOps}
    (hmem : dst ∈ chip.variant.encFmts) (h : chip.variant.codecOpsAt dst.codecMode = some ops) :
    16 ≤ dst.frmsize.minWidth.toNat ∧ 16 ≤ dst.frmsize.minHeight.toNat := by
  have hmode : dst.codecMode ≠ .none := by
    intro hnone
    simp [hnone, Variant.codecOpsAt, CodecMode.toInt] at h
  revert hmode
  clear h
  revert dst
  cases chip <;> decide

/-- The planes of an entry have depth, or there is only one. -/
theorem depthAt_pos {chip : Chip} {src : Fmt} (hmem : src ∈ chip.variant.encFmts) :
    src.numPlanes = 1 ∨ ∀ i : Plane, i.val < src.numPlanes → 2 ≤ (src.depthAt i).toNat := by
  revert src
  cases chip <;> decide

/-- Planes that fit a nonempty frame are all there. -/
theorem PlanesFit.numPlanes_le {chip : Chip} {src dst : Fmt} {pixfmt : PixFormatMplane}
    {vb : Vb2Buffer} (hmem : src ∈ chip.variant.encFmts) (hm : SrcMatches src dst pixfmt)
    (hw : 16 ≤ dst.frmsize.minWidth.toNat) (hh : 16 ≤ dst.frmsize.minHeight.toNat)
    (hvb : 0 < vb.numPlanes) (h : PlanesFit (some src) pixfmt vb) :
    src.numPlanes ≤ vb.numPlanes := by
  rcases depthAt_pos hmem with h1 | hdepth
  · omega
  · by_contra hlt
    obtain ⟨fmt, hfmt, hfit⟩ := h
    obtain rfl := Option.some.inj hfmt
    have hle := src.numPlanes_le
    let i : Plane := ⟨vb.numPlanes, by omega⟩
    have hi : i.val < src.numPlanes := not_le.mp hlt
    have hzero : vb2PlaneSize vb i = 0 := by simp [vb2PlaneSize, i]
    have hsize := hfit i hi
    rw [hzero, hm.sizeimage_eq i hi, hm.bytesperline_eq i hi] at hsize
    have hline : 4 ≤ pixfmt.width.toNat * (src.depthAt i).toNat / 8 := by
      have := Nat.mul_le_mul (hw.trans hm.le_width) (hdepth i hi)
      omega
    have hpos := Nat.mul_le_mul (hh.trans hm.le_height) hline
    simp only [BitVec.ofNat_eq_ofNat, BitVec.toNat_zero] at hsize
    omega

theorem sourceFits_of_planesFit {chip : Chip} {ctx : Ctx} {vb : Vb2Buffer} {ops : CodecOps}
    (hc : Consistent chip.variant ctx) (hm : OpsMatch ctx) (hops : ctx.codecOps = some ops)
    (hvb : 0 < vb.numPlanes) (h : PlanesFit ctx.vpuSrcFmt ctx.srcFmt vb) : SourceFits ctx vb := by
  obtain ⟨hv, src, hsmem, dst, hdmem, hsrc, hdst, hs, -⟩ := hc
  obtain ⟨d, hd, hsel⟩ := hm
  obtain rfl : dst = d := Option.some.inj (hdst.symm.trans hd)
  obtain ⟨hw, hh⟩ := minSize_pos hdmem (by rw [← hv, ← hsel, hops])
  have hdsound := (chip_sound chip).entry _ hdmem
  rw [hsrc] at h
  have hnum := h.numPlanes_le hsmem hs hw hh hvb
  obtain ⟨fmt, hfmt, hfit⟩ := h
  obtain rfl := Option.some.inj hfmt
  refine ⟨by rw [hs.numPlanes_eq]; exact hnum, ?_, ?_, src, hsrc, ?_⟩
  · rw [hs.numPlanes_eq]
    exact hfit
  · exact mbCount_mul hs.width_dvd (hs.width_le.trans hdsound.maxWidth_le)
  · intro i hi
    have hsize := hfit i hi
    rw [hs.sizeimage_eq i hi, hs.bytesperline_eq i hi] at hsize
    rwa [mbCount_mul hs.height_dvd (hs.height_le.trans hdsound.maxHeight_le)]

/-- In every run in which no accepted S_FMT finds a checked OUTPUT buffer, each job
starts with a source buffer that covers the programmed frame. -/
theorem deviceRun_source_fits (chip : Chip) (A : DmaAlign) {node node' : Node}
    (hreach : Reach (nodeStep A.val) NoStaleCheck (openedNode chip) node)
    (hrun : nodeStep A.val node .deviceRun = some node') :
    ∃ vb, node.output.head? = some vb ∧ SourceFits node.ctx vb := by
  have hi : NodeInv chip.variant node :=
    hreach.invariant (nodeInv_opened chip) fun _ _ _ hi hc hs => nodeInv_step hi hc hs
  cases nodeStep_exit hrun with
  | pool ha => exact absurd rfl ha
  | run ho hcap hq hops =>
    obtain ⟨vb, hvb, hfit⟩ := hi.fits.head hq
    exact ⟨vb, hvb, sourceFits_of_planesFit hi.consistent (hi.ops ho hcap) hops
      (hi.planes.head hvb) hfit⟩

/-- One buffer on each queue, allocated and queued for the formats that are stored,
and both queues started. -/
def queueAndStart : List NodeAct := [
  .reqbufs .output 1, .reqbufs .capture 1, .qbuf .output 0 fieldNone, .qbuf .capture 0 fieldNone,
  .streamon .output, .streamon .capture]

/-- The 720p source format is set before the buffers are allocated. -/
theorem deviceRun_source_fits_nv12m : ∃ node node' vb,
    run (nodeStep 64) (openedNode .rk3288) (.sFmt .output
        { width := 1280, height := 720, pixelformat := pixFmtNv12m } :: queueAndStart) =
      some node ∧
    nodeStep 64 node .deviceRun = some node' ∧ node.output.head? = some vb ∧
    SourceFits node.ctx vb := by
  have hsome : ((run (nodeStep 64) (openedNode .rk3288) (.sFmt .output
      { width := 1280, height := 720, pixelformat := pixFmtNv12m } :: queueAndStart)).bind
        fun node => nodeStep 64 node .deviceRun).isSome := by decide
  obtain ⟨node', h⟩ := Option.isSome_iff_exists.mp hsome
  obtain ⟨node, hnode, hrun⟩ := Option.bind_eq_some_iff.mp h
  obtain ⟨vb, hvb, hfit⟩ := deviceRun_source_fits .rk3288 ⟨6, by decide⟩
    (reach_of_run (by decide) hnode) hrun
  exact ⟨node, node', vb, hnode, hrun, hvb, hfit⟩

/-- A source buffer is queued for the smallest frame, then S_FMT(OUTPUT) asks for
720p while nothing streams yet. The job starts with the small buffer. -/
theorem deviceRun_grown_source : ∃ node node' vb,
    run (nodeStep 64) (openedNode .rk3288) [
        .reqbufs .output 1, .reqbufs .capture 1, .qbuf .output 0 fieldNone,
        .qbuf .capture 0 fieldNone,
        .sFmt .output { width := 1280, height := 720, pixelformat := pixFmtYuv420m },
        .streamon .output, .streamon .capture] = some node ∧
      nodeStep 64 node .deviceRun = some node' ∧ node.output.head? = some vb ∧
      ¬ SourceFits node.ctx vb := by
  refine ⟨_, _, _, rfl, rfl, rfl, fun h => ?_⟩
  exact absurd (h.sizes 0 (by decide)) (by decide)

end RockchipVpu.Queue
