import RockchipVpu.System.Context
import RockchipVpu.System.Hardware

/-! A job of a file, from `device_run` to `rockchip_vpu_job_finish`. The operations selected
while both queues stream are those of the chip's JPEG encoder, so the job's program is that
of the formats and the table of that moment, and the formats stay while it is current. -/

namespace RockchipVpu.System

open Base Format Queue Hw Job

/-! ### The selected operations -/

/-- Operations selected for an entry of the encoder table run and reset the JPEG encoder. -/
theorem codecOps_jpeg {chip : Chip} {dst : Fmt} {ops : CodecOps}
    (hmem : dst ∈ chip.variant.encFmts) (hops : chip.variant.codecOpsAt dst.codecMode = some ops) :
    ∃ run reset, ops = ⟨some run, some reset⟩ ∧ jpegProgram run = some (jpegEncRun chip) ∧
      resetWrites reset = some (encReset chip) := by
  have hmode : dst.codecMode = .jpegEnc := by
    have hcodec : dst.codecMode = .none ∨ dst.codecMode = .jpegEnc := by
      clear hops
      revert dst
      cases chip <;> decide
    refine hcodec.resolve_left fun hnone => ?_
    simp [hnone, Variant.codecOpsAt, CodecMode.toInt] at hops
  rw [hmode] at hops
  cases chip <;>
  · obtain rfl := Option.some.inj hops
    exact ⟨_, _, rfl, rfl, rfl⟩

theorem HandleInv.codecOps {chip : Chip} {h : Handle} {job : Option M2mJob}
    (hi : HandleInv chip h job) (ho : h.node.output.streaming = true)
    (hc : h.node.capture.streaming = true) {ops : CodecOps}
    (hops : h.node.ctx.codecOps = some ops) :
    ∃ run reset, ops = ⟨some run, some reset⟩ ∧ jpegProgram run = some (jpegEncRun chip) ∧
      resetWrites reset = some (encReset chip) := by
  obtain ⟨hv, -, -, dst, hmem, -, hdst, -, -⟩ := hi.consistent
  obtain ⟨d, hd, hsel⟩ := hi.ops ho hc
  obtain rfl : dst = d := Option.some.inj (hdst.symm.trans hd)
  rw [hv, hops] at hsel
  exact codecOps_jpeg hmem hsel.symm

/-! ### Programs -/

/-- The job was programmed for the formats of the context, with this table, and operations are
selected. -/
structure Launched (chip : Chip) (ctx : Ctx) (qtable : JpegQuantization) (job : M2mJob) :
    Prop where
  program_eq : ∃ vpuSrcFmt, ctx.vpuSrcFmt = some vpuSrcFmt ∧
    job.program = program chip ctx vpuSrcFmt qtable job.src.vb job.dst.vb
  ops : ctx.codecOps.isSome

/-- A program reads the source format of the context and nothing else. -/
theorem program_congr (chip : Chip) {ctx ctx' : Ctx} (h : ctx'.srcFmt = ctx.srcFmt)
    (vpuSrcFmt : Fmt) (qtable : JpegQuantization) (src dst : Vb2Buffer) :
    program chip ctx' vpuSrcFmt qtable src dst = program chip ctx vpuSrcFmt qtable src dst := by
  cases chip <;>
  simp only [program, programBody, setSrcImgCtrl, rk3288VpuSetSrcImgCtrl, rk3399VpuSetSrcImgCtrl,
    jpegEncSetBuffers, startWord, rk3288EncCtrl, rk3399EncodeStart, h]

theorem Launched.congr {chip : Chip} {ctx ctx' : Ctx} {qtable : JpegQuantization} {job : M2mJob}
    (hl : Launched chip ctx qtable job) (hsrc : ctx'.srcFmt = ctx.srcFmt)
    (hfmt : ctx'.vpuSrcFmt = ctx.vpuSrcFmt) (hops : ctx'.codecOps = ctx.codecOps) :
    Launched chip ctx' qtable job where
  program_eq := by
    obtain ⟨vpuSrcFmt, hvpu, hprog⟩ := hl.program_eq
    exact ⟨vpuSrcFmt, hfmt.trans hvpu, by rw [program_congr chip hsrc, hprog]⟩
  ops := hops ▸ hl.ops

theorem Launched.startsLast {chip : Chip} {ctx : Ctx} {qtable : JpegQuantization} {job : M2mJob}
    (hl : Launched chip ctx qtable job) : StartsLast chip job.program := by
  obtain ⟨vpuSrcFmt, -, hprog⟩ := hl.program_eq
  rw [hprog]
  exact startsLast_program ..

/-- While both queues stream an ioctl changes at most the colorimetry of the context. -/
theorem ctx_step {dmaAlign : U32} {node node' : Node} {io : Ioctl}
    (ho : node.output.streaming = true) (hc : node.capture.streaming = true)
    (h : nodeStep dmaAlign node io.act = some node') :
    ∃ colorimetry, node'.ctx = { node.ctx with colorimetry := colorimetry } := by
  cases io with
  | streamon type =>
    have hon : (node.pool type).streaming = true := by cases type <;> assumption
    have hsame : Queue.streamon node type = some node := by simp [Queue.streamon, hon]
    obtain rfl := Option.some.inj (hsame.symm.trans h)
    exact ⟨_, rfl⟩
  | sFmt type f =>
    obtain ⟨⟨r, ctx', f'⟩, hs, rfl⟩ := Option.map_eq_some_iff.mp h
    exact ⟨_, vidiocSFmt_busy (sFmtBusy_streaming ho hc f type) hs⟩
  | _ =>
    cases nodeStep_exit h with
    | pool => exact ⟨_, setPool_ctx ..⟩

/-! ### The start of a job -/

/-- What mem2mem has found when it starts a job. -/
theorem queueDeviceRun_some {node node' : Node} (h : Queue.deviceRun node = some node') :
    node.output.streaming = true ∧ node.capture.streaming = true ∧
      node' = { node with running := true } := by
  unfold Queue.deviceRun at h
  split_ifs at h with hg
  obtain ⟨ops, -, h⟩ := Option.bind_eq_some_iff.mp h
  obtain ⟨run, -, h⟩ := Option.bind_eq_some_iff.mp h
  exact ⟨hg.2.1, hg.2.2.1, (Option.some.inj h).symm⟩

theorem deviceRun_node {h h' : Handle} {job : M2mJob} (hd : h.deviceRun = some (h', job)) :
    Queue.deviceRun h.node = some h'.node := by
  obtain ⟨node, hnode, hd⟩ := Option.bind_eq_some_iff.mp hd
  obtain ⟨session, -, hd⟩ := Option.bind_eq_some_iff.mp hd
  obtain ⟨job', -, hd⟩ := Option.bind_eq_some_iff.mp hd
  obtain ⟨rfl, -⟩ := Prod.mk.inj (Option.some.inj hd)
  exact hnode

/-- Starting a job marks the node and leaves its queues and its context as they are. -/
theorem deviceRun_marks {h h' : Handle} {job : M2mJob} (hd : h.deviceRun = some (h', job)) :
    h'.node = { h.node with running := true } :=
  (queueDeviceRun_some (deviceRun_node hd)).2.2

/-- The program of a started job is what the selected run function writes for it. -/
theorem jobDeviceRun_some {s s' : Session} (h : Job.deviceRun s = some s') :
    ∃ ops run program job, s.ctx.codecOps = some ops ∧ ops.run = some run ∧
      jpegProgram run = some program ∧
      program s.ctx s.qtable job.src.vb job.dst.vb = some job.program ∧
      s' = { s with job := some job, history := .started job :: s.history } := by
  obtain ⟨ops, hops, h⟩ := Option.bind_eq_some_iff.mp h
  obtain ⟨run, hrun, h⟩ := Option.bind_eq_some_iff.mp h
  obtain ⟨program, hprogram, h⟩ := Option.bind_eq_some_iff.mp h
  obtain ⟨src, -, h⟩ := Option.bind_eq_some_iff.mp h
  obtain ⟨dst, -, h⟩ := Option.bind_eq_some_iff.mp h
  obtain ⟨writes, hwrites, h⟩ := Option.bind_eq_some_iff.mp h
  exact ⟨ops, run, program, ⟨src, dst, writes⟩, hops, hrun, hprogram, hwrites,
    (Option.some.inj h).symm⟩

/-- A job starts on the heads of both queues, with the program for the formats and the table
of its file. -/
theorem deviceRun_spec {chip : Chip} {h h' : Handle} {job : M2mJob} (hi : HandleInv chip h none)
    (hd : h.deviceRun = some (h', job)) :
    HandleInv chip h' (some job) ∧ Launched chip h'.node.ctx h.qtable job := by
  obtain ⟨node, hnode, hd⟩ := Option.bind_eq_some_iff.mp hd
  obtain ⟨s, hs, hd⟩ := Option.bind_eq_some_iff.mp hd
  obtain ⟨job', hj, hd⟩ := Option.bind_eq_some_iff.mp hd
  obtain ⟨rfl, rfl⟩ := Prod.mk.inj (Option.some.inj hd)
  obtain ⟨ho, hc, rfl⟩ := queueDeviceRun_some hnode
  have hinv := sessionInv_deviceRun hi.session rfl hs
  obtain ⟨ops, run, prog, job, hops, hrun, hprog, hwrites, rfl⟩ := jobDeviceRun_some hs
  obtain rfl := Option.some.inj hj
  obtain ⟨run', reset, rfl, hjpeg, -⟩ := hi.codecOps ho hc hops
  obtain rfl := Option.some.inj hrun
  obtain rfl := Option.some.inj (hjpeg.symm.trans hprog)
  obtain ⟨-, vpuSrcFmt, -, -, -, hvpu, -⟩ := hi.consistent
  refine ⟨⟨hi.consistent, hi.ops, ?_, rfl, ?_⟩, ⟨vpuSrcFmt, hvpu, ?_⟩, ?_⟩
  · intro t
    cases t with
    | output => exact hi.pools .output
    | capture => exact hi.pools .capture
  · exact sessionInv_congr hinv (fun _ => rfl) (fun t => by cases t <;> rfl) rfl rfl
  · have hwrites' : jpegEncRun chip h.node.ctx (some h.qtable) job.src.vb job.dst.vb =
        some job.program := hwrites
    rw [jpegEncRun_eq chip hvpu] at hwrites'
    exact (Option.some.inj hwrites').symm
  · exact Option.isSome_iff_exists.mpr ⟨_, hops⟩

/-! ### The current job -/

/-- The buffers of the current job are queued on streaming queues of its file, at the head. -/
structure OwnsHeads (node : Node) (job : M2mJob) : Prop where
  src_streaming : node.output.streaming = true
  dst_streaming : node.capture.streaming = true
  src_queue : node.output.queue.head? = some job.src.index
  dst_queue : node.capture.queue.head? = some job.dst.index
  src_holds : node.output.Holds job.src.index .queued job.src.vb
  dst_holds : node.capture.Holds job.dst.index .queued job.dst.vb

theorem HandleInv.heads {chip : Chip} {h : Handle} {job : M2mJob}
    (hi : HandleInv chip h (some job)) : (readyBufs h.node.output).head? = some job.src ∧
      (readyBufs h.node.capture).head? = some job.dst :=
  let hr := hi.session.running job rfl
  ⟨hr.src_head, hr.dst_head⟩

theorem HandleInv.ownsHeads {chip : Chip} {h : Handle} {job : M2mJob}
    (hi : HandleInv chip h (some job)) : OwnsHeads h.node job := by
  obtain ⟨hsrc, hdst⟩ := hi.heads
  obtain ⟨hs, hq, hb, -⟩ := head_readyBufs (hi.pools .output) hsrc
  obtain ⟨hs', hq', hb', -⟩ := head_readyBufs (hi.pools .capture) hdst
  exact ⟨hs, hs', hq, hq', hb, hb'⟩

/-- Whatever ioctl the file makes, its job keeps its program. -/
theorem Launched.ioctl {chip : Chip} {dmaAlign : U32} {h h' : Handle} {job : M2mJob}
    {qtable : JpegQuantization} {io : Ioctl} (hi : HandleInv chip h (some job))
    (hl : Launched chip h.node.ctx qtable job) (hs : h.ioctl dmaAlign io = some h') :
    Launched chip h'.node.ctx qtable job := by
  obtain ⟨node, hnode, rfl⟩ := Option.map_eq_some_iff.mp hs
  obtain ⟨c, hctx⟩ := ctx_step hi.ownsHeads.src_streaming hi.ownsHeads.dst_streaming hnode
  refine hl.congr ?_ ?_ ?_ <;> rw [place_ctx, hctx]

/-! ### The end of a job -/

section Finish
variable {chip : Chip} {h : Handle} {job : M2mJob} (hi : HandleInv chip h (some job))
  (bytesused : U32) (result : BufResult)
include hi

/-- The handler that ends a job finds its buffers. -/
theorem jobFinish_eq : h.jobFinish job bytesused result =
    some (h.handBack job bytesused result job.src job.dst) := by
  obtain ⟨hsrc, hdst⟩ := hi.heads
  rw [Handle.jobFinish, hsrc, hdst]
  rfl

/-- What the session does when the job ends. -/
theorem session_jobFinish : Job.jobFinish (h.session (some job)) job bytesused result =
    { h.session none with
      ctx := { h.node.ctx with
        sequenceOut := h.node.ctx.sequenceOut + 1
        sequenceCap := h.node.ctx.sequenceCap + 1 }
      queue := fun
        | .output => { m2mQueue h.node.output with bufs := (readyBufs h.node.output).tail }
        | .capture => { m2mQueue h.node.capture with bufs := (readyBufs h.node.capture).tail }
      history := .completed ⟨job, job.src, job.dst,
        { job.src.vb with sequence := h.node.ctx.sequenceOut },
        copyMetadata h.node.ctx.sequenceCap bytesused job.src.vb job.dst.vb, result⟩ ::
          h.history } := by
  obtain ⟨hsrc, hdst⟩ := hi.heads
  have hsrc' : ((h.session (some job)).queue .output).bufs.head? = some job.src := hsrc
  have hdst' : ((h.session (some job)).queue .capture).bufs.head? = some job.dst := hdst
  simp only [Job.jobFinish, M2mQueue.bufRemove, hsrc', hdst']
  rfl

theorem handleInv_handBack :
    HandleInv chip (h.handBack job bytesused result job.src job.dst) none := by
  have hinv := sessionInv_jobFinish hi.session rfl bytesused result
  have hfinish := session_jobFinish hi bytesused result
  rw [hfinish] at hinv
  unfold Handle.handBack
  rw [hfinish]
  refine ⟨hi.consistent.congr rfl rfl rfl rfl rfl, ?_, fun t => ?_, rfl, ?_⟩
  · simp only [Pool.finish_streaming]
    exact hi.ops
  · cases t with
    | output => exact (hi.pools .output).finish _
    | capture => exact (hi.pools .capture).finish _
  · refine sessionInv_congr hinv (fun _ => rfl) (fun t => ?_) rfl rfl
    cases t with
    | output => exact readyBufs_finish (hi.pools .output) _
    | capture => exact readyBufs_finish (hi.pools .capture) _

end Finish

end RockchipVpu.System
