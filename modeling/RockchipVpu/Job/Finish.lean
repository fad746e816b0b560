import RockchipVpu.Format.Encoder
import RockchipVpu.Hw.JpegEnc

/-! The life of a job on one context. `device_run` programs the heads of the two
mem2mem queues, and the interrupt or the watchdog removes them and hands them back.
Each function is written with the queues, the counters and the stored format it
reads; beside that state a session keeps the history of what was queued, started
and handed back, which no function reads. -/

namespace RockchipVpu.Job

open Base Format Queue Hw

/-- `enum vb2_buffer_state`, the values given to `v4l2_m2m_buf_done`. -/
inductive BufResult
  | done | error
  deriving DecidableEq

/-- A buffer with the index that tells it from the others of its queue. -/
structure M2mBuffer where
  index : ℕ
  vb : Vb2Buffer
  deriving DecidableEq

/-- One queue of a mem2mem context. -/
structure M2mQueue where
  bufs : List M2mBuffer := []
  streaming : Bool := false
  deriving DecidableEq

/-- `v4l2_m2m_src_buf_remove` and `v4l2_m2m_dst_buf_remove`. -/
def M2mQueue.bufRemove (q : M2mQueue) : Option M2mBuffer × M2mQueue :=
  (q.bufs.head?, { q with bufs := q.bufs.tail })

/-- What the run function has programmed, and for which buffers. -/
structure M2mJob where
  src : M2mBuffer
  dst : M2mBuffer
  program : List Write
  deriving DecidableEq

/-- A job handed back: the buffers that were removed, and as they were returned. -/
structure Completion where
  job : M2mJob
  src : M2mBuffer
  dst : M2mBuffer
  srcDone : Vb2Buffer
  dstDone : Vb2Buffer
  result : BufResult
  deriving DecidableEq

inductive Event
  | queued (type : BufType) (buf : M2mBuffer)
  | started (job : M2mJob)
  | completed (c : Completion)
  | streamon (type : BufType)
  | drained (type : BufType) (buf : M2mBuffer) (result : BufResult)
  deriving DecidableEq

structure Session where
  ctx : Ctx
  qtable : Option JpegQuantization
  queue : BufType → M2mQueue := fun _ => {}
  job : Option M2mJob := none
  history : List Event := []

/-! ### Completion -/

/-- `V4L2_BUF_FLAG_TSTAMP_SRC_MASK`. -/
def tstampSrcMask : U32 := 0x00070000

/-- What `rockchip_vpu_job_finish` writes to the capture buffer. -/
def copyMetadata (sequence bytesused : U32) (src dst : Vb2Buffer) : Vb2Buffer :=
  let dst := { dst with
    sequence := sequence
    field := src.field
    timecode := src.timecode
    timestamp := src.timestamp
    flags := (dst.flags &&& ~~~tstampSrcMask) ||| (src.flags &&& tstampSrcMask) }
  let plane0 := { dst.planes 0 with bytesused := bytesused }
  if bytesused ≠ 0 then { dst with planes := Function.update dst.planes 0 plane0 } else dst

/-- `rockchip_vpu_job_finish`. Both removals come before the two checks. -/
def jobFinish (s : Session) (job : M2mJob) (bytesused : U32) (result : BufResult) : Session :=
  let (src, output) := (s.queue .output).bufRemove
  let (dst, capture) := (s.queue .capture).bufRemove
  let s := { s with queue := fun
    | .output => output
    | .capture => capture }
  match src, dst with
  | some src, some dst =>
    let srcDone := { src.vb with sequence := s.ctx.sequenceOut }
    let dstDone := copyMetadata s.ctx.sequenceCap bytesused src.vb dst.vb
    { s with
      ctx := { s.ctx with
        sequenceOut := s.ctx.sequenceOut + 1
        sequenceCap := s.ctx.sequenceCap + 1 }
      job := none
      history := .completed ⟨job, src, dst, srcDone, dstDone, result⟩ :: s.history }
  | _, _ => s

/-- `rockchip_vpu_irq_done`; the current job is that of this context or there is none. -/
def irqDone (s : Session) (bytesused : U32) (result : BufResult) : Session :=
  match s.job with
  | some job => jobFinish s job bytesused result
  | none => s

/-- `rockchip_vpu_watchdog`: without a job it does nothing, else it resets the
hardware through the codec operations. -/
def watchdog (s : Session) : Option Session :=
  match s.job with
  | some job => do
    let ops ← s.ctx.codecOps
    let _ ← ops.reset
    return jobFinish s job 0 .error
  | none => some s

/-- What the interrupt handler of a chip hands to `rockchip_vpu_irq_done` for the
values it reads from the status and the stream limit register. -/
def vepuIrq (frameReady status strBufLimit : U32) : U32 × BufResult :=
  (strBufLimit / 8, if status &&& frameReady ≠ 0 then .done else .error)

def rk3288VepuIrq : U32 → U32 → U32 × BufResult := vepuIrq Rk3288.vepuRegInterruptFrameRdy

def rk3399VepuIrq : U32 → U32 → U32 × BufResult := vepuIrq Rk3399.vepuRegInterruptFrameReady

/-! ### Start -/

/-- The program of a JPEG run function. The decoder's run functions are selected by
no entry of an encoder table. -/
def jpegProgram : RunFn →
    Option (Ctx → Option JpegQuantization → Vb2Buffer → Vb2Buffer → Option (List Write))
  | .rk3288JpegEncRun => some rk3288VpuJpegEncRun
  | .rk3399JpegEncRun => some rk3399VpuJpegEncRun
  | .rk3288H264DecRun | .rk3288Vp8DecRun => none

/-- `device_run`: the run function peeks at the heads of both queues. -/
def deviceRun (s : Session) : Option Session := do
  let ops ← s.ctx.codecOps
  let run ← ops.run
  let program ← jpegProgram run
  let src ← (s.queue .output).bufs.head?
  let dst ← (s.queue .capture).bufs.head?
  let writes ← program s.ctx s.qtable src.vb dst.vb
  return { s with
    job := some ⟨src, dst, writes⟩
    history := .started ⟨src, dst, writes⟩ :: s.history }

/-! ### Streams -/

/-- `rockchip_vpu_buf_queue`. -/
def bufQueue (s : Session) (type : BufType) (buf : M2mBuffer) : Session :=
  let q := s.queue type
  { s with
    queue := Function.update s.queue type { q with bufs := q.bufs ++ [buf] }
    history := .queued type buf :: s.history }

/-- The loop of `rockchip_vpu_stop_streaming`, over the buffers still queued. -/
def drain (type : BufType) : List M2mBuffer → List Event → List Event
  | [], history => history
  | buf :: bufs, history => drain type bufs (.drained type buf .error :: history)

/-- `rockchip_vpu_stop_streaming`. -/
def stopStreaming (s : Session) (type : BufType) : Session :=
  { s with
    queue := Function.update s.queue type { bufs := [], streaming := false }
    history := drain type (s.queue type).bufs s.history }

/-- STREAMON calls `start_streaming` for a queue that does not stream. -/
def streamon (s : Session) (type : BufType) : Option Session :=
  let q := s.queue type
  if q.streaming then some s
  else do
    let ctx ← startStreaming type s.ctx
    return { s with
      ctx := ctx
      queue := Function.update s.queue type { q with streaming := true }
      history := .streamon type :: s.history }

/-- STREAMOFF waits for the job, then calls `stop_streaming` for a streaming queue. -/
def streamoff (s : Session) (type : BufType) : Option Session :=
  if s.job.isSome then none
  else if (s.queue type).streaming then some (stopStreaming s type)
  else some s

/-! ### Runs -/

inductive JobAct
  | bufQueue (type : BufType) (buf : M2mBuffer)
  | deviceRun
  | irq (status strBufLimit : U32)
  | watchdog
  | streamon (type : BufType)
  | streamoff (type : BufType)

/-- `variant->vepu_irq`. -/
def variantVepuIrq : Chip → U32 → U32 → U32 × BufResult
  | .rk3288 => rk3288VepuIrq
  | .rk3399 => rk3399VepuIrq

def jobStep (chip : Chip) (s : Session) : JobAct → Option Session
  | .bufQueue type buf => some (bufQueue s type buf)
  | .deviceRun => if s.job.isSome then none else deviceRun s
  | .irq status strBufLimit =>
    let (bytesused, result) := variantVepuIrq chip status strBufLimit
    some (irqDone s bytesused result)
  | .watchdog => watchdog s
  | .streamon type => streamon s type
  | .streamoff type => streamoff s type

/-- A context with any formats, right after it has been allocated and opened. -/
def openSession (ctx : Ctx) (qtable : Option JpegQuantization) : Session where
  ctx := { ctx with sequenceOut := 0, sequenceCap := 0, codecOps := none }
  qtable := qtable

end RockchipVpu.Job
