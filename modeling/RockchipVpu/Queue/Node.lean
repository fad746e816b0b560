import RockchipVpu.Base.BufferPool
import RockchipVpu.Queue.Buffer

/-! An open encoder node: its context, the two videobuf2 queues and the job. The
ioctls are those of the driver's table; where videobuf2 or mem2mem calls back into
the driver the step runs the driver's function, in the state of that moment. A
format ioctl sees the queues as they are, and `buf_prepare` runs once for each
buffer that leaves the dequeued state. -/

namespace RockchipVpu.Queue

open Base Format

structure Node where
  ctx : Ctx
  output : Pool Vb2Buffer := {}
  capture : Pool Vb2Buffer := {}
  running : Bool := false
  deriving DecidableEq

namespace Node

/-- What `vb2_is_streaming` and `vb2_is_busy` answer. -/
def queues (node : Node) : Queues where
  output := ⟨node.output.streaming, node.output.busy⟩
  capture := ⟨node.capture.streaming, node.capture.busy⟩

def pool (node : Node) : BufType → Pool Vb2Buffer
  | .output => node.output
  | .capture => node.capture

def setPool (node : Node) (type : BufType) (p : Pool Vb2Buffer) : Node :=
  match type with
  | .output => { node with output := p }
  | .capture => { node with capture := p }

end Node

inductive NodeAct
  | sFmt (type : BufType) (f : PixFormatMplane)
  | reqbufs (type : BufType) (count : ℕ)
  | createBufs (type : BufType) (count numPlanes : ℕ) (sizes : Plane → U32)
  | prepareBuf (type : BufType) (i : ℕ) (field : U32)
  | qbuf (type : BufType) (i : ℕ) (field : U32)
  | dqbuf (type : BufType) (i : ℕ)
  | streamon (type : BufType)
  | streamoff (type : BufType)
  | deviceRun
  | jobDone

/-- REQBUFS: refused while the queue streams, else all buffers are replaced, by as many as asked
for up to the limit. -/
def reqbufs (node : Node) (type : BufType) (count : ℕ) : Option Node :=
  if (node.pool type).streaming then some node
  else do
    let (_, n, sizes) ← queueSetup node.ctx type 0 fun _ => 0
    return node.setPool type
      ((node.pool type).realloc (min count videoMaxFrame) (newBuffer n sizes))

/-- CREATE_BUFS: further buffers, of the planes asked for when the driver accepts, as long as
the queue has room for them. -/
def createBufs (node : Node) (type : BufType) (count numPlanes : ℕ) (sizes : Plane → U32) :
    Option Node :=
  let used := (node.pool type).slots.length
  if numPlanes = 0 ∨ videoMaxFrame ≤ used then some node
  else match queueSetup node.ctx type numPlanes sizes with
    | none => none
    | some (.err _, _, _) => some node
    | some (.ok, n, sizes) =>
      some (node.setPool type
        ((node.pool type).alloc (min count (videoMaxFrame - used)) (newBuffer n sizes)))

/-- PREPARE_BUF, for a buffer that user space holds. -/
def prepareBuf (node : Node) (type : BufType) (i : ℕ) (field : U32) : Option Node :=
  match (node.pool type).slots[i]? with
  | some ⟨.dequeued, vb⟩ => match bufPrepare node.ctx type { vb with field := field } with
    | none => none
    | some (.err _, vb) => some (node.setPool type ((node.pool type).dequeue i vb))
    | some (.ok, vb) => some (node.setPool type ((node.pool type).prepare i vb))
  | _ => some node

/-- QBUF: a prepared buffer is queued without another check. -/
def qbuf (node : Node) (type : BufType) (i : ℕ) (field : U32) : Option Node :=
  match (node.pool type).slots[i]? with
  | some ⟨.dequeued, vb⟩ => match bufPrepare node.ctx type { vb with field := field } with
    | none => none
    | some (.err _, vb) => some (node.setPool type ((node.pool type).dequeue i vb))
    | some (.ok, vb) => some (node.setPool type ((node.pool type).enqueue i vb))
  | some ⟨.prepared, vb⟩ => some (node.setPool type ((node.pool type).enqueue i vb))
  | _ => some node

def dqbuf (node : Node) (type : BufType) (i : ℕ) : Node :=
  match (node.pool type).slots[i]? with
  | some ⟨.done, vb⟩ => node.setPool type ((node.pool type).dequeue i vb)
  | _ => node

/-- STREAMON starts a queue that has buffers and does not stream yet. -/
def streamon (node : Node) (type : BufType) : Option Node :=
  if (node.pool type).streaming || !(node.pool type).busy then some node
  else do
    let ctx ← startStreaming type node.ctx
    return { node.setPool type (node.pool type).start with ctx := ctx }

/-- STREAMOFF waits for the job, so it is no step while one runs. -/
def streamoff (node : Node) (type : BufType) : Option Node :=
  if node.running then none else some (node.setPool type (node.pool type).cancel)

/-- mem2mem starts a job when both queues stream and hold a buffer; `device_run`
calls through the codec operations. -/
def deviceRun (node : Node) : Option Node :=
  if node.running = false ∧ node.output.streaming = true ∧ node.capture.streaming = true ∧
      node.output.queue ≠ [] ∧ node.capture.queue ≠ [] then do
    let ops ← node.ctx.codecOps
    let _ ← ops.run
    return { node with running := true }
  else none

def jobDone (node : Node) : Option Node :=
  if node.running then
    some { node with
      output := node.output.complete
      capture := node.capture.complete
      running := false }
  else none

def nodeStep (dmaAlign : U32) (node : Node) : NodeAct → Option Node
  | .sFmt type f => (vidiocSFmt dmaAlign node.queues node.ctx type f).map fun r =>
      { node with ctx := r.2.1 }
  | .reqbufs type count => reqbufs node type count
  | .createBufs type count n sizes => createBufs node type count n sizes
  | .prepareBuf type i field => prepareBuf node type i field
  | .qbuf type i field => qbuf node type i field
  | .dqbuf type i => some (dqbuf node type i)
  | .streamon type => streamon node type
  | .streamoff type => streamoff node type
  | .deviceRun => deviceRun node
  | .jobDone => jobDone node

/-- A node right after `open`. -/
def openedNode (chip : Chip) : Node where
  ctx := opened chip

end RockchipVpu.Queue
