import RockchipVpu.Base.PoolContents
import RockchipVpu.Job.Accounting
import RockchipVpu.Queue.Safety

/-! One open file of the encoder node: the node with its two videobuf2 queues, the
quantization table of its control, and the history of what went through its mem2mem
context. mem2mem sees a buffer from the moment videobuf2 passes it to the driver, which it
does when the buffer is queued on a streaming queue, or when the queue that holds it is
started. So the session of a file is a view of its node, and each ioctl is one or several of
the calls that a session knows. -/

namespace RockchipVpu.System

open Base Format Queue Hw Job

/-! ### Files and their ioctls -/

structure Handle where
  node : Node
  qtable : JpegQuantization
  history : List Event := []

/-- A file right after `open`, with the table its control starts with. -/
def openHandle (chip : Chip) (qtable : JpegQuantization) : Handle where
  node := openedNode chip
  qtable := qtable

/-- The ioctls that reach the driver. Buffers come with the addresses of their memory. -/
inductive Ioctl
  | sFmt (type : BufType) (f : PixFormatMplane)
  | reqbufs (type : BufType) (count : ℕ) (addr : ℕ → Plane → U32)
  | createBufs (type : BufType) (count numPlanes : ℕ) (sizes : Plane → U32) (addr : ℕ → Plane → U32)
  | prepareBuf (type : BufType) (i : ℕ) (field : U32)
  | qbuf (type : BufType) (i : ℕ) (field : U32)
  | dqbuf (type : BufType) (i : ℕ)
  | streamon (type : BufType)
  | streamoff (type : BufType)

def Ioctl.act : Ioctl → NodeAct
  | .sFmt type f => .sFmt type f
  | .reqbufs type count _ => .reqbufs type count
  | .createBufs type count n sizes _ => .createBufs type count n sizes
  | .prepareBuf type i field => .prepareBuf type i field
  | .qbuf type i field => .qbuf type i field
  | .dqbuf type i => .dqbuf type i
  | .streamon type => .streamon type
  | .streamoff type => .streamoff type

/-! ### Memory -/

def placeBuffer (addr : Plane → U32) (vb : Vb2Buffer) : Vb2Buffer :=
  { vb with planes := fun k => { vb.planes k with dmaAddr := addr k } }

/-- The buffers from number `kept` on are new. -/
def placeFrom (kept : ℕ) (addr : ℕ → Plane → U32) (i : ℕ) (vb : Vb2Buffer) : Vb2Buffer :=
  if i < kept then vb else placeBuffer (addr i) vb

/-- A request for buffers gives the new ones their memory. -/
def Ioctl.place (before node : Node) : Ioctl → Node
  | .reqbufs type _ addr => if (before.pool type).streaming then node
      else node.setPool type ((node.pool type).adjust (placeFrom 0 addr))
  | .createBufs type _ _ _ addr => node.setPool type
      ((node.pool type).adjust (placeFrom (before.pool type).slots.length addr))
  | .sFmt .. | .prepareBuf .. | .qbuf .. | .dqbuf .. | .streamon _ | .streamoff _ => node

/-! ### What mem2mem sees -/

/-- The buffers that videobuf2 has passed to the driver. -/
def readyBufs (p : Pool Vb2Buffer) : List M2mBuffer :=
  if p.streaming then p.contents.map fun x => ⟨x.1, x.2⟩ else []

def m2mQueue (p : Pool Vb2Buffer) : M2mQueue where
  bufs := readyBufs p
  streaming := p.streaming

/-- The mem2mem context of a file, while `job` is its current job. -/
def Handle.session (h : Handle) (job : Option M2mJob) : Session where
  ctx := h.node.ctx
  qtable := some h.qtable
  queue type := m2mQueue (h.node.pool type)
  job := job
  history := h.history

def queueAll (type : BufType) (bufs : List M2mBuffer) (history : List Event) : List Event :=
  bufs.foldl (fun history buf => .queued type buf :: history) history

/-- The calls that an ioctl makes into the driver, given the node before and after it. -/
def Ioctl.record (before node : Node) (history : List Event) : Ioctl → List Event
  | .qbuf type _ _ =>
    let known := (readyBufs (before.pool type)).length
    queueAll type ((readyBufs (node.pool type)).drop known) history
  | .streamon type =>
    if !(before.pool type).streaming && (node.pool type).streaming then
      .streamon type :: queueAll type (readyBufs (node.pool type)) history
    else history
  | .streamoff type =>
    if (before.pool type).streaming then drain type (readyBufs (before.pool type)) history
    else history
  | .sFmt .. | .reqbufs .. | .createBufs .. | .prepareBuf .. | .dqbuf .. => history

namespace Handle

def ioctl (dmaAlign : U32) (h : Handle) (io : Ioctl) : Option Handle :=
  (nodeStep dmaAlign h.node io.act).map fun node =>
    { h with node := io.place h.node node, history := io.record h.node node h.history }

/-- `device_run` up to the register writes of the run function, which are the job's program. -/
def deviceRun (h : Handle) : Option (Handle × M2mJob) := do
  let node ← Queue.deviceRun h.node
  let s ← Job.deviceRun (h.session none)
  let job ← s.job
  return ({ h with node := node, history := s.history }, job)

/-- The file when its job has been handed back with these two buffers. -/
def handBack (h : Handle) (job : M2mJob) (bytesused : U32) (result : BufResult)
    (src dst : M2mBuffer) : Handle :=
  let ctx := h.node.ctx
  let s := Job.jobFinish (h.session (some job)) job bytesused result
  { h with
    node := {
      ctx := s.ctx
      output := h.node.output.finish { src.vb with sequence := ctx.sequenceOut }
      capture := h.node.capture.finish (copyMetadata ctx.sequenceCap bytesused src.vb dst.vb)
      running := false }
    history := s.history }

/-- `rockchip_vpu_job_finish`; without one of the buffers it warns, which is no step here. -/
def jobFinish (h : Handle) (job : M2mJob) (bytesused : U32) (result : BufResult) :
    Option Handle := do
  let src ← (readyBufs h.node.output).head?
  let dst ← (readyBufs h.node.capture).head?
  return h.handBack job bytesused result src dst

end Handle

/-! ### Reading a pool through the view -/

@[simp] theorem pool_setPool (node : Node) (type t : BufType) (p : Pool Vb2Buffer) :
    (node.setPool type p).pool t = if t = type then p else node.pool t := by
  cases type <;> cases t <;> rfl

@[simp] theorem setPool_ctx (node : Node) (type : BufType) (p : Pool Vb2Buffer) :
    (node.setPool type p).ctx = node.ctx := by
  cases type <;> rfl

@[simp] theorem setPool_running (node : Node) (type : BufType) (p : Pool Vb2Buffer) :
    (node.setPool type p).running = node.running := by
  cases type <;> rfl

@[simp] theorem placeBuffer_numPlanes (addr : Plane → U32) (vb : Vb2Buffer) :
    (placeBuffer addr vb).numPlanes = vb.numPlanes := rfl

theorem vb2PlaneSize_placeBuffer (addr : Plane → U32) (vb : Vb2Buffer) (i : Plane) :
    vb2PlaneSize (placeBuffer addr vb) i = vb2PlaneSize vb i := rfl

theorem readyBufs_congr {p p' : Pool Vb2Buffer} (hs : p'.streaming = p.streaming)
    (hc : p'.contents = p.contents) : readyBufs p' = readyBufs p := by
  rw [readyBufs, readyBufs, hs, hc]

theorem readyBufs_stopped {p : Pool Vb2Buffer} (hs : p.streaming = false) : readyBufs p = [] := by
  rw [readyBufs, hs]
  rfl

theorem readyBufs_streaming {p : Pool Vb2Buffer} (hs : p.streaming = true) :
    readyBufs p = p.contents.map fun x => ⟨x.1, x.2⟩ := by
  rw [readyBufs, if_pos hs]

theorem streaming_of_readyBufs {p : Pool Vb2Buffer} (h : readyBufs p ≠ []) :
    p.streaming = true := by
  by_contra hs
  exact h (readyBufs_stopped (by simpa using hs))

theorem readyBufs_enqueue {P : Vb2Buffer → Prop} {p : Pool Vb2Buffer} (hv : p.Valid P) {i : ℕ}
    {st : SlotState} {vb vb' : Vb2Buffer} (hb : p.Holds i st vb) (hst : st ≠ .queued) :
    readyBufs (p.enqueue i vb') =
      readyBufs p ++ if p.streaming then [⟨i, vb'⟩] else [] := by
  have hs : (p.enqueue i vb').streaming = p.streaming := rfl
  unfold readyBufs
  rw [hs, hv.contents_enqueue hb hst]
  split_ifs
  · rw [List.map_append]
    rfl
  · rfl

theorem readyBufs_finish {P : Vb2Buffer → Prop} {p : Pool Vb2Buffer} (hv : p.Valid P)
    (vb : Vb2Buffer) : readyBufs (p.finish vb) = (readyBufs p).tail := by
  unfold readyBufs
  rw [Pool.finish_streaming, hv.contents_finish]
  split_ifs
  · rw [List.map_tail]
  · rfl

/-- A ready buffer is the one videobuf2 has at the head of its queue. -/
theorem head_readyBufs {P : Vb2Buffer → Prop} {p : Pool Vb2Buffer} (hv : p.Valid P) {b : M2mBuffer}
    (hb : (readyBufs p).head? = some b) : p.streaming = true ∧ p.queue.head? = some b.index ∧
      p.Holds b.index .queued b.vb ∧ p.head? = some b.vb := by
  have hs : p.streaming = true := by
    refine streaming_of_readyBufs fun h => ?_
    rw [h] at hb
    cases hb
  rw [readyBufs_streaming hs, List.head?_map] at hb
  obtain ⟨x, hx, rfl⟩ := Option.map_eq_some_iff.mp hb
  exact ⟨hs, hv.holds_head hx⟩

/-! ### Pools under the operations of a file -/

/-- The queues of both pools list queued slots, each once. -/
def PoolsValid (node : Node) : Prop := ∀ type, (node.pool type).Valid fun _ => True

theorem poolsValid_setPool {node : Node} (hv : PoolsValid node) {type : BufType}
    {p : Pool Vb2Buffer} (hp : p.Valid fun _ => True) : PoolsValid (node.setPool type p) := by
  intro t
  rw [pool_setPool]
  split_ifs
  · exact hp
  · exact hv t

theorem valid_poolStep_true {ctx : Ctx} {type : BufType} {p p' : Pool Vb2Buffer}
    (h : PoolStep ctx type p p') (hp : p.Valid fun _ => True) : p'.Valid fun _ => True := by
  cases h with
  | same => exact hp
  | realloc count _ => exact Pool.valid_realloc _ _ _ _
  | alloc count _ => exact hp.alloc _ _
  | refuse hb _ => exact hp.dequeue hb (by simp)
  | prepare hb _ => exact hp.prepare hb trivial
  | enqueue hb _ => exact hp.enqueue hb (by simp) trivial
  | requeue hb => exact hp.enqueue hb (by simp) trivial
  | collect hb => exact hp.dequeue hb (by simp)
  | cancel => exact Pool.valid_cancel _ _

/-- Placing the new buffers is all that happens besides the node's own step. -/
theorem place_eq (before node : Node) (io : Ioctl) : io.place before node = node ∨
    ∃ type kept addr, io.place before node =
      node.setPool type ((node.pool type).adjust (placeFrom kept addr)) := by
  cases io with
  | reqbufs type count addr =>
    simp only [Ioctl.place]
    split_ifs
    · exact .inl rfl
    · exact .inr ⟨type, 0, addr, rfl⟩
  | createBufs type count n sizes addr => exact .inr ⟨type, _, addr, rfl⟩
  | _ => exact .inl rfl

theorem poolsValid_place {before node : Node} (hv : PoolsValid node) (io : Ioctl) :
    PoolsValid (io.place before node) := by
  rcases place_eq before node io with h | ⟨type, kept, addr, h⟩
  · rw [h]
    exact hv
  · rw [h]
    exact poolsValid_setPool hv ((hv type).adjust fun _ _ _ => trivial)

theorem place_ctx (before node : Node) (io : Ioctl) : (io.place before node).ctx = node.ctx := by
  rcases place_eq before node io with h | ⟨type, kept, addr, h⟩ <;> simp [h]

theorem place_running (before node : Node) (io : Ioctl) :
    (io.place before node).running = node.running := by
  rcases place_eq before node io with h | ⟨type, kept, addr, h⟩ <;> simp [h]

theorem place_streaming (before node : Node) (io : Ioctl) (t : BufType) :
    ((io.place before node).pool t).streaming = (node.pool t).streaming := by
  rcases place_eq before node io with h | ⟨type, kept, addr, h⟩
  · rw [h]
  · rw [h, pool_setPool]
    split_ifs with ht
    · rw [ht, Pool.adjust_streaming]
    · rfl

theorem poolsValid_step {dmaAlign : U32} {node node' : Node} {io : Ioctl} (hv : PoolsValid node)
    (h : nodeStep dmaAlign node io.act = some node') : PoolsValid node' := by
  generalize ha : io.act = act at h
  cases nodeStep_exit h with
  | format => exact hv
  | @pool _ type _ _ hp => exact poolsValid_setPool hv (valid_poolStep_true hp (hv type))
  | @start type => exact poolsValid_setPool hv (hv type).start
  | run => cases io <;> cases ha
  | done => cases io <;> cases ha

end RockchipVpu.System
