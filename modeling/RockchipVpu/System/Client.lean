import RockchipVpu.System.Isolation
import RockchipVpu.System.Progress

/-! A client from its first buffers to its last frame: REQBUFS and a QBUF for each buffer on both
queues, both STREAMONs, and then its jobs. What is handed back is a function of the formats and
the table of the file and of what the encoder makes of each job: frame `i` is buffer `i` of
OUTPUT in buffer `i` of CAPTURE, with number `i`. -/

namespace RockchipVpu.System

open Base Format Queue Hw Job

/-! ### Frames -/

/-- The formats, the table and the memory that a client encodes with. -/
structure Frames where
  ctx : Ctx
  vpuSrcFmt : Fmt
  vpuDstFmt : Fmt
  qtable : JpegQuantization
  srcAddr : ℕ → Plane → U32
  dstAddr : ℕ → Plane → U32
  src_eq : ctx.vpuSrcFmt = some vpuSrcFmt
  dst_eq : ctx.vpuDstFmt = some vpuDstFmt

/-- A buffer as REQBUFS allocates it for a format. -/
def rawBuffer (fmt : Fmt) (pixfmt : PixFormatMplane) (addr : ℕ → Plane → U32) (i : ℕ) :
    Vb2Buffer :=
  placeBuffer (addr i) (newBuffer fmt.numPlanes fun k =>
    if k.val < fmt.numPlanes then (pixfmt.planeFmt k).sizeimage else 0)

/-- The buffer when QBUF has accepted it. -/
def progressive (vb : Vb2Buffer) : Vb2Buffer := { vb with field := fieldNone }

namespace Frames

def vpuFmt (f : Frames) : BufType → Fmt
  | .output => f.vpuSrcFmt
  | .capture => f.vpuDstFmt

def raw (f : Frames) : BufType → ℕ → Vb2Buffer
  | .output => rawBuffer f.vpuSrcFmt f.ctx.srcFmt f.srcAddr
  | .capture => rawBuffer f.vpuDstFmt f.ctx.dstFmt f.dstAddr

def buf (f : Frames) (type : BufType) (i : ℕ) : M2mBuffer := ⟨i, progressive (f.raw type i)⟩

def job (chip : Chip) (f : Frames) (i : ℕ) : M2mJob where
  src := f.buf .output i
  dst := f.buf .capture i
  program :=
    program chip f.ctx f.vpuSrcFmt f.qtable (f.buf .output i).vb (f.buf .capture i).vb

/-- Frame `i` as it is handed back. -/
def encoded (chip : Chip) (f : Frames) (i : ℕ) (outcome : U32 × BufResult) : Completion where
  job := f.job chip i
  src := f.buf .output i
  dst := f.buf .capture i
  srcDone := { (f.buf .output i).vb with sequence := BitVec.ofNat 32 i }
  dstDone := copyMetadata (BitVec.ofNat 32 i) outcome.1 (f.buf .output i).vb (f.buf .capture i).vb
  result := outcome.2

/-! ### What the client does -/

def addr (f : Frames) : BufType → ℕ → Plane → U32
  | .output => f.srcAddr
  | .capture => f.dstAddr

/-- `n` buffers are allocated and queued. -/
def queueBuffers (f : Frames) (type : BufType) (n : ℕ) : List Ioctl :=
  .reqbufs type n (f.addr type) :: (List.range n).map fun i => .qbuf type i fieldNone

def setup (f : Frames) (n : ℕ) : List Ioctl :=
  f.queueBuffers .output n ++ f.queueBuffers .capture n ++ [.streamon .output, .streamon .capture]

/-- A job that ends like this. -/
def jobActs (outcome : U32 × BufResult) : List FileAct :=
  [.deviceRun, .finish outcome.1 outcome.2]

/-- As many buffers on both queues as there are jobs. -/
def session (f : Frames) (outcomes : List (U32 × BufResult)) : List FileAct :=
  (f.setup outcomes.length).map .ioctl ++ outcomes.flatMap jobActs

theorem queueFormat_eq (f : Frames) (type : BufType) : ∃ pixfmt,
    queueFormat f.ctx type = (some (f.vpuFmt type), pixfmt) ∧
      f.raw type = rawBuffer (f.vpuFmt type) pixfmt (f.addr type) := by
  cases type with
  | output => exact ⟨f.ctx.srcFmt, by rw [queueFormat, f.src_eq]; rfl, rfl⟩
  | capture => exact ⟨f.ctx.dstFmt, by rw [queueFormat, f.dst_eq]; rfl, rfl⟩

end Frames

theorem completions_queueAll (type : BufType) (bufs : List M2mBuffer) (h : List Event) :
    completions (queueAll type bufs h) = completions h := by
  induction bufs generalizing h with
  | nil => rfl
  | cons buf bufs ih => exact ih (.queued type buf :: h)

/-! ### Filling a queue -/

/-- The first `k` buffers are queued and the others of the `n` are free. -/
structure Filled (raw : ℕ → Vb2Buffer) (n k : ℕ) (p : Pool Vb2Buffer) : Prop where
  stopped : p.streaming = false
  contents : p.contents = (List.range k).map fun i => (i, progressive (raw i))
  free : ∀ i, k ≤ i → i < n → p.Holds i .dequeued (raw i)
  size : p.slots.length = n

section Fill

variable {chip : Chip} {A : DmaAlign} {file : Handle} {f : Frames} {type : BufType} {n k : ℕ}
  {raw : ℕ → Vb2Buffer} {p : Pool Vb2Buffer}

theorem filled_realloc (hstop : p.streaming = false) (vb : Vb2Buffer) (addr : ℕ → Plane → U32)
    (hraw : ∀ i, raw i = placeBuffer (addr i) vb) :
    Filled raw n 0 ((p.realloc n vb).adjust (placeFrom 0 addr)) where
  stopped := hstop
  contents := rfl
  free i _ hi := by
    rw [Pool.Holds, Pool.getElem?_adjust]
    simp [Pool.realloc, hi, placeFrom, hraw]
  size := by simp [Pool.adjust, Pool.realloc]

theorem Filled.enqueue (hf : Filled raw n k p) (hv : p.Valid fun _ => True) (hk : k < n) :
    Filled raw n (k + 1) (p.enqueue k (progressive (raw k))) where
  stopped := hf.stopped
  contents := by
    rw [hv.contents_enqueue (hf.free k le_rfl hk) (by simp), hf.contents, List.range_succ,
      List.map_append]
    rfl
  free i hi hin := by
    have hne : k ≠ i := by omega
    exact (List.getElem?_set_ne hne).trans (hf.free i (by omega) hin)
  size := List.length_set.trans hf.size

/-- A queue with buffers in it has buffers allocated. -/
theorem Filled.busy (hf : Filled raw n k p) (hk : 0 < k) : p.busy = true := by
  have hne : p.slots ≠ [] := by
    intro hnil
    have hcontents := hf.contents
    rw [Pool.contents, hnil] at hcontents
    simp at hcontents
    omega
  simpa [Pool.busy] using hne

theorem setPool_setPool (node : Node) (type : BufType) (p q : Pool Vb2Buffer) :
    (node.setPool type p).setPool type q = node.setPool type q := by
  cases type <;> rfl

theorem handleInv_run (hi : HandleInv chip file none) {ios : List Ioctl} {file' : Handle}
    (h : run (Handle.ioctl A.val) file ios = some file') : HandleInv chip file' none :=
  (reach_of_run_any h).invariant (P := fun file => HandleInv chip file none) hi
    fun _ _ _ hi _ hs => handleInv_ioctl hi hs

/-- The queue gets as many buffers as are asked for, up to the limit. -/
theorem ioctl_reqbufs (hctx : file.node.ctx = f.ctx)
    (hstop : (file.node.pool type).streaming = false) (n : ℕ) : ∃ p,
      file.ioctl A.val (.reqbufs type n (f.addr type)) =
        some { file with node := file.node.setPool type p } ∧
          Filled (f.raw type) (min n videoMaxFrame) 0 p := by
  obtain ⟨pixfmt, hformat, hraw⟩ := f.queueFormat_eq type
  have hoff : ¬ (file.node.pool type).streaming = true := by simp [hstop]
  refine ⟨_, ?_, filled_realloc hstop _ (f.addr type) fun i => congrFun hraw i⟩
  simp only [Handle.ioctl, Ioctl.act, nodeStep, reqbufs, if_neg hoff, hctx,
    queueSetup_report hformat, Option.bind_eq_bind, Option.bind_some, Option.pure_def,
    Option.map_some, Ioctl.place, pool_setPool, if_true, setPool_setPool]
  rfl

/-- QBUF accepts a buffer of the format of its queue. -/
theorem bufPrepare_raw (f : Frames) (type : BufType) (i : ℕ) :
    bufPrepare f.ctx type { f.raw type i with field := fieldNone } =
      some (.ok, progressive (f.raw type i)) := by
  obtain ⟨pixfmt, hformat, hraw⟩ := f.queueFormat_eq type
  have hcheck : checkPlanes (f.vpuFmt type) pixfmt (progressive (f.raw type i)) = .ok := by
    have hsizes : AllocatedAs (f.vpuFmt type).numPlanes (fun k => (pixfmt.planeFmt k).sizeimage)
        (progressive (f.raw type i)) := by
      rw [hraw]
      exact ⟨rfl, fun k hk => if_pos hk⟩
    rw [checkPlanes_ok, planesFit_iff hsizes]
    exact fun _ _ => le_rfl
  cases type with
  | output =>
    simp only [bufPrepare, hformat, Option.bind_eq_bind, Option.bind_some]
    rw [show acceptField _ = progressive (f.raw .output i) from rfl, hcheck]
    rfl
  | capture =>
    simp only [bufPrepare, hformat, Option.bind_eq_bind, Option.bind_some]
    exact congrArg (fun r => some (r, _)) hcheck

theorem ioctl_qbuf (hi : HandleInv chip file none) (hctx : file.node.ctx = f.ctx)
    (hf : Filled (f.raw type) n k (file.node.pool type)) (hk : k < n) : ∃ p,
      file.ioctl A.val (.qbuf type k fieldNone) =
        some { file with node := file.node.setPool type p } ∧
          Filled (f.raw type) n (k + 1) p := by
  have hslot : (file.node.pool type).slots[k]? = some ⟨.dequeued, f.raw type k⟩ :=
    hf.free k le_rfl hk
  refine ⟨_, ?_, hf.enqueue (hi.pools type) hk⟩
  have hqbuf : qbuf file.node type k fieldNone = some (file.node.setPool type
      ((file.node.pool type).enqueue k (progressive (f.raw type k)))) := by
    rw [qbuf, hslot]
    simp only [hctx, bufPrepare_raw]
  have hready : readyBufs ((file.node.pool type).enqueue k (progressive (f.raw type k))) = [] :=
    readyBufs_stopped hf.stopped
  simp only [Handle.ioctl, Ioctl.act, nodeStep, hqbuf, Option.map_some, Ioctl.place, Ioctl.record,
    pool_setPool, if_true, hready, List.drop_nil]
  rfl

/-- QBUF of a buffer that the queue does not have is refused. -/
theorem ioctl_qbuf_beyond (hf : Filled raw n n (file.node.pool type)) (hk : n ≤ k) :
    file.ioctl A.val (.qbuf type k fieldNone) = some file := by
  have hslot : (file.node.pool type).slots[k]? = none :=
    List.getElem?_eq_none (hf.size.trans_le hk)
  have hqbuf : qbuf file.node type k fieldNone = some file.node := by
    rw [qbuf, hslot]
  have hready : readyBufs (file.node.pool type) = [] := readyBufs_stopped hf.stopped
  simp only [Handle.ioctl, Ioctl.act, nodeStep, hqbuf, Option.map_some, Ioctl.place, Ioctl.record,
    hready, List.drop_nil]
  rfl

theorem run_qbufs (hi : HandleInv chip file none) (hctx : file.node.ctx = f.ctx)
    (hf : Filled (f.raw type) n 0 (file.node.pool type)) (k : ℕ) : ∃ p,
      run (Handle.ioctl A.val) file ((List.range k).map fun i => .qbuf type i fieldNone) =
        some { file with node := file.node.setPool type p } ∧
          Filled (f.raw type) n (min k n) p := by
  induction k with
  | zero => exact ⟨file.node.pool type, by rw [setPool_pool]; rfl, by rwa [Nat.zero_min]⟩
  | succ k ih =>
    obtain ⟨p, hp, hfp⟩ := ih
    have hpool : (file.node.setPool type p).pool type = p := by rw [pool_setPool, if_pos rfl]
    simp only [List.range_succ, List.map_append, run_append, hp, List.map_cons, List.map_nil,
      Option.bind_some, run_singleton]
    rcases Nat.lt_or_ge k n with hk | hk
    · rw [Nat.min_eq_left hk.le] at hfp
      obtain ⟨q, hq, hfq⟩ := ioctl_qbuf (A := A) (handleInv_run hi hp)
        ((setPool_ctx ..).trans hctx) (by rw [hpool]; exact hfp) hk
      refine ⟨q, ?_, ?_⟩
      · simp only [hq, setPool_setPool]
      · rwa [Nat.min_eq_left hk]
    · rw [Nat.min_eq_right hk] at hfp
      refine ⟨p, ioctl_qbuf_beyond (A := A) (by rw [hpool]; exact hfp) hk, ?_⟩
      rwa [Nat.min_eq_right (hk.trans (Nat.le_succ k))]

/-- REQBUFS and the QBUFs fill the queue, up to the limit, and touch nothing else. -/
theorem run_queueBuffers (hi : HandleInv chip file none) (hctx : file.node.ctx = f.ctx)
    (hstop : (file.node.pool type).streaming = false) (n : ℕ) : ∃ p,
      run (Handle.ioctl A.val) file (f.queueBuffers type n) =
        some { file with node := file.node.setPool type p } ∧
          Filled (f.raw type) (min n videoMaxFrame) (min n videoMaxFrame) p := by
  obtain ⟨p, hp, hfp⟩ := ioctl_reqbufs (A := A) hctx hstop n
  have hpool : (file.node.setPool type p).pool type = p := by rw [pool_setPool, if_pos rfl]
  obtain ⟨q, hq, hfq⟩ := run_qbufs (A := A) (handleInv_ioctl hi hp) ((setPool_ctx ..).trans hctx)
    (by rw [hpool]; exact hfp) n
  refine ⟨q, ?_, by rwa [← Nat.min_assoc, Nat.min_self] at hfq⟩
  simp only [setPool_setPool] at hq
  simp only [Frames.queueBuffers, run, hp, hq]

end Fill

/-! ### Starting the queues -/

/-- The file encodes with the formats and the table of `f`. -/
structure EncodesWith (f : Frames) (file : Handle) : Prop where
  srcFmt : file.node.ctx.srcFmt = f.ctx.srcFmt
  vpuSrcFmt : file.node.ctx.vpuSrcFmt = f.ctx.vpuSrcFmt
  vpuDstFmt : file.node.ctx.vpuDstFmt = f.ctx.vpuDstFmt
  table : file.qtable = f.qtable

/-- What STREAMON makes of a file. -/
structure Started (type : BufType) (file file' : Handle) : Prop where
  pool : ∀ t, file'.node.pool t =
    if t = type then (file.node.pool t).start else file.node.pool t
  encodesWith : ∀ f, EncodesWith f file → EncodesWith f file'
  sequence : ∀ t, sequenceOf file'.node.ctx t =
    if t = type then 0 else sequenceOf file.node.ctx t
  completions : completions file'.history = completions file.history

/-- `k` frames are encoded and `m` are waiting. -/
structure Encoding (chip : Chip) (f : Frames) (k m : ℕ) (file : Handle) : Prop where
  inv : HandleInv chip file none
  encodesWith : EncodesWith f file
  ready : ∀ type, readyBufs (file.node.pool type) = (List.range' k m).map (f.buf type)
  sequence : ∀ type, sequenceOf file.node.ctx type = BitVec.ofNat 32 k

section Start

variable {chip : Chip} {A : DmaAlign} {file : Handle} {f : Frames} {type : BufType} {n : ℕ}
  {raw : ℕ → Vb2Buffer}

theorem ioctl_streamon (hi : HandleInv chip file none)
    (hf : Filled raw n n (file.node.pool type)) (hn : 0 < n) : ∃ file',
      file.ioctl A.val (.streamon type) = some file' ∧ Started type file file' := by
  obtain ⟨ctx, hctx⟩ := startStreaming_defined hi.consistent type
  have hguard : ¬ ((file.node.pool type).streaming || !(file.node.pool type).busy) = true := by
    simp [hf.stopped, hf.busy hn]
  have hstep : Queue.streamon file.node type =
      some { file.node.setPool type (file.node.pool type).start with ctx := ctx } := by
    rw [Queue.streamon, if_neg hguard, hctx]
    rfl
  refine ⟨_, congrArg (Option.map _) hstep, fun t => ?_, fun f hf => ?_, fun t => ?_, ?_⟩
  · cases type <;> cases t <;> rfl
  · obtain ⟨dst, -, rfl⟩ := startStreaming_some hctx
    exact ⟨hf.srcFmt, hf.vpuSrcFmt, hf.vpuDstFmt, hf.table⟩
  · obtain ⟨dst, -, rfl⟩ := startStreaming_some hctx
    cases type <;> cases t <;> rfl
  · simp only [Ioctl.record]
    split_ifs
    · exact completions_queueAll ..
    · rfl

/-- The started queue passes its buffers to the driver, in order. -/
theorem Filled.readyBufs_start {p : Pool Vb2Buffer} (hf : Filled (f.raw type) n n p) :
    readyBufs p.start = (List.range' 0 n).map (f.buf type) := by
  rw [readyBufs_streaming rfl, Pool.contents_start, hf.contents, List.map_map,
    ← List.range_eq_range']
  rfl

/-- The buffers are queued, as many as the queues can have, and both queues are started. -/
theorem run_setup (hi : HandleInv chip file none) (hctx : file.node.ctx = f.ctx)
    (htable : file.qtable = f.qtable) (hstop : ∀ type, (file.node.pool type).streaming = false)
    (hn : 0 < n) : ∃ file', run (Handle.ioctl A.val) file (f.setup n) = some file' ∧
      Encoding chip f 0 (min n videoMaxFrame) file' ∧
        completions file'.history = completions file.history := by
  obtain ⟨p, hp, hfp⟩ := run_queueBuffers (A := A) hi hctx (hstop .output) n
  have hip := handleInv_run hi hp
  have hstop' : ((file.node.setPool .output p).pool .capture).streaming = false := hstop .capture
  obtain ⟨q, hq, hfq⟩ := run_queueBuffers (A := A) hip hctx hstop' n
  have hiq := handleInv_run hip hq
  have hcap : 0 < min n videoMaxFrame := Nat.lt_min.mpr ⟨hn, by decide⟩
  have hfp' : Filled (f.raw .output) (min n videoMaxFrame) (min n videoMaxFrame)
      (((file.node.setPool .output p).setPool .capture q).pool .output) := hfp
  obtain ⟨u, hu, hsu⟩ := ioctl_streamon (A := A) hiq hfp' hcap
  have hiu := handleInv_ioctl hiq hu
  have hfu : Filled (f.raw .capture) (min n videoMaxFrame) (min n videoMaxFrame)
      (u.node.pool .capture) := by
    rw [hsu.pool]
    exact hfq
  obtain ⟨v, hv, hsv⟩ := ioctl_streamon (A := A) hiu hfu hcap
  have hwith : EncodesWith f { file with
      node := (file.node.setPool .output p).setPool .capture q } :=
    ⟨congrArg Ctx.srcFmt hctx, congrArg Ctx.vpuSrcFmt hctx, congrArg Ctx.vpuDstFmt hctx, htable⟩
  refine ⟨v, ?_, ⟨handleInv_ioctl hiu hv, hsv.encodesWith f (hsu.encodesWith f hwith),
    fun type => ?_, fun type => ?_⟩, hsv.completions.trans hsu.completions⟩
  · rw [Frames.setup, run_append, run_append, hp]
    simp only [Option.bind_some, hq, run, hu, hv]
  · rw [hsv.pool, hsu.pool]
    cases type with
    | output => exact hfp.readyBufs_start
    | capture => exact hfq.readyBufs_start
  · rw [hsv.sequence, hsu.sequence]
    cases type <;> rfl

end Start

/-! ### Jobs -/

section Jobs

variable {chip : Chip} {A : DmaAlign} {f : Frames} {file : Handle} {k m : ℕ}

/-- Starting a job is the only thing that its start adds to the history. -/
theorem deviceRun_history {file' : Handle} {job : M2mJob}
    (h : file.deviceRun = some (file', job)) :
    file'.history = .started job :: file.history ∧ file'.qtable = file.qtable := by
  obtain ⟨node, -, h⟩ := Option.bind_eq_some_iff.mp h
  obtain ⟨s, hs, h⟩ := Option.bind_eq_some_iff.mp h
  obtain ⟨job', hjob, h⟩ := Option.bind_eq_some_iff.mp h
  obtain ⟨rfl, rfl⟩ := Prod.mk.inj (Option.some.inj h)
  obtain ⟨-, -, -, job, -, -, -, -, rfl⟩ := jobDeviceRun_some hs
  obtain rfl := Option.some.inj hjob
  exact ⟨rfl, rfl⟩

/-- The next job is that of frame `k`. -/
theorem Encoding.deviceRun (he : Encoding chip f k (m + 1) file)
    (hcoded : f.vpuDstFmt.codecMode ≠ .none) : ∃ file',
      file.deviceRun = some (file', f.job chip k) ∧ HandleInv chip file' (some (f.job chip k)) ∧
        file'.node = { file.node with running := true } ∧ file'.qtable = file.qtable ∧
          file'.history = .started (f.job chip k) :: file.history := by
  have hdst : file.node.ctx.vpuDstFmt = some f.vpuDstFmt := he.encodesWith.vpuDstFmt.trans f.dst_eq
  have hready (type : BufType) : readyBufs (file.node.pool type) ≠ [] := by
    rw [he.ready, List.range'_succ]
    exact List.cons_ne_nil _ _
  obtain ⟨⟨file', job⟩, hrun⟩ := deviceRun_defined he.inv ⟨_, hdst, hcoded⟩ hready
  obtain ⟨hinv, hlaunched⟩ := deviceRun_spec he.inv hrun
  have hnode := deviceRun_marks hrun
  obtain ⟨hhistory, htable⟩ := deviceRun_history hrun
  have hhead (type : BufType) :
      (readyBufs (file.node.pool type)).head? = some (f.buf type k) := by
    rw [he.ready, List.range'_succ]
    rfl
  obtain ⟨hsrc, hdst⟩ := hinv.heads
  rw [hnode] at hsrc hdst
  have hjob : job = f.job chip k := by
    obtain ⟨vpuSrcFmt, hvpu, hprog⟩ := hlaunched.program_eq
    rw [hnode] at hvpu hprog
    obtain rfl : f.vpuSrcFmt = vpuSrcFmt :=
      Option.some.inj (f.src_eq.symm.trans (he.encodesWith.vpuSrcFmt.symm.trans hvpu))
    obtain ⟨src, dst, prog⟩ := job
    obtain rfl := Option.some.inj ((hhead .output).symm.trans hsrc)
    obtain rfl := Option.some.inj ((hhead .capture).symm.trans hdst)
    rw [program_congr chip he.encodesWith.srcFmt, he.encodesWith.table] at hprog
    exact congrArg (M2mJob.mk _ _) hprog
  subst hjob
  exact ⟨file', hrun, hinv, hnode, htable, hhistory⟩

/-- One job: frame `k` is encoded. -/
theorem Encoding.run_job (he : Encoding chip f k (m + 1) file)
    (hcoded : f.vpuDstFmt.codecMode ≠ .none) (outcome : U32 × BufResult) : ∃ file',
      run (fileStep chip A.val) ⟨some file, none⟩ (Frames.jobActs outcome) =
        some ⟨some file', none⟩ ∧ Encoding chip f (k + 1) m file' ∧
          completions file'.history = completions file.history ++ [f.encoded chip k outcome] := by
  obtain ⟨u, hu, hinv, hnode, htable, hhistory⟩ := he.deviceRun hcoded
  have hfinish := jobFinish_eq hinv outcome.1 outcome.2
  have hsession := session_jobFinish hinv outcome.1 outcome.2
  have hctx : u.node.ctx = file.node.ctx := by rw [hnode]
  have hseq (type : BufType) : sequenceOf u.node.ctx type = BitVec.ofNat 32 k :=
    hctx ▸ he.sequence type
  have htail (type : BufType) : (readyBufs (u.node.pool type)).tail =
      (List.range' (k + 1) m).map (f.buf type) := by
    have hpool : u.node.pool type = file.node.pool type := by
      rw [hnode]
      cases type <;> rfl
    rw [hpool, he.ready, List.range'_succ]
    rfl
  refine ⟨_, ?_, ⟨handleInv_handBack hinv outcome.1 outcome.2, ?_, fun type => ?_, fun type => ?_⟩,
    ?_⟩
  · simp only [Frames.jobActs, run, fileStep, hu, Option.bind_some, Option.map_some, hfinish]
  all_goals simp only [Handle.handBack, hsession]
  · rw [hctx]
    exact ⟨he.encodesWith.srcFmt, he.encodesWith.vpuSrcFmt, he.encodesWith.vpuDstFmt,
      htable.trans he.encodesWith.table⟩
  · cases type with
    | output => exact (readyBufs_finish (hinv.pools .output) _).trans (htail .output)
    | capture => exact (readyBufs_finish (hinv.pools .capture) _).trans (htail .capture)
  · rw [BitVec.ofNat_add, ← hseq type]
    cases type <;> rfl
  · have hout : u.node.ctx.sequenceOut = BitVec.ofNat 32 k := hseq .output
    have hcap : u.node.ctx.sequenceCap = BitVec.ofNat 32 k := hseq .capture
    rw [hout, hcap, hhistory]
    rfl

/-- All the jobs, one after the other. -/
theorem Encoding.run_jobs (hcoded : f.vpuDstFmt.codecMode ≠ .none)
    {outcomes : List (U32 × BufResult)} (he : Encoding chip f k outcomes.length file) :
    ∃ file', run (fileStep chip A.val) ⟨some file, none⟩ (outcomes.flatMap Frames.jobActs) =
      some ⟨some file', none⟩ ∧ Encoding chip f (k + outcomes.length) 0 file' ∧
        completions file'.history = completions file.history ++
          outcomes.mapIdx fun i => f.encoded chip (k + i) := by
  induction outcomes generalizing file k with
  | nil => exact ⟨file, rfl, he, (List.append_nil _).symm⟩
  | cons outcome outcomes ih =>
    obtain ⟨u, hu, heu, hcu⟩ := he.run_job (A := A) hcoded outcome
    obtain ⟨v, hv, hev, hcv⟩ := ih heu
    have hk (i : ℕ) : k + 1 + i = k + (i + 1) := by omega
    refine ⟨v, ?_, ?_, ?_⟩
    · rw [List.flatMap_cons, run_append, hu]
      exact hv
    · rw [List.length_cons, ← hk]
      exact hev
    · rw [hcv, hcu, List.mapIdx_cons, List.append_assoc]
      simp only [hk, Nat.add_zero, List.cons_append, List.nil_append]

/-- Without a waiting frame no job starts. -/
theorem Encoding.deviceRun_none (he : Encoding chip f k 0 file) : file.deviceRun = none := by
  by_contra hne
  obtain ⟨⟨file', job⟩, hrun⟩ := Option.ne_none_iff_exists'.mp hne
  obtain ⟨hsrc, -⟩ := (deviceRun_spec he.inv hrun).1.heads
  have hnil : readyBufs file.node.output = [] := he.ready .output
  rw [deviceRun_marks hrun, hnil] at hsrc
  cases hsrc

/-- There are no more jobs than waiting frames. -/
theorem Encoding.length_le (hcoded : f.vpuDstFmt.codecMode ≠ .none)
    {outcomes : List (U32 × BufResult)} (he : Encoding chip f k m file) {t : OneFile}
    (hr : run (fileStep chip A.val) ⟨some file, none⟩ (outcomes.flatMap Frames.jobActs) =
      some t) : outcomes.length ≤ m := by
  induction outcomes generalizing file k m with
  | nil => exact Nat.zero_le m
  | cons outcome outcomes ih =>
    cases m with
    | zero =>
      simp [Frames.jobActs, run, fileStep, he.deviceRun_none] at hr
    | succ m =>
      obtain ⟨u, hu, heu, -⟩ := he.run_job (A := A) hcoded outcome
      rw [List.flatMap_cons, run_append, hu] at hr
      exact Nat.succ_le_succ (ih heu hr)

end Jobs

/-! ### Sessions -/

section Session

variable {chip : Chip} {A : DmaAlign} {f : Frames} {file : Handle}

/-- The ioctls of a file are steps of it. -/
theorem run_ioctls (dmaAlign : U32) (file : Handle) (job : Option M2mJob) (ios : List Ioctl) :
    run (fileStep chip dmaAlign) ⟨some file, job⟩ (ios.map .ioctl) =
      (run (Handle.ioctl dmaAlign) file ios).map fun file => ⟨some file, job⟩ := by
  induction ios generalizing file with
  | nil => rfl
  | cons io ios ih =>
    simp only [List.map_cons, run, fileStep, Option.bind_some]
    cases file.ioctl dmaAlign io with
    | none => rfl
    | some file => exact ih file

/-- What the whole session of a client whose queues are stopped begins with. -/
theorem run_sessionSetup (hi : HandleInv chip file none) (hctx : file.node.ctx = f.ctx)
    (htable : file.qtable = f.qtable) (hstop : ∀ type, (file.node.pool type).streaming = false)
    {outcomes : List (U32 × BufResult)} (hne : outcomes ≠ []) : ∃ file',
      (∀ acts, run (fileStep chip A.val) ⟨some file, none⟩
        ((f.setup outcomes.length).map .ioctl ++ acts) =
          run (fileStep chip A.val) ⟨some file', none⟩ acts) ∧
        Encoding chip f 0 (min outcomes.length videoMaxFrame) file' ∧
          completions file'.history = completions file.history := by
  obtain ⟨u, hu, heu, hcu⟩ := run_setup (A := A) hi hctx htable hstop
    (List.length_pos_iff.mpr hne)
  refine ⟨u, fun acts => ?_, heu, hcu⟩
  rw [run_append, run_ioctls, hu]
  rfl

/-- The whole session. -/
theorem run_session (hi : HandleInv chip file none) (hctx : file.node.ctx = f.ctx)
    (htable : file.qtable = f.qtable) (hstop : ∀ type, (file.node.pool type).streaming = false)
    (hcoded : f.vpuDstFmt.codecMode ≠ .none) {outcomes : List (U32 × BufResult)}
    (hne : outcomes ≠ []) (hcap : outcomes.length ≤ videoMaxFrame) : ∃ file',
      run (fileStep chip A.val) ⟨some file, none⟩ (f.session outcomes) = some ⟨some file', none⟩ ∧
        (∀ type, readyBufs (file'.node.pool type) = []) ∧
          completions file'.history =
            completions file.history ++ outcomes.mapIdx (f.encoded chip) := by
  obtain ⟨u, hu, heu, hcu⟩ := run_sessionSetup (A := A) hi hctx htable hstop hne
  rw [Nat.min_eq_left hcap] at heu
  obtain ⟨v, hv, hev, hcv⟩ := heu.run_jobs (A := A) hcoded
  refine ⟨v, (hu _).trans hv, hev.ready, ?_⟩
  rw [hcv, hcu]
  simp only [Nat.zero_add]

/-- A session with more frames than a queue can have buffers does not get through. -/
theorem session_length_le (hi : HandleInv chip file none) (hctx : file.node.ctx = f.ctx)
    (htable : file.qtable = f.qtable) (hstop : ∀ type, (file.node.pool type).streaming = false)
    (hcoded : f.vpuDstFmt.codecMode ≠ .none) {outcomes : List (U32 × BufResult)}
    (hne : outcomes ≠ []) {t : OneFile}
    (hr : run (fileStep chip A.val) ⟨some file, none⟩ (f.session outcomes) = some t) :
    outcomes.length ≤ videoMaxFrame := by
  obtain ⟨u, hu, heu, -⟩ := run_sessionSetup (A := A) hi hctx htable hstop hne
  exact (heu.length_le (A := A) hcoded ((hu _).symm.trans hr)).trans (Nat.min_le_right ..)

end Session

end RockchipVpu.System
