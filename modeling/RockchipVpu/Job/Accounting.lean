import RockchipVpu.Base.Simulation
import RockchipVpu.Job.Finish

/-! What happens to the buffers of a context over a whole run. The history of a
session lists every call of `buf_queue`, every start and end of a job, and every
buffer that `stop_streaming` drains. In each reachable state the buffers queued so
far are those handed back so far followed by those still in the queue, in the same
order, and each completion hands back the two buffers its job was programmed with,
numbered by the completions since the queue was started. The jobs started are those
completed and the running one, and every handler that finds a job completes it. -/

namespace RockchipVpu.Job

open Base Format Queue Hw

/-! ### Reading a history -/

/-- The buffers given to `buf_queue`, the first one first. -/
def queuedOf (type : BufType) : List Event → List M2mBuffer
  | [] => []
  | .queued t buf :: h => if t = type then queuedOf type h ++ [buf] else queuedOf type h
  | _ :: h => queuedOf type h

def Completion.buf (c : Completion) : BufType → M2mBuffer
  | .output => c.src
  | .capture => c.dst

/-- The buffers given to `v4l2_m2m_buf_done`, the first one first. -/
def returnedOf (type : BufType) : List Event → List M2mBuffer
  | [] => []
  | .completed c :: h => returnedOf type h ++ [c.buf type]
  | .drained t buf _ :: h => if t = type then returnedOf type h ++ [buf] else returnedOf type h
  | _ :: h => returnedOf type h

/-- The jobs of the run function, the first one first. -/
def startedJobs : List Event → List M2mJob
  | [] => []
  | .started job :: h => startedJobs h ++ [job]
  | _ :: h => startedJobs h

/-- The completions of a history, the first one first. -/
def completions : List Event → List Completion
  | [] => []
  | .completed c :: h => completions h ++ [c]
  | _ :: h => completions h

def completedJobs (h : List Event) : List M2mJob := (completions h).map Completion.job

/-- The completions since the last STREAMON of the queue. -/
def completionsSince (type : BufType) : List Event → ℕ
  | [] => 0
  | .streamon t :: h => if t = type then 0 else completionsSince type h
  | .completed _ :: h => completionsSince type h + 1
  | _ :: h => completionsSince type h

/-- The job started last. -/
def lastStarted : List Event → Option M2mJob
  | [] => none
  | .started job :: _ => some job
  | _ :: h => lastStarted h

/-! ### The law of a completion -/

/-- The address writes of the program are those for the two buffers of the job. -/
def Programmed (job : M2mJob) : Prop :=
  ∃ regs ctx, (regs = rk3288JpegRegs ∨ regs = rk3399JpegRegs) ∧
    jpegEncSetBuffers regs ctx job.src.vb job.dst.vb <:+: job.program

/-- What the capture buffer takes from the source buffer. -/
structure CopiesMetadata (src dst dstDone : Vb2Buffer) : Prop where
  timestamp_eq : dstDone.timestamp = src.timestamp
  timecode_eq : dstDone.timecode = src.timecode
  field_eq : dstDone.field = src.field
  tstampFlags_eq : dstDone.flags &&& tstampSrcMask = src.flags &&& tstampSrcMask
  otherFlags_eq : dstDone.flags &&& ~~~tstampSrcMask = dst.flags &&& ~~~tstampSrcMask

structure CompletionLaw (c : Completion) (earlier : List Event) : Prop where
  started : lastStarted earlier = some c.job
  programmed : Programmed c.job
  src_eq : c.src = c.job.src
  dst_eq : c.dst = c.job.dst
  srcDone_eq : c.srcDone =
    { c.src.vb with sequence := BitVec.ofNat 32 (completionsSince .output earlier) }
  dstSequence_eq : c.dstDone.sequence = BitVec.ofNat 32 (completionsSince .capture earlier)
  metadata : CopiesMetadata c.src.vb c.dst.vb c.dstDone

/-- Buffers that are drained go back with an error and nothing else is promised of
the other events. -/
def EventLaw : Event → List Event → Prop
  | .completed c, earlier => CompletionLaw c earlier
  | .drained _ _ result, _ => result = .error
  | _, _ => True

/-- No buffer is lost, duplicated or mispaired, and no job is left behind. -/
structure Accounted (s : Session) : Prop where
  fifo : ∀ type, queuedOf type s.history = returnedOf type s.history ++ (s.queue type).bufs
  lawful : Lawful EventLaw s.history
  jobs : startedJobs s.history = completedJobs s.history ++ s.job.toList

/-! ### The invariant -/

def sequenceOf (ctx : Ctx) : BufType → U32
  | .output => ctx.sequenceOut
  | .capture => ctx.sequenceCap

/-- The running job was programmed with the buffers that are still the heads. -/
structure RunsHeads (s : Session) (job : M2mJob) : Prop where
  src_head : (s.queue .output).bufs.head? = some job.src
  dst_head : (s.queue .capture).bufs.head? = some job.dst
  started : lastStarted s.history = some job
  programmed : Programmed job

structure SessionInv (s : Session) : Prop extends Accounted s where
  sequence : ∀ type, sequenceOf s.ctx type = BitVec.ofNat 32 (completionsSince type s.history)
  running : ∀ job, s.job = some job → RunsHeads s job

theorem sessionInv_open (ctx : Ctx) (qtable : Option JpegQuantization) :
    SessionInv (openSession ctx qtable) where
  fifo type := by cases type <;> rfl
  lawful := trivial
  jobs := rfl
  sequence type := by cases type <;> rfl
  running job h := by cases h

/-! ### Queueing and starting -/

/-- Queueing appends, so the heads stay. -/
theorem head_bufQueue {s : Session} {type t : BufType} {buf b : M2mBuffer}
    (h : (s.queue t).bufs.head? = some b) :
    ((bufQueue s type buf).queue t).bufs.head? = some b := by
  by_cases ht : t = type
  · subst ht
    simp [bufQueue, List.head?_append, h]
  · simpa [bufQueue, ht] using h

theorem sessionInv_bufQueue {s : Session} (hi : SessionInv s) (type : BufType) (buf : M2mBuffer) :
    SessionInv (bufQueue s type buf) where
  fifo t := by
    have hf := hi.fifo t
    by_cases ht : t = type
    · subst ht
      simp [bufQueue, queuedOf, returnedOf, hf]
    · simp [bufQueue, queuedOf, returnedOf, hf, ht, Ne.symm ht]
  lawful := ⟨trivial, hi.lawful⟩
  jobs := hi.jobs
  sequence t := hi.sequence t
  running job hj := by
    have hr := hi.running job hj
    exact ⟨head_bufQueue hr.src_head, head_bufQueue hr.dst_head, hr.started, hr.programmed⟩

/-- Both run functions write the addresses of the two buffers they are given. -/
theorem jpegProgram_infix {fn : RunFn} {ctx : Ctx} {qtable : Option JpegQuantization}
    {program : Ctx → Option JpegQuantization → Vb2Buffer → Vb2Buffer → Option (List Write)}
    {src dst : Vb2Buffer} {writes : List Write} (hfn : jpegProgram fn = some program)
    (h : program ctx qtable src dst = some writes) :
    ∃ regs, (regs = rk3288JpegRegs ∨ regs = rk3399JpegRegs) ∧
      jpegEncSetBuffers regs ctx src dst <:+: writes := by
  cases fn with
  | rk3288JpegEncRun =>
    obtain rfl := Option.some.inj hfn
    obtain ⟨fmt, -, h⟩ := Option.bind_eq_some_iff.mp h
    obtain ⟨table, -, h⟩ := Option.bind_eq_some_iff.mp h
    obtain rfl := Option.some.inj h
    refine ⟨_, .inl rfl, ?_⟩
    rw [List.append_assoc _ (rk3288VpuJpegEncSetQtable table)]
    exact List.infix_append _ _ _
  | rk3399JpegEncRun =>
    obtain rfl := Option.some.inj hfn
    obtain ⟨fmt, -, h⟩ := Option.bind_eq_some_iff.mp h
    obtain ⟨table, -, h⟩ := Option.bind_eq_some_iff.mp h
    obtain rfl := Option.some.inj h
    refine ⟨_, .inr rfl, ?_⟩
    rw [List.append_assoc _ (rk3399VpuJpegEncSetQtable table)]
    exact List.infix_append _ _ _
  | rk3288H264DecRun => cases hfn
  | rk3288Vp8DecRun => cases hfn

/-- What a started job is. -/
theorem deviceRun_some {s s' : Session} (h : deviceRun s = some s') :
    ∃ job, (s.queue .output).bufs.head? = some job.src ∧
      (s.queue .capture).bufs.head? = some job.dst ∧ Programmed job ∧
      s' = { s with job := some job, history := .started job :: s.history } := by
  obtain ⟨ops, -, h⟩ := Option.bind_eq_some_iff.mp h
  obtain ⟨fn, -, h⟩ := Option.bind_eq_some_iff.mp h
  obtain ⟨program, hprogram, h⟩ := Option.bind_eq_some_iff.mp h
  obtain ⟨src, hsrc, h⟩ := Option.bind_eq_some_iff.mp h
  obtain ⟨dst, hdst, h⟩ := Option.bind_eq_some_iff.mp h
  obtain ⟨writes, hwrites, h⟩ := Option.bind_eq_some_iff.mp h
  obtain ⟨regs, hregs, hinfix⟩ := jpegProgram_infix hprogram hwrites
  exact ⟨⟨src, dst, writes⟩, hsrc, hdst, ⟨regs, s.ctx, hregs, hinfix⟩,
    (Option.some.inj h).symm⟩

theorem sessionInv_deviceRun {s s' : Session} (hi : SessionInv s) (hidle : s.job = none)
    (h : deviceRun s = some s') : SessionInv s' := by
  obtain ⟨job, hsrc, hdst, hprog, rfl⟩ := deviceRun_some h
  refine ⟨⟨hi.fifo, ⟨trivial, hi.lawful⟩, ?_⟩, hi.sequence, fun j hj => ?_⟩
  · have hjobs : startedJobs s.history = completedJobs s.history := by simpa [hidle] using hi.jobs
    exact congrArg (· ++ [job]) hjobs
  · obtain rfl := Option.some.inj hj
    exact ⟨hsrc, hdst, rfl, hprog⟩

/-! ### Completing -/

theorem copiesMetadata_copyMetadata (sequence bytesused : U32) (src dst : Vb2Buffer) :
    CopiesMetadata src dst (copyMetadata sequence bytesused src dst) := by
  have hin : ((dst.flags &&& ~~~tstampSrcMask) ||| (src.flags &&& tstampSrcMask)) &&&
      tstampSrcMask = src.flags &&& tstampSrcMask := by
    ext i
    simp only [BitVec.getElem_and, BitVec.getElem_or, BitVec.getElem_not]
    cases tstampSrcMask[i] <;> simp
  have hout : ((dst.flags &&& ~~~tstampSrcMask) ||| (src.flags &&& tstampSrcMask)) &&&
      ~~~tstampSrcMask = dst.flags &&& ~~~tstampSrcMask := by
    ext i
    simp only [BitVec.getElem_and, BitVec.getElem_or, BitVec.getElem_not]
    cases tstampSrcMask[i] <;> simp
  unfold copyMetadata
  split_ifs <;> exact ⟨rfl, rfl, rfl, hin, hout⟩

theorem copyMetadata_sequence (sequence bytesused : U32) (src dst : Vb2Buffer) :
    (copyMetadata sequence bytesused src dst).sequence = sequence := by
  unfold copyMetadata
  split_ifs <;> rfl

/-- The handler that ends the running job completes it. -/
theorem completedJobs_jobFinish {s : Session} (hi : SessionInv s) {job : M2mJob}
    (hj : s.job = some job) (bytesused : U32) (result : BufResult) :
    completedJobs (jobFinish s job bytesused result).history =
      completedJobs s.history ++ [job] := by
  obtain ⟨hsrc, hdst, -, -⟩ := hi.running job hj
  simp [jobFinish, M2mQueue.bufRemove, hsrc, hdst, completedJobs, completions]

/-- It hands back exactly the buffers of that job. -/
theorem sessionInv_jobFinish {s : Session} (hi : SessionInv s) {job : M2mJob}
    (hj : s.job = some job) (bytesused : U32) (result : BufResult) :
    SessionInv (jobFinish s job bytesused result) := by
  obtain ⟨hsrc, hdst, hstarted, hprog⟩ := hi.running job hj
  obtain ⟨out, hout⟩ := List.head?_eq_some_iff.mp hsrc
  obtain ⟨cap, hcap⟩ := List.head?_eq_some_iff.mp hdst
  have hso := hi.sequence .output
  have hsc := hi.sequence .capture
  simp only [sequenceOf] at hso hsc
  simp only [jobFinish, M2mQueue.bufRemove, hout, hcap, List.head?_cons, List.tail_cons]
  refine ⟨⟨fun t => ?_, ⟨⟨hstarted, hprog, rfl, rfl, ?_, ?_, ?_⟩, hi.lawful⟩, ?_⟩, fun t => ?_,
    fun j hj => ?_⟩
  · have hf := hi.fifo t
    cases t <;> simp [queuedOf, returnedOf, Completion.buf, hf, hout, hcap]
  · rw [hso]
  · rw [copyMetadata_sequence, hsc]
  · exact copiesMetadata_copyMetadata _ _ _ _
  · have hjobs := hi.jobs
    simp only [hj, completedJobs] at hjobs
    simp [startedJobs, completedJobs, completions, hjobs]
  · have hs := hi.sequence t
    cases t <;> simp [sequenceOf, completionsSince, hso, hsc, BitVec.ofNat_add]
  · cases hj

theorem sessionInv_irqDone {s : Session} (hi : SessionInv s) (bytesused : U32)
    (result : BufResult) : SessionInv (irqDone s bytesused result) := by
  unfold irqDone
  cases hj : s.job with
  | none => exact hi
  | some job => exact sessionInv_jobFinish hi hj bytesused result

theorem sessionInv_watchdog {s s' : Session} (hi : SessionInv s) (h : watchdog s = some s') :
    SessionInv s' := by
  unfold watchdog at h
  cases hj : s.job with
  | none =>
    simp only [hj, Option.some.injEq] at h
    exact h ▸ hi
  | some job =>
    simp only [hj] at h
    obtain ⟨ops, -, h⟩ := Option.bind_eq_some_iff.mp h
    obtain ⟨reset, -, h⟩ := Option.bind_eq_some_iff.mp h
    obtain rfl := Option.some.inj h
    exact sessionInv_jobFinish hi hj 0 .error

/-! ### Draining -/

section Drain
variable (type : BufType)

/-- A reading of the history that passes over drained buffers. -/
theorem drain_unseen {δ : Type*} {f : List Event → δ}
    (hf : ∀ buf h, f (.drained type buf .error :: h) = f h) (bufs : List M2mBuffer)
    (h : List Event) : f (drain type bufs h) = f h := by
  induction bufs generalizing h with
  | nil => rfl
  | cons buf bufs ih => rw [drain, ih, hf]

theorem queuedOf_drain (t : BufType) (bufs : List M2mBuffer) (h : List Event) :
    queuedOf t (drain type bufs h) = queuedOf t h :=
  drain_unseen type (fun _ _ => rfl) bufs h

theorem completionsSince_drain (t : BufType) (bufs : List M2mBuffer) (h : List Event) :
    completionsSince t (drain type bufs h) = completionsSince t h :=
  drain_unseen type (fun _ _ => rfl) bufs h

theorem startedJobs_drain (bufs : List M2mBuffer) (h : List Event) :
    startedJobs (drain type bufs h) = startedJobs h :=
  drain_unseen type (fun _ _ => rfl) bufs h

theorem completedJobs_drain (bufs : List M2mBuffer) (h : List Event) :
    completedJobs (drain type bufs h) = completedJobs h :=
  drain_unseen type (fun _ _ => rfl) bufs h

theorem returnedOf_drain (t : BufType) (bufs : List M2mBuffer) (h : List Event) :
    returnedOf t (drain type bufs h) =
      returnedOf t h ++ if type = t then bufs else [] := by
  induction bufs generalizing h with
  | nil => simp [drain]
  | cons buf bufs ih =>
    rw [drain, ih, returnedOf]
    split_ifs <;> simp

theorem lawful_drain (bufs : List M2mBuffer) {h : List Event} (hl : Lawful EventLaw h) :
    Lawful EventLaw (drain type bufs h) := by
  induction bufs generalizing h with
  | nil => exact hl
  | cons buf bufs ih => exact ih ⟨rfl, hl⟩

end Drain

/-- Starting a queue resets its counter and leaves the buffers alone. -/
theorem sessionInv_streamon {s s' : Session} {type : BufType} (hi : SessionInv s)
    (h : streamon s type = some s') : SessionInv s' := by
  simp only [streamon] at h
  split_ifs at h
  · exact Option.some.inj h ▸ hi
  · obtain ⟨ctx, hc, h⟩ := Option.bind_eq_some_iff.mp h
    obtain rfl := Option.some.inj h
    obtain ⟨dst, -, rfl⟩ := startStreaming_some hc
    have hbufs : ∀ t, (Function.update s.queue type
        { s.queue type with streaming := true } t).bufs = (s.queue t).bufs := by
      intro t
      by_cases ht : t = type
      · subst ht; simp
      · simp [ht]
    refine ⟨⟨fun t => ?_, ⟨trivial, hi.lawful⟩, hi.jobs⟩, fun t => ?_, fun j hj => ?_⟩
    · rw [hbufs]
      exact hi.fifo t
    · have hs := hi.sequence t
      cases t <;> cases type <;> first | rfl | exact hs
    · obtain ⟨hsrc, hdst, hstarted, hprog⟩ := hi.running j hj
      exact ⟨by rw [hbufs]; exact hsrc, by rw [hbufs]; exact hdst, hstarted, hprog⟩

theorem sessionInv_streamoff {s s' : Session} {type : BufType} (hi : SessionInv s)
    (h : streamoff s type = some s') : SessionInv s' := by
  unfold streamoff at h
  split_ifs at h with hjob
  · obtain rfl := Option.some.inj h
    refine ⟨⟨fun t => ?_, lawful_drain type _ hi.lawful, ?_⟩, fun t => ?_, fun j hj => ?_⟩
    · have hf := hi.fifo t
      simp only [stopStreaming, queuedOf_drain, returnedOf_drain, hf]
      by_cases ht : t = type
      · subst ht; simp
      · simp [ht, Ne.symm ht]
    · simpa [stopStreaming, startedJobs_drain, completedJobs_drain] using hi.jobs
    · simpa [stopStreaming, completionsSince_drain] using hi.sequence t
    · have hsome : s.job = some j := hj
      simp [hsome] at hjob
  · exact Option.some.inj h ▸ hi

/-! ### Runs -/

theorem sessionInv_step {chip : Chip} {s s' : Session} {act : JobAct} (hi : SessionInv s)
    (h : jobStep chip s act = some s') : SessionInv s' := by
  cases act with
  | bufQueue type buf => exact Option.some.inj h ▸ sessionInv_bufQueue hi type buf
  | deviceRun =>
    simp only [jobStep] at h
    split_ifs at h with hbusy
    exact sessionInv_deviceRun hi (by simpa using hbusy) h
  | irq status limit => exact Option.some.inj h ▸ sessionInv_irqDone hi _ _
  | watchdog => exact sessionInv_watchdog hi h
  | streamon type => exact sessionInv_streamon hi h
  | streamoff type => exact sessionInv_streamoff hi h

/-- The jobs that a step is to end: a handler ends the job it finds. -/
def endedJobs (s : Session) : JobAct → List M2mJob
  | .irq _ _ | .watchdog => s.job.toList
  | .bufQueue _ _ | .deviceRun | .streamon _ | .streamoff _ => []

/-- A step completes the jobs that it is to end and no others. -/
theorem completedJobs_step {chip : Chip} {s s' : Session} {act : JobAct} (hi : SessionInv s)
    (h : jobStep chip s act = some s') :
    completedJobs s'.history = completedJobs s.history ++ endedJobs s act := by
  cases act with
  | bufQueue type buf =>
    obtain rfl := Option.some.inj h
    exact (List.append_nil _).symm
  | deviceRun =>
    simp only [jobStep] at h
    split_ifs at h
    obtain ⟨job, -, -, -, rfl⟩ := deviceRun_some h
    exact (List.append_nil _).symm
  | irq status limit =>
    obtain rfl := Option.some.inj h
    cases hj : s.job with
    | none => simp [irqDone, endedJobs, hj]
    | some job => simpa [irqDone, endedJobs, hj] using completedJobs_jobFinish hi hj _ _
  | watchdog =>
    simp only [jobStep, watchdog] at h
    cases hj : s.job with
    | none =>
      simp only [hj, Option.some.injEq] at h
      simp [← h, endedJobs, hj]
    | some job =>
      simp only [hj] at h
      obtain ⟨ops, -, h⟩ := Option.bind_eq_some_iff.mp h
      obtain ⟨reset, -, h⟩ := Option.bind_eq_some_iff.mp h
      obtain rfl := Option.some.inj h
      simpa [endedJobs, hj] using completedJobs_jobFinish hi hj 0 .error
  | streamon type =>
    simp only [jobStep, streamon] at h
    split_ifs at h
    · obtain rfl := Option.some.inj h
      exact (List.append_nil _).symm
    · obtain ⟨ctx, -, h⟩ := Option.bind_eq_some_iff.mp h
      obtain rfl := Option.some.inj h
      exact (List.append_nil _).symm
  | streamoff type =>
    simp only [jobStep, streamoff] at h
    split_ifs at h
    · obtain rfl := Option.some.inj h
      simp [stopStreaming, completedJobs_drain, endedJobs]
    · obtain rfl := Option.some.inj h
      exact (List.append_nil _).symm

/-- Over every run of a context, whatever its formats, the buffers queued are those
handed back followed by those still queued, in the same order, and every completion
hands back the pair that was programmed, with the metadata of its source and numbered
since the last STREAMON. The jobs started are those completed and the running one, and
those completed are the jobs that the interrupts and the watchdogs of the run found, each
once and in this order. -/
theorem buffers_accounted (chip : Chip) (ctx : Ctx) (qtable : Option JpegQuantization)
    {acts : List JobAct} {s : Session}
    (h : run (jobStep chip) (openSession ctx qtable) acts = some s) :
    Accounted s ∧
      completedJobs s.history =
        answers (jobStep chip) endedJobs (openSession ctx qtable) acts := by
  have hopen := sessionInv_open ctx qtable
  have hinv : SessionInv s := (reach_of_run_any h).invariant hopen
    fun _ _ _ hi _ hs => sessionInv_step hi hs
  have hlog := log_eq_answers (P := SessionInv) (fun hi hs => sessionInv_step hi hs)
    (fun hi hs => completedJobs_step hi hs) hopen h
  exact ⟨hinv.toAccounted, hlog⟩

/-- A first job ended by the interrupt, a second one by the watchdog, and a third
source buffer that STREAMOFF drains. -/
def threeBuffers : List JobAct := [
  .bufQueue .output ⟨0, { numPlanes := 1 }⟩, .bufQueue .capture ⟨0, { numPlanes := 1 }⟩,
  .streamon .output, .streamon .capture, .deviceRun, .bufQueue .output ⟨1, { numPlanes := 1 }⟩,
  .irq 4 800, .bufQueue .capture ⟨1, { numPlanes := 1 }⟩, .deviceRun,
  .bufQueue .output ⟨2, { numPlanes := 1 }⟩, .watchdog, .streamoff .output]

theorem buffers_accounted_threeBuffers : ∃ s,
    run (jobStep .rk3288) (openSession (opened .rk3288) (some ⟨fun _ => 1, fun _ => 1⟩))
        threeBuffers = some s ∧ Accounted s ∧
      (completedJobs s.history).map (fun job => (job.src.index, job.dst.index)) =
        [(0, 0), (1, 1)] := by
  have hsome : (run (jobStep .rk3288)
      (openSession (opened .rk3288) (some ⟨fun _ => 1, fun _ => 1⟩)) threeBuffers).isSome := by
    decide
  obtain ⟨s, hs⟩ := Option.isSome_iff_exists.mp hsome
  obtain ⟨haccounted, hcompleted⟩ :=
    buffers_accounted .rk3288 (opened .rk3288) (some ⟨fun _ => 1, fun _ => 1⟩) hs
  exact ⟨s, hs, haccounted, by rw [hcompleted]; decide⟩

end RockchipVpu.Job
