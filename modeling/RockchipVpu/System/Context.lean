import RockchipVpu.System.Handle

/-! The accounting of a file. Whatever ioctls a file makes, what mem2mem sees of it is a
session whose buffers are accounted for: an ioctl that reaches mem2mem is one or several of
the calls that a session knows, and no other changes what mem2mem sees. -/

namespace RockchipVpu.System

open Base Format Queue Hw Job

/-! ### Sessions up to what the accounting reads -/

theorem sessionInv_congr {s s' : Session} (hi : SessionInv s)
    (hseq : ∀ t, sequenceOf s'.ctx t = sequenceOf s.ctx t)
    (hbufs : ∀ t, (s'.queue t).bufs = (s.queue t).bufs) (hjob : s'.job = s.job)
    (hhist : s'.history = s.history) : SessionInv s' where
  fifo t := by
    rw [hhist, hbufs]
    exact hi.fifo t
  lawful := hhist ▸ hi.lawful
  jobs := by
    rw [hhist, hjob]
    exact hi.jobs
  sequence t := by
    rw [hseq, hhist]
    exact hi.sequence t
  running job hj := by
    obtain ⟨hsrc, hdst, hstarted, hprog⟩ := hi.running job (hjob ▸ hj)
    exact ⟨by rw [hbufs]; exact hsrc, by rw [hbufs]; exact hdst, hhist ▸ hstarted, hprog⟩

/-- Several buffers queued one after the other. -/
theorem sessionInv_queueAll {s s' : Session} (hi : SessionInv s) (type : BufType)
    (bufs : List M2mBuffer) (hseq : ∀ t, sequenceOf s'.ctx t = sequenceOf s.ctx t)
    (hbufs : ∀ t, (s'.queue t).bufs = (s.queue t).bufs ++ if t = type then bufs else [])
    (hjob : s'.job = s.job) (hhist : s'.history = queueAll type bufs s.history) :
    SessionInv s' := by
  induction bufs generalizing s with
  | nil => exact sessionInv_congr hi hseq (fun t => by rw [hbufs]; simp) hjob hhist
  | cons buf bufs ih =>
    refine ih (sessionInv_bufQueue hi type buf) hseq (fun t => ?_) hjob hhist
    rw [hbufs]
    by_cases ht : t = type
    · subst ht
      simp [bufQueue]
    · simp [bufQueue, ht]

theorem sessionInv_openHandle (chip : Chip) (qtable : JpegQuantization) :
    SessionInv ((openHandle chip qtable).session none) where
  fifo type := by cases type <;> rfl
  lawful := trivial
  jobs := rfl
  sequence type := by
    cases chip <;> cases type <;> rfl
  running job h := by cases h

/-! ### Ioctls that mem2mem does not see -/

/-- S_FMT does not touch the counters. -/
theorem vidiocSFmt_sequence {dmaAlign : U32} {q : Queues} {ctx ctx' : Ctx} {type : BufType}
    {f f' : PixFormatMplane} {r : Ret}
    (h : vidiocSFmt dmaAlign q ctx type f = some (r, ctx', f')) (t : BufType) :
    sequenceOf ctx' t = sequenceOf ctx t := by
  cases type with
  | output => cases vidiocSFmtOut_exit h <;> cases t <;> rfl
  | capture =>
    cases vidiocSFmtCap_exit h with
    | streaming => rfl
    | peerBusy => cases t <;> rfl
    | stored hq ht hr =>
      obtain ⟨src, -, hr⟩ := Option.bind_eq_some_iff.mp hr
      obtain ⟨dst, -, hr⟩ := Option.bind_eq_some_iff.mp hr
      obtain rfl := Option.some.inj hr
      cases t <;> rfl

section Silent
variable {node node' : Node} {type : BufType}

theorem readyBufs_reqbufs {count : ℕ} (h : reqbufs node type count = some node')
    (addr : ℕ → Plane → U32) (t : BufType) :
    readyBufs (((Ioctl.reqbufs type count addr).place node node').pool t) =
      readyBufs (node.pool t) := by
  unfold reqbufs at h
  simp only [Ioctl.place]
  split_ifs at h with hs
  · obtain rfl := Option.some.inj h
    rw [if_pos hs]
  · obtain ⟨⟨r, n, sizes⟩, -, h⟩ := Option.bind_eq_some_iff.mp h
    obtain rfl := Option.some.inj h
    rw [if_neg hs, pool_setPool]
    split_ifs with ht
    · subst ht
      have hstop : (node.pool t).streaming = false := by simpa using hs
      rw [readyBufs_stopped hstop, pool_setPool, if_pos rfl]
      exact readyBufs_stopped hstop
    · rw [pool_setPool, if_neg ht]

/-- The slots in the queue are older than the new ones. -/
theorem readyBufs_placeFrom {P : Vb2Buffer → Prop} {p p' : Pool Vb2Buffer} (hv : p.Valid P)
    (hs : p'.streaming = p.streaming) (hq : p'.queue = p.queue) (hc : p'.contents = p.contents)
    (addr : ℕ → Plane → U32) :
    readyBufs (p'.adjust (placeFrom p.slots.length addr)) = readyBufs p := by
  refine readyBufs_congr hs ?_
  rw [Pool.contents_adjust, hc]
  intro i hi vb
  obtain ⟨b, hb⟩ := hv.queued i (hq ▸ hi)
  exact if_pos (List.getElem?_eq_some_iff.mp hb).1

theorem readyBufs_createBufs {count n : ℕ} {sizes : Plane → U32} (hv : PoolsValid node)
    (h : createBufs node type count n sizes = some node') (addr : ℕ → Plane → U32) (t : BufType) :
    readyBufs (((Ioctl.createBufs type count n sizes addr).place node node').pool t) =
      readyBufs (node.pool t) := by
  have hsame : readyBufs ((node.pool type).adjust (placeFrom (node.pool type).slots.length addr)) =
      readyBufs (node.pool type) := readyBufs_placeFrom (hv type) rfl rfl rfl addr
  have hrefused : readyBufs (((Ioctl.createBufs type count n sizes addr).place node node).pool t) =
      readyBufs (node.pool t) := by
    simp only [Ioctl.place, pool_setPool]
    split_ifs with ht
    · rw [ht, hsame]
    · rfl
  simp only [createBufs] at h
  split_ifs at h with h0
  · obtain rfl := Option.some.inj h
    exact hrefused
  · split at h
    · cases h
    · obtain rfl := Option.some.inj h
      exact hrefused
    · next n' sizes' hq =>
      obtain rfl := Option.some.inj h
      let granted := min count (videoMaxFrame - (node.pool type).slots.length)
      have hstreaming : ((node.pool type).alloc granted (newBuffer n' sizes')).streaming =
          (node.pool type).streaming := rfl
      have halloc := (hv type).contents_alloc granted (newBuffer n' sizes')
      simp only [Ioctl.place, pool_setPool, if_true]
      split_ifs with ht
      · rw [ht]
        exact readyBufs_placeFrom (hv type) hstreaming rfl halloc addr
      · rfl

theorem readyBufs_prepareBuf {i : ℕ} {field : U32} (hv : PoolsValid node)
    (h : prepareBuf node type i field = some node') (t : BufType) :
    readyBufs (node'.pool t) = readyBufs (node.pool t) := by
  unfold prepareBuf at h
  split at h
  · next vb hb =>
    split at h
    · cases h
    · obtain rfl := Option.some.inj h
      rw [pool_setPool]
      split_ifs with ht
      · rw [ht]
        exact readyBufs_congr rfl ((hv type).contents_dequeue hb (by simp))
      · rfl
    · obtain rfl := Option.some.inj h
      rw [pool_setPool]
      split_ifs with ht
      · rw [ht]
        exact readyBufs_congr rfl ((hv type).contents_prepare hb (by simp))
      · rfl
  · obtain rfl := Option.some.inj h
    rfl

theorem readyBufs_dqbuf (hv : PoolsValid node) (type : BufType) (i : ℕ) (t : BufType) :
    readyBufs ((dqbuf node type i).pool t) = readyBufs (node.pool t) := by
  unfold dqbuf
  split
  · next vb hb =>
    rw [pool_setPool]
    split_ifs with ht
    · rw [ht]
      exact readyBufs_congr rfl ((hv type).contents_dequeue hb (by simp))
    · rfl
  · rfl

end Silent

/-- The buffers of the pool and the counters are all that the accounting reads of a node. -/
theorem sessionInv_silent {h : Handle} {job : Option M2mJob} (hi : SessionInv (h.session job))
    {node : Node} (hseq : ∀ t, sequenceOf node.ctx t = sequenceOf h.node.ctx t)
    (hready : ∀ t, readyBufs (node.pool t) = readyBufs (h.node.pool t)) :
    SessionInv (({ h with node := node } : Handle).session job) :=
  sessionInv_congr hi hseq hready rfl rfl

/-! ### Ioctls that it sees -/

/-- The buffer of QBUF is passed to the driver when it is accepted and the queue streams. -/
theorem readyBufs_qbuf {node node' : Node} {type : BufType} {i : ℕ} {field : U32}
    (hv : PoolsValid node) (h : qbuf node type i field = some node') :
    node'.ctx = node.ctx ∧ ∃ bufs, ∀ t, readyBufs (node'.pool t) =
      readyBufs (node.pool t) ++ if t = type then bufs else [] := by
  have hsame : ∀ t, readyBufs (node.pool t) =
      readyBufs (node.pool t) ++ if t = type then [] else [] := by simp
  have hpassed {st : SlotState} {vb vb' : Vb2Buffer} (hb : (node.pool type).Holds i st vb)
      (hst : st ≠ .queued) : ∃ bufs, ∀ t,
        readyBufs ((node.setPool type ((node.pool type).enqueue i vb')).pool t) =
          readyBufs (node.pool t) ++ if t = type then bufs else [] := by
    refine ⟨if (node.pool type).streaming then [⟨i, vb'⟩] else [], fun t => ?_⟩
    rw [pool_setPool]
    by_cases ht : t = type
    · rw [if_pos ht, if_pos ht, ht]
      exact readyBufs_enqueue (hv type) hb hst
    · rw [if_neg ht, if_neg ht, List.append_nil]
  unfold qbuf at h
  split at h
  · next vb hb =>
    split at h
    · cases h
    · obtain rfl := Option.some.inj h
      refine ⟨setPool_ctx .., [], fun t => ?_⟩
      rw [pool_setPool]
      split_ifs with ht
      · rw [ht, List.append_nil]
        exact readyBufs_congr rfl ((hv type).contents_dequeue hb (by simp))
      · rw [List.append_nil]
    · obtain rfl := Option.some.inj h
      exact ⟨setPool_ctx .., hpassed hb (by simp)⟩
  · next vb hb =>
    obtain rfl := Option.some.inj h
    exact ⟨setPool_ctx .., hpassed hb (by simp)⟩
  · obtain rfl := Option.some.inj h
    exact ⟨rfl, [], hsame⟩

/-- STREAMON passes all queued buffers to the driver before it starts the queue. -/
theorem sessionInv_start {h : Handle} {job : Option M2mJob} (hi : SessionInv (h.session job))
    {type : BufType} {ctx' : Ctx} (hstop : (h.node.pool type).streaming = false)
    (hs : startStreaming type h.node.ctx = some ctx') {node : Node}
    (hnode : node = { h.node.setPool type (h.node.pool type).start with ctx := ctx' }) :
    SessionInv (({ h with
      node := node
      history := .streamon type :: queueAll type (readyBufs (node.pool type)) h.history } :
        Handle).session job) := by
  let passed : Session := { h.session job with
    queue := Function.update (h.session job).queue type
      ⟨readyBufs (h.node.pool type).start, false⟩
    history := queueAll type (readyBufs (h.node.pool type).start) h.history }
  have hpassed : SessionInv passed := by
    refine sessionInv_queueAll hi type (readyBufs (h.node.pool type).start) (fun _ => rfl)
      (fun t => ?_) rfl rfl
    by_cases ht : t = type
    · subst ht
      have hnil : ((h.session job).queue t).bufs = [] := readyBufs_stopped hstop
      simp [passed, hnil]
    · simp [passed, ht]
  have hstart : Job.streamon passed type = some { passed with
      ctx := ctx'
      queue := Function.update passed.queue type { passed.queue type with streaming := true }
      history := .streamon type :: passed.history } := by
    have hctx : startStreaming type passed.ctx = some ctx' := hs
    simp [Job.streamon, passed, hctx]
  have hpool : node.pool type = (h.node.pool type).start := by
    rw [hnode]
    cases type <;> rfl
  refine sessionInv_congr (sessionInv_streamon hpassed hstart) (fun t => ?_) (fun t => ?_) rfl ?_
  · rw [hnode]
    rfl
  · by_cases ht : t = type
    · subst ht
      simp [passed, Handle.session, m2mQueue, hpool]
    · have hother : node.pool t = h.node.pool t := by
        rw [hnode]
        cases type <;> cases t <;> first | rfl | exact absurd rfl ht
      simp [passed, Handle.session, m2mQueue, ht, hother]
  · exact congrArg (fun p => Event.streamon type :: queueAll type (readyBufs p) h.history) hpool

/-- STREAMOFF hands back the buffers of a queue that streams. -/
theorem sessionInv_cancel {h : Handle} (hi : SessionInv (h.session none)) (type : BufType) :
    SessionInv (({ h with
      node := h.node.setPool type (h.node.pool type).cancel
      history := if (h.node.pool type).streaming then
        drain type (readyBufs (h.node.pool type)) h.history else h.history } :
        Handle).session none) := by
  have hready (t : BufType) :
      readyBufs ((h.node.setPool type (h.node.pool type).cancel).pool t) =
        if t = type then [] else readyBufs (h.node.pool t) := by
    rw [pool_setPool]
    split_ifs <;> rfl
  by_cases hs : (h.node.pool type).streaming = true
  · have hoff : Job.streamoff (h.session none) type =
        some (stopStreaming (h.session none) type) := by
      have hq : ((h.session none).queue type).streaming = true := hs
      unfold Job.streamoff
      rw [if_neg (show ¬ (h.session none).job.isSome = true by simp [Handle.session]), if_pos hq]
    refine sessionInv_congr (sessionInv_streamoff hi hoff) (fun t => ?_) (fun t => ?_) rfl ?_
    · simp [stopStreaming, Handle.session]
    · refine (hready t).trans ?_
      by_cases ht : t = type
      · subst ht
        simp [stopStreaming]
      · simp [stopStreaming, ht, Handle.session, m2mQueue]
    · simp [Handle.session, stopStreaming, hs, m2mQueue]
  · have hstop : (h.node.pool type).streaming = false := by simpa using hs
    refine sessionInv_congr hi (fun t => ?_) (fun t => ?_) rfl ?_
    · simp [Handle.session]
    · refine (hready t).trans ?_
      by_cases ht : t = type
      · rw [if_pos ht, ht]
        exact (readyBufs_stopped hstop).symm
      · rw [if_neg ht]
        rfl
    · simp [Handle.session, hstop]

/-! ### The invariant of a file -/

/-- What always holds of a file; `job` is the current job if it is one of this file. -/
structure HandleInv (chip : Chip) (h : Handle) (job : Option M2mJob) : Prop where
  consistent : Consistent chip.variant h.node.ctx
  ops : h.node.output.streaming = true → h.node.capture.streaming = true → OpsMatch h.node.ctx
  pools : PoolsValid h.node
  running : h.node.running = job.isSome
  session : SessionInv (h.session job)

theorem handleInv_open (chip : Chip) (qtable : JpegQuantization) :
    HandleInv chip (openHandle chip qtable) none where
  consistent := consistent_opened chip
  ops ho := by cases ho
  pools type := by cases type <;> exact Pool.valid_empty _
  running := rfl
  session := sessionInv_openHandle chip qtable

/-- S_CTRL replaces the table at any time. -/
theorem HandleInv.setTable {chip : Chip} {h : Handle} {job : Option M2mJob}
    (hi : HandleInv chip h job) (qtable : JpegQuantization) :
    HandleInv chip { h with qtable := qtable } job :=
  ⟨hi.consistent, hi.ops, hi.pools, hi.running,
    sessionInv_congr hi.session (fun _ => rfl) (fun _ => rfl) rfl rfl⟩

theorem running_step {dmaAlign : U32} {node node' : Node} {io : Ioctl}
    (h : nodeStep dmaAlign node io.act = some node') : node'.running = node.running := by
  generalize ha : io.act = act at h
  cases nodeStep_exit h with
  | format => rfl
  | pool => exact setPool_running ..
  | start => exact setPool_running ..
  | run => cases io <;> cases ha
  | done => cases io <;> cases ha

theorem sessionInv_ioctl {dmaAlign : U32} {h h' : Handle} {job : Option M2mJob} {io : Ioctl}
    (hi : SessionInv (h.session job)) (hv : PoolsValid h.node)
    (hrun : h.node.running = job.isSome) (hs : h.ioctl dmaAlign io = some h') :
    SessionInv (h'.session job) := by
  obtain ⟨node, hnode, rfl⟩ := Option.map_eq_some_iff.mp hs
  cases io with
  | sFmt type f =>
    obtain ⟨⟨r, ctx', f'⟩, hfmt, rfl⟩ := Option.map_eq_some_iff.mp hnode
    exact sessionInv_silent hi (vidiocSFmt_sequence hfmt) fun t => by cases t <;> rfl
  | reqbufs type count addr =>
    refine sessionInv_silent hi (fun t => ?_) (readyBufs_reqbufs hnode addr)
    obtain ⟨p, -, rfl⟩ := reqbufs_result hnode
    rw [place_ctx, setPool_ctx]
  | createBufs type count n sizes addr =>
    refine sessionInv_silent hi (fun t => ?_) (readyBufs_createBufs hv hnode addr)
    obtain ⟨p, -, rfl⟩ := createBufs_result hnode
    rw [place_ctx, setPool_ctx]
  | prepareBuf type i field =>
    refine sessionInv_silent hi (fun t => ?_) (readyBufs_prepareBuf hv hnode)
    obtain ⟨p, -, rfl⟩ := prepareBuf_result hnode
    rw [place_ctx, setPool_ctx]
  | qbuf type i field =>
    obtain ⟨hctx, bufs, hbufs⟩ := readyBufs_qbuf hv hnode
    refine sessionInv_queueAll hi type bufs (fun t => congrArg (sequenceOf · t) hctx) hbufs rfl ?_
    simp [Handle.session, Ioctl.record, hbufs]
  | dqbuf type i =>
    obtain rfl := Option.some.inj hnode
    refine sessionInv_silent hi (fun t => ?_) (readyBufs_dqbuf hv type i)
    obtain ⟨p, -, heq⟩ : PoolResult h.node type (dqbuf h.node type i) := dqbuf_result type i
    rw [place_ctx, heq, setPool_ctx]
  | streamon type =>
    simp only [Ioctl.act, nodeStep, Queue.streamon] at hnode
    split_ifs at hnode with hguard
    · obtain rfl := Option.some.inj hnode
      have hsilent : (Ioctl.streamon type).record h.node h.node h.history = h.history := by
        cases hst : (h.node.pool type).streaming <;> simp [Ioctl.record, hst]
      exact sessionInv_congr hi (fun _ => rfl) (fun _ => rfl) rfl hsilent
    · obtain ⟨ctx', hstart, hnode⟩ := Option.bind_eq_some_iff.mp hnode
      obtain rfl := Option.some.inj hnode
      have hstop : (h.node.pool type).streaming = false := by
        simp only [Bool.or_eq_true, not_or, Bool.not_eq_true] at hguard
        exact hguard.1
      have hon : (!(h.node.pool type).streaming &&
          (({ h.node.setPool type (h.node.pool type).start with ctx := ctx' } : Node).pool
            type).streaming) = true := by
        rw [hstop]
        cases type <;> rfl
      exact sessionInv_congr (sessionInv_start hi hstop hstart rfl) (fun _ => rfl) (fun _ => rfl)
        rfl (if_pos hon)
  | streamoff type =>
    simp only [Ioctl.act, nodeStep, Queue.streamoff] at hnode
    split_ifs at hnode with hr
    obtain rfl := Option.some.inj hnode
    obtain rfl : job = none := by
      rw [hrun] at hr
      simpa using hr
    exact sessionInv_cancel hi type

theorem handleInv_ioctl {chip : Chip} {A : DmaAlign} {h h' : Handle} {job : Option M2mJob}
    {io : Ioctl} (hi : HandleInv chip h job) (hs : h.ioctl A.val io = some h') :
    HandleInv chip h' job := by
  have hsession := sessionInv_ioctl hi.session hi.pools hi.running hs
  obtain ⟨node, hnode, rfl⟩ := Option.map_eq_some_iff.mp hs
  refine ⟨?_, fun ho hc => ?_, poolsValid_place (poolsValid_step hi.pools hnode) io, ?_, hsession⟩
  · rw [place_ctx]
    exact consistent_nodeStep hi.consistent hnode
  · rw [place_ctx]
    exact opsMatch_step hi.ops hnode ((place_streaming h.node node io .output).symm.trans ho)
      ((place_streaming h.node node io .capture).symm.trans hc)
  · rw [place_running, running_step hnode]
    exact hi.running

end RockchipVpu.System
