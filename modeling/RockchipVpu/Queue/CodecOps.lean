import RockchipVpu.Queue.Safety

/-! The codec operations while jobs can run. STREAMON of either queue selects them for
the destination descriptor of that moment, which S_FMT(CAPTURE) may still replace while
only OUTPUT streams. Once both queues stream every S_FMT is refused, so the STREAMON
that completes the pair decides: the operations are those of the descriptor, and they
are an entry of the table exactly when that descriptor is a codec's. -/

namespace RockchipVpu.Queue

open Base Format

/-! ### The law and its condition -/

/-- While both queues stream, the selected operations are the entry of the variant's
table for the mode of the current destination descriptor. -/
def OpsReady (node : Node) : Prop :=
  node.output.streaming = true → node.capture.streaming = true → ∃ dst ops,
    node.ctx.vpuDstFmt = some dst ∧ node.ctx.variant.codecOpsAt dst.codecMode = some ops ∧
      node.ctx.codecOps = some ops

/-- A STREAMON of a queue with buffers while the other one streams finds the descriptor
of a codec on CAPTURE. -/
def CompletesWithCodec (node : Node) : NodeAct → Prop
  | .streamon type => (node.pool type).busy = true → (node.pool type.peer).streaming = true →
      ∃ dst, node.ctx.vpuDstFmt = some dst ∧ dst.codecMode ≠ .none
  | _ => True

/-! ### Steps -/

/-- A step that starts no queue keeps the law. -/
theorem opsReady_other {dmaAlign : U32} {node node' : Node} {act : NodeAct} (hp : OpsReady node)
    (ha : ∀ type, act ≠ .streamon type) (h : nodeStep dmaAlign node act = some node') :
    OpsReady node' :=
  whileStreaming_other (P := fun ctx => ∃ dst ops, ctx.vpuDstFmt = some dst ∧
      ctx.variant.codecOpsAt dst.codecMode = some ops ∧ ctx.codecOps = some ops)
    (fun _ _ hr => hr) hp ha h

/-- The selection for an entry of the encoder table is inside of the operation table
exactly when the entry is a codec's. -/
theorem codecOpsAt_iff {chip : Chip} {dst : Fmt} (hmem : dst ∈ chip.variant.encFmts) :
    (∃ ops, chip.variant.codecOpsAt dst.codecMode = some ops) ↔ dst.codecMode ≠ .none := by
  constructor
  · rintro ⟨ops, hops⟩ hnone
    simp [hnone, Variant.codecOpsAt, CodecMode.toInt] at hops
  · intro hmode
    obtain ⟨ops, hops, -, -⟩ := (chip_sound chip).ops dst hmem hmode
    exact ⟨ops, hops⟩

/-- The law does not distinguish the queues. -/
theorem opsReady_iff (node : Node) (type : BufType) : OpsReady node ↔
    ((node.pool type).streaming = true → (node.pool type.peer).streaming = true → ∃ dst ops,
      node.ctx.vpuDstFmt = some dst ∧ node.ctx.variant.codecOpsAt dst.codecMode = some ops ∧
        node.ctx.codecOps = some ops) := by
  cases type with
  | output => exact Iff.rfl
  | capture => exact ⟨fun h hcap ho => h ho hcap, fun h ho hcap => h hcap ho⟩

/-- A STREAMON keeps the law exactly when it does not complete the pair on a raw
descriptor. -/
theorem opsReady_streamon {chip : Chip} {node node' : Node} {type : BufType}
    (hc : Consistent chip.variant node.ctx) (hp : OpsReady node)
    (h : streamon node type = some node') :
    OpsReady node' ↔ CompletesWithCodec node (.streamon type) := by
  obtain ⟨hv, -, -, dst, hmem, -, hdst, -, -⟩ := hc
  have hcodec := codecOpsAt_iff hmem
  rw [← hv] at hcodec
  rcases streamon_exit h with ⟨hguard, rfl⟩ | ⟨hbusy, ctx', hs, rfl⟩
  · refine iff_of_true hp fun hb hpeer => ?_
    have hself : (node'.pool type).streaming = true :=
      hguard.resolve_right fun hnb => by simp [hb] at hnb
    obtain ⟨d, ops, hd, hops, -⟩ := (opsReady_iff node' type).mp hp hself hpeer
    obtain rfl : dst = d := Option.some.inj (hdst.symm.trans hd)
    exact ⟨dst, hdst, hcodec.mp ⟨ops, hops⟩⟩
  · obtain ⟨d, hd, rfl⟩ := startStreaming_some hs
    obtain rfl : dst = d := Option.some.inj (hdst.symm.trans hd)
    -- The start selects for `dst`, so all that is left to ask is whether that is in the table.
    have hready : (∃ d ops, node.ctx.vpuDstFmt = some d ∧
        node.ctx.variant.codecOpsAt d.codecMode = some ops ∧
          node.ctx.variant.codecOpsAt dst.codecMode = some ops) ↔ dst.codecMode ≠ .none := by
      rw [← hcodec]
      constructor
      · rintro ⟨d, ops, -, -, hops⟩
        exact ⟨ops, hops⟩
      · rintro ⟨ops, hops⟩
        exact ⟨dst, ops, hdst, hops, hops⟩
    have hcond : CompletesWithCodec node (.streamon type) ↔
        ((node.pool type.peer).streaming = true → dst.codecMode ≠ .none) := by
      simp [CompletesWithCodec, hbusy, hdst]
    rw [hcond, opsReady_iff _ type, ← hready]
    cases type
    · exact ⟨fun hr => hr rfl, fun hr _ => hr⟩
    · exact ⟨fun hr => hr rfl, fun hr _ => hr⟩

theorem opsReady_step {chip : Chip} {A : DmaAlign} {node node' : Node} {act : NodeAct}
    (hc : Consistent chip.variant node.ctx) (hp : OpsReady node)
    (h : nodeStep A.val node act = some node') :
    OpsReady node' ↔ CompletesWithCodec node act := by
  cases act with
  | streamon type => exact opsReady_streamon hc hp h
  | _ => exact iff_of_true (opsReady_other hp (by simp) h) trivial

/-! ### Runs -/

/-- A run from `open` has the operations of its destination ready in all of its states
exactly when no STREAMON completes the pair of streaming queues on a raw descriptor. -/
theorem codecOps_throughout_iff (chip : Chip) (A : DmaAlign) (acts : List NodeAct) :
    Throughout (nodeStep A.val) OpsReady (openedNode chip) acts ↔
      Along (nodeStep A.val) CompletesWithCodec (openedNode chip) acts :=
  throughout_iff_along (fun _ _ _ hc hs => consistent_nodeStep hc hs)
    (fun _ _ _ hc hp hs => opsReady_step hc hp hs) (consistent_opened chip)
    (fun ho => by cases ho) acts

/-- S_FMT(CAPTURE) with YUYV, and both queues started: the operations lie outside of the
table. -/
theorem codecOps_yuyv_capture : ∃ node,
    run (nodeStep 64) (openedNode .rk3288)
        (.sFmt .capture { pixelformat := pixFmtYuyv } :: queueAndStart) = some node ∧
      node.output.streaming = true ∧ node.capture.streaming = true ∧ node.ctx.codecOps = none ∧
      ¬ OpsReady node := by
  obtain ⟨node, hrun, ho, hcap, hnone⟩ : ∃ node,
      run (nodeStep 64) (openedNode .rk3288)
          (.sFmt .capture { pixelformat := pixFmtYuyv } :: queueAndStart) = some node ∧
        node.output.streaming = true ∧ node.capture.streaming = true ∧
        node.ctx.codecOps = none := ⟨_, rfl, rfl, rfl, by decide⟩
  refine ⟨node, hrun, ho, hcap, hnone, fun h => ?_⟩
  obtain ⟨dst, ops, -, -, hops⟩ := h ho hcap
  cases hnone.symm.trans hops

end RockchipVpu.Queue
