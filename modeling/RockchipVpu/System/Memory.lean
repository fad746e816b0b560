import RockchipVpu.Format.Kind
import RockchipVpu.Hw.Fetch
import RockchipVpu.System.Files

/-! The memory of the device. `buf_prepare` is the only place where the driver compares a
source buffer with the source format, and the encoder is told the format that is stored when
the job starts. If no S_FMT is accepted between the two, and none sets a coded format as the
source, then an encoder that keeps to what its registers tell fetches only what lies in the
planes of the source buffer of its job, and its output goes to the first plane of the destination
buffer, within the size it is told. -/

namespace RockchipVpu.System

open Base Format Queue Hw Job

variable {κ : Type*}

/-! ### The condition -/

/-- An S_FMT that does more than being refused finds no OUTPUT buffer that was compared with
the format before, and no format of an OUTPUT queue is a coded one. -/
def KeepsSource (node : Node) (type : BufType) (f : PixFormatMplane) : Prop :=
  SFmtBusy node.queues node.ctx f type ∨ (node.output.Unchecked ∧ (type = .output →
    ∀ fmt ∈ node.ctx.variant.encFmts, fmt.fourcc = f.pixelformat → fmt.codecMode = .none))

/-- Every client does so, and the watchdog expires only while the encoder works. -/
def Careful (s : Device κ) (act : DevAct κ) : Prop :=
  InTime s act ∧ match act with
    | .ioctl c (.sFmt type f) => ∀ file ∈ s.handle c, KeepsSource file.node type f
    | _ => True

instance (node : Node) (type : BufType) (f : PixFormatMplane) :
    Decidable (KeepsSource node type f) := by
  unfold KeepsSource
  infer_instance

instance (s : Device κ) : (act : DevAct κ) → Decidable (Careful s act)
  | .ioctl c (.sFmt type f) =>
    inferInstanceAs (Decidable (_ ∧ ∀ file ∈ s.handle c, KeepsSource file.node type f))
  | .ioctl _ (.reqbufs ..) | .ioctl _ (.createBufs ..) | .ioctl _ (.prepareBuf ..)
  | .ioctl _ (.qbuf ..) | .ioctl _ (.dqbuf ..) | .ioctl _ (.streamon _) | .ioctl _ (.streamoff _)
  | .vpuOpen .. | .vpuRelease _ | .setCtrl .. | .deviceRun _ | .call | .report .. | .irq
  | .watchdog => inferInstanceAs (Decidable (_ ∧ True))

theorem Careful.inTime {s : Device κ} {act : DevAct κ} (h : Careful s act) : InTime s act := h.1

/-! ### The invariant of a file -/

/-- The checked buffers fit the format, which is a raw one. -/
structure SourceInv (chip : Chip) (node : Node) : Prop where
  node_inv : NodeInv chip.variant node
  raw : ∃ src, node.ctx.vpuSrcFmt = some src ∧ src.codecMode = .none

section Step

variable {chip : Chip} {A : DmaAlign} {node node' : Node} {type : BufType}

theorem sourceInv_opened (chip : Chip) : SourceInv chip (openedNode chip) where
  node_inv := nodeInv_opened chip
  raw := (kindInvariant_opened chip).src_raw

/-- A source format that S_FMT stores is raw: it has been asked for by the fourcc of a raw
entry or of none, or it is the one the driver resets to. -/
theorem raw_sFmt (hi : SourceInv chip node) {f f' : PixFormatMplane} {r : Ret} {ctx' : Ctx}
    (hk : KeepsSource node type f)
    (h : vidiocSFmt A.val node.queues node.ctx type f = some (r, ctx', f')) :
    ∃ src, ctx'.vpuSrcFmt = some src ∧ src.codecMode = .none := by
  have hv := hi.node_inv.consistent.variant_eq
  rcases hk with hbusy | ⟨-, hown⟩
  · rw [vidiocSFmt_busy hbusy h]
    exact hi.raw
  cases type with
  | output =>
    obtain ⟨-, -, -, dst, hmem, -, hdst, -, -⟩ := hi.node_inv.consistent
    cases vidiocSFmtOut_exit h with
    | streaming => exact hi.raw
    | peerBusy => exact hi.raw
    | refused => exact hi.raw
    | stored hq ht =>
      refine ⟨_, sFmtOut_descriptor hv hdst hmem ht, ?_⟩
      rw [chosenFmt_raw_iff, ← hv]
      exact hown rfl
  | capture =>
    cases vidiocSFmtCap_exit h with
    | streaming => exact hi.raw
    | peerBusy => exact hi.raw
    | stored hq ht hr =>
      obtain rfl := sFmtCap_stored hv ht hr
      exact ⟨_, rfl, defaultRaw_codecMode chip⟩

/-- The source descriptor changes by S_FMT alone. -/
theorem sourceInv_step (hi : SourceInv chip node) {act : NodeAct}
    (hk : ∀ type f, act = .sFmt type f → KeepsSource node type f)
    (h : nodeStep A.val node act = some node') : SourceInv chip node' := by
  refine ⟨nodeInv_step hi.node_inv ?_ h, ?_⟩
  · cases act with
    | sFmt type f => exact (hk type f rfl).imp_right And.left
    | _ => trivial
  · cases nodeStep_exit h with
    | @format type f _ _ _ hs => exact raw_sFmt hi (hk type f rfl) hs
    | @pool _ type p _ _ => exact setPool_ctx node type p ▸ hi.raw
    | start hs =>
      obtain ⟨dst, -, rfl⟩ := startStreaming_some hs
      exact hi.raw
    | run => exact hi.raw
    | done => exact hi.raw

/-- Where the memory of a buffer lies is nothing the driver checks. -/
theorem sourceInv_place (hi : SourceInv chip node') (io : Ioctl) :
    SourceInv chip (io.place node node') := by
  rcases place_eq node node' io with h | ⟨type, kept, addr, h⟩
  · rw [h]
    exact hi
  rw [h]
  obtain ⟨⟨hc, hops, hplanes, hfits⟩, hraw⟩ := hi
  cases type with
  | capture => exact ⟨⟨hc, hops, hplanes, hfits⟩, hraw⟩
  | output =>
    refine ⟨⟨hc, hops, hplanes.adjust fun i vb hvb => ?_, hfits.adjust fun i vb hvb => ?_⟩, hraw⟩
    · unfold placeFrom
      split_ifs <;> exact hvb
    · unfold placeFrom
      split_ifs <;> exact hvb

theorem sourceInv_handBack {file : Handle} {job : M2mJob} (hi : HandleInv chip file (some job))
    (hs : SourceInv chip file.node) (bytesused : U32) (result : BufResult) :
    SourceInv chip (file.handBack job bytesused result job.src job.dst).node := by
  obtain ⟨⟨hc, hops, hplanes, hfits⟩, hraw⟩ := hs
  unfold Handle.handBack
  rw [session_jobFinish hi]
  refine ⟨⟨hc.congr rfl rfl rfl rfl rfl, ?_, ?_, hfits.finish _⟩, hraw⟩
  · simp only [Pool.finish_streaming]
    exact hops
  · have hpos : 0 < job.src.vb.numPlanes := hplanes.holds hi.ownsHeads.src_holds
    exact hplanes.finish hpos

/-- Every step of the device keeps it, for each of its files. -/
theorem sourceInv_exit {s : Device κ} {c : κ} {file file' : Handle} {act : DevAct κ}
    (hfile : s.handle c = some file) (hi : SourceInv chip file.node) (hc : Careful s act)
    (h : FileExit chip A.val s c file file' act) : SourceInv chip file'.node := by
  cases h with
  | same => exact hi
  | table => exact hi
  | @ioctl _ io hio =>
    obtain ⟨node, hnode, rfl⟩ := Option.map_eq_some_iff.mp hio
    refine sourceInv_place (sourceInv_step hi (fun type f ha => ?_) hnode) io
    cases io with
    | sFmt type' f' =>
      cases ha
      exact hc.2 file hfile
    | _ => cases ha
  | started hrun =>
    have hstep : nodeStep A.val file.node .deviceRun = some file'.node := deviceRun_node hrun
    exact sourceInv_step hi (fun type f ha => by cases ha) hstep
  | ended ht hc hinv hb => exact sourceInv_handBack hinv hi _ _

theorem sourceInv_reach [DecidableEq κ] {regs : RegFile} {s : Device κ}
    (h : Reach (devStep chip A.val) Careful (initDevice κ regs) s) (c : κ) (file : Handle)
    (hfile : s.handle c = some file) : SourceInv chip file.node :=
  files_invariant (fun _ => sourceInv_opened chip)
    (fun _ hc _ _ _ _ hfile hexit hi => sourceInv_exit hfile hi hc hexit) h c file hfile

end Step

/-! ### What the encoder touches -/

/-- What is fetched lies in the planes of the source buffer, and what is written in the first
plane of the destination buffer. -/
structure StaysInBuffers (dma : EncoderDma) (regs : RegFile) (job : M2mJob) : Prop where
  fetch : ∀ a, dma.fetches regs a → ∃ i : Plane, i.val < job.src.vb.numPlanes ∧
    InPlane job.src.vb i a
  stream : ∀ a, dma.stores regs a → InPlane job.dst.vb 0 a

section Safe

variable [DecidableEq κ] {chip : Chip} {A : DmaAlign} {regs : RegFile} {s : Device κ}

/-- The source buffer of the current job covers the frame. -/
theorem SourceInv.fits {file : Handle} {job : M2mJob} {qtable : JpegQuantization}
    (hs : SourceInv chip file.node) (hi : HandleInv chip file (some job))
    (hl : Launched chip file.node.ctx qtable job) : SourceFits file.node.ctx job.src.vb := by
  have hown := hi.ownsHeads
  obtain ⟨ops, hops⟩ := Option.isSome_iff_exists.mp hl.ops
  have hslot := List.mem_of_getElem? hown.src_holds
  exact sourceFits_of_planesFit hi.consistent
    (hs.node_inv.ops hown.src_streaming hown.dst_streaming) hops
    (hs.node_inv.planes.holds hown.src_holds) (hs.node_inv.fits.checked _ hslot (.inr rfl))

/-- As long as no client changes the source format under a buffer that was checked against it,
and none stores a coded format as the source, a working encoder that keeps to what its registers
tell touches no memory besides the buffers of the current job, and those are still queued on an
open file. -/
theorem memory_safe {dma : EncoderDma} (hdma : dma.Obeys chip)
    (h : Reach (devStep chip A.val) Careful (initDevice κ regs) s)
    (hw : s.hw.working = true) : ∃ t file, s.task = some t ∧ s.handle t.client = some file ∧
      OwnsHeads file.node t.job ∧ StaysInBuffers dma s.hw.regs t.job := by
  obtain ⟨hi, hp⟩ := phaseInv_reach (h.mono fun _ _ hc => hc.inTime)
  obtain ⟨t, file, vpuSrcFmt, prior, ht, hfile, hvpu, -, hregs⟩ := hp.registers hi hw
  have hinv := hi.handles t.client file hfile
  rw [jobOf_client ht] at hinv
  have hsource := sourceInv_reach h t.client file hfile
  obtain ⟨file', hfile', hl⟩ := hi.task t ht
  obtain rfl : file = file' := Option.some.inj (hfile.symm.trans hfile')
  have hfits := hsource.fits hinv hl
  refine ⟨t, file, ht, hfile, hinv.ownsHeads, fun a ha => ?_, fun a ha => ?_⟩
  · obtain ⟨src, hsrc, hraw⟩ := hsource.raw
    obtain rfl : vpuSrcFmt = src := Option.some.inj (hvpu.symm.trans hsrc)
    obtain ⟨-, src', hmem, dst, hdmem, hsrc', -, hm, -⟩ := hinv.consistent
    obtain rfl : vpuSrcFmt = src' := Option.some.inj (hvpu.symm.trans hsrc')
    obtain ⟨src', hsrc', hframe⟩ := hfits.frame
    obtain rfl : vpuSrcFmt = src' := Option.some.inj (hvpu.symm.trans hsrc')
    have hwidth := hm.width_le.trans ((chip_sound chip).entry dst hdmem).maxWidth_le
    rw [hregs] at ha
    obtain ⟨i, hlt, hin⟩ := fetch_program hdma hmem hraw hm.numPlanes_eq hwidth hframe prior ha
    exact ⟨i, (hlt.trans_eq hm.numPlanes_eq.symm).trans_le hfits.planes, hin⟩
  · rw [hregs] at ha
    exact store_program hdma prior ha

end Safe

theorem memory_safe_startEncoder : ∃ (s : Device ℕ) (t : Task ℕ) (file : Handle),
    run (devStep .rk3288 64) (initDevice ℕ fun _ => 0) startEncoder = some s ∧
      s.handle t.client = some file ∧ OwnsHeads file.node t.job ∧
      StaysInBuffers (wholePlanes .rk3288) s.hw.regs t.job := by
  have hrun : (run (devStep .rk3288 64) (initDevice ℕ fun _ => 0) startEncoder).map
      (fun s => s.hw.working) = some true := by decide +kernel
  obtain ⟨s, hs, hw⟩ := Option.map_eq_some_iff.mp hrun
  obtain ⟨t, file, -, hfile, hown, hstays⟩ := memory_safe (A := ⟨6, by decide⟩)
    (wholePlanes_obeys .rk3288) (reach_of_run (by decide +kernel) hs) hw
  exact ⟨s, t, file, hs, hfile, hown, hstays⟩

end RockchipVpu.System
