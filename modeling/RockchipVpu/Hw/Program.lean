import RockchipVpu.Base.BitField
import RockchipVpu.Base.RegisterFile
import RockchipVpu.Format.Variants
import RockchipVpu.Hw.JpegEnc

/-! What the JPEG program leaves in the registers. The program of either chip opens and
closes with a write to its start register; between the two every register is written at
most once. So each value is there when the encoder starts, the tables can be read back
coefficient by coefficient, and the two register files, each read with its own layout,
say the same. -/

namespace RockchipVpu.Hw

open Base Format Queue

/-! ### Both chips -/

/-- What reads of the encoder's registers return. -/
abbrev RegFile := U32 → U32

def runWrites (ws : List Write) (regs : RegFile) : RegFile :=
  writeAll Write.reg Write.val ws regs

def jpegRegs : Chip → JpegRegs
  | .rk3288 => rk3288JpegRegs
  | .rk3399 => rk3399JpegRegs

/-- The register that starts the encoder, with the enable bit at the bottom. -/
def startReg : Chip → U32
  | .rk3288 => Rk3288.vepuRegEncCtrl
  | .rk3399 => Rk3399.vepuRegEncodeStart

/-- The `run` function of the chip's JPEG operations. -/
def jpegEncRun : Chip → Ctx → Option JpegQuantization → Vb2Buffer → Vb2Buffer →
    Option (List Write)
  | .rk3288 => rk3288VpuJpegEncRun
  | .rk3399 => rk3399VpuJpegEncRun

/-- The first write to the start register only selects the JPEG mode. -/
def modeWord : Chip → U32
  | .rk3288 => Rk3288.vepuRegEncCtrlEncModeJpeg
  | .rk3399 => Rk3399.vepuRegEncodeFormatJpeg

def startWord : Chip → Ctx → U32
  | .rk3288 => rk3288EncCtrl
  | .rk3399 => rk3399EncodeStart

def setSrcImgCtrl : Chip → Ctx → Fmt → List Write
  | .rk3288 => rk3288VpuSetSrcImgCtrl
  | .rk3399 => rk3399VpuSetSrcImgCtrl

/-- The control words written between the tables and the start. -/
def controlWrites : Chip → List Write
  | .rk3288 => [⟨rk3288AxiCtrl, Rk3288.vepuRegAxiCtrl⟩]
  | .rk3399 => [⟨rk3399DataEndian, Rk3399.vepuRegDataEndian⟩,
      ⟨Rk3399.vepuRegAxiCtrlBurstLen 16, Rk3399.vepuRegAxiCtrl⟩]

/-- The writes between the two to the start register. -/
def programBody (chip : Chip) (ctx : Ctx) (vpuSrcFmt : Fmt) (qtable : JpegQuantization)
    (src dst : Vb2Buffer) : List Write :=
  setSrcImgCtrl chip ctx vpuSrcFmt ++ jpegEncSetBuffers (jpegRegs chip) ctx src dst ++
    jpegEncSetQtable (jpegRegs chip) qtable ++ controlWrites chip

/-- All writes of a job, in order. -/
def program (chip : Chip) (ctx : Ctx) (vpuSrcFmt : Fmt) (qtable : JpegQuantization)
    (src dst : Vb2Buffer) : List Write :=
  ⟨modeWord chip, startReg chip⟩ :: (programBody chip ctx vpuSrcFmt qtable src dst ++
    [⟨startWord chip ctx, startReg chip⟩])

theorem jpegEncRun_eq (chip : Chip) {ctx : Ctx} {vpuSrcFmt : Fmt}
    (hsrc : ctx.vpuSrcFmt = some vpuSrcFmt) (qtable : JpegQuantization) (src dst : Vb2Buffer) :
    jpegEncRun chip ctx (some qtable) src dst =
      some (program chip ctx vpuSrcFmt qtable src dst) := by
  cases chip
  · simp [jpegEncRun, rk3288VpuJpegEncRun, hsrc, program, programBody, setSrcImgCtrl, jpegRegs,
      controlWrites, modeWord, startWord, startReg, rk3288VpuJpegEncSetBuffers,
      rk3288VpuJpegEncSetQtable]
  · simp [jpegEncRun, rk3399VpuJpegEncRun, hsrc, program, programBody, setSrcImgCtrl, jpegRegs,
      controlWrites, modeWord, startWord, startReg, rk3399VpuJpegEncSetBuffers,
      rk3399VpuJpegEncSetQtable]

/-! ### The registers of a program -/

/-- The image control registers. -/
def imgRegs : Chip → List U32
  | .rk3288 => [Rk3288.vepuRegInImgCtrl]
  | .rk3399 => [Rk3399.vepuRegInputLumaInfo, Rk3399.vepuRegEncOverFillStrmOffset,
      Rk3399.vepuRegEncCtrl1]

def controlRegs : Chip → List U32
  | .rk3288 => [Rk3288.vepuRegAxiCtrl]
  | .rk3399 => [Rk3399.vepuRegDataEndian, Rk3399.vepuRegAxiCtrl]

/-- The registers that the body writes, in order. -/
def bodyRegs (chip : Chip) : List U32 :=
  let r := jpegRegs chip
  imgRegs chip ++
    [r.addrOutputStream, r.strBufLimit, r.addrInLuma, r.addrInCr, r.addrInCb] ++
    ((List.finRange 16).flatMap fun i =>
      [r.lumaQuat (BitVec.ofNat 32 i.val), r.chromaQuat (BitVec.ofNat 32 i.val)]) ++
    controlRegs chip

/-- They do not depend on the data that is written. -/
theorem programBody_regs (chip : Chip) (ctx : Ctx) (vpuSrcFmt : Fmt) (qtable : JpegQuantization)
    (src dst : Vb2Buffer) :
    (programBody chip ctx vpuSrcFmt qtable src dst).map Write.reg = bodyRegs chip := by
  have himg : (setSrcImgCtrl chip ctx vpuSrcFmt).map Write.reg = imgRegs chip := by
    cases chip <;> rfl
  have hctrl : (controlWrites chip).map Write.reg = controlRegs chip := by cases chip <;> rfl
  simp only [programBody, List.map_append, himg, hctrl, bodyRegs, jpegEncSetBuffers,
    jpegEncSetQtable, List.map_flatMap, List.map_cons, List.map_nil]

/-- No two of them coincide. -/
theorem bodyRegs_nodup (chip : Chip) : (bodyRegs chip).Nodup := by
  cases chip <;> decide +kernel

theorem startReg_notMem (chip : Chip) : startReg chip ∉ bodyRegs chip := by
  cases chip <;> decide +kernel

/-! ### Reading the registers back -/

/-- What a register file says about a job: four coefficients to a row of a table, the
capture buffer, and the planes of the source. -/
@[ext]
structure JpegView where
  luma : Fin 16 → Fin 4 → ℕ
  chroma : Fin 16 → Fin 4 → ℕ
  output : U32
  limit : U32
  y : U32
  cb : U32
  cr : U32

/-- Byte `k` of row `i` is coefficient `4 * i + k`. -/
def readTable (quat : U32 → U32) (regs : RegFile) (i : Fin 16) (k : Fin 4) : ℕ :=
  field (8 * k) 8 (regs (quat (BitVec.ofNat 32 i)))

/-- The registers read with the layout `r`. -/
def readJob (r : JpegRegs) (regs : RegFile) : JpegView where
  luma := readTable r.lumaQuat regs
  chroma := readTable r.chromaQuat regs
  output := regs r.addrOutputStream
  limit := regs r.strBufLimit
  y := regs r.addrInLuma
  cb := regs r.addrInCb
  cr := regs r.addrInCr

def coefAt (coef : Fin 64 → BitVec 16) (i : Fin 16) (k : Fin 4) : ℕ :=
  (coef ⟨4 * i + k, by omega⟩).toNat

/-- Plane `i`, or the last of `n` planes if there is no plane `i`. -/
def orLast (n : ℕ) (i : Plane) : Plane := ⟨min i.val (n - 1), by omega⟩

/-- What the job is: its tables, the address and size of its capture buffer, and the
addresses of its source planes. -/
def jobView (ctx : Ctx) (qtable : JpegQuantization) (src dst : Vb2Buffer) : JpegView where
  luma := coefAt qtable.luma
  chroma := coefAt qtable.chroma
  output := (dst.planes 0).dmaAddr
  limit := vb2PlaneSize dst 0
  y := (src.planes 0).dmaAddr
  cb := (src.planes (orLast ctx.srcFmt.numPlanes 1)).dmaAddr
  cr := (src.planes (orLast ctx.srcFmt.numPlanes 2)).dmaAddr

theorem planeAddrs_eq {pixFmt : PixFormatMplane} (h1 : 1 ≤ pixFmt.numPlanes)
    (h3 : pixFmt.numPlanes ≤ 3) (src : Vb2Buffer) :
    planeAddrs pixFmt src = ((src.planes 0).dmaAddr,
      (src.planes (orLast pixFmt.numPlanes 1)).dmaAddr,
      (src.planes (orLast pixFmt.numPlanes 2)).dmaAddr) := by
  have hn : pixFmt.numPlanes = 1 ∨ pixFmt.numPlanes = 2 ∨ pixFmt.numPlanes = 3 := by omega
  unfold planeAddrs
  rcases hn with hn | hn | hn <;> rw [hn] <;> rfl

/-- The macro keeps the low byte of each coefficient, in its place. -/
theorem field_rkQuantRow (e : Fin 4 → BitVec 16) (k : Fin 4) :
    field (8 * k) 8 (rkQuantRow (e 0) (e 1) (e 2) (e 3)) = (e k).toNat % 256 := by
  have hbyte (c : BitVec 16) : (c.setWidth 32 &&& 0xff).toNat = c.toNat % 256 := by
    have hmask : (0xff : U32).toNat = 2 ^ 8 - 1 := rfl
    rw [toNat_and_mask hmask, BitVec.toNat_setWidth]
    exact Nat.mod_mod_of_dvd _ (by norm_num)
  have hpack := field_pack (b := fun j => (e j).setWidth 32 &&& 0xff)
    (fun j => by rw [hbyte]; exact Nat.mod_lt _ (by norm_num)) k
  rw [hbyte] at hpack
  exact hpack

/-- Eight-bit coefficients are read back from their row. -/
theorem field_quantRow {coef : Fin 64 → BitVec 16} (hcoef : ∀ j, (coef j).toNat < 256)
    (i : Fin 16) (k : Fin 4) : field (8 * k) 8 (quantRow coef i) = coefAt coef i k := by
  have hrow := field_rkQuantRow (fun j : Fin 4 => coef ⟨i * 4 + j, by omega⟩) k
  rw [Nat.mod_eq_of_lt (hcoef _)] at hrow
  simp only [coefAt, mul_comm 4 i.val]
  exact hrow

/-! ### The program is faithful -/

/-- The registers after the program say what the job is, and nothing else has happened
to them: no other register is changed, none but the start register is written twice, and
of the writes to that one only the last has the enable bit. -/
structure ProgramFaithful (chip : Chip) (ctx : Ctx) (qtable : JpegQuantization)
    (src dst : Vb2Buffer) (ws : List Write) (prior : RegFile) : Prop where
  view_eq : readJob (jpegRegs chip) (runWrites ws prior) = jobView ctx qtable src dst
  frame : ∀ r, r ∉ startReg chip :: bodyRegs chip → runWrites ws prior r = prior r
  survives : ∀ w ∈ ws, w.reg ≠ startReg chip → runWrites ws prior w.reg = w.val
  nodup : ((ws.map Write.reg).filter (· ≠ startReg chip)).Nodup
  enable : ∀ i w, ws[i]? = some w → w.reg = startReg chip →
    (w.val.getLsbD 0 = true ↔ i + 1 = ws.length)

section Program
variable (chip : Chip) {ctx : Ctx} {vpuSrcFmt : Fmt} {qtable : JpegQuantization}
  {src dst : Vb2Buffer} (prior : RegFile)

theorem startReg_notMem_body :
    startReg chip ∉ (programBody chip ctx vpuSrcFmt qtable src dst).map Write.reg := by
  rw [programBody_regs]
  exact startReg_notMem chip

theorem programBody_nodup :
    ((programBody chip ctx vpuSrcFmt qtable src dst).map Write.reg).Nodup := by
  rw [programBody_regs]
  exact bodyRegs_nodup chip

/-- What the body writes is there at the end. -/
theorem runWrites_body {w : Write} (hw : w ∈ programBody chip ctx vpuSrcFmt qtable src dst) :
    runWrites (program chip ctx vpuSrcFmt qtable src dst) prior w.reg = w.val :=
  writeAll_bracketed (startReg_notMem_body chip) (programBody_nodup chip) hw prior

/-- A row of a table is read back as its coefficients. -/
theorem readTable_eq {quat : U32 → U32} {coef : Fin 64 → BitVec 16} {regs : RegFile}
    (hcoef : ∀ j, (coef j).toNat < 256)
    (hregs : ∀ i : Fin 16, regs (quat (BitVec.ofNat 32 i)) = quantRow coef i) :
    readTable quat regs = coefAt coef := by
  funext i k
  rw [readTable, hregs, field_quantRow hcoef]

theorem readJob_program (h1 : 1 ≤ ctx.srcFmt.numPlanes) (h3 : ctx.srcFmt.numPlanes ≤ 3)
    (hluma : ∀ j, (qtable.luma j).toNat < 256) (hchroma : ∀ j, (qtable.chroma j).toNat < 256) :
    readJob (jpegRegs chip) (runWrites (program chip ctx vpuSrcFmt qtable src dst) prior) =
      jobView ctx qtable src dst := by
  have hbuf {w : Write} (hw : w ∈ jpegEncSetBuffers (jpegRegs chip) ctx src dst) :
      runWrites (program chip ctx vpuSrcFmt qtable src dst) prior w.reg = w.val :=
    runWrites_body chip prior (by simp [programBody, hw])
  have htab {w : Write} (hw : w ∈ jpegEncSetQtable (jpegRegs chip) qtable) :
      runWrites (program chip ctx vpuSrcFmt qtable src dst) prior w.reg = w.val :=
    runWrites_body chip prior (by simp [programBody, hw])
  have hbufs := planeAddrs_eq h1 h3 src
  rw [readJob, jobView, JpegView.mk.injEq]
  refine ⟨readTable_eq hluma fun i => ?_, readTable_eq hchroma fun i => ?_, ?_, ?_, ?_, ?_, ?_⟩
  · exact htab (w := ⟨quantRow qtable.luma i, _⟩) (List.mem_flatMap.mpr ⟨i, by simp, by simp⟩)
  · exact htab (w := ⟨quantRow qtable.chroma i, _⟩) (List.mem_flatMap.mpr ⟨i, by simp, by simp⟩)
  · exact hbuf (w := ⟨(dst.planes 0).dmaAddr, _⟩) (by simp [jpegEncSetBuffers])
  · exact hbuf (w := ⟨vb2PlaneSize dst 0, _⟩) (by simp [jpegEncSetBuffers])
  · exact hbuf (w := ⟨_, (jpegRegs chip).addrInLuma⟩) (by simp [jpegEncSetBuffers, hbufs])
  · exact hbuf (w := ⟨_, (jpegRegs chip).addrInCb⟩) (by simp [jpegEncSetBuffers, hbufs])
  · exact hbuf (w := ⟨_, (jpegRegs chip).addrInCr⟩) (by simp [jpegEncSetBuffers, hbufs])

theorem modeWord_enable : (modeWord chip).getLsbD 0 = false := by
  cases chip <;> decide

theorem startWord_enable (ctx : Ctx) : (startWord chip ctx).getLsbD 0 = true := by
  cases chip
  · simp [startWord, rk3288EncCtrl, Rk3288.vepuRegEncCtrlEnBit, bit]
  · simp [startWord, rk3399EncodeStart, Rk3399.vepuRegEncodeEnable, bit]

/-- A write to the start register is the first or the last one. -/
theorem program_start {i : ℕ} {w : Write}
    (hw : (program chip ctx vpuSrcFmt qtable src dst)[i]? = some w) (hreg : w.reg = startReg chip) :
    (i = 0 ∧ w.val = modeWord chip) ∨
      (i + 1 = (program chip ctx vpuSrcFmt qtable src dst).length ∧ w.val = startWord chip ctx) := by
  cases i with
  | zero =>
    obtain rfl := Option.some.inj hw
    exact .inl ⟨rfl, rfl⟩
  | succ i =>
    right
    rw [program, List.getElem?_cons_succ] at hw
    by_cases hi : i < (programBody chip ctx vpuSrcFmt qtable src dst).length
    · rw [List.getElem?_append_left hi] at hw
      have hmem := List.mem_map_of_mem (f := Write.reg) (List.mem_of_getElem? hw)
      rw [hreg] at hmem
      exact absurd hmem (startReg_notMem_body chip)
    · rw [List.getElem?_append_right (not_lt.mp hi)] at hw
      obtain ⟨hlt, hget⟩ := List.getElem?_eq_some_iff.mp hw
      simp only [List.length_cons, List.length_nil] at hlt
      have hlen : i = (programBody chip ctx vpuSrcFmt qtable src dst).length := by omega
      refine ⟨by simp [program, hlen], ?_⟩
      subst hlen
      simp at hget
      rw [← hget]

theorem program_faithful (h1 : 1 ≤ ctx.srcFmt.numPlanes) (h3 : ctx.srcFmt.numPlanes ≤ 3)
    (hluma : ∀ j, (qtable.luma j).toNat < 256) (hchroma : ∀ j, (qtable.chroma j).toNat < 256) :
    ProgramFaithful chip ctx qtable src dst (program chip ctx vpuSrcFmt qtable src dst) prior where
  view_eq := readJob_program chip prior h1 h3 hluma hchroma
  frame r hr := by
    refine writeAll_of_notMem ?_ prior
    rw [List.mem_cons, not_or] at hr
    simp only [program, List.map_cons, List.map_append, List.map_nil, programBody_regs,
      List.mem_cons, List.mem_append, List.not_mem_nil, or_false]
    rintro (h | h | h)
    · exact hr.1 h
    · exact hr.2 h
    · exact hr.1 h
  survives w hw hne := by
    rw [program, List.mem_cons, List.mem_append, List.mem_singleton] at hw
    rcases hw with rfl | hw | rfl
    · exact absurd rfl hne
    · exact runWrites_body chip prior hw
    · exact absurd rfl hne
  nodup := by
    have hreg : Write.reg ⟨modeWord chip, startReg chip⟩ =
        Write.reg ⟨startWord chip ctx, startReg chip⟩ := rfl
    exact nodup_bracketed hreg (startReg_notMem_body chip) (programBody_nodup chip)
  enable i w hw hreg := by
    rcases program_start chip hw hreg with ⟨rfl, hval⟩ | ⟨hlast, hval⟩
    · refine iff_of_false ?_ ?_
      · rw [hval, modeWord_enable]
        simp
      · simp [program]
    · exact iff_of_true (by rw [hval, startWord_enable]) hlast

end Program

/-- On both chips the JPEG program writes what the job is and nothing else, and the two
register files, each read with its own layout, agree. -/
theorem jpegEncRun_faithful {ctx : Ctx} {vpuSrcFmt : Fmt} {qtable : JpegQuantization}
    {src dst : Vb2Buffer} (hsrc : ctx.vpuSrcFmt = some vpuSrcFmt)
    (h1 : 1 ≤ ctx.srcFmt.numPlanes) (h3 : ctx.srcFmt.numPlanes ≤ 3)
    (hluma : ∀ j, (qtable.luma j).toNat < 256) (hchroma : ∀ j, (qtable.chroma j).toNat < 256) :
    (∀ chip, ∃ ws, jpegEncRun chip ctx (some qtable) src dst = some ws ∧
      ∀ prior, ProgramFaithful chip ctx qtable src dst ws prior) ∧
    ∀ ws ws' prior prior', jpegEncRun .rk3288 ctx (some qtable) src dst = some ws →
      jpegEncRun .rk3399 ctx (some qtable) src dst = some ws' →
        readJob (jpegRegs .rk3288) (runWrites ws prior) =
          readJob (jpegRegs .rk3399) (runWrites ws' prior') := by
  refine ⟨fun chip => ⟨_, jpegEncRun_eq chip hsrc qtable src dst, fun prior =>
    program_faithful chip prior h1 h3 hluma hchroma⟩, ?_⟩
  intro ws ws' prior prior' hws hws'
  rw [jpegEncRun_eq _ hsrc] at hws hws'
  obtain rfl := Option.some.inj hws
  obtain rfl := Option.some.inj hws'
  rw [readJob_program _ prior h1 h3 hluma hchroma, readJob_program _ prior' h1 h3 hluma hchroma]

/-- Tables without two equal coefficients. -/
def rampTables : JpegQuantization where
  luma j := BitVec.ofNat 16 (2 * j.val + 1)
  chroma j := BitVec.ofNat 16 (2 * j.val + 128)

/-- A buffer whose planes lie apart. -/
def apartBuffer (numPlanes : ℕ) (base : U32) : Vb2Buffer where
  numPlanes := numPlanes
  planes i := { length := 0x4000, dmaAddr := base + BitVec.ofNat 32 (0x10000 * i.val) }

/-- A freshly opened context, which has three source planes. -/
theorem jpegEncRun_faithful_opened : ∃ ws,
    jpegEncRun .rk3288 (opened .rk3288) (some rampTables) (apartBuffer 3 0x100000)
        (apartBuffer 1 0x800000) = some ws ∧
      ∀ prior, ProgramFaithful .rk3288 (opened .rk3288) rampTables (apartBuffer 3 0x100000)
        (apartBuffer 1 0x800000) ws prior :=
  (jpegEncRun_faithful rfl (by decide) (by decide) (by decide) (by decide)).1 .rk3288

end RockchipVpu.Hw
