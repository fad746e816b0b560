import RockchipVpu.Device.Probe
import RockchipVpu.Format.Variants
import Mathlib.Data.Int.Notation

/-! `rockchip_vpu_open` and `rockchip_vpu_release` with the set-up of the controls, and
the lookup of a control's data. A context records which of its parts are there; a call
that can fail takes its outcome from the environment. The formats that `open` resets
are those of `openFormats`. -/

namespace RockchipVpu.Device

open Base Format

/-- The number of an error; the kernel returns its negation. -/
structure ErrNum where
  num : ℕ
  pos : 0 < num
  deriving DecidableEq

def ErrNum.ret (e : ErrNum) : ℤ := -e.num

def enomem : ErrNum := ⟨12, by decide⟩
def enodev : ErrNum := ⟨19, by decide⟩
def einval : ErrNum := ⟨22, by decide⟩

/-- `ROCKCHIP_VPU_MAX_CTRLS`. -/
def maxCtrls : ℕ := 16

/-- `struct rockchip_vpu_ctrl`; `cfg.id` is set from `id` before the control is added. -/
structure RockchipVpuCtrl where
  id : U32
  codec : U32
  deriving DecidableEq

/-- The controls of the driver, given the value of `V4L2_CID_JPEG_QUANTIZATION`, which the
kernel headers define. -/
def controls (cidJpegQuantization : U32) : List RockchipVpuCtrl :=
  [{ id := cidJpegQuantization, codec := rkVpuCodecJpeg }]

/-- A registered control and what `p_cur.p` points to. -/
structure V4l2Ctrl (δ : Type*) where
  id : U32
  data : δ
  deriving DecidableEq

/-- `struct rockchip_vpu_ctx` without its formats: whether it is allocated, whether it has
an m2m context, a file handle and a control handler, and its controls. A context that
`kzalloc` returns is zeroed. -/
structure OpenCtx (δ : Type*) where
  allocated : Bool := false
  m2mCtx : Bool := false
  fh : Bool := false
  ctrlHandler : Bool := false
  handlerError : ℤ := 0
  ctrls : List (Option (V4l2Ctrl δ)) := List.replicate maxCtrls none
  numCtrls : ℕ := 0
  deriving DecidableEq

/-- What the calls of one open return: an error or success, and the data of the control
with a given index in the table where adding it succeeds. -/
structure OpenOutcome (δ : Type*) where
  kzalloc : Bool := true
  m2mCtxInit : Option ErrNum := none
  handlerInit : Option ErrNum := none
  newCustom : ℕ → Except ErrNum δ

variable {δ : Type*}

namespace OpenCtx

/-- `v4l2_ctrl_handler_init`. -/
def handlerInit (ctx : OpenCtx δ) : Option ErrNum → OpenCtx δ
  | none => { ctx with ctrlHandler := true, handlerError := 0 }
  | some e => { ctx with handlerError := e.ret }

/-- `v4l2_ctrl_new_custom`, its result stored in `ctrls[j]`. -/
def newCustom (ctx : OpenCtx δ) (id : U32) (j : ℕ) : Except ErrNum δ → OpenCtx δ
  | .ok data => { ctx with ctrls := ctx.ctrls.set j (some ⟨id, data⟩) }
  | .error e => { ctx with ctrls := ctx.ctrls.set j none, handlerError := e.ret }

/-- `v4l2_ctrl_handler_free`, which also clears the error. -/
def handlerFree (ctx : OpenCtx δ) : OpenCtx δ :=
  { ctx with ctrlHandler := false, handlerError := 0 }

end OpenCtx

/-- `rockchip_vpu_find_control_data`. -/
def findControlData (ctx : OpenCtx δ) (id : U32) : Option δ :=
  (ctx.ctrls.take ctx.numCtrls).findSome? fun
    | none => none
    | some ctrl => if ctrl.id = id then some ctrl.data else none

/-- The loop of `rockchip_vpu_ctrls_setup` over the rest of the table, from index `i` on,
with `ctrls[j]` the next free slot: the value it returns, if it returns from the loop. -/
def addControls (codec : U32) (o : OpenOutcome δ) :
    List RockchipVpuCtrl → ℕ → ℕ → OpenCtx δ → Option ℤ × OpenCtx δ
  | [], _, _, ctx => (none, ctx)
  | c :: cs, i, j, ctx =>
    if codec &&& c.codec = 0 then addControls codec o cs (i + 1) j ctx
    else
      let ctx := ctx.newCustom c.id j (o.newCustom i)
      if ctx.handlerError ≠ 0 then
        let ctx := ctx.handlerFree
        (some ctx.handlerError, ctx)
      else addControls codec o cs (i + 1) (j + 1) ctx

/-- `rockchip_vpu_ctrls_setup`. -/
def ctrlsSetup (table : List RockchipVpuCtrl) (codec : U32) (o : OpenOutcome δ)
    (ctx : OpenCtx δ) : ℤ × OpenCtx δ :=
  if maxCtrls < table.length then (einval.ret, ctx)
  else
    let ctx := ctx.handlerInit o.handlerInit
    if ctx.handlerError ≠ 0 then (ctx.handlerError, ctx)
    else match addControls codec o table 0 0 ctx with
      | (some ret, ctx) => (ret, ctx)
      | (none, ctx) => (0, { ctx with numCtrls := table.length })

/-- `rockchip_vpu_open`: what it returns, and the context it leaves. -/
def openNode (table : List RockchipVpuCtrl) (codec : U32) (half : Half) (o : OpenOutcome δ) :
    ℤ × OpenCtx δ :=
  if !o.kzalloc then (enomem.ret, {})
  else
    let ctx : OpenCtx δ := { allocated := true }
    match (if half = .enc then o.m2mCtxInit else some enodev) with
    | some e => (e.ret, { ctx with allocated := false })
    | none =>
      let (ret, ctx) := ctrlsSetup table codec o { ctx with m2mCtx := true, fh := true }
      -- `err_fh_free` does not release the m2m context
      if ret ≠ 0 then (ret, { ctx with fh := false, allocated := false }) else (0, ctx)

/-- `rockchip_vpu_release`. -/
def releaseNode (ctx : OpenCtx δ) : OpenCtx δ :=
  { ({ ctx with m2mCtx := false, fh := false } : OpenCtx δ).handlerFree with allocated := false }

end RockchipVpu.Device
