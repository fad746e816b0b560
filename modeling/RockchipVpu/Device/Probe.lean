import RockchipVpu.Base.CallTree

/-! `rockchip_vpu_probe` with the helper that registers a video node, and
`rockchip_vpu_remove`: the framework calls they make, in order, with the error
returned where one fails. Local assignments are left out, except for the fields of
the device that a later branch reads. -/

namespace RockchipVpu.Device

open Base Base.Prog

/-- The two video nodes, `vfd_enc` and `vfd_dec`, and what belongs to each. -/
inductive Half
  | enc | dec
  deriving DecidableEq

/-- The framework calls. Acquiring calls that can fail come with the assignment of
the pointer they return. `pmRuntimeEnable` stands for the three `pm_runtime` calls that
enable runtime PM, `ofMatchNode` for the one in probe (`none`) and the one repeated in
the helper. -/
inductive Call
  | devmKzalloc
  | ofMatchNode (half : Option Half)
  | devmClkBulkGet
  | devmIoremapResource
  | dmaSetCoherentMask
  | platformGetIrqByname (half : Half)
  | devmRequestIrq (half : Half)
  | variantInit
  | pmRuntimeEnable
  | pmRuntimeDisable
  | clkBulkPrepare
  | clkBulkUnprepare
  | v4l2DeviceRegister
  | v4l2DeviceUnregister
  | platformSetDrvdata
  | m2mInit (half : Half)
  | m2mRelease (half : Half)
  | mediaDeviceInit
  | mediaDeviceCleanup
  | mediaDeviceRegister
  | mediaDeviceUnregister
  | videoDeviceAlloc (half : Half)
  | videoDeviceRelease (half : Half)
  | videoRegisterDevice (half : Half)
  | videoUnregisterDevice (half : Half)
  | m2mRegisterMediaController (half : Half)
  | m2mUnregisterMediaController (half : Half)
  | videoSetDrvdata (half : Half)
  deriving DecidableEq

/-- The error a probe returns: a code of its own, or the one that a call returned. -/
inductive Errno
  | enomem | enodev | enxio
  | of (c : Call)
  deriving DecidableEq

/-- Which interrupt handlers the variant has. -/
structure IrqHandlers where
  vepuIrq : Bool
  vdpuIrq : Bool
  deriving DecidableEq

/-- Both variants have both. -/
def rockchipIrqHandlers : IrqHandlers := { vepuIrq := true, vdpuIrq := true }

/-- The fields of `rockchip_vpu_dev` that are tested: the pointers to the video nodes. -/
structure Vpu where
  vfdEnc : Bool := false
  vfdDec : Bool := false
  deriving DecidableEq

def Vpu.setVfd (vpu : Vpu) : Half → Vpu
  | .enc => { vpu with vfdEnc := true }
  | .dec => { vpu with vfdDec := true }

/-- Probe returns an error or leaves a bound device. -/
abbrev Probe := Prog Call (Except Errno Vpu)

/-! ### Probe -/

/-- `rockchip_vpu_video_register_device`, continued in `failed` with the error it
returns and in `next` with the device that has the node. -/
def videoRegisterDevice (vpu : Vpu) (half : Half) (failed : Errno → Probe)
    (next : Vpu → Probe) : Probe :=
  let errFreeDev (ret : Errno) := step (.videoDeviceRelease half) (failed ret)
  let errUnregVideo (ret : Errno) := step (.videoUnregisterDevice half) (errFreeDev ret)
  attempt (.ofMatchNode (some half)) (failed .enodev) <|
  attempt (.videoDeviceAlloc half) (failed .enomem) <|
  attempt (.videoRegisterDevice half) (errFreeDev (.of (.videoRegisterDevice half))) <|
  attempt (.m2mRegisterMediaController half)
    (errUnregVideo (.of (.m2mRegisterMediaController half))) <|
  step (.videoSetDrvdata half) (next (vpu.setVfd half))

/-! The labels at the end of probe, each falling through to the one before it here. -/

def errClkUnprepare (ret : Errno) : Probe :=
  step .clkBulkUnprepare <| step .pmRuntimeDisable <| .ret (.error ret)

def errV4l2Unreg (ret : Errno) : Probe := step .v4l2DeviceUnregister (errClkUnprepare ret)

def errM2mEncDevRel (ret : Errno) : Probe := step (.m2mRelease .enc) (errV4l2Unreg ret)

def errM2mDecDevRel (ret : Errno) : Probe := step (.m2mRelease .dec) (errM2mEncDevRel ret)

def errVideoEncoderDevUnreg (vpu : Vpu) (ret : Errno) : Probe :=
  if vpu.vfdEnc then
    step (.videoUnregisterDevice .enc) <| step (.videoDeviceRelease .enc) (errM2mDecDevRel ret)
  else errM2mDecDevRel ret

-- the source tests `vfd_enc` here as well
def errVideoDecoderDevUnreg (vpu : Vpu) (ret : Errno) : Probe :=
  if vpu.vfdEnc then
    step (.videoUnregisterDevice .dec) <| step (.videoDeviceRelease .dec)
      (errVideoEncoderDevUnreg vpu ret)
  else errVideoEncoderDevUnreg vpu ret

/-- Probe from `media_device_init` on. -/
def registerNodes (vpu : Vpu) : Probe :=
  step .mediaDeviceInit <|
  videoRegisterDevice vpu .enc errM2mDecDevRel fun vpu =>
  videoRegisterDevice vpu .dec (errVideoEncoderDevUnreg vpu) fun vpu =>
  attempt .mediaDeviceRegister (errVideoDecoderDevUnreg vpu (.of .mediaDeviceRegister)) <|
  .ret (.ok vpu)

/-- Probe from `pm_runtime_enable` on. -/
def powerAndRegister (vpu : Vpu) : Probe :=
  step .pmRuntimeEnable <|
  attempt .clkBulkPrepare (.ret (.error (.of .clkBulkPrepare))) <|
  attempt .v4l2DeviceRegister (errClkUnprepare (.of .v4l2DeviceRegister)) <|
  step .platformSetDrvdata <|
  attempt (.m2mInit .enc) (errV4l2Unreg (.of (.m2mInit .enc))) <|
  attempt (.m2mInit .dec) (errM2mEncDevRel (.of (.m2mInit .dec))) <|
  registerNodes vpu

/-- Getting and requesting the interrupt of one half. -/
def irqCalls (half : Half) : List (Call × Errno) :=
  [(.platformGetIrqByname half, .enxio), (.devmRequestIrq half, .of (.devmRequestIrq half))]

/-- The calls before `pm_runtime_enable`, with the error that probe returns when one
fails; only devm resources are acquired until then. -/
def devmCalls (irqs : IrqHandlers) : List (Call × Errno) := List.flatten [
  [(.devmKzalloc, .enomem), (.ofMatchNode none, .enodev), (.devmClkBulkGet, .of .devmClkBulkGet),
    (.devmIoremapResource, .of .devmIoremapResource),
    (.dmaSetCoherentMask, .of .dmaSetCoherentMask)],
  if irqs.vepuIrq then irqCalls .enc else [],
  if irqs.vdpuIrq then irqCalls .dec else [],
  [(.variantInit, .of .variantInit)]]

/-- `rockchip_vpu_probe`. -/
def probe (irqs : IrqHandlers) : Probe :=
  attemptAll .error (devmCalls irqs) (powerAndRegister {})

/-! ### Remove -/

/-- `rockchip_vpu_remove`. -/
def remove (vpu : Vpu) : Prog Call Unit :=
  let rest : Prog Call Unit :=
    step .v4l2DeviceUnregister <| step .clkBulkUnprepare <| step .pmRuntimeDisable <| .ret ()
  step .mediaDeviceUnregister <|
  step (.m2mUnregisterMediaController .enc) <|
  step (.m2mRelease .enc) <|
  step .mediaDeviceCleanup <|
  if vpu.vfdEnc then
    step (.videoUnregisterDevice .enc) <| step (.videoDeviceRelease .enc) rest
  else rest

end RockchipVpu.Device
