import RockchipVpu.Base.Transition
import RockchipVpu.Device.Probe
import RockchipVpu.Job.Race

/-! The device while it is probed, bound and removed, with the users that may come in
between any two calls of the driver core: opens of a registered node, the interrupt
handler from the request of its interrupt on, and the watchdog worker after a job.
Each user is a sequence of steps; those that use what probe sets up and remove tears
down record a fault if it is not there. -/

namespace RockchipVpu.Device

open Base Job

/-- `vpu->m2m_enc_dev`: not set by `v4l2_m2m_init`, usable, or freed by
`v4l2_m2m_release`. -/
inductive M2mPointer
  | unset | live | freed
  deriving DecidableEq

/-- What the users see of the device. -/
structure Shared where
  registered : Half → Bool := fun _ => false
  drvdata : Half → Bool := fun _ => false
  m2mEnc : M2mPointer := .unset
  irqRequested : Bool := false

/-- What a call of probe or remove, with its outcome, changes of it. -/
def Shared.call (dev : Shared) : Call → Bool → Shared
  | .devmRequestIrq .enc, true => { dev with irqRequested := true }
  | .m2mInit .enc, true => { dev with m2mEnc := .live }
  | .m2mRelease .enc, _ => { dev with m2mEnc := .freed }
  | .videoRegisterDevice half, true =>
    { dev with registered := Function.update dev.registered half true }
  | .videoUnregisterDevice half, _ =>
    { dev with registered := Function.update dev.registered half false }
  | .videoSetDrvdata half, _ => { dev with drvdata := Function.update dev.drvdata half true }
  | _, _ => dev

/-- Where the driver core is. -/
inductive Core
  | probing (p : Probe)
  | bound (vpu : Vpu)
  | removing (p : Prog Call Unit)
  | gone

/-- The next use of the device in a handler: `v4l2_m2m_get_curr_priv` or
`v4l2_m2m_job_finish`. -/
inductive HandlerPc
  | lookup | finish
  deriving DecidableEq

/-- A use of the device that finds it not set up, or torn down. -/
inductive Fault
  | unsetDrvdata (half : Half)
  | openM2m
  | handlerM2m (k : Kind)
  deriving DecidableEq

/-- `opening` counts the opens that have not read the driver data of the node yet,
`initing` those of the encoder that go on to `v4l2_m2m_ctx_init`, and `handles` the
encoder contexts that are open. -/
structure Lifetime where
  core : Core
  dev : Shared := {}
  opening : Half → ℕ := fun _ => 0
  initing : ℕ := 0
  handles : ℕ := 0
  pending : Bool := false
  handler : Kind → Option HandlerPc := fun _ => none
  faults : List Fault := []

namespace Lifetime

def fault (s : Lifetime) (f : Fault) : Lifetime := { s with faults := f :: s.faults }

/-- A use of `vpu->m2m_enc_dev`. -/
def useM2m (s : Lifetime) (f : Fault) : Lifetime :=
  if s.dev.m2mEnc = .live then s else s.fault f

def setHandler (s : Lifetime) (k : Kind) (pc : Option HandlerPc) : Lifetime :=
  { s with handler := Function.update s.handler k pc }

end Lifetime

inductive LifeAct
  | core (ok : Bool)
  | unbind
  | openEnter (half : Half)
  | openDrvdata (half : Half)
  | openCtxInit (ok : Bool)
  | close
  | startJob
  | interrupt
  | expire
  | lookup (k : Kind) (found : Bool)
  | finish (k : Kind)

/-- When probe has failed or remove has returned, the core releases the devm resources
and waits for the interrupt handler to return. -/
def Lifetime.release (s : Lifetime) : Option Lifetime :=
  if s.handler .irq = none then
    some { s with core := .gone, dev := { s.dev with irqRequested := false } }
  else none

def lifeStep (s : Lifetime) : LifeAct → Option Lifetime
  | .core ok => match s.core with
    | .probing (.call c next) => some { s with core := .probing (next ok), dev := s.dev.call c ok }
    | .probing (.ret (.ok vpu)) => some { s with core := .bound vpu }
    | .probing (.ret (.error _)) => s.release
    | .removing (.call c next) =>
      some { s with core := .removing (next ok), dev := s.dev.call c ok }
    | .removing (.ret ()) => s.release
    | .bound _ | .gone => none
  | .unbind => match s.core with
    | .bound vpu => some { s with core := .removing (remove vpu) }
    | _ => none
  | .openEnter half => if s.dev.registered half then
      some { s with opening := Function.update s.opening half (s.opening half + 1) }
    else none
  | .openDrvdata half => if s.opening half = 0 then none else
      let s := { s with opening := Function.update s.opening half (s.opening half - 1) }
      some <| if s.dev.drvdata half then
        match half with
        | .enc => { s with initing := s.initing + 1 }
        | .dec => s  -- the decoder node has no context: `-ENODEV`
      else s.fault (.unsetDrvdata half)
  | .openCtxInit ok => if s.initing = 0 then none else
      let s := { s with initing := s.initing - 1 }.useM2m .openM2m
      some (if ok then { s with handles := s.handles + 1 } else s)
  | .close => if s.handles = 0 then none else some { s with handles := s.handles - 1 }
  | .startJob => if s.handles = 0 then none else some { s with pending := true }
  | .interrupt => if s.dev.irqRequested = true ∧ s.handler .irq = none then
      some (s.setHandler .irq (some .lookup))
    else none
  | .expire => if s.pending = true ∧ s.handler .watchdog = none then
      some ({ s with pending := false }.setHandler .watchdog (some .lookup))
    else none
  | .lookup k found => if s.handler k = some .lookup then
      let s := s.useM2m (.handlerM2m k)
      -- the interrupt handler cancels the watchdog, whether it finds a context or not
      let s := match k with
        | .irq => { s with pending := false }
        | .watchdog => s
      some (s.setHandler k (if found then some .finish else none))
    else none
  | .finish k => if s.handler k = some .finish then
      some ((s.useM2m (.handlerM2m k)).setHandler k none)
    else none

/-- The device before probe. -/
def unbound (irqs : IrqHandlers) : Lifetime := { core := .probing (probe irqs) }

end RockchipVpu.Device
