import Mathlib.Data.Int.Notation
import Mathlib.Data.List.Basic
import Mathlib.Logic.Function.Basic

/-! The two handlers that can end a job, step by step. mem2mem runs one job at a
time and keeps only a pointer to the context that runs. The interrupt handler and
the watchdog worker both look that pointer up and then finish the job in several
calls; each call is a step here, and the steps of the two handlers, of
`device_run` and of the queueing ioctls interleave freely. Jobs are numbered in the
order they start. The numbers, and the record of what has been done for each job,
are read by no step. -/

namespace RockchipVpu.Job

/-- The two sources of a completion. -/
inductive Kind
  | irq | watchdog
  deriving DecidableEq

/-- What has been done with the job a handler looked up. A completion names the
handler and the job it was raised for. -/
inductive Op
  | removeSrc (buf : ℕ)
  | removeDst (buf : ℕ)
  | returnSrc (buf : ℕ)
  | returnDst (buf : ℕ)
  | complete (kind : Kind) (owner : ℕ)
  | put
  deriving DecidableEq

structure JobRecord where
  powered : Bool := false
  launched : Bool := false
  bufs : Option (ℕ × ℕ) := none
  done : List Op := []
  deriving DecidableEq

/-- The job holds a usage count of its own. -/
def JobRecord.running (job : JobRecord) : Bool := job.powered && !job.done.contains .put

/-- A context pointer, with the number of the job that it stands for. -/
structure Running (κ : Type*) where
  ctx : κ
  job : ℕ
  deriving DecidableEq

/-- The call a handler makes next, with the values it holds. -/
inductive Pc (κ : Type*)
  | lookup
  | cancel (found : Option (Running κ))
  | reset (cur : Running κ)
  | removeSrc (cur : Running κ)
  | removeDst (cur : Running κ) (src : Option ℕ)
  | returnSrc (cur : Running κ) (src dst : ℕ)
  | returnDst (cur : Running κ) (dst : ℕ)
  | finish (cur : Running κ)
  | put (cur : Running κ)
  deriving DecidableEq

/-- The context the handler has looked up. -/
def Pc.held {κ : Type*} : Pc κ → Option (Running κ)
  | .lookup | .cancel none => none
  | .cancel (some cur) | .reset cur | .removeSrc cur | .removeDst cur _ | .returnSrc cur _ _
  | .returnDst cur _ | .finish cur | .put cur => some cur

/-- A handler invocation and the job it was raised for. -/
structure Handler (κ : Type*) where
  owner : ℕ
  pc : Pc κ
  deriving DecidableEq

/-- The call of `device_run` that is next. -/
inductive StartPc
  | get | run
  deriving DecidableEq

/-- The encoder: mem2mem, the hardware, the delayed work and the two handlers. -/
structure Encoder (κ : Type*) where
  src : κ → List ℕ := fun _ => []
  dst : κ → List ℕ := fun _ => []
  curr : Option (Running κ) := none
  start : Option (Running κ × StartPc) := none
  hw : Option ℕ := none
  timer : Option ℕ := none
  handler : Kind → Option (Handler κ) := fun _ => none
  usage : ℤ := 0
  next : ℕ := 0
  job : ℕ → JobRecord := fun _ => {}

namespace Encoder

variable {κ : Type*} [DecidableEq κ]

def setPc (s : Encoder κ) (k : Kind) (h : Handler κ) (pc : Pc κ) : Encoder κ :=
  { s with handler := Function.update s.handler k (some { h with pc := pc }) }

def exit (s : Encoder κ) (k : Kind) : Encoder κ :=
  { s with handler := Function.update s.handler k none }

def setJob (s : Encoder κ) (j : ℕ) (job : JobRecord) : Encoder κ :=
  { s with job := Function.update s.job j job }

def log (s : Encoder κ) (j : ℕ) (op : Op) : Encoder κ :=
  s.setJob j { s.job j with done := (s.job j).done ++ [op] }

/-- `device_run`: the usage count is raised, then the run function programs the
queue heads, schedules the watchdog and starts the hardware. A delayed work that is
pending is not scheduled again. -/
def deviceRun (s : Encoder κ) (cur : Running κ) : StartPc → Option (Encoder κ)
  | .get => some { s.setJob cur.job { s.job cur.job with powered := true } with
      usage := s.usage + 1
      start := some (cur, .run) }
  | .run => match (s.src cur.ctx).head?, (s.dst cur.ctx).head? with
    | some a, some b => some
        { s.setJob cur.job { s.job cur.job with bufs := some (a, b), launched := true } with
          timer := s.timer.or (some cur.job)
          hw := some cur.job
          start := none }
    | _, _ => none

/-- One call of a handler. `cancel` belongs to `rockchip_vpu_irq_done`, `reset` to
`rockchip_vpu_watchdog`, the rest to `rockchip_vpu_job_finish`, whose two checks
leave the handler without a completion. `v4l2_m2m_job_finish` ends the current job
if it is given the context of that job. -/
def handlerStep (s : Encoder κ) (k : Kind) (h : Handler κ) : Encoder κ :=
  match h.pc with
  | .lookup => match k with
    | .irq => s.setPc k h (.cancel s.curr)
    | .watchdog => match s.curr with
      | some cur => s.setPc k h (.reset cur)
      | none => s.exit k
  | .cancel found =>
    let s := { s with timer := none }
    match found with
    | some cur => s.setPc k h (.removeSrc cur)
    | none => s.exit k
  | .reset cur => { s with hw := none }.setPc k h (.removeSrc cur)
  | .removeSrc cur => match s.src cur.ctx with
    | [] => s.setPc k h (.removeDst cur none)
    | a :: as => ({ s with src := Function.update s.src cur.ctx as }.log cur.job
        (.removeSrc a)).setPc k h (.removeDst cur (some a))
  | .removeDst cur src => match s.dst cur.ctx, src with
    | [], _ => s.exit k
    | b :: bs, none => ({ s with dst := Function.update s.dst cur.ctx bs }.log cur.job
        (.removeDst b)).exit k
    | b :: bs, some a => ({ s with dst := Function.update s.dst cur.ctx bs }.log cur.job
        (.removeDst b)).setPc k h (.returnSrc cur a b)
  | .returnSrc cur a b => (s.log cur.job (.returnSrc a)).setPc k h (.returnDst cur b)
  | .returnDst cur b => (s.log cur.job (.returnDst b)).setPc k h (.finish cur)
  | .finish cur => match s.curr with
    | none => s.setPc k h (.put cur)
    | some now => if now.ctx = cur.ctx then
        ({ s with curr := none }.log now.job (.complete k h.owner)).setPc k h (.put cur)
      else s.setPc k h (.put cur)
  | .put cur => ({ s with usage := s.usage - 1 }.log cur.job .put).exit k

end Encoder

/-- The steps of the encoder. -/
inductive RaceAct (κ : Type*)
  | queueSrc (c : κ) (buf : ℕ)
  | queueDst (c : κ) (buf : ℕ)
  | pick (c : κ)
  | deviceRun
  | interrupt
  | expire
  | handler (k : Kind)

variable {κ : Type*} [DecidableEq κ]

/-- mem2mem picks a context with a buffer on both queues while no job is current;
the hardware raises its interrupt once; a pending watchdog expires when its worker
is free. -/
def raceStep (s : Encoder κ) : RaceAct κ → Option (Encoder κ)
  | .queueSrc c buf => some { s with src := Function.update s.src c (s.src c ++ [buf]) }
  | .queueDst c buf => some { s with dst := Function.update s.dst c (s.dst c ++ [buf]) }
  | .pick c => if s.curr = none ∧ s.start = none ∧ s.src c ≠ [] ∧ s.dst c ≠ [] then some { s with
        curr := some ⟨c, s.next⟩
        start := some (⟨c, s.next⟩, .get)
        next := s.next + 1 }
      else none
  | .deviceRun => match s.start with
    | some (cur, pc) => s.deviceRun cur pc
    | none => none
  | .interrupt => match s.hw, s.handler .irq with
    | some j, none => some { s with
        hw := none
        handler := Function.update s.handler .irq (some ⟨j, .lookup⟩) }
    | _, _ => none
  | .expire => match s.timer, s.handler .watchdog with
    | some j, none => some { s with
        timer := none
        handler := Function.update s.handler .watchdog (some ⟨j, .lookup⟩) }
    | _, _ => none
  | .handler k => (s.handler k).map fun h => s.handlerStep k h

end RockchipVpu.Job
