import Mathlib.Data.Nat.Notation
import Mathlib.Tactic.SplitIfs

/-! Power management at run time, from the side of a driver. The core calls the two callbacks of
the driver when it sees fit. All that is known of it are its rules: it suspends only an active
device, and but for a system sleep only one that the driver has no reference to, and it resumes
only a suspended one. When each callback does its part on the resource, the resource is on
exactly while the device is active. -/

namespace RockchipVpu.Base

/-- The callbacks. A resume may fail. -/
structure PmOps (ρ : Type*) where
  suspend : ρ → ρ
  resume : ρ → Bool × ρ

/-- A device as its driver knows it: the references it has taken and not put, what the callbacks
have made of the device, and the resource that they act on. -/
structure Managed (ρ : Type*) where
  users : ℕ := 0
  active : Bool := false
  res : ρ

/-- The calls between a driver and the core. A get may run the resume callback, and a suspend may
be for a system sleep. -/
inductive PmCall
  | get (resumes : Bool)
  | put
  | suspend (sleep : Bool)
  | resume

namespace Managed

variable {ρ : Type*} (ops : PmOps ρ) (p : Managed ρ)

def suspend : Managed ρ := { p with active := false, res := ops.suspend p.res }

def resume : Managed ρ :=
  { p with active := (ops.resume p.res).1, res := (ops.resume p.res).2 }

/-- A get counts even when its resume fails. -/
def get (resumes : Bool) : Managed ρ :=
  { if resumes then p.resume ops else p with users := p.users + 1 }

def put : Managed ρ := { p with users := p.users - 1 }

def call : PmCall → Managed ρ
  | .get resumes => p.get ops resumes
  | .put => p.put
  | .suspend _ => p.suspend ops
  | .resume => p.resume ops

/-- The rules that the core is assumed to keep. -/
def Rules : PmCall → Prop
  | .get resumes => resumes = true → p.active = false
  | .put => True
  | .suspend sleep => p.active = true ∧ (sleep = false → p.users = 0)
  | .resume => p.active = false

instance : DecidablePred p.Rules := fun c =>
  match c with
  | .get resumes => inferInstanceAs (Decidable (resumes = true → p.active = false))
  | .put => inferInstanceAs (Decidable True)
  | .suspend sleep =>
    inferInstanceAs (Decidable (p.active = true ∧ (sleep = false → p.users = 0)))
  | .resume => inferInstanceAs (Decidable (p.active = false))

/-! ### The resource -/

/-- Suspending turns the resource off. Resuming turns it on or fails and leaves it off. -/
structure Alternates (ops : PmOps ρ) (Off On : ρ → Prop) : Prop where
  suspend : ∀ {r}, On r → Off (ops.suspend r)
  resumed : ∀ {r}, Off r → (ops.resume r).1 = true → On (ops.resume r).2
  failed : ∀ {r}, Off r → (ops.resume r).1 = false → Off (ops.resume r).2

/-- The resource is on exactly while the device is active. -/
structure Follows (Off On : ρ → Prop) (p : Managed ρ) : Prop where
  on : p.active = true → On p.res
  off : p.active = false → Off p.res

variable {ops p} {Off On : ρ → Prop}

theorem Follows.suspend (ha : Alternates ops Off On) (hf : Follows Off On p)
    (hactive : p.active = true) : Follows Off On (p.suspend ops) where
  on := nofun
  off _ := ha.suspend (hf.on hactive)

theorem Follows.resume (ha : Alternates ops Off On) (hf : Follows Off On p)
    (hsuspended : p.active = false) : Follows Off On (p.resume ops) where
  on := ha.resumed (hf.off hsuspended)
  off := ha.failed (hf.off hsuspended)

/-- A call within the rules keeps the resource in step with the device. -/
theorem Follows.call (ha : Alternates ops Off On) (hf : Follows Off On p) {c : PmCall}
    (hc : p.Rules c) : Follows Off On (p.call ops c) := by
  cases c with
  | get resumes =>
    cases resumes with
    | false => exact ⟨hf.on, hf.off⟩
    | true =>
      have hr := hf.resume ha (hc rfl)
      exact ⟨hr.on, hr.off⟩
  | put => exact ⟨hf.on, hf.off⟩
  | suspend sleep => exact hf.suspend ha hc.1
  | resume => exact hf.resume ha hc

/-- After a get the device is active if it was, or if it has been resumed. -/
theorem active_get_iff {resumes : Bool} (hc : p.Rules (.get resumes)) :
    (p.get ops resumes).active = true ↔
      p.active = true ∨ resumes = true ∧ (ops.resume p.res).1 = true := by
  cases resumes with
  | false => simp [get]
  | true =>
    have hsuspended : p.active = false := hc rfl
    simp [get, resume, hsuspended]

end Managed

end RockchipVpu.Base
