import RockchipVpu.Base.RuntimePm
import RockchipVpu.System.Working

/-! The power of the device. `device_run` takes a reference before the run function touches a
register, and `rockchip_vpu_job_finish` drops it when the buffers are back and mem2mem may have
started the next job already. The core suspends and resumes the device at any time that its rules
allow, and the callbacks enable and disable the clocks through a framework of which no more is
known than what it promises. Every reference is dropped and the clocks are enabled at most once;
and no register is touched without them as long as every job finds them or can enable them, and
the system does not sleep during a job. -/

namespace RockchipVpu.System

open Base Format Queue Hw Job

variable {κ γ : Type*}

/-! ### The clocks -/

/-- The field `num_clocks` of the variant. -/
def numClocks : Chip → ℕ
  | .rk3288 => 2
  | .rk3399 => 2

/-- The clock framework as the driver calls it, for the first clocks of the device, and how often
each of these clocks is enabled. -/
structure ClkBulk (γ : Type*) where
  clkBulkEnable : ℕ → γ → Bool × γ
  clkBulkDisable : ℕ → γ → γ
  enableCount : γ → ℕ → ℕ

/-- What the framework promises: it enables all the clocks or none of them, and disables each of
them once. -/
structure ClkBulk.Balances (clk : ClkBulk γ) : Prop where
  enable : ∀ num c i, clk.enableCount (clk.clkBulkEnable num c).2 i =
    clk.enableCount c i + if (clk.clkBulkEnable num c).1 = true ∧ i < num then 1 else 0
  disable : ∀ num c i, clk.enableCount (clk.clkBulkDisable num c) i =
    clk.enableCount c i - if i < num then 1 else 0

section Clocks
variable (clk : ClkBulk γ) (chip : Chip)

def rockchipVpuRuntimeSuspend (c : γ) : γ := clk.clkBulkDisable (numClocks chip) c

def rockchipVpuRuntimeResume (c : γ) : Bool × γ := clk.clkBulkEnable (numClocks chip) c

/-- `rockchip_vpu_pm_ops`. -/
def rockchipVpuPmOps : PmOps γ where
  suspend := rockchipVpuRuntimeSuspend clk chip
  resume := rockchipVpuRuntimeResume clk chip

def ClocksOff (c : γ) : Prop := ∀ i, clk.enableCount c i = 0

def ClocksOn (c : γ) : Prop := ∀ i, clk.enableCount c i = if i < numClocks chip then 1 else 0

variable {clk}

theorem clocks_alternate (hclk : clk.Balances) :
    Managed.Alternates (rockchipVpuPmOps clk chip) (ClocksOff clk) (ClocksOn clk chip) where
  suspend hon i := (hclk.disable _ _ i).trans (by rw [hon i, Nat.sub_self])
  resumed {c} hoff hok i := by
    have hok' : (clk.clkBulkEnable (numClocks chip) c).1 = true := hok
    refine (hclk.enable _ _ i).trans ?_
    simp [hoff i, hok']
  failed {c} hoff hfail i := by
    have hfail' : (clk.clkBulkEnable (numClocks chip) c).1 = false := hfail
    refine (hclk.enable _ _ i).trans ?_
    simp [hoff i, hfail']

end Clocks

/-- A framework that is told what to answer. -/
def answeredClk : ClkBulk (List Bool × (ℕ → ℕ)) where
  clkBulkEnable num c :=
    let answer := c.1.headD true
    (answer, c.1.tail, fun i => c.2 i + if answer = true ∧ i < num then 1 else 0)
  clkBulkDisable num c := (c.1, fun i => c.2 i - if i < num then 1 else 0)
  enableCount c := c.2

theorem answeredClk_balances : answeredClk.Balances where
  enable _ _ _ := rfl
  disable _ _ _ := rfl

/-! ### The device with its power -/

/-- A job that has ended still has to put its reference. -/
structure Powered (κ γ : Type*) where
  dev : Device κ
  pm : Managed γ
  puts : ℕ := 0

/-- What the core does at a get comes with the step. -/
inductive PowerAct (κ : Type*)
  | dev (act : DevAct κ) (resumes : Bool)
  | put
  | suspend (sleep : Bool)
  | resume

/-- The device when the driver has just been bound. -/
def initPowered (κ : Type*) (regs : RegFile) (clocks : γ) : Powered κ γ where
  dev := initDevice κ regs
  pm := { res := clocks }

/-- The core keeps its rules. -/
def PmRules (s : Powered κ γ) : PowerAct κ → Prop
  | .dev (.deviceRun _) resumes => s.pm.Rules (.get resumes)
  | .suspend sleep => s.pm.Rules (.suspend sleep)
  | .resume => s.pm.Rules .resume
  | _ => True

instance (s : Powered κ γ) : DecidablePred (PmRules s) := fun act =>
  match act with
  | .dev (.deviceRun _) resumes => inferInstanceAs (Decidable (s.pm.Rules (.get resumes)))
  | .suspend sleep => inferInstanceAs (Decidable (s.pm.Rules (.suspend sleep)))
  | .resume => inferInstanceAs (Decidable (s.pm.Rules .resume))
  | .dev (.vpuOpen ..) _ | .dev (.vpuRelease _) _ | .dev (.setCtrl ..) _ | .dev (.ioctl ..) _
  | .dev .call _ | .dev (.report ..) _ | .dev .irq _ | .dev .watchdog _ | .put =>
    inferInstanceAs (Decidable True)

/-- The clocks are enabled while there is a current job. -/
def Clocked (clk : ClkBulk γ) (chip : Chip) (s : Powered κ γ) : Prop :=
  s.dev.task.isSome = true → ∀ i, i < numClocks chip → 0 < clk.enableCount s.pm.res i

/-- A job starts on an active device or resumes it, and the system sleeps only between jobs. -/
def KeepsPower (clk : ClkBulk γ) (chip : Chip) (s : Powered κ γ) : PowerAct κ → Prop
  | .dev (.deviceRun _) resumes => s.pm.active = true ∨
    resumes = true ∧ (rockchipVpuRuntimeResume clk chip s.pm.res).1 = true
  | .suspend sleep => sleep = true → s.dev.task = none
  | _ => True

instance (clk : ClkBulk γ) (chip : Chip) (s : Powered κ γ) :
    DecidablePred (KeepsPower clk chip s) := fun act =>
  match act with
  | .dev (.deviceRun _) _ => inferInstanceAs (Decidable (_ ∨ _))
  | .suspend sleep => inferInstanceAs (Decidable (sleep = true → s.dev.task = none))
  | .dev (.vpuOpen ..) _ | .dev (.vpuRelease _) _ | .dev (.setCtrl ..) _ | .dev (.ioctl ..) _
  | .dev .call _ | .dev (.report ..) _ | .dev .irq _ | .dev .watchdog _ | .put | .resume =>
    inferInstanceAs (Decidable True)

/-- The step neither starts nor ends a job. -/
def KeepsJob : DevAct κ → Prop
  | .deviceRun _ | .irq | .watchdog => False
  | .vpuOpen .. | .vpuRelease _ | .setCtrl .. | .ioctl .. | .call | .report .. => True

variable [DecidableEq κ]

/-- The references that a step of the device takes, or leaves to be put. -/
def Powered.account (clk : ClkBulk γ) (chip : Chip) (s : Powered κ γ) (resumes : Bool)
    (dev : Device κ) : DevAct κ → Powered κ γ
  | .deviceRun _ => { s with dev := dev, pm := s.pm.get (rockchipVpuPmOps clk chip) resumes }
  | .irq | .watchdog => { s with dev := dev, puts := s.puts + s.dev.task.isSome.toNat }
  | .vpuOpen .. | .vpuRelease _ | .setCtrl .. | .ioctl .. | .call | .report .. =>
    { s with dev := dev }

def powerStep (clk : ClkBulk γ) (chip : Chip) (dmaAlign : U32) (s : Powered κ γ) :
    PowerAct κ → Option (Powered κ γ)
  | .dev act resumes =>
    (devStep chip dmaAlign s.dev act).map fun dev => s.account clk chip resumes dev act
  | .put => if s.puts = 0 then none else some { s with pm := s.pm.put, puts := s.puts - 1 }
  | .suspend _ => some { s with pm := s.pm.suspend (rockchipVpuPmOps clk chip) }
  | .resume => some { s with pm := s.pm.resume (rockchipVpuPmOps clk chip) }

/-! ### Accounts -/

/-- The driver has one reference for the current job and one for each job that has not put its own
yet. The clocks are enabled once while the device is active, and not at all otherwise. -/
structure PowerAccounts (clk : ClkBulk γ) (chip : Chip) (s : Powered κ γ) : Prop where
  users_eq : s.pm.users = s.dev.task.isSome.toNat + s.puts
  clocks : s.pm.Follows (ClocksOff clk) (ClocksOn clk chip)

omit [DecidableEq κ] in
theorem powerAccounts_init {clk : ClkBulk γ} (chip : Chip) (regs : RegFile) {clocks : γ}
    (hoff : ClocksOff clk clocks) : PowerAccounts clk chip (initPowered κ regs clocks) where
  users_eq := rfl
  clocks := ⟨nofun, fun _ => hoff⟩

section Accounts

variable {clk : ClkBulk γ} {chip : Chip} {A : DmaAlign} {s s' : Powered κ γ} {d d' : Device κ}

omit [DecidableEq κ] in
theorem account_kept {act : DevAct κ} (hk : KeepsJob act) (resumes : Bool) :
    s.account clk chip resumes d act = { s with dev := d } := by
  cases act with
  | deviceRun | irq | watchdog => exact hk.elim
  | _ => rfl

omit [DecidableEq κ] in
theorem keepsPower_kept {act : DevAct κ} (hk : KeepsJob act) (resumes : Bool) :
    KeepsPower clk chip s (.dev act resumes) := by
  cases act with
  | deviceRun | irq | watchdog => exact hk.elim
  | _ => trivial

/-- What a step of the device makes of the current job. -/
inductive TaskExit (d d' : Device κ) : DevAct κ → Prop
  | started {c : κ} (hidle : d.task = none) (ht : d'.task.isSome = true) :
      TaskExit d d' (.deviceRun c)
  | irq (ht : d'.task = none) : TaskExit d d' .irq
  | watchdog (ht : d'.task = none) : TaskExit d d' .watchdog
  | kept {act : DevAct κ} (hk : KeepsJob act) (ht : d'.task = d.task) : TaskExit d d' act

theorem task_finish (hi : DeviceInv chip d) {bytesused : U32} {result : BufResult}
    (hs : d.finish bytesused result = some d') : d'.task = none := by
  obtain ⟨u, hu, -, ht, -⟩ := deviceInv_finish hi bytesused result
  obtain rfl := Option.some.inj (hu.symm.trans hs)
  exact ht

theorem devStep_taskExit (hi : DeviceInv chip d) {act : DevAct κ}
    (hs : devStep chip A.val d act = some d') : TaskExit d d' act := by
  cases act with
  | vpuOpen c qtable =>
    simp only [devStep] at hs
    split_ifs at hs
    obtain rfl := Option.some.inj hs
    exact .kept trivial rfl
  | vpuRelease c =>
    simp only [devStep] at hs
    split_ifs at hs
    obtain rfl := Option.some.inj hs
    exact .kept trivial rfl
  | setCtrl c qtable =>
    obtain ⟨file, -, rfl⟩ := Option.map_eq_some_iff.mp hs
    exact .kept trivial rfl
  | ioctl c io =>
    obtain ⟨file, -, hs⟩ := Option.bind_eq_some_iff.mp hs
    obtain ⟨file', -, rfl⟩ := Option.map_eq_some_iff.mp hs
    exact .kept trivial rfl
  | deviceRun c =>
    simp only [devStep] at hs
    split_ifs at hs with hidle
    obtain ⟨file, -, hs⟩ := Option.bind_eq_some_iff.mp hs
    obtain ⟨⟨file', job⟩, -, rfl⟩ := Option.map_eq_some_iff.mp hs
    have hnone : d.task = none ∧ d.calls = [] := by simpa using hidle
    exact .started hnone.1 rfl
  | call =>
    cases (devStep_spec hi hs).2 with
    | files ht => exact .kept trivial ht
    | call x hcalls ht => exact .kept trivial ht
  | report status bits =>
    cases (devStep_spec hi hs).2 with
    | files ht => exact .kept trivial ht
    | report hworking ht => exact .kept trivial ht
  | irq =>
    simp only [devStep] at hs
    split_ifs at hs with hraised
    have hack : DeviceInv chip { d with timer := false, hw := (d.hw.vepuIrq chip).2 } :=
      hi.congr rfl rfl
    exact .irq (task_finish hack hs)
  | watchdog =>
    simp only [devStep] at hs
    split_ifs at hs with htimer
    cases htask : d.task with
    | none =>
      rw [Device.watchdog, htask] at hs
      obtain rfl := Option.some.inj hs
      exact .watchdog rfl
    | some t =>
      rw [watchdog_eq hi (by rw [htask]; rfl)] at hs
      have hreset : DeviceInv chip
          { d with timer := false, hw := d.hw.writes chip (encReset chip) } := hi.congr rfl rfl
      exact .watchdog (task_finish hreset hs)

/-- The accounts are kept by every step of a core that keeps its rules. -/
theorem powerAccounts_step (hclk : clk.Balances) (hi : DeviceInv chip s.dev)
    (hp : PowerAccounts clk chip s) {act : PowerAct κ} (hr : PmRules s act)
    (hs : powerStep clk chip A.val s act = some s') : PowerAccounts clk chip s' := by
  have halt := clocks_alternate chip hclk
  obtain ⟨husers, hclocks⟩ := hp
  cases act with
  | dev act resumes =>
    obtain ⟨d, hd, rfl⟩ := Option.map_eq_some_iff.mp hs
    cases devStep_taskExit hi hd with
    | started hidle ht =>
      refine ⟨?_, hclocks.call (c := .get resumes) halt hr⟩
      simp only [hidle, Option.isSome_none, Bool.toNat_false] at husers
      simp only [Powered.account, Managed.get, ht, Bool.toNat_true]
      omega
    | irq ht =>
      refine ⟨?_, hclocks⟩
      simp only [Powered.account, ht, Option.isSome_none, Bool.toNat_false]
      omega
    | watchdog ht =>
      refine ⟨?_, hclocks⟩
      simp only [Powered.account, ht, Option.isSome_none, Bool.toNat_false]
      omega
    | kept hk ht =>
      rw [account_kept hk]
      refine ⟨?_, hclocks⟩
      rw [ht]
      exact husers
  | put =>
    simp only [powerStep] at hs
    split_ifs at hs with hputs
    obtain rfl := Option.some.inj hs
    refine ⟨?_, hclocks.call (c := .put) halt trivial⟩
    simp only [Managed.put]
    omega
  | suspend sleep =>
    obtain rfl := Option.some.inj hs
    exact ⟨husers, hclocks.call (c := .suspend sleep) halt hr⟩
  | resume =>
    obtain rfl := Option.some.inj hs
    exact ⟨husers, hclocks.call (c := .resume) halt hr⟩

/-- The power is a layer over the device. -/
theorem powerStep_dev {act : PowerAct κ} (hs : powerStep clk chip A.val s act = some s') :
    s'.dev = s.dev ∨ ∃ act' resumes, act = .dev act' resumes ∧
      devStep chip A.val s.dev act' = some s'.dev := by
  cases act with
  | dev act resumes =>
    obtain ⟨d, hd, rfl⟩ := Option.map_eq_some_iff.mp hs
    have hdev : (s.account clk chip resumes d act).dev = d := by cases act <;> rfl
    rw [hdev]
    exact .inr ⟨act, resumes, rfl, hd⟩
  | put =>
    simp only [powerStep] at hs
    split_ifs at hs
    obtain rfl := Option.some.inj hs
    exact .inl rfl
  | suspend | resume =>
    obtain rfl := Option.some.inj hs
    exact .inl rfl

/-- What the device does under power management it does without. -/
theorem reach_dev {regs : RegFile} {clocks : γ} {C : Powered κ γ → PowerAct κ → Prop}
    {D : Device κ → DevAct κ → Prop} (hCD : ∀ s act resumes, C s (.dev act resumes) → D s.dev act)
    (h : Reach (powerStep clk chip A.val) C (initPowered κ regs clocks) s) :
    Reach (devStep chip A.val) D (initDevice κ regs) s.dev := by
  induction h with
  | start => exact .start
  | next _ hc hs ih =>
    rcases powerStep_dev hs with hsame | ⟨act, resumes, rfl, hd⟩
    · rw [hsame]
      exact ih
    · exact .next ih (hCD _ _ _ hc) hd

/-- The device and its accounts. -/
structure PowerInv (clk : ClkBulk γ) (chip : Chip) (s : Powered κ γ) : Prop where
  dev : DeviceInv chip s.dev
  accounts : PowerAccounts clk chip s

theorem powerInv_init (chip : Chip) (regs : RegFile) {clocks : γ} (hoff : ClocksOff clk clocks) :
    PowerInv clk chip (initPowered κ regs clocks) where
  dev := deviceInv_init chip regs
  accounts := powerAccounts_init chip regs hoff

theorem powerInv_step (hclk : clk.Balances) (hi : PowerInv clk chip s) {act : PowerAct κ}
    (hr : PmRules s act) (hs : powerStep clk chip A.val s act = some s') :
    PowerInv clk chip s' where
  dev := by
    rcases powerStep_dev hs with hsame | ⟨act, resumes, rfl, hd⟩
    · rw [hsame]
      exact hi.dev
    · exact (devStep_spec hi.dev hd).1
  accounts := powerAccounts_step hclk hi.dev hi.accounts hr hs

/-- Whatever the device and a core that keeps its rules do, the accounts are right: no reference is
lost or put twice, and the clocks are never enabled twice or disabled twice. -/
theorem power_accounted (hclk : clk.Balances) {regs : RegFile} {clocks : γ}
    (hoff : ClocksOff clk clocks)
    (h : Reach (powerStep clk chip A.val) PmRules (initPowered κ regs clocks) s) :
    PowerAccounts clk chip s := by
  have hinv : PowerInv clk chip s := h.invariant (powerInv_init chip regs hoff)
    fun _ _ _ hi hr hs => powerInv_step hclk hi hr hs
  exact hinv.accounts

end Accounts

/-- The first resume fails and the first job tries again. The watchdog ends that job, the second
one starts before the first has put its reference, and the encoder reports. -/
def twoJobs : List (PowerAct ℕ) :=
  let again : List (DevAct ℕ) := [.watchdog, .ioctl 0 (.dqbuf .output 0),
    .ioctl 0 (.dqbuf .capture 0), .ioctl 0 (.qbuf .output 0 fieldNone),
    .ioctl 0 (.qbuf .capture 0 fieldNone), .deviceRun 0]
  let reported : List (DevAct ℕ) :=
    List.replicate 42 .call ++ [.report Rk3288.vepuRegInterruptFrameRdy 800]
  .resume :: startEncoder.map (.dev · true) ++ again.map (.dev · false) ++
    .put :: reported.map (.dev · false)

/-- The device of that run. -/
def twoJobsPowered : Powered ℕ (List Bool × (ℕ → ℕ)) :=
  initPowered ℕ (fun _ => 0) ([false], fun _ => 0)

theorem power_accounted_twoJobs : ∃ s,
    run (powerStep answeredClk .rk3288 64) twoJobsPowered twoJobs = some s ∧
      PowerAccounts answeredClk .rk3288 s := by
  have hsome : (run (powerStep answeredClk .rk3288 64) twoJobsPowered twoJobs).isSome := by
    decide +kernel
  obtain ⟨s, hs⟩ := Option.isSome_iff_exists.mp hsome
  exact ⟨s, hs, power_accounted (A := ⟨6, by decide⟩) answeredClk_balances (fun _ => rfl)
    (reach_of_run (by decide +kernel) hs)⟩

/-! ### Clocks during a job -/

section Clocked

variable {clk : ClkBulk γ} {chip : Chip} {A : DmaAlign} {regs : RegFile} {clocks : γ}
  {s s' : Powered κ γ}

omit [DecidableEq κ] in
/-- During a job the clocks are enabled exactly when the device is active. -/
theorem clocked_iff (hp : PowerAccounts clk chip s) :
    Clocked clk chip s ↔ (s.dev.task.isSome = true → s.pm.active = true) := by
  have hnum : 0 < numClocks chip := by cases chip <;> decide
  refine imp_congr_right fun _ => ⟨fun hon => ?_, fun hactive i hi => ?_⟩
  · by_contra hsuspended
    have hzero := hp.clocks.off (by simpa using hsuspended) 0
    have hpos := hon 0 hnum
    omega
  · rw [hp.clocks.on hactive i, if_pos hi]
    exact Nat.one_pos

/-- One step keeps the clocks of the current job enabled exactly under the condition. -/
theorem clocked_step (hclk : clk.Balances) (hi : PowerInv clk chip s) (hc : Clocked clk chip s)
    {act : PowerAct κ} (hr : PmRules s act) (hs : powerStep clk chip A.val s act = some s') :
    Clocked clk chip s' ↔ KeepsPower clk chip s act := by
  have hp := hi.accounts
  have hon := (clocked_iff hp).mp hc
  rw [clocked_iff (powerInv_step hclk hi hr hs).accounts]
  cases act with
  | dev act resumes =>
    obtain ⟨d, hd, rfl⟩ := Option.map_eq_some_iff.mp hs
    cases devStep_taskExit hi.dev hd with
    | started hidle ht =>
      simp only [Powered.account, ht, true_imp_iff, Managed.active_get_iff hr, KeepsPower]
      rfl
    | irq ht => simp [Powered.account, ht, KeepsPower]
    | watchdog ht => simp [Powered.account, ht, KeepsPower]
    | kept hk ht =>
      rw [account_kept hk, ht]
      exact iff_of_true hon (keepsPower_kept hk resumes)
  | put =>
    simp only [powerStep] at hs
    split_ifs at hs
    obtain rfl := Option.some.inj hs
    exact iff_of_true hon trivial
  | suspend sleep =>
    obtain rfl := Option.some.inj hs
    have hsuspended : (s.dev.task.isSome = true →
        (s.pm.suspend (rockchipVpuPmOps clk chip)).active = true) ↔ s.dev.task = none := by
      simp [Managed.suspend]
    rw [hsuspended]
    cases sleep with
    | true => exact ⟨fun h _ => h, fun h => h rfl⟩
    | false =>
      -- no job has a reference
      have husers := hp.users_eq
      rw [hr.2 rfl] at husers
      refine iff_of_true ?_ nofun
      cases htask : s.dev.task with
      | none => rfl
      | some t =>
        simp only [htask, Option.isSome_some, Bool.toNat_true] at husers
        omega
  | resume =>
    obtain rfl := Option.some.inj hs
    -- a suspended device has no job
    refine iff_of_true (fun htask => ?_) trivial
    cases (show s.pm.active = false from hr).symm.trans (hon htask)

/-- In any run in which the core keeps its rules, the clocks of the current job are enabled
throughout exactly when every job finds the device active or can resume it, and no system sleep
comes during a job. -/
theorem clocked_throughout_iff (hclk : clk.Balances) (hoff : ClocksOff clk clocks)
    {as : List (PowerAct κ)}
    (hr : Along (powerStep clk chip A.val) PmRules (initPowered κ regs clocks) as) :
    Throughout (powerStep clk chip A.val) (Clocked clk chip) (initPowered κ regs clocks) as ↔
      Along (powerStep clk chip A.val) (KeepsPower clk chip) (initPowered κ regs clocks) as := by
  refine throughout_iff_along_within (I := PowerInv clk chip)
    (fun _ _ _ hi hr hs => powerInv_step hclk hi hr hs)
    (fun _ _ _ hi hr hc hs => clocked_step hclk hi hc hr hs) (powerInv_init chip regs hoff) ?_ hr
  intro htask
  cases htask

theorem clocked_throughout_iff_twoJobs :
    Throughout (powerStep answeredClk .rk3288 64) (Clocked answeredClk .rk3288) twoJobsPowered
      twoJobs :=
  (clocked_throughout_iff (A := ⟨6, by decide⟩) answeredClk_balances (fun _ => rfl)
    (by decide +kernel)).mpr (by decide +kernel)

/-! ### Register accesses -/

/-- The step touches a register of the encoder. -/
def Touches (s : Device κ) : DevAct κ → Prop
  | .call => ∃ w, s.calls.head? = some (.write w)
  | .irq => s.hw.raised = true
  | .watchdog => s.task.isSome = true
  | _ => False

/-- The rules of the core, the condition on the power, and the watchdog in time. -/
def PowerInTime (clk : ClkBulk γ) (chip : Chip) (s : Powered κ γ) (act : PowerAct κ) : Prop :=
  PmRules s act ∧ KeepsPower clk chip s act ∧ match act with
    | .dev act _ => InTime s.dev act
    | _ => True

instance (clk : ClkBulk γ) (chip : Chip) (s : Powered κ γ) :
    DecidablePred (PowerInTime clk chip s) := fun act =>
  match act with
  | .dev .. => inferInstanceAs (Decidable (_ ∧ _ ∧ InTime _ _))
  | .put | .suspend _ | .resume => inferInstanceAs (Decidable (_ ∧ _ ∧ True))

omit [DecidableEq κ] in
/-- Registers are touched for a job. -/
theorem task_of_touches {d : Device κ} (hp : PhaseInv d) {act : DevAct κ} (ht : Touches d act) :
    d.task.isSome = true := by
  by_contra hnone
  have hrest := hp.idle (by simpa using hnone)
  cases act with
  | call =>
    obtain ⟨w, hw⟩ := ht
    rw [hrest.calls] at hw
    cases hw
  | irq => cases hrest.raised.symm.trans ht
  | watchdog => exact hnone ht
  | _ => exact ht

/-- Under the condition, no register is touched without the clocks: neither by the run function,
nor by the interrupt handler, nor by the reset of the watchdog. -/
theorem registers_clocked (hclk : clk.Balances) (hoff : ClocksOff clk clocks)
    (h : Reach (powerStep clk chip A.val) (PowerInTime clk chip) (initPowered κ regs clocks) s)
    {act : DevAct κ} (ht : Touches s.dev act) {i : ℕ} (hi : i < numClocks chip) :
    0 < clk.enableCount s.pm.res i := by
  have hclocked : PowerInv clk chip s ∧ Clocked clk chip s := by
    refine h.invariant (P := fun s => PowerInv clk chip s ∧ Clocked clk chip s)
      ⟨powerInv_init chip regs hoff, fun htask => by cases htask⟩ ?_
    intro s t a hi hc hs
    exact ⟨powerInv_step hclk hi.1 hc.1 hs, (clocked_step hclk hi.1 hi.2 hc.1 hs).mpr hc.2.1⟩
  have hphase := (phaseInv_reach (reach_dev (fun _ _ _ hc => hc.2.2) h)).2
  exact hclocked.2 (task_of_touches hphase ht) i hi

end Clocked

/-- The interrupt handler of the second job reads its status. -/
theorem registers_clocked_twoJobs : ∃ s,
    run (powerStep answeredClk .rk3288 64) twoJobsPowered twoJobs = some s ∧
      Touches s.dev .irq ∧ 0 < answeredClk.enableCount s.pm.res 1 := by
  have hrun : (run (powerStep answeredClk .rk3288 64) twoJobsPowered twoJobs).map
      (fun s => s.dev.hw.raised) = some true := by decide +kernel
  obtain ⟨s, hs, hraised⟩ := Option.map_eq_some_iff.mp hrun
  have htouches : Touches s.dev .irq := hraised
  have hreach : Reach (powerStep answeredClk .rk3288 (DmaAlign.mk 6 (by decide)).val)
      (PowerInTime answeredClk .rk3288) twoJobsPowered s :=
    reach_of_run (by decide +kernel) hs
  exact ⟨s, hs, htouches,
    registers_clocked answeredClk_balances (fun _ => rfl) hreach htouches (by decide)⟩

end RockchipVpu.System
