import RockchipVpu.Base.Service
import RockchipVpu.Job.ExactlyOnce

/-! The interleaved handlers refine a service that ends a job in one step. A buffer that a
handler has removed from its queue, for a job that is still current, counts as the head of
the queue; the call that ends the job is the step that pairs the heads. So a run of the calls
of both handlers, in which no handler takes a job from another one, is a run of the service:
the buffers of each context are paired and handed back in the order they were queued. -/

namespace RockchipVpu.Job

open Base

variable {κ : Type*}

/-! ### The relation -/

def Op.removedSrc : Op → Option ℕ
  | .removeSrc buf => some buf
  | _ => none

def Op.removedDst : Op → Option ℕ
  | .removeDst buf => some buf
  | _ => none

/-- The buffers of a context that have been removed for the current job. -/
def heldBy [DecidableEq κ] (s : Encoder κ) (removed : Op → Option ℕ) (c : κ) : List ℕ :=
  match s.curr with
  | some cur => if cur.ctx = c then (s.job cur.job).done.filterMap removed else []
  | none => []

/-- The service has what is still queued or held, and has served the jobs that have ended,
which are all but the current one, in their order. -/
structure Serves [DecidableEq κ] (s : Encoder κ) (t : Service κ ℕ ℕ) : Prop where
  left_eq : ∀ c, t.left c = heldBy s Op.removedSrc c ++ s.src c
  right_eq : ∀ c, t.right c = heldBy s Op.removedDst c ++ s.dst c
  busy_eq : t.busy = s.curr.map Running.ctx
  next_eq : s.next = t.served.length + s.curr.toList.length
  last : ∀ cur, s.curr = some cur → cur.job = t.served.length
  bufs : ∀ j p, t.served[j]? = some p → (s.job j).bufs = some p.2

/-- A handler ends the service by its call of `v4l2_m2m_job_finish`. -/
def handlerAnswer : Pc κ → List (Service.Act κ ℕ ℕ)
  | .finish _ => [.finish]
  | .lookup | .cancel _ | .reset _ | .removeSrc _ | .removeDst .. | .returnSrc ..
  | .returnDst .. | .put _ => []

/-- The actions of the service that a step stands for. -/
def serviceAnswer (s : Encoder κ) : RaceAct κ → List (Service.Act κ ℕ ℕ)
  | .queueSrc c buf => [.pushLeft c buf]
  | .queueDst c buf => [.pushRight c buf]
  | .pick c => [.start c]
  | .handler k => ((s.handler k).map fun h => handlerAnswer h.pc).getD []
  | .deviceRun | .interrupt | .expire => []

/-! ### Steps that the service does not see -/

/-- Nothing that the service sees has changed. -/
structure Unseen (s s' : Encoder κ) : Prop where
  src_eq : s'.src = s.src
  dst_eq : s'.dst = s.dst
  curr_eq : s'.curr = s.curr
  next_eq : s'.next = s.next
  src_removed : ∀ j, (s'.job j).done.filterMap Op.removedSrc =
    (s.job j).done.filterMap Op.removedSrc
  dst_removed : ∀ j, (s'.job j).done.filterMap Op.removedDst =
    (s.job j).done.filterMap Op.removedDst
  bufs : ∀ j, (∀ cur, s.curr = some cur → cur.job ≠ j) → (s'.job j).bufs = (s.job j).bufs

/-- The record of one job changes at most in what the service does not see. -/
theorem Unseen.of_setJob {s s' : Encoder κ} (j : ℕ) {job : JobRecord} (hsrc : s'.src = s.src)
    (hdst : s'.dst = s.dst) (hcurr : s'.curr = s.curr) (hnext : s'.next = s.next)
    (hjob : s'.job = Function.update s.job j job)
    (hs : job.done.filterMap Op.removedSrc = (s.job j).done.filterMap Op.removedSrc)
    (hd : job.done.filterMap Op.removedDst = (s.job j).done.filterMap Op.removedDst)
    (hb : (∀ cur, s.curr = some cur → cur.job ≠ j) → job.bufs = (s.job j).bufs) :
    Unseen s s' := by
  refine ⟨hsrc, hdst, hcurr, hnext, fun i => ?_, fun i => ?_, fun i hi => ?_⟩
  all_goals
    rw [hjob]
    by_cases hij : i = j
    · subst hij
      simp_all
    · rw [Function.update_of_ne hij]

theorem Unseen.of_job {s s' : Encoder κ} (hsrc : s'.src = s.src) (hdst : s'.dst = s.dst)
    (hcurr : s'.curr = s.curr) (hnext : s'.next = s.next) (hjob : s'.job = s.job) :
    Unseen s s' :=
  ⟨hsrc, hdst, hcurr, hnext, fun _ => by rw [hjob], fun _ => by rw [hjob], fun _ _ => by rw [hjob]⟩

section
variable [DecidableEq κ] {s s' : Encoder κ} {t : Service κ ℕ ℕ}

theorem Serves.unseen (hR : Serves s t) (h : Unseen s s') : Serves s' t := by
  have hheld (c : κ) : heldBy s' Op.removedSrc c = heldBy s Op.removedSrc c ∧
      heldBy s' Op.removedDst c = heldBy s Op.removedDst c := by
    simp only [heldBy, h.curr_eq, h.src_removed, h.dst_removed, and_self]
  refine ⟨fun c => ?_, fun c => ?_, ?_, ?_, ?_, fun j p hp => ?_⟩
  · rw [(hheld c).1, h.src_eq, hR.left_eq]
  · rw [(hheld c).2, h.dst_eq, hR.right_eq]
  · rw [h.curr_eq, hR.busy_eq]
  · rw [h.curr_eq, h.next_eq, hR.next_eq]
  · rw [h.curr_eq]
    exact hR.last
  · rw [h.bufs j fun cur hcur => ?_, hR.bufs j p hp]
    have hlt := (List.getElem?_eq_some_iff.mp hp).1
    rw [hR.last cur hcur]
    omega

omit [DecidableEq κ] in
/-- Starting a job goes unseen. -/
theorem unseen_deviceRun (hi : EncoderInv s) {cur : Running κ} {pc : StartPc}
    (hstart : s.start = some (cur, pc)) (h : s.deviceRun cur pc = some s') : Unseen s s' := by
  obtain ⟨hcur, -⟩ := hi.start_curr cur pc hstart
  cases pc with
  | get =>
    obtain rfl := Option.some.inj h
    exact .of_setJob cur.job rfl rfl rfl rfl rfl rfl rfl fun hne => rfl
  | run =>
    simp only [Encoder.deviceRun] at h
    split at h
    · obtain rfl := Option.some.inj h
      exact .of_setJob cur.job rfl rfl rfl rfl rfl rfl rfl fun hne => absurd rfl (hne cur hcur)
    · cases h

omit [DecidableEq κ] in
theorem unseen_log {op : Op} {s'' : Encoder κ} {j : ℕ} (hs : op.removedSrc = none)
    (hd : op.removedDst = none) (hsrc : s''.src = s.src) (hdst : s''.dst = s.dst)
    (hcurr : s''.curr = s.curr) (hnext : s''.next = s.next) (hjob : s''.job = (s.log j op).job) :
    Unseen s s'' :=
  .of_setJob j hsrc hdst hcurr hnext hjob (by simp [List.filterMap_append, hs])
    (by simp [List.filterMap_append, hd]) fun _ => rfl

/-- So does every call of a handler but three. -/
theorem unseen_handlerStep {k : Kind} {h : Handler κ} (hsrc : ∀ cur, h.pc ≠ .removeSrc cur)
    (hdst : ∀ cur src, h.pc ≠ .removeDst cur src) (hfinish : ∀ cur, h.pc ≠ .finish cur) :
    Unseen s (s.handlerStep k h) := by
  unfold Encoder.handlerStep
  cases hpc : h.pc with
  | lookup =>
    cases k with
    | irq => exact .of_job rfl rfl rfl rfl rfl
    | watchdog => cases s.curr <;> exact .of_job rfl rfl rfl rfl rfl
  | cancel found => cases found <;> exact .of_job rfl rfl rfl rfl rfl
  | reset cur => exact .of_job rfl rfl rfl rfl rfl
  | removeSrc cur => exact absurd hpc (hsrc cur)
  | removeDst cur src => exact absurd hpc (hdst cur src)
  | returnSrc cur a b => exact unseen_log rfl rfl rfl rfl rfl rfl rfl
  | returnDst cur b => exact unseen_log rfl rfl rfl rfl rfl rfl rfl
  | finish cur => exact absurd hpc (hfinish cur)
  | put cur => exact unseen_log rfl rfl rfl rfl rfl rfl rfl

/-! ### Steps that the service answers -/

theorem heldBy_none (hcurr : s.curr = none) (removed : Op → Option ℕ) (c : κ) :
    heldBy s removed c = [] := by
  rw [heldBy, hcurr]

theorem heldBy_some {cur : Running κ} (hcurr : s.curr = some cur) (removed : Op → Option ℕ)
    (c : κ) :
    heldBy s removed c = if cur.ctx = c then (s.job cur.job).done.filterMap removed else [] := by
  rw [heldBy, hcurr]

/-- Queueing a source buffer. -/
theorem serves_queueSrc (hR : Serves s t) (c : κ) (buf : ℕ) :
    Serves { s with src := Function.update s.src c (s.src c ++ [buf]) }
      { t with left := Function.update t.left c (t.left c ++ [buf]) } where
  left_eq c' := by
    by_cases hc : c' = c
    · subst hc
      simp only [Function.update_self, hR.left_eq, List.append_assoc]
      rfl
    · simp only [Function.update_of_ne hc, hR.left_eq]
      rfl
  right_eq := hR.right_eq
  busy_eq := hR.busy_eq
  next_eq := hR.next_eq
  last := hR.last
  bufs := hR.bufs

theorem serves_queueDst (hR : Serves s t) (c : κ) (buf : ℕ) :
    Serves { s with dst := Function.update s.dst c (s.dst c ++ [buf]) }
      { t with right := Function.update t.right c (t.right c ++ [buf]) } where
  left_eq := hR.left_eq
  right_eq c' := by
    by_cases hc : c' = c
    · subst hc
      simp only [Function.update_self, hR.right_eq, List.append_assoc]
      rfl
    · simp only [Function.update_of_ne hc, hR.right_eq]
      rfl
  busy_eq := hR.busy_eq
  next_eq := hR.next_eq
  last := hR.last
  bufs := hR.bufs

/-- The job that is picked has no record yet. -/
theorem serves_pick (hi : EncoderInv s) (hR : Serves s t) {c : κ} (hcurr : s.curr = none) :
    Serves { s with
      curr := some ⟨c, s.next⟩
      start := some (⟨c, s.next⟩, .get)
      next := s.next + 1 } { t with busy := some c } where
  left_eq c' := by
    rw [heldBy_some rfl]
    simp [hi.fresh s.next (Nat.le_refl _), hR.left_eq, heldBy_none hcurr]
  right_eq c' := by
    rw [heldBy_some rfl]
    simp [hi.fresh s.next (Nat.le_refl _), hR.right_eq, heldBy_none hcurr]
  busy_eq := rfl
  next_eq := by
    have h := hR.next_eq
    simp only [hcurr] at h
    simpa using h
  last cur hcur := by
    obtain rfl := Option.some.inj hcur
    simpa [hcurr] using hR.next_eq
  bufs := hR.bufs

/-- What the current job has removed joins what is held of its context. -/
theorem heldBy_log (s' : Encoder κ) {cur : Running κ} (hcurr : s.curr = some cur) {op : Op}
    (hcurr' : s'.curr = some cur) (hjob : s'.job = (s.log cur.job op).job) (removed : Op → Option ℕ)
    (c : κ) : heldBy s' removed c =
      heldBy s removed c ++ if cur.ctx = c then (removed op).toList else [] := by
  rw [heldBy_some hcurr, heldBy_some hcurr', hjob]
  split_ifs
  · simp only [Encoder.log, Encoder.setJob, Function.update_self, List.filterMap_append,
      List.filterMap_cons, List.filterMap_nil]
    cases removed op <;> rfl
  · rfl

/-- A removal from the queues of the current job only moves the buffer to what is held. -/
theorem serves_remove (hR : Serves s t) {cur : Running κ} (hcurr : s.curr = some cur) (op : Op)
    {src dst : κ → List ℕ}
    (hsrc : ∀ c, s.src c = (if cur.ctx = c then op.removedSrc.toList else []) ++ src c)
    (hdst : ∀ c, s.dst c = (if cur.ctx = c then op.removedDst.toList else []) ++ dst c) :
    Serves ({ s with src := src, dst := dst }.log cur.job op) t where
  left_eq c := by
    have hheld := heldBy_log ({ s with src := src, dst := dst }.log cur.job op) hcurr hcurr rfl
      Op.removedSrc c
    rw [hheld, hR.left_eq, hsrc, List.append_assoc]
    rfl
  right_eq c := by
    have hheld := heldBy_log ({ s with src := src, dst := dst }.log cur.job op) hcurr hcurr rfl
      Op.removedDst c
    rw [hheld, hR.right_eq, hdst, List.append_assoc]
    rfl
  busy_eq := hR.busy_eq
  next_eq := hR.next_eq
  last := hR.last
  bufs j p hp := by
    have h := hR.bufs j p hp
    by_cases hj : j = cur.job
    · subst hj
      simpa [Encoder.log, Encoder.setJob] using h
    · simpa [Encoder.log, Encoder.setJob, hj] using h

/-- The heads of a queue before and after its first buffer is removed. -/
theorem queue_remove {queue : κ → List ℕ} {c : κ} {a : ℕ} {as : List ℕ} (h : queue c = a :: as)
    (c' : κ) : queue c' = (if c = c' then [a] else []) ++ Function.update queue c as c' := by
  by_cases hc : c = c'
  · subst hc
    simp [h]
  · simp [hc, Ne.symm hc]

/-- The call that ends the current job pairs the heads of its context. -/
theorem serves_finish (hR : Serves s t) {cur : Running κ} (hcurr : s.curr = some cur) (op : Op)
    {a b : ℕ} (hb : (s.job cur.job).bufs = some (a, b))
    (hsrc : (s.job cur.job).done.filterMap Op.removedSrc = [a])
    (hdst : (s.job cur.job).done.filterMap Op.removedDst = [b]) :
    ∃ u, t.step .finish = some u ∧ Serves ({ s with curr := none }.log cur.job op) u := by
  have hl := hR.left_eq
  have hr := hR.right_eq
  simp only [heldBy_some hcurr, hsrc, hdst] at hl hr
  have hbusy : t.busy = some cur.ctx := by rw [hR.busy_eq, hcurr, Option.map_some]
  have hlc : t.left cur.ctx = a :: s.src cur.ctx := by simp [hl]
  have hrc : t.right cur.ctx = b :: s.dst cur.ctx := by simp [hr]
  refine ⟨_, by simp only [Service.step, hbusy, hlc, hrc]; rfl, fun c => ?_, fun c => ?_, rfl, ?_,
    fun cur' h => ?_, fun j p hp => ?_⟩
  · rw [heldBy_none rfl]
    by_cases hc : c = cur.ctx
    · subst hc
      simp [Encoder.log, Encoder.setJob]
    · simp [Encoder.log, Encoder.setJob, hc, hl, Ne.symm hc]
  · rw [heldBy_none rfl]
    by_cases hc : c = cur.ctx
    · subst hc
      simp [Encoder.log, Encoder.setJob]
    · simp [Encoder.log, Encoder.setJob, hc, hr, Ne.symm hc]
  · have hn := hR.next_eq
    simp only [hcurr] at hn
    simpa [Encoder.log, Encoder.setJob] using hn
  · cases h
  · have hlast := hR.last cur hcurr
    by_cases hj : j = cur.job
    · subst hj
      rw [hlast, List.getElem?_concat_length, Option.some.injEq] at hp
      subst hp
      simpa [Encoder.log, Encoder.setJob] using hb
    · have hlt := (List.getElem?_eq_some_iff.mp hp).1
      rw [List.length_append, List.length_singleton] at hlt
      rw [List.getElem?_append_left (by omega)] at hp
      simpa [Encoder.log, Encoder.setJob, hj] using hR.bufs j p hp

/-! ### The simulation -/

/-- A call of a handler is unseen, moves a buffer to what is held, or ends the job. -/
theorem serves_handlerStep (hi : EncoderInv s) (hR : Serves s t) {k : Kind} {h : Handler κ}
    (hk : s.handler k = some h) :
    ∃ u, run Service.step t (serviceAnswer s (.handler k)) = some u ∧
      Serves (s.handlerStep k h) u := by
  have hold := hi.handlers k h hk
  have hans : serviceAnswer s (.handler k) = handlerAnswer h.pc := by
    rw [serviceAnswer, hk]
    rfl
  rw [hans]
  cases hpc : h.pc with
  | removeSrc cur =>
    have hcurr := hold.current cur (by rw [hpc, Pc.held]) (by simp [hpc])
    refine ⟨t, rfl, ?_⟩
    simp only [Encoder.handlerStep, hpc]
    cases ha : s.src cur.ctx with
    | nil => exact hR.unseen (.of_job rfl rfl rfl rfl rfl)
    | cons a as =>
      have hdst (c : κ) : s.dst c = (if cur.ctx = c then [] else []) ++ s.dst c := by
        split_ifs <;> rfl
      have hserves := serves_remove hR hcurr (.removeSrc a) (queue_remove ha) hdst
      exact hserves.unseen (.of_job rfl rfl rfl rfl rfl)
  | removeDst cur src =>
    have hcurr := hold.current cur (by rw [hpc, Pc.held]) (by simp [hpc])
    refine ⟨t, rfl, ?_⟩
    simp only [Encoder.handlerStep, hpc]
    cases hb : s.dst cur.ctx with
    | nil => exact hR.unseen (.of_job rfl rfl rfl rfl rfl)
    | cons b bs =>
      have hsrc (c : κ) : s.src c = (if cur.ctx = c then [] else []) ++ s.src c := by
        split_ifs <;> rfl
      have hserves := serves_remove hR hcurr (.removeDst b) hsrc (queue_remove hb)
      cases src <;> exact hserves.unseen (.of_job rfl rfl rfl rfl rfl)
  | finish cur =>
    have hheld : h.pc.held = some cur := by rw [hpc, Pc.held]
    have hcurr := hold.current cur hheld (by simp [hpc])
    have hrecord := hold.record
    rw [hpc] at hrecord
    obtain ⟨a, b, hb, hd⟩ := hrecord
    rw [← hold.own cur hheld] at hb hd
    obtain ⟨u, hu, hserves⟩ := serves_finish hR hcurr (.complete k h.owner) hb
      (by rw [hd]; rfl) (by rw [hd]; rfl)
    refine ⟨u, (run_singleton t Service.Act.finish).trans hu, ?_⟩
    simp only [Encoder.handlerStep, hpc, hcurr, if_true]
    exact hserves.unseen (.of_job rfl rfl rfl rfl rfl)
  | _ =>
    exact ⟨t, rfl, hR.unseen (unseen_handlerStep (by simp [hpc]) (by simp [hpc]) (by simp [hpc]))⟩

theorem race_simulates : Simulates raceStep (fun s a => Uncontended s a) Service.step serviceAnswer
    fun (s : Encoder κ) t => EncoderInv s ∧ Serves s t where
  answered := by
    rintro s s' a t ⟨hi, hR⟩ hc hs
    have hi' := hi.step hc hs
    suffices h : ∃ u, run Service.step t (serviceAnswer s a) = some u ∧ Serves s' u by
      obtain ⟨u, hu, hR'⟩ := h
      exact ⟨u, hu, hi', hR'⟩
    cases a with
    | queueSrc c buf =>
      obtain rfl := Option.some.inj hs
      exact ⟨_, rfl, serves_queueSrc hR c buf⟩
    | queueDst c buf =>
      obtain rfl := Option.some.inj hs
      exact ⟨_, rfl, serves_queueDst hR c buf⟩
    | pick c =>
      simp only [raceStep] at hs
      split_ifs at hs with hguard
      obtain rfl := Option.some.inj hs
      obtain ⟨hcurr, -, hsrc, hdst⟩ := hguard
      refine ⟨_, ?_, serves_pick hi hR hcurr⟩
      have hl : t.left c = s.src c := by rw [hR.left_eq, heldBy_none hcurr, List.nil_append]
      have hr : t.right c = s.dst c := by rw [hR.right_eq, heldBy_none hcurr, List.nil_append]
      simp only [serviceAnswer, run_singleton, Service.step]
      rw [if_pos (by simp [hR.busy_eq, hcurr, hl, hr, hsrc, hdst])]
    | deviceRun =>
      simp only [raceStep] at hs
      split at hs
      · next cur pc hstart => exact ⟨t, rfl, hR.unseen (unseen_deviceRun hi hstart hs)⟩
      · cases hs
    | interrupt =>
      simp only [raceStep] at hs
      split at hs
      · obtain rfl := Option.some.inj hs
        exact ⟨t, rfl, hR.unseen (.of_job rfl rfl rfl rfl rfl)⟩
      · cases hs
    | expire =>
      simp only [raceStep] at hs
      split at hs
      · obtain rfl := Option.some.inj hs
        exact ⟨t, rfl, hR.unseen (.of_job rfl rfl rfl rfl rfl)⟩
      · cases hs
    | handler k =>
      obtain ⟨h, hk, rfl⟩ := Option.map_eq_some_iff.mp hs
      exact serves_handlerStep hi hR hk

theorem serves_init : Serves ({} : Encoder κ) {} := by
  constructor <;> simp [heldBy]

/-- The calls of the handlers, however they interleave with each other and with the start of
further jobs, are a run of the service: as long as no handler takes a job from another one,
each job that has ended is the next one the service has served, with the same buffers. -/
theorem race_refines_service {s : Encoder κ} {as : List (RaceAct κ)}
    (hc : Along raceStep Uncontended {} as) (hr : run raceStep {} as = some s) :
    ∃ t, run Service.step {} (answers raceStep serviceAnswer {} as) = some t ∧ Serves s t := by
  obtain ⟨t, ht, -, hR⟩ := race_simulates.run ⟨EncoderInv.init, serves_init⟩ hc hr
  exact ⟨t, ht, hR⟩

/-- The watchdog worker ends the first job while a third source buffer is queued, the
interrupt the second one. -/
def twoHandlers : List (RaceAct ℕ) :=
  queueTwo ++ startJob ++ [.expire] ++ List.replicate 4 (.handler .watchdog) ++ [.queueSrc 0 12] ++
    List.replicate 4 (.handler .watchdog) ++ startJob ++ [.interrupt] ++ handle .irq

theorem race_refines_service_twoHandlers : ∃ s t,
    run raceStep ({} : Encoder ℕ) twoHandlers = some s ∧
    run Service.step {} (answers raceStep serviceAnswer {} twoHandlers) = some t ∧ Serves s t := by
  have hsome : ∃ s, run raceStep ({} : Encoder ℕ) twoHandlers = some s := ⟨_, rfl⟩
  obtain ⟨s, hs⟩ := hsome
  obtain ⟨t, ht, hR⟩ := race_refines_service (by decide) hs
  exact ⟨s, t, hs, ht, hR⟩

/-! ### The order of the buffers -/

/-- The source buffers of a context that a run queues. -/
def queuedSrc (c : κ) : RaceAct κ → List ℕ
  | .queueSrc c' buf => if c' = c then [buf] else []
  | _ => []

def queuedDst (c : κ) : RaceAct κ → List ℕ
  | .queueDst c' buf => if c' = c then [buf] else []
  | _ => []

/-- The buffers of the jobs of a context, among those of all jobs in the order they ended. -/
def pairsOf (ended : List (κ × ℕ × ℕ)) (c : κ) : List (ℕ × ℕ) :=
  (ended.filter (·.1 = c)).map Prod.snd

/-- Job `j` ended with the `j`-th entry. The buffers of a context are those of its jobs that
have ended, in the order these ended, then those a handler holds, then those still queued. -/
structure PairedInOrder (as : List (RaceAct κ)) (s : Encoder κ) (ended : List (κ × ℕ × ℕ)) :
    Prop where
  next_eq : s.next = ended.length + s.curr.toList.length
  bufs : ∀ j p, ended[j]? = some p → (s.job j).bufs = some p.2
  src_eq : ∀ c, as.flatMap (queuedSrc c) =
    (pairsOf ended c).map Prod.fst ++ (heldBy s Op.removedSrc c ++ s.src c)
  dst_eq : ∀ c, as.flatMap (queuedDst c) =
    (pairsOf ended c).map Prod.snd ++ (heldBy s Op.removedDst c ++ s.dst c)

/-- The answer to a step pushes what the step queues. -/
theorem serviceAnswer_pushed (s : Encoder κ) (a : RaceAct κ) (c : κ) :
    (serviceAnswer s a).flatMap (Service.pushedLeft c) = queuedSrc c a ∧
      (serviceAnswer s a).flatMap (Service.pushedRight c) = queuedDst c a := by
  cases a with
  | queueSrc c' buf | queueDst c' buf =>
    simp [serviceAnswer, Service.pushedLeft, Service.pushedRight, queuedSrc, queuedDst]
  | handler k =>
    rw [serviceAnswer]
    cases s.handler k with
    | none => exact ⟨rfl, rfl⟩
    | some h =>
      obtain ⟨owner, pc⟩ := h
      cases pc <;> exact ⟨rfl, rfl⟩
  | _ => exact ⟨rfl, rfl⟩

omit [DecidableEq κ] in
theorem serviceAnswer_keeps (s : Encoder κ) (a : RaceAct κ) :
    ∀ act ∈ serviceAnswer s a, act.Keeps := by
  intro act hact
  cases a with
  | queueSrc | queueDst | pick =>
    obtain rfl := List.mem_singleton.mp hact
    trivial
  | handler k =>
    rw [serviceAnswer] at hact
    cases hk : s.handler k with
    | none => simp [hk] at hact
    | some h =>
      obtain ⟨owner, pc⟩ := h
      cases pc with
      | finish =>
        simp only [hk, Option.map_some, handlerAnswer, Option.getD_some, List.mem_singleton] at hact
        exact hact ▸ trivial
      | _ => simp [hk, handlerAnswer] at hact
  | _ => cases hact

/-- In every run in which no handler takes a job from another one, the `n`-th source buffer
queued on a context is encoded into the `n`-th capture buffer queued on it, and no buffer is
lost or taken twice, whatever other contexts and the two handlers do in between. -/
theorem buffers_paired_in_order {s : Encoder κ} {as : List (RaceAct κ)}
    (hc : Along raceStep Uncontended {} as) (hr : run raceStep {} as = some s) :
    ∃ ended, PairedInOrder as s ended := by
  obtain ⟨t, ht, -, hR⟩ := race_simulates.run ⟨EncoderInv.init, serves_init⟩ hc hr
  have hsides := Service.sides_run (forall_answers serviceAnswer_keeps {} as) ht
  refine ⟨t.served, hR.next_eq, hR.bufs, fun c => ?_, fun c => ?_⟩
  · have hpushed := flatMap_answers (fun s a _ _ => (serviceAnswer_pushed s a c).1) hr
    rw [← hpushed, ← hR.left_eq]
    exact (hsides c).1.symm
  · have hpushed := flatMap_answers (fun s a _ _ => (serviceAnswer_pushed s a c).2) hr
    rw [← hpushed, ← hR.right_eq]
    exact (hsides c).2.symm

theorem buffers_paired_in_order_twoHandlers : ∃ s, run raceStep ({} : Encoder ℕ) twoHandlers =
    some s ∧ s.curr = none ∧ ∃ ended, PairedInOrder twoHandlers s ended :=
  ⟨_, rfl, rfl, buffers_paired_in_order (by decide) rfl⟩

end

end RockchipVpu.Job
