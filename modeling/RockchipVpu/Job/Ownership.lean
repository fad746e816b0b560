import RockchipVpu.Job.Race

/-! Who owns a completion. Nothing in the driver records which of the two handlers
ends a job, so the invariant does: a handler that holds a context holds that of the
job it was raised for, no two handlers hold the same job, and what has been done with
the job is given by the call its handler makes next. It is kept by every step in which
no handler takes a job from another one. -/

namespace RockchipVpu.Job

variable {κ : Type*}

/-- The whole record of a job that a handler of kind `k` has completed. -/
def fullRecord (k : Kind) (j a b : ℕ) : List Op :=
  [.removeSrc a, .removeDst b, .returnSrc a, .returnDst b, .complete k j, .put]

/-- What has been done with a job when its handler is about to make a call. -/
def PcRecord (k : Kind) (j : ℕ) (job : JobRecord) : Pc κ → Prop
  | .lookup => True
  | .cancel none => k = .irq
  | .cancel (some _) => k = .irq ∧ job.done = []
  | .reset _ => k = .watchdog ∧ job.done = []
  | .removeSrc _ => job.done = []
  | .removeDst _ src => ∃ a b, job.bufs = some (a, b) ∧ src = some a ∧
      job.done = (fullRecord k j a b).take 1
  | .returnSrc _ a b => job.bufs = some (a, b) ∧ job.done = (fullRecord k j a b).take 2
  | .returnDst _ b => ∃ a, job.bufs = some (a, b) ∧ job.done = (fullRecord k j a b).take 3
  | .finish _ => ∃ a b, job.bufs = some (a, b) ∧ job.done = (fullRecord k j a b).take 4
  | .put _ => ∃ a b, job.bufs = some (a, b) ∧ job.done = (fullRecord k j a b).take 5

@[simp] theorem Pc.held_cancel (found : Option (Running κ)) : (Pc.cancel found).held = found := by
  cases found <;> rfl

/-- The handler has made sure that its job raises no other handler. -/
def Pc.settled : Pc κ → Prop
  | .lookup | .cancel _ | .reset _ => False
  | _ => True

structure HandlerInv (s : Encoder κ) (k : Kind) (h : Handler κ) : Prop where
  owner_lt : h.owner < s.next
  launched : (s.job h.owner).launched = true
  irq_raised : k = .irq → s.hw ≠ some h.owner
  watchdog_raised : k = .watchdog → s.timer ≠ some h.owner
  own : ∀ cur, h.pc.held = some cur → cur.job = h.owner
  current : ∀ cur, h.pc.held = some cur → h.pc ≠ .put cur → s.curr = some cur
  ended : ∀ cur now, h.pc = .put cur → s.curr = some now → now.job ≠ h.owner
  settled : h.pc.settled → s.hw ≠ some h.owner ∧ s.timer ≠ some h.owner
  record : PcRecord k h.owner (s.job h.owner) h.pc

def Kind.other : Kind → Kind
  | .irq => .watchdog
  | .watchdog => .irq

/-- The next call of the handler does not take a job from another one: the context
it looks up is that of its own job, which the other handler does not hold, and it
cancels no watchdog after it has found no context. -/
def HandlerUncontended (s : Encoder κ) (k : Kind) (h : Handler κ) : Prop :=
  (h.pc = .lookup → ∀ cur ∈ s.curr, cur.job = h.owner ∧
    ∀ g ∈ s.handler k.other, g.owner = h.owner → g.pc.held = none) ∧
  (h.pc = .cancel none → s.timer = none)

def Uncontended (s : Encoder κ) : RaceAct κ → Prop
  | .handler k => ∀ h ∈ s.handler k, HandlerUncontended s k h
  | _ => True

section

variable [DecidableEq κ]

instance (s : Encoder κ) (k : Kind) : DecidablePred (HandlerUncontended s k) := fun h =>
  inferInstanceAs (Decidable ((h.pc = .lookup → ∀ cur ∈ s.curr, cur.job = h.owner ∧
    ∀ g ∈ s.handler k.other, g.owner = h.owner → g.pc.held = none) ∧
    (h.pc = .cancel none → s.timer = none)))

instance (s : Encoder κ) : DecidablePred (Uncontended s) := fun a =>
  match a with
  | .handler k => inferInstanceAs (Decidable (∀ h ∈ s.handler k, HandlerUncontended s k h))
  | .queueSrc .. | .queueDst .. | .pick _ | .deviceRun | .interrupt | .expire =>
    inferInstanceAs (Decidable True)

end

/-- The number of jobs that hold a usage count. -/
def countRunning (s : Encoder κ) : ℕ := (List.range s.next).countP fun j => (s.job j).running

/-- Some handler that was raised for job `j` has not been left without a context. -/
def Served (s : Encoder κ) (j : ℕ) : Prop :=
  ∃ k h, s.handler k = some h ∧ h.owner = j ∧ h.pc ≠ .cancel none

/-- Some handler that was raised for job `j` holds its context. -/
def Claimed (s : Encoder κ) (j : ℕ) : Prop :=
  ∃ k h, s.handler k = some h ∧ h.owner = j ∧ h.pc.held ≠ none

structure CurrentInv (s : Encoder κ) (cur : Running κ) : Prop where
  launched : (s.job cur.job).launched = true
  powered : (s.job cur.job).powered = true
  heads : ∃ a b, (s.job cur.job).bufs = some (a, b) ∧
    ((s.job cur.job).done = [] → (s.src cur.ctx).head? = some a) ∧
    ((s.job cur.job).done.length ≤ 1 → (s.dst cur.ctx).head? = some b)
  claimed : (s.job cur.job).done = [] ∨ Claimed s cur.job
  pending : s.timer = some cur.job ∨ Served s cur.job

/-- A job that is no longer current has been completed; only its usage count may still
be held, by the handler that completed it. -/
def Completed (s : Encoder κ) (j : ℕ) : Prop :=
  ∃ k a b, (s.job j).bufs = some (a, b) ∧ ((s.job j).done = fullRecord k j a b ∨
    (s.job j).done = (fullRecord k j a b).take 5 ∧
      ∃ h cur, s.handler k = some h ∧ h.owner = j ∧ h.pc = .put cur)

structure PointerInv (s : Encoder κ) : Prop where
  curr_lt : ∀ cur, s.curr = some cur → cur.job < s.next
  start_curr : ∀ cur pc, s.start = some (cur, pc) → s.curr = some cur ∧
    s.job cur.job = { powered := pc = .run }
  fresh : ∀ j, s.next ≤ j → s.job j = {}
  hw_curr : ∀ j, s.hw = some j → s.start = none ∧ ∃ cur, s.curr = some cur ∧ cur.job = j
  timer_curr : ∀ j, s.timer = some j → s.start = none ∧ ∃ cur, s.curr = some cur ∧ cur.job = j

structure EncoderInv (s : Encoder κ) : Prop extends PointerInv s where
  handlers : ∀ k h, s.handler k = some h → HandlerInv s k h
  exclusive : ∀ k k' h h', s.handler k = some h → s.handler k' = some h' → k ≠ k' →
    h.pc.held ≠ none → h'.pc.held ≠ none → h.owner ≠ h'.owner
  current : ∀ cur, s.curr = some cur → s.start = none → CurrentInv s cur
  finished : ∀ j, j < s.next → (∀ cur, s.curr = some cur → cur.job ≠ j) →
    (s.job j).powered = true ∧ Completed s j
  usage : s.usage = countRunning s

/-! ### Counting the running jobs -/

theorem countP_range_update (p : ℕ → Bool) {j n : ℕ} (hj : j < n) (b : Bool) :
    (List.range n).countP (Function.update p j b) + (p j).toNat =
      (List.range n).countP p + b.toNat := by
  induction n with
  | zero => omega
  | succ n ih =>
    have hsame : j = n → (List.range n).countP (Function.update p j b) =
        (List.range n).countP p := by
      rintro rfl
      refine List.countP_congr fun i hi => ?_
      rw [Function.update_of_ne (Nat.ne_of_lt (List.mem_range.mp hi))]
    rw [List.range_succ, List.countP_append, List.countP_append, List.countP_singleton,
      List.countP_singleton]
    rcases Nat.lt_succ_iff_lt_or_eq.mp hj with hlt | rfl
    · have := ih hlt
      rw [Function.update_of_ne (Nat.ne_of_gt hlt)]
      omega
    · rw [Function.update_self, hsame rfl]
      cases b <;> cases p j <;> simp

theorem countRunning_setJob (s : Encoder κ) {j : ℕ} (hj : j < s.next) (job : JobRecord) :
    countRunning (s.setJob j job) + (s.job j).running.toNat =
      countRunning s + job.running.toNat := by
  rw [countRunning, countRunning, ← countP_range_update _ hj job.running]
  congr 2
  funext i
  simp only [Encoder.setJob, Function.update_apply]
  split <;> rfl

theorem countRunning_log (s : Encoder κ) {j : ℕ} (hj : j < s.next) {op : Op} (hop : op ≠ .put) :
    countRunning (s.log j op) = countRunning s := by
  have h := countRunning_setJob s hj { s.job j with done := (s.job j).done ++ [op] }
  have hrun : (s.job j).running =
      { s.job j with done := (s.job j).done ++ [op] }.running := by
    simp [JobRecord.running, hop, eq_comm]
  rw [hrun] at h
  exact Nat.add_right_cancel h

theorem countRunning_put (s : Encoder κ) {j : ℕ} (hj : j < s.next)
    (hrun : (s.job j).running = true) : countRunning (s.log j .put) + 1 = countRunning s := by
  have h := countRunning_setJob s hj { s.job j with done := (s.job j).done ++ [.put] }
  have hput : { s.job j with done := (s.job j).done ++ [Op.put] }.running = false := by
    simp [JobRecord.running]
  rw [hrun, hput] at h
  exact h

/-! ### What a change leaves alone -/

theorem PcRecord.congr {k : Kind} {j : ℕ} {job job' : JobRecord} {pc : Pc κ}
    (h : PcRecord k j job pc) (hheld : pc.held = none) : PcRecord k j job' pc := by
  cases pc with
  | lookup => trivial
  | cancel found =>
    cases found with
    | none => exact h
    | some cur => cases hheld
  | _ => cases hheld

/-- What some handler satisfies survives the change of one handler that keeps it. -/
theorem exists_handler_update {f : Kind → Option (Handler κ)} {P : Kind → Handler κ → Prop}
    (h : ∃ k h, f k = some h ∧ P k h) {k : Kind} {v : Option (Handler κ)}
    (hv : ∀ h, f k = some h → P k h → ∃ h', v = some h' ∧ P k h') :
    ∃ k' h, Function.update f k v k' = some h ∧ P k' h := by
  obtain ⟨k', h, hk, hp⟩ := h
  rcases eq_or_ne k' k with rfl | hne
  · obtain ⟨h', hv', hp'⟩ := hv h hk hp
    exact ⟨k', h', by simpa using hv', hp'⟩
  · exact ⟨k', h, by simpa [hne] using hk, hp⟩

theorem Completed.frame {s s' : Encoder κ} {j : ℕ} (hc : Completed s j)
    (hjob : s'.job j = s.job j)
    (hput : ∀ k h cur, s.handler k = some h → h.owner = j → h.pc = .put cur →
      s'.handler k = some h) : Completed s' j := by
  obtain ⟨k, a, b, hb, hd⟩ := hc
  refine ⟨k, a, b, by rw [hjob, hb], ?_⟩
  rw [hjob]
  refine hd.imp id ?_
  rintro ⟨ht, h, cur, hk, ho, hpc⟩
  exact ⟨ht, h, cur, hput k h cur hk ho hpc, ho, hpc⟩

namespace HandlerInv

variable {s s' : Encoder κ} {k : Kind} {h : Handler κ}

/-- A handler keeps its invariant when its job is kept, no other user is raised for the
job, and the context it holds stays current. -/
theorem mono (hi : HandlerInv s k h) (hnext : s.next ≤ s'.next)
    (hlaunched : (s'.job h.owner).launched = true)
    (hjob : h.pc.held = none ∨ s'.job h.owner = s.job h.owner)
    (hheld : ∀ cur, h.pc.held = some cur → s.curr = some cur → s'.curr = some cur)
    (hcurr : ∀ now, s'.curr = some now → s.curr = some now ∨ now.job ≠ h.owner)
    (hhw : s'.hw = some h.owner → s.hw = some h.owner)
    (htimer : s'.timer = some h.owner → s.timer = some h.owner) : HandlerInv s' k h where
  owner_lt := Nat.lt_of_lt_of_le hi.owner_lt hnext
  launched := hlaunched
  irq_raised hk h := hi.irq_raised hk (hhw h)
  watchdog_raised hk h := hi.watchdog_raised hk (htimer h)
  own := hi.own
  current cur hcur hput := hheld cur hcur (hi.current cur hcur hput)
  ended cur now hput hnow := (hcurr now hnow).elim (hi.ended cur now hput) id
  settled hs := ⟨fun h => (hi.settled hs).1 (hhw h), fun h => (hi.settled hs).2 (htimer h)⟩
  record := by
    rcases hjob with hheld | hjob
    · exact hi.record.congr hheld
    · exact hjob ▸ hi.record

theorem frame (hi : HandlerInv s k h) (hlaunched : (s'.job h.owner).launched = true)
    (hjob : h.pc.held = none ∨ s'.job h.owner = s.job h.owner) (hnext : s'.next = s.next)
    (hcurr : s'.curr = s.curr) (hhw : s'.hw = some h.owner → s.hw = some h.owner)
    (htimer : s'.timer = some h.owner → s.timer = some h.owner) : HandlerInv s' k h :=
  hi.mono (Nat.le_of_eq hnext.symm) hlaunched hjob (fun _ _ h => hcurr ▸ h)
    (fun _ h => .inl (hcurr ▸ h)) hhw htimer

end HandlerInv

/-! ### Queueing, starting a job and raising a handler -/

namespace EncoderInv

variable {s : Encoder κ}

theorem start_eq_none (hi : EncoderInv s) {cur : Running κ} (hcur : s.curr = some cur)
    (hl : (s.job cur.job).launched = true) : s.start = none := by
  cases hs : s.start with
  | none => rfl
  | some p =>
    obtain ⟨now, pc⟩ := p
    obtain ⟨hnow, hjob⟩ := hi.start_curr now pc hs
    obtain rfl : cur = now := Option.some.inj (hcur.symm.trans hnow)
    simp [hjob] at hl

theorem init : EncoderInv ({} : Encoder κ) where
  curr_lt := by simp
  start_curr := by simp
  fresh := by simp
  hw_curr := by simp
  timer_curr := by simp
  handlers := by simp
  exclusive := by simp
  current := by simp
  finished := by simp
  usage := rfl

theorem fresh_update (hi : EncoderInv s) {i j : ℕ} (hj : j < s.next) (job : JobRecord)
    (hi' : s.next ≤ i) : Function.update s.job j job i = {} := by
  rw [Function.update_of_ne (by omega)]
  exact hi.fresh i hi'

/-- A handler that holds a context works on no job of which another one holds the context. -/
theorem other_job (hi : EncoderInv s) {k k' : Kind} {h g : Handler κ}
    (hk : s.handler k = some h) (hg : s.handler k' = some g) (hne : k ≠ k')
    (hheld : h.pc.held ≠ none) (op : Op) :
    (((s.log h.owner op).job g.owner).launched = true) ∧
      (g.pc.held = none ∨ (s.log h.owner op).job g.owner = s.job g.owner) := by
  constructor
  · have hl := (hi.handlers k' g hg).launched
    by_cases ho : g.owner = h.owner
    · simpa [Encoder.log, Encoder.setJob, ho] using ho ▸ hl
    · simpa [Encoder.log, Encoder.setJob, ho] using hl
  · by_cases hn : g.pc.held = none
    · exact .inl hn
    · exact .inr (Function.update_of_ne (hi.exclusive k k' h g hk hg hne hheld hn).symm ..)

/-- Queueing a buffer leaves the heads of the queues that have one. -/
theorem queue (hi : EncoderInv s) {src dst : κ → List ℕ}
    (hsrc : ∀ c a, (s.src c).head? = some a → (src c).head? = some a)
    (hdst : ∀ c b, (s.dst c).head? = some b → (dst c).head? = some b) :
    EncoderInv { s with src := src, dst := dst } where
  curr_lt := hi.curr_lt
  start_curr := hi.start_curr
  fresh := hi.fresh
  hw_curr := hi.hw_curr
  timer_curr := hi.timer_curr
  handlers k h hk :=
    (hi.handlers k h hk).frame (hi.handlers k h hk).launched (.inr rfl) rfl rfl id id
  exclusive := hi.exclusive
  current cur hcur hstart := by
    obtain ⟨hl, hp, ⟨a, b, hb, ha, hb'⟩, hc, hpend⟩ := hi.current cur hcur hstart
    exact ⟨hl, hp, ⟨a, b, hb, fun h => hsrc _ _ (ha h), fun h => hdst _ _ (hb' h)⟩, hc, hpend⟩
  finished := hi.finished
  usage := hi.usage

theorem pick (hi : EncoderInv s) (c : κ) (hcurr : s.curr = none) :
    EncoderInv { s with
      curr := some ⟨c, s.next⟩
      start := some (⟨c, s.next⟩, .get)
      next := s.next + 1 } where
  curr_lt := by grind
  start_curr := by
    have := hi.fresh s.next (Nat.le_refl _)
    grind
  fresh j hj := hi.fresh j (by grind)
  hw_curr j hj := by
    have := hi.hw_curr j hj
    grind
  timer_curr j hj := by
    have := hi.timer_curr j hj
    grind
  handlers k h hk := by
    have hold := hi.handlers k h hk
    have hlt := hold.owner_lt
    refine hold.mono (Nat.le_succ _) hold.launched (.inr rfl) ?_ ?_ id id
    · simp [hcurr]
    · rintro now ⟨⟩
      exact .inr (Nat.ne_of_gt hlt)
  exclusive := hi.exclusive
  current := by grind
  finished j hj hne := hi.finished j (by grind) (by grind)
  usage := by
    have := hi.fresh s.next (Nat.le_refl _)
    rw [hi.usage]
    simp [countRunning, List.range_succ, this, JobRecord.running]

/-- The record of the job that `device_run` starts belongs to no handler. -/
theorem start_setJob (hi : EncoderInv s) {cur : Running κ} {pc : StartPc}
    (hstart : s.start = some (cur, pc)) (job : JobRecord) :
    (∀ k h, s.handler k = some h → Function.update s.job cur.job job h.owner = s.job h.owner) ∧
      ∀ i, s.next ≤ i → Function.update s.job cur.job job i = {} := by
  obtain ⟨hcur, hj⟩ := hi.start_curr cur pc hstart
  refine ⟨fun k h hk => Function.update_of_ne (fun ho => ?_) .., fun i hi' => ?_⟩
  · have := (hi.handlers k h hk).launched
    simp [ho, hj] at this
  · exact hi.fresh_update (hi.curr_lt cur hcur) _ hi'

/-- While a job is being started the hardware and the watchdog have none. -/
theorem idle_of_start (hi : EncoderInv s) {p : Running κ × StartPc} (hstart : s.start = some p) :
    s.hw = none ∧ s.timer = none := by
  constructor
  · refine Option.eq_none_iff_forall_ne_some.mpr fun j hj => ?_
    simpa [hstart] using (hi.hw_curr j hj).1
  · refine Option.eq_none_iff_forall_ne_some.mpr fun j hj => ?_
    simpa [hstart] using (hi.timer_curr j hj).1

theorem deviceRun_get (hi : EncoderInv s) {cur : Running κ} (hstart : s.start = some (cur, .get))
    {s' : Encoder κ} (hs : s.deviceRun cur .get = some s') : EncoderInv s' := by
  obtain ⟨hcur, hj⟩ := hi.start_curr cur _ hstart
  have hlt := hi.curr_lt cur hcur
  obtain ⟨hhw, htimer⟩ := hi.idle_of_start hstart
  obtain ⟨howner, hfresh⟩ := hi.start_setJob hstart { s.job cur.job with powered := true }
  obtain rfl := Option.some.inj hs
  simp only [Encoder.setJob]
  refine ⟨⟨hi.curr_lt, ?start_curr, hfresh, ?hw_curr, ?timer_curr⟩, ?handlers, hi.exclusive,
    by simp, ?finished, ?usage⟩
  case start_curr =>
    rintro now pc hnow
    obtain ⟨rfl, rfl⟩ : cur = now ∧ StartPc.run = pc := by simpa using hnow
    exact ⟨hcur, by simp [hj]⟩
  case hw_curr => simp [hhw]
  case timer_curr => simp [htimer]
  case handlers =>
    intro k h hk
    have hold := hi.handlers k h hk
    exact hold.frame (by simpa [howner k h hk] using hold.launched) (.inr (howner k h hk)) rfl rfl
      id id
  case finished =>
    intro j hj hne
    obtain ⟨hp, hc⟩ := hi.finished j hj hne
    have hjob := Function.update_of_ne (hne cur hcur).symm
      { s.job cur.job with powered := true } s.job
    exact ⟨by simpa [hjob] using hp, hc.frame hjob fun _ _ _ hk _ _ => hk⟩
  case usage =>
    have hcount := countRunning_setJob s hlt { s.job cur.job with powered := true }
    have husage := hi.usage
    change s.usage + 1 = (countRunning (s.setJob cur.job _) : ℤ)
    simp [hj, JobRecord.running] at hcount ⊢
    omega

theorem deviceRun_run (hi : EncoderInv s) {cur : Running κ} (hstart : s.start = some (cur, .run))
    {s' : Encoder κ} (hs : s.deviceRun cur .run = some s') : EncoderInv s' := by
  obtain ⟨hcur, hj⟩ := hi.start_curr cur _ hstart
  have hlt := hi.curr_lt cur hcur
  obtain ⟨-, htimer⟩ := hi.idle_of_start hstart
  simp only [Encoder.deviceRun] at hs
  split at hs
  case h_2 => cases hs
  rename_i a b ha hb
  obtain rfl := Option.some.inj hs
  obtain ⟨howner, hfresh⟩ :=
    hi.start_setJob hstart { s.job cur.job with bufs := some (a, b), launched := true }
  have hnot : ∀ k h, s.handler k = some h → cur.job ≠ h.owner := fun k h hk ho => by
    have := (hi.handlers k h hk).launched
    simp [← ho, hj] at this
  simp only [Encoder.setJob, htimer, Option.none_or]
  refine ⟨⟨hi.curr_lt, by simp, hfresh, ?hw_curr, ?timer_curr⟩, ?handlers, hi.exclusive, ?current,
    ?finished, ?usage⟩
  case hw_curr =>
    rintro j ⟨⟩
    exact ⟨rfl, cur, hcur, rfl⟩
  case timer_curr =>
    rintro j ⟨⟩
    exact ⟨rfl, cur, hcur, rfl⟩
  case handlers =>
    intro k h hk
    have hold := hi.handlers k h hk
    have := hnot k h hk
    exact hold.frame (by simpa [howner k h hk] using hold.launched) (.inr (howner k h hk)) rfl rfl
      (by simp [this]) (by simp [this])
  case current =>
    intro now hnow _
    obtain rfl : cur = now := Option.some.inj (hcur.symm.trans hnow)
    refine ⟨by simp, by simp [hj], ⟨a, b, by simp, fun _ => ha, fun _ => hb⟩, ?_, .inl rfl⟩
    simp [hj]
  case finished =>
    intro j hj hne
    obtain ⟨hp, hc⟩ := hi.finished j hj hne
    have hjob := Function.update_of_ne (hne cur hcur).symm
      { s.job cur.job with bufs := some (a, b), launched := true } s.job
    exact ⟨by simpa [hjob] using hp, hc.frame hjob fun _ _ _ hk _ _ => hk⟩
  case usage =>
    have hcount := countRunning_setJob s hlt
      { s.job cur.job with bufs := some (a, b), launched := true }
    have husage := hi.usage
    change s.usage = (countRunning (s.setJob cur.job _) : ℤ)
    simp only [hj, JobRecord.running] at hcount ⊢
    omega

/-- A handler that starts looks up the context next. -/
theorem raise (hi : EncoderInv s) {cur : Running κ} (hcur : s.curr = some cur)
    (hstart : s.start = none) {k : Kind} (hfree : s.handler k = none) {hw timer : Option ℕ}
    (hhw : ∀ j, hw = some j → s.hw = some j) (htimer : ∀ j, timer = some j → s.timer = some j)
    (hirq : k = .irq → hw = none) (hwatchdog : k = .watchdog → timer = none) :
    EncoderInv { s with
      hw := hw
      timer := timer
      handler := Function.update s.handler k (some ⟨cur.job, .lookup⟩) } where
  curr_lt := hi.curr_lt
  start_curr := hi.start_curr
  fresh := hi.fresh
  hw_curr j hj := hi.hw_curr j (hhw j hj)
  timer_curr j hj := hi.timer_curr j (htimer j hj)
  handlers k' h hk := by
    rcases eq_or_ne k' k with rfl | hne
    · obtain rfl : _ = h := by simpa using hk
      have hl := (hi.current cur hcur hstart).launched
      constructor <;> simp_all [Pc.held, Pc.settled, PcRecord, hi.curr_lt cur hcur]
    · replace hk : s.handler k' = some h := by simpa [hne] using hk
      have hold := hi.handlers k' h hk
      exact hold.frame hold.launched (.inr rfl) rfl rfl (hhw _) (htimer _)
  exclusive := by
    have := hi.exclusive
    grind [Function.update_apply, Pc.held]
  current now hnow hst := by
    obtain ⟨hl, hp, hh, hc, -⟩ := hi.current now hnow hst
    refine ⟨hl, hp, hh, ?_, ?_⟩
    · exact hc.imp id fun hc => exists_handler_update hc (by simp [hfree])
    · obtain rfl : cur = now := Option.some.inj (hcur.symm.trans hnow)
      exact .inr ⟨k, _, Function.update_self .., rfl, by simp⟩
  finished j hj hne := by
    obtain ⟨hp, hc⟩ := hi.finished j hj hne
    exact ⟨hp, hc.frame rfl fun h _ hk => by grind [Function.update_apply]⟩
  usage := hi.usage

end EncoderInv

end RockchipVpu.Job
