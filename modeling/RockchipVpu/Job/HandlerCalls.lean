import RockchipVpu.Job.Ownership

/-! The calls of a handler keep the invariant. The calls before the queues are touched
only settle which handler ends the job; those after extend the record of the job, up to
the one that ends it and the one that puts its usage count. -/

namespace RockchipVpu.Job

namespace EncoderInv

variable {κ : Type*} {s : Encoder κ}

/-- A call of a handler that touches no queue and no job. -/
theorem turn (hi : EncoderInv s) {k : Kind} {h : Handler κ} (hk : s.handler k = some h)
    (hput : ∀ cur, h.pc ≠ .put cur) {hw timer : Option ℕ}
    (hhw : ∀ j, hw = some j → s.hw = some j) (htimer : ∀ j, timer = some j → s.timer = some j)
    {v : Option (Handler κ)}
    (hv : ∀ h', v = some h' → h'.owner = h.owner ∧
      HandlerInv { s with hw := hw, timer := timer } k h')
    (hheld : ∀ h', v = some h' → h'.pc.held ≠ none → h.pc.held = none →
      ∀ k' g, k ≠ k' → s.handler k' = some g → g.pc.held ≠ none → h.owner ≠ g.owner)
    (hkeep : h.pc.held ≠ none → ∃ h', v = some h' ∧ h'.pc.held ≠ none)
    (hserved : ∀ cur, s.curr = some cur → s.timer = some cur.job ∨ Served s cur.job →
      timer = some cur.job ∨ Served { s with handler := Function.update s.handler k v } cur.job) :
    EncoderInv { s with
      hw := hw
      timer := timer
      handler := Function.update s.handler k v } where
  curr_lt := hi.curr_lt
  start_curr := hi.start_curr
  fresh := hi.fresh
  hw_curr j hj := hi.hw_curr j (hhw j hj)
  timer_curr j hj := hi.timer_curr j (htimer j hj)
  handlers k' h' hk' := by
    rcases eq_or_ne k' k with rfl | hne
    · have hnew := (hv h' (by simpa using hk')).2
      exact hnew.frame hnew.launched (.inr rfl) rfl rfl id id
    · replace hk' : s.handler k' = some h' := by simpa [hne] using hk'
      have hold := hi.handlers k' h' hk'
      exact hold.frame hold.launched (.inr rfl) rfl rfl (hhw _) (htimer _)
  exclusive := by
    have := hi.exclusive
    have := fun h' hh => (hv h' hh).1
    clear hv hserved hput
    grind [Function.update_apply]
  current now hnow hst := by
    obtain ⟨hl, hp, hh, hc, hpend⟩ := hi.current now hnow hst
    refine ⟨hl, hp, hh, ?_, hserved now hnow hpend⟩
    refine hc.imp id fun hc => exists_handler_update hc ?_
    rintro g hg ⟨ho, hn⟩
    obtain rfl : h = g := Option.some.inj (hk.symm.trans hg)
    obtain ⟨h', rfl, hh'⟩ := hkeep hn
    exact ⟨h', rfl, by rw [(hv h' rfl).1, ho], hh'⟩
  finished j hj hne := by
    obtain ⟨hp, hc⟩ := hi.finished j hj hne
    refine ⟨hp, hc.frame rfl fun k' g cur hg _ hpc => ?_⟩
    rcases eq_or_ne k' k with rfl | hne
    · obtain rfl : h = g := Option.some.inj (hk.symm.trans hg)
      exact absurd hpc (hput cur)
    · simpa [hne] using hg
  usage := hi.usage

/-- A current job that is only looked up now has no record yet. -/
theorem done_eq_nil (hi : EncoderInv s) {k : Kind} {h : Handler κ} (hk : s.handler k = some h)
    (hpc : h.pc = .lookup) (hc : HandlerUncontended s k h) {cur : Running κ}
    (hcur : s.curr = some cur) : cur.job = h.owner ∧ s.start = none ∧ (s.job h.owner).done = [] ∧
      ∀ k' g, k ≠ k' → s.handler k' = some g → g.pc.held ≠ none → h.owner ≠ g.owner := by
  obtain ⟨hjob, hother⟩ := hc.1 hpc cur hcur
  have halone : ∀ k' g, k ≠ k' → s.handler k' = some g → g.pc.held ≠ none → h.owner ≠ g.owner := by
    intro k' g hne hg hn ho
    obtain rfl : k' = k.other := by cases k <;> cases k' <;> simp_all [Kind.other]
    exact hn (hother g hg ho.symm)
  have hstart := hi.start_eq_none hcur (hjob ▸ (hi.handlers k h hk).launched)
  refine ⟨hjob, hstart, ?_, halone⟩
  rcases (hi.current cur hcur hstart).claimed with hd | ⟨k', g, hg, ho, hn⟩
  · exact hjob ▸ hd
  · rcases eq_or_ne k k' with rfl | hne
    · obtain rfl : h = g := Option.some.inj (hk.symm.trans hg)
      simp [hpc, Pc.held] at hn
    · exact absurd (hjob.symm.trans ho.symm) (halone k' g hne hg hn)

/-- A handler that stays with its context is still there for its job. -/
theorem served_update {k : Kind} {h : Handler κ} (hk : s.handler k = some h) {pc : Pc κ}
    (hpc : pc ≠ .cancel none) {j : ℕ} (hs : Served s j) :
    Served { s with handler := Function.update s.handler k (some { h with pc := pc }) } j := by
  refine exists_handler_update hs ?_
  rintro g hg ⟨hj, -⟩
  obtain rfl : h = g := Option.some.inj (hk.symm.trans hg)
  exact ⟨_, rfl, hj, hpc⟩

/-- The handler turns to the queues of its context, once its job can raise no other. -/
theorem settle (hi : EncoderInv s) {k : Kind} {h : Handler κ} (hk : s.handler k = some h)
    {cur : Running κ} (hheld : h.pc.held = some cur) (hcur : s.curr = some cur)
    (hput : ∀ c, h.pc ≠ .put c) (hd : (s.job h.owner).done = []) {hw timer : Option ℕ}
    (hhw : ∀ j, hw = some j → s.hw = some j) (htimer : ∀ j, timer = some j → s.timer = some j)
    (hwowner : hw ≠ some h.owner) (howner : timer ≠ some h.owner) :
    EncoderInv { s with
      hw := hw
      timer := timer
      handler := Function.update s.handler k (some { h with pc := .removeSrc cur }) } := by
  have hold := hi.handlers k h hk
  have hown := hold.own cur hheld
  refine hi.turn hk hput hhw htimer ?_ (by simp [hheld]) (fun _ => ⟨_, rfl, by simp [Pc.held]⟩) ?_
  · intro h' hh'
    obtain rfl := Option.some.inj hh'
    exact ⟨rfl, hold.owner_lt, hold.launched, fun _ => hwowner, fun _ => howner,
      by simp [Pc.held, hown], by simp [Pc.held, hcur], by simp, fun _ => ⟨hwowner, howner⟩, hd⟩
  · intro now hnow _
    obtain rfl : cur = now := Option.some.inj (hcur.symm.trans hnow)
    exact .inr ⟨k, _, Function.update_self .., hown.symm, by simp⟩

/-- A call that adds to the record of the handler's job, but neither completes the job
nor puts its usage count. -/
theorem advance (hi : EncoderInv s) {k : Kind} {h : Handler κ} (hk : s.handler k = some h)
    {cur : Running κ} (hheld : h.pc.held = some cur) (hset : h.pc.settled)
    (hput : ∀ c, h.pc ≠ .put c) {src dst : κ → List ℕ} {op : Op} (hop : op ≠ .put) {pc : Pc κ}
    (hheld' : pc.held = some cur) (hset' : pc.settled) (hput' : ∀ c, pc ≠ .put c)
    (hr : PcRecord k h.owner { s.job h.owner with done := (s.job h.owner).done ++ [op] } pc)
    (hdst : (s.job h.owner).done = [] → dst = s.dst) :
    EncoderInv (({ s with src := src, dst := dst }.log cur.job op).setPc k h pc) := by
  have hold := hi.handlers k h hk
  have hown := hold.own cur hheld
  have hcur := hold.current cur hheld (hput cur)
  have hstart := hi.start_eq_none hcur (hown ▸ hold.launched)
  simp only [Encoder.setPc, Encoder.log, Encoder.setJob, hown]
  refine ⟨⟨hi.curr_lt, ?start_curr, ?fresh, hi.hw_curr, hi.timer_curr⟩, ?handlers, ?exclusive,
    ?current, ?finished, ?usage⟩
  case start_curr =>
    simp [hstart]
  case fresh =>
    exact fun j hj => hi.fresh_update hold.owner_lt _ hj
  case handlers =>
    intro k' g hg
    rcases eq_or_ne k' k with rfl | hne
    · obtain rfl : _ = g := by simpa using hg
      refine ⟨hold.owner_lt, ?_, hold.irq_raised, hold.watchdog_raised, ?_, ?_, ?_,
        fun _ => hold.settled hset, ?_⟩
      · simpa using hold.launched
      · simp [hheld', hown]
      · simp [hheld', hcur]
      · simp [hput']
      · simpa using hr
    · replace hg : s.handler k' = some g := by simpa [hne] using hg
      obtain ⟨hl, hj⟩ := hi.other_job hk hg hne.symm (by simp [hheld]) _
      exact (hi.handlers k' g hg).frame hl hj rfl rfl id id
  case exclusive =>
    have := hi.exclusive
    grind [Function.update_apply]
  case current =>
    intro now hnow hst
    obtain rfl : cur = now := Option.some.inj (hcur.symm.trans hnow)
    obtain ⟨hl, hp, ⟨a, b, hb, -, hd⟩, -, -⟩ := hi.current cur hcur hstart
    have hserved : Served { s with
        handler := Function.update s.handler k (some { h with pc := pc }) } cur.job :=
      ⟨k, _, Function.update_self .., hown.symm, by rintro rfl; simp at hheld'⟩
    have hclaimed : Claimed { s with
        handler := Function.update s.handler k (some { h with pc := pc }) } cur.job :=
      ⟨k, _, Function.update_self .., hown.symm, by simp [hheld']⟩
    refine ⟨by simp [hown, hold.launched], ?_, ⟨a, b, ?_, ?_, ?_⟩, .inr hclaimed, .inr hserved⟩
    · simpa [hown] using hp
    · simpa [hown] using hb
    · simp [hown]
    · simp only [hown, Function.update_self, List.length_append, List.length_singleton]
      intro hlen
      have hnil : (s.job h.owner).done = [] := List.eq_nil_of_length_eq_zero (by omega)
      rw [hdst hnil]
      exact hd (by simp [hown, hnil])
  case finished =>
    intro j hj hne
    obtain ⟨hp, hc⟩ := hi.finished j hj hne
    have hj' : j ≠ h.owner := fun h => hne cur hcur (hown.trans h.symm)
    refine ⟨by simpa [hj'] using hp, hc.frame (by simp [hj']) fun k' g c hg _ hpc => ?_⟩
    grind [Function.update_apply]
  case usage =>
    rw [hi.usage]
    exact congrArg Nat.cast (countRunning_log s hold.owner_lt hop).symm

/-! ### Each call -/

variable [DecidableEq κ]

theorem lookup (hi : EncoderInv s) {k : Kind} {h : Handler κ} (hk : s.handler k = some h)
    (hpc : h.pc = .lookup) (hc : HandlerUncontended s k h) : EncoderInv (s.handlerStep k h) := by
  have hold := hi.handlers k h hk
  have hcur := fun cur (hs : s.curr = some cur) => hi.done_eq_nil hk hpc hc hs
  have hnone : h.pc.held = none := by rw [hpc, Pc.held]
  cases k with
  | irq =>
    simp only [Encoder.handlerStep, hpc]
    refine hi.turn hk (by simp [hpc]) (fun _ => id) (fun _ => id) ?_ ?_ (by simp [hnone]) ?_
    · intro h' hh'
      obtain rfl := Option.some.inj hh'
      refine ⟨rfl, hold.owner_lt, hold.launched, hold.irq_raised, by simp, ?_, ?_, by simp,
        by simp [Pc.settled], ?_⟩
      · exact fun cur hheld => (hcur cur (by simpa using hheld)).1
      · exact fun cur hheld _ => by simpa using hheld
      · cases hs : s.curr with
        | none => rfl
        | some cur => exact ⟨rfl, (hcur cur hs).2.2.1⟩
    · intro h' hh' hn _
      obtain rfl := Option.some.inj hh'
      obtain ⟨cur, hs⟩ := Option.ne_none_iff_exists'.mp hn
      exact (hcur cur (by simpa using hs)).2.2.2
    · intro cur hs hp
      exact hp.imp id (served_update hk (by simp [hs]))
  | watchdog =>
    cases hs : s.curr with
    | none =>
      simp only [Encoder.handlerStep, hpc, hs]
      refine hi.turn hk (by simp [hpc]) (fun _ => id) (fun _ => id) ?_ ?_ (by simp [hnone]) ?_
      · exact fun _ hh' => absurd hh' (by simp)
      · exact fun _ hh' => absurd hh' (by simp)
      · simp [hs]
    | some cur =>
      simp only [Encoder.handlerStep, hpc, hs]
      obtain ⟨hjob, hstart, hd, halone⟩ := hcur cur hs
      refine hi.turn hk (by simp [hpc]) (fun _ => id) (fun _ => id) ?_ ?_ (by simp [hnone]) ?_
      · intro h' hh'
        obtain rfl := Option.some.inj hh'
        exact ⟨rfl, hold.owner_lt, hold.launched, by simp, hold.watchdog_raised,
          by simp [Pc.held, hjob], by simp [Pc.held, hs], by simp, by simp [Pc.settled], rfl, hd⟩
      · intro h' hh' _ _
        obtain rfl := Option.some.inj hh'
        exact halone
      · intro now _ hp
        exact hp.imp id (served_update hk (by simp))

theorem cancel (hi : EncoderInv s) {k : Kind} {h : Handler κ} (hk : s.handler k = some h)
    {found : Option (Running κ)} (hpc : h.pc = .cancel found) (hc : HandlerUncontended s k h) :
    EncoderInv (s.handlerStep k h) := by
  have hold := hi.handlers k h hk
  cases found with
  | none =>
    have ht : s.timer = none := hc.2 hpc
    simp only [Encoder.handlerStep, hpc, Encoder.exit]
    refine hi.turn hk (by simp [hpc]) (fun _ => id) (by simp) (by simp) (by simp)
      (by simp [hpc, Pc.held]) ?_
    rintro cur hs (hp | ⟨k', g, hg, ho, hn⟩)
    · simp [ht] at hp
    · refine .inr ⟨k', g, ?_, ho, hn⟩
      grind [Function.update_apply]
  | some cur =>
    have hr := hold.record
    rw [hpc] at hr
    have hheld : h.pc.held = some cur := by rw [hpc, Pc.held]
    simp only [Encoder.handlerStep, hpc, Encoder.setPc]
    exact hi.settle hk hheld (hold.current cur hheld (by simp [hpc])) (by simp [hpc]) hr.2
      (fun _ => id) (by simp) (hold.irq_raised hr.1) (by simp)

theorem reset (hi : EncoderInv s) {k : Kind} {h : Handler κ} (hk : s.handler k = some h)
    {cur : Running κ} (hpc : h.pc = .reset cur) : EncoderInv (s.handlerStep k h) := by
  have hold := hi.handlers k h hk
  have hr := hold.record
  rw [hpc] at hr
  have hheld : h.pc.held = some cur := by rw [hpc, Pc.held]
  simp only [Encoder.handlerStep, hpc, Encoder.setPc]
  exact hi.settle hk hheld (hold.current cur hheld (by simp [hpc])) (by simp [hpc]) hr.2
    (by simp) (fun _ => id) (by simp) (hold.watchdog_raised hr.1)

/-- Removing the first buffer of each queue, and returning both. -/
theorem process (hi : EncoderInv s) {k : Kind} {h : Handler κ} (hk : s.handler k = some h)
    {cur : Running κ} (hheld : h.pc.held = some cur) (hset : h.pc.settled)
    (hfinish : ∀ c, h.pc ≠ .finish c) (hput : ∀ c, h.pc ≠ .put c) :
    EncoderInv (s.handlerStep k h) := by
  have hold := hi.handlers k h hk
  have hown := hold.own cur hheld
  have hcur := hold.current cur hheld (hput cur)
  have hstart := hi.start_eq_none hcur (hown ▸ hold.launched)
  obtain ⟨a, b, hb, hsrc, hdst⟩ := (hi.current cur hcur hstart).heads
  rw [hown] at hb hsrc hdst
  have hr := hold.record
  cases hpc : h.pc with
  | removeSrc c =>
    obtain rfl : c = cur := by simpa [hpc, Pc.held] using hheld
    rw [hpc] at hr
    obtain ⟨as, has⟩ : ∃ as, s.src c.ctx = a :: as := by
      simpa [List.head?_eq_some_iff] using hsrc hr
    simp only [Encoder.handlerStep, hpc, has]
    refine hi.advance hk hheld hset hput (by simp) rfl trivial (by simp) ?_ (fun _ => rfl)
    exact ⟨a, b, hb, rfl, congrArg (· ++ [_]) hr⟩
  | removeDst c src =>
    obtain rfl : c = cur := by simpa [hpc, Pc.held] using hheld
    rw [hpc] at hr
    obtain ⟨a', b', hb', rfl, hd⟩ := hr
    obtain ⟨rfl, rfl⟩ : a = a' ∧ b = b' := by simpa [hb] using hb'
    obtain ⟨bs, hbs⟩ : ∃ bs, s.dst c.ctx = b :: bs := by
      simpa [List.head?_eq_some_iff] using hdst (by simp [hd, fullRecord])
    simp only [Encoder.handlerStep, hpc, hbs]
    refine hi.advance hk hheld hset hput (by simp) rfl trivial (by simp) ⟨hb, ?_⟩ ?_
    · exact congrArg (· ++ [_]) hd
    · simp [hd, fullRecord]
  | returnSrc c a' b' =>
    obtain rfl : c = cur := by simpa [hpc, Pc.held] using hheld
    rw [hpc] at hr
    simp only [Encoder.handlerStep, hpc]
    exact hi.advance hk hheld hset hput (by simp) rfl trivial (by simp)
      ⟨a', hr.1, congrArg (· ++ [_]) hr.2⟩ (fun _ => rfl)
  | returnDst c b' =>
    obtain rfl : c = cur := by simpa [hpc, Pc.held] using hheld
    rw [hpc] at hr
    obtain ⟨a', hb', hd⟩ := hr
    simp only [Encoder.handlerStep, hpc]
    exact hi.advance hk hheld hset hput (by simp) rfl trivial (by simp)
      ⟨a', b', hb', congrArg (· ++ [_]) hd⟩ (fun _ => rfl)
  | finish c => exact absurd hpc (hfinish c)
  | put c => exact absurd hpc (hput c)
  | _ => simp [hpc, Pc.settled] at hset

theorem finish (hi : EncoderInv s) {k : Kind} {h : Handler κ} (hk : s.handler k = some h)
    {cur : Running κ} (hpc : h.pc = .finish cur) : EncoderInv (s.handlerStep k h) := by
  have hold := hi.handlers k h hk
  have hheld : h.pc.held = some cur := by rw [hpc, Pc.held]
  have hown := hold.own cur hheld
  have hcur := hold.current cur hheld (by simp [hpc])
  have hstart := hi.start_eq_none hcur (hown ▸ hold.launched)
  have hp := (hi.current cur hcur hstart).powered
  obtain ⟨hhw, htimer⟩ := hold.settled (by simp [hpc, Pc.settled])
  obtain ⟨a, b, hb, hd⟩ : PcRecord k h.owner (s.job h.owner) (.finish cur) := hpc ▸ hold.record
  -- neither the hardware nor the watchdog is left with the job that ends
  have hidle : s.hw = none ∧ s.timer = none := by
    constructor
    · refine Option.eq_none_iff_forall_ne_some.mpr fun j hj => ?_
      obtain ⟨-, now, hnow, rfl⟩ := hi.hw_curr j hj
      obtain rfl : cur = now := Option.some.inj (hcur.symm.trans hnow)
      exact hhw (hown ▸ hj)
    · refine Option.eq_none_iff_forall_ne_some.mpr fun j hj => ?_
      obtain ⟨-, now, hnow, rfl⟩ := hi.timer_curr j hj
      obtain rfl : cur = now := Option.some.inj (hcur.symm.trans hnow)
      exact htimer (hown ▸ hj)
  simp only [Encoder.handlerStep, hpc, hcur, if_true]
  simp only [Encoder.setPc, Encoder.log, Encoder.setJob, hown]
  refine ⟨⟨by simp, by simp [hstart], ?fresh, by simp [hidle.1], by simp [hidle.2]⟩, ?handlers,
    ?exclusive, by simp, ?finished, ?usage⟩
  case fresh =>
    exact fun j hj => hi.fresh_update hold.owner_lt _ hj
  case handlers =>
    intro k' g hg
    rcases eq_or_ne k' k with rfl | hne
    · obtain rfl : _ = g := by simpa using hg
      refine ⟨hold.owner_lt, by simpa using hold.launched, hold.irq_raised, hold.watchdog_raised,
        by simp [Pc.held, hown], by simp [Pc.held], by simp, fun _ => ⟨hhw, htimer⟩, ?_⟩
      simp only [Function.update_self]
      exact ⟨a, b, hb, congrArg (· ++ [_]) hd⟩
    · replace hg : s.handler k' = some g := by simpa [hne] using hg
      have hold' := hi.handlers k' g hg
      obtain ⟨hl, hj⟩ := hi.other_job hk hg hne.symm (by simp [hheld]) _
      refine hold'.mono (Nat.le_refl _) hl hj (fun c hc hnow => ?_) (by simp) id id
      -- two handlers would hold the job that ends
      obtain rfl : cur = c := Option.some.inj (hcur.symm.trans hnow)
      have hother := hi.exclusive k k' h g hk hg hne.symm (by simp [hheld]) (by simp [hc])
      exact absurd (hown.symm.trans (hold'.own cur hc)) hother
  case exclusive =>
    have := hi.exclusive
    grind [Function.update_apply]
  case finished =>
    intro j hj _
    rcases eq_or_ne j h.owner with rfl | hne
    · refine ⟨by simpa [hown] using hp, k, a, b, by simpa using hb, .inr ⟨?_, _, cur,
        Function.update_self .., rfl, rfl⟩⟩
      simp only [Function.update_self]
      exact congrArg (· ++ [_]) hd
    · have hother : ∀ now, s.curr = some now → now.job ≠ j := by
        intro now hnow
        obtain rfl : cur = now := Option.some.inj (hcur.symm.trans hnow)
        exact fun ho => hne (ho.symm.trans hown)
      obtain ⟨hp, hc⟩ := hi.finished j hj hother
      refine ⟨by simpa [hne] using hp, hc.frame (by simp [hne]) fun k' g c hg _ hpc => ?_⟩
      grind [Function.update_apply]
  case usage =>
    rw [hi.usage]
    exact congrArg Nat.cast (countRunning_log s hold.owner_lt (by simp)).symm

theorem put (hi : EncoderInv s) {k : Kind} {h : Handler κ} (hk : s.handler k = some h)
    {cur : Running κ} (hpc : h.pc = .put cur) : EncoderInv (s.handlerStep k h) := by
  have hold := hi.handlers k h hk
  have hheld : h.pc.held = some cur := by rw [hpc, Pc.held]
  have hown := hold.own cur hheld
  have hover := hold.ended cur
  obtain ⟨a, b, hb, hd⟩ : PcRecord k h.owner (s.job h.owner) (.put cur) := hpc ▸ hold.record
  obtain ⟨hp, -⟩ := hi.finished h.owner hold.owner_lt (fun now hnow => hover now hpc hnow)
  simp only [Encoder.handlerStep, hpc]
  simp only [Encoder.exit, Encoder.log, Encoder.setJob, hown]
  refine ⟨⟨hi.curr_lt, ?start_curr, ?fresh, hi.hw_curr, hi.timer_curr⟩, ?handlers, ?exclusive,
    ?current, ?finished, ?usage⟩
  case start_curr =>
    intro now pc hnow
    obtain ⟨hc, hj⟩ := hi.start_curr now pc hnow
    exact ⟨hc, by simpa [hover now hpc hc] using hj⟩
  case fresh =>
    exact fun j hj => hi.fresh_update hold.owner_lt _ hj
  case handlers =>
    intro k' g hg
    rcases eq_or_ne k' k with rfl | hne
    · simp at hg
    · replace hg : s.handler k' = some g := by simpa [hne] using hg
      obtain ⟨hl, hj⟩ := hi.other_job hk hg hne.symm (by simp [hheld]) _
      exact (hi.handlers k' g hg).frame hl hj rfl rfl id id
  case exclusive =>
    have := hi.exclusive
    grind [Function.update_apply]
  case current =>
    intro now hnow hst
    have hne := hover now hpc hnow
    obtain ⟨hl, hp, hh, hc, hpend⟩ := hi.current now hnow hst
    refine ⟨?_, ?_, ?_, ?_, hpend.imp id fun hs => exists_handler_update hs ?_⟩
    · simpa [hne] using hl
    · simpa [hne] using hp
    · simpa [hne] using hh
    · refine Or.imp (fun hd => by simpa [hne] using hd) (fun hs => exists_handler_update hs ?_) hc
      grind
    · grind
  case finished =>
    intro j hj hnow
    obtain ⟨hp', hc⟩ := hi.finished j hj hnow
    rcases eq_or_ne j h.owner with rfl | hne
    · exact ⟨by simpa using hp, k, a, b, by simpa using hb,
        .inl (by simp only [Function.update_self]; exact congrArg (· ++ [_]) hd)⟩
    · refine ⟨by simpa [hne] using hp', hc.frame (by simp [hne]) fun k' g c hg _ hpc => ?_⟩
      grind [Function.update_apply]
  case usage =>
    have hrun : (s.job h.owner).running = true := by
      simp [JobRecord.running, hp, hd, fullRecord]
    have := countRunning_put s hold.owner_lt hrun
    have husage := hi.usage
    change s.usage - 1 = (countRunning (s.log h.owner .put) : ℤ)
    omega

theorem handlerStep (hi : EncoderInv s) {k : Kind} {h : Handler κ} (hk : s.handler k = some h)
    (hc : HandlerUncontended s k h) : EncoderInv (s.handlerStep k h) := by
  cases hpc : h.pc with
  | lookup => exact hi.lookup hk hpc hc
  | cancel found => exact hi.cancel hk hpc hc
  | reset cur => exact hi.reset hk hpc
  | finish cur => exact hi.finish hk hpc
  | put cur => exact hi.put hk hpc
  | _ cur =>
    have hheld : h.pc.held = some cur := by rw [hpc, Pc.held]
    exact hi.process hk hheld (by simp [hpc, Pc.settled]) (by simp [hpc]) (by simp [hpc])

theorem step (hi : EncoderInv s) {a : RaceAct κ} (hc : Uncontended s a) {s' : Encoder κ}
    (hs : raceStep s a = some s') : EncoderInv s' := by
  cases a with
  | queueSrc c buf =>
    obtain rfl := Option.some.inj hs
    refine hi.queue (fun c' a ha => ?_) (fun _ _ => id)
    by_cases hc : c' = c
    · subst hc
      simp [List.head?_append, ha]
    · simpa [hc] using ha
  | queueDst c buf =>
    obtain rfl := Option.some.inj hs
    refine hi.queue (fun _ _ => id) (fun c' a ha => ?_)
    by_cases hc : c' = c
    · subst hc
      simp [List.head?_append, ha]
    · simpa [hc] using ha
  | pick c =>
    simp only [raceStep] at hs
    split at hs
    · obtain rfl := Option.some.inj hs
      exact hi.pick c (by tauto)
    · cases hs
  | deviceRun =>
    simp only [raceStep] at hs
    split at hs
    · rename_i cur pc hstart
      cases pc with
      | get => exact hi.deviceRun_get hstart hs
      | run => exact hi.deviceRun_run hstart hs
    · cases hs
  | interrupt =>
    simp only [raceStep] at hs
    split at hs
    · rename_i j hhw hfree
      obtain rfl := Option.some.inj hs
      obtain ⟨hstart, cur, hcur, rfl⟩ := hi.hw_curr j hhw
      exact hi.raise hcur hstart hfree (by simp) (fun _ => id) (by simp) (by simp)
    · cases hs
  | expire =>
    simp only [raceStep] at hs
    split at hs
    · rename_i j htimer hfree
      obtain rfl := Option.some.inj hs
      obtain ⟨hstart, cur, hcur, rfl⟩ := hi.timer_curr j htimer
      exact hi.raise hcur hstart hfree (fun _ => id) (by simp) (by simp) (by simp)
    · cases hs
  | handler k =>
    simp only [raceStep] at hs
    cases hk : s.handler k with
    | none => simp [hk] at hs
    | some h =>
      rw [hk] at hs
      obtain rfl := Option.some.inj hs
      exact hi.handlerStep hk (hc h hk)

end EncoderInv

end RockchipVpu.Job
