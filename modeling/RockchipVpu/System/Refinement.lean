import RockchipVpu.Base.Service
import RockchipVpu.System.Device

/-! The device as a service for its files. Formats, memory, registers, the calls of the run
function and the watchdog are details of how it works. What it does for its clients is to take
one of those with a buffer on both queues, to pair the heads of its queues, and to hand both
back. Each step of the device is a step, several steps, or none of the pairing service. -/

namespace RockchipVpu.System

open Base Format Queue Hw Job

variable {κ : Type*}

/-! ### Answers -/

/-- The service of the clients `κ`, on buffers as mem2mem knows them. -/
abbrev Pairing (κ : Type*) := Service κ M2mBuffer M2mBuffer

abbrev PairingAct (κ : Type*) := Service.Act κ M2mBuffer M2mBuffer

/-- The buffers of a client that wait on one of its queues. -/
def waiting (s : Device κ) (c : κ) (type : BufType) : List M2mBuffer :=
  (s.handle c).elim [] fun h => readyBufs (h.node.pool type)

/-- What has been passed to the driver since. -/
def passed (c : κ) (before after : Node) : List (PairingAct κ) :=
  ((readyBufs after.output).drop (readyBufs before.output).length).map (.pushLeft c) ++
    ((readyBufs after.capture).drop (readyBufs before.capture).length).map (.pushRight c)

def ioctlAnswer (c : κ) (before after : Node) : Ioctl → List (PairingAct κ)
  | .streamoff .output => [.flushLeft c]
  | .streamoff .capture => [.flushRight c]
  | .sFmt .. | .reqbufs .. | .createBufs .. | .prepareBuf .. | .qbuf .. | .dqbuf .. | .streamon _ =>
    passed c before after

/-- The actions of the service that a step stands for. -/
def deviceAnswer (dmaAlign : U32) (s : Device κ) : DevAct κ → List (PairingAct κ)
  | .ioctl c io => (((s.handle c).bind fun h => (h.ioctl dmaAlign io).map fun h' =>
      ioctlAnswer c h.node h'.node io)).getD []
  | .vpuRelease c => [.flushLeft c, .flushRight c]
  | .deviceRun c => [.start c]
  | .irq | .watchdog => s.task.toList.map fun _ => .finish
  | .vpuOpen .. | .setCtrl .. | .call | .report .. => []

/-- The pair that a step hands back, with its client. -/
def handedPairs (s : Device κ) : DevAct κ → List (κ × M2mBuffer × M2mBuffer)
  | .irq | .watchdog => s.task.toList.map fun t => (t.client, t.job.src, t.job.dst)
  | _ => []

/-! ### What an ioctl does to the queues -/

section Ioctls

variable {dmaAlign : U32} {h h' : Handle} {io : Ioctl}

/-- An ioctl passes buffers to the driver or, if it is STREAMOFF, takes all of a queue back. -/
theorem readyBufs_ioctl (hv : PoolsValid h.node) (hs : h.ioctl dmaAlign io = some h') :
    (∃ type, io = .streamoff type ∧ h.node.running = false ∧ ∀ t,
      readyBufs (h'.node.pool t) = if t = type then [] else readyBufs (h.node.pool t)) ∨
    ((∀ type, io ≠ .streamoff type) ∧ ∀ t, ∃ bufs,
      readyBufs (h'.node.pool t) = readyBufs (h.node.pool t) ++ bufs) := by
  obtain ⟨node, hnode, rfl⟩ := Option.map_eq_some_iff.mp hs
  have hsame {node : Node} (hready : ∀ t, readyBufs (node.pool t) = readyBufs (h.node.pool t)) :
      ∀ t, ∃ bufs, readyBufs (node.pool t) = readyBufs (h.node.pool t) ++ bufs :=
    fun t => ⟨[], by rw [hready, List.append_nil]⟩
  cases io with
  | sFmt type f =>
    obtain ⟨⟨r, ctx', f'⟩, -, rfl⟩ := Option.map_eq_some_iff.mp hnode
    exact .inr ⟨by simp, hsame fun t => by cases t <;> rfl⟩
  | reqbufs type count addr => exact .inr ⟨by simp, hsame (readyBufs_reqbufs hnode addr)⟩
  | createBufs type count n sizes addr =>
    exact .inr ⟨by simp, hsame (readyBufs_createBufs hv hnode addr)⟩
  | prepareBuf type i field => exact .inr ⟨by simp, hsame (readyBufs_prepareBuf hv hnode)⟩
  | qbuf type i field =>
    obtain ⟨-, bufs, hbufs⟩ := readyBufs_qbuf hv hnode
    exact .inr ⟨by simp, fun t => ⟨_, hbufs t⟩⟩
  | dqbuf type i =>
    obtain rfl := Option.some.inj hnode
    exact .inr ⟨by simp, hsame (readyBufs_dqbuf hv type i)⟩
  | streamon type =>
    refine .inr ⟨by simp, fun t => ?_⟩
    rcases streamon_exit hnode with ⟨-, rfl⟩ | ⟨-, ctx', -, rfl⟩
    · exact ⟨[], (List.append_nil _).symm⟩
    have hpool : ({ h.node.setPool type (h.node.pool type).start with ctx := ctx' } : Node).pool t =
        if t = type then (h.node.pool t).start else h.node.pool t := by
      cases type <;> cases t <;> rfl
    simp only [Ioctl.place, hpool]
    split_ifs
    · cases hst : (h.node.pool t).streaming with
      | true => exact ⟨[], by rw [readyBufs_streaming hst, List.append_nil]; rfl⟩
      | false => exact ⟨_, by rw [readyBufs_stopped hst, List.nil_append]⟩
    · exact ⟨[], (List.append_nil _).symm⟩
  | streamoff type =>
    simp only [Ioctl.act, nodeStep, Queue.streamoff] at hnode
    split_ifs at hnode with hr
    obtain rfl := Option.some.inj hnode
    refine .inl ⟨type, rfl, by simpa using hr, fun t => ?_⟩
    simp only [Ioctl.place, pool_setPool]
    split_ifs <;> rfl

end Ioctls

/-! ### The simulation -/

/-- The queues of the service are those of the open files, and its client is that of the
current job. -/
structure Pairs (s : Device κ) (t : Pairing κ) : Prop where
  left_eq : ∀ c, t.left c = waiting s c .output
  right_eq : ∀ c, t.right c = waiting s c .capture
  busy_eq : t.busy = s.task.map Task.client

section Simulation

variable {chip : Chip} {A : DmaAlign} {s s' : Device κ} {t : Pairing κ}

theorem pairs_init (regs : RegFile) : Pairs (initDevice κ regs) {} where
  left_eq _ := rfl
  right_eq _ := rfl
  busy_eq := rfl

/-- A step that touches neither a queue nor the current job. -/
theorem Pairs.congr (hR : Pairs s t) (hw : ∀ c type, waiting s' c type = waiting s c type)
    (ht : s'.task.map Task.client = s.task.map Task.client) : Pairs s' t where
  left_eq c := (hR.left_eq c).trans (hw c .output).symm
  right_eq c := (hR.right_eq c).trans (hw c .capture).symm
  busy_eq := hR.busy_eq.trans ht.symm

theorem waiting_some {c : κ} {h : Handle} (hh : s.handle c = some h) (type : BufType) :
    waiting s c type = readyBufs (h.node.pool type) := by
  rw [waiting, hh]
  rfl

variable [DecidableEq κ]

theorem waiting_setHandle (s : Device κ) (c d : κ) (h : Option Handle) (type : BufType) :
    waiting (s.setHandle c h) d type =
      if d = c then h.elim [] (fun h => readyBufs (h.node.pool type)) else waiting s d type := by
  unfold waiting Device.setHandle
  simp only [Function.update_apply]
  split_ifs <;> rfl

omit [DecidableEq κ] in
theorem ioctlAnswer_passed {io : Ioctl} (hne : ∀ type, io ≠ .streamoff type) (c : κ)
    (before after : Node) : ioctlAnswer c before after io = passed c before after := by
  cases io with
  | streamoff type => exact absurd rfl (hne type)
  | _ => rfl

/-- The service does not take back what its current client has. -/
theorem busy_ne (hR : Pairs s t) {c : κ} (hc : s.jobOf c = none) : t.busy ≠ some c := by
  intro hbusy
  obtain ⟨task, ht, hclient⟩ := Option.map_eq_some_iff.mp (hR.busy_eq.symm.trans hbusy)
  subst hclient
  cases (jobOf_client ht).symm.trans hc

/-- The queues of one client change. -/
theorem Pairs.update (hR : Pairs s t) (c : κ) (h : Option Handle) {u : Pairing κ}
    (hl : u.left = Function.update t.left c (waiting (s.setHandle c h) c .output))
    (hr : u.right = Function.update t.right c (waiting (s.setHandle c h) c .capture))
    (hbusy : u.busy = t.busy) : Pairs (s.setHandle c h) u where
  left_eq d := by
    rw [hl, Function.update_apply]
    split_ifs with hd
    · rw [hd]
    · rw [hR.left_eq, waiting_setHandle, if_neg hd]
  right_eq d := by
    rw [hr, Function.update_apply]
    split_ifs with hd
    · rw [hd]
    · rw [hR.right_eq, waiting_setHandle, if_neg hd]
  busy_eq := hbusy.trans hR.busy_eq

/-- An ioctl is answered by the pushes, or by the flush, that it makes. -/
theorem pairs_ioctl (hR : Pairs s t) {c : κ} {h h' : Handle} {io : Ioctl}
    (hh : s.handle c = some h) (hinv : HandleInv chip h (s.jobOf c))
    (hio : h.ioctl A.val io = some h') :
    ∃ u, run Service.step t (ioctlAnswer c h.node h'.node io) = some u ∧
      Pairs (s.setHandle c (some h')) u ∧ u.served = t.served := by
  have hafter (type : BufType) :
      waiting (s.setHandle c (some h')) c type = readyBufs (h'.node.pool type) := by
    rw [waiting_setHandle, if_pos rfl]
    rfl
  have hleft := (hR.left_eq c).trans (waiting_some hh .output)
  have hright := (hR.right_eq c).trans (waiting_some hh .capture)
  rcases readyBufs_ioctl hinv.pools hio with ⟨type, rfl, hr, hready⟩ | ⟨hne, hready⟩
  · have hidle : s.jobOf c = none := by
      rw [← Option.not_isSome_iff_eq_none, ← hinv.running, hr]
      simp
    have hbusy := busy_ne hR hidle
    cases type with
    | output =>
      refine ⟨{ t with left := Function.update t.left c [] }, ?_, hR.update c _ ?_ ?_ rfl, rfl⟩
      · rw [ioctlAnswer, run_singleton, Service.step, if_neg hbusy]
      · rw [hafter, hready, if_pos rfl]
      · rw [hafter, hready, if_neg (by simp), ← hright, Function.update_eq_self]
    | capture =>
      refine ⟨{ t with right := Function.update t.right c [] }, ?_, hR.update c _ ?_ ?_ rfl, rfl⟩
      · rw [ioctlAnswer, run_singleton, Service.step, if_neg hbusy]
      · rw [hafter, hready, if_neg (by simp), ← hleft, Function.update_eq_self]
      · rw [hafter, hready, if_pos rfl]
  · obtain ⟨as, has⟩ := hready .output
    obtain ⟨bs, hbs⟩ := hready .capture
    have hdropl : (readyBufs h'.node.output).drop (readyBufs h.node.output).length = as := by
      rw [show readyBufs h'.node.output = readyBufs h.node.output ++ as from has]
      exact List.drop_left
    have hdropr : (readyBufs h'.node.capture).drop (readyBufs h.node.capture).length = bs := by
      rw [show readyBufs h'.node.capture = readyBufs h.node.capture ++ bs from hbs]
      exact List.drop_left
    refine ⟨{ t with
      left := Function.update t.left c (t.left c ++ as)
      right := Function.update t.right c (t.right c ++ bs) }, ?_, hR.update c _ ?_ ?_ rfl, rfl⟩
    · rw [ioctlAnswer_passed hne, passed, hdropl, hdropr, run_append, Service.run_pushLeft,
        Option.bind_some, Service.run_pushRight]
    · rw [hafter, has, hleft]
    · rw [hafter, hbs, hright]

/-- A job that ends is the pair that the service has at the heads of the client's queues. -/
theorem pairs_finish (hi : DeviceInv chip s) (hR : Pairs s t) {task : Task κ}
    (ht : s.task = some task) {bytesused : U32} {result : BufResult}
    (hs : s.finish bytesused result = some s') : ∃ u, t.step .finish = some u ∧ Pairs s' u ∧
      u.served = t.served ++ [(task.client, task.job.src, task.job.dst)] := by
  obtain ⟨h, hh, -⟩ := hi.task task ht
  have hinv := hi.handles task.client h hh
  rw [jobOf_client ht] at hinv
  rw [finish_eq hi ht hh] at hs
  obtain rfl := Option.some.inj hs
  obtain ⟨hsrc, hdst⟩ := hinv.heads
  have hleft := (hR.left_eq task.client).trans (waiting_some hh .output)
  have hright := (hR.right_eq task.client).trans (waiting_some hh .capture)
  have hbusy : t.busy = some task.client := by rw [hR.busy_eq, ht, Option.map_some]
  have hlc : t.left task.client = task.job.src :: (readyBufs h.node.output).tail :=
    hleft.trans (List.eq_cons_of_mem_head? hsrc)
  have hrc : t.right task.client = task.job.dst :: (readyBufs h.node.capture).tail :=
    hright.trans (List.eq_cons_of_mem_head? hdst)
  have hafter (type : BufType) : waiting (s.setHandle task.client (some (h.handBack task.job
      bytesused result task.job.src task.job.dst))) task.client type =
        (readyBufs (h.node.pool type)).tail := by
    rw [waiting_setHandle, if_pos rfl]
    cases type with
    | output => exact readyBufs_finish (hinv.pools .output) _
    | capture => exact readyBufs_finish (hinv.pools .capture) _
  refine ⟨_, by simp only [Service.step, hbusy, hlc, hrc]; rfl, ?_, rfl⟩
  have hupdate := hR.update task.client (some (h.handBack task.job bytesused result task.job.src
    task.job.dst)) (u := { t with
      left := Function.update t.left task.client (readyBufs h.node.output).tail
      right := Function.update t.right task.client (readyBufs h.node.capture).tail })
    (by rw [hafter]; rfl) (by rw [hafter]; rfl) rfl
  exact ⟨hupdate.left_eq, hupdate.right_eq, rfl⟩

/-- The answer of a step that ends the current job, if there is one. -/
theorem pairs_ended (hi : DeviceInv chip s) (hR : Pairs s t) {bytesused : U32}
    {result : BufResult} (hs : s.finish bytesused result = some s') {task : Option (Task κ)}
    (ht : s.task = task) : ∃ u, run Service.step t (task.toList.map fun _ => .finish) = some u ∧
      Pairs s' u ∧
        u.served = t.served ++ task.toList.map fun t => (t.client, t.job.src, t.job.dst) := by
  cases task with
  | none =>
    rw [Device.finish, ht] at hs
    obtain rfl := Option.some.inj hs
    exact ⟨t, rfl, hR, (List.append_nil _).symm⟩
  | some task =>
    obtain ⟨u, hu, hRu, hserved⟩ := pairs_finish hi hR ht hs
    exact ⟨u, (run_singleton t Service.Act.finish).trans hu, hRu, hserved⟩

/-- A step is answered, and what it hands back is what the service has served. -/
theorem pairs_step (hi : DeviceInv chip s) (hR : Pairs s t) {act : DevAct κ}
    (hs : devStep chip A.val s act = some s') :
    ∃ u, run Service.step t (deviceAnswer A.val s act) = some u ∧ Pairs s' u ∧
      u.served = t.served ++ handedPairs s act := by
  have hnothing : t.served = t.served ++ [] := (List.append_nil _).symm
  cases act with
  | vpuOpen c qtable =>
    simp only [devStep] at hs
    split_ifs at hs with hopen
    obtain rfl := Option.some.inj hs
    have hclosed : s.handle c = none := by simpa using hopen
    refine ⟨t, rfl, hR.congr (fun d type => ?_) rfl, hnothing⟩
    rw [waiting_setHandle]
    split_ifs with hd
    · rw [hd, waiting, hclosed]
      cases type <;> rfl
    · rfl
  | vpuRelease c =>
    simp only [devStep] at hs
    split_ifs at hs with hjob
    obtain rfl := Option.some.inj hs
    have hbusy := busy_ne hR (by simpa using hjob : s.jobOf c = none)
    have hafter (type : BufType) : waiting (s.setHandle c none) c type = [] := by
      rw [waiting_setHandle, if_pos rfl]
      rfl
    refine ⟨{ t with
      left := Function.update t.left c []
      right := Function.update t.right c [] }, ?_, hR.update c none ?_ ?_ rfl, hnothing⟩
    · simp only [deviceAnswer, run, Service.step, if_neg hbusy]
    · rw [hafter]
    · rw [hafter]
  | setCtrl c qtable =>
    obtain ⟨h, hh, rfl⟩ := Option.map_eq_some_iff.mp hs
    refine ⟨t, rfl, hR.congr (fun d type => ?_) rfl, hnothing⟩
    rw [waiting_setHandle]
    split_ifs with hd
    · rw [hd, waiting_some hh]
      rfl
    · rfl
  | ioctl c io =>
    obtain ⟨h, hh, hs⟩ := Option.bind_eq_some_iff.mp hs
    obtain ⟨h', hio, rfl⟩ := Option.map_eq_some_iff.mp hs
    have hans : deviceAnswer A.val s (.ioctl c io) = ioctlAnswer c h.node h'.node io := by
      simp only [deviceAnswer, hh, Option.bind_some, hio, Option.map_some, Option.getD_some]
    obtain ⟨u, hu, hRu, hserved⟩ := pairs_ioctl hR hh (hi.handles c h hh) hio
    rw [hans]
    exact ⟨u, hu, hRu, hserved.trans hnothing⟩
  | deviceRun c =>
    simp only [devStep] at hs
    split_ifs at hs with hidle
    obtain ⟨htask, -⟩ : s.task = none ∧ s.calls = [] := by simpa using hidle
    obtain ⟨h, hh, hs⟩ := Option.bind_eq_some_iff.mp hs
    obtain ⟨⟨h', job⟩, hrun, rfl⟩ := Option.map_eq_some_iff.mp hs
    have hinv := hi.handles c h hh
    rw [jobOf_idle htask] at hinv
    have hready (type : BufType) :
        readyBufs (h'.node.pool type) = readyBufs (h.node.pool type) := by
      rw [deviceRun_marks hrun]
      cases type <;> rfl
    obtain ⟨hsrc, hdst⟩ := (deviceRun_spec hinv hrun).1.heads
    have hleft : (t.left c).isEmpty = false := by
      rw [hR.left_eq, waiting_some hh, ← hready, List.isEmpty_eq_false_iff_exists_mem]
      exact ⟨_, List.mem_of_mem_head? hsrc⟩
    have hright : (t.right c).isEmpty = false := by
      rw [hR.right_eq, waiting_some hh, ← hready, List.isEmpty_eq_false_iff_exists_mem]
      exact ⟨_, List.mem_of_mem_head? hdst⟩
    have hbusy : t.busy = none := by rw [hR.busy_eq, htask, Option.map_none]
    have hsame (d : κ) (type : BufType) :
        waiting (s.setHandle c (some h')) d type = waiting s d type := by
      rw [waiting_setHandle]
      split_ifs with hd
      · rw [hd, waiting_some hh, ← hready]
        rfl
      · rfl
    refine ⟨{ t with busy := some c }, ?_, ⟨fun d => ?_, fun d => ?_, rfl⟩, hnothing⟩
    · rw [deviceAnswer, run_singleton, Service.step]
      simp only [hbusy, hleft, hright, Option.isNone_none, Bool.not_false, Bool.and_self, if_true]
    · exact (hR.left_eq d).trans (hsame d .output).symm
    · exact (hR.right_eq d).trans (hsame d .capture).symm
  | call =>
    simp only [devStep] at hs
    split at hs
    · cases hs
    · obtain rfl := Option.some.inj hs
      exact ⟨t, rfl, hR.congr (fun _ _ => rfl) rfl, hnothing⟩
  | report status bits =>
    simp only [devStep] at hs
    split_ifs at hs
    obtain rfl := Option.some.inj hs
    exact ⟨t, rfl, hR.congr (fun _ _ => rfl) rfl, hnothing⟩
  | irq =>
    simp only [devStep] at hs
    split_ifs at hs
    have hack : DeviceInv chip { s with timer := false, hw := (s.hw.vepuIrq chip).2 } :=
      hi.congr rfl rfl
    exact pairs_ended hack (hR.congr (fun _ _ => rfl) rfl) hs rfl
  | watchdog =>
    simp only [devStep] at hs
    split_ifs at hs
    cases htask : s.task with
    | none =>
      rw [Device.watchdog, htask] at hs
      obtain rfl := Option.some.inj hs
      have hans : deviceAnswer A.val s .watchdog = [] := by simp [deviceAnswer, htask]
      have hout : handedPairs s .watchdog = [] := by simp [handedPairs, htask]
      rw [hans, hout]
      exact ⟨t, rfl, hR.congr (fun _ _ => rfl) (by rw [htask]), hnothing⟩
    | some task =>
      rw [watchdog_eq hi (by rw [htask]; rfl)] at hs
      have hreset : DeviceInv chip
          { s with timer := false, hw := s.hw.writes chip (encReset chip) } := hi.congr rfl rfl
      exact pairs_ended hreset (hR.congr (fun _ _ => rfl) rfl) hs rfl

theorem device_simulates (chip : Chip) (A : DmaAlign) : Simulates (devStep chip A.val) AnyStep
    Service.step (deviceAnswer A.val) fun (s : Device κ) t => DeviceInv chip s ∧ Pairs s t where
  answered := by
    rintro s s' act t ⟨hi, hR⟩ - hs
    obtain ⟨u, hu, hRu, -⟩ := pairs_step hi hR hs
    exact ⟨u, hu, (devStep_spec hi hs).1, hRu⟩

/-- From related states, the service serves what the device hands back. -/
theorem pairs_run (hi : DeviceInv chip s) (hR : Pairs s t) {as : List (DevAct κ)}
    (hr : run (devStep chip A.val) s as = some s') :
    ∃ u, run Service.step t (answers (devStep chip A.val) (deviceAnswer A.val) s as) = some u ∧
      Pairs s' u ∧ u.served = t.served ++ answers (devStep chip A.val) handedPairs s as := by
  have hlog {s s' : Device κ} {act : DevAct κ} {t u : Pairing κ}
      (hR : DeviceInv chip s ∧ Pairs s t) (_ : AnyStep s act)
      (hs : devStep chip A.val s act = some s')
      (hu : run Service.step t (deviceAnswer A.val s act) = some u) :
      u.served = t.served ++ handedPairs s act := by
    obtain ⟨v, hv, -, hserved⟩ := pairs_step hR.1 hR.2 hs
    obtain rfl := Option.some.inj (hu.symm.trans hv)
    exact hserved
  obtain ⟨u, hu, ⟨-, hRu⟩, hserved⟩ :=
    (device_simulates chip A).run_log hlog ⟨hi, hR⟩ (along_any _ as) hr
  exact ⟨u, hu, hRu, hserved⟩

/-- The whole device, with its registers, formats, memory and watchdog, is a service that pairs
the buffers of its files: every run of it is a run of the service, with the same buffers
waiting, the same client being served, and the same pairs handed back in the same order. -/
theorem device_refines_service {regs : RegFile} {as : List (DevAct κ)}
    (hr : run (devStep chip A.val) (initDevice κ regs) as = some s) :
    ∃ t, run Service.step {} (answers (devStep chip A.val) (deviceAnswer A.val)
        (initDevice κ regs) as) = some t ∧ Pairs s t ∧
      t.served = answers (devStep chip A.val) handedPairs (initDevice κ regs) as :=
  pairs_run (deviceInv_init chip regs) (pairs_init regs) hr

end Simulation

/-- A second frame is queued while the encoder works on the first. -/
theorem device_refines_service_twoFrames : ∃ s t, run (devStep .rk3288 64)
      (initDevice ℕ fun _ => 0) (startFrame ++ List.replicate 42 .call ++
        [.ioctl 0 (.createBufs .output 1 3 (fun _ => 0x4000) fun _ _ => 0x20000),
          .ioctl 0 (.qbuf .output 1 fieldNone), .watchdog]) = some s ∧
    Pairs s t := by
  have hsome : (run (devStep .rk3288 64) (initDevice ℕ fun _ => 0) (startFrame ++
      List.replicate 42 .call ++
        [.ioctl 0 (.createBufs .output 1 3 (fun _ => 0x4000) fun _ _ => 0x20000),
          .ioctl 0 (.qbuf .output 1 fieldNone), .watchdog])).isSome := by decide +kernel
  obtain ⟨s, hs⟩ := Option.isSome_iff_exists.mp hsome
  obtain ⟨t, -, hRt, -⟩ := device_refines_service (A := ⟨6, by decide⟩) hs
  exact ⟨s, t, hs, hRt⟩

end RockchipVpu.System
