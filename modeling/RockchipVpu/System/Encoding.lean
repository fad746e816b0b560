import RockchipVpu.System.Client
import RockchipVpu.System.Rounds

/-! A client that finds the encoder free gets through its session: no ioctl of it is refused,
every job of it starts and ends, whether the encoder reports or keeps silent, and every frame is
handed back with what the encoder has reported for it. -/

namespace RockchipVpu.System

open Base Format Queue Hw Job

variable {κ : Type*}

/-! ### Among other clients -/

/-- Whatever the other clients of a device do, before and in between, a client whose queues are
stopped and which makes a session gets its frames: the completions of its file are those that the
formats, the table and the outcomes of its jobs say. -/
theorem session_encodes [DecidableEq κ] {chip : Chip} {A : DmaAlign} {regs : RegFile}
    {f : Frames} {file : Handle} {s s' : Device κ} {c : κ}
    (h : Reach (devStep chip A.val) AnyStep (initDevice κ regs) s)
    (hfile : s.handle c = some file) (hidle : s.jobOf c = none)
    (hstop : ∀ type, (file.node.pool type).streaming = false)
    (hctx : file.node.ctx = f.ctx) (htable : file.qtable = f.qtable)
    (hcoded : f.vpuDstFmt.codecMode ≠ .none) {outcomes : List (U32 × BufResult)}
    (hne : outcomes ≠ []) {acts : List (DevAct κ)}
    (hr : run (devStep chip A.val) s acts = some s')
    (hcalls : answers (devStep chip A.val) (fileActs chip c) s acts = f.session outcomes) :
    ∃ file', s'.handle c = some file' ∧ s'.jobOf c = none ∧
      (∀ type, readyBufs (file'.node.pool type) = []) ∧
        completions file'.history =
          completions file.history ++ outcomes.mapIdx (f.encoded chip) := by
  have hi := (deviceInv_reach h).handles c file hfile
  rw [hidle] at hi
  obtain ⟨t, ht, rfl⟩ := (file_simulates chip A.val c).run rfl (along_any _ acts) hr
  have hstart : fileOf s c = ⟨some file, none⟩ := by rw [fileOf, hfile, hidle]
  rw [hcalls, hstart] at ht
  obtain ⟨file', hrun, hready, hcompletions⟩ := run_session (A := A) hi hctx htable hstop hcoded
    hne (session_length_le (A := A) hi hctx htable hstop hcoded hne ht)
  rw [hrun] at ht
  obtain ⟨hhandle, hjob⟩ := OneFile.mk.inj (Option.some.inj ht)
  exact ⟨file', hhandle.symm, hjob.symm, hready, hcompletions⟩

/-- Frames of a file right after `open`. -/
def firstFrames : Frames where
  ctx := opened .rk3288
  vpuSrcFmt := Chip.rk3288.defaultRaw
  vpuDstFmt := Chip.rk3288.defaultCodec
  qtable := ⟨fun _ => 1, fun _ => 1⟩
  srcAddr i _ := 0x10000 + BitVec.ofNat 32 (0x1000 * i)
  dstAddr i _ := 0x80000 + BitVec.ofNat 32 (0x1000 * i)
  src_eq := by decide +kernel
  dst_eq := by decide +kernel

def twoFiles : List (DevAct ℕ) :=
  [.vpuOpen 0 ⟨fun _ => 1, fun _ => 1⟩, .vpuOpen 1 ⟨fun _ => 2, fun _ => 2⟩]

theorem run_twoFiles : ∃ s file,
    run (devStep .rk3288 64) (initDevice ℕ fun _ => 0) twoFiles = some s ∧ s.task = none ∧
      s.handle 0 = some file ∧ file.node.ctx = firstFrames.ctx ∧
        file.qtable = firstFrames.qtable ∧ file.history = [] ∧
          ∀ type, (file.node.pool type).streaming = false :=
  ⟨_, _, rfl, rfl, rfl, rfl, rfl, rfl, fun type => by cases type <;> rfl⟩

/-- The first file encodes a frame while the other one tries to start its queues. -/
def sharedSession : List (DevAct ℕ) :=
  ((firstFrames.setup 1).flatMap fun io => [.ioctl 0 io, .ioctl 1 (.streamon .output)]) ++
    .setCtrl 1 ⟨fun _ => 3, fun _ => 3⟩ ::
      Round.acts .rk3288 ⟨0, .report Rk3288.vepuRegInterruptFrameRdy 800⟩

set_option maxRecDepth 8000 in
theorem session_encodes_shared : ∃ s s' file',
    run (devStep .rk3288 64) (initDevice ℕ fun _ => 0) twoFiles = some s ∧
      run (devStep .rk3288 64) s sharedSession = some s' ∧ s'.handle 0 = some file' ∧
        completions file'.history = [firstFrames.encoded .rk3288 0 (100, .done)] := by
  obtain ⟨s, file, hs, hidle, hfile, hctx, htable, hhistory, hstop⟩ := run_twoFiles
  have hsome : ((run (devStep .rk3288 64) (initDevice ℕ fun _ => 0) twoFiles).bind fun s =>
      run (devStep .rk3288 64) s sharedSession).isSome := by decide +kernel
  have hcalls : (run (devStep .rk3288 64) (initDevice ℕ fun _ => 0) twoFiles).map
      (answers (devStep .rk3288 64) (fileActs .rk3288 0) · sharedSession) =
        some (firstFrames.session [(100, .done)]) := rfl
  rw [hs] at hsome hcalls
  obtain ⟨s', hs'⟩ := Option.isSome_iff_exists.mp hsome
  obtain ⟨file', hfile', -, -, hcompletions⟩ := session_encodes (A := ⟨6, by decide⟩)
    (reach_of_run_any hs) hfile (jobOf_idle hidle 0) hstop hctx htable (by decide) (by decide) hs'
    (Option.some.inj hcalls)
  exact ⟨s, s', file', hs, hs', hfile', by rw [hcompletions, hhistory]; rfl⟩

/-! ### What a device sees of a session -/

/-- Length and result that a job ends with. -/
def Ending.outcome (chip : Chip) : Ending → U32 × BufResult
  | .report status bits => variantVepuIrq chip status bits
  | .timeout => (0, .error)

/-- The session of a client with nobody else. -/
def sessionActs (chip : Chip) (f : Frames) (c : κ) (endings : List Ending) : List (DevAct κ) :=
  (f.setup endings.length).map (.ioctl c) ++
    (endings.map (Round.mk c)).flatMap (Round.acts chip)

section Device

variable [DecidableEq κ] {chip : Chip} {A : DmaAlign} {s s' : Device κ} {c : κ}

theorem run_deviceIoctls {file file' : Handle} {ios : List Ioctl} (hfile : s.handle c = some file)
    (h : run (Handle.ioctl A.val) file ios = some file') :
    run (devStep chip A.val) s (ios.map (.ioctl c)) = some (s.setHandle c (some file')) := by
  induction ios generalizing s file with
  | nil =>
    obtain rfl := Option.some.inj h
    have hsame : s.setHandle c (some file) = s := by
      rw [Device.setHandle, ← hfile, Function.update_eq_self]
    rw [hsame]
    rfl
  | cons io ios ih =>
    simp only [run] at h
    cases hio : file.ioctl A.val io with
    | none => simp [hio] at h
    | some u =>
      simp only [hio] at h
      have hs : devStep chip A.val s (.ioctl c io) = some (s.setHandle c (some u)) := by
        simp only [devStep, hfile, hio, Option.bind_some, Option.map_some]
      have hrest := ih (s := s.setHandle c (some u)) (Function.update_self ..) h
      simp only [List.map_cons, run, hs, hrest]
      simp only [Device.setHandle, Function.update_idem]

/-- The ioctls of a session are in time and set no format. -/
theorem roundInv_setup {regs : RegFile} {f : Frames} {n : ℕ} (h : Reach (devStep chip A.val)
      (fun s act => InTime s act ∧ SetsCoded s act) (initDevice κ regs) s)
    (hr : run (devStep chip A.val) s ((f.setup n).map (.ioctl c)) = some s') :
    RoundInv chip s' := by
  refine roundInv_reach (h.trans (reach_of_run (along_of_forall fun a ha s => ?_) hr))
  obtain ⟨io, hio, rfl⟩ := List.mem_map.mp ha
  refine ⟨trivial, ?_⟩
  cases io with
  | sFmt type fmt => simp [Frames.setup, Frames.queueBuffers] at hio
  | _ => trivial

theorem answers_ioctls (d : κ) (ios : List Ioctl)
    (hr : run (devStep chip A.val) s (ios.map (.ioctl c)) = some s') :
    answers (devStep chip A.val) (fileActs chip d) s (ios.map (.ioctl c)) =
      if c = d then ios.map .ioctl else [] := by
  induction ios generalizing s with
  | nil => simp [answers]
  | cons io ios ih =>
    simp only [List.map_cons, run] at hr
    cases hs : devStep chip A.val s (.ioctl c io) with
    | none => simp [hs] at hr
    | some u =>
      simp only [hs] at hr
      simp only [List.map_cons, answers, hs, fileActs, ih hr]
      split_ifs <;> rfl

/-! ### What a file sees of a round -/

theorem task_calls {n : ℕ} (hr : run (devStep chip A.val) s (List.replicate n .call) = some s') :
    s'.task = s.task := by
  have hcalls := reach_of_run (C := fun _ a => a = .call)
    (along_of_forall fun a ha _ => List.eq_of_mem_replicate ha) hr
  refine hcalls.invariant (P := fun u => u.task = s.task) rfl ?_
  rintro u v act hu rfl hs
  simp only [devStep] at hs
  split at hs
  · cases hs
  · obtain rfl := Option.some.inj hs
    exact hu

theorem ended_client {t : Task κ} (ht : s.task = some t) (d : κ) (outcome : U32 × BufResult) :
    ended s d outcome = if t.client = d then [.finish outcome.1 outcome.2] else [] := by
  by_cases hd : t.client = d
  · subst hd
    rw [ended, jobOf_client ht, if_pos rfl]
    rfl
  · rw [ended, jobOf_other ht hd, if_neg hd]
    rfl

/-- The end of the current job, as the files see it. -/
theorem answers_fileEnding {t : Task κ} (ht : s.task = some t) (e : Ending)
    (hr : run (devStep chip A.val) s e.acts = some s') (d : κ) :
    answers (devStep chip A.val) (fileActs chip d) s e.acts =
      if t.client = d then [.finish (e.outcome chip).1 (e.outcome chip).2] else [] := by
  have hbefore : (e.before chip s).task = some t := by
    cases e <;> exact ht
  rw [answers_endingActs (fun _ _ _ => rfl) hr, ← ended_client hbefore]
  cases e with
  | report status bits =>
    exact congrArg (ended _ d) (vepuIrq_report chip s.hw status bits)
  | timeout => rfl

/-- A job of one file is nothing to the others. -/
theorem answers_fileRound {r : Round κ} (hr : run (devStep chip A.val) s (r.acts chip) = some s')
    (d : κ) : answers (devStep chip A.val) (fileActs chip d) s (r.acts chip) =
      if r.client = d then Frames.jobActs (r.ending.outcome chip) else [] := by
  simp only [Round.acts, run] at hr
  simp only [Round.acts, answers]
  cases hstart : devStep chip A.val s (.deviceRun r.client) with
  | none => simp [hstart] at hr
  | some v =>
    simp only [hstart, run_append] at hr ⊢
    obtain ⟨w, hw, hr⟩ := Option.bind_eq_some_iff.mp hr
    obtain ⟨t, ht, hclient, -⟩ := task_started hstart
    have hcalls : answers (devStep chip A.val) (fileActs chip d) v
        (List.replicate (callCount chip) .call) = [] := by
      refine answers_eq_nil (fun s a ha => ?_) v
      obtain rfl := List.eq_of_mem_replicate ha
      rfl
    rw [answers_append hw, hcalls, answers_fileEnding ((task_calls hw).trans ht) r.ending hr d,
      hclient, fileActs]
    split_ifs <;> rfl

theorem answers_fileRounds (hi : RoundInv chip s) (hidle : s.task = none) {t u : Pairing κ}
    (hR : Pairs s t) {rounds : List (Round κ)}
    (hu : run Service.step t ((rounds.map Round.client).flatMap Service.round) = some u) (d : κ) :
    answers (devStep chip A.val) (fileActs chip d) s (rounds.flatMap (Round.acts chip)) =
      rounds.flatMap fun r =>
        if r.client = d then Frames.jobActs (r.ending.outcome chip) else [] := by
  induction rounds generalizing s t with
  | nil => rfl
  | cons r rounds ih =>
    rw [List.map_cons, List.flatMap_cons, run_append] at hu
    obtain ⟨v, hv, hu⟩ := Option.bind_eq_some_iff.mp hu
    obtain ⟨x, hx, hix, hxidle, hRx, -⟩ := run_deviceRound (A := A) hi hidle hR hv
    rw [List.flatMap_cons, List.flatMap_cons, answers_append hx, answers_fileRound hx d,
      ih hix hxidle hRx hu]

theorem answers_session {f : Frames} {endings : List Ending} {u : Device κ}
    (hu : run (devStep chip A.val) s ((f.setup endings.length).map (.ioctl c)) = some u)
    (hi : RoundInv chip u) (hidle : u.task = none) {t v : Pairing κ} (hR : Pairs u t)
    (hv : run Service.step t (((endings.map (Round.mk c)).map Round.client).flatMap
      Service.round) = some v) (d : κ) :
    answers (devStep chip A.val) (fileActs chip d) s (sessionActs chip f c endings) =
      if c = d then f.session (endings.map (Ending.outcome chip)) else [] := by
  rw [sessionActs, answers_append hu, answers_ioctls d _ hu,
    answers_fileRounds hi hidle hR hv, List.flatMap_map]
  by_cases hd : c = d
  · simp only [hd, if_true, Frames.session, List.length_map, List.flatMap_map]
  · simp [hd]

/-! ### Enough buffers -/

theorem RoundInv.coded_frames (hi : RoundInv chip s) {file : Handle}
    (hfile : s.handle c = some file) {f : Frames} (hctx : file.node.ctx = f.ctx) :
    f.vpuDstFmt.codecMode ≠ .none := by
  obtain ⟨dst, hdst, hmode⟩ := hi.coded c file hfile
  rw [hctx, f.dst_eq] at hdst
  obtain rfl := Option.some.inj hdst
  exact hmode

/-- After the setup as many buffers wait on both queues as there are jobs. -/
theorem Encoding.enough {f : Frames} {file : Handle} {endings : List Ending}
    (he : Encoding chip f 0 endings.length file) (hfile : s.handle c = some file) (d : κ)
    (type : BufType) : ((endings.map (Round.mk c)).map Round.client).count d ≤
      (waiting s d type).length := by
  by_cases hd : c = d
  · subst hd
    rw [waiting_some hfile, he.ready, List.length_map, List.length_range']
    exact List.count_le_length.trans (by simp)
  · rw [List.count_eq_zero_of_not_mem (by simp [hd])]
    exact Nat.zero_le _

end Device

/-- From every reachable state with no current job, a client whose queues are stopped can make a
whole session of as many frames as a queue can have buffers, however the encoder ends its jobs.
Its frames are all handed back, with what the encoder has reported, no other file is touched, and
the device rests. -/
theorem session_completes [DecidableEq κ] {chip : Chip} {A : DmaAlign} {regs : RegFile}
    {s : Device κ} (h : Reach (devStep chip A.val) (fun s act => InTime s act ∧ SetsCoded s act)
      (initDevice κ regs) s) (hidle : s.task = none) {c : κ} {file : Handle}
    (hfile : s.handle c = some file) (hstop : ∀ type, (file.node.pool type).streaming = false)
    {f : Frames} (hctx : file.node.ctx = f.ctx) (htable : file.qtable = f.qtable)
    {endings : List Ending} (hne : endings ≠ []) (hcap : endings.length ≤ videoMaxFrame) :
    ∃ s' file', run (devStep chip A.val) s (sessionActs chip f c endings) = some s' ∧
      s'.task = none ∧ AtRest s' ∧ (∀ d, d ≠ c → s'.handle d = s.handle d) ∧
        s'.handle c = some file' ∧ (∀ type, readyBufs (file'.node.pool type) = []) ∧
          completions file'.history = completions file.history ++
            (endings.map (Ending.outcome chip)).mapIdx (f.encoded chip) := by
  have hi := roundInv_reach h
  have hinv := hi.device.handles c file hfile
  rw [jobOf_idle hidle] at hinv
  obtain ⟨file₁, hrun, henc, -⟩ := run_setup (A := A) hinv hctx htable hstop
    (List.length_pos_iff.mpr hne)
  rw [Nat.min_eq_left hcap] at henc
  have hu : run (devStep chip A.val) s ((f.setup endings.length).map (.ioctl c)) =
      some (s.setHandle c (some file₁)) := run_deviceIoctls hfile hrun
  have hiu := roundInv_setup h hu
  have henough := henc.enough (s := s.setHandle c (some file₁)) (Function.update_self ..)
  obtain ⟨v, hv, -⟩ := Service.run_rounds (s := waitingPairs (s.setHandle c (some file₁))) rfl
    (fun d => henough d .output) fun d => henough d .capture
  obtain ⟨s', hs', hi', hidle', -⟩ :=
    run_deviceRounds (A := A) hiu hidle (pairs_waiting hidle) hv
  have hsession : run (devStep chip A.val) s (sessionActs chip f c endings) = some s' := by
    rw [sessionActs, run_append, hu]
    exact hs'
  -- what the files see of it
  have hview (d : κ) : run (fileStep chip A.val) (fileOf s d)
      (if c = d then f.session (endings.map (Ending.outcome chip)) else []) =
        some (fileOf s' d) := by
    obtain ⟨-, ht, rfl⟩ := (file_simulates chip A.val d).run rfl (along_any _ _) hsession
    rwa [answers_session hu hiu hidle (pairs_waiting hidle) hv] at ht
  have hne' : endings.map (Ending.outcome chip) ≠ [] := by simpa using hne
  obtain ⟨file', hfile', hready, hcompletions⟩ := run_session (A := A) hinv hctx htable hstop
    (hi.coded_frames hfile hctx) hne' (by simpa using hcap)
  have hown := hview c
  rw [if_pos rfl, show fileOf s c = ⟨some file, none⟩ by rw [fileOf, hfile, jobOf_idle hidle],
    hfile'] at hown
  refine ⟨s', file', hsession, hidle', hi'.phase.idle hidle', fun d hd => ?_,
    (congrArg OneFile.handle (Option.some.inj hown)).symm, hready, hcompletions⟩
  have hother := hview d
  rw [if_neg hd.symm] at hother
  exact (congrArg OneFile.handle (Option.some.inj hother)).symm

/-- The encoder reports on the first frame and not on the second one. -/
def twoEndings : List Ending := [.report Rk3288.vepuRegInterruptFrameRdy 800, .timeout]

theorem session_completes_twoFrames : ∃ s s' file',
    run (devStep .rk3288 64) (initDevice ℕ fun _ => 0) twoFiles = some s ∧
      run (devStep .rk3288 64) s (sessionActs .rk3288 firstFrames 0 twoEndings) = some s' ∧
        s'.handle 0 = some file' ∧ completions file'.history = [
          firstFrames.encoded .rk3288 0 (100, .done),
          firstFrames.encoded .rk3288 1 (0, .error)] := by
  obtain ⟨s, file, hs, hidle, hfile, hctx, htable, hhistory, hstop⟩ := run_twoFiles
  obtain ⟨s', file', hs', -, -, -, hfile', -, hcompletions⟩ := session_completes
    (A := ⟨6, by decide⟩) (reach_of_run (by decide +kernel) hs) hidle hfile hstop hctx htable
    (by decide : twoEndings ≠ []) (by decide)
  exact ⟨s, s', file', hs, hs', hfile', by rw [hcompletions, hhistory]; rfl⟩

end RockchipVpu.System
