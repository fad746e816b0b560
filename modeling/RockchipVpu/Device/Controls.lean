import RockchipVpu.Base.Scan
import RockchipVpu.Device.Open

/-! Setting up the controls of a context. The loop stores the controls it registers in the
next free slot of `ctrls`, and the length of the whole table becomes `num_ctrls`. So the
slots from the number of registered controls on stay empty, and the lookup passes over
them. The loops are read here with every access to the array checked. -/

namespace RockchipVpu.Device

open Base Format

variable {δ : Type*}

/-- Adding one of the variant's controls fails. -/
def AddFails (table : List RockchipVpuCtrl) (codec : U32) (o : OpenOutcome δ) : Prop :=
  ∃ i c, table[i]? = some c ∧ codec &&& c.codec ≠ 0 ∧ ∃ e, o.newCustom i = .error e

/-! ### Checked accesses -/

/-- `ctrls[j] = v4l2_ctrl_new_custom(...)`, `none` when there is no such slot. -/
def OpenCtx.storeCtrl (ctx : OpenCtx δ) (id : U32) (j : ℕ) (r : Except ErrNum δ) :
    Option (OpenCtx δ) :=
  if j < ctx.ctrls.length then some (ctx.newCustom id j r) else none

/-- `addControls`, `none` when it stores outside of the array. -/
def addControlsChecked (codec : U32) (o : OpenOutcome δ) :
    List RockchipVpuCtrl → ℕ → ℕ → OpenCtx δ → Option (Option ℤ × OpenCtx δ)
  | [], _, _, ctx => some (none, ctx)
  | c :: cs, i, j, ctx =>
    if codec &&& c.codec = 0 then addControlsChecked codec o cs (i + 1) j ctx
    else (ctx.storeCtrl c.id j (o.newCustom i)).bind fun ctx =>
      if ctx.handlerError ≠ 0 then
        let ctx := ctx.handlerFree
        some (some ctx.handlerError, ctx)
      else addControlsChecked codec o cs (i + 1) (j + 1) ctx

/-- `ctrlsSetup`, `none` when it stores outside of the array. -/
def ctrlsSetupChecked (table : List RockchipVpuCtrl) (codec : U32) (o : OpenOutcome δ)
    (ctx : OpenCtx δ) : Option (ℤ × OpenCtx δ) :=
  if maxCtrls < table.length then some (einval.ret, ctx)
  else
    let ctx := ctx.handlerInit o.handlerInit
    if ctx.handlerError ≠ 0 then some (ctx.handlerError, ctx)
    else (addControlsChecked codec o table 0 0 ctx).map fun
      | (some ret, ctx) => (ret, ctx)
      | (none, ctx) => (0, { ctx with numCtrls := table.length })

/-- What the lookup does with one slot. -/
def dataFor (id : U32) : Option (V4l2Ctrl δ) → Option δ
  | none => none
  | some ctrl => if ctrl.id = id then some ctrl.data else none

/-- `findControlData`, `none` when it reads outside of the array. -/
def findControlDataChecked (ctx : OpenCtx δ) (id : U32) : Option (Option δ) :=
  searchFrom (dataFor id) ctx.ctrls ctx.numCtrls 0

/-! A loop that stays inside of the array does what it does unchecked. -/

theorem addControls_of_checked {codec : U32} {o : OpenOutcome δ} {cs : List RockchipVpuCtrl}
    {i j : ℕ} {ctx : OpenCtx δ} {r : Option ℤ × OpenCtx δ}
    (h : addControlsChecked codec o cs i j ctx = some r) : addControls codec o cs i j ctx = r := by
  induction cs generalizing i j ctx with
  | nil => exact Option.some.inj h
  | cons c cs ih =>
    rw [addControlsChecked] at h
    rw [addControls]
    split_ifs at h ⊢ with hbit
    · exact ih h
    · obtain ⟨ctx', hstore, h⟩ := Option.bind_eq_some_iff.mp h
      rw [OpenCtx.storeCtrl] at hstore
      split_ifs at hstore
      obtain rfl := Option.some.inj hstore
      simp only
      split_ifs at h ⊢ with herr
      · exact Option.some.inj h
      · exact ih h

theorem ctrlsSetup_of_checked {table : List RockchipVpuCtrl} {codec : U32} {o : OpenOutcome δ}
    {ctx : OpenCtx δ} {r : ℤ × OpenCtx δ} (h : ctrlsSetupChecked table codec o ctx = some r) :
    ctrlsSetup table codec o ctx = r := by
  rw [ctrlsSetupChecked] at h
  rw [ctrlsSetup]
  split_ifs at h ⊢ with hlen
  · exact Option.some.inj h
  · simp only at h ⊢
    split_ifs at h ⊢ with herr
    · exact Option.some.inj h
    · obtain ⟨⟨ret, ctx'⟩, hloop, rfl⟩ := Option.map_eq_some_iff.mp h
      cases ret with
      | none => rw [addControls_of_checked hloop]
      | some ret => rw [addControls_of_checked hloop]

theorem findControlData_of_checked {ctx : OpenCtx δ} (hlen : ctx.numCtrls ≤ ctx.ctrls.length)
    (id : U32) : findControlDataChecked ctx id = some (findControlData ctx id) := by
  rw [findControlDataChecked, searchFrom_eq _ (by omega), List.drop_zero]
  rfl

/-! ### The loop

Each entry of the table is skipped, added, or ends the loop with the error that freeing
the handler leaves, which is 0. -/

theorem ErrNum.ret_ne_zero (e : ErrNum) : e.ret ≠ 0 := by
  have := e.pos
  rw [ErrNum.ret]
  omega

/-- Adding one of the entries fails, numbered from `i` on. -/
def AddFailsFrom (codec : U32) (o : OpenOutcome δ) (cs : List RockchipVpuCtrl) (i : ℕ) : Prop :=
  ∃ entry ∈ cs.zipIdx i, codec &&& entry.1.codec ≠ 0 ∧ ∃ e, o.newCustom entry.2 = .error e

theorem addFailsFrom_zero {codec : U32} {o : OpenOutcome δ} {table : List RockchipVpuCtrl} :
    AddFailsFrom codec o table 0 ↔ AddFails table codec o := by
  constructor
  · rintro ⟨⟨c, i⟩, hmem, h⟩
    exact ⟨i, c, List.mem_zipIdx_iff_getElem?.mp hmem, h⟩
  · rintro ⟨i, c, hc, h⟩
    exact ⟨(c, i), List.mem_zipIdx_iff_getElem?.mpr hc, h⟩

theorem addFailsFrom_cons {codec : U32} {o : OpenOutcome δ} {c : RockchipVpuCtrl}
    {cs : List RockchipVpuCtrl} {i : ℕ} : AddFailsFrom codec o (c :: cs) i ↔
      (codec &&& c.codec ≠ 0 ∧ ∃ e, o.newCustom i = .error e) ∨ AddFailsFrom codec o cs (i + 1) := by
  rw [AddFailsFrom, List.zipIdx_cons]
  exact List.exists_mem_cons_iff _ _ _

/-- What becomes of the entry with an index if nothing fails. -/
def registeredAs (codec : U32) (o : OpenOutcome δ) (entry : RockchipVpuCtrl × ℕ) :
    Option (V4l2Ctrl δ) :=
  if codec &&& entry.1.codec = 0 then none else (o.newCustom entry.2).toOption.map (⟨entry.1.id, ·⟩)

theorem registeredAs_eq_some {codec : U32} {o : OpenOutcome δ} {c : RockchipVpuCtrl} {i : ℕ}
    {ctrl : V4l2Ctrl δ} : registeredAs codec o (c, i) = some ctrl ↔
      codec &&& c.codec ≠ 0 ∧ ∃ data, o.newCustom i = .ok data ∧ ctrl = ⟨c.id, data⟩ := by
  rw [registeredAs]
  split_ifs with hbit
  · exact iff_of_false nofun fun h => h.1 hbit
  · cases hi : o.newCustom i with
    | error e => exact iff_of_false nofun fun ⟨_, _, hok, _⟩ => nomatch hok
    | ok data =>
      constructor
      · intro h
        exact ⟨hbit, data, rfl, (Option.some.inj h).symm⟩
      · rintro ⟨-, _, hok, rfl⟩
        obtain rfl := Except.ok.inj hok
        rfl

/-- What the loop registers of the rest of a table, from index `i` on. -/
def registered (codec : U32) (o : OpenOutcome δ) (cs : List RockchipVpuCtrl) (i : ℕ) :
    List (V4l2Ctrl δ) := (cs.zipIdx i).filterMap (registeredAs codec o)

theorem mem_registered {codec : U32} {o : OpenOutcome δ} {table : List RockchipVpuCtrl}
    {ctrl : V4l2Ctrl δ} : ctrl ∈ registered codec o table 0 ↔
      ∃ i c, table[i]? = some c ∧ codec &&& c.codec ≠ 0 ∧
        ∃ data, o.newCustom i = .ok data ∧ ctrl = ⟨c.id, data⟩ := by
  rw [registered, List.mem_filterMap]
  constructor
  · rintro ⟨⟨c, i⟩, hmem, h⟩
    exact ⟨i, c, List.mem_zipIdx_iff_getElem?.mp hmem, registeredAs_eq_some.mp h⟩
  · rintro ⟨i, c, hc, h⟩
    exact ⟨(c, i), List.mem_zipIdx_iff_getElem?.mpr hc, registeredAs_eq_some.mpr h⟩

theorem length_registered_le (codec : U32) (o : OpenOutcome δ) (cs : List RockchipVpuCtrl) (i : ℕ) :
    (registered codec o cs i).length ≤ cs.length := by
  have hle := List.length_filterMap_le (registeredAs codec o) (cs.zipIdx i)
  rwa [List.length_zipIdx] at hle

section Loop
variable {codec : U32} {o : OpenOutcome δ} {c : RockchipVpuCtrl} (cs : List RockchipVpuCtrl) (i : ℕ)

theorem registered_skip (hbit : codec &&& c.codec = 0) :
    registered codec o (c :: cs) i = registered codec o cs (i + 1) :=
  List.filterMap_cons_none (if_pos hbit)

theorem registered_add (hbit : codec &&& c.codec ≠ 0) {data : δ} (hdata : o.newCustom i = .ok data) :
    registered codec o (c :: cs) i = ⟨c.id, data⟩ :: registered codec o cs (i + 1) :=
  List.filterMap_cons_some (registeredAs_eq_some.mpr ⟨hbit, data, hdata, rfl⟩)

variable (j : ℕ) (ctx : OpenCtx δ)

theorem addControlsChecked_skip (hbit : codec &&& c.codec = 0) :
    addControlsChecked codec o (c :: cs) i j ctx = addControlsChecked codec o cs (i + 1) j ctx := by
  rw [addControlsChecked, if_pos hbit]

theorem addControlsChecked_add (hbit : codec &&& c.codec ≠ 0) {data : δ}
    (hdata : o.newCustom i = .ok data) (hctx : ctx.handlerError = 0) (hj : j < ctx.ctrls.length) :
    addControlsChecked codec o (c :: cs) i j ctx =
      addControlsChecked codec o cs (i + 1) (j + 1) (ctx.newCustom c.id j (.ok data)) := by
  rw [addControlsChecked, if_neg hbit, OpenCtx.storeCtrl, if_pos hj, hdata, Option.bind_some]
  exact if_neg (not_not_intro hctx)

theorem addControlsChecked_error (hbit : codec &&& c.codec ≠ 0) {e : ErrNum}
    (he : o.newCustom i = .error e) (hj : j < ctx.ctrls.length) :
    addControlsChecked codec o (c :: cs) i j ctx =
      some (some 0, (ctx.newCustom c.id j (.error e)).handlerFree) := by
  rw [addControlsChecked, if_neg hbit, OpenCtx.storeCtrl, if_pos hj, he, Option.bind_some]
  exact if_pos e.ret_ne_zero

end Loop

section Slots
variable {codec : U32} {o : OpenOutcome δ} {cs : List RockchipVpuCtrl} {n i : ℕ}
  {ctrls : List (V4l2Ctrl δ)} {ctx : OpenCtx δ}

/-- A new control goes where the ones before it end. -/
theorem newCustom_slots (hctrls : ctx.ctrls = slots n ctrls) (hn : ctrls.length < n) (id : U32)
    (data : δ) : (ctx.newCustom id ctrls.length (.ok data)).ctrls =
      slots n (ctrls ++ [⟨id, data⟩]) := by
  rw [← set_slots hn, ← hctrls]
  rfl

/-- The loop appends what it registers, however many entries it skips. -/
theorem addControlsChecked_of_ok (h : ¬ AddFailsFrom codec o cs i) (hctx : ctx.handlerError = 0)
    (hctrls : ctx.ctrls = slots n ctrls) (hn : ctrls.length + cs.length ≤ n) :
    addControlsChecked codec o cs i ctrls.length ctx =
      some (none, { ctx with ctrls := slots n (ctrls ++ registered codec o cs i) }) := by
  induction cs generalizing i ctrls ctx with
  | nil =>
    rw [addControlsChecked, registered, List.zipIdx_nil, List.filterMap_nil, List.append_nil,
      ← hctrls]
  | cons c cs ih =>
    rw [addFailsFrom_cons, not_or] at h
    obtain ⟨hfirst, hrest⟩ := h
    rw [List.length_cons] at hn
    by_cases hbit : codec &&& c.codec = 0
    · rw [addControlsChecked_skip _ _ _ _ hbit, registered_skip _ _ hbit]
      exact ih hrest hctx hctrls (by omega)
    · cases hi : o.newCustom i with
      | error e => exact absurd ⟨hbit, e, hi⟩ hfirst
      | ok data =>
        have hslot : ctrls.length < ctx.ctrls.length := by
          rw [hctrls, length_slots (by omega)]
          omega
        have hctx' : (ctx.newCustom c.id ctrls.length (.ok data)).handlerError = 0 := hctx
        have hctrls' := newCustom_slots hctrls (by omega) c.id data
        have hn' : (ctrls ++ [V4l2Ctrl.mk c.id data]).length + cs.length ≤ n := by
          rw [List.length_append, List.length_singleton]
          omega
        have hnext := ih hrest hctx' hctrls' hn'
        rw [List.length_append, List.length_singleton, List.append_assoc] at hnext
        rw [addControlsChecked_add _ _ _ _ hbit hi hctx hslot, registered_add _ _ hbit hi, hnext]
        rfl

/-- A control that cannot be added ends the loop, with the value 0. -/
theorem addControlsChecked_of_failed {j : ℕ} (h : AddFailsFrom codec o cs i)
    (hctx : ctx.handlerError = 0) (hj : j + cs.length ≤ ctx.ctrls.length) :
    ∃ ctx', addControlsChecked codec o cs i j ctx = some (some 0, ctx') ∧
      ctx'.ctrlHandler = false := by
  induction cs generalizing i j ctx with
  | nil => simp [AddFailsFrom] at h
  | cons c cs ih =>
    rw [addFailsFrom_cons] at h
    rw [List.length_cons] at hj
    by_cases hbit : codec &&& c.codec = 0
    · rw [addControlsChecked_skip _ _ _ _ hbit]
      exact ih (h.resolve_left fun hfirst => hfirst.1 hbit) hctx (by omega)
    · cases hi : o.newCustom i with
      | error e =>
        rw [addControlsChecked_error _ _ _ _ hbit hi (by omega)]
        exact ⟨_, rfl, rfl⟩
      | ok data =>
        have hrest : AddFailsFrom codec o cs (i + 1) := by
          refine h.resolve_left ?_
          rintro ⟨-, e, he⟩
          exact nomatch hi.symm.trans he
        have hlen : (ctx.newCustom c.id j (.ok data)).ctrls.length = ctx.ctrls.length :=
          List.length_set
        rw [addControlsChecked_add _ _ _ _ hbit hi hctx (by omega)]
        exact ih hrest hctx (by omega)

end Slots

/-! ### The setup and the lookup -/

/-- The context after a setup in which nothing fails. -/
def OpenCtx.withControls (ctx : OpenCtx δ) (table : List RockchipVpuCtrl) (codec : U32)
    (o : OpenOutcome δ) : OpenCtx δ :=
  { ctx.handlerInit none with
    ctrls := slots maxCtrls (registered codec o table 0)
    numCtrls := table.length }

section Setup
variable {table : List RockchipVpuCtrl} {codec : U32} {o : OpenOutcome δ} {ctx : OpenCtx δ}
  (hlen : table.length ≤ maxCtrls)
include hlen

theorem ctrlsSetupChecked_of_init_ok (hinit : o.handlerInit = none) :
    ctrlsSetupChecked table codec o ctx =
      (addControlsChecked codec o table 0 0 (ctx.handlerInit none)).map fun
        | (some ret, ctx) => (ret, ctx)
        | (none, ctx) => (0, { ctx with numCtrls := table.length }) := by
  rw [ctrlsSetupChecked, if_neg (Nat.not_lt.mpr hlen), hinit]
  exact if_neg (not_not_intro rfl)

theorem ctrlsSetupChecked_of_ok (hzero : ctx.ctrls = List.replicate maxCtrls none)
    (hinit : o.handlerInit = none) (hadd : ¬ AddFails table codec o) :
    ctrlsSetupChecked table codec o ctx = some (0, ctx.withControls table codec o) := by
  have hslots : (ctx.handlerInit none).ctrls = slots maxCtrls [] := hzero.trans (slots_nil _).symm
  have hloop := addControlsChecked_of_ok (addFailsFrom_zero.not.mpr hadd) rfl hslots
    (by simpa using hlen)
  rw [List.length_nil, List.nil_append] at hloop
  rw [ctrlsSetupChecked_of_init_ok hlen hinit, hloop]
  rfl

/-- The error is read after the handler has been freed, so the setup returns 0. -/
theorem ctrlsSetupChecked_of_add_failed (hzero : ctx.ctrls = List.replicate maxCtrls none)
    (hinit : o.handlerInit = none) (hadd : AddFails table codec o) :
    ∃ ctx', ctrlsSetupChecked table codec o ctx = some (0, ctx') ∧ ctx'.ctrlHandler = false := by
  have hroom : 0 + table.length ≤ (ctx.handlerInit none).ctrls.length := by
    simpa [OpenCtx.handlerInit, hzero] using hlen
  obtain ⟨ctx', hloop, hh⟩ := addControlsChecked_of_failed (addFailsFrom_zero.mpr hadd) rfl hroom
  exact ⟨ctx', by rw [ctrlsSetupChecked_of_init_ok hlen hinit, hloop]; rfl, hh⟩

omit hlen in
/-- `num_ctrls` may count slots that are empty; they are passed over. -/
theorem findControlData_withControls (id : U32) :
    findControlData (ctx.withControls table codec o) id =
      (registered codec o table 0).findSome? fun ctrl => dataFor id (some ctrl) := by
  show ((slots maxCtrls _).take table.length).findSome? (dataFor id) = _
  exact findSome?_slots rfl (length_registered_le codec o table 0)

theorem findControlDataChecked_withControls (id : U32) :
    findControlDataChecked (ctx.withControls table codec o) id =
      some ((registered codec o table 0).findSome? fun ctrl => dataFor id (some ctrl)) := by
  have hregistered := (length_registered_le codec o table 0).trans hlen
  have hread : (ctx.withControls table codec o).numCtrls ≤
      (ctx.withControls table codec o).ctrls.length := hlen.trans_eq (length_slots hregistered).symm
  rw [findControlData_of_checked hread, findControlData_withControls]

end Setup

/-- The lookup finds the control that was registered for an id, and no other. -/
structure LookupExact (table : List RockchipVpuCtrl) (codec : U32) (o : OpenOutcome δ)
    (ctx : OpenCtx δ) : Prop where
  found : ∀ i c data, table[i]? = some c → codec &&& c.codec ≠ 0 → o.newCustom i = .ok data →
    findControlDataChecked ctx c.id = some (some data)
  absent : ∀ id, (∀ c ∈ table, c.id = id → codec &&& c.codec = 0) →
    findControlDataChecked ctx id = some none

/-- After a setup in which every control of the mask is registered the lookup is exact, and
no access of either is outside of the array. -/
theorem ctrlsSetup_lookup_exact {table : List RockchipVpuCtrl} {codec : U32} {o : OpenOutcome δ}
    {ctx : OpenCtx δ} (hlen : table.length ≤ maxCtrls)
    (hids : (table.map RockchipVpuCtrl.id).Nodup)
    (hzero : ctx.ctrls = List.replicate maxCtrls none) (hinit : o.handlerInit = none)
    (hadd : ¬ AddFails table codec o) :
    ∃ ctx', ctrlsSetupChecked table codec o ctx = some (0, ctx') ∧
      ctx'.numCtrls = table.length ∧ LookupExact table codec o ctx' := by
  refine ⟨_, ctrlsSetupChecked_of_ok hlen hzero hinit hadd, rfl, ?_, ?_⟩
  · intro i c data hc hbit hdata
    have hmem : (⟨c.id, data⟩ : V4l2Ctrl δ) ∈ registered codec o table 0 :=
      mem_registered.mpr ⟨i, c, hc, hbit, data, hdata, rfl⟩
    rw [findControlDataChecked_withControls hlen, Option.some.injEq]
    refine findSome?_eq_some_of_unique hmem (if_pos rfl) ?_
    intro ctrl hctrl z hz
    obtain ⟨k, d, hd, -, data', hdata', rfl⟩ := mem_registered.mp hctrl
    -- an id stands in one entry only
    simp only [dataFor, Option.ite_none_right_eq_some, Option.some.injEq] at hz
    obtain ⟨hid, rfl⟩ := hz
    have hk : k < (table.map RockchipVpuCtrl.id).length := by
      rw [List.length_map]
      exact (List.getElem?_eq_some_iff.mp hd).1
    have hsame : (table.map RockchipVpuCtrl.id)[k]? = (table.map RockchipVpuCtrl.id)[i]? := by
      rw [List.getElem?_map, List.getElem?_map, hd, hc]
      exact congrArg some hid
    obtain rfl := (List.getElem?_inj hk hids).mp hsame
    exact Except.ok.inj (hdata'.symm.trans hdata)
  · intro id hid
    rw [findControlDataChecked_withControls hlen, Option.some.injEq, List.findSome?_eq_none_iff]
    intro ctrl hctrl
    obtain ⟨i, c, hc, hbit, data, -, rfl⟩ := mem_registered.mp hctrl
    exact if_neg fun h => hbit (hid c (List.mem_of_getElem? hc) h)

/-- The mask leaves out the second of three controls. The third slot is counted, and empty. -/
theorem ctrlsSetup_lookup_exact_three : ∃ ctx', ctrlsSetupChecked
    [⟨0x9d0905, 1⟩, ⟨0x9d0906, 2⟩, ⟨0x9d0907, 3⟩] 1 { newCustom := fun i => .ok (10 * i) }
      { allocated := true, m2mCtx := true, fh := true } = some (0, ctx') ∧
    ctx'.numCtrls = 3 ∧ LookupExact [⟨0x9d0905, 1⟩, ⟨0x9d0906, 2⟩, ⟨0x9d0907, 3⟩] 1
      { newCustom := fun i => .ok (10 * i) } ctx' :=
  ctrlsSetup_lookup_exact (by decide) (by decide) rfl rfl nofun

end RockchipVpu.Device
