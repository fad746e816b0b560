import Mathlib.Data.List.Nodup
import Mathlib.Data.Set.Function
import Mathlib.Logic.Function.Basic

/-! Sequences of writes to a file of registers. A write names its register and its
value; after the sequence a register holds what the last write to it left there, or what
it held before. -/

namespace RockchipVpu.Base

variable {ι β ω : Type*} [DecidableEq ι] (reg : ω → ι) (val : ω → β)

/-- The file after the writes `ws`, the first one first. -/
def writeAll (ws : List ω) (file : ι → β) : ι → β :=
  ws.foldl (fun file w => Function.update file (reg w) (val w)) file

@[simp] theorem writeAll_cons (w : ω) (ws : List ω) (file : ι → β) :
    writeAll reg val (w :: ws) file =
      writeAll reg val ws (Function.update file (reg w) (val w)) := rfl

theorem writeAll_append (ws ws' : List ω) (file : ι → β) :
    writeAll reg val (ws ++ ws') file = writeAll reg val ws' (writeAll reg val ws file) :=
  List.foldl_append

variable {reg val}

/-- A register that no write names is unchanged. -/
theorem writeAll_of_notMem {ws : List ω} {r : ι} (h : r ∉ ws.map reg) (file : ι → β) :
    writeAll reg val ws file r = file r := by
  induction ws generalizing file with
  | nil => rfl
  | cons w ws ih =>
    simp only [List.map_cons, List.mem_cons, not_or] at h
    rw [writeAll_cons, ih h.2, Function.update_of_ne h.1]

/-- Files that agree on some registers agree on them after the same writes. -/
theorem writeAll_eqOn {file file' : ι → β} {s : Set ι} (h : Set.EqOn file file' s) (ws : List ω) :
    Set.EqOn (writeAll reg val ws file) (writeAll reg val ws file') s := by
  induction ws generalizing file file' with
  | nil => exact h
  | cons w ws ih =>
    rw [writeAll_cons, writeAll_cons]
    apply ih
    intro r hr
    by_cases hw : r = reg w
    · subst hw
      simp
    · rw [Function.update_of_ne hw, Function.update_of_ne hw, h hr]

/-- The last write to a register decides. -/
theorem writeAll_last {ws : List ω} {w : ω} {ws' : List ω} (h : reg w ∉ ws'.map reg)
    (file : ι → β) : writeAll reg val (ws ++ w :: ws') file (reg w) = val w := by
  rw [writeAll_append, writeAll_cons, writeAll_of_notMem h, Function.update_self]

/-- When no register is written twice, every value written is there at the end. -/
theorem writeAll_of_mem {ws : List ω} (hnd : (ws.map reg).Nodup) {w : ω} (hw : w ∈ ws)
    (file : ι → β) : writeAll reg val ws file (reg w) = val w := by
  obtain ⟨pre, post, rfl⟩ := List.append_of_mem hw
  refine writeAll_last ?_ file
  rw [List.map_append, List.map_cons] at hnd
  exact (List.nodup_cons.mp hnd.of_append_right).1

section Bracketed

variable {first last : ω} {body : List ω} (hreg : reg first = reg last)
  (hbody : reg last ∉ body.map reg)
include hbody

/-- A body between two writes to one register that it does not touch itself: the body's
values stay. -/
theorem writeAll_bracketed (hnd : (body.map reg).Nodup) {w : ω} (hw : w ∈ body) (file : ι → β) :
    writeAll reg val (first :: (body ++ [last])) file (reg w) = val w := by
  have hne : reg w ∉ [last].map reg := by
    intro h
    obtain h : reg w = reg last := by simpa using h
    exact hbody (h ▸ List.mem_map_of_mem hw)
  rw [writeAll_cons, writeAll_append, writeAll_of_notMem hne, writeAll_of_mem hnd hw]

omit hbody in
theorem writeAll_bracketed_last (file : ι → β) :
    writeAll reg val (first :: (body ++ [last])) file (reg last) = val last := by
  rw [← List.cons_append]
  exact writeAll_last (by simp) file

include hreg in
/-- Only the register of the brackets is written more than once. -/
theorem nodup_bracketed (hnd : (body.map reg).Nodup) :
    (((first :: (body ++ [last])).map reg).filter (· ≠ reg last)).Nodup := by
  have hfilter : (body.map reg).filter (· ≠ reg last) = body.map reg :=
    List.filter_eq_self.mpr fun r hr => by
      simp only [ne_eq, decide_eq_true_eq]
      rintro rfl
      exact hbody hr
  simp only [List.map_cons, List.map_append, List.map_nil, List.filter_cons, hreg, ne_eq,
    not_true_eq_false, decide_false, Bool.false_eq_true, ↓reduceIte, List.filter_append,
    List.filter_nil, List.append_nil]
  rw [hfilter]
  exact hnd

end Bracketed

end RockchipVpu.Base
