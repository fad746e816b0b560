import Mathlib.Data.List.Basic
import Mathlib.Data.List.Nodup

/-! Pools of numbered buffers with a queue. A slot is given back to its owner,
prepared after a check of its buffer, queued for processing, or processed and
waiting to be collected. The queue holds the numbers of the queued slots in the
order they came. A predicate that the check establishes is carried by every
prepared and every queued slot until the slot is given back, so the buffer at the
head of the queue has it. -/

namespace RockchipVpu.Base

variable {β : Type*}

inductive SlotState
  | dequeued | prepared | queued | done
  deriving DecidableEq

/-- The check has been made and its result still counts. -/
def SlotState.Checked (s : SlotState) : Prop := s = .prepared ∨ s = .queued

instance (s : SlotState) : Decidable s.Checked := inferInstanceAs (Decidable (_ ∨ _))

structure Slot (β : Type*) where
  state : SlotState
  buf : β
  deriving DecidableEq

structure Pool (β : Type*) where
  slots : List (Slot β) := []
  queue : List ℕ := []
  streaming : Bool := false
  deriving DecidableEq

namespace Pool

/-- Buffers are allocated. -/
def busy (p : Pool β) : Bool := !p.slots.isEmpty

/-- The slot `i` has state `state` and buffer `b`. -/
def Holds (p : Pool β) (i : ℕ) (state : SlotState) (b : β) : Prop :=
  p.slots[i]? = some ⟨state, b⟩

/-- The buffer that is processed next. -/
def head? (p : Pool β) : Option β :=
  p.queue.head?.bind fun i => p.slots[i]?.map Slot.buf

/-! ### Operations -/

def alloc (p : Pool β) (count : ℕ) (b : β) : Pool β :=
  { p with slots := p.slots ++ List.replicate count ⟨.dequeued, b⟩ }

/-- Give up all buffers and allocate new ones. -/
def realloc (p : Pool β) (count : ℕ) (b : β) : Pool β :=
  { p with slots := List.replicate count ⟨.dequeued, b⟩, queue := [] }

def prepare (p : Pool β) (i : ℕ) (b : β) : Pool β :=
  { p with slots := p.slots.set i ⟨.prepared, b⟩ }

def enqueue (p : Pool β) (i : ℕ) (b : β) : Pool β :=
  { p with slots := p.slots.set i ⟨.queued, b⟩, queue := p.queue ++ [i] }

def dequeue (p : Pool β) (i : ℕ) (b : β) : Pool β :=
  { p with slots := p.slots.set i ⟨.dequeued, b⟩ }

def start (p : Pool β) : Pool β := { p with streaming := true }

/-- Stop and give every buffer back. -/
def cancel (p : Pool β) : Pool β :=
  { slots := p.slots.map fun s => { s with state := .dequeued }, queue := [], streaming := false }

/-- The head of the queue has been processed. -/
def complete (p : Pool β) : Pool β :=
  match p.queue with
  | [] => p
  | i :: is =>
    { p with slots := p.slots.modify i (fun s => { s with state := .done }), queue := is }

@[simp] theorem complete_streaming (p : Pool β) : p.complete.streaming = p.streaming := by
  unfold complete
  split <;> rfl

/-! ### The invariant -/

/-- Every checked slot has `P`, and the queue lists queued slots, each once. -/
structure Valid (P : β → Prop) (p : Pool β) : Prop where
  checked : ∀ s ∈ p.slots, s.state.Checked → P s.buf
  queued : ∀ i ∈ p.queue, ∃ b, p.Holds i .queued b
  nodup : p.queue.Nodup

/-- No slot is checked. -/
def Unchecked (p : Pool β) : Prop := ∀ s ∈ p.slots, ¬ s.state.Checked

instance (p : Pool β) : Decidable p.Unchecked := List.decidableBAll _ _

/-- Every buffer of the pool has `Q`. -/
def Forall (Q : β → Prop) (p : Pool β) : Prop := ∀ s ∈ p.slots, Q s.buf

variable {P Q : β → Prop} {p : Pool β} {i count : ℕ} {b b' : β} {st : SlotState}

theorem valid_empty (P : β → Prop) : Valid P ({} : Pool β) := by
  constructor <;> simp

/-- The head of the queue has passed its check. -/
theorem Valid.head (h : p.Valid P) (hq : p.queue ≠ []) : ∃ b, p.head? = some b ∧ P b := by
  obtain ⟨i, is, hi⟩ := List.exists_cons_of_ne_nil hq
  obtain ⟨b, hb⟩ := h.queued i (by simp [hi])
  have hslot : p.slots[i]? = some ⟨.queued, b⟩ := hb
  exact ⟨b, by simp [head?, hi, hslot], h.checked _ (List.mem_of_getElem? hslot) (.inr rfl)⟩

/-- With no checked slot the predicate is free. -/
theorem Valid.of_unchecked {P' : β → Prop} (h : p.Valid P) (hu : p.Unchecked) : p.Valid P' :=
  ⟨fun s hs hc => absurd hc (hu s hs), h.queued, h.nodup⟩

/-- A slot in any other state is not in the queue. -/
theorem Valid.not_mem_queue (h : p.Valid P) (hb : p.Holds i st b) (hst : st ≠ .queued) :
    i ∉ p.queue := by
  intro hi
  obtain ⟨b', hb'⟩ := h.queued i hi
  have heq := Option.some.inj (hb.symm.trans hb')
  exact hst (congrArg Slot.state heq)

/-- Rewriting a slot outside of the queue. -/
theorem Valid.set (h : p.Valid P) (hi : i ∉ p.queue) {x : Slot β}
    (hx : x.state.Checked → P x.buf) : Valid P { p with slots := p.slots.set i x } where
  checked s hs hc := by
    rcases List.mem_or_eq_of_mem_set hs with hs | rfl
    · exact h.checked s hs hc
    · exact hx hc
  queued j hj := by
    obtain ⟨b, hb⟩ := h.queued j hj
    have hij : i ≠ j := fun hij => hi (hij ▸ hj)
    exact ⟨b, by rw [Holds, List.getElem?_set_ne hij]; exact hb⟩
  nodup := h.nodup

theorem Valid.prepare (h : p.Valid P) (hb : p.Holds i .dequeued b) (hP : P b') :
    (p.prepare i b').Valid P :=
  h.set (h.not_mem_queue hb (by simp)) fun _ => hP

theorem Valid.dequeue (h : p.Valid P) (hb : p.Holds i st b) (hst : st ≠ .queued) :
    (p.dequeue i b').Valid P :=
  h.set (h.not_mem_queue hb hst) fun hc => by simp [SlotState.Checked] at hc

theorem Valid.enqueue (h : p.Valid P) (hb : p.Holds i st b) (hst : st ≠ .queued) (hP : P b') :
    (p.enqueue i b').Valid P := by
  have hi := h.not_mem_queue hb hst
  have hset := h.set (x := ⟨.queued, b'⟩) hi fun _ => hP
  refine ⟨hset.checked, ?_, ?_⟩
  · intro j hj
    rcases List.mem_append.mp hj with hj | hj
    · exact hset.queued j hj
    · obtain rfl := List.mem_singleton.mp hj
      have hlt := (List.getElem?_eq_some_iff.mp hb).1
      exact ⟨b', by simp [Holds, Pool.enqueue, hlt]⟩
  · rw [Pool.enqueue, List.nodup_append]
    exact ⟨h.nodup, List.nodup_singleton i, fun a ha c hc => by
      rintro rfl
      exact hi (List.mem_singleton.mp hc ▸ ha)⟩

theorem Valid.alloc (h : p.Valid P) (count : ℕ) (b : β) : (p.alloc count b).Valid P where
  checked s hs hc := by
    rcases List.mem_append.mp hs with hs | hs
    · exact h.checked s hs hc
    · obtain rfl := List.eq_of_mem_replicate hs
      simp [SlotState.Checked] at hc
  queued i hi := by
    obtain ⟨b', hb'⟩ := h.queued i hi
    have hlt := (List.getElem?_eq_some_iff.mp hb').1
    exact ⟨b', by rw [Holds, Pool.alloc, List.getElem?_append_left hlt]; exact hb'⟩
  nodup := h.nodup

theorem valid_realloc (P : β → Prop) (p : Pool β) (count : ℕ) (b : β) :
    (p.realloc count b).Valid P where
  checked s hs hc := by
    obtain rfl := List.eq_of_mem_replicate hs
    simp [SlotState.Checked] at hc
  queued i hi := by cases hi
  nodup := List.nodup_nil

theorem Valid.start (h : p.Valid P) : p.start.Valid P := ⟨h.checked, h.queued, h.nodup⟩

theorem valid_cancel (P : β → Prop) (p : Pool β) : p.cancel.Valid P where
  checked s hs hc := by
    obtain ⟨t, -, rfl⟩ := List.mem_map.mp hs
    simp [SlotState.Checked] at hc
  queued i hi := by cases hi
  nodup := List.nodup_nil

theorem Valid.complete (h : p.Valid P) : p.complete.Valid P := by
  unfold Pool.complete
  cases hq : p.queue with
  | nil => exact h
  | cons i is =>
    obtain ⟨hnotin, hnodup⟩ := List.nodup_cons.mp (hq ▸ h.nodup)
    refine ⟨?_, ?_, hnodup⟩
    · intro s hs hc
      obtain ⟨j, hj⟩ := List.mem_iff_getElem?.mp hs
      rw [List.getElem?_modify] at hj
      obtain ⟨t, ht, rfl⟩ := Option.map_eq_some_iff.mp hj
      by_cases hij : i = j
      · simp [hij, SlotState.Checked] at hc
      · simp only [hij, ↓reduceIte] at hc ⊢
        exact h.checked t (List.mem_of_getElem? ht) hc
    · intro j hj
      obtain ⟨b, hb⟩ := h.queued j (by simp [hq, hj])
      have hij : i ≠ j := fun hij => hnotin (hij ▸ hj)
      exact ⟨b, by rw [Holds, List.getElem?_modify_ne _ _ hij]; exact hb⟩

/-! ### Properties of all buffers -/

theorem Forall.holds (h : p.Forall Q) (hb : p.Holds i st b) : Q b :=
  h _ (List.mem_of_getElem? hb)

theorem Forall.set (h : p.Forall Q) {x : Slot β} (hx : Q x.buf) :
    Forall Q { p with slots := p.slots.set i x } := by
  intro s hs
  rcases List.mem_or_eq_of_mem_set hs with hs | rfl
  · exact h s hs
  · exact hx

theorem Forall.alloc (h : p.Forall Q) (hb : Q b) : (p.alloc count b).Forall Q := by
  intro s hs
  rcases List.mem_append.mp hs with hs | hs
  · exact h s hs
  · obtain rfl := List.eq_of_mem_replicate hs
    exact hb

theorem forall_realloc (p : Pool β) (hb : Q b) : (p.realloc count b).Forall Q := by
  intro s hs
  obtain rfl := List.eq_of_mem_replicate hs
  exact hb

theorem Forall.cancel (h : p.Forall Q) : p.cancel.Forall Q := by
  intro s hs
  obtain ⟨t, ht, rfl⟩ := List.mem_map.mp hs
  exact h t ht

theorem Forall.complete (h : p.Forall Q) : p.complete.Forall Q := by
  unfold Pool.complete
  cases p.queue with
  | nil => exact h
  | cons i is =>
    intro s hs
    obtain ⟨j, hj⟩ := List.mem_iff_getElem?.mp hs
    rw [List.getElem?_modify] at hj
    obtain ⟨t, ht, rfl⟩ := Option.map_eq_some_iff.mp hj
    have hQ := h t (List.mem_of_getElem? ht)
    by_cases hij : i = j <;> simpa [hij] using hQ

/-- The head of the queue is one of the buffers. -/
theorem Forall.head (h : p.Forall Q) (hb : p.head? = some b) : Q b := by
  obtain ⟨i, -, hi⟩ := Option.bind_eq_some_iff.mp hb
  obtain ⟨s, hs, rfl⟩ := Option.map_eq_some_iff.mp hi
  exact h s (List.mem_of_getElem? hs)

end Pool

end RockchipVpu.Base
