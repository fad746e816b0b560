import RockchipVpu.Base.BufferPool

/-! What the queue of a pool holds. In a pool whose queue lists queued slots, each once, the
operations act on the contents as on a first-in first-out list: queueing appends, processing
takes the head away, stopping empties it, and nothing that is done to the other slots is
seen. -/

namespace RockchipVpu.Base.Pool

variable {β : Type*} {P Q : β → Prop} {p : Pool β} {i n : ℕ} {b b' : β} {st : SlotState}

/-! ### The contents -/

/-- The numbers and the buffers of the queued slots, in the order of the queue. -/
def contents (p : Pool β) : List (ℕ × β) :=
  p.queue.filterMap fun i => p.slots[i]?.map fun s => (i, s.buf)

/-- The slots in the queue are the same. -/
def Agrees (p p' : Pool β) : Prop := ∀ i ∈ p.queue, p'.slots[i]? = p.slots[i]?

theorem filterMap_agrees {p' : Pool β} (h : Agrees p p') :
    (p.queue.filterMap fun i => p'.slots[i]?.map fun s => (i, s.buf)) = p.contents :=
  List.filterMap_congr fun i hi => by rw [h i hi]

theorem contents_congr {p' : Pool β} (hq : p'.queue = p.queue) (h : Agrees p p') :
    p'.contents = p.contents := by
  rw [contents, hq]
  exact filterMap_agrees h

theorem agrees_set (hi : i ∉ p.queue) (x : Slot β) :
    Agrees p { p with slots := p.slots.set i x } := by
  intro j hj
  exact List.getElem?_set_ne (ne_of_mem_of_not_mem hj hi).symm

theorem contents_set (hi : i ∉ p.queue) (x : Slot β) :
    contents { p with slots := p.slots.set i x } = p.contents :=
  contents_congr rfl (agrees_set hi x)

/-- The numbers of the contents are the queue. -/
theorem Valid.map_fst_contents (h : p.Valid P) : p.contents.map Prod.fst = p.queue := by
  have hsome : ∀ i ∈ p.queue, (p.slots[i]?.map fun s => (i, s.buf)).map Prod.fst = some i := by
    intro i hi
    obtain ⟨b, hb⟩ := h.queued i hi
    rw [show p.slots[i]? = _ from hb]
    rfl
  rw [contents, List.map_filterMap, List.filterMap_congr hsome, List.filterMap_some]

theorem Valid.contents_eq_nil (h : p.Valid P) : p.contents = [] ↔ p.queue = [] := by
  rw [← h.map_fst_contents, List.map_eq_nil_iff]

/-- The first of the contents is the buffer that is processed next. -/
theorem Valid.head?_contents (h : p.Valid P) :
    p.contents.head? = p.queue.head?.bind fun i => p.head?.map fun b => (i, b) := by
  unfold contents head?
  cases hq : p.queue with
  | nil => rfl
  | cons i is =>
    obtain ⟨b, hb⟩ := h.queued i (by rw [hq]; exact List.mem_cons_self)
    have hslot : p.slots[i]? = some ⟨.queued, b⟩ := hb
    simp [hslot]

/-- The head of the contents is a queued slot. -/
theorem Valid.holds_head (h : p.Valid P) {x : ℕ × β} (hx : p.contents.head? = some x) :
    p.queue.head? = some x.1 ∧ p.Holds x.1 .queued x.2 ∧ p.head? = some x.2 := by
  rw [h.head?_contents] at hx
  obtain ⟨i, hi, hx⟩ := Option.bind_eq_some_iff.mp hx
  obtain ⟨b, hb, rfl⟩ := Option.map_eq_some_iff.mp hx
  refine ⟨hi, ?_, hb⟩
  obtain ⟨b', hb'⟩ := h.queued i (List.mem_of_mem_head? hi)
  have hslot : p.slots[i]? = some ⟨.queued, b'⟩ := hb'
  rw [head?, hi, Option.bind_some, hslot] at hb
  obtain rfl := Option.some.inj hb
  exact hb'

/-! ### The operations -/

theorem contents_empty (slots : List (Slot β)) (streaming : Bool) :
    contents ({ slots := slots, streaming := streaming } : Pool β) = [] := rfl

theorem contents_start (p : Pool β) : p.start.contents = p.contents := rfl

theorem contents_cancel (p : Pool β) : p.cancel.contents = [] := rfl

theorem contents_realloc (p : Pool β) (count : ℕ) (b : β) : (p.realloc count b).contents = [] := rfl

theorem Valid.contents_alloc (h : p.Valid P) (count : ℕ) (b : β) :
    (p.alloc count b).contents = p.contents := by
  refine contents_congr rfl fun i hi => ?_
  obtain ⟨b', hb⟩ := h.queued i hi
  exact List.getElem?_append_left (List.getElem?_eq_some_iff.mp hb).1

theorem Valid.contents_prepare (h : p.Valid P) (hb : p.Holds i st b) (hst : st ≠ .queued) :
    (p.prepare i b').contents = p.contents :=
  contents_set (h.not_mem_queue hb hst) _

theorem Valid.contents_dequeue (h : p.Valid P) (hb : p.Holds i st b) (hst : st ≠ .queued) :
    (p.dequeue i b').contents = p.contents :=
  contents_set (h.not_mem_queue hb hst) _

theorem Valid.contents_enqueue (h : p.Valid P) (hb : p.Holds i st b) (hst : st ≠ .queued) :
    (p.enqueue i b').contents = p.contents ++ [(i, b')] := by
  have hlt := (List.getElem?_eq_some_iff.mp hb).1
  have hagree := filterMap_agrees (agrees_set (h.not_mem_queue hb hst) ⟨.queued, b'⟩)
  unfold contents Pool.enqueue
  rw [List.filterMap_append, hagree]
  simp [contents, hlt]

/-! ### Processing -/

/-- The head of the queue has been processed and is now `b`. -/
def finish (p : Pool β) (b : β) : Pool β :=
  match p.queue with
  | [] => p
  | i :: is => { p with slots := p.slots.set i ⟨.done, b⟩, queue := is }

@[simp] theorem finish_streaming (p : Pool β) (b : β) :
    (p.finish b).streaming = p.streaming := by
  unfold finish
  split <;> rfl

theorem Valid.contents_finish (h : p.Valid P) (b : β) :
    (p.finish b).contents = p.contents.tail := by
  have hmap := h.map_fst_contents
  cases hq : p.queue with
  | nil => simp [contents, Pool.finish, hq]
  | cons i is =>
    obtain ⟨hnotin, -⟩ := List.nodup_cons.mp (hq ▸ h.nodup)
    obtain ⟨b', hb'⟩ := h.queued i (by rw [hq]; exact List.mem_cons_self)
    have hslot : p.slots[i]? = some ⟨.queued, b'⟩ := hb'
    have htail : ∀ j ∈ is, ((p.slots.set i ⟨.done, b⟩)[j]?.map fun s => (j, s.buf)) =
        p.slots[j]?.map fun s => (j, s.buf) := by
      intro j hj
      rw [List.getElem?_set_ne (ne_of_mem_of_not_mem hj hnotin).symm]
    simp only [contents, Pool.finish, hq, List.filterMap_congr htail, List.filterMap_cons, hslot,
      Option.map_some, List.tail_cons]

theorem Valid.finish (h : p.Valid P) (b : β) : (p.finish b).Valid P := by
  unfold Pool.finish
  cases hq : p.queue with
  | nil => exact h
  | cons i is =>
    obtain ⟨hnotin, hnodup⟩ := List.nodup_cons.mp (hq ▸ h.nodup)
    refine ⟨fun s hs hc => ?_, fun j (hj : j ∈ is) => ?_, hnodup⟩
    · rcases List.mem_or_eq_of_mem_set hs with hs | rfl
      · exact h.checked s hs hc
      · simp [SlotState.Checked] at hc
    · obtain ⟨b', hb'⟩ := h.queued j (by simp [hq, hj])
      exact ⟨b', (List.getElem?_set_ne (ne_of_mem_of_not_mem hj hnotin).symm).trans hb'⟩

theorem Forall.finish (h : p.Forall Q) (hb : Q b) : (p.finish b).Forall Q := by
  unfold Pool.finish
  cases p.queue with
  | nil => exact h
  | cons i is => exact h.set hb

/-! ### Changing the buffers -/

/-- Every buffer is changed in place, by a function that may look at its number. -/
def adjust (f : ℕ → β → β) (p : Pool β) : Pool β :=
  { p with slots := p.slots.mapIdx fun i s => { s with buf := f i s.buf } }

section Adjust

variable {f : ℕ → β → β}

theorem getElem?_adjust (f : ℕ → β → β) (p : Pool β) (i : ℕ) :
    (p.adjust f).slots[i]? = p.slots[i]?.map fun s => { s with buf := f i s.buf } := by
  simp [adjust]

@[simp] theorem adjust_streaming (f : ℕ → β → β) (p : Pool β) :
    (p.adjust f).streaming = p.streaming := rfl

theorem mem_adjust {s : Slot β} (hs : s ∈ (p.adjust f).slots) :
    ∃ t ∈ p.slots, ∃ i, s = { t with buf := f i t.buf } := by
  obtain ⟨i, hi⟩ := List.mem_iff_getElem?.mp hs
  rw [getElem?_adjust] at hi
  obtain ⟨t, ht, rfl⟩ := Option.map_eq_some_iff.mp hi
  exact ⟨t, List.mem_of_getElem? ht, i, rfl⟩

theorem Valid.adjust (h : p.Valid P) (hf : ∀ i b, P b → P (f i b)) : (p.adjust f).Valid P where
  checked s hs hc := by
    obtain ⟨t, ht, i, rfl⟩ := mem_adjust hs
    exact hf i _ (h.checked t ht hc)
  queued i hi := by
    obtain ⟨b, hb⟩ := h.queued i hi
    have hslot : p.slots[i]? = some ⟨.queued, b⟩ := hb
    exact ⟨f i b, by rw [Holds, getElem?_adjust, hslot]; rfl⟩
  nodup := h.nodup

theorem Forall.adjust (h : p.Forall Q) (hf : ∀ i b, Q b → Q (f i b)) : (p.adjust f).Forall Q := by
  intro s hs
  obtain ⟨t, ht, i, rfl⟩ := mem_adjust hs
  exact hf i _ (h t ht)

/-- A change of other slots than those in the queue is not seen in it. -/
theorem contents_adjust (hf : ∀ i ∈ p.queue, ∀ b, f i b = b) :
    (p.adjust f).contents = p.contents := by
  refine contents_congr rfl fun i hi => ?_
  rw [getElem?_adjust]
  cases p.slots[i]? with
  | none => rfl
  | some s => simp [hf i hi]

end Adjust

end RockchipVpu.Base.Pool
