import Strata.Proofs.Memory.Slots

/-!
# What the operations of the arena lead to

`Pool.Sound` is the invariant of an arena over its device: free slots are free, occupied slots have a
buffer of their own that is large enough. `Pool.Leads` is what every operation does
however it ends: the invariant stays, slots get later, and no block changes. `Pool.Quiet` says in
addition that the same handles are live, which is so for every operation but a successful allocation,
a release, and an invalidation.
-/

namespace Strata

variable {ν α : Type}

/-! ## Attempts -/

namespace Attempt

variable {ε σ ι β γ : Type}

theorem andThen_keeps {P : σ → Prop} {a : Attempt ε σ β} {f : β → σ → Attempt ε σ γ} (he : P a.2)
    (hf : ∀ v, a.1 = .ok v → P (f v a.2).2) : P (a.andThen f).2 := by
  obtain ⟨r, s⟩ := a
  cases r with
  | ok v => exact hf v rfl
  | error e => exact he

theorem each_keeps {P : σ → Prop} {step : σ → ι → Attempt ε σ Unit} :
    ∀ {l : List ι} {s : σ}, (∀ s, P s → ∀ i ∈ l, P (step s i).2) → P s → P (each step s l).2
  | [], _, _, hs => hs
  | i :: l, s, h, hs => by
    unfold each
    refine andThen_keeps (h s hs i (by simp)) fun _ _ => ?_
    exact each_keeps (fun s hs j hj => h s hs j (by simp [hj])) (h s hs i (by simp))

theorem endWith_snd (a : Attempt ε σ Unit) (r : Except ε β) : (a.endWith r).2 = a.2 := by
  obtain ⟨x, s⟩ := a
  cases x <;> rfl

theorem endWith_eq_ok {a : Attempt ε σ Unit} {r : Except ε β} {v : β} (h : (a.endWith r).1 = .ok v) :
    r = .ok v ∧ a.1 = .ok () := by
  obtain ⟨x, s⟩ := a
  cases x with
  | ok u => exact ⟨h, rfl⟩
  | error e => cases h

end Attempt

/-! ## The device -/

namespace Heap

/-- Blocks are added, and none of the old ones changes. -/
def Extends (heap heap' : Heap α) : Prop :=
  heap.size ≤ heap'.size ∧ ∀ id < heap.size, heap'.block id = heap.block id

theorem Extends.refl (heap : Heap α) : heap.Extends heap := ⟨Nat.le_refl _, fun _ _ => rfl⟩

theorem Extends.trans {h h' h'' : Heap α} (a : h.Extends h') (b : h'.Extends h'') : h.Extends h'' :=
  ⟨Nat.le_trans a.1 b.1, fun id hid => (b.2 id (Nat.lt_of_lt_of_le hid a.1)).trans (a.2 id hid)⟩

end Heap

namespace Device

/-- Only buffers, counts and the limit on allocations may differ, and faults may have been used up. -/
structure Steady (d d' : Device ν α) : Prop where
  faults : d'.faults ⊆ d.faults
  scopes : d'.scopes = d.scopes
  injected : d'.injected = d.injected
  held : d'.held = d.held
  refusesBuilds : d'.refusesBuilds = d.refusesBuilds
  gate : d'.gate = d.gate

theorem Steady.refl (d : Device ν α) : d.Steady d := ⟨List.Subset.refl _, rfl, rfl, rfl, rfl, rfl⟩

theorem Steady.setBuffers (d : Device ν α) (buffers : Heap α) : d.Steady { d with buffers } :=
  ⟨List.Subset.refl _, rfl, rfl, rfl, rfl, rfl⟩

theorem Steady.trans {d d' d'' : Device ν α} (h : d.Steady d') (h' : d'.Steady d'') : d.Steady d'' :=
  ⟨List.Subset.trans h'.faults h.faults, h'.scopes.trans h.scopes, h'.injected.trans h.injected,
    h'.held.trans h.held, h'.refusesBuilds.trans h.refusesBuilds, h'.gate.trans h.gate⟩

theorem takeFault_snd (d : Device ν α) (call : DeviceCall) :
    ∃ faults, (d.takeFault call).2 = { d with faults } ∧ faults ⊆ d.faults := by
  unfold takeFault
  split
  · exact ⟨d.faults, rfl, List.Subset.refl _⟩
  · exact ⟨_, rfl, List.eraseP_subset⟩

theorem takeFault_none {d d' : Device ν α} {call : DeviceCall} (h : d.takeFault call = (none, d')) : d' = d := by
  unfold takeFault at h
  split at h
  · cases h; rfl
  · cases h

/-- A call fails by its fault alone, or does what it does. -/
theorem call_snd (d : Device ν α) (which : DeviceCall) (f : Device ν α → Device ν α) :
    (d.call which f).2 = (d.takeFault which).2 ∨ (d.call which f).2 = f d := by
  unfold call
  split
  · rename_i heq
    exact .inl (congrArg Prod.snd heq).symm
  · rename_i heq
    exact .inr (congrArg f (takeFault_none heq))

theorem takeFault_some {d d' : Device ν α} {call : DeviceCall} {r : Raised} (h : d.takeFault call = (some r, d')) :
    (call, r) ∈ d.faults := by
  unfold takeFault at h
  split at h
  · cases h
  · rename_i heq
    cases h
    obtain ⟨l₁, l₂, hl, -⟩ := List.lookup_eq_some_iff.mp heq
    rw [hl]
    exact List.mem_append_right _ (List.mem_cons_self ..)

theorem call_error {d d' : Device ν α} {which : DeviceCall} {f : Device ν α → Device ν α} {r : Raised}
    (h : d.call which f = (.error r, d')) :
    (which, r) ∈ d.faults ∧ ∃ faults, d' = { d with faults } ∧ faults ⊆ d.faults := by
  obtain ⟨faults, hf, hs⟩ := takeFault_snd d which
  unfold call at h
  split at h
  · rename_i heq
    have hmem := takeFault_some heq
    rw [heq] at hf
    cases h
    exact ⟨hmem, faults, hf, hs⟩
  · cases h

theorem call_ok {d d' : Device ν α} {which : DeviceCall} {f : Device ν α → Device ν α} {u : Unit}
    (h : d.call which f = (.ok u, d')) : d' = f d := by
  unfold call at h
  split at h
  · cases h
  · rename_i heq
    obtain rfl := takeFault_none heq
    cases h; rfl

theorem createBuffer_error [Measure ν] {d d' : Device ν α} {label : String} {usage : Option Nat} {bytes : Nat}
    {r : Raised} (h : d.createBuffer label usage bytes = (.error r, d')) :
    ∃ faults, d' = { d with faults } ∧ faults ⊆ d.faults := by
  obtain ⟨faults, hf, hs⟩ := takeFault_snd d .createBuffer
  unfold createBuffer at h
  split at h
  · rename_i heq
    rw [heq] at hf
    cases h
    exact ⟨faults, hf, hs⟩
  · rename_i heq
    obtain rfl := takeFault_none heq
    split at h
    · cases h; exact ⟨_, rfl, List.Subset.refl _⟩
    · cases h

theorem createBuffer_ok [Measure ν] {d d' : Device ν α} {label : String} {usage : Option Nat} {bytes : Nat}
    {id : BufferId} (h : d.createBuffer label usage bytes = (.ok id, d')) :
    id = d.buffers.size ∧
      d' = { d with buffers := d.buffers.push ⟨label, usage, Block.zero bytes, false⟩ } := by
  unfold createBuffer at h
  split at h
  · cases h
  · rename_i heq
    obtain rfl := takeFault_none heq
    split at h
    · cases h
    · cases h; exact ⟨rfl, rfl⟩

end Device

namespace Heap

theorem extends_modify (heap : Heap α) (id : BufferId) (f : Buffer α → Buffer α)
    (hf : ∀ b, (f b).block = b.block) : heap.Extends (heap.modify id f) := by
  refine ⟨by simp, fun j _ => ?_⟩
  unfold block
  rw [Array.getElem?_modify]
  split
  · cases heap[j]? <;> simp [hf]
  · rfl

theorem extends_push (heap : Heap α) (b : Buffer α) : heap.Extends (heap.push b) := by
  refine ⟨by simp, fun j hj => ?_⟩
  unfold block
  rw [Array.getElem?_push_lt hj, Array.getElem?_eq_getElem hj]

end Heap

/-! ## The invariant -/

namespace Pool

structure Sound (p : Pool ν α) : Prop where
  nodup : p.arena.free.Nodup
  free : ∀ i ∈ p.arena.free, i < p.arena.slots.size ∧ (p.arena.slotAt i).occupancy = .free
  backed : ∀ i, (p.arena.slotAt i).occupancy ≠ .free → (p.arena.slotAt i).backing ≠ none
  buffer : ∀ i b, (p.arena.slotAt i).backing = some b →
    ∃ x, p.device.buffers[b.buffer]? = some x ∧ x.block.size = b.capacity
  alone : ∀ i j b c, (p.arena.slotAt i).backing = some b → (p.arena.slotAt j).backing = some c →
    b.buffer = c.buffer → i = j
  room : ∀ i c b, (p.arena.slotAt i).occupancy = .live c → (p.arena.slotAt i).backing = some b →
    c.size ≤ b.capacity

theorem Sound.start (options : ArenaOptions ν) (device : Device ν α) : Sound ⟨{ options }, device⟩ := by
  have hempty (i : Nat) : Arena.slotAt { options } i = .empty := Arena.slotAt_of_size_le _ (Nat.zero_le i)
  exact ⟨List.nodup_nil, fun i hi => absurd hi List.not_mem_nil, fun i hi =>
    absurd (congrArg Slot.occupancy (hempty i)) hi,
    fun i b hb => by rw [hempty] at hb; (cases hb), fun i j b c hb => by rw [hempty] at hb; (cases hb),
    fun i c b hc => by rw [hempty] at hc; (cases hc)⟩

/-- What is held depends on the device for the sizes of its buffers only. -/
theorem Sound.resize {p : Pool ν α} (hp : p.Sound) {device : Device ν α}
    (hlt : p.device.buffers.size ≤ device.buffers.size)
    (hb : ∀ id < p.device.buffers.size, (device.buffers.block id).size = (p.device.buffers.block id).size) :
    Sound { p with device } := by
  refine { hp with buffer := fun i b h => ?_ }
  obtain ⟨x, hx, hs⟩ := hp.buffer i b h
  obtain ⟨hid, -⟩ := Array.getElem?_eq_some_iff.mp hx
  obtain ⟨y, hy⟩ : ∃ y, device.buffers[b.buffer]? = some y :=
    ⟨_, Array.getElem?_eq_getElem (Nat.lt_of_lt_of_le hid hlt)⟩
  refine ⟨y, hy, ?_⟩
  have hsize := hb b.buffer hid
  unfold Heap.block at hsize
  rw [hx, hy] at hsize
  exact hsize.trans hs

theorem Sound.setDevice {p : Pool ν α} (hp : p.Sound) {device : Device ν α}
    (hb : device.buffers = p.device.buffers) : Sound { p with device } :=
  { hp with buffer := fun i b h => by rw [hb]; exact hp.buffer i b h }

/-- No buffer of a slot is destroyed, which is so as long as nobody but the arena destroys buffers. -/
def Intact (p : Pool ν α) : Prop := ∀ i b, (p.arena.slotAt i).backing = some b →
  ∀ x, p.device.buffers[b.buffer]? = some x → x.destroyed = false

structure Leads (p p' : Pool ν α) : Prop where
  sound : p'.Sound
  later : p.arena.Later p'.arena
  blocks : p.device.buffers.Extends p'.device.buffers
  options : p'.arena.options = p.arena.options
  device : p.device.Steady p'.device
  intact : p.Intact → p'.Intact

theorem Leads.refl {p : Pool ν α} (hp : p.Sound) : p.Leads p := ⟨hp, .refl _, .refl _, rfl, .refl _, id⟩

theorem Leads.trans {p p' p'' : Pool ν α} (h : p.Leads p') (h' : p'.Leads p'') : p.Leads p'' :=
  ⟨h'.sound, h.later.trans h'.later, h.blocks.trans h'.blocks, h'.options.trans h.options,
    h.device.trans h'.device, h'.intact ∘ h.intact⟩

structure Quiet (p p' : Pool ν α) : Prop extends p.Leads p' where
  contains : p'.arena.contains = p.arena.contains

theorem Quiet.refl {p : Pool ν α} (hp : p.Sound) : p.Quiet p := ⟨.refl hp, rfl⟩

theorem Quiet.trans {p p' p'' : Pool ν α} (h : p.Quiet p') (h' : p'.Quiet p'') : p.Quiet p'' :=
  ⟨h.toLeads.trans h'.toLeads, h'.contains.trans h.contains⟩

theorem Sound.setFaults {p : Pool ν α} (hp : p.Sound) {faults : List (DeviceCall × Raised)}
    (hf : faults ⊆ p.device.faults) : p.Quiet { p with device := { p.device with faults } } :=
  ⟨⟨{ hp with }, .refl _, .refl _, rfl, ⟨hf, rfl, rfl, rfl, rfl, rfl⟩, id⟩, rfl⟩

/-- A change of one slot that keeps the buffer it has. -/
theorem Sound.modifySlot {p : Pool ν α} (hp : p.Sound) {i : Nat} {f : Slot ν → Slot ν}
    (hl : (p.arena.slotAt i).Later (f (p.arena.slotAt i)))
    (hb : (f (p.arena.slotAt i)).backing = (p.arena.slotAt i).backing)
    (hfree : i ∈ p.arena.free → (f (p.arena.slotAt i)).occupancy = .free)
    (hocc : (f (p.arena.slotAt i)).occupancy ≠ .free → (p.arena.slotAt i).backing ≠ none)
    (hroom : ∀ c b, (f (p.arena.slotAt i)).occupancy = .live c → (p.arena.slotAt i).backing = some b →
      c.size ≤ b.capacity) :
    p.Leads { p with arena := p.arena.modifySlot i f } := by
  have hback := p.arena.backing_modifySlot hb
  refine ⟨⟨hp.nodup, fun j hj => ?_, fun j hj => ?_, fun j b hj => ?_, fun j k b c hj hk => ?_,
    fun j c b hc hj => ?_⟩, Arena.later_modifySlot hl, .refl _, rfl, .refl _,
    fun hi j b hj => hi j b (hback j ▸ hj)⟩
  · obtain ⟨hlt, ho⟩ := hp.free j hj
    refine ⟨by simpa using hlt, ?_⟩
    simp only [Arena.slotAt_modifySlot]
    split
    · rename_i hij; obtain ⟨rfl, -⟩ := hij; exact hfree hj
    · exact ho
  · simp only [hback] at hj ⊢
    rw [Arena.slotAt_modifySlot] at hj
    split at hj
    · rename_i hij; obtain ⟨rfl, -⟩ := hij; exact hocc hj
    · exact hp.backed j hj
  · rw [hback] at hj; exact hp.buffer j b hj
  · rw [hback] at hj hk; exact hp.alone j k b c hj hk
  · simp only [hback] at hj
    rw [Arena.slotAt_modifySlot] at hc
    split at hc
    · rename_i hij; obtain ⟨rfl, -⟩ := hij; exact hroom c b hc hj
    · exact hp.room j c b hc hj

theorem Sound.resolve_of_contains {p : Pool ν α} (hp : p.Sound) {h : Handle} (hc : p.arena.contains h = true) :
    ∃ ref, p.arena.resolve h = .ok ref := by
  obtain ⟨i, rfl, hl⟩ := Arena.contains_iff.mp hc
  obtain ⟨c, ho⟩ := Slot.isLive_iff.mp hl
  obtain ⟨b, hb⟩ := Option.ne_none_iff_exists'.mp (hp.backed i (Slot.occupied_of_isLive hl))
  exact ⟨_, Arena.resolve_eq_ok.mpr ⟨i, Arena.locate_eq_ok.mpr ⟨rfl, c, b, ho, hb, rfl⟩⟩⟩

/-! ## Buffers come and go -/

/-- A slot loses its buffer, which is destroyed; `g` is what becomes of the slot. -/
theorem Sound.destroy {p : Pool ν α} (hp : p.Sound) {i : Nat} {b : Backing} {g : Slot ν → Slot ν}
    (hb : (p.arena.slotAt i).backing = some b)
    (hl : (p.arena.slotAt i).Later (g (p.arena.slotAt i)))
    (hg : (g (p.arena.slotAt i)).backing = none) (ho : (g (p.arena.slotAt i)).occupancy = .free) :
    p.Leads ⟨p.arena.modifySlot i g,
      { p.device with buffers := p.device.buffers.modify b.buffer fun x => { x with destroyed := true } }⟩ := by
  have other {j : Nat} {c : Backing} (h : ((p.arena.modifySlot i g).slotAt j).backing = some c) :
      i ≠ j ∧ (p.arena.slotAt j).backing = some c := by
    by_cases hij : i = j
    · subst hij
      rw [Arena.slotAt_modifySlot] at h
      split at h
      · rw [hg] at h; cases h
      · rename_i hlt
        have hlt : p.arena.slots.size ≤ i := by omega
        rw [Arena.slotAt_of_size_le _ hlt] at h
        cases h
    · rw [Arena.slotAt_modifySlot_of_ne _ hij] at h
      exact ⟨hij, h⟩
  -- a buffer belongs to one slot, so that no other slot loses its own
  refine ⟨⟨hp.nodup, fun j hj => ?_, fun j hj => ?_, fun j c hj => ?_, fun j k c e hj hk => ?_,
    fun j c e hc hj => ?_⟩, Arena.later_modifySlot hl, Heap.extends_modify _ _ _ fun _ => rfl, rfl,
    .setBuffers _ _, fun hi j c hj x hx => ?_⟩
  · obtain ⟨hlt, hfree⟩ := hp.free j hj
    refine ⟨by simpa using hlt, ?_⟩
    simp only [Arena.slotAt_modifySlot]
    split
    · rename_i hij; obtain ⟨rfl, -⟩ := hij; exact ho
    · exact hfree
  · simp only [Arena.slotAt_modifySlot] at hj ⊢
    split at hj
    · rename_i hij; obtain ⟨rfl, -⟩ := hij; exact absurd ho hj
    · rename_i hij; rw [if_neg hij]; exact hp.backed j hj
  · obtain ⟨hij, hc⟩ := other hj
    obtain ⟨x, hx, hs⟩ := hp.buffer j c hc
    have hne : b.buffer ≠ c.buffer := fun e => hij (hp.alone i j b c hb hc e)
    exact ⟨x, by simp only [Array.getElem?_modify, if_neg hne]; exact hx, hs⟩
  · exact hp.alone j k c e (other hj).2 (other hk).2
  · obtain ⟨hij, he⟩ := other hj
    rw [Arena.slotAt_modifySlot_of_ne _ hij] at hc
    exact hp.room j c e hc he
  · obtain ⟨hij, hc⟩ := other hj
    have hne : b.buffer ≠ c.buffer := fun e => hij (hp.alone i j b c hb hc e)
    simp only [Array.getElem?_modify, if_neg hne] at hx
    exact hi j c hc x hx

theorem destroyBacking_quiet {p : Pool ν α} (hp : p.Sound) {i : Nat}
    (hi : (p.arena.slotAt i).occupancy = .free) : p.Quiet (p.destroyBacking i).2 := by
  unfold destroyBacking
  split
  · exact .refl hp
  · rename_i b hb
    split
    · rename_i heq
      obtain ⟨-, faults, rfl, hf⟩ := Device.call_error heq
      exact hp.setFaults hf
    · rename_i heq
      obtain rfl := Device.call_ok heq
      refine ⟨hp.destroy hb (.of_free hi (Nat.le_refl _)) rfl hi, Arena.contains_congr (fun j => ?_) fun j _ => ?_⟩
      · rw [Arena.slotAt_modifySlot]; split <;> rfl
      · rw [Arena.slotAt_modifySlot]; split <;> rfl

theorem Sound.recount {p : Pool ν α} (hp : p.Sound) (allocated : Nat) :
    p.Quiet { p with arena := { p.arena with allocated } } :=
  ⟨⟨{ hp with }, .refl _, .refl _, rfl, .refl _, id⟩, rfl⟩

theorem dropBacking_quiet {p : Pool ν α} (hp : p.Sound) {i : Nat}
    (hi : (p.arena.slotAt i).occupancy = .free) : p.Quiet (p.dropBacking i).2 := by
  have h := destroyBacking_quiet hp hi
  unfold dropBacking
  exact Attempt.andThen_keeps h fun _ _ => h.trans (h.sound.recount _)

theorem destroyBacking_occupancy (p : Pool ν α) (i j : Nat) :
    ((p.destroyBacking i).2.arena.slotAt j).occupancy = (p.arena.slotAt j).occupancy := by
  unfold destroyBacking
  split
  · rfl
  · split
    · rfl
    · rw [Arena.slotAt_modifySlot]; split <;> rfl

theorem dropBacking_occupancy (p : Pool ν α) (i j : Nat) :
    ((p.dropBacking i).2.arena.slotAt j).occupancy = (p.arena.slotAt j).occupancy := by
  unfold dropBacking
  exact Attempt.andThen_keeps (P := fun p' : Pool ν α =>
    (p'.arena.slotAt j).occupancy = (p.arena.slotAt j).occupancy)
    (destroyBacking_occupancy p i j) fun _ _ => destroyBacking_occupancy p i j

theorem trim_quiet {p : Pool ν α} (hp : p.Sound) : p.Quiet p.trim.2 := by
  unfold trim
  refine (Attempt.each_keeps (P := fun p' => p.Quiet p' ∧
    ∀ j ∈ p.arena.free, (p'.arena.slotAt j).occupancy = .free) ?_ ⟨.refl hp, fun j hj => (hp.free j hj).2⟩).1
  rintro p' ⟨hq, hf⟩ i hi
  refine ⟨hq.trans (dropBacking_quiet hq.sound (hf i hi)), fun j hj => ?_⟩
  rw [dropBacking_occupancy]
  exact hf j hj

section
variable [Measure ν]

theorem ensureBudget_quiet {p : Pool ν α} (hp : p.Sound) (bytes : Nat) : p.Quiet (p.ensureBudget bytes).2 := by
  have h := trim_quiet hp
  unfold ensureBudget
  split
  · exact .refl hp
  · split
    · exact .refl hp
    · refine Attempt.andThen_keeps h fun _ _ => ?_
      split <;> exact h

end

/-! ## A slot for an allocation -/

/-- A free slot that is off the list of free ones and has a buffer for a request. -/
structure Taken (p : Pool ν α) (usage : SlotUsage) (bytes i : Nat) : Prop where
  lt : i < p.arena.slots.size
  free : (p.arena.slotAt i).occupancy = .free
  off : i ∉ p.arena.free
  fits : ∃ b, (p.arena.slotAt i).backing = some b ∧ bytes ≤ b.capacity ∧ b.usage = usage

/-- The slot for a new buffer is free and has none; no slot is changed. -/
theorem vacancy_spec {p : Pool ν α} (hp : p.Sound) {i : Nat} {a : Arena ν} (h : p.arena.vacancy = (i, a)) :
    p.Quiet { p with arena := a } ∧ i < a.slots.size ∧ (a.slotAt i).occupancy = .free ∧
      (a.slotAt i).backing = none ∧ i ∉ a.free := by
  unfold Arena.vacancy at h
  split at h
  · rename_i j hj
    cases h
    have hmem := List.mem_of_find?_eq_some hj
    have hnone := List.find?_some hj
    obtain ⟨hlt, hf⟩ := hp.free i hmem
    refine ⟨⟨⟨{ hp with nodup := hp.nodup.erase i, free := fun k hk => hp.free k (List.mem_of_mem_erase hk) },
      .refl _, .refl _, rfl, .refl _, id⟩, rfl⟩, hlt, hf, Option.isNone_iff_eq_none.mp hnone, fun hk => ?_⟩
    exact (List.Nodup.mem_erase_iff hp.nodup).mp hk |>.1 rfl
  · cases h
    have hslot := p.arena.slotAt_push_empty
    have hnew : Arena.slotAt { p.arena with slots := p.arena.slots.push .empty } p.arena.slots.size = .empty := by
      rw [hslot, Arena.slotAt_of_size_le _ (Nat.le_refl _)]
    refine ⟨⟨⟨⟨hp.nodup, fun k hk => ?_, ?_, ?_, ?_, ?_⟩, Arena.later_of_slotAt_eq hslot, .refl _, rfl,
      .refl _, fun hi j b hb => hi j b (hslot j ▸ hb)⟩, Arena.contains_congr (fun j => ?_) fun j _ => ?_⟩,
      by simp, by rw [hnew]; rfl, by rw [hnew]; rfl, fun hk => ?_⟩
    · obtain ⟨hlt, hf⟩ := hp.free k hk
      exact ⟨by simp only [Array.size_push]; omega, by rw [hslot]; exact hf⟩
    · intro j; simp only [hslot]; exact hp.backed j
    · intro j b; simp only [hslot]; exact hp.buffer j b
    · intro j k b c; simp only [hslot]; exact hp.alone j k b c
    · intro j c b; simp only [hslot]; exact hp.room j c b
    · rw [hslot]
    · rw [hslot]
    · exact absurd (hp.free _ hk).1 (Nat.lt_irrefl _)

theorem Sound.create {p : Pool ν α} (hp : p.Sound) {i : Nat} (bytes : Nat) (label : String) (flags : Option Nat)
    (usage : SlotUsage) (hi : (p.arena.slotAt i).occupancy = .free) (hb : (p.arena.slotAt i).backing = none) :
    p.Quiet ⟨p.arena.modifySlot i fun slot => { slot with backing := some ⟨p.device.buffers.size, bytes, usage⟩ },
      { p.device with buffers := p.device.buffers.push ⟨label, flags, Block.zero bytes, false⟩ }⟩ := by
  have hsome (j : Nat) (c : Backing) (h : ((p.arena.modifySlot i fun slot =>
      { slot with backing := some ⟨p.device.buffers.size, bytes, usage⟩ }).slotAt j).backing = some c) :
      j = i ∧ c = ⟨p.device.buffers.size, bytes, usage⟩ ∨ j ≠ i ∧ (p.arena.slotAt j).backing = some c := by
    rw [Arena.slotAt_modifySlot] at h
    by_cases hj : j = i
    · split at h
      · cases h; exact .inl ⟨hj, rfl⟩
      · rw [hj, hb] at h; cases h
    · rw [if_neg fun hc => hj hc.1.symm] at h
      exact .inr ⟨hj, h⟩
  -- old buffers lie below the size, so none is the new one
  have hold {j : Nat} {c : Backing} (h : (p.arena.slotAt j).backing = some c) :
      c.buffer < p.device.buffers.size := by
    obtain ⟨x, hx, -⟩ := hp.buffer j c h
    exact (Array.getElem?_eq_some_iff.mp hx).1
  have hocc (j : Nat) : ((p.arena.modifySlot i fun slot =>
      { slot with backing := some ⟨p.device.buffers.size, bytes, usage⟩ }).slotAt j).occupancy =
      (p.arena.slotAt j).occupancy := by
    rw [Arena.slotAt_modifySlot]; split <;> rfl
  refine ⟨⟨⟨hp.nodup, fun j hj => ?_, fun j hj => ?_, fun j c hj => ?_, fun j k c e hj hk he => ?_,
    fun j c e hc hj => ?_⟩, Arena.later_modifySlot (.of_free hi (Nat.le_refl _)), Heap.extends_push _ _, rfl,
    .setBuffers _ _, fun hin j c hj x hx => ?_⟩, Arena.contains_congr (fun j => by unfold Slot.isLive; rw [hocc])
      fun j _ => ?_⟩
  · obtain ⟨hlt, hf⟩ := hp.free j hj
    exact ⟨by simpa using hlt, by simp only [hocc]; exact hf⟩
  · simp only [hocc] at hj
    simp only [Arena.slotAt_modifySlot]
    split
    · simp
    · exact hp.backed j hj
  · rcases hsome j c hj with ⟨-, rfl⟩ | ⟨-, hc⟩
    · exact ⟨⟨label, flags, Block.zero bytes, false⟩, Array.getElem?_push_size, rfl⟩
    · obtain ⟨x, hx, hs⟩ := hp.buffer j c hc
      exact ⟨x, by simp only [Array.getElem?_push_lt (hold hc)]; rw [← hx, Array.getElem?_eq_getElem (hold hc)], hs⟩
  · rcases hsome j c hj with ⟨rfl, rfl⟩ | ⟨-, hc⟩
    · rcases hsome k e hk with ⟨rfl, -⟩ | ⟨-, hc'⟩
      · rfl
      · exact absurd (he ▸ hold hc') (Nat.lt_irrefl _)
    · rcases hsome k e hk with ⟨rfl, rfl⟩ | ⟨-, hc'⟩
      · exact absurd (he ▸ hold hc) (Nat.lt_irrefl _)
      · exact hp.alone j k c e hc hc' he
  · simp only [hocc] at hc
    rcases hsome j e hj with ⟨rfl, -⟩ | ⟨-, he⟩
    · rw [hi] at hc; cases hc
    · exact hp.room j c e hc he
  · rcases hsome j c hj with ⟨-, rfl⟩ | ⟨-, hc⟩
    · simp only [Array.getElem?_push_size] at hx
      cases hx; rfl
    · simp only [Array.getElem?_push_lt (hold hc)] at hx
      exact hin j c hc x (by rw [Array.getElem?_eq_getElem (hold hc)]; exact hx)
  · rw [Arena.slotAt_modifySlot]; split <;> rfl

theorem Sound.addFree {p : Pool ν α} (hp : p.Sound) {i : Nat} (hlt : i < p.arena.slots.size)
    (hi : (p.arena.slotAt i).occupancy = .free) (hoff : i ∉ p.arena.free) :
    p.Quiet { p with arena := { p.arena with free := p.arena.free ++ [i] } } := by
  refine ⟨⟨{ hp with nodup := ?_, free := ?_ }, .refl _, .refl _, rfl, .refl _, id⟩, rfl⟩
  · refine List.nodup_append.mpr ⟨hp.nodup, by simp, fun x hx y hy => ?_⟩
    rw [List.mem_singleton] at hy
    subst hy
    exact fun e => hoff (e ▸ hx)
  · intro j hj
    rcases List.mem_append.mp hj with hj | hj
    · exact hp.free j hj
    · rw [List.mem_singleton] at hj
      subst hj
      exact ⟨hlt, hi⟩

section
variable [Measure ν]

theorem createSlot_spec {p : Pool ν α} (hp : p.Sound) (usage : SlotUsage) (bytes : Nat) :
    p.Quiet (p.createSlot usage bytes).2 ∧
      ∀ i, (p.createSlot usage bytes).1 = .ok i → Taken (p.createSlot usage bytes).2 usage bytes i := by
  have hq := ensureBudget_quiet hp bytes
  unfold createSlot Attempt.andThen
  generalize p.ensureBudget bytes = r at hq
  obtain ⟨r, p'⟩ := r
  cases r with
  | error failure => exact ⟨hq, by simp⟩
  | ok u =>
    generalize hv : p'.arena.vacancy = v
    obtain ⟨i, a⟩ := v
    obtain ⟨hq', hlt, hfree, hnone, hoff⟩ := vacancy_spec hq.sound hv
    simp only [hv]
    split
    · rename_i heq
      obtain ⟨faults, rfl, hf⟩ := Device.createBuffer_error heq
      have hq'' := hq'.trans (hq'.sound.setFaults hf)
      exact ⟨(hq.trans hq'').trans (hq''.sound.addFree hlt hfree hoff), by simp⟩
    · rename_i id device heq
      obtain ⟨rfl, rfl⟩ := Device.createBuffer_ok heq
      have hq'' := hq'.trans (hq'.sound.create bytes s!"{a.options.label} slot {i} ({usage.name})" usage.flags?
        usage hfree hnone)
      refine ⟨(hq.trans hq'').trans (hq''.sound.recount _), fun j hj => ?_⟩
      cases hj
      refine ⟨by simpa using hlt, ?_, hoff, ⟨p'.device.buffers.size, bytes, usage⟩, ?_, Nat.le_refl _, rfl⟩
      · exact (congrArg Slot.occupancy (Arena.slotAt_modifySlot_self a hlt _)).trans hfree
      · exact congrArg Slot.backing (Arena.slotAt_modifySlot_self a hlt _)

theorem mem_of_foldl_choice {choose : Option Nat → Nat → Option Nat}
    (hc : ∀ best j, choose best j = some j ∨ choose best j = best) {l : List Nat} {best : Option Nat} {i : Nat}
    (h : l.foldl choose best = some i) : i ∈ l ∨ best = some i := by
  induction l generalizing best with
  | nil => exact .inr h
  | cons j l ih =>
    rcases ih h with h | h
    · exact .inl (List.mem_cons_of_mem _ h)
    · rcases hc best j with hj | hj
      · rw [hj] at h
        cases h
        exact .inl (List.mem_cons_self ..)
      · exact .inr (hj.symm.trans h)

omit [Measure ν] in
theorem bestFit_mem {a : Arena ν} {usage : SlotUsage} {bytes i : Nat} (h : a.bestFit? usage bytes = some i) :
    i ∈ a.free ∧ a.fits usage bytes i = true := by
  unfold Arena.bestFit? at h
  rcases mem_of_foldl_choice (fun best j => by
    split
    · exact .inl rfl
    · split
      · exact .inl rfl
      · exact .inr rfl) h with h | h
  · exact List.mem_filter.mp h
  · cases h

theorem takeSlot_spec {p : Pool ν α} (hp : p.Sound) (usage : SlotUsage) (bytes : Nat) :
    p.Quiet (p.takeSlot usage bytes).2 ∧
      ∀ i, (p.takeSlot usage bytes).1 = .ok i → Taken (p.takeSlot usage bytes).2 usage bytes i := by
  unfold takeSlot
  split
  · rename_i i hi
    obtain ⟨hmem, hfits⟩ := bestFit_mem hi
    obtain ⟨hlt, hfree⟩ := hp.free i hmem
    refine ⟨⟨⟨{ hp with nodup := hp.nodup.erase i, free := fun k hk => hp.free k (List.mem_of_mem_erase hk) },
      .refl _, .refl _, rfl, .refl _, id⟩, rfl⟩, fun j hj => ?_⟩
    cases hj
    refine ⟨hlt, hfree, fun hk => (List.Nodup.mem_erase_iff hp.nodup).mp hk |>.1 rfl, ?_⟩
    unfold Arena.fits at hfits
    split at hfits
    · rename_i b hb
      simp only [Bool.and_eq_true, beq_iff_eq, decide_eq_true_eq] at hfits
      exact ⟨b, hb, hfits.2, hfits.1⟩
    · cases hfits
  · exact createSlot_spec hp usage bytes

omit [Measure ν] in
/-- A slot that was taken is occupied: its handle was never issued before, and is the only one that
becomes live. -/
theorem Taken.occupy {p : Pool ν α} (hp : p.Sound) {usage : SlotUsage} {bytes i : Nat} (ht : Taken p usage bytes i)
    (format : SlotFormat ν) :
    p.Leads { p with arena := p.arena.occupy i format bytes } ∧
      ¬ p.arena.Issued (p.arena.handleAt i) ∧
      (∀ h, (p.arena.occupy i format bytes).contains h = true ↔ p.arena.contains h = true ∨
        h = p.arena.handleAt i) ∧
      ∃ b, (p.arena.occupy i format bytes).resolve (p.arena.handleAt i) =
        .ok ⟨p.arena.handleAt i, b, format, bytes⟩ := by
  obtain ⟨b, hb, hcap, -⟩ := ht.fits
  have hself : (p.arena.occupy i format bytes).slotAt i =
      { p.arena.slotAt i with occupancy := .live ⟨format, bytes, 0⟩ } :=
    Arena.slotAt_modifySlot_self _ ht.lt _
  have hother {j : Nat} (h : i ≠ j) : (p.arena.occupy i format bytes).slotAt j = p.arena.slotAt j :=
    Arena.slotAt_modifySlot_of_ne _ h _
  have hhandle : (p.arena.occupy i format bytes).handleAt i = p.arena.handleAt i := by
    simp [Arena.handleAt, hself]
  refine ⟨hp.modifySlot (.of_free ht.free (Nat.le_refl _)) rfl (fun h => absurd h ht.off) (fun _ => by simp [hb])
    fun c b' hc hb' => ?_, ?_, fun h => ?_, b.buffer, ?_⟩
  · rw [hb] at hb'; cases hb'; cases hc; exact hcap
  · rintro ⟨j, g, hj, hg⟩
    simp only [Arena.handleAt, Handle.mk.injEq, Ident.number.injEq] at hj
    obtain ⟨rfl, rfl⟩ := hj
    rcases hg with hg | ⟨-, hg⟩
    · exact Nat.lt_irrefl _ hg
    · exact hg ht.free
  · rw [Arena.contains_iff, Arena.contains_iff]
    constructor
    · rintro ⟨j, rfl, hl⟩
      by_cases hj : i = j
      · subst hj; exact .inr hhandle
      · rw [hother hj] at hl
        exact .inl ⟨j, by simp [Arena.handleAt, hother hj], hl⟩
    · rintro (⟨j, rfl, hl⟩ | rfl)
      · have hj : i ≠ j := fun e => Slot.occupied_of_isLive hl (e ▸ ht.free)
        exact ⟨j, by simp [Arena.handleAt, hother hj], by rw [hother hj]; exact hl⟩
      · exact ⟨i, hhandle.symm, by rw [hself]; rfl⟩
  · refine Arena.resolve_eq_ok.mpr ⟨i, Arena.locate_eq_ok.mpr ⟨hhandle.symm, ⟨format, bytes, 0⟩, b, ?_, ?_, rfl⟩⟩
    · rw [hself]
    · rw [hself]; exact hb

/-- What a successful allocation of a handle leads to. -/
structure Allocated (p : Pool ν α) (h : Handle) (format : SlotFormat ν) (bytes : Nat) (p' : Pool ν α) : Prop
    extends p.Leads p' where
  fresh : ¬ p.arena.Issued h
  contains : ∀ k, p'.arena.contains k = true ↔ p.arena.contains k = true ∨ k = h
  resolves : ∃ b, p'.arena.resolve h = .ok ⟨h, b, format, bytes⟩

/-- Only a successful allocation makes a handle live. -/
theorem allocate_spec {p : Pool ν α} (hp : p.Sound) (format : SlotFormat ν) (size : ν) :
    (∀ e, (p.allocate format size).1 = .error e → p.Quiet (p.allocate format size).2) ∧
      ∀ h, (p.allocate format size).1 = .ok h → ∃ bytes, Measure.wholeWords? size = some bytes ∧
        p.Allocated h format bytes (p.allocate format size).2 := by
  unfold allocate
  cases p.arena.checkOpen with
  | error failure => exact ⟨fun _ _ => .refl hp, fun _ h => by cases h⟩
  | ok u =>
    cases hw : Measure.wholeWords? size with
    | none => exact ⟨fun _ _ => .refl hp, fun _ h => by cases h⟩
    | some bytes =>
      obtain ⟨hq, ht⟩ := takeSlot_spec hp format.usage bytes
      simp only [Attempt.andThen]
      generalize p.takeSlot format.usage bytes = r at hq ht
      obtain ⟨r, p'⟩ := r
      cases r with
      | error failure => exact ⟨fun _ _ => hq, fun _ h => by cases h⟩
      | ok i =>
        obtain ⟨hl, hfresh, hc, hr⟩ := (ht i rfl).occupy hq.sound format
        refine ⟨fun e h => by (cases h), fun h heq => ?_⟩
        cases heq
        refine ⟨bytes, rfl, ⟨hq.toLeads.trans hl, fun h => hfresh (h.later hq.later), fun k => ?_, hr⟩⟩
        rw [hc k, hq.contains]

end

/-! ## Giving a slot up -/

theorem destroyBacking_free (p : Pool ν α) (i : Nat) :
    (p.destroyBacking i).2.arena.free = p.arena.free ∧
      (p.destroyBacking i).2.arena.slots.size = p.arena.slots.size := by
  unfold destroyBacking
  split
  · exact ⟨rfl, rfl⟩
  · split
    · exact ⟨rfl, rfl⟩
    · exact ⟨rfl, Arena.size_modifySlot ..⟩

theorem dropBacking_free (p : Pool ν α) (i : Nat) :
    (p.dropBacking i).2.arena.free = p.arena.free ∧
      (p.dropBacking i).2.arena.slots.size = p.arena.slots.size := by
  unfold dropBacking
  exact Attempt.andThen_keeps (P := fun p' : Pool ν α => p'.arena.free = p.arena.free ∧
    p'.arena.slots.size = p.arena.slots.size) (destroyBacking_free p i) fun _ _ => destroyBacking_free p i

/-- The device destroys the buffers it is asked to destroy. -/
def Destroys (p : Pool ν α) : Prop := ∀ r, (DeviceCall.destroyBuffer, r) ∉ p.device.faults

theorem Leads.destroys {p p' : Pool ν α} (h : p.Leads p') (hd : p.Destroys) : p'.Destroys :=
  fun r hr => hd r (h.device.faults hr)

theorem destroyBacking_ok {p : Pool ν α} (hd : p.Destroys) (i : Nat) : (p.destroyBacking i).1 = .ok () := by
  unfold destroyBacking
  split
  · rfl
  · split
    · rename_i heq
      exact absurd (Device.call_error heq).1 (hd _)
    · rfl

theorem dropBacking_ok {p : Pool ν α} (hd : p.Destroys) (i : Nat) : (p.dropBacking i).1 = .ok () := by
  have h := destroyBacking_ok hd i
  unfold dropBacking Attempt.andThen
  generalize p.destroyBacking i = r at h
  obtain ⟨r, p'⟩ := r
  cases h
  rfl

section
variable [Measure ν]

/-- A slot that is given up can be freed: no live handle is affected. -/
theorem reclaim_spec {p : Pool ν α} (hp : p.Sound) {i : Nat} (hlt : i < p.arena.slots.size)
    (hl : (p.arena.slotAt i).isLive = false) (hoff : i ∉ p.arena.free) :
    p.Quiet (p.reclaim i).2 ∧ (p.Destroys → (p.reclaim i).1 = .ok ()) := by
  have hself : (p.arena.modifySlot i fun slot =>
      { slot with generation := slot.generation + 1, occupancy := .free }).slotAt i =
      { p.arena.slotAt i with generation := (p.arena.slotAt i).generation + 1, occupancy := .free } :=
    Arena.slotAt_modifySlot_self _ hlt _
  have hq : p.Quiet { p with arena := p.arena.modifySlot i fun slot =>
      { slot with generation := slot.generation + 1, occupancy := .free } } := by
    refine ⟨hp.modifySlot (.of_lt (Nat.lt_succ_self _)) rfl (fun _ => rfl) (fun h => absurd rfl h)
      (fun c b h => by cases h), Arena.contains_congr (fun j => ?_) fun j hj => ?_⟩
    · by_cases hij : i = j
      · subst hij; rw [hl, hself]; rfl
      · rw [Arena.slotAt_modifySlot_of_ne _ hij]
    · have hij : i ≠ j := fun e => by rw [← e, hl] at hj; cases hj
      rw [Arena.slotAt_modifySlot_of_ne _ hij]
  have hfree : ((p.arena.modifySlot i fun slot =>
      { slot with generation := slot.generation + 1, occupancy := .free }).slotAt i).occupancy = .free := by
    rw [hself]
  -- whether or not the buffer is dropped, the slot ends on the list
  have back {p' : Pool ν α} (hq' : p.Quiet p') (hs : p'.arena.slots.size = p.arena.slots.size)
      (hf : p'.arena.free = p.arena.free) (ho : (p'.arena.slotAt i).occupancy = .free) :
      p.Quiet { p' with arena := { p'.arena with free := p'.arena.free ++ [i] } } :=
    hq'.trans (hq'.sound.addFree (hs ▸ hlt) ho (hf ▸ hoff))
  unfold reclaim
  dsimp only
  split
  · have hq' := hq.trans (dropBacking_quiet hq.sound hfree)
    obtain ⟨hf, hs⟩ := dropBacking_free { p with arena := p.arena.modifySlot i fun slot =>
      { slot with generation := slot.generation + 1, occupancy := .free } } i
    refine ⟨Attempt.andThen_keeps hq' fun _ _ => back hq' (hs.trans (Arena.size_modifySlot ..)) hf
      ((dropBacking_occupancy ..).trans hfree), fun hd => ?_⟩
    have hok := dropBacking_ok (hq.toLeads.destroys hd) i
    unfold Attempt.andThen
    split
    · rfl
    · rename_i heq
      rw [heq] at hok
      cases hok
  · exact ⟨back hq (Arena.size_modifySlot ..) rfl hfree, fun _ => rfl⟩

theorem reclaimSpent_spec {p : Pool ν α} (hp : p.Sound) (i : Nat) :
    p.Quiet (p.reclaimSpent i).2 ∧ (p.Destroys → (p.reclaimSpent i).1 = .ok ()) := by
  unfold reclaimSpent
  split
  · rename_i hs
    obtain ⟨c, hc⟩ : ∃ c, (p.arena.slotAt i).occupancy = .released c := by
      unfold Arena.isSpent at hs
      split at hs
      · exact ⟨_, ‹_›⟩
      · cases hs
    have ho : (p.arena.slotAt i).occupancy ≠ .free := by simp [hc]
    refine reclaim_spec hp (Arena.lt_size_of_occupied ho) (by simp [Slot.isLive, hc]) fun hi => ?_
    exact ho (hp.free i hi).2
  · exact ⟨.refl hp, fun _ => rfl⟩

omit [Measure ν] in
/-- Counting references changes neither what is live nor what a slot was declared to hold. -/
theorem Sound.recountRefs {p : Pool ν α} (hp : p.Sound) (i : Nat) (count : Nat → Nat) :
    p.Quiet { p with arena := p.arena.modifySlot i fun slot => match slot.occupancy with
      | .live c => { slot with occupancy := .live { c with refs := count c.refs } }
      | .released c => { slot with occupancy := .released { c with refs := count c.refs } }
      | .free => slot } := by
  refine ⟨hp.modifySlot ⟨?_, ?_, ?_⟩ ?_ ?_ ?_ ?_, Arena.contains_congr (fun j => ?_) fun j _ => ?_⟩
  · split <;> exact Nat.le_refl _
  · intro _ ho
    split
    · exact ⟨by simp, rfl⟩
    · exact ⟨by simp, rfl⟩
    · exact absurd ‹_› ho
  · intro _ _ _
    unfold Slot.declared
    cases h : (p.arena.slotAt i).occupancy <;> simp [h]
  · split <;> rfl
  · intro hi
    have hf := (hp.free i hi).2
    rw [hf]
    exact hf
  · intro ho
    refine hp.backed i fun h => ho ?_
    rw [h]
    exact h
  · intro c b hc hb
    cases h : (p.arena.slotAt i).occupancy with
    | live c' =>
      rw [h] at hc
      cases hc
      exact hp.room i c' b h hb
    | released c' => rw [h] at hc; cases hc
    | free => rw [h] at hc; rw [h] at hc; cases hc
  · rw [Arena.slotAt_modifySlot]
    split
    · unfold Slot.isLive
      cases h : (p.arena.slotAt j).occupancy <;> simp [h]
    · rfl
  · rw [Arena.slotAt_modifySlot]
    split
    · split <;> rfl
    · rfl

theorem relinquish_spec {p : Pool ν α} (hp : p.Sound) (h : Handle) : p.Quiet (p.relinquish h).2 := by
  unfold relinquish
  split
  · exact .refl hp
  · rename_i i _
    have hq := hp.recountRefs i (· - 1)
    exact hq.trans (reclaimSpent_spec hq.sound i).1

theorem relinquish_ok {p : Pool ν α} (hp : p.Sound) (hd : p.Destroys) (h : Handle) :
    (p.relinquish h).1 = .ok () := by
  unfold relinquish
  split
  · rfl
  · rename_i i _
    have hq := hp.recountRefs i (· - 1)
    exact (reclaimSpent_spec hq.sound i).2 (hq.toLeads.destroys hd)

theorem each_relinquish_spec {p : Pool ν α} (hp : p.Sound) (handles : List Handle) :
    p.Quiet (Attempt.each relinquish p handles).2 ∧
      (p.Destroys → (Attempt.each relinquish p handles).1 = .ok ()) := by
  induction handles generalizing p with
  | nil => exact ⟨.refl hp, fun _ => rfl⟩
  | cons h rest ih =>
    have hq := relinquish_spec hp h
    have hok := relinquish_ok hp (h := h)
    unfold Attempt.each Attempt.andThen
    generalize p.relinquish h = r at hq hok
    obtain ⟨r, p'⟩ := r
    obtain ⟨hq', hok'⟩ := ih hq.sound
    cases r with
    | error failure => exact ⟨hq, fun hd => by cases hok hd⟩
    | ok u => exact ⟨hq.trans hq', fun hd => hok' (hq.toLeads.destroys hd)⟩

omit [Measure ν] in
theorem acquire_spec {p : Pool ν α} (hp : p.Sound) (h : Handle) : p.Quiet (p.acquire h).2 := by
  unfold acquire
  split
  · exact .refl hp
  · exact hp.recountRefs _ (· + 1)

omit [Measure ν] in
theorem acquire_ok {p : Pool ν α} (hp : p.Sound) {h : Handle} (hc : p.arena.contains h = true) :
    ∃ r, (p.acquire h).1 = .ok r := by
  obtain ⟨r, hr⟩ := hp.resolve_of_contains hc
  obtain ⟨i, hi⟩ := Arena.resolve_eq_ok.mp hr
  unfold acquire
  rw [hi]
  exact ⟨r, rfl⟩

omit [Measure ν] in
/-- The contents of a live slot are given up: its handle is the only one that goes stale. -/
theorem Sound.giveUp {p : Pool ν α} (hp : p.Sound) {i : Nat} (hl : (p.arena.slotAt i).isLive = true) :
    p.Leads { p with arena := p.arena.giveUp i } ∧
      ∀ k, (p.arena.giveUp i).contains k = true ↔ p.arena.contains k = true ∧ k ≠ p.arena.handleAt i := by
  obtain ⟨c, hc⟩ := Slot.isLive_iff.mp hl
  have ho : (p.arena.slotAt i).occupancy ≠ .free := by simp [hc]
  have hself : (p.arena.giveUp i).slotAt i = { p.arena.slotAt i with occupancy := .released c } := by
    unfold Arena.giveUp
    rw [Arena.slotAt_modifySlot_self _ (Arena.lt_size_of_occupied ho), hc]
  have hother {j : Nat} (h : i ≠ j) : (p.arena.giveUp i).slotAt j = p.arena.slotAt j :=
    Arena.slotAt_modifySlot_of_ne _ h _
  refine ⟨hp.modifySlot ⟨?_, ?_, ?_⟩ ?_ ?_ ?_ ?_, fun k => ?_⟩
  · exact Nat.le_of_eq (by rw [hc])
  · intro _ _; rw [hc]; exact ⟨by simp, rfl⟩
  · intro _ _ h; rw [hc] at h; exact absurd rfl h
  · rw [hc]
  · intro hi; exact absurd (hp.free i hi).2 ho
  · intro _; exact hp.backed i ho
  · intro c b h; rw [hc] at h; cases h
  · rw [Arena.contains_iff, Arena.contains_iff]
    constructor
    · rintro ⟨j, rfl, hj⟩
      have hij : i ≠ j := by
        rintro rfl
        rw [hself] at hj
        cases hj
      rw [hother hij] at hj
      have hh : (p.arena.giveUp i).handleAt j = p.arena.handleAt j := by simp [Arena.handleAt, hother hij]
      refine ⟨⟨j, hh, hj⟩, fun e => hij ?_⟩
      simp only [Arena.handleAt, Handle.mk.injEq, Ident.number.injEq] at e
      exact e.1.symm
    · rintro ⟨⟨j, rfl, hj⟩, hne⟩
      have hij : i ≠ j := fun e => hne (e ▸ rfl)
      exact ⟨j, by simp [Arena.handleAt, hother hij], by rw [hother hij]; exact hj⟩

/-- A stale handle cannot be released. Any other goes stale, alone, even if its buffer cannot be
destroyed. -/
theorem release_spec {p : Pool ν α} (hp : p.Sound) (h : Handle) :
    p.Leads (p.release h).2 ∧
      (∀ k, (p.release h).2.arena.contains k = true ↔ p.arena.contains k = true ∧ k ≠ h) ∧
      (p.arena.contains h = false → (p.release h).1 ≠ .ok ()) ∧
      (p.Destroys → p.arena.contains h = true → (p.release h).1 = .ok ()) := by
  unfold release
  cases hr : p.arena.locate h with
  | error failure =>
    have hc : p.arena.contains h = false := by
      rw [Bool.eq_false_iff]
      intro hc
      obtain ⟨ref, href⟩ := hp.resolve_of_contains hc
      obtain ⟨i, hi⟩ := Arena.resolve_eq_ok.mp href
      rw [hi] at hr
      cases hr
    refine ⟨.refl hp, fun k => ⟨fun hk => ⟨hk, ?_⟩, And.left⟩, fun _ h => by (cases h), fun _ h => ?_⟩
    · rintro rfl; rw [hc] at hk; cases hk
    · rw [hc] at h; cases h
  | ok x =>
    obtain ⟨i, r⟩ := x
    obtain ⟨rfl, c, b, ho, -, -⟩ := Arena.locate_eq_ok.mp hr
    have hl : (p.arena.slotAt i).isLive = true := Slot.isLive_iff.mpr ⟨c, ho⟩
    obtain ⟨hg, hc⟩ := hp.giveUp hl
    obtain ⟨hq, hok⟩ := reclaimSpent_spec hg.sound i
    refine ⟨hg.trans hq.toLeads, fun k => ?_, fun hn => ?_, fun hd _ => hok (hg.destroys hd)⟩
    · rw [hq.contains]; exact hc k
    · rw [Arena.contains_iff.mpr ⟨i, rfl, hl⟩] at hn; cases hn

theorem releaseIfLive_spec {p : Pool ν α} (hp : p.Sound) (h : Handle) :
    p.Leads (p.releaseIfLive h).2 ∧
      (∀ k, (p.releaseIfLive h).2.arena.contains k = true ↔ p.arena.contains k = true ∧ k ≠ h) ∧
      (p.Destroys → (p.releaseIfLive h).1 = .ok ()) := by
  unfold releaseIfLive
  by_cases hc : p.arena.contains h = true
  · rw [if_pos hc]
    obtain ⟨hl, hk, -, hok⟩ := release_spec hp h
    exact ⟨hl, hk, fun hd => hok hd hc⟩
  · rw [if_neg hc]
    refine ⟨.refl hp, fun k => ⟨fun hk => ⟨hk, ?_⟩, And.left⟩, fun _ => rfl⟩
    rintro rfl
    exact hc hk

end

/-! ## Invalidation -/

theorem invalidateSlot_spec {p : Pool ν α} (hp : p.Sound) {i : Nat} (hlt : i < p.arena.slots.size)
    (hoff : i ∉ p.arena.free) :
    p.Leads (p.invalidateSlot i).2 ∧
      (p.invalidateSlot i).2.arena.slots.size = p.arena.slots.size ∧
      (p.invalidateSlot i).2.arena.free ⊆ p.arena.free ++ [i] ∧
      (p.Destroys → (p.invalidateSlot i).1 = .ok ()) ∧
      ((p.invalidateSlot i).1 = .ok () → ((p.invalidateSlot i).2.arena.slotAt i).occupancy = .free) ∧
      ∀ j ≠ i, (p.invalidateSlot i).2.arena.slotAt j = p.arena.slotAt j := by
  unfold invalidateSlot destroyBacking
  cases hb : (p.arena.slotAt i).backing with
  | none =>
    have hl := hp.modifySlot (i := i) (f := fun slot => ⟨slot.generation + 1, .free, none⟩)
      (.of_lt (Nat.lt_succ_self _)) hb.symm (fun _ => rfl) (fun h => absurd rfl h) (fun c b h => by cases h)
    have hfree : ((p.arena.modifySlot i fun slot => ⟨slot.generation + 1, .free, none⟩).slotAt i).occupancy =
        .free := by
      rw [Arena.slotAt_modifySlot_self _ hlt]
    refine ⟨hl.trans (hl.sound.addFree ?_ hfree hoff).toLeads, Arena.size_modifySlot .., List.Subset.refl _,
      fun _ => rfl, fun _ => hfree, fun j hj => Arena.slotAt_modifySlot_of_ne _ hj.symm _⟩
    simpa using hlt
  | some b =>
    dsimp only
    cases hd : p.device.destroyBuffer b.buffer with
    | mk r d =>
      cases r with
      | error r =>
        dsimp only [Attempt.andThen]
        obtain ⟨hmem, faults, rfl, hf⟩ := Device.call_error hd
        exact ⟨(hp.setFaults hf).toLeads, rfl, List.subset_append_left .., fun h => absurd hmem (h r),
          fun h => by (cases h), fun _ _ => rfl⟩
      | ok u =>
        obtain rfl := Device.call_ok hd
        have hl := hp.destroy (g := fun slot => ⟨slot.generation + 1, .free, none⟩) hb
          (.of_lt (Nat.lt_succ_self _)) rfl rfl
        have hfree : ((p.arena.modifySlot i fun slot => ⟨slot.generation + 1, .free, none⟩).slotAt i).occupancy =
            .free := by
          rw [Arena.slotAt_modifySlot_self _ hlt]
        dsimp only [Attempt.andThen]
        rw [Arena.modifySlot_modifySlot]
        refine ⟨hl.trans (hl.sound.addFree ?_ hfree hoff).toLeads, Arena.size_modifySlot .., List.Subset.refl _,
          fun _ => rfl, fun _ => hfree, fun j hj => Arena.slotAt_modifySlot_of_ne _ hj.symm _⟩
        simpa using hlt

theorem each_invalidateSlot : ∀ {l : List Nat} {p : Pool ν α}, p.Sound → l.Nodup →
    (∀ i ∈ l, i < p.arena.slots.size ∧ i ∉ p.arena.free) →
    p.Leads (Attempt.each invalidateSlot p l).2 ∧
      (p.Destroys → (Attempt.each invalidateSlot p l).1 = .ok ()) ∧
      ((Attempt.each invalidateSlot p l).1 = .ok () →
        (Attempt.each invalidateSlot p l).2.arena.slots.size = p.arena.slots.size ∧
        (∀ i ∈ l, ((Attempt.each invalidateSlot p l).2.arena.slotAt i).occupancy = .free) ∧
        ∀ i ∉ l, (Attempt.each invalidateSlot p l).2.arena.slotAt i = p.arena.slotAt i)
  | [], p, hp, _, _ => ⟨.refl hp, fun _ => rfl, fun _ => ⟨rfl, by simp, fun _ _ => rfl⟩⟩
  | i :: l, p, hp, hn, hi => by
    obtain ⟨hil, hnl⟩ := List.nodup_cons.mp hn
    obtain ⟨hlt, hoff⟩ := hi i (List.mem_cons_self ..)
    obtain ⟨hl, hs, hfree, hok, hself, hother⟩ := invalidateSlot_spec hp hlt hoff
    unfold Attempt.each Attempt.andThen
    generalize p.invalidateSlot i = r at *
    obtain ⟨r, p'⟩ := r
    cases r with
    | error e => exact ⟨hl, fun h => by (cases hok h), fun h => by (cases h)⟩
    | ok u =>
      obtain ⟨hl', hok', hall⟩ := each_invalidateSlot (l := l) (p := p') hl.sound hnl fun j hj => by
        obtain ⟨hjlt, hjoff⟩ := hi j (List.mem_cons_of_mem _ hj)
        refine ⟨hs ▸ hjlt, fun h => ?_⟩
        rcases List.mem_append.mp (hfree h) with h | h
        · exact hjoff h
        · rw [List.mem_singleton] at h; exact hil (h ▸ hj)
      refine ⟨hl.trans hl', fun hd => hok' (hl.destroys hd), fun h => ?_⟩
      obtain ⟨hs', hfree', hkept⟩ := hall h
      refine ⟨hs'.trans hs, fun j hj => ?_, fun j hj => ?_⟩
      · rcases List.mem_cons.mp hj with rfl | hj
        · rw [hkept j hil]; exact hself rfl
        · exact hfree' j hj
      · rw [hkept j fun h => hj (List.mem_cons_of_mem _ h)]
        exact hother j fun e => hj (e ▸ List.mem_cons_self ..)

/-- An invalidation that comes to its end leaves no handle live. -/
theorem invalidate_spec {p : Pool ν α} (hp : p.Sound) :
    p.Leads p.invalidate.2 ∧ (p.Destroys → p.invalidate.1 = .ok ()) ∧
      (p.invalidate.1 = .ok () → ∀ h, p.invalidate.2.arena.contains h = false) := by
  have hempty : p.Leads { p with arena := { p.arena with free := [] } } :=
    ⟨{ hp with nodup := List.nodup_nil, free := fun _ h => by cases h }, .refl _, .refl _, rfl,
      .refl _, id⟩
  obtain ⟨hl, hok, hall⟩ := each_invalidateSlot hempty.sound List.nodup_range fun i hi =>
    ⟨List.mem_range.mp hi, List.not_mem_nil⟩
  have hl' := hempty.trans hl
  unfold invalidate
  refine ⟨Attempt.andThen_keeps hl' fun _ _ => hl'.trans (hl'.sound.recount 0).toLeads, fun hd => ?_, fun h => ?_⟩
  all_goals
    simp only [Attempt.andThen] at *
    generalize Attempt.each invalidateSlot _ _ = r at *
    obtain ⟨r, p'⟩ := r
  · cases r with
    | ok u => rfl
    | error e => cases hok hd
  · cases r with
    | error e => cases h
    | ok u =>
      intro k
      rw [Bool.eq_false_iff]
      intro hk
      obtain ⟨i, -, hlive⟩ := Arena.contains_iff.mp hk
      obtain ⟨hs, hfree, -⟩ := hall rfl
      have ho := Slot.occupied_of_isLive hlive
      exact ho (hfree i (List.mem_range.mpr (hs ▸ Arena.lt_size_of_occupied ho)))

/-- Nor does closing, after which nothing is allocated. -/
theorem close_spec {p : Pool ν α} (hp : p.Sound) (closing : Closing) :
    p.Leads (p.close closing).2 ∧ (p.Destroys → (p.close closing).1 = .ok ()) ∧
      ((p.close closing).1 = .ok () → ∀ h, (p.close closing).2.arena.contains h = false) := by
  obtain ⟨hl, hok, hall⟩ := invalidate_spec hp
  unfold close Attempt.andThen
  generalize p.invalidate = r at *
  obtain ⟨r, p'⟩ := r
  cases r with
  | error e => exact ⟨hl, hok, fun h => by (cases h)⟩
  | ok u =>
    exact ⟨⟨{ hl.sound with }, hl.later, hl.blocks, hl.options, hl.device, hl.intact⟩,
      fun _ => rfl, fun _ => hall rfl⟩

end Pool

end Strata
