import Mathlib.Algebra.Order.BigOperators.Group.List
import Mathlib.Algebra.Order.Ring.Nat
import Strata.Memory.Footprint
import Strata.Proofs.Memory.Handles

/-!
# The books of an arena

What an arena counts and lists agrees with the slots it has and with the buffers its device holds.
`Pool.Inventory` is that invariant; an operation may break it for the one slot it has in hand. Each step of an
operation moves the slot in hand on, and `Request.perform_inventory` puts the steps of every request together.
-/

namespace Strata

variable {ν α : Type}

/-- Measures that order byte counts as numbers do. -/
class Measure.Exact (ν : Type) [Measure ν] : Prop where
  le_of_not_lt {bound : ν} {n : Nat} : ¬ bound < Measure.ofNat n → Measure.ofNat n ≤ bound
  le_of_le {bound : ν} {m n : Nat} : m ≤ n → Measure.ofNat n ≤ bound → Measure.ofNat m ≤ bound
  dvd_wholeWords {size : ν} {n : Nat} : Measure.wholeWords? size = some n → copyAlignment ∣ n

instance : Measure.Exact Int where
  le_of_not_lt h := Int.not_lt.mp h
  le_of_le h h' := Int.le_trans (Int.ofNat_le.mpr h) h'
  dvd_wholeWords {size n} h := by
    change (if 0 < size then some ((size.toNat + 3) / 4 * 4) else none) = some n at h
    split at h
    · cases h; exact Nat.dvd_mul_left 4 _
    · cases h

/-! ## What is counted -/

def Arena.capacity (a : Arena ν) : Nat := (a.slots.toList.map Slot.capacity).sum

def Buffer.footprint (b : Buffer α) : Nat := if b.destroyed then 0 else b.block.size

def Device.footprint (d : Device ν α) : Nat := (d.buffers.toList.map Buffer.footprint).sum

theorem sum_map_modify {β : Type} (g : β → Nat) (f : β → β) {l : List β} {i : Nat} {x : β} (h : l[i]? = some x) :
    ((l.modify i f).map g).sum + g x = (l.map g).sum + g (f x) := by
  induction l generalizing i with
  | nil => cases h
  | cons y l ih =>
    cases i with
    | zero =>
      cases h
      simp only [List.modify_zero_cons, List.map_cons, List.sum_cons]
      omega
    | succ i =>
      have hrest := ih (i := i) (by simpa using h)
      simp only [List.modify_succ_cons, List.map_cons, List.sum_cons]
      omega

theorem Device.footprint_destroy (d : Device ν α) {id : BufferId} {x : Buffer α} (hx : d.buffers[id]? = some x)
    (hlive : x.destroyed = false) :
    Device.footprint { d with buffers := d.buffers.modify id fun x => { x with destroyed := true } } +
    x.block.size =
      d.footprint := by
  have hsum := sum_map_modify Buffer.footprint (fun x => { x with destroyed := true })
    (l := d.buffers.toList) (by simpa using hx)
  unfold Device.footprint
  rw [Array.toList_modify]
  simpa [Buffer.footprint, hlive] using hsum

namespace Arena

theorem slots_getElem? (a : Arena ν) {i : Nat} (h : i < a.slots.size) : a.slots.toList[i]? = some (a.slotAt i) := by
  simp [slotAt, Array.getD_eq_getD_getElem?, h]

theorem lt_size_of_backed {a : Arena ν} {i : Nat} (h : (a.slotAt i).backing ≠ none) : i < a.slots.size := by
  rcases Nat.lt_or_ge i a.slots.size with hi | hi
  · exact hi
  · exact absurd (by rw [slotAt_of_size_le a hi]; rfl) h

theorem capacity_modifySlot (a : Arena ν) {i : Nat} (h : i < a.slots.size) (f : Slot ν → Slot ν) :
    (a.modifySlot i f).capacity + (a.slotAt i).capacity = a.capacity + (f (a.slotAt i)).capacity := by
  unfold capacity modifySlot
  rw [Array.toList_modify]
  exact sum_map_modify Slot.capacity f (a.slots_getElem? h)

theorem capacity_modifySlot_of_kept (a : Arena ν) {i : Nat} {f : Slot ν → Slot ν}
    (hb : (f (a.slotAt i)).backing = (a.slotAt i).backing) : (a.modifySlot i f).capacity = a.capacity := by
  rcases Nat.lt_or_ge i a.slots.size with h | h
  · have hsum := a.capacity_modifySlot h f
    have hc : (f (a.slotAt i)).capacity = (a.slotAt i).capacity := by unfold Slot.capacity; rw [hb]
    omega
  · unfold capacity modifySlot
    rw [Array.toList_modify, List.modify_eq_self (by simpa using h)]

/-- Slot `i` has neither user nor buffer. -/
def vacate (a : Arena ν) (i : Nat) : Arena ν := a.modifySlot i fun slot => ⟨slot.generation + 1, .free, none⟩

theorem slotAt_vacate (a : Arena ν) {i : Nat} (h : i < a.slots.size) (j : Nat) :
    (a.vacate i).slotAt j = if i = j then ⟨(a.slotAt j).generation + 1, .free, none⟩ else a.slotAt j :=
  Arena.slotAt_modifySlot_of_lt _ h _ j

theorem capacity_vacate (a : Arena ν) {i : Nat} (h : i < a.slots.size) :
    (a.vacate i).capacity + (a.slotAt i).capacity = a.capacity :=
  a.capacity_modifySlot h fun slot => ⟨slot.generation + 1, .free, none⟩

theorem pooledBytes_eq (a : Arena ν) : a.pooledBytes = (a.free.map fun i => (a.slotAt i).capacity).sum := by
  unfold pooledBytes
  rw [List.sum, List.foldr_map]

theorem capacity_eq_zero {a : Arena ν} (h : ∀ i, (a.slotAt i).backing = none) : a.capacity = 0 := by
  unfold capacity
  rw [List.sum_eq_zero_iff]
  intro n hn
  obtain ⟨s, hs, rfl⟩ := List.mem_map.mp hn
  obtain ⟨i, hi, rfl⟩ := Array.mem_iff_getElem.mp (Array.mem_def.mpr hs)
  have hnone := h i
  simp only [slotAt, Array.getD_eq_getD_getElem?, Array.getElem?_eq_getElem hi, Option.getD_some] at hnone
  simp [Slot.capacity, hnone]

theorem pooledBytes_eq_zero {a : Arena ν} (h : ∀ i, (a.slotAt i).backing = none) : a.pooledBytes = 0 := by
  rw [pooledBytes_eq]
  simp [Slot.capacity, h]

/-- With fewer free slots and smaller buffers, fewer bytes are pooled. -/
theorem pooledBytes_le {a a' : Arena ν} (hf : a'.free.Sublist a.free)
    (hc : ∀ i, (a'.slotAt i).capacity ≤ (a.slotAt i).capacity) : a'.pooledBytes ≤ a.pooledBytes := by
  rw [pooledBytes_eq, pooledBytes_eq]
  calc (a'.free.map fun i => (a'.slotAt i).capacity).sum
      ≤ (a'.free.map fun i => (a.slotAt i).capacity).sum := List.sum_le_sum fun i _ => hc i
    _ ≤ (a.free.map fun i => (a.slotAt i).capacity).sum := (hf.map _).sum_le_sum fun _ _ => Nat.zero_le _

end Arena

namespace Pool

variable [Measure ν]

/-- What an arena over its device keeps true. `base` counts the bytes of buffers that are not its own; the
slot in hand is neither listed as free nor given to anybody. -/
structure Inventory (base : Nat) (hand : Option Nat) (p : Pool ν α) : Prop extends p.Sound where
  listed : ∀ i < p.arena.slots.size, (p.arena.slotAt i).occupancy = .free → i ∈ p.arena.free ∨ hand = some i
  made : ∀ i b, (p.arena.slotAt i).backing = some b → ∃ x, p.device.buffers[b.buffer]? = some x ∧
    x.destroyed = false ∧ x.block.size = b.capacity ∧ x.usage = b.usage.flags?
  stocked : ∀ i c, (p.arena.slotAt i).contents? = some c → copyAlignment ∣ c.size ∧
    ∃ b, (p.arena.slotAt i).backing = some b ∧ b.usage = c.format.usage ∧ c.size ≤ b.capacity
  awaited : ∀ i c, (p.arena.slotAt i).occupancy = .released c → hand = some i ∨ 0 < c.refs
  booked : p.arena.allocated = p.arena.capacity
  funded : p.device.footprint = base + p.arena.capacity
  /-- A bound that an empty arena does not exceed is not exceeded. -/
  solvent : ∀ bound, p.arena.options.budget = some bound → Measure.ofNat 0 ≤ bound →
    Measure.ofNat p.arena.allocated ≤ bound
  compact : Measure.ofNat 0 ≤ p.arena.options.maxPooled →
    Measure.ofNat p.arena.pooledBytes ≤ p.arena.options.maxPooled

variable {base : Nat} {hand hand' : Option Nat} {p : Pool ν α} {i : Nat}

/-! ## One slot changes -/

/-- The slot in hand, or one that is taken into hand, changes but keeps its buffer. -/
theorem Inventory.modifySlot (h : p.Inventory base hand) {f : Slot ν → Slot ν}
    (hs : Sound { p with arena := p.arena.modifySlot i f })
    (hb : (f (p.arena.slotAt i)).backing = (p.arena.slotAt i).backing) (hhand : ∀ j, hand = some j → j = i)
    (hlisted : i < p.arena.slots.size → (f (p.arena.slotAt i)).occupancy = .free →
      i ∈ p.arena.free ∨ hand' = some i)
    (hstocked : ∀ c, (f (p.arena.slotAt i)).contents? = some c → copyAlignment ∣ c.size ∧
      ∃ b, (p.arena.slotAt i).backing = some b ∧ b.usage = c.format.usage ∧ c.size ≤ b.capacity)
    (hawaited : ∀ c, (f (p.arena.slotAt i)).occupancy = .released c → hand' = some i ∨ 0 < c.refs) :
    Inventory base hand' { p with arena := p.arena.modifySlot i f } := by
  have hback := p.arena.backing_modifySlot hb
  have hkept := p.arena.capacity_modifySlot_of_kept hb
  -- A slot other than `i` is as it was, and not in hand; nor is any outside the table.
  have hcases (j : Nat) : (p.arena.modifySlot i f).slotAt j = p.arena.slotAt j ∧ (j < p.arena.slots.size → j ≠ i) ∨
      j = i ∧ (p.arena.modifySlot i f).slotAt j = f (p.arena.slotAt i) := by
    rw [Arena.slotAt_modifySlot]
    split
    · rename_i hj; exact .inr ⟨hj.1.symm, by rw [hj.1]⟩
    · rename_i hj; exact .inl ⟨rfl, fun hlt e => hj ⟨e.symm, hlt⟩⟩
  refine { hs with listed := ?_, made := ?_, stocked := ?_, awaited := ?_, booked := ?_, funded := ?_,
                   solvent := h.solvent, compact := ?_ }
  · intro j hj ho
    have hlt : j < p.arena.slots.size := by simpa using hj
    rcases hcases j with ⟨heq, hne⟩ | ⟨rfl, heq⟩
    · rw [heq] at ho
      exact .inl ((h.listed j hlt ho).resolve_right fun e => hne hlt (hhand j e))
    · rw [heq] at ho
      exact hlisted hlt ho
  · intro j b hj
    rw [hback] at hj
    exact h.made j b hj
  · intro j c hc
    simp only [hback]
    rcases hcases j with ⟨heq, -⟩ | ⟨rfl, heq⟩
    · rw [heq] at hc
      exact h.stocked j c hc
    · rw [heq] at hc
      exact hstocked c hc
  · intro j c hc
    rcases hcases j with ⟨heq, hne⟩ | ⟨rfl, heq⟩
    · rw [heq] at hc
      have hlt := Arena.lt_size_of_occupied (a := p.arena) (i := j) (by simp [hc])
      exact .inr ((h.awaited j c hc).resolve_left fun e => hne hlt (hhand j e))
    · rw [heq] at hc
      exact hawaited c hc
  · rw [hkept]; exact h.booked
  · rw [hkept]; exact h.funded
  · have hle : (p.arena.modifySlot i f).pooledBytes = p.arena.pooledBytes := by
      simp only [Arena.pooledBytes_eq, Arena.free_modifySlot, Slot.capacity, hback]
    rw [hle]
    exact h.compact

theorem Inventory.setFaults (h : p.Inventory base hand) {faults : List (DeviceCall × Raised)}
    (hf : faults ⊆ p.device.faults) : Inventory base hand { p with device := { p.device with faults } } :=
  { h with toSound := (h.toSound.setFaults hf).sound }

/-! ## Buffers are destroyed -/

variable [Measure.Exact ν]

omit [Measure ν] in
theorem dropBacking_of_none (hb : (p.arena.slotAt i).backing = none) : p.dropBacking i = (.ok (), p) := by
  unfold dropBacking destroyBacking Slot.capacity
  rw [hb]
  rfl

omit [Measure ν] in
theorem dropBacking_of_some (hd : p.Destroys) {b : Backing} (hb : (p.arena.slotAt i).backing = some b) :
    p.dropBacking i = (.ok (),
      ⟨{ p.arena.modifySlot i fun slot => { slot with backing := none } with
          allocated := p.arena.allocated - b.capacity },
        { p.device with buffers := p.device.buffers.modify b.buffer fun x => { x with destroyed := true } }⟩) := by
  unfold dropBacking destroyBacking Slot.capacity
  rw [hb]
  dsimp only
  cases hdestroy : p.device.destroyBuffer b.buffer with
  | mk result device =>
    cases result with
    | error r => exact absurd (Device.call_error hdestroy).1 (hd r)
    | ok u => rw [Device.call_ok hdestroy]; rfl

/-- A buffer is on the device, as large and usable as its slot says. -/
def Made (d : Device ν α) (b : Backing) : Prop :=
  ∃ x, d.buffers[b.buffer]? = some x ∧ x.destroyed = false ∧ x.block.size = b.capacity ∧ x.usage = b.usage.flags?

omit [Measure ν] [Measure.Exact ν] in
theorem Made.destroy {d : Device ν α} {b : Backing} (h : Made d b) {id : BufferId} (hne : id ≠ b.buffer) :
    Made { d with buffers := d.buffers.modify id fun x => { x with destroyed := true } } b := by
  obtain ⟨x, hx, hrest⟩ := h
  refine ⟨x, ?_, hrest⟩
  simp only [Array.getElem?_modify, if_neg hne]
  exact hx

omit [Measure ν] [Measure.Exact ν] in
theorem Made.push {d : Device ν α} {b : Backing} (h : Made d b) (buffer : Buffer α) :
    Made { d with buffers := d.buffers.push buffer } b := by
  obtain ⟨x, hx, hrest⟩ := h
  obtain ⟨hid, -⟩ := Array.getElem?_eq_some_iff.mp hx
  refine ⟨x, ?_, hrest⟩
  rw [← hx]
  exact Array.getElem?_push_lt hid ▸ (Array.getElem?_eq_getElem hid).symm

/-- A free slot loses its buffer or gets one, and what is counted goes with it. -/
theorem Inventory.rebacked (h : p.Inventory base hand) (hlt : i < p.arena.slots.size)
    (hi : (p.arena.slotAt i).occupancy = .free) {backing : Option Backing} {allocated : Nat} {d : Device ν α}
    (hsound : Sound ⟨{ p.arena.modifySlot i fun slot => { slot with backing } with allocated }, d⟩)
    (hnew : ∀ b, backing = some b → Made d b)
    (hold : ∀ j b, i ≠ j → (p.arena.slotAt j).backing = some b → Made d b)
    (hallocated : allocated + (p.arena.slotAt i).capacity = p.arena.allocated + (backing.map (·.capacity)).getD 0)
    (hfootprint : d.footprint + (p.arena.slotAt i).capacity = p.device.footprint +
      (backing.map (·.capacity)).getD 0)
    (hsolvent : ∀ bound, p.arena.options.budget = some bound → Measure.ofNat 0 ≤ bound →
      Measure.ofNat allocated ≤ bound)
    (hpooled : (p.arena.modifySlot i fun slot => { slot with backing }).pooledBytes ≤ p.arena.pooledBytes) :
    Inventory base hand ⟨{ p.arena.modifySlot i fun slot => { slot with backing } with allocated }, d⟩ := by
  have hslot (j : Nat) : (p.arena.modifySlot i fun slot => { slot with backing }).slotAt j =
      if i = j then { p.arena.slotAt j with backing } else p.arena.slotAt j :=
    Arena.slotAt_modifySlot_of_lt _ hlt _ j
  have hoccupancy (j : Nat) : ((p.arena.modifySlot i fun slot => { slot with backing }).slotAt j).occupancy =
      (p.arena.slotAt j).occupancy := by
    rw [hslot]
    split <;> rfl
  have hcapacity : (p.arena.modifySlot i fun slot => { slot with backing }).capacity + (p.arena.slotAt i).capacity =
      p.arena.capacity + (backing.map (·.capacity)).getD 0 := p.arena.capacity_modifySlot hlt _
  -- both sums lose the old buffer of slot `i` and gain the new one
  have hbooked := h.booked
  have hfunded := h.funded
  exact { hsound with
    listed := fun j hj ho => h.listed j (by simpa using hj) ((hoccupancy j).symm.trans ho)
    made := fun j b hj => by
      have hj : ((p.arena.modifySlot i _).slotAt j).backing = some b := hj
      rw [hslot] at hj
      split at hj
      · exact hnew b hj
      · exact hold j b ‹_› hj
    stocked := fun j c hj => by
      have hj : ((p.arena.modifySlot i _).slotAt j).contents? = some c := hj
      show copyAlignment ∣ c.size ∧ ∃ b, ((p.arena.modifySlot i _).slotAt j).backing = some b ∧ _
      rw [hslot] at hj ⊢
      split at hj
      · -- nothing is in a free slot
        rename_i hij
        subst hij
        unfold Slot.contents? at hj
        dsimp only at hj
        rw [hi] at hj
        cases hj
      · rename_i hij
        rw [if_neg hij]
        exact h.stocked j c hj
    awaited := fun j c hj => h.awaited j c ((hoccupancy j).symm.trans hj)
    booked := by
      show allocated = (p.arena.modifySlot i _).capacity
      omega
    funded := by
      show d.footprint = base + (p.arena.modifySlot i _).capacity
      omega
    solvent := hsolvent
    compact := fun hzero => Measure.Exact.le_of_le hpooled (h.compact hzero) }

theorem Inventory.dropBacking (h : p.Inventory base hand) (hd : p.Destroys)
    (hi : (p.arena.slotAt i).occupancy = .free) : (p.dropBacking i).2.Inventory base hand := by
  have hsound := (dropBacking_quiet h.toSound hi).sound
  cases hb : (p.arena.slotAt i).backing with
  | none => rw [dropBacking_of_none hb]; exact h
  | some b =>
    rw [dropBacking_of_some hd hb] at hsound ⊢
    obtain ⟨x, hx, hlive, hsize, -⟩ := h.made i b hb
    have hlt := Arena.lt_size_of_backed (by rw [hb]; nofun)
    have hcapacity : (p.arena.slotAt i).capacity = b.capacity := by simp [Slot.capacity, hb]
    have hle : b.capacity ≤ p.arena.allocated := by
      have hkept := p.arena.capacity_modifySlot hlt fun slot => { slot with backing := none }
      rw [h.booked, ← hcapacity]
      exact Nat.le.intro ((Nat.add_comm ..).trans (hkept.trans (Nat.add_zero _)))
    refine h.rebacked hlt hi hsound nofun (fun j c hij hj => ?_) ?_ ?_ (fun bound hbound hzero => ?_) ?_
    · exact Made.destroy (h.made j c hj) fun he => hij (h.alone i j b c hb hj he)
    · rw [hcapacity]
      exact Nat.sub_add_cancel hle
    · rw [hcapacity, ← hsize]
      exact p.device.footprint_destroy hx hlive
    · exact Measure.Exact.le_of_le (Nat.sub_le ..) (h.solvent bound hbound hzero)
    · refine @Arena.pooledBytes_le _ p.arena _ (List.Sublist.refl _) fun j => ?_
      rw [Arena.slotAt_modifySlot_of_lt _ hlt]
      split
      · exact Nat.zero_le _
      · exact Nat.le_refl _

theorem Inventory.trim (h : p.Inventory base hand) (hd : p.Destroys) : p.trim.2.Inventory base hand := by
  unfold Pool.trim
  refine (Attempt.each_keeps (P := fun p' : Pool ν α => p'.Inventory base hand ∧ p'.Destroys ∧
    ∀ j ∈ p.arena.free, (p'.arena.slotAt j).occupancy = .free) ?_ ⟨h, hd, fun j hj => (h.free j hj).2⟩).1
  rintro p' ⟨hb, hd', hf⟩ i hi
  refine ⟨hb.dropBacking hd' (hf i hi), (dropBacking_quiet hb.toSound (hf i hi)).toLeads.destroys hd',
    fun j hj => ?_⟩
  rw [dropBacking_occupancy]
  exact hf j hj

/-- There is room in the budget for what comes next, if that is found. -/
theorem Inventory.ensureBudget (h : p.Inventory base hand) (hd : p.Destroys) (bytes : Nat) :
    (p.ensureBudget bytes).2.Inventory base hand ∧
      ((p.ensureBudget bytes).1 = .ok () → ∀ bound, p.arena.options.budget = some bound →
        Measure.ofNat ((p.ensureBudget bytes).2.arena.allocated + bytes) ≤ bound) := by
  have htrim := h.trim hd
  unfold Pool.ensureBudget
  cases hbudget : p.arena.options.budget with
  | none => exact ⟨h, fun _ bound hb => by cases hb⟩
  | some limit =>
    dsimp only
    split
    · rename_i hroom
      exact ⟨h, fun _ bound hb => by cases hb; exact hroom⟩
    · revert htrim
      generalize p.trim = r
      obtain ⟨r, p'⟩ := r
      intro htrim
      cases r with
      | error failure => exact ⟨htrim, fun hok => by cases hok⟩
      | ok u =>
        dsimp only [Attempt.andThen]
        split
        · exact ⟨htrim, fun hok => by cases hok⟩
        · rename_i hroom
          exact ⟨htrim, fun _ bound hb => by cases hb; exact Measure.Exact.le_of_not_lt hroom⟩

/-! ## A slot is taken into hand -/

omit [Measure.Exact ν] in
theorem Inventory.addFree (h : p.Inventory base (some i)) (hlt : i < p.arena.slots.size)
    (hi : (p.arena.slotAt i).occupancy = .free) (hoff : i ∉ p.arena.free)
    (hroom : Measure.ofNat 0 ≤ p.arena.options.maxPooled →
      Measure.ofNat (p.arena.pooledBytes + (p.arena.slotAt i).capacity) ≤ p.arena.options.maxPooled) :
    Inventory base none { p with arena := { p.arena with free := p.arena.free ++ [i] } } := by
  have hsound := (h.toSound.addFree hlt hi hoff).sound
  refine { hsound with listed := fun j hj ho => .inl ?_, made := h.made, stocked := h.stocked,
                       awaited := fun j c hj => .inr ?_, booked := h.booked, funded := h.funded,
                       solvent := h.solvent, compact := ?_ }
  · rcases h.listed j hj ho with hj | hj
    · exact List.mem_append_left _ hj
    · cases hj; exact List.mem_append_right _ (List.mem_singleton_self _)
  · refine (h.awaited j c hj).resolve_left fun e => ?_
    have hj : (p.arena.slotAt j).occupancy = .released c := hj
    cases e
    rw [hi] at hj
    cases hj
  · have heq : Arena.pooledBytes { p.arena with free := p.arena.free ++ [i] } =
        p.arena.pooledBytes + (p.arena.slotAt i).capacity := by
      rw [Arena.pooledBytes_eq, Arena.pooledBytes_eq, List.map_append, List.sum_append, List.map_singleton,
        List.sum_singleton]
      rfl
    rw [heq]
    exact hroom

theorem Inventory.takeFree (h : p.Inventory base none) (i : Nat) :
    Inventory base (some i) { p with arena := { p.arena with free := p.arena.free.erase i } } := by
  refine { h.toSound with nodup := h.nodup.erase i, free := fun k hk => h.free k (List.mem_of_mem_erase hk),
                          listed := fun j hj ho => ?_, made := h.made, stocked := h.stocked,
                          awaited := fun j c hj => .inr ((h.awaited j c hj).resolve_left nofun),
                          booked := h.booked, funded := h.funded, solvent := h.solvent, compact := ?_ }
  · by_cases hji : j = i
    · exact .inr (congrArg some hji.symm)
    · exact .inl ((List.mem_erase_of_ne hji).mpr ((h.listed j hj ho).resolve_right nofun))
  · exact fun hzero => Measure.Exact.le_of_le
      (@Arena.pooledBytes_le _ p.arena _ (List.erase_sublist ..) fun _ => Nat.le_refl _) (h.compact hzero)

theorem Inventory.vacancy (h : p.Inventory base none) {a : Arena ν} (hv : p.arena.vacancy = (i, a)) :
    Inventory base (some i) { p with arena := a } ∧ a.allocated = p.arena.allocated := by
  have hsound := (vacancy_spec h.toSound hv).1.sound
  unfold Arena.vacancy at hv
  split at hv
  · cases hv
    exact ⟨h.takeFree i, rfl⟩
  · cases hv
    have hslot := p.arena.slotAt_push_empty
    have hcapacity : Arena.capacity { p.arena with slots := p.arena.slots.push .empty } = p.arena.capacity := by
      simp [Arena.capacity, Slot.capacity, Slot.empty]
    refine ⟨{ hsound with listed := fun j hj ho => ?_, made := fun j b hj => ?_, stocked := fun j c hj => ?_,
                          awaited := fun j c hj => ?_, booked := ?_, funded := ?_, solvent := h.solvent,
                          compact := ?_ }, rfl⟩
    · have hj : j < p.arena.slots.size + 1 := by simpa using hj
      rcases Nat.lt_or_eq_of_le (Nat.le_of_lt_succ hj) with hlt | heq
      · exact .inl ((h.listed j hlt (by rw [← hslot]; exact ho)).resolve_right (by simp))
      · exact .inr (congrArg some heq.symm)
    · exact h.made j b (by rw [← hslot]; exact hj)
    · have hs := h.stocked j c (by rw [← hslot]; exact hj)
      rwa [← hslot] at hs
    · exact .inr ((h.awaited j c (by rw [← hslot]; exact hj)).resolve_left (by simp))
    · rw [hcapacity]; exact h.booked
    · rw [hcapacity]; exact h.funded
    · have hle : Arena.pooledBytes { p.arena with slots := p.arena.slots.push .empty } = p.arena.pooledBytes := by
        simp only [Arena.pooledBytes_eq, hslot]
      rw [hle]
      exact h.compact

theorem Inventory.create (h : p.Inventory base (some i)) (hlt : i < p.arena.slots.size)
    (hi : (p.arena.slotAt i).occupancy = .free) (hb : (p.arena.slotAt i).backing = none) (hoff : i ∉ p.arena.free)
    (label : String) (usage : SlotUsage) (bytes : Nat)
    (hroom : ∀ bound, p.arena.options.budget = some bound → Measure.ofNat (p.arena.allocated + bytes) ≤ bound) :
    Inventory base (some i)
      ⟨{ p.arena.modifySlot i fun slot => { slot with backing := some ⟨p.device.buffers.size, bytes, usage⟩ } with
          allocated := p.arena.allocated + bytes },
        { p.device with buffers := p.device.buffers.push ⟨label, usage.flags?, Block.zero bytes, false⟩ }⟩ := by
  have hcreate := h.toSound.create bytes label usage.flags? usage hi hb
  have hsound := (hcreate.sound.recount (p.arena.allocated + bytes)).sound
  have hcapacity : (p.arena.slotAt i).capacity = 0 := by simp [Slot.capacity, hb]
  refine h.rebacked hlt hi hsound (fun b hb => ?_) (fun j b _ hj => ?_) ?_ ?_ (fun bound hbound _ =>
    hroom bound hbound) ?_
  · cases hb
    exact ⟨_, Array.getElem?_push_size, rfl, rfl, rfl⟩
  · exact Made.push (h.made j b hj) _
  · rw [hcapacity]
    rfl
  · rw [hcapacity]
    simp [Device.footprint, Buffer.footprint, Block.zero]
  · rw [Arena.pooledBytes_eq, Arena.pooledBytes_eq]
    refine Nat.le_of_eq (congrArg List.sum (List.map_congr_left fun j hj => ?_))
    rw [Arena.slotAt_modifySlot_of_lt _ hlt, if_neg fun e : i = j => hoff (e ▸ hj)]

theorem Inventory.createSlot (h : p.Inventory base none) (hd : p.Destroys) (usage : SlotUsage) (bytes : Nat) :
    (∀ failure, (p.createSlot usage bytes).1 = .error failure → (p.createSlot usage bytes).2.Inventory base none) ∧
      ∀ i, (p.createSlot usage bytes).1 = .ok i → (p.createSlot usage bytes).2.Inventory base (some i) := by
  obtain ⟨hstock, hroom⟩ := h.ensureBudget hd bytes
  have hoptions := (ensureBudget_quiet h.toSound bytes).options
  unfold Pool.createSlot Attempt.andThen
  generalize p.ensureBudget bytes = r at hstock hroom hoptions
  obtain ⟨r, q⟩ := r
  cases r with
  | error failure => exact ⟨fun _ _ => hstock, nofun⟩
  | ok u =>
    generalize hv : q.arena.vacancy = v
    obtain ⟨i, a⟩ := v
    obtain ⟨-, hlt, hfree, hnone, hoff⟩ := vacancy_spec hstock.toSound hv
    have hquiet := (vacancy_spec hstock.toSound hv).1
    obtain ⟨htaken, hallocated⟩ := hstock.vacancy hv
    simp only [hv]
    split
    · rename_i heq
      obtain ⟨faults, rfl, hf⟩ := Device.createBuffer_error heq
      refine ⟨fun _ _ => (htaken.setFaults hf).addFree hlt hfree hoff ?_, nofun⟩
      show _ → Measure.ofNat (a.pooledBytes + (a.slotAt i).capacity) ≤ a.options.maxPooled
      rw [show (a.slotAt i).capacity = 0 by unfold Slot.capacity; rw [hnone]; rfl, Nat.add_zero]
      exact htaken.compact
    · rename_i id device heq
      obtain ⟨rfl, rfl⟩ := Device.createBuffer_ok heq
      refine ⟨fun _ hj => (by cases hj), fun j hj => ?_⟩
      cases hj
      refine htaken.create hlt hfree hnone hoff _ usage bytes fun bound hbound => ?_
      have hbound : q.arena.options.budget = some bound := by rw [← hquiet.options]; exact hbound
      rw [hoptions] at hbound
      show Measure.ofNat (a.allocated + bytes) ≤ bound
      rw [hallocated]
      exact hroom rfl bound hbound

theorem Inventory.takeSlot (h : p.Inventory base none) (hd : p.Destroys) (usage : SlotUsage) (bytes : Nat) :
    (∀ failure, (p.takeSlot usage bytes).1 = .error failure → (p.takeSlot usage bytes).2.Inventory base none) ∧
      ∀ i, (p.takeSlot usage bytes).1 = .ok i → (p.takeSlot usage bytes).2.Inventory base (some i) := by
  unfold Pool.takeSlot
  split
  · rename_i j hj
    refine ⟨fun _ hi => (by cases hi), fun i hi => ?_⟩
    cases hi
    exact h.takeFree j
  · exact h.createSlot hd usage bytes

theorem Inventory.allocate (h : p.Inventory base none) (hd : p.Destroys) (format : SlotFormat ν) (size : ν) :
    (p.allocate format size).2.Inventory base none := by
  unfold Pool.allocate
  cases p.arena.checkOpen with
  | error failure => exact h
  | ok u =>
    cases hw : Measure.wholeWords? size with
    | none => exact h
    | some bytes =>
      obtain ⟨hfailed, htaken⟩ := h.takeSlot hd format.usage bytes
      have hspec := takeSlot_spec h.toSound format.usage bytes
      simp only [Attempt.andThen]
      generalize p.takeSlot format.usage bytes = r at hfailed htaken hspec
      obtain ⟨r, q⟩ := r
      cases r with
      | error failure => exact hfailed failure rfl
      | ok i =>
        have htake := hspec.2 i rfl
        obtain ⟨b, hb, hcapacity, husage⟩ := htake.fits
        have hsound := (htake.occupy hspec.1.sound format).1.sound
        refine (htaken i rfl).modifySlot hsound rfl (fun j hj => by cases hj; rfl) (fun _ hc => by cases hc)
          (fun c hc => ?_)
          (fun c hc => by cases hc)
        cases hc
        exact ⟨Measure.Exact.dvd_wholeWords hw, b, hb, husage, hcapacity⟩

/-! ## A slot is given back -/

omit [Measure ν] [Measure.Exact ν] in
theorem dropBacking_backing (hd : p.Destroys) (i : Nat) : ((p.dropBacking i).2.arena.slotAt i).backing = none := by
  cases hb : (p.arena.slotAt i).backing with
  | none => rw [dropBacking_of_none hb]; exact hb
  | some b =>
    rw [dropBacking_of_some hd hb]
    exact congrArg Slot.backing
      (Arena.slotAt_modifySlot_self p.arena (Arena.lt_size_of_backed (by rw [hb]; nofun)) _)

theorem Inventory.reclaim (h : p.Inventory base (some i)) (hd : p.Destroys) (hlt : i < p.arena.slots.size)
    (hoff : i ∉ p.arena.free) : (p.reclaim i).2.Inventory base none := by
  have hself : (p.arena.modifySlot i fun slot =>
      { slot with generation := slot.generation + 1, occupancy := .free }).slotAt i =
      { p.arena.slotAt i with generation := (p.arena.slotAt i).generation + 1, occupancy := .free } :=
    Arena.slotAt_modifySlot_self _ hlt _
  have hleads := h.toSound.modifySlot (i := i)
    (f := fun slot => { slot with generation := slot.generation + 1, occupancy := .free })
    (.of_lt (Nat.lt_succ_self _)) rfl (fun _ => rfl) (fun h => absurd rfl h) (fun c b h => by cases h)
  have hfreed : Inventory base (some i) { p with arena := p.arena.modifySlot i fun slot =>
      { slot with generation := slot.generation + 1, occupancy := .free } } :=
    h.modifySlot hleads.sound rfl (fun j hj => by cases hj; rfl) (fun _ _ => .inr rfl) nofun nofun
  have hfree := congrArg Slot.occupancy hself
  have hlt' : i < (p.arena.modifySlot i fun slot =>
      { slot with generation := slot.generation + 1, occupancy := .free }).slots.size := by simpa using hlt
  have hoff' : i ∉ (p.arena.modifySlot i fun slot =>
      { slot with generation := slot.generation + 1, occupancy := .free }).free := hoff
  unfold Pool.reclaim
  dsimp only
  generalize p.arena.modifySlot i (fun slot =>
    { slot with generation := slot.generation + 1, occupancy := .free }) = a
    at hfreed hfree hlt' hleads hoff'
  split
  · have hd' := hleads.destroys hd
    have hdropped := hfreed.dropBacking hd' hfree
    have hok := dropBacking_ok hd' i
    have hnone := dropBacking_backing hd' i
    have hocc := dropBacking_occupancy { p with arena := a } i i
    obtain ⟨hf, hs⟩ := dropBacking_free { p with arena := a } i
    generalize Pool.dropBacking { p with arena := a } i = r at *
    obtain ⟨r, q⟩ := r
    cases hok
    refine hdropped.addFree (by rw [hs]; exact hlt') (hocc.trans hfree) ?_ ?_
    · rw [hf]; exact hoff'
    · rw [show (q.arena.slotAt i).capacity = 0 by unfold Slot.capacity; rw [hnone]; rfl, Nat.add_zero]
      exact hdropped.compact
  · rename_i hroom
    exact hfreed.addFree hlt' hfree hoff' fun _ => Measure.Exact.le_of_not_lt hroom

/-- The slot in hand is free if it is given up and no longer referred to; else it is left as it is. -/
theorem Inventory.reclaimSpent (h : p.Inventory base (some i)) (hd : p.Destroys)
    (hfree : (p.arena.slotAt i).occupancy = .free → i ∈ p.arena.free) :
    (p.reclaimSpent i).2.Inventory base none := by
  unfold Pool.reclaimSpent
  split
  · rename_i hs
    have ho : (p.arena.slotAt i).occupancy ≠ .free := by
      intro ho
      unfold Arena.isSpent at hs
      rw [ho] at hs
      cases hs
    exact h.reclaim hd (Arena.lt_size_of_occupied ho) fun hi => ho (h.free i hi).2
  · rename_i hs
    refine { h with listed := fun j hj ho => .inl ?_, awaited := fun j c hc => .inr ?_ }
    · rcases h.listed j hj ho with hj | hj
      · exact hj
      · cases hj; exact hfree ho
    · rcases h.awaited j c hc with e | hpos
      · cases e
        unfold Arena.isSpent at hs
        rw [hc] at hs
        exact Nat.pos_of_ne_zero fun e => hs (beq_iff_eq.mpr e)
      · exact hpos

omit [Measure.Exact ν] in
/-- References are counted; a slot that has lost one is in hand. -/
theorem Inventory.recountRefs (h : p.Inventory base none) (i : Nat) (count : Nat → Nat)
    (hcount : hand' = some i ∨ ∀ n, 0 < n → 0 < count n) :
    Inventory base hand' { p with arena := p.arena.modifySlot i fun slot => match slot.occupancy with
      | .live c => { slot with occupancy := .live { c with refs := count c.refs } }
      | .released c => { slot with occupancy := .released { c with refs := count c.refs } }
      | .free => slot } := by
  refine h.modifySlot (h.toSound.recountRefs i count).sound ?_ nofun (fun hlt ho => ?_) (fun c hc => ?_)
    fun c hc => ?_
  · split <;> rfl
  · have hfree : (p.arena.slotAt i).occupancy = .free := by
      cases hocc : (p.arena.slotAt i).occupancy with
      | free => rfl
      | live c => rw [hocc] at ho; cases ho
      | released c => rw [hocc] at ho; cases ho
    exact .inl ((h.listed i hlt hfree).resolve_right nofun)
  · cases hocc : (p.arena.slotAt i).occupancy with
    | free => rw [hocc] at hc; unfold Slot.contents? at hc; rw [hocc] at hc; cases hc
    | live c' =>
      rw [hocc] at hc
      cases hc
      exact h.stocked i c' (by unfold Slot.contents?; rw [hocc])
    | released c' =>
      rw [hocc] at hc
      cases hc
      exact h.stocked i c' (by unfold Slot.contents?; rw [hocc])
  · cases hocc : (p.arena.slotAt i).occupancy with
    | free => rw [hocc] at hc; rw [hocc] at hc; cases hc
    | live c' => rw [hocc] at hc; cases hc
    | released c' =>
      rw [hocc] at hc
      cases hc
      exact hcount.imp_right fun hcount => hcount _ ((h.awaited i c' hocc).resolve_left nofun)

omit [Measure.Exact ν] in
theorem Inventory.acquire (h : p.Inventory base none) (k : Handle) : (p.acquire k).2.Inventory base none := by
  unfold Pool.acquire
  split
  · exact h
  · exact h.recountRefs _ (· + 1) (.inr fun n _ => Nat.succ_pos n)

theorem Inventory.relinquish (h : p.Inventory base none) (hd : p.Destroys) (k : Handle) :
    (p.relinquish k).2.Inventory base none := by
  unfold Pool.relinquish
  split
  · exact h
  · rename_i i hi
    obtain ⟨hlt, -⟩ := Arena.position?_eq_some.mp hi
    have hdropped : Inventory base (some i) { p with arena := p.arena.dropRef i } :=
      h.recountRefs i (· - 1) (.inl rfl)
    refine hdropped.reclaimSpent hd fun ho => (h.listed i hlt ?_).resolve_right nofun
    have ho : (Arena.slotAt (p.arena.dropRef i) i).occupancy = .free := ho
    unfold Arena.dropRef at ho
    rw [Arena.slotAt_modifySlot_self _ hlt] at ho
    cases hocc : (p.arena.slotAt i).occupancy with
    | free => rfl
    | live c => rw [hocc] at ho; cases ho
    | released c => rw [hocc] at ho; cases ho

theorem Inventory.release (h : p.Inventory base none) (hd : p.Destroys) (k : Handle) :
    (p.release k).2.Inventory base none := by
  unfold Pool.release
  cases hr : p.arena.locate k with
  | error failure => exact h
  | ok x =>
    obtain ⟨i, r⟩ := x
    obtain ⟨rfl, c, b, ho, -, -⟩ := Arena.locate_eq_ok.mp hr
    have hgiven := (h.toSound.giveUp (Slot.isLive_iff.mpr ⟨c, ho⟩)).1
    have hlt := Arena.lt_size_of_occupied (a := p.arena) (i := i) (by rw [ho]; nofun)
    have hhand : Inventory base (some i) { p with arena := p.arena.giveUp i } := by
      refine h.modifySlot hgiven.sound (by rw [ho]) nofun (fun _ hf => ?_) (fun c' hc => ?_) fun _ _ => .inl rfl
      · rw [ho] at hf; cases hf
      · rw [ho] at hc
        cases hc
        exact h.stocked i c (by unfold Slot.contents?; rw [ho])
    refine hhand.reclaimSpent (hgiven.destroys hd) fun hf => ?_
    have hf : ((p.arena.giveUp i).slotAt i).occupancy = .free := hf
    unfold Arena.giveUp at hf
    rw [Arena.slotAt_modifySlot_self _ hlt, ho] at hf
    cases hf

/-! ## Every slot is invalidated -/

/-- Some slots are free and have no buffer, and are all that is listed. -/
structure Cleared (base : Nat) (p p' : Pool ν α) (done : List Nat) : Prop extends p.Leads p' where
  destroys : p'.Destroys
  size : p'.arena.slots.size = p.arena.slots.size
  closing : p'.arena.closing = p.arena.closing
  listed : p'.arena.free = done
  cleared : ∀ i ∈ done, (p'.arena.slotAt i).occupancy = .free ∧ (p'.arena.slotAt i).backing = none
  kept : ∀ i ∉ done, p'.arena.slotAt i = p.arena.slotAt i
  made : ∀ i b, (p'.arena.slotAt i).backing = some b → ∃ x, p'.device.buffers[b.buffer]? = some x ∧
    x.destroyed = false ∧ x.block.size = b.capacity
  funded : p'.device.footprint = base + p'.arena.capacity

omit [Measure ν] [Measure.Exact ν] in
theorem invalidateSlot_of_none (hb : (p.arena.slotAt i).backing = none) :
    p.invalidateSlot i = (.ok (), { p with arena := { p.arena.vacate i with free := p.arena.free ++ [i] } }) := by
  unfold invalidateSlot destroyBacking
  rw [hb]
  rfl

omit [Measure ν] [Measure.Exact ν] in
theorem invalidateSlot_of_some (hd : p.Destroys) {b : Backing} (hb : (p.arena.slotAt i).backing = some b) :
    p.invalidateSlot i = (.ok (),
      ⟨{ p.arena.vacate i with free := p.arena.free ++ [i] },
        { p.device with buffers := p.device.buffers.modify b.buffer fun x => { x with destroyed := true } }⟩) := by
  unfold invalidateSlot destroyBacking
  rw [hb]
  dsimp only
  cases hdestroy : p.device.destroyBuffer b.buffer with
  | mk result device =>
    cases result with
    | error r => exact absurd (Device.call_error hdestroy).1 (hd r)
    | ok u =>
      rw [Device.call_ok hdestroy]
      unfold Attempt.andThen
      dsimp only
      rw [Arena.modifySlot_modifySlot]
      rfl

omit [Measure ν] [Measure.Exact ν] in
/-- The buffer of the slot is gone from the device, and that of no other slot. -/
theorem Cleared.vacates {q : Pool ν α} {done : List Nat} (h : Cleared base p q done) (i : Nat) :
    ∃ device : Device ν α,
      q.invalidateSlot i = (.ok (), ⟨{ q.arena.vacate i with free := q.arena.free ++ [i] }, device⟩) ∧
      device.faults = q.device.faults ∧ device.footprint + (q.arena.slotAt i).capacity = q.device.footprint ∧
      ∀ j b, i ≠ j → (q.arena.slotAt j).backing = some b → ∃ x, device.buffers[b.buffer]? = some x ∧
        x.destroyed = false ∧ x.block.size = b.capacity := by
  unfold Slot.capacity
  cases hb : (q.arena.slotAt i).backing with
  | none => exact ⟨q.device, invalidateSlot_of_none hb, rfl, rfl, fun j b _ hj => h.made j b hj⟩
  | some b =>
    obtain ⟨x, hx, hlive, hsize⟩ := h.made i b hb
    have hgone := q.device.footprint_destroy hx hlive
    rw [hsize] at hgone
    refine ⟨_, invalidateSlot_of_some h.destroys hb, rfl, hgone, fun j c hij hj => ?_⟩
    obtain ⟨y, hy, hrest⟩ := h.made j c hj
    have hne : b.buffer ≠ c.buffer := fun e => hij (h.sound.alone i j b c hb hj e)
    exact ⟨y, by simp only [Array.getElem?_modify, if_neg hne]; exact hy, hrest⟩

omit [Measure ν] [Measure.Exact ν] in
theorem Cleared.step {q : Pool ν α} {done : List Nat} (h : Cleared base p q done) (hlt : i < p.arena.slots.size)
    (hoff : i ∉ done) :
    (q.invalidateSlot i).1 = .ok () ∧ Cleared base p (q.invalidateSlot i).2 (done ++ [i]) := by
  have hlt' : i < q.arena.slots.size := h.size ▸ hlt
  have hl := (invalidateSlot_spec h.sound hlt' (h.listed ▸ hoff)).1
  obtain ⟨device, heq, hfaults, hgone, hmade⟩ := h.vacates i
  have hslot := q.arena.slotAt_vacate hlt'
  rw [heq] at hl ⊢
  refine ⟨rfl, { h.toLeads.trans hl with
    destroys := fun r => hfaults ▸ h.destroys r
    size := (Arena.size_modifySlot ..).trans h.size
    closing := h.closing
    listed := congrArg (· ++ [i]) h.listed
    cleared := fun j hj => ?_
    kept := fun j hj => ?_
    made := fun j b hj => ?_
    funded := ?_ }⟩
  · show ((q.arena.vacate i).slotAt j).occupancy = .free ∧ ((q.arena.vacate i).slotAt j).backing = none
    rw [hslot]
    split
    · exact ⟨rfl, rfl⟩
    · rename_i hij
      exact h.cleared j ((List.mem_append.mp hj).resolve_right fun e => hij (List.mem_singleton.mp e).symm)
  · show (q.arena.vacate i).slotAt j = p.arena.slotAt j
    rw [hslot, if_neg fun e : i = j => hj (List.mem_append_right _ (e ▸ List.mem_singleton_self i))]
    exact h.kept j fun hdone => hj (List.mem_append_left _ hdone)
  · have hj : ((q.arena.vacate i).slotAt j).backing = some b := hj
    rw [hslot] at hj
    split at hj
    · cases hj
    · rename_i hij
      exact hmade j b hij hj
  · -- device and table lose the same bytes
    have hless := q.arena.capacity_vacate hlt'
    have hfunded := h.funded
    show device.footprint = base + (q.arena.vacate i).capacity
    omega

omit [Measure ν] [Measure.Exact ν] in
theorem Cleared.each {q : Pool ν α} {done : List Nat} (h : Cleared base p q done) {l : List Nat}
    (hn : (done ++ l).Nodup) (hlt : ∀ i ∈ l, i < p.arena.slots.size) :
    (Attempt.each invalidateSlot q l).1 = .ok () ∧ Cleared base p (Attempt.each invalidateSlot q l).2
    (done ++ l) := by
  induction l generalizing q done with
  | nil => exact ⟨rfl, by rw [List.append_nil]; exact h⟩
  | cons i l ih =>
    have hoff : i ∉ done := fun hi => (List.nodup_append.mp hn).2.2 i hi i (List.mem_cons_self ..) rfl
    obtain ⟨hok, hstep⟩ := h.step (hlt i (List.mem_cons_self ..)) hoff
    unfold Attempt.each Attempt.andThen
    generalize q.invalidateSlot i = r at hok hstep
    obtain ⟨r, q'⟩ := r
    cases hok
    rw [← List.singleton_append, ← List.append_assoc] at hn ⊢
    exact ih hstep hn fun j hj => hlt j (List.mem_cons_of_mem _ hj)

omit [Measure.Exact ν] in
/-- An invalidation frees every slot of the table, and lists them in order. -/
theorem Inventory.invalidated (h : p.Inventory base none) (hd : p.Destroys) :
    ∃ q : Pool ν α, p.invalidate = (.ok (), { q with arena := { q.arena with allocated := 0 } }) ∧
      Cleared base { p with arena := { p.arena with free := [] } } q (List.range p.arena.slots.size) := by
  have hempty : p.Leads { p with arena := { p.arena with free := [] } } :=
    ⟨{ h.toSound with nodup := List.nodup_nil, free := fun _ h => by cases h }, .refl _, .refl _, rfl, .refl _, id⟩
  have hstart : Cleared base { p with arena := { p.arena with free := [] } }
      { p with arena := { p.arena with free := [] } } [] :=
    { Leads.refl hempty.sound with
      destroys := hd, size := rfl, closing := rfl, listed := rfl, cleared := by simp, kept := fun _ _ => rfl,
      made := fun i b hb => by
        obtain ⟨x, hx, hlive, hsize, -⟩ := h.made i b hb
        exact ⟨x, hx, hlive, hsize⟩
      funded := h.funded }
  obtain ⟨hok, hall⟩ := hstart.each (l := List.range p.arena.slots.size) List.nodup_range fun i hi =>
      List.mem_range.mp hi
  rw [List.nil_append] at hall
  unfold Pool.invalidate Attempt.andThen
  dsimp only
  generalize Attempt.each invalidateSlot _ _ = r at hok hall ⊢
  obtain ⟨r, q⟩ := r
  cases hok
  exact ⟨q, rfl, hall⟩

theorem Inventory.invalidate (h : p.Inventory base none) (hd : p.Destroys) :
    p.invalidate.2.Inventory base none := by
  obtain ⟨q, hq, hcleared⟩ := h.invalidated hd
  rw [hq]
  have hall (i : Nat) : (q.arena.slotAt i).occupancy = .free ∧ (q.arena.slotAt i).backing = none := by
    rcases Nat.lt_or_ge i q.arena.slots.size with hi | hi
    · exact hcleared.cleared i (List.mem_range.mpr (hcleared.size ▸ hi))
    · rw [q.arena.slotAt_of_size_le hi]; exact ⟨rfl, rfl⟩
  have hcapacity : q.arena.capacity = 0 := Arena.capacity_eq_zero fun i => (hall i).2
  have hpooled : q.arena.pooledBytes ≤ p.arena.pooledBytes := by
    rw [Arena.pooledBytes_eq_zero fun i => (hall i).2]
    exact Nat.zero_le _
  refine { (hcleared.sound.recount 0).sound with
           listed := fun i hi _ => .inl ?_, made := fun i b hb => ?_, stocked := fun i c hc => ?_,
           awaited := fun i c hc => ?_, booked := hcapacity.symm, funded := hcleared.funded,
           solvent := fun bound hbound hzero => ?_, compact := ?_ }
  · have hlisted : q.arena.free = List.range p.arena.slots.size := hcleared.listed
    show i ∈ q.arena.free
    rw [hlisted]
    exact List.mem_range.mpr (hcleared.size ▸ hi)
  · have hb : (q.arena.slotAt i).backing = some b := hb
    rw [(hall i).2] at hb
    cases hb
  · have hc : (q.arena.slotAt i).contents? = some c := hc
    unfold Slot.contents? at hc
    rw [(hall i).1] at hc
    cases hc
  · have hc : (q.arena.slotAt i).occupancy = .released c := hc
    rw [(hall i).1] at hc
    cases hc
  · have hbound : q.arena.options.budget = some bound := hbound
    rw [hcleared.options] at hbound
    exact hzero
  · show Measure.ofNat 0 ≤ q.arena.options.maxPooled → Measure.ofNat q.arena.pooledBytes ≤ q.arena.options.maxPooled
    rw [hcleared.options]
    exact fun hzero => Measure.Exact.le_of_le hpooled (h.compact hzero)

theorem Inventory.close (h : p.Inventory base none) (hd : p.Destroys) (closing : Closing) :
    (p.close closing).2.Inventory base none := by
  have hstock := h.invalidate hd
  obtain ⟨q, hq, -⟩ := h.invalidated hd
  unfold Pool.close
  rw [hq] at hstock ⊢
  exact { hstock with }

/-! ## Requests -/

theorem Request.perform_inventory (h : p.Inventory base none) (hd : p.Destroys) (r : Request ν) :
    (r.perform p).2.Inventory base none := by
  cases r with
  | allocate format size => exact h.allocate hd format size
  | release k =>
    show (Attempt.endWith (p.release k) _).2.Inventory _ _
    rw [Attempt.endWith_snd]
    exact h.release hd k
  | acquire k => exact h.acquire k
  | relinquish k =>
    show (Attempt.endWith (p.relinquish k) _).2.Inventory _ _
    rw [Attempt.endWith_snd]
    exact h.relinquish hd k
  | invalidate =>
    show (Attempt.endWith p.invalidate _).2.Inventory _ _
    rw [Attempt.endWith_snd]
    exact h.invalidate hd
  | trim =>
    show (Attempt.endWith p.trim _).2.Inventory _ _
    rw [Attempt.endWith_snd]
    exact h.trim hd
  | close closing =>
    show (Attempt.endWith (p.close closing) _).2.Inventory _ _
    rw [Attempt.endWith_snd]
    exact h.close hd closing
  | script faults => exact { h with }
  | limit bytes => exact { h with }

theorem run_inventory (h : p.Inventory base none) (hd : p.Destroys) (rs : List (Request ν))
    (hf : ∀ r ∈ rs, r.Fair) : (run p rs).2.Inventory base none := by
  induction rs generalizing p with
  | nil => exact h
  | cons r rs ih =>
    have hd' := (r.perform_spec h.toSound).destroys hd (hf r (List.mem_cons_self ..))
    exact ih (r.perform_inventory h hd) hd' fun r hr => hf r (List.mem_cons_of_mem _ hr)

omit [Measure.Exact ν] in
theorem Request.perform_options (h : p.Sound) (r : Request ν) :
    (r.perform p).2.arena.options = p.arena.options := by
  cases r with
  | allocate format size =>
    obtain ⟨herr, hok⟩ := p.allocate_spec h format size
    show (p.allocate format size).2.arena.options = _
    cases hr : (p.allocate format size).1 with
    | error failure => exact (herr failure hr).options
    | ok k =>
      obtain ⟨bytes, -, ha⟩ := hok k hr
      exact ha.toLeads.options
  | release k =>
    show (Attempt.endWith (p.release k) _).2.arena.options = _
    rw [Attempt.endWith_snd]
    exact (p.release_spec h k).1.options
  | acquire k => exact (p.acquire_spec h k).options
  | relinquish k =>
    show (Attempt.endWith (p.relinquish k) _).2.arena.options = _
    rw [Attempt.endWith_snd]
    exact (p.relinquish_spec h k).options
  | invalidate =>
    show (Attempt.endWith p.invalidate _).2.arena.options = _
    rw [Attempt.endWith_snd]
    exact (p.invalidate_spec h).1.options
  | trim =>
    show (Attempt.endWith p.trim _).2.arena.options = _
    rw [Attempt.endWith_snd]
    exact (p.trim_quiet h).options
  | close closing =>
    show (Attempt.endWith (p.close closing) _).2.arena.options = _
    rw [Attempt.endWith_snd]
    exact (p.close_spec h closing).1.options
  | script faults => rfl
  | limit bytes => rfl

omit [Measure.Exact ν] in
theorem run_options (h : p.Sound) (rs : List (Request ν)) : (run p rs).2.arena.options = p.arena.options := by
  induction rs generalizing p with
  | nil => rfl
  | cons r rs ih => exact (ih (r.perform_spec h).sound).trans (r.perform_options h)

omit [Measure.Exact ν] in
theorem Inventory.start (options : ArenaOptions ν) (device : Device ν α) :
    Inventory device.footprint none ⟨{ options }, device⟩ := by
  have hempty (i : Nat) : Arena.slotAt { options } i = .empty := Arena.slotAt_of_size_le _ (Nat.zero_le i)
  exact { Sound.start options device with
    listed := fun i hi => absurd hi (Nat.not_lt_zero i)
    made := fun i b hb => by rw [hempty] at hb; cases hb
    stocked := fun i c hc => by rw [hempty] at hc; cases hc
    awaited := fun i c hc => by rw [hempty] at hc; cases hc
    booked := rfl, funded := rfl, solvent := fun _ _ hzero => hzero, compact := id }

/-- What an arena keeps true whose bounds admit an empty one: both bounds are kept. -/
structure Books (base : Nat) (hand : Option Nat) (p : Pool ν α) : Prop extends p.Inventory base hand where
  budget : ∀ bound, p.arena.options.budget = some bound → Measure.ofNat p.arena.allocated ≤ bound
  pooled : Measure.ofNat p.arena.pooledBytes ≤ p.arena.options.maxPooled

omit [Measure.Exact ν] in
theorem Books.start (options : ArenaOptions ν) (device : Device ν α)
    (hbudget : ∀ bound, options.budget = some bound → Measure.ofNat 0 ≤ bound)
    (hpooled : Measure.ofNat 0 ≤ options.maxPooled) : Books device.footprint none ⟨{ options }, device⟩ :=
  { Inventory.start options device with budget := hbudget, pooled := hpooled }

theorem run_books (h : p.Books base none) (hd : p.Destroys) (rs : List (Request ν)) (hf : ∀ r ∈ rs, r.Fair) :
    (run p rs).2.Books base none := by
  have hstock := run_inventory h.toInventory hd rs hf
  have hoptions := run_options h.toSound rs
  refine { hstock with budget := fun bound hbound => hstock.solvent bound hbound ?_, pooled := hstock.compact ?_ }
  · rw [hoptions] at hbound
    exact Measure.Exact.le_of_le (Nat.zero_le _) (h.budget bound hbound)
  · rw [hoptions]
    exact Measure.Exact.le_of_le (Nat.zero_le _) h.pooled

/-- However an arena is used from its start, by requests that succeed and requests that fail: the list of free
slots is exact; what is held or waited for has a buffer of its own that is as large as declared; only what is
referred to is waited for; the count of bytes is that of all buffers of slots, and of all buffers made on the
device since the start and not destroyed; and both bounds on bytes are kept. -/
theorem accounts_exact (options : ArenaOptions ν) (device : Device ν α)
    (hbudget : ∀ bound, options.budget = some bound → Measure.ofNat 0 ≤ bound)
    (hpooled : Measure.ofNat 0 ≤ options.maxPooled) (rs : List (Request ν))
    (hd : Pool.Destroys ⟨{ options }, device⟩) (hf : ∀ r ∈ rs, r.Fair) :
    let p := (run (⟨{ options }, device⟩ : Pool ν α) rs).2
    (p.arena.free.Nodup ∧
      ∀ i, i ∈ p.arena.free ↔ i < p.arena.slots.size ∧ (p.arena.slotAt i).occupancy = .free) ∧
    (∀ i c, (p.arena.slotAt i).occupancy = .live c ∨ (p.arena.slotAt i).occupancy = .released c →
      4 ∣ c.size ∧ ∃ b, (p.arena.slotAt i).backing = some b ∧ b.usage = c.format.usage ∧ c.size ≤ b.capacity) ∧
    (∀ i b, (p.arena.slotAt i).backing = some b → ∃ x, p.device.buffers[b.buffer]? = some x ∧
      x.destroyed = false ∧ x.block.size = b.capacity ∧ x.usage = b.usage.flags?) ∧
    (∀ i c, (p.arena.slotAt i).occupancy = .released c → 0 < c.refs) ∧
    (∀ i, (p.arena.slotAt i).occupancy = .free → (p.arena.slotAt i).refs = 0) ∧
    (∀ i j b c, (p.arena.slotAt i).backing = some b → (p.arena.slotAt j).backing = some c →
      b.buffer = c.buffer → i = j) ∧
    p.arena.allocated = p.arena.capacity ∧
    p.device.footprint = device.footprint + p.arena.allocated ∧
    (∀ bound, options.budget = some bound → Measure.ofNat p.arena.allocated ≤ bound) ∧
    Measure.ofNat p.arena.pooledBytes ≤ options.maxPooled := by
  intro p
  have hstart := Books.start options device hbudget hpooled
  have hbooks := run_books hstart hd rs hf
  have hoptions : p.arena.options = options := run_options hstart.toSound rs
  refine ⟨⟨hbooks.nodup, fun i => ⟨hbooks.free i, fun ⟨hi, ho⟩ => (hbooks.listed i hi ho).resolve_right nofun⟩⟩,
    fun i c hc => hbooks.stocked i c ?_, hbooks.made, fun i c hc => (hbooks.awaited i c hc).resolve_left nofun,
    fun i ho => ?_, hbooks.alone, hbooks.booked, ?_, fun bound hbound =>
      hbooks.budget bound (by rw [hoptions]; exact hbound), ?_⟩
  · unfold Slot.contents?
    rcases hc with hc | hc <;> rw [hc]
  · unfold Slot.refs Slot.contents?
    rw [ho]
    rfl
  · rw [hbooks.booked]
    exact hbooks.funded
  · rw [← hoptions]
    exact hbooks.pooled

/-- A slot is given up while a command refers to it, a second one takes what is left of the budget, and a third is
refused. -/
theorem accounts_exact_shared :
    let options : ArenaOptions Int := ⟨some 64, 32, "Arena"⟩
    let device : Device Int Unit := { limits := .standard }
    let rs : List (Request Int) := [.allocate .params 32, .acquire ⟨.number 0, .number 0⟩,
      .release ⟨.number 0, .number 0⟩, .allocate .params 30, .allocate .params 4]
    let p := (run (⟨{ options }, device⟩ : Pool Int Unit) rs).2
    ((∀ bound, options.budget = some bound → Measure.ofNat 0 ≤ bound) ∧ Measure.ofNat 0 ≤ options.maxPooled ∧
      Pool.Destroys ⟨{ options }, device⟩ ∧ ∀ r ∈ rs, r.Fair) ∧
    p.arena.allocated = 64 ∧ p.device.footprint = device.footprint + p.arena.allocated ∧
    ∀ bound, options.budget = some bound → Measure.ofNat p.arena.allocated ≤ bound := by
  intro options device rs
  have hbudget : ∀ bound, options.budget = some bound → (Measure.ofNat 0 : Int) ≤ bound := by
    intro bound hb
    cases hb
    decide
  have hd : Pool.Destroys ⟨{ options }, device⟩ := fun r hr => absurd hr List.not_mem_nil
  have hf : ∀ r ∈ rs, r.Fair := by simp [rs, Request.Fair]
  have hallocated : (run (⟨{ options }, device⟩ : Pool Int Unit) rs).2.arena.allocated = 64 := by decide +kernel
  obtain ⟨-, -, -, -, -, -, -, hfunded, hbound, -⟩ := accounts_exact options device hbudget (by decide) rs hd hf
  -- nothing more is computed of the run
  generalize (run (⟨{ options }, device⟩ : Pool Int Unit) rs).2 = p at hallocated hfunded hbound ⊢
  exact ⟨⟨hbudget, by decide, hd, hf⟩, hallocated, hfunded, hbound⟩

end Pool

end Strata
