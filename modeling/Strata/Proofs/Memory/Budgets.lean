import Strata.Proofs.Memory.Accounts
import Strata.Proofs.Memory.References

/-!
# Allocation within a budget

A request is served by the smallest free buffer that fits, or by a new one. A new one is counted against the budget
twice, before the pool is trimmed and after. Trimming leaves the buffers of occupied slots and no others
(`Pool.Inventory.trim_capacity`), so the second count is of `Arena.occupiedBytes`, whatever was pooled before;
`Pool.budget_exact` reads the whole decision off the slots.
-/

namespace Strata

variable {ν α : Type}

/-- Measures in which no byte count is both within a bound and beyond it. -/
class Measure.Exclusive (ν : Type) [Measure ν] : Prop where
  not_lt_of_le {bound : ν} {n : Nat} : Measure.ofNat n ≤ bound → ¬ bound < Measure.ofNat n

instance : Measure.Exclusive Int where
  not_lt_of_le h := Int.not_lt.mpr h

def Slot.occupiedBytes (s : Slot ν) : Nat :=
  match s.occupancy with
  | .free => 0
  | _ => s.capacity

theorem Slot.occupiedBytes_le (s : Slot ν) : s.occupiedBytes ≤ s.capacity := by
  unfold occupiedBytes
  split
  · exact Nat.zero_le _
  · exact Nat.le_refl _

namespace Arena

def occupiedBytes (a : Arena ν) : Nat := (a.slots.toList.map Slot.occupiedBytes).sum

def Offers (a : Arena ν) (usage : SlotUsage) (bytes i : Nat) : Prop :=
  (a.slotAt i).occupancy = .free ∧ ∃ b, (a.slotAt i).backing = some b ∧ b.usage = usage ∧ bytes ≤ b.capacity

variable {a a' : Arena ν} {usage : SlotUsage} {bytes i : Nat}

theorem occupiedBytes_le (a : Arena ν) : a.occupiedBytes ≤ a.capacity :=
  List.sum_le_sum fun s _ => s.occupiedBytes_le

theorem sum_map_slots (a : Arena ν) (g : Slot ν → Nat) :
    (a.slots.toList.map g).sum = ((List.range a.slots.size).map fun i => g (a.slotAt i)).sum := by
  refine congrArg List.sum (List.ext_getElem (by simp) fun i hi _ => ?_)
  have hlt : i < a.slots.size := by simpa using hi
  simp [slotAt, Array.getD_eq_getD_getElem?, hlt]

/-- Of two tables of one size, the bytes held by one are the bytes occupied in the other. -/
theorem capacity_eq_occupiedBytes (hsize : a'.slots.size = a.slots.size)
    (h : ∀ i, (a'.slotAt i).capacity = (a.slotAt i).occupiedBytes) : a'.capacity = a.occupiedBytes := by
  unfold capacity occupiedBytes
  rw [sum_map_slots, sum_map_slots, hsize]
  simp only [h]

theorem fits_iff : a.fits usage bytes i = true ↔
    ∃ b, (a.slotAt i).backing = some b ∧ b.usage = usage ∧ bytes ≤ b.capacity := by
  unfold fits
  cases (a.slotAt i).backing <;> simp

theorem backing_occupy (a : Arena ν) (i : Nat) (format : SlotFormat ν) (bytes : Nat) :
    ((a.occupy i format bytes).slotAt i).backing = (a.slotAt i).backing := by
  unfold occupy
  rw [slotAt_modifySlot]
  split <;> rfl

/-! ## The search for a slot -/

/-- Of what a search has seen so far and what comes, it ends with the smallest. -/
theorem foldl_smallest (size : Nat → Nat) (l : List Nat) (best : Option Nat) :
    let found := l.foldl (fun best i => match best with
      | none => some i
      | some b => if size i < size b then some i else some b) best
    (found = none → best = none ∧ l = []) ∧
      ∀ i, found = some i → (∀ b, best = some b → size i ≤ size b) ∧ ∀ j ∈ l, size i ≤ size j := by
  induction l generalizing best with
  | nil => exact ⟨fun h => ⟨h, rfl⟩, fun i h => ⟨fun b hb => by cases h.symm.trans hb; exact Nat.le_refl _, nofun⟩⟩
  | cons j l ih =>
    obtain ⟨hnone, hsome⟩ := ih (match best with
      | none => some j
      | some b => if size j < size b then some j else some b)
    refine ⟨fun h => ?_, fun i hi => ?_⟩
    · have hbest := (hnone h).1
      split at hbest
      · cases hbest
      · split at hbest <;> cases hbest
    · obtain ⟨hle, hrest⟩ := hsome i hi
      cases best with
      | none => exact ⟨nofun, List.forall_mem_cons.mpr ⟨hle j rfl, hrest⟩⟩
      | some b =>
        dsimp only at hle
        split at hle
        · rename_i hlt
          have hij := hle j rfl
          refine ⟨fun b' hb' => ?_, List.forall_mem_cons.mpr ⟨hij, hrest⟩⟩
          cases hb'
          exact Nat.le_trans hij (Nat.le_of_lt hlt)
        · rename_i hge
          have hib := hle b rfl
          refine ⟨fun b' hb' => ?_, List.forall_mem_cons.mpr ⟨Nat.le_trans hib (Nat.le_of_not_lt hge), hrest⟩⟩
          cases hb'
          exact hib

theorem bestFit_none (h : a.bestFit? usage bytes = none) {i : Nat} (hi : i ∈ a.free) :
    ¬ a.fits usage bytes i = true := by
  intro hfits
  have hnil := ((foldl_smallest (fun i => (a.slotAt i).capacity) _ none).1 h).2
  exact List.not_mem_nil (hnil ▸ List.mem_filter.mpr ⟨hi, hfits⟩)

theorem bestFit_least (h : a.bestFit? usage bytes = some i) {j : Nat} (hj : j ∈ a.free)
    (hfits : a.fits usage bytes j = true) : (a.slotAt i).capacity ≤ (a.slotAt j).capacity :=
  ((foldl_smallest (fun i => (a.slotAt i).capacity) _ none).2 i h).2 j (List.mem_filter.mpr ⟨hj, hfits⟩)

end Arena

/-! ## The device -/

namespace Device

variable [Measure ν] {d : Device ν α} {bytes : Nat}

def Accepts (d : Device ν α) (bytes : Nat) : Prop :=
  ∀ label usage, ∃ id, (d.createBuffer label usage bytes).1 = .ok id

theorem accepts_of_unlimited (hfaults : d.faults = []) (hlimit : d.maxAllocation = none)
    (hbytes : bytes < hostMemory) : d.Accepts bytes := by
  intro label usage
  unfold createBuffer takeFault
  rw [hfaults]
  simp [hlimit, Nat.not_le.mpr hbytes]

theorem Accepts.setBuffers (h : d.Accepts bytes) (buffers : Heap α) : Accepts { d with buffers } bytes := by
  intro label usage
  obtain ⟨id, hid⟩ := h label usage
  unfold createBuffer takeFault at hid ⊢
  cases hfault : d.faults.lookup .createBuffer with
  | some fault =>
    rw [hfault] at hid
    cases hid
  | none =>
    rw [hfault] at hid
    dsimp only at hid ⊢
    split at hid
    · cases hid
    · rename_i hroom
      rw [if_neg hroom]
      exact ⟨_, rfl⟩

end Device

namespace Pool

variable {p p' q : Pool ν α} {i : Nat} {done : List Nat}

/-! ## Trimming -/

/-- Some slots have lost their buffers, and nothing else has changed. -/
structure Stripped (p p' : Pool ν α) (done : List Nat) : Prop where
  arena : ∃ slots allocated, p'.arena = { p.arena with slots, allocated }
  device : ∃ buffers, p'.device = { p.device with buffers } ∧ buffers.size = p.device.buffers.size
  size : p'.arena.slots.size = p.arena.slots.size
  occupancy : ∀ i, (p'.arena.slotAt i).occupancy = (p.arena.slotAt i).occupancy
  bare : ∀ i ∈ done, (p'.arena.slotAt i).backing = none
  kept : ∀ i ∉ done, p'.arena.slotAt i = p.arena.slotAt i

theorem Stripped.refl (p : Pool ν α) : p.Stripped p [] :=
  ⟨⟨_, _, rfl⟩, ⟨_, rfl, rfl⟩, rfl, fun _ => rfl, nofun, fun _ _ => rfl⟩

theorem Stripped.drop (h : p.Stripped q done) (hd : q.Destroys) (i : Nat) :
    (q.dropBacking i).1 = .ok () ∧ p.Stripped (q.dropBacking i).2 (done ++ [i]) := by
  refine ⟨dropBacking_ok hd i, ?_⟩
  have hbare := dropBacking_backing hd i
  have hocc := dropBacking_occupancy q i
  obtain ⟨-, hsize⟩ := dropBacking_free q i
  have hother {j : Nat} (hij : i ≠ j) : (q.dropBacking i).2.arena.slotAt j = q.arena.slotAt j := by
    cases hb : (q.arena.slotAt i).backing with
    | none => rw [dropBacking_of_none hb]
    | some b =>
      rw [dropBacking_of_some hd hb]
      exact Arena.slotAt_modifySlot_of_ne _ hij _
  refine ⟨?_, ?_, hsize.trans h.size, fun j => (hocc j).trans (h.occupancy j), fun j hj => ?_, fun j hj => ?_⟩
  · obtain ⟨slots, allocated, heq⟩ := h.arena
    cases hb : (q.arena.slotAt i).backing with
    | none => rw [dropBacking_of_none hb]; exact ⟨slots, allocated, heq⟩
    | some b =>
      rw [dropBacking_of_some hd hb]
      unfold Arena.modifySlot
      rw [heq]
      exact ⟨_, _, rfl⟩
  · obtain ⟨buffers, heq, hbuffers⟩ := h.device
    cases hb : (q.arena.slotAt i).backing with
    | none => rw [dropBacking_of_none hb]; exact ⟨buffers, heq, hbuffers⟩
    | some b =>
      rw [dropBacking_of_some hd hb, heq]
      exact ⟨_, rfl, by simpa using hbuffers⟩
  · by_cases hij : i = j
    · exact hij ▸ hbare
    · rw [hother hij]
      exact h.bare j ((List.mem_append.mp hj).resolve_right fun e => hij (List.mem_singleton.mp e).symm)
  · rw [hother fun hij : i = j => hj (List.mem_append_right _ (List.mem_singleton.mpr hij.symm))]
    exact h.kept j fun hdone => hj (List.mem_append_left _ hdone)

theorem Stripped.destroys (h : p.Stripped q done) (hd : p.Destroys) : q.Destroys := by
  obtain ⟨buffers, heq, -⟩ := h.device
  intro r
  rw [heq]
  exact hd r

theorem Stripped.each (h : p.Stripped q done) (hd : p.Destroys) (l : List Nat) :
    (Attempt.each dropBacking q l).1 = .ok () ∧ p.Stripped (Attempt.each dropBacking q l).2 (done ++ l) := by
  induction l generalizing q done with
  | nil => exact ⟨rfl, by rw [List.append_nil]; exact h⟩
  | cons i l ih =>
    obtain ⟨hok, hstep⟩ := h.drop (h.destroys hd) i
    unfold Attempt.each Attempt.andThen
    generalize q.dropBacking i = r at hok hstep
    obtain ⟨r, q'⟩ := r
    cases hok
    rw [← List.singleton_append, ← List.append_assoc]
    exact ih hstep

theorem trim_stripped (hd : p.Destroys) : p.trim.1 = .ok () ∧ p.Stripped p.trim.2 p.arena.free :=
  (Stripped.refl p).each hd p.arena.free

variable [Measure ν] {base : Nat} {usage : SlotUsage} {bytes : Nat} {budget : ν}

theorem Inventory.mem_free (h : p.Inventory base none) : i ∈ p.arena.free ↔
    i < p.arena.slots.size ∧ (p.arena.slotAt i).occupancy = .free :=
  ⟨h.free i, fun ⟨hlt, ho⟩ => (h.listed i hlt ho).resolve_right nofun⟩

theorem Inventory.offers_iff (h : p.Inventory base none) :
    p.arena.Offers usage bytes i ↔ i ∈ p.arena.free ∧ p.arena.fits usage bytes i = true := by
  rw [h.mem_free, Arena.fits_iff]
  refine ⟨fun ⟨ho, b, hb, hrest⟩ => ⟨⟨?_, ho⟩, b, hb, hrest⟩, fun ⟨⟨_, ho⟩, hb⟩ => ⟨ho, hb⟩⟩
  exact Arena.lt_size_of_backed (by rw [hb]; nofun)

theorem Inventory.trim_capacity (h : p.Inventory base none) (hd : p.Destroys) :
    p.trim.2.arena.capacity = p.arena.occupiedBytes := by
  obtain ⟨-, hs⟩ := trim_stripped hd
  refine Arena.capacity_eq_occupiedBytes hs.size fun i => ?_
  unfold Slot.occupiedBytes
  by_cases hi : i ∈ p.arena.free
  · rw [((h.mem_free).mp hi).2]
    unfold Slot.capacity
    rw [hs.bare i hi]
    rfl
  · rw [hs.kept i hi]
    split
    · rename_i ho
      have hge : p.arena.slots.size ≤ i := Nat.le_of_not_lt fun hlt => hi (h.mem_free.mpr ⟨hlt, ho⟩)
      rw [p.arena.slotAt_of_size_le hge]
      rfl
    · rfl

/-! ## Allocations -/

theorem allocate_failed (hp : p.Sound) {format : SlotFormat ν} {size : ν} {failure : Failure}
    (hfail : (p.allocate format size).1 = .error failure) :
    (∀ h ref, p.arena.resolve h = .ok ref → (p.allocate format size).2.arena.resolve h = .ok ref) ∧
      ∀ i, ((p.allocate format size).2.arena.slotAt i).refs = (p.arena.slotAt i).refs := by
  have hq := (p.allocate_spec hp format size).1 failure hfail
  refine ⟨fun h ref hr => Arena.resolve_later hq.later hr ?_, fun i => ?_⟩
  · rw [hq.contains]
    exact Arena.contains_of_resolve hr
  · rcases allocate_tallies hp format size i with ⟨-, hrefs⟩ | ⟨-, hnone, hrefs⟩
    · exact hrefs
    · exact hnone.trans hrefs.symm

theorem allocate_of_taken {size : ν} {format : SlotFormat ν} (hopen : p.arena.closing = none)
    (hsize : Measure.wholeWords? size = some bytes) (htake : p.takeSlot format.usage bytes = (.ok i, q)) :
    p.allocate format size = (.ok (q.arena.handleAt i), { q with arena := q.arena.occupy i format bytes }) := by
  unfold allocate Arena.checkOpen
  rw [hopen, hsize]
  dsimp only
  rw [htake]
  rfl

theorem allocate_of_refused {size : ν} {format : SlotFormat ν} {failure : Failure} (hopen : p.arena.closing = none)
    (hsize : Measure.wholeWords? size = some bytes) (htake : p.takeSlot format.usage bytes = (.error failure, q)) :
    p.allocate format size = (.error failure, q) := by
  unfold allocate Arena.checkOpen
  rw [hopen, hsize]
  dsimp only
  rw [htake]
  rfl

theorem takeSlot_of_some (hi : p.arena.bestFit? usage bytes = some i) : p.takeSlot usage bytes =
    (.ok i, { p with arena := { p.arena with free := p.arena.free.erase i } }) := by
  unfold takeSlot
  rw [hi]

theorem takeSlot_of_none (h : p.arena.bestFit? usage bytes = none) :
    p.takeSlot usage bytes = p.createSlot usage bytes := by
  unfold takeSlot
  rw [h]

/-- A free buffer that fits is taken, one of the smallest, and the device is left alone. -/
theorem Inventory.allocate_reuse (h : p.Inventory base none) {size : ν} {format : SlotFormat ν}
    (hopen : p.arena.closing = none) (hsize : Measure.wholeWords? size = some bytes) {j : Nat}
    (hj : p.arena.Offers format.usage bytes j) :
    ∃ i, p.arena.Offers format.usage bytes i ∧
      (∀ k, p.arena.Offers format.usage bytes k → (p.arena.slotAt i).capacity ≤ (p.arena.slotAt k).capacity) ∧
      (p.allocate format size).1 = .ok (p.arena.handleAt i) ∧
      ((p.allocate format size).2.arena.slotAt i).backing = (p.arena.slotAt i).backing ∧
      (p.allocate format size).2.device = p.device := by
  cases hbest : p.arena.bestFit? format.usage bytes with
  | none =>
    obtain ⟨hmem, hfits⟩ := h.offers_iff.mp hj
    exact absurd hfits (Arena.bestFit_none hbest hmem)
  | some i =>
    obtain ⟨hmem, hfits⟩ := bestFit_mem hbest
    rw [allocate_of_taken hopen hsize (takeSlot_of_some hbest)]
    refine ⟨i, h.offers_iff.mpr ⟨hmem, hfits⟩, fun k hk => ?_, rfl, ?_, rfl⟩
    · obtain ⟨hkmem, hkfits⟩ := h.offers_iff.mp hk
      exact Arena.bestFit_least hbest hkmem hkfits
    · exact Arena.backing_occupy { p.arena with free := p.arena.free.erase i } i format bytes

theorem Inventory.bestFit_none (h : p.Inventory base none) (hnone : ∀ i, ¬ p.arena.Offers usage bytes i) :
    p.arena.bestFit? usage bytes = none := by
  cases hbest : p.arena.bestFit? usage bytes with
  | none => rfl
  | some i => exact absurd (h.offers_iff.mpr (bestFit_mem hbest)) (hnone i)

/-! ## Room for a new buffer -/

section
variable [Measure.Exact ν] [Measure.Exclusive ν]

/-- Room is refused if what is occupied leaves none, and only then; of the buffers, only those of free slots are
given up for it. -/
theorem Inventory.ensureBudget_exact (h : p.Inventory base none) (hd : p.Destroys)
    (hbudget : p.arena.options.budget = some budget) (bytes : Nat) :
    (budget < Measure.ofNat (p.arena.occupiedBytes + bytes) → (p.ensureBudget bytes).1 =
      .error (.of (.budgetExceeded bytes p.arena.occupiedBytes (Numeral.text budget)))) ∧
    (¬ budget < Measure.ofNat (p.arena.occupiedBytes + bytes) → (p.ensureBudget bytes).1 = .ok ()) ∧
    ∃ done, p.Stripped (p.ensureBudget bytes).2 done := by
  obtain ⟨hok, hs⟩ := trim_stripped hd
  have hcount : p.trim.2.arena.allocated = p.arena.occupiedBytes :=
    (h.trim hd).booked.trans (h.trim_capacity hd)
  have hle : p.arena.occupiedBytes + bytes ≤ p.arena.allocated + bytes :=
    Nat.add_le_add_right (h.booked ▸ p.arena.occupiedBytes_le) bytes
  unfold Pool.ensureBudget
  rw [hbudget]
  dsimp only
  split
  · rename_i hroom
    have hfits := Measure.Exclusive.not_lt_of_le (Measure.Exact.le_of_le hle hroom)
    exact ⟨fun hlt => absurd hlt hfits, fun _ => rfl, [], .refl p⟩
  · generalize p.trim = r at hok hs hcount
    obtain ⟨r, q⟩ := r
    cases hok
    unfold Attempt.andThen Pool.demand
    dsimp only at hs hcount ⊢
    rw [hcount]
    split
    · rename_i hlt
      exact ⟨fun _ => rfl, fun hge => absurd hlt hge, _, hs⟩
    · rename_i hge
      exact ⟨fun hlt => absurd hlt hge, fun _ => rfl, _, hs⟩

/-- A slot for a new buffer is refused for want of room, or by the device. -/
theorem Inventory.createSlot_exact (h : p.Inventory base none) (hd : p.Destroys)
    (hbudget : p.arena.options.budget = some budget) (usage : SlotUsage) (bytes : Nat) :
    (budget < Measure.ofNat (p.arena.occupiedBytes + bytes) → (p.createSlot usage bytes).1 =
      .error (.of (.budgetExceeded bytes p.arena.occupiedBytes (Numeral.text budget)))) ∧
    (p.device.Accepts bytes → ¬ budget < Measure.ofNat (p.arena.occupiedBytes + bytes) →
      ∃ i, (p.createSlot usage bytes).1 = .ok i) ∧
    ∀ i, (p.createSlot usage bytes).1 = .ok i →
      (p.createSlot usage bytes).2.device.buffers.size = p.device.buffers.size + 1 ∧
      ((p.createSlot usage bytes).2.arena.slotAt i).backing = some ⟨p.device.buffers.size, bytes, usage⟩ := by
  obtain ⟨hfull, hroom, done, hs⟩ := h.ensureBudget_exact hd hbudget bytes
  have hsound := (ensureBudget_quiet h.toSound bytes).sound
  unfold Pool.createSlot Attempt.andThen
  generalize p.ensureBudget bytes = r at hfull hroom hs hsound
  obtain ⟨r, q⟩ := r
  obtain ⟨buffers, hdevice, hbuffers⟩ := hs.device
  cases r with
  | error failure => exact ⟨fun hlt => (by cases hfull hlt; rfl), fun _ hge => (by cases hroom hge), nofun⟩
  | ok u =>
    generalize hv : q.arena.vacancy = v
    obtain ⟨i, a⟩ := v
    obtain ⟨-, hlt, -⟩ := vacancy_spec hsound hv
    refine ⟨fun hlt => (by cases hfull hlt), fun haccepts _ => ?_, fun j hj => ?_⟩
    · dsimp only at hdevice ⊢
      rw [hv]
      obtain ⟨id, hid⟩ := haccepts.setBuffers buffers s!"{a.options.label} slot {i} ({usage.name})" usage.flags?
      rw [← hdevice] at hid
      dsimp only
      generalize q.device.createBuffer _ usage.flags? bytes = created at hid
      obtain ⟨result, device⟩ := created
      cases hid
      exact ⟨i, rfl⟩
    · dsimp only at hdevice hj ⊢
      rw [hv] at hj ⊢
      dsimp only at hj ⊢
      split at hj
      · cases hj
      · rename_i id device heq
        obtain ⟨rfl, rfl⟩ := Device.createBuffer_ok heq
        cases hj
        have hsize : q.device.buffers.size = p.device.buffers.size := by rw [hdevice]; exact hbuffers
        refine ⟨(Array.size_push _).trans (congrArg (· + 1) hsize), ?_⟩
        show ((a.modifySlot i _).slotAt i).backing = _
        rw [Arena.slotAt_modifySlot_self a hlt, hsize]

/-- Where no free buffer fits: an allocation is refused if what is occupied leaves no room, and then says so; else
it takes a new buffer of its size, if the device makes one. -/
theorem Inventory.allocate_create (h : p.Inventory base none) (hd : p.Destroys)
    (hbudget : p.arena.options.budget = some budget) {size : ν} {format : SlotFormat ν}
    (hopen : p.arena.closing = none) (hsize : Measure.wholeWords? size = some bytes)
    (hnone : ∀ i, ¬ p.arena.Offers format.usage bytes i) :
    (budget < Measure.ofNat (p.arena.occupiedBytes + bytes) → (p.allocate format size).1 =
      .error (.of (.budgetExceeded bytes p.arena.occupiedBytes (Numeral.text budget)))) ∧
    (p.device.Accepts bytes → ¬ budget < Measure.ofNat (p.arena.occupiedBytes + bytes) →
      ∃ k, (p.allocate format size).1 = .ok k) ∧
    ∀ k, (p.allocate format size).1 = .ok k →
      (p.allocate format size).2.device.buffers.size = p.device.buffers.size + 1 ∧
      ∃ ref x, (p.allocate format size).2.arena.resolve k = .ok ref ∧ ref.buffer = p.device.buffers.size ∧
        (p.allocate format size).2.device.buffers[ref.buffer]? = some x ∧ x.destroyed = false ∧
        x.block.size = bytes ∧ x.usage = format.usage.flags? := by
  obtain ⟨hfull, hroom, hmade⟩ := h.createSlot_exact hd hbudget format.usage bytes
  have hbooks := h.allocate hd format size
  have hresolves := (p.allocate_spec h.toSound format size).2
  have htake := takeSlot_of_none (h.bestFit_none hnone)
  generalize p.createSlot format.usage bytes = r at hfull hroom hmade htake
  obtain ⟨r, q⟩ := r
  cases r with
  | error failure =>
    rw [allocate_of_refused hopen hsize htake]
    exact ⟨fun hlt => (by cases hfull hlt; rfl), fun ha hge => (by obtain ⟨i, hi⟩ := hroom ha hge; cases hi), nofun⟩
  | ok i =>
    rw [allocate_of_taken hopen hsize htake] at hbooks hresolves ⊢
    refine ⟨fun hlt => (by cases hfull hlt), fun _ _ => ⟨_, rfl⟩, fun k hk => ?_⟩
    cases hk
    obtain ⟨hcount, hbacking⟩ := hmade i rfl
    obtain ⟨_, -, ha⟩ := hresolves _ rfl
    obtain ⟨b, hb⟩ := ha.resolves
    -- The handle names slot `i`, whose buffer is the one that was made.
    obtain ⟨j, hj⟩ := Arena.resolve_eq_ok.mp hb
    obtain ⟨hhandle, c, backing, -, hback, hr⟩ := Arena.locate_eq_ok.mp hj
    obtain rfl : i = j := by
      injection hhandle with hij
      injection hij
    obtain rfl : backing = ⟨p.device.buffers.size, bytes, format.usage⟩ :=
      Option.some.inj (hback.symm.trans ((q.arena.backing_occupy i format bytes).trans hbacking))
    obtain ⟨x, hx, hlive, hxsize, husage⟩ := hbooks.made i _ hback
    refine ⟨hcount, _, x, hb, ?_, ?_, hlive, hxsize, husage⟩
    · exact congrArg SlotRef.buffer hr
    · rw [show b = p.device.buffers.size from congrArg SlotRef.buffer hr]
      exact hx

omit [Measure.Exact ν] [Measure.Exclusive ν] in
theorem run_destroys (hp : p.Sound) (hd : p.Destroys) {rs : List (Request ν)} (hf : ∀ r ∈ rs, r.Fair) :
    (run p rs).2.Destroys := by
  induction rs generalizing p with
  | nil => exact hd
  | cons r rs ih =>
    have hspec := r.perform_spec hp
    exact ih hspec.sound (hspec.destroys hd (hf r (List.mem_cons_self ..))) fun r hr =>
      hf r (List.mem_cons_of_mem _ hr)

/-- However an arena with a budget was used from its start, and whatever its pool holds, an allocation runs out of
memory if and only if no free buffer fits and the buffers of occupied slots leave no room for another, provided the
device would make it; a free buffer that fits is used, one of the smallest, and else one buffer is made, of the size
asked for. A failed allocation changes nothing for whoever holds a handle. -/
theorem budget_exact (options : ArenaOptions ν) (device : Device ν α) (budget : ν)
    (hbudget : options.budget = some budget) (rs : List (Request ν)) (hd : Pool.Destroys ⟨{ options }, device⟩)
    (hf : ∀ r ∈ rs, r.Fair) (format : SlotFormat ν) (size : ν) (bytes : Nat)
    (hsize : Measure.wholeWords? size = some bytes)
    (hopen : (run (⟨{ options }, device⟩ : Pool ν α) rs).2.arena.closing = none) :
    let p := (run (⟨{ options }, device⟩ : Pool ν α) rs).2
    let answer := (p.allocate format size).1
    let p' := (p.allocate format size).2
    (p.device.Accepts bytes →
      ((∃ failure, answer = .error failure ∧ failure.code? = some .outOfMemory) ↔
        (∀ i, ¬ p.arena.Offers format.usage bytes i) ∧ budget < Measure.ofNat (p.arena.occupiedBytes + bytes)) ∧
      ∀ failure, answer = .error failure →
        failure = .of (.budgetExceeded bytes p.arena.occupiedBytes (Numeral.text budget))) ∧
    (∀ j, p.arena.Offers format.usage bytes j → ∃ i, p.arena.Offers format.usage bytes i ∧
      (∀ k, p.arena.Offers format.usage bytes k → (p.arena.slotAt i).capacity ≤ (p.arena.slotAt k).capacity) ∧
      answer = .ok (p.arena.handleAt i) ∧ (p'.arena.slotAt i).backing = (p.arena.slotAt i).backing ∧
      p'.device = p.device) ∧
    ((∀ i, ¬ p.arena.Offers format.usage bytes i) → ∀ h, answer = .ok h →
      p'.device.buffers.size = p.device.buffers.size + 1 ∧
      ∃ ref x, p'.arena.resolve h = .ok ref ∧ ref.buffer = p.device.buffers.size ∧
        p'.device.buffers[ref.buffer]? = some x ∧ x.destroyed = false ∧ x.block.size = bytes ∧
        x.usage = format.usage.flags?) ∧
    ∀ failure, answer = .error failure →
      (∀ h ref, p.arena.resolve h = .ok ref → p'.arena.resolve h = .ok ref) ∧
      ∀ i, (p'.arena.slotAt i).refs = (p.arena.slotAt i).refs := by
  intro p answer p'
  have hstart := Inventory.start options device
  have hstock : p.Inventory _ none := run_inventory hstart hd rs hf
  have hdp : p.Destroys := run_destroys hstart.toSound hd hf
  have hbudget : p.arena.options.budget = some budget := by
    rw [run_options hstart.toSound rs]
    exact hbudget
  have hcreate (hnone : ∀ i, ¬ p.arena.Offers format.usage bytes i) :=
    hstock.allocate_create hdp hbudget hopen hsize hnone
  have hreuse {j} (hj : p.arena.Offers format.usage bytes j) := hstock.allocate_reuse hopen hsize hj
  refine ⟨fun haccepts => ?_, fun j => hreuse, fun hnone => (hcreate hnone).2.2, fun failure =>
    allocate_failed hstock.toSound⟩
  have hanswer (failure : Failure) (hfail : answer = .error failure) :
      (∀ i, ¬ p.arena.Offers format.usage bytes i) ∧ budget < Measure.ofNat (p.arena.occupiedBytes + bytes) := by
    have hnone (i : Nat) : ¬ p.arena.Offers format.usage bytes i := by
      intro hi
      obtain ⟨k, -, -, hok, -⟩ := hreuse hi
      cases hfail.symm.trans hok
    refine ⟨hnone, by_contra fun hge => ?_⟩
    obtain ⟨k, hok⟩ := (hcreate hnone).2.1 haccepts hge
    cases hfail.symm.trans hok
  refine ⟨⟨fun ⟨failure, hfail, _⟩ => hanswer failure hfail, fun ⟨hnone, hlt⟩ => ?_⟩, fun failure hfail => ?_⟩
  · exact ⟨_, (hcreate hnone).1 hlt, rfl⟩
  · obtain ⟨hnone, hlt⟩ := hanswer failure hfail
    cases hfail.symm.trans ((hcreate hnone).1 hlt)
    rfl

end

/-- A slot is given up while a command refers to it, another is freed. What is asked for next would fit without the
first; that the second is trimmed does not help. -/
theorem budget_exact_released :
    let options : ArenaOptions Int := ⟨some 64, 64, "Arena"⟩
    let device : Device Int Unit := { limits := .standard }
    let storage : SlotFormat Int := .image .storage .srgb8 2 2
    let rs : List (Request Int) := [.allocate .params 32, .acquire ⟨.number 0, .number 0⟩,
      .release ⟨.number 0, .number 0⟩, .allocate storage 16, .release ⟨.number 1, .number 0⟩]
    let p := (run (⟨{ options }, device⟩ : Pool Int Unit) rs).2
    (options.budget = some 64 ∧ Pool.Destroys ⟨{ options }, device⟩ ∧ (∀ r ∈ rs, r.Fair) ∧
      Measure.wholeWords? (37 : Int) = some 40 ∧ p.arena.closing = none ∧ p.device.Accepts 40) ∧
    (∃ failure, (p.allocate storage 37).1 = .error failure ∧ failure.code? = some .outOfMemory) ∧
    (∀ i, ¬ p.arena.Offers .storage 40 i) ∧ 64 < p.arena.occupiedBytes + 40 ∧
    ∃ i, p.arena.Offers .storage 12 i ∧ (p.allocate storage 12).1 = .ok (p.arena.handleAt i) := by
  intro options device storage rs
  have hd : Pool.Destroys ⟨{ options }, device⟩ := fun r hr => absurd hr List.not_mem_nil
  have hf : ∀ r ∈ rs, r.Fair := by simp [rs, Request.Fair]
  have hopen : (run (⟨{ options }, device⟩ : Pool Int Unit) rs).2.arena.closing = none := by decide +kernel
  have hfaults : (run (⟨{ options }, device⟩ : Pool Int Unit) rs).2.device.faults.length = 0 := by decide +kernel
  have hlimit : (run (⟨{ options }, device⟩ : Pool Int Unit) rs).2.device.maxAllocation = none := by decide +kernel
  have hrefused : ((run (⟨{ options }, device⟩ : Pool Int Unit) rs).2.allocate storage 37).1.isOk = false := by
    decide +kernel
  have hfree : ((run (⟨{ options }, device⟩ : Pool Int Unit) rs).2.arena.slotAt 1).occupancy = .free := by
    decide +kernel
  have hbacking : ((run (⟨{ options }, device⟩ : Pool Int Unit) rs).2.arena.slotAt 1).backing =
      some ⟨1, 16, .storage⟩ := by decide +kernel
  obtain ⟨hexact, -⟩ := budget_exact options device 64 rfl rs hd hf storage 37 40 rfl hopen
  obtain ⟨-, hreuse, -⟩ := budget_exact options device 64 rfl rs hd hf storage 12 12 rfl hopen
  -- nothing more is computed of the run
  generalize (run (⟨{ options }, device⟩ : Pool Int Unit) rs).2 = p at *
  have haccepts : p.device.Accepts 40 :=
    Device.accepts_of_unlimited (List.eq_nil_of_length_eq_zero hfaults) hlimit (by decide)
  obtain ⟨i, hi, -, hok, -⟩ := hreuse 1 ⟨hfree, _, hbacking, rfl, by decide⟩
  obtain ⟨hiff, hall⟩ := hexact haccepts
  cases hanswer : (p.allocate storage 37).1 with
  | ok h =>
    rw [hanswer] at hrefused
    cases hrefused
  | error failure =>
    have hcode : failure.code? = some .outOfMemory := by rw [hall failure hanswer]; rfl
    obtain ⟨hnone, hlt⟩ := hiff.mp ⟨failure, hanswer, hcode⟩
    exact ⟨⟨rfl, hd, hf, rfl, hopen, haccepts⟩, ⟨failure, hanswer, hcode⟩, hnone, Int.ofNat_lt.mp hlt, i, hi, hok⟩

end Pool

end Strata
