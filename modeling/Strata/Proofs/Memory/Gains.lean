import Mathlib.Algebra.GroupWithZero.Nat
import Strata.Proofs.Memory.Holding

/-!
# Several allocations

`Pool.Gains` puts allocations together: the handles they returned are new, pairwise different, and the
only ones that became live. `Pool.Spacious` is what a pool needs for its next allocations to succeed.
-/

namespace Strata.Pool

variable {ν α : Type}

/-- A slot as it was asked for. -/
structure Grant (ν : Type) where
  handle : Handle
  format : SlotFormat ν
  size : Nat

structure Gains (p p' : Pool ν α) (grants : List (Grant ν)) : Prop extends p.Leads p' where
  nodup : (grants.map (·.handle)).Nodup
  fresh : ∀ g ∈ grants, ¬ p.arena.Issued g.handle
  contains : ∀ k, p'.arena.contains k = true ↔ p.arena.contains k = true ∨ k ∈ grants.map (·.handle)
  resolves : ∀ g ∈ grants, ∃ b, p'.arena.resolve g.handle = .ok ⟨g.handle, b, g.format, g.size⟩

theorem Gains.of_quiet {p p' : Pool ν α} (h : p.Quiet p') : p.Gains p' [] :=
  ⟨h.toLeads, List.nodup_nil, fun g hg => absurd hg List.not_mem_nil, fun k => by rw [h.contains]; simp,
    fun g hg => absurd hg List.not_mem_nil⟩

theorem Gains.refl {p : Pool ν α} (hp : p.Sound) : p.Gains p [] := .of_quiet (.refl hp)

theorem Gains.of_allocated {p p' : Pool ν α} {h : Handle} {format : SlotFormat ν} {bytes : Nat}
    (ha : p.Allocated h format bytes p') : p.Gains p' [⟨h, format, bytes⟩] := by
  refine ⟨ha.toLeads, by simp, fun g hg => ?_, fun k => ?_, fun g hg => ?_⟩
  · rw [List.mem_singleton] at hg; subst hg; exact ha.fresh
  · rw [ha.contains]; simp
  · rw [List.mem_singleton] at hg; subst hg; exact ha.resolves

theorem Gains.live {p p' : Pool ν α} {grants : List (Grant ν)} (h : p.Gains p' grants) {g : Grant ν}
    (hg : g ∈ grants) : p'.arena.contains g.handle = true :=
  (h.contains _).mpr (.inr (List.mem_map_of_mem hg))

theorem Gains.issued {p p' : Pool ν α} {grants : List (Grant ν)} (h : p.Gains p' grants) {g : Grant ν}
    (hg : g ∈ grants) : p'.arena.Issued g.handle := Arena.issued_of_contains (h.live hg)

theorem Gains.not_granted {p p' : Pool ν α} {grants : List (Grant ν)} (h : p.Gains p' grants) {k : Handle}
    (hk : p.arena.contains k = true) : k ∉ grants.map (·.handle) := by
  intro hmem
  obtain ⟨g, hg, rfl⟩ := List.mem_map.mp hmem
  exact h.fresh g hg (Arena.issued_of_contains hk)

theorem Gains.trans {p p' p'' : Pool ν α} {gs gs' : List (Grant ν)} (h : p.Gains p' gs) (h' : p'.Gains p'' gs') :
    p.Gains p'' (gs ++ gs') := by
  refine ⟨h.toLeads.trans h'.toLeads, ?_, fun g hg => ?_, fun k => ?_, fun g hg => ?_⟩
  · rw [List.map_append]
    refine List.nodup_append.mpr ⟨h.nodup, h'.nodup, fun x hx y hy hxy => ?_⟩
    obtain ⟨g, hg, rfl⟩ := List.mem_map.mp hx
    obtain ⟨g', hg', rfl⟩ := List.mem_map.mp hy
    exact h'.fresh g' hg' (hxy ▸ h.issued hg)
  · rcases List.mem_append.mp hg with hg | hg
    · exact h.fresh g hg
    · exact fun hi => h'.fresh g hg (hi.later h.later)
  · rw [h'.contains, h.contains, List.map_append, List.mem_append, or_assoc]
  · rcases List.mem_append.mp hg with hg | hg
    · obtain ⟨b, hb⟩ := h.resolves g hg
      exact ⟨b, Arena.resolve_later h'.later hb ((h'.contains _).mpr (.inl (h.live hg)))⟩
    · exact h'.resolves g hg

theorem Gains.resolve {p p' : Pool ν α} {gs : List (Grant ν)} (h : p.Gains p' gs) {k : Handle} {r : SlotRef ν}
    (hr : p.arena.resolve k = .ok r) : p'.arena.resolve k = .ok r :=
  Arena.resolve_later h.later hr ((h.contains k).mpr (.inl (Arena.contains_of_resolve hr)))

theorem Sound.same_handle {p : Pool ν α} (hp : p.Sound) {h k : Handle} {r s : SlotRef ν}
    (hr : p.arena.resolve h = .ok r) (hs : p.arena.resolve k = .ok s) (he : r.buffer = s.buffer) : h = k := by
  obtain ⟨i, hi⟩ := Arena.resolve_eq_ok.mp hr
  obtain ⟨j, hj⟩ := Arena.resolve_eq_ok.mp hs
  obtain ⟨rfl, c, b, -, hb, rfl⟩ := Arena.locate_eq_ok.mp hi
  obtain ⟨rfl, c', b', -, hb', rfl⟩ := Arena.locate_eq_ok.mp hj
  rw [hp.alone i j b b' hb hb' he]

/-- A live slot has a buffer as large as it was asked to be. -/
theorem Sound.size_le {p : Pool ν α} (hp : p.Sound) {h : Handle} {r : SlotRef ν} (hr : p.arena.resolve h = .ok r) :
    r.buffer < p.device.buffers.size ∧ r.size ≤ (p.device.buffers.block r.buffer).size := by
  obtain ⟨i, hi⟩ := Arena.resolve_eq_ok.mp hr
  obtain ⟨rfl, c, b, hc, hb, rfl⟩ := Arena.locate_eq_ok.mp hi
  obtain ⟨x, hx, hs⟩ := hp.buffer i b hb
  refine ⟨(Array.getElem?_eq_some_iff.mp hx).1, ?_⟩
  unfold Heap.block
  rw [hx]
  show c.size ≤ x.block.size
  rw [hs]
  exact hp.room i c b hc hb

/-! ## Room for allocations -/

/-- Nothing stands in the way of allocations of these sizes, one after the other. -/
structure Spacious (p : Pool Int α) (sizes : List Nat) : Prop where
  isOpen : p.arena.closing = none
  faults : ∀ r, (DeviceCall.createBuffer, r) ∉ p.device.faults
  limit : ∀ bytes ∈ sizes, ∀ limit, p.device.maxAllocation = some limit → (bytes : Int) ≤ limit
  memory : ∀ bytes ∈ sizes, bytes < Device.hostMemory
  budget : ∀ budget, p.arena.options.budget = some budget → ((p.arena.allocated + sizes.sum : Nat) : Int) ≤ budget

theorem takeFault_of_not_mem {d : Device ν α} {call : DeviceCall} (h : ∀ r, (call, r) ∉ d.faults) :
    d.takeFault call = (none, d) := by
  generalize hx : d.takeFault call = x
  obtain ⟨fault, d'⟩ := x
  cases fault with
  | none => rw [Device.takeFault_none hx]
  | some r => exact absurd (Device.takeFault_some hx) (h r)

theorem Spacious.createSlot {p : Pool Int α} {bytes : Nat} {rest : List Nat} (h : p.Spacious (bytes :: rest))
    (usage : SlotUsage) : ∃ i p', p.createSlot usage bytes = (.ok i, p') ∧ p'.Spacious rest := by
  have hb : p.ensureBudget bytes = (.ok (), p) := by
    unfold ensureBudget
    split
    · rfl
    · rename_i budget heq
      have hle := h.budget budget heq
      have hdemand : p.demand bytes ≤ budget := by
        show ((p.arena.allocated + bytes : Nat) : Int) ≤ budget
        rw [List.sum_cons] at hle
        omega
      rw [if_pos hdemand]
  have hmem := h.memory bytes (List.mem_cons_self ..)
  have hrefuse : (p.device.maxAllocation.any (fun limit => limit < (Measure.ofNat bytes : Int)) ||
      decide (Device.hostMemory ≤ bytes)) = false := by
    rw [Bool.or_eq_false_iff]
    refine ⟨?_, decide_eq_false (by omega)⟩
    cases hl : p.device.maxAllocation with
    | none => rfl
    | some limit =>
      have hle := h.limit bytes (List.mem_cons_self ..) limit hl
      exact decide_eq_false fun hlt : limit < (bytes : Int) => by omega
  unfold Pool.createSlot Device.createBuffer
  rw [hb]
  simp only [Attempt.andThen, takeFault_of_not_mem h.faults, hrefuse, Bool.false_eq_true, if_false]
  have hvac : p.arena.vacancy.2.closing = p.arena.closing ∧ p.arena.vacancy.2.options = p.arena.options ∧
      p.arena.vacancy.2.allocated = p.arena.allocated := by
    unfold Arena.vacancy
    split <;> exact ⟨rfl, rfl, rfl⟩
  refine ⟨_, _, rfl, ⟨hvac.1.trans h.isOpen, h.faults, fun n hn => h.limit n (List.mem_cons_of_mem _ hn),
    fun n hn => h.memory n (List.mem_cons_of_mem _ hn), fun budget hbud => ?_⟩⟩
  have hle := h.budget budget (hvac.2.1 ▸ hbud)
  show ((p.arena.vacancy.2.allocated + bytes + rest.sum : Nat) : Int) ≤ budget
  rw [hvac.2.2, Nat.add_assoc]
  exact hle

theorem Spacious.of_cons {p : Pool Int α} {bytes : Nat} {rest : List Nat} (h : p.Spacious (bytes :: rest)) :
    p.Spacious rest where
  isOpen := h.isOpen
  faults := h.faults
  limit n hn := h.limit n (List.mem_cons_of_mem _ hn)
  memory n hn := h.memory n (List.mem_cons_of_mem _ hn)
  budget budget hb := by
    have hle := h.budget budget hb
    rw [List.sum_cons] at hle
    omega

theorem Spacious.of_append {p : Pool Int α} {sizes rest : List Nat} (h : p.Spacious (sizes ++ rest)) :
    p.Spacious rest := by
  induction sizes with
  | nil => exact h
  | cons bytes sizes ih => exact ih h.of_cons

theorem Spacious.allocate {p : Pool Int α} {bytes : Nat} {rest : List Nat} (h : p.Spacious (bytes :: rest))
    (format : SlotFormat Int) {size : Int} (hs : Measure.wholeWords? size = some bytes) :
    ∃ handle p', p.allocate format size = (.ok handle, p') ∧ p'.Spacious rest := by
  have hopen : p.arena.checkOpen = .ok () := by
    unfold Arena.checkOpen
    rw [h.isOpen]
  have htake : ∃ i p', p.takeSlot format.usage bytes = (.ok i, p') ∧ p'.Spacious rest := by
    unfold takeSlot
    split
    · exact ⟨_, _, rfl, { h.of_cons with }⟩
    · exact h.createSlot format.usage
  obtain ⟨i, p', hp', hspace⟩ := htake
  unfold Pool.allocate
  rw [hopen, hs]
  simp only [hp', Attempt.andThen]
  exact ⟨_, _, rfl, { hspace with }⟩

end Strata.Pool
