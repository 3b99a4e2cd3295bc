import Strata.Proofs.Memory.Budgets

/-!
# Buffers of free slots

A free slot that has a buffer is on the list of free slots, but for those at hand (`Arena.Shelved`). So requests
leave the arena, as long as the device destroys buffers (`Request.perform_shelved`), and a trim leaves no buffer to
a free slot (`trim_bare`).
-/

namespace Strata

variable {ν α : Type}

namespace Arena

def Shelved (hand : List Nat) (a : Arena ν) : Prop :=
  ∀ i, (a.slotAt i).occupancy = .free → i ∉ a.free → i ∉ hand → (a.slotAt i).backing = none

variable {a : Arena ν} {hand : List Nat} {i : Nat}

theorem Shelved.mono {hand' : List Nat} (h : a.Shelved hand) (hh : hand ⊆ hand') : a.Shelved hand' :=
  fun j ho hoff hj => h j ho hoff fun hmem => hj (hh hmem)

theorem Shelved.modifySlot (h : a.Shelved hand) {f : Slot ν → Slot ν}
    (hf : (f (a.slotAt i)).occupancy = .free → i ∉ a.free → i ∉ hand → (f (a.slotAt i)).backing = none) :
    (a.modifySlot i f).Shelved hand := by
  intro j ho hoff hj
  rw [slotAt_modifySlot] at ho ⊢
  split at ho
  · rename_i hij
    rw [if_pos hij]
    obtain ⟨rfl, -⟩ := hij
    exact hf ho hoff hj
  · rename_i hij
    rw [if_neg hij]
    exact h j ho hoff hj

/-- A slot that is changed while it is at hand. -/
theorem Shelved.atHand (h : a.Shelved hand) (f : Slot ν → Slot ν) : (a.modifySlot i f).Shelved (i :: hand) :=
  (h.mono (List.subset_cons_self ..)).modifySlot fun _ _ hi => absurd (List.mem_cons_self ..) hi

theorem Shelved.recount (h : a.Shelved hand) (i : Nat) (count : Nat → Nat) : (a.modifySlot i fun slot =>
    match slot.occupancy with
    | .live c => { slot with occupancy := .live { c with refs := count c.refs } }
    | .released c => { slot with occupancy := .released { c with refs := count c.refs } }
    | .free => slot).Shelved hand := by
  refine h.modifySlot ?_
  cases ho : (a.slotAt i).occupancy with
  | live c => nofun
  | released c => nofun
  | free => exact h i

theorem Shelved.giveUp (h : a.Shelved hand) (i : Nat) : (a.giveUp i).Shelved hand := by
  refine h.modifySlot ?_
  cases ho : (a.slotAt i).occupancy with
  | live c => nofun
  | released | free => exact h i

theorem Shelved.shelve (h : a.Shelved (i :: hand)) : ({ a with free := a.free ++ [i] } : Arena ν).Shelved hand :=
  fun j ho hoff hj => h j ho (fun hmem => hoff (List.mem_append_left _ hmem)) fun hmem => by
    rcases List.mem_cons.mp hmem with rfl | hmem
    · exact hoff (List.mem_append_right _ (List.mem_singleton_self _))
    · exact hj hmem

theorem Shelved.take (h : a.Shelved hand) (i : Nat) :
    ({ a with free := a.free.erase i } : Arena ν).Shelved (i :: hand) :=
  fun j ho hoff hj => h j ho
    (fun hmem => hoff ((List.mem_erase_of_ne (List.ne_of_not_mem_cons hj)).mpr hmem))
    fun hmem => hj (List.mem_cons_of_mem _ hmem)

theorem Shelved.vacancy (h : a.Shelved hand) : a.vacancy.2.Shelved hand := by
  unfold Arena.vacancy
  split
  · rename_i i hfind
    have hbare : (a.slotAt i).backing = none := by
      simpa using List.find?_some hfind
    intro j ho hoff hj
    by_cases hij : j = i
    · subst hij
      exact hbare
    · exact h j ho (fun hmem => hoff ((List.mem_erase_of_ne hij).mpr hmem)) hj
  · rename_i hfind
    have hslot (j : Nat) : slotAt { a with slots := a.slots.push .empty } j = a.slotAt j := by
      have hvacancy := a.slotAt_vacancy j
      unfold Arena.vacancy at hvacancy
      rw [hfind] at hvacancy
      exact hvacancy
    intro j ho hoff hj
    rw [hslot] at ho ⊢
    exact h j ho hoff hj

end Arena

namespace Pool

variable {p : Pool ν α} {hand : List Nat} {i : Nat}

theorem destroyBacking_shelved (h : p.arena.Shelved hand) (i : Nat) :
    (p.destroyBacking i).2.arena.Shelved hand := by
  unfold destroyBacking
  split
  · exact h
  · split
    · exact h
    · exact h.modifySlot fun _ _ _ => rfl

theorem dropBacking_shelved (h : p.arena.Shelved hand) (i : Nat) : (p.dropBacking i).2.arena.Shelved hand :=
  Attempt.andThen_keeps (P := fun p : Pool ν α => p.arena.Shelved hand) (destroyBacking_shelved h i) fun _ _ =>
    destroyBacking_shelved h i

theorem trim_shelved (h : p.arena.Shelved hand) : p.trim.2.arena.Shelved hand :=
  Attempt.each_keeps (P := fun p : Pool ν α => p.arena.Shelved hand) (fun _ hp i _ => dropBacking_shelved hp i) h

/-- After a trim no free slot has a buffer. -/
theorem trim_bare (h : p.arena.Shelved []) (hd : p.Destroys) (ho : (p.trim.2.arena.slotAt i).occupancy = .free) :
    (p.trim.2.arena.slotAt i).backing = none := by
  obtain ⟨-, hstripped⟩ := trim_stripped hd
  by_cases hi : i ∈ p.arena.free
  · exact hstripped.bare i hi
  · rw [hstripped.kept i hi] at ho ⊢
    exact h i ho hi List.not_mem_nil

theorem destroyBacking_handleAt (p : Pool ν α) (i j : Nat) :
    (p.destroyBacking i).2.arena.handleAt j = p.arena.handleAt j := by
  unfold destroyBacking
  split
  · rfl
  · split
    · rfl
    · unfold Arena.handleAt
      dsimp only
      rw [Arena.slotAt_modifySlot]
      split <;> rfl

theorem trim_handleAt (p : Pool ν α) (i : Nat) : p.trim.2.arena.handleAt i = p.arena.handleAt i := by
  refine Attempt.each_keeps (P := fun q : Pool ν α => q.arena.handleAt i = p.arena.handleAt i)
    (fun q hq j _ => ?_) rfl
  have hdestroy := (destroyBacking_handleAt q j i).trans hq
  exact Attempt.andThen_keeps (P := fun q : Pool ν α => q.arena.handleAt i = p.arena.handleAt i) hdestroy
    fun _ _ => hdestroy

theorem acquire_shelved (h : p.arena.Shelved hand) (k : Handle) : (p.acquire k).2.arena.Shelved hand := by
  unfold acquire
  split
  · exact h
  · exact h.recount _ (· + 1)

theorem invalidateSlot_shelved (h : p.arena.Shelved (i :: hand)) (hd : p.Destroys) :
    (p.invalidateSlot i).1 = .ok () ∧ (p.invalidateSlot i).2.Destroys ∧
    (p.invalidateSlot i).2.arena.Shelved hand := by
  have hfreed := h.modifySlot (i := i) (f := fun slot => ⟨slot.generation + 1, .free, none⟩) fun _ _ _ => rfl
  cases hb : (p.arena.slotAt i).backing with
  | none =>
    rw [invalidateSlot_of_none hb]
    exact ⟨rfl, hd, hfreed.shelve⟩
  | some b =>
    rw [invalidateSlot_of_some hd hb]
    exact ⟨rfl, fun r => hd r, hfreed.shelve⟩

theorem each_invalidateSlot_shelved {l : List Nat} (h : p.arena.Shelved l) (hd : p.Destroys) :
    (Attempt.each invalidateSlot p l).1 = .ok () ∧ (Attempt.each invalidateSlot p l).2.arena.Shelved [] := by
  induction l generalizing p with
  | nil => exact ⟨rfl, h⟩
  | cons i l ih =>
    obtain ⟨hok, hd', h'⟩ := invalidateSlot_shelved h hd
    unfold Attempt.each Attempt.andThen
    generalize p.invalidateSlot i = r at hok hd' h'
    obtain ⟨r, q⟩ := r
    cases hok
    exact ih h' hd'

theorem invalidate_shelved (hd : p.Destroys) : p.invalidate.2.arena.Shelved [] := by
  have hhand : Arena.Shelved (List.range p.arena.slots.size) { p.arena with free := [] } := fun i _ _ hi => by
    have hslot : Arena.slotAt { p.arena with free := [] } i = .empty :=
      p.arena.slotAt_of_size_le (Nat.not_lt.mp fun hlt => hi (List.mem_range.mpr hlt))
    rw [hslot]
    rfl
  obtain ⟨-, hall⟩ := each_invalidateSlot_shelved (p := { p with arena := { p.arena with free := [] } }) hhand hd
  exact Attempt.andThen_keeps (P := fun p : Pool ν α => p.arena.Shelved []) hall fun _ _ => hall

variable [Measure ν]

theorem ensureBudget_shelved (h : p.arena.Shelved hand) (bytes : Nat) :
    (p.ensureBudget bytes).2.arena.Shelved hand := by
  unfold ensureBudget
  split
  · exact h
  · split
    · exact h
    · refine Attempt.andThen_keeps (P := fun p : Pool ν α => p.arena.Shelved hand) (trim_shelved h) fun _ _ => ?_
      split <;> exact trim_shelved h

/-- The slots at hand after one was asked for. -/
def taken : Except Failure Nat → List Nat
  | .ok i => [i]
  | .error _ => []

theorem createSlot_shelved (h : p.arena.Shelved []) (usage : SlotUsage) (bytes : Nat) :
    (p.createSlot usage bytes).2.arena.Shelved (taken (p.createSlot usage bytes).1) := by
  have hbudget := ensureBudget_shelved h bytes
  unfold createSlot Attempt.andThen
  generalize p.ensureBudget bytes = r at hbudget
  obtain ⟨r, q⟩ := r
  cases r with
  | error failure => exact hbudget
  | ok u =>
    have hvacancy := hbudget.vacancy
    dsimp only
    generalize q.arena.vacancy = v at hvacancy ⊢
    obtain ⟨i, a⟩ := v
    dsimp only
    split
    · exact (hvacancy.mono (List.nil_subset [i])).shelve
    · exact hvacancy.atHand _

theorem takeSlot_shelved (h : p.arena.Shelved []) (usage : SlotUsage) (bytes : Nat) :
    (p.takeSlot usage bytes).2.arena.Shelved (taken (p.takeSlot usage bytes).1) := by
  unfold takeSlot
  split
  · exact h.take _
  · exact createSlot_shelved h usage bytes

theorem allocate_shelved (h : p.arena.Shelved []) (format : SlotFormat ν) (size : ν) :
    (p.allocate format size).2.arena.Shelved [] := by
  unfold allocate
  split
  · exact h
  · exact h
  · rename_i bytes _ _
    have htake := takeSlot_shelved h format.usage bytes
    unfold Attempt.andThen
    generalize p.takeSlot format.usage bytes = r at htake
    obtain ⟨r, q⟩ := r
    cases r with
    | error failure => exact htake
    | ok i =>
      -- The slot at hand is live now.
      intro j ho hoff _
      change ((q.arena.occupy i format bytes).slotAt j).occupancy = .free at ho
      show ((q.arena.occupy i format bytes).slotAt j).backing = none
      unfold Arena.occupy at ho ⊢
      rw [Arena.slotAt_modifySlot] at ho ⊢
      split at ho
      · cases ho
      · rename_i hij
        rw [if_neg hij]
        by_cases hj : j ∈ [i]
        · obtain rfl := List.mem_singleton.mp hj
          rw [q.arena.slotAt_of_size_le (Nat.not_lt.mp fun hlt => hij ⟨rfl, hlt⟩)]
          rfl
        · exact htake j ho hoff hj

theorem reclaimSpent_shelved (h : p.arena.Shelved []) (hd : p.Destroys) (i : Nat) :
    (p.reclaimSpent i).2.arena.Shelved [] := by
  have hfreed := h.atHand (i := i) fun slot => { slot with generation := slot.generation + 1, occupancy := .free }
  unfold reclaimSpent
  split
  · unfold reclaim
    dsimp only
    split
    · let q : Pool ν α := { p with arena := p.arena.modifySlot i fun slot =>
        { slot with generation := slot.generation + 1, occupancy := .free } }
      have hok : (q.dropBacking i).1 = .ok () := dropBacking_ok (p := q) hd i
      have hdrop : (q.dropBacking i).2.arena.Shelved [i] := dropBacking_shelved (p := q) hfreed i
      show (Attempt.andThen (q.dropBacking i) _).2.arena.Shelved []
      unfold Attempt.andThen
      generalize q.dropBacking i = r at hok hdrop
      obtain ⟨r, q'⟩ := r
      cases hok
      exact hdrop.shelve
    · exact hfreed.shelve
  · exact h

theorem release_shelved (h : p.arena.Shelved []) (hd : p.Destroys) (k : Handle) :
    (p.release k).2.arena.Shelved [] := by
  unfold release
  split
  · exact h
  · rename_i i _ _
    exact reclaimSpent_shelved (p := { p with arena := p.arena.giveUp i }) (h.giveUp i) hd i

theorem relinquish_shelved (h : p.arena.Shelved []) (hd : p.Destroys) (k : Handle) :
    (p.relinquish k).2.arena.Shelved [] := by
  unfold relinquish
  split
  · exact h
  · rename_i i _
    exact reclaimSpent_shelved (p := { p with arena := p.arena.dropRef i }) (h.recount i (· - 1)) hd i

/-- Whatever is asked of an arena, its free slots that have buffers are on the list. -/
theorem Request.perform_shelved (h : p.arena.Shelved []) (hd : p.Destroys) (r : Request ν) :
    (r.perform p).2.arena.Shelved [] := by
  have hend (a : Attempt Failure (Pool ν α) Unit) (ha : a.2.arena.Shelved [])
      (answer : Except Failure (Option Handle)) :
      (a.endWith answer).2.arena.Shelved [] := by
    rw [Attempt.endWith_snd]
    exact ha
  cases r with
  | allocate format size => exact allocate_shelved h format size
  | release k => exact hend (p.release k) (release_shelved h hd k) _
  | acquire k => exact acquire_shelved h k
  | relinquish k => exact hend (p.relinquish k) (relinquish_shelved h hd k) _
  | invalidate => exact hend p.invalidate (invalidate_shelved hd) _
  | trim => exact hend p.trim (trim_shelved h) _
  | close closing =>
    have hinvalidate := invalidate_shelved hd
    have hclose : (p.close closing).2.arena.Shelved [] :=
      Attempt.andThen_keeps (P := fun p : Pool ν α => p.arena.Shelved []) hinvalidate fun _ _ => hinvalidate
    exact hend (p.close closing) hclose _
  | script | limit => exact h

end Pool

end Strata
