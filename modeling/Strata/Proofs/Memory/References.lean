import Strata.Proofs.Memory.Handles

/-!
# References are counted

`Arena.Counts a held` says that the slots of `a` count the references in the list `held`, and no others. Whoever
takes or drops a reference changes the list by its handle; every other request leaves what is counted as it is,
and moves no slot on that is referred to (`Arena.Tallies`), unless it invalidates all of them.
-/

namespace Strata

variable {ν α : Type}

namespace Arena

/-- Each slot counts its references in a list of handles that were issued. -/
structure Counts (a : Arena ν) (held : List Handle) : Prop where
  issued : ∀ h ∈ held, a.Issued h
  refs : ∀ i, (a.slotAt i).refs = held.count (a.handleAt i)

def Current (a : Arena ν) (h : Handle) : Prop := ∃ i, a.handleAt i = h

/-- No count changes, and a slot that is referred to stays at its generation. -/
def Tallies (a a' : Arena ν) : Prop := ∀ i,
  (a'.slotAt i).generation = (a.slotAt i).generation ∧ (a'.slotAt i).refs = (a.slotAt i).refs ∨
    (a.slotAt i).generation < (a'.slotAt i).generation ∧ (a'.slotAt i).refs = 0 ∧ (a.slotAt i).refs = 0

/-- Slots stay as they are or move on, and are then referred to by nobody. -/
def Voids (a a' : Arena ν) : Prop := ∀ i,
  (a'.slotAt i).generation = (a.slotAt i).generation ∧ (a'.slotAt i).refs = (a.slotAt i).refs ∨
    (a.slotAt i).generation < (a'.slotAt i).generation ∧ (a'.slotAt i).refs = 0

variable {a a' a'' : Arena ν} {held : List Handle} {i : Nat}

theorem Tallies.refl (a : Arena ν) : a.Tallies a := fun _ => .inl ⟨rfl, rfl⟩

theorem Tallies.trans (h : a.Tallies a') (h' : a'.Tallies a'') : a.Tallies a'' := by
  intro i
  rcases h i with ⟨hg, hr⟩ | ⟨hg, hr', hr⟩ <;> rcases h' i with ⟨hg', hs⟩ | ⟨hg', hs', hs⟩
  · exact .inl ⟨hg'.trans hg, hs.trans hr⟩
  · exact .inr ⟨hg ▸ hg', hs', hr ▸ hs⟩
  · exact .inr ⟨hg' ▸ hg, hs.trans hr', hr⟩
  · exact .inr ⟨Nat.lt_trans hg hg', hs', hr⟩

theorem tallies_of_same (hg : ∀ i, (a'.slotAt i).generation = (a.slotAt i).generation)
    (ho : ∀ i, (a'.slotAt i).occupancy = (a.slotAt i).occupancy) : a.Tallies a' := by
  intro i
  refine .inl ⟨hg i, ?_⟩
  unfold Slot.refs Slot.contents?
  rw [ho i]

theorem tallies_modifySlot {f : Slot ν → Slot ν}
    (h : (f (a.slotAt i)).generation = (a.slotAt i).generation ∧ (f (a.slotAt i)).refs = (a.slotAt i).refs ∨
      (a.slotAt i).generation < (f (a.slotAt i)).generation ∧ (f (a.slotAt i)).refs = 0 ∧ (a.slotAt i).refs = 0) :
    a.Tallies (a.modifySlot i f) := by
  intro j
  rw [slotAt_modifySlot]
  split
  · rename_i hj
    rw [← hj.1]
    exact h
  · exact .inl ⟨rfl, rfl⟩

theorem Voids.refl (a : Arena ν) : a.Voids a := fun _ => .inl ⟨rfl, rfl⟩

theorem Voids.trans (h : a.Voids a') (h' : a'.Voids a'') : a.Voids a'' := by
  intro i
  rcases h i with ⟨hg, hr⟩ | ⟨hg, hr⟩ <;> rcases h' i with ⟨hg', hr'⟩ | ⟨hg', hr'⟩
  · exact .inl ⟨hg'.trans hg, hr'.trans hr⟩
  · exact .inr ⟨hg ▸ hg', hr'⟩
  · exact .inr ⟨hg' ▸ hg, hr'.trans hr⟩
  · exact .inr ⟨Nat.lt_trans hg hg', hr'⟩

theorem Tallies.voids (h : a.Tallies a') : a.Voids a' := fun i => (h i).imp_right fun ⟨hg, hr, _⟩ => ⟨hg, hr⟩

theorem Counts.not_mem (h : a.Counts held) {g : Nat} (hg : (a.slotAt i).generation < g) :
    ⟨.number i, .number g⟩ ∉ held := by
  intro hmem
  obtain ⟨j, g', heq, hold⟩ := h.issued _ hmem
  cases heq
  rcases hold with hold | ⟨rfl, -⟩
  · exact Nat.lt_asymm hg hold
  · exact Nat.lt_irrefl _ hg

theorem Counts.voids (h : a.Counts held) (hl : a.Later a') (hv : a.Voids a') : a'.Counts held := by
  refine ⟨fun k hk => (h.issued k hk).later hl, fun i => ?_⟩
  rcases hv i with ⟨hg, hr⟩ | ⟨hg, hr⟩
  · rw [hr, h.refs i]
    unfold handleAt
    rw [hg]
  · rw [hr, eq_comm, List.count_eq_zero]
    exact h.not_mem hg

theorem Counts.stays (h : a.Counts held) (ht : a.Tallies a') (hi : a.handleAt i ∈ held) :
    (a'.slotAt i).generation = (a.slotAt i).generation := by
  rcases ht i with ⟨hg, -⟩ | ⟨-, -, hr⟩
  · exact hg
  · rw [h.refs i, List.count_eq_zero] at hr
    exact absurd hi hr

theorem Counts.perm {held' : List Handle} (h : a.Counts held) (hp : held.Perm held') : a.Counts held' :=
  ⟨fun k hk => h.issued k (hp.mem_iff.mpr hk), fun i => (h.refs i).trans (hp.count_eq _)⟩

theorem Counts.occupied (h : a.Counts held) (hi : a.handleAt i ∈ held) : (a.slotAt i).occupancy ≠ .free := by
  intro ho
  have hr := h.refs i
  unfold Slot.refs Slot.contents? at hr
  rw [ho] at hr
  exact List.count_eq_zero.mp hr.symm hi

end Arena

namespace Pool

variable {p : Pool ν α} {i : Nat}

/-! ## Requests that count nothing -/

theorem destroyBacking_tallies (p : Pool ν α) (i : Nat) : p.arena.Tallies (p.destroyBacking i).2.arena := by
  unfold destroyBacking
  split
  · exact .refl _
  · split
    · exact .refl _
    · exact Arena.tallies_modifySlot (.inl ⟨rfl, rfl⟩)

theorem dropBacking_tallies (p : Pool ν α) (i : Nat) : p.arena.Tallies (p.dropBacking i).2.arena :=
  Attempt.andThen_keeps (P := fun p' : Pool ν α => p.arena.Tallies p'.arena) (p.destroyBacking_tallies i) fun _ _ =>
    p.destroyBacking_tallies i

theorem trim_tallies (p : Pool ν α) : p.arena.Tallies p.trim.2.arena :=
  Attempt.each_keeps (P := fun p' : Pool ν α => p.arena.Tallies p'.arena)
    (fun p' hp' i _ => hp'.trans (dropBacking_tallies p' i)) (.refl _)

section
variable [Measure ν]

theorem ensureBudget_tallies (p : Pool ν α) (bytes : Nat) : p.arena.Tallies (p.ensureBudget bytes).2.arena := by
  have htrim := p.trim_tallies
  unfold ensureBudget
  split
  · exact .refl _
  · split
    · exact .refl _
    · refine Attempt.andThen_keeps (P := fun p' : Pool ν α => p.arena.Tallies p'.arena) htrim fun _ _ => ?_
      split <;> exact htrim

omit [Measure ν] in
theorem vacancy_tallies (a : Arena ν) : a.Tallies a.vacancy.2 :=
  Arena.tallies_of_same (fun j => by rw [a.slotAt_vacancy]) fun j => by rw [a.slotAt_vacancy]

theorem createSlot_tallies (p : Pool ν α) (usage : SlotUsage) (bytes : Nat) :
    p.arena.Tallies (p.createSlot usage bytes).2.arena := by
  refine Attempt.andThen_keeps (P := fun p' : Pool ν α => p.arena.Tallies p'.arena) (p.ensureBudget_tallies bytes)
    fun _ _ => ?_
  have hvacancy := (p.ensureBudget_tallies bytes).trans (vacancy_tallies _)
  dsimp only
  generalize (p.ensureBudget bytes).2 = q at hvacancy ⊢
  generalize q.arena.vacancy = v at hvacancy ⊢
  split
  · exact hvacancy
  · exact hvacancy.trans (Arena.tallies_modifySlot (.inl ⟨rfl, rfl⟩))

theorem takeSlot_tallies (p : Pool ν α) (usage : SlotUsage) (bytes : Nat) :
    p.arena.Tallies (p.takeSlot usage bytes).2.arena := by
  unfold takeSlot
  split
  · exact .refl _
  · exact p.createSlot_tallies usage bytes

/-- A slot that is allocated was free, and nothing refers to it. -/
theorem allocate_tallies (hp : p.Sound) (format : SlotFormat ν) (size : ν) :
    p.arena.Tallies (p.allocate format size).2.arena := by
  unfold allocate
  split
  · exact .refl _
  · exact .refl _
  · rename_i bytes _ _
    have htake := p.takeSlot_tallies format.usage bytes
    refine Attempt.andThen_keeps (P := fun p' : Pool ν α => p.arena.Tallies p'.arena) htake fun i hi => ?_
    have hfree := ((takeSlot_spec hp format.usage bytes).2 i hi).free
    refine htake.trans (Arena.tallies_modifySlot (.inl ⟨rfl, ?_⟩))
    unfold Slot.refs Slot.contents?
    rw [hfree]
    rfl

theorem reclaimSpent_tallies (p : Pool ν α) (i : Nat) : p.arena.Tallies (p.reclaimSpent i).2.arena := by
  unfold reclaimSpent
  split
  · rename_i hs
    have hrefs : (p.arena.slotAt i).refs = 0 := by
      unfold Arena.isSpent at hs
      unfold Slot.refs Slot.contents?
      split at hs
      · rename_i c hc
        rw [hc]
        exact beq_iff_eq.mp hs
      · cases hs
    have hfreed : p.arena.Tallies (p.arena.modifySlot i fun slot =>
        { slot with generation := slot.generation + 1, occupancy := .free }) :=
      Arena.tallies_modifySlot (.inr ⟨Nat.lt_succ_self _, rfl, hrefs⟩)
    unfold reclaim
    dsimp only
    split
    · have hdrop := hfreed.trans (dropBacking_tallies { p with arena := p.arena.modifySlot i fun slot =>
        { slot with generation := slot.generation + 1, occupancy := .free } } i)
      exact Attempt.andThen_keeps (P := fun p' : Pool ν α => p.arena.Tallies p'.arena) hdrop fun _ _ => hdrop
    · exact hfreed
  · exact .refl _

theorem release_tallies (p : Pool ν α) (h : Handle) : p.arena.Tallies (p.release h).2.arena := by
  unfold release
  split
  · exact .refl _
  · rename_i i _ _
    have hgiven : p.arena.Tallies (p.arena.giveUp i) := by
      refine Arena.tallies_modifySlot (.inl ?_)
      cases ho : (p.arena.slotAt i).occupancy with
      | live c => exact ⟨rfl, by simp [Slot.refs, Slot.contents?, ho]⟩
      | released c => exact ⟨rfl, rfl⟩
      | free => exact ⟨rfl, rfl⟩
    exact hgiven.trans (reclaimSpent_tallies { p with arena := p.arena.giveUp i } i)

end

/-! ## Invalidation -/

theorem invalidateSlot_voids (p : Pool ν α) (i : Nat) : p.arena.Voids (p.invalidateSlot i).2.arena := by
  have hdestroy := (p.destroyBacking_tallies i).voids
  refine Attempt.andThen_keeps (P := fun p' : Pool ν α => p.arena.Voids p'.arena) hdestroy fun _ _ =>
    hdestroy.trans fun j => ?_
  show _ = _ ∧ _ ∨ _
  have hslot := Arena.slotAt_modifySlot (p.destroyBacking i).2.arena i j fun slot =>
      ⟨slot.generation + 1, .free, none⟩
  have hsame (a : Arena ν) : Arena.slotAt { a with free := a.free ++ [i] } j = a.slotAt j := rfl
  rw [hsame, hslot]
  split
  · exact .inr ⟨Nat.lt_succ_self _, rfl⟩
  · exact .inl ⟨rfl, rfl⟩

theorem invalidate_voids (p : Pool ν α) : p.arena.Voids p.invalidate.2.arena := by
  have hall : p.arena.Voids (Attempt.each invalidateSlot { p with arena := { p.arena with free := [] } }
      (List.range p.arena.slots.size)).2.arena :=
    Attempt.each_keeps (P := fun p' : Pool ν α => p.arena.Voids p'.arena)
      (fun p' hp' i _ => hp'.trans (p'.invalidateSlot_voids i)) (.refl _)
  exact Attempt.andThen_keeps (P := fun p' : Pool ν α => p.arena.Voids p'.arena) hall fun _ _ => hall

theorem close_voids (p : Pool ν α) (closing : Closing) : p.arena.Voids (p.close closing).2.arena :=
  Attempt.andThen_keeps (P := fun p' : Pool ν α => p.arena.Voids p'.arena) p.invalidate_voids fun _ _ =>
    p.invalidate_voids

/-! ## Taking and dropping a reference -/

variable {held : List Handle} {h : Handle}

theorem handleAt_inj {a : Arena ν} {i j : Nat} : a.handleAt i = a.handleAt j ↔ i = j := by
  refine ⟨fun e => ?_, fun e => e ▸ rfl⟩
  simp only [Arena.handleAt, Handle.mk.injEq, Ident.number.injEq] at e
  exact e.1

theorem counts_recount {a : Arena ν} {held' : List Handle} (hc : a.Counts held) (count : Nat → Nat)
    (ho : (a.slotAt i).occupancy ≠ .free) (hissued : ∀ k ∈ held', a.Issued k)
    (hself : held'.count (a.handleAt i) = count (a.slotAt i).refs)
    (hother : ∀ j, i ≠ j → held'.count (a.handleAt j) = held.count (a.handleAt j)) :
    Arena.Counts (a.modifySlot i fun slot => match slot.occupancy with
      | .live c => { slot with occupancy := .live { c with refs := count c.refs } }
      | .released c => { slot with occupancy := .released { c with refs := count c.refs } }
      | .free => slot) held' := by
  have hslot := a.slotAt_modifySlot_of_lt (Arena.lt_size_of_occupied ho) fun slot => match slot.occupancy with
    | .live c => { slot with occupancy := .live { c with refs := count c.refs } }
    | .released c => { slot with occupancy := .released { c with refs := count c.refs } }
    | .free => slot
  generalize a.modifySlot i (fun slot => match slot.occupancy with
    | .live c => { slot with occupancy := .live { c with refs := count c.refs } }
    | .released c => { slot with occupancy := .released { c with refs := count c.refs } }
    | .free => slot) = a' at hslot
  -- generations stay, and with them the handles that slots are counted by
  have hgen (j : Nat) : (a'.slotAt j).generation = (a.slotAt j).generation := by
    rw [hslot]
    split
    · split <;> rfl
    · rfl
  have hhandle (j : Nat) : a'.handleAt j = a.handleAt j := by
    unfold Arena.handleAt
    rw [hgen]
  have hoccupied (j : Nat) (hj : (a.slotAt j).occupancy ≠ .free) : (a'.slotAt j).occupancy ≠ .free := by
    rw [hslot]
    split
    · split
      · nofun
      · nofun
      · exact hj
    · exact hj
  refine ⟨fun k hk => ?_, fun j => ?_⟩
  · obtain ⟨j, g, rfl, hg⟩ := hissued k hk
    exact ⟨j, g, rfl, by rw [hgen]; exact hg.imp_right fun ⟨hg, hj⟩ => ⟨hg, hoccupied j hj⟩⟩
  · rw [hhandle]
    by_cases hij : i = j
    · subst hij
      rw [hself, hslot, if_pos rfl]
      unfold Slot.refs Slot.contents?
      cases hocc : (a.slotAt i).occupancy with
      | free => exact absurd hocc ho
      | live c => rfl
      | released c => rfl
    · rw [hother j hij, hslot, if_neg hij]
      exact hc.refs j

theorem acquire_counts (hc : p.arena.Counts held) {r : SlotRef ν} {p' : Pool ν α} (ha : p.acquire h = (.ok r, p')) :
    p'.arena.Counts (h :: held) := by
  unfold acquire at ha
  split at ha
  · cases ha
  · rename_i i ref hlocate
    obtain ⟨rfl, c, b, ho, -, -⟩ := Arena.locate_eq_ok.mp hlocate
    cases ha
    have hoccupied : (p.arena.slotAt i).occupancy ≠ .free := by rw [ho]; nofun
    refine counts_recount hc (· + 1) hoccupied (fun k hk => ?_) ?_ fun j hj => ?_
    · rcases List.mem_cons.mp hk with rfl | hk
      · exact ⟨i, _, rfl, .inr ⟨rfl, hoccupied⟩⟩
      · exact hc.issued k hk
    · rw [List.count_cons_self, hc.refs]
    · exact List.count_cons_of_ne fun e => hj (handleAt_inj.mp e)

theorem acquire_tallies (p : Pool ν α) (h : Handle) (i : Nat) :
    ((p.acquire h).2.arena.slotAt i).generation = (p.arena.slotAt i).generation := by
  unfold acquire
  split
  · rfl
  · show ((p.arena.retain _).slotAt i).generation = _
    unfold Arena.retain
    rw [Arena.slotAt_modifySlot]
    split
    · split <;> rfl
    · rfl

theorem acquire_current {r : SlotRef ν} {p' : Pool ν α} (ha : p.acquire h = (.ok r, p')) : p'.arena.Current h := by
  have hsame := p.acquire_tallies h
  rw [ha] at hsame
  unfold acquire at ha
  split at ha
  · cases ha
  · rename_i i ref hlocate
    obtain ⟨rfl, -⟩ := Arena.locate_eq_ok.mp hlocate
    refine ⟨i, ?_⟩
    unfold Arena.handleAt
    rw [hsame]

theorem acquire_error {p' : Pool ν α} {failure : Failure} (ha : p.acquire h = (.error failure, p')) : p' = p := by
  unfold acquire at ha
  split at ha <;> cases ha
  rfl

variable [Measure ν]

/-- A dropped reference is counted no more, if the slot has not moved on; what is still referred to stays. -/
theorem relinquish_counts (hp : p.Sound) (hc : p.arena.Counts (h :: held)) :
    (p.relinquish h).2.arena.Counts held ∧ ∀ i, p.arena.handleAt i ∈ held →
      ((p.relinquish h).2.arena.slotAt i).generation = (p.arena.slotAt i).generation := by
  unfold relinquish
  cases hi : p.arena.position? h with
  | none =>
    refine ⟨⟨fun k hk => hc.issued k (List.mem_cons_of_mem _ hk), fun j => ?_⟩, fun _ _ => rfl⟩
    rw [hc.refs j, List.count_cons_of_ne]
    rintro rfl
    -- A handle at the slot's generation would have been found.
    have hlt : j < p.arena.slots.size := Arena.lt_size_of_occupied (hc.occupied (List.mem_cons_self ..))
    rw [Arena.position?_eq_some.mpr ⟨hlt, rfl⟩] at hi
    cases hi
  | some i =>
    obtain ⟨hlt, rfl⟩ := Arena.position?_eq_some.mp hi
    have hdropped : Arena.Counts (p.arena.dropRef i) held := by
      refine counts_recount hc (· - 1) (hc.occupied (List.mem_cons_self ..))
        (fun k hk => hc.issued k (List.mem_cons_of_mem _ hk)) ?_ fun j hj => ?_
      · rw [hc.refs, List.count_cons_self, Nat.add_sub_cancel]
      · exact (List.count_cons_of_ne fun e => hj (handleAt_inj.mp e)).symm
    have hgen (j : Nat) : ((p.arena.dropRef i).slotAt j).generation = (p.arena.slotAt j).generation := by
      unfold Arena.dropRef
      rw [Arena.slotAt_modifySlot]
      split
      · split <;> rfl
      · rfl
    have hq := hp.recountRefs i (· - 1)
    have htallies := reclaimSpent_tallies { p with arena := p.arena.dropRef i } i
    refine ⟨hdropped.voids (reclaimSpent_spec hq.sound i).1.later htallies.voids, fun j hj => ?_⟩
    have hmem : (p.arena.dropRef i).handleAt j ∈ held := by
      unfold Arena.handleAt
      rw [hgen]
      exact hj
    exact (hdropped.stays htallies hmem).trans (hgen j)

end Pool

end Strata
