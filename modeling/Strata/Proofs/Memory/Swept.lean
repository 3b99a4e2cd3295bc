import Strata.Proofs.Memory.References

/-!
# Slots that are given up

A slot that is given up is freed at once, or by whoever drops the last reference to it: no request leaves one that
nothing refers to (`Request.perform_swept`). Releasing handles that are still live leaves none of them live
(`releaseLive_contains`).
-/

namespace Strata

variable {ν α : Type}

namespace Arena

/-- No slot is given up and referred to by nothing. -/
def Swept (a : Arena ν) : Prop := ∀ i, a.isSpent i = false

variable {a a' : Arena ν} {i : Nat}

theorem Swept.congr (h : a.Swept) (ho : ∀ i, (a'.slotAt i).occupancy = (a.slotAt i).occupancy) : a'.Swept := by
  intro i
  unfold isSpent
  rw [ho i]
  exact h i

theorem isSpent_of_size_le (h : a.slots.size ≤ i) : a.isSpent i = false := by
  unfold isSpent
  rw [a.slotAt_of_size_le h]
  rfl

theorem isSpent_modifySlot_of_ne {j : Nat} (hij : i ≠ j) (f : Slot ν → Slot ν) :
    (a.modifySlot i f).isSpent j = a.isSpent j := by
  unfold isSpent
  rw [slotAt_modifySlot_of_ne a hij]

theorem Swept.modifySlot (h : a.Swept) {f : Slot ν → Slot ν}
    (hf : ∀ c, (f (a.slotAt i)).occupancy = .released c → (a.slotAt i).occupancy = .released c ∨ c.refs ≠ 0) :
    (a.modifySlot i f).Swept := by
  intro j
  by_cases hij : i = j
  · subst hij
    by_cases hlt : i < a.slots.size
    · unfold isSpent
      rw [slotAt_modifySlot_self a hlt]
      cases ho : (f (a.slotAt i)).occupancy with
      | free => rfl
      | live c => rfl
      | released c =>
        rcases hf c ho with hold | hrefs
        · have hi := h i
          unfold isSpent at hi
          rw [hold] at hi
          exact hi
        · exact beq_false_of_ne hrefs
    · unfold isSpent
      rw [slotAt_modifySlot, if_neg fun hc => hlt hc.2]
      exact h i
  · rw [isSpent_modifySlot_of_ne hij]
    exact h j

theorem Swept.released (h : a.Swept) {c : Contents ν} (hc : (a.slotAt i).occupancy = .released c) : c.refs ≠ 0 := by
  intro hz
  have hi := h i
  unfold isSpent at hi
  rw [hc] at hi
  simp [hz] at hi

end Arena

namespace Pool

variable {p p' : Pool ν α} {i : Nat}

theorem destroyBacking_swept (h : p.arena.Swept) (i : Nat) : (p.destroyBacking i).2.arena.Swept :=
  h.congr (destroyBacking_occupancy p i)

theorem dropBacking_swept (h : p.arena.Swept) (i : Nat) : (p.dropBacking i).2.arena.Swept :=
  h.congr (dropBacking_occupancy p i)

theorem trim_swept (h : p.arena.Swept) : p.trim.2.arena.Swept :=
  Attempt.each_keeps (P := fun p' : Pool ν α => p'.arena.Swept) (fun _ hp' i _ => dropBacking_swept hp' i) h

theorem vacancy_swept {a : Arena ν} (h : a.Swept) : a.vacancy.2.Swept :=
  h.congr fun j => by rw [a.slotAt_vacancy]

section
variable [Measure ν]

theorem ensureBudget_swept (h : p.arena.Swept) (bytes : Nat) : (p.ensureBudget bytes).2.arena.Swept := by
  unfold ensureBudget
  split
  · exact h
  · split
    · exact h
    · refine Attempt.andThen_keeps (P := fun p' : Pool ν α => p'.arena.Swept) (trim_swept h) fun _ _ => ?_
      split <;> exact trim_swept h

theorem createSlot_swept (h : p.arena.Swept) (usage : SlotUsage) (bytes : Nat) :
    (p.createSlot usage bytes).2.arena.Swept := by
  have hbudget := ensureBudget_swept h bytes
  refine Attempt.andThen_keeps (P := fun p' : Pool ν α => p'.arena.Swept) hbudget fun _ _ => ?_
  have hvacancy := vacancy_swept hbudget
  dsimp only
  generalize (p.ensureBudget bytes).2 = q at hvacancy ⊢
  generalize q.arena.vacancy = v at hvacancy ⊢
  split
  · exact hvacancy
  · exact hvacancy.modifySlot fun c hc => .inl hc

theorem takeSlot_swept (h : p.arena.Swept) (usage : SlotUsage) (bytes : Nat) :
    (p.takeSlot usage bytes).2.arena.Swept := by
  unfold takeSlot
  split
  · exact h
  · exact createSlot_swept h usage bytes

theorem allocate_swept (h : p.arena.Swept) (format : SlotFormat ν) (size : ν) :
    (p.allocate format size).2.arena.Swept := by
  unfold allocate
  split
  · exact h
  · exact h
  · have htake := takeSlot_swept h format.usage
    refine Attempt.andThen_keeps (P := fun p' : Pool ν α => p'.arena.Swept) (htake _) fun i _ => ?_
    exact (htake _).modifySlot fun c hc => by cases hc

/-- Only the slot that is swept may have been given up. -/
theorem reclaimSpent_swept (h : ∀ j, i ≠ j → p.arena.isSpent j = false) : (p.reclaimSpent i).2.arena.Swept := by
  unfold reclaimSpent
  split
  · rename_i hspent
    have hlt : i < p.arena.slots.size := by
      refine Arena.lt_size_of_occupied fun ho => ?_
      unfold Arena.isSpent at hspent
      rw [ho] at hspent
      cases hspent
    have hfreed : (p.arena.modifySlot i fun slot =>
        { slot with generation := slot.generation + 1, occupancy := .free }).Swept := by
      intro j
      by_cases hij : i = j
      · subst hij
        unfold Arena.isSpent
        rw [Arena.slotAt_modifySlot_self _ hlt]
      · rw [Arena.isSpent_modifySlot_of_ne hij]
        exact h j hij
    unfold reclaim
    dsimp only
    split
    · have hdrop := dropBacking_swept (p := { p with arena := p.arena.modifySlot i fun slot =>
        { slot with generation := slot.generation + 1, occupancy := .free } }) hfreed i
      exact Attempt.andThen_keeps (P := fun p' : Pool ν α => p'.arena.Swept) hdrop fun _ _ => hdrop
    · exact hfreed
  · rename_i hspent
    intro j
    by_cases hij : i = j
    · subst hij
      exact Bool.eq_false_iff.mpr hspent
    · exact h j hij

theorem relinquish_swept (h : p.arena.Swept) (k : Handle) : (p.relinquish k).2.arena.Swept := by
  unfold relinquish
  split
  · exact h
  · rename_i i _
    refine reclaimSpent_swept fun j hij => ?_
    exact (Arena.isSpent_modifySlot_of_ne hij _).trans (h j)

theorem release_swept (h : p.arena.Swept) (k : Handle) : (p.release k).2.arena.Swept := by
  unfold release
  split
  · exact h
  · rename_i i _ _
    refine reclaimSpent_swept fun j hij => ?_
    exact (Arena.isSpent_modifySlot_of_ne hij _).trans (h j)

omit [Measure ν] in
theorem acquire_swept (h : p.arena.Swept) (k : Handle) : (p.acquire k).2.arena.Swept := by
  unfold acquire
  split
  · exact h
  · refine h.modifySlot fun c hc => ?_
    split at hc
    · cases hc
    · cases hc
      exact .inr (Nat.succ_ne_zero _)
    · exact .inl hc

omit [Measure ν] in
theorem invalidate_swept (h : p.arena.Swept) : p.invalidate.2.arena.Swept := by
  have hall : (Attempt.each invalidateSlot { p with arena := { p.arena with free := [] } }
      (List.range p.arena.slots.size)).2.arena.Swept := by
    refine Attempt.each_keeps (P := fun p' : Pool ν α => p'.arena.Swept) (fun p' hp' i _ => ?_) h
    have hdestroy := destroyBacking_swept hp' i
    refine Attempt.andThen_keeps (P := fun p' : Pool ν α => p'.arena.Swept) hdestroy fun _ _ => ?_
    exact hdestroy.modifySlot fun c hc => by cases hc
  exact Attempt.andThen_keeps (P := fun p' : Pool ν α => p'.arena.Swept) hall fun _ _ => hall

/-- Whatever is asked of an arena, it leaves no slot that is given up and referred to by nothing. -/
theorem Request.perform_swept (h : p.arena.Swept) (r : Request ν) : (r.perform p).2.arena.Swept := by
  cases r with
  | allocate format size => exact allocate_swept h format size
  | release k =>
    show (Attempt.endWith (p.release k) _).2.arena.Swept
    rw [Attempt.endWith_snd]
    exact release_swept h k
  | acquire k => exact acquire_swept h k
  | relinquish k =>
    show (Attempt.endWith (p.relinquish k) _).2.arena.Swept
    rw [Attempt.endWith_snd]
    exact relinquish_swept h k
  | invalidate =>
    show (Attempt.endWith p.invalidate _).2.arena.Swept
    rw [Attempt.endWith_snd]
    exact invalidate_swept h
  | trim =>
    show (Attempt.endWith p.trim _).2.arena.Swept
    rw [Attempt.endWith_snd]
    exact trim_swept h
  | close closing =>
    show (Attempt.endWith (p.close closing) _).2.arena.Swept
    rw [Attempt.endWith_snd]
    exact Attempt.andThen_keeps (P := fun p' : Pool ν α => p'.arena.Swept) (invalidate_swept h) fun _ _ =>
      invalidate_swept h
  | script | limit => exact h

/-- What is live afterwards was live before and is not among what was released. -/
theorem releaseLive_contains (hp : p.Sound) (hd : p.Destroys) (handles : List Handle) (k : Handle) :
    (p.releaseLive handles).2.arena.contains k = true ↔ p.arena.contains k = true ∧ k ∉ handles := by
  unfold releaseLive
  induction handles generalizing p with
  | nil => simp [Attempt.each]
  | cons h rest ih =>
    obtain ⟨hl, hk, hok⟩ := releaseIfLive_spec hp h
    have hok := hok hd
    unfold Attempt.each Attempt.andThen
    generalize p.releaseIfLive h = r at hl hk hok
    obtain ⟨r, p'⟩ := r
    cases hok
    dsimp only
    rw [ih hl.sound (hl.destroys hd), hk k, List.mem_cons, not_or, and_assoc]

end

end Pool

end Strata
