import Strata.Proofs.Memory.References

/-!
# What buffers were made for

A buffer is made for a slot of one usage and is given to no other (`Arena.Classed`), however often it is used again.
Its capacity is that of the request it was made for, so what holds of all requests that made buffers (`G`) holds of
every buffer, but a slot may be given a buffer that is larger than what it was asked for.
-/

namespace Strata

variable {ν α : Type} {G : SlotUsage → Nat → Prop}

/-- A buffer was made as `G` says, and what is live in it is of its usage. -/
structure Slot.Classed (G : SlotUsage → Nat → Prop) (s : Slot ν) : Prop where
  made : ∀ b, s.backing = some b → G b.usage b.capacity
  live : ∀ c b, s.occupancy = .live c → s.backing = some b → b.usage = c.format.usage

theorem Slot.Classed.bare {s : Slot ν} (h : s.backing = none) : s.Classed G := by
  refine ⟨fun b hb => ?_, fun c b _ hb => ?_⟩
  all_goals
    rw [h] at hb
    cases hb

theorem Slot.Classed.keep {s s' : Slot ν} (h : s.Classed G) (hb : s'.backing = s.backing)
    (ho : ∀ c, s'.occupancy = .live c → ∃ c', s.occupancy = .live c' ∧ c'.format = c.format) : s'.Classed G := by
  refine ⟨fun b hs => h.made b (hb ▸ hs), fun c b hc hs => ?_⟩
  obtain ⟨c', hc', hf⟩ := ho c hc
  exact hf ▸ h.live c' b hc' (hb ▸ hs)

namespace Arena

def Classed (G : SlotUsage → Nat → Prop) (a : Arena ν) : Prop := ∀ i, (a.slotAt i).Classed G

variable {a a' : Arena ν} {i : Nat}

theorem Classed.modifySlot (h : a.Classed G) {f : Slot ν → Slot ν} (hf : (f (a.slotAt i)).Classed G) :
    (a.modifySlot i f).Classed G := by
  intro j
  rw [slotAt_modifySlot]
  split
  · rename_i hj
    rw [← hj.1]
    exact hf
  · exact h j

theorem Classed.recount (h : a.Classed G) (i : Nat) (count : Nat → Nat) : (a.modifySlot i fun slot =>
    match slot.occupancy with
    | .live c => { slot with occupancy := .live { c with refs := count c.refs } }
    | .released c => { slot with occupancy := .released { c with refs := count c.refs } }
    | .free => slot).Classed G := by
  refine h.modifySlot ?_
  cases ho : (a.slotAt i).occupancy with
  | live c => exact (h i).keep rfl fun c' hc => by cases hc; exact ⟨c, ho, rfl⟩
  | released c => exact (h i).keep rfl nofun
  | free => exact h i

theorem Classed.giveUp (h : a.Classed G) (i : Nat) : (a.giveUp i).Classed G := by
  refine h.modifySlot ?_
  cases ho : (a.slotAt i).occupancy with
  | live c => exact (h i).keep rfl nofun
  | released | free => exact h i

end Arena

namespace Pool

variable {p : Pool ν α}

theorem destroyBacking_classed (h : p.arena.Classed G) (i : Nat) : (p.destroyBacking i).2.arena.Classed G := by
  unfold destroyBacking
  split
  · exact h
  · split
    · exact h
    · exact h.modifySlot (.bare rfl)

theorem dropBacking_classed (h : p.arena.Classed G) (i : Nat) : (p.dropBacking i).2.arena.Classed G :=
  Attempt.andThen_keeps (P := fun p : Pool ν α => p.arena.Classed G) (destroyBacking_classed h i) fun _ _ =>
    destroyBacking_classed h i

theorem trim_classed (h : p.arena.Classed G) : p.trim.2.arena.Classed G :=
  Attempt.each_keeps (P := fun p : Pool ν α => p.arena.Classed G) (fun _ hp i _ => dropBacking_classed hp i) h

theorem acquire_classed (h : p.arena.Classed G) (k : Handle) : (p.acquire k).2.arena.Classed G := by
  unfold acquire
  split
  · exact h
  · exact h.recount _ (· + 1)

theorem invalidate_classed (h : p.arena.Classed G) : p.invalidate.2.arena.Classed G := by
  have hall : (Attempt.each invalidateSlot { p with arena := { p.arena with free := [] } }
      (List.range p.arena.slots.size)).2.arena.Classed G := by
    refine Attempt.each_keeps (P := fun p : Pool ν α => p.arena.Classed G) (fun p hp i _ => ?_) h
    have hdestroy := destroyBacking_classed hp i
    exact Attempt.andThen_keeps (P := fun p : Pool ν α => p.arena.Classed G) hdestroy fun _ _ =>
      hdestroy.modifySlot (f := fun slot => ⟨slot.generation + 1, .free, none⟩) (.bare rfl)
  exact Attempt.andThen_keeps (P := fun p : Pool ν α => p.arena.Classed G) hall fun _ _ => hall

theorem close_classed (h : p.arena.Classed G) (closing : Closing) : (p.close closing).2.arena.Classed G :=
  Attempt.andThen_keeps (P := fun p : Pool ν α => p.arena.Classed G) (invalidate_classed h) fun _ _ =>
    invalidate_classed h

section
variable [Measure ν]

theorem reclaimSpent_classed (h : p.arena.Classed G) (i : Nat) : (p.reclaimSpent i).2.arena.Classed G := by
  unfold reclaimSpent
  split
  · have hfreed : (p.arena.modifySlot i fun slot =>
        { slot with generation := slot.generation + 1, occupancy := .free }).Classed G :=
      h.modifySlot ((h i).keep rfl nofun)
    unfold reclaim
    dsimp only
    split
    · exact Attempt.andThen_keeps (P := fun p : Pool ν α => p.arena.Classed G)
        (dropBacking_classed hfreed i) fun _ _ =>
        dropBacking_classed hfreed i
    · exact hfreed
  · exact h

theorem release_classed (h : p.arena.Classed G) (k : Handle) : (p.release k).2.arena.Classed G := by
  unfold release
  split
  · exact h
  · exact reclaimSpent_classed (h.giveUp _) _

theorem relinquish_classed (h : p.arena.Classed G) (k : Handle) : (p.relinquish k).2.arena.Classed G := by
  unfold relinquish
  split
  · exact h
  · exact reclaimSpent_classed (h.recount _ (· - 1)) _

theorem ensureBudget_classed (h : p.arena.Classed G) (bytes : Nat) : (p.ensureBudget bytes).2.arena.Classed G := by
  unfold ensureBudget
  split
  · exact h
  · split
    · exact h
    · refine Attempt.andThen_keeps (P := fun p : Pool ν α => p.arena.Classed G) (trim_classed h) fun _ _ => ?_
      split <;> exact trim_classed h

theorem createSlot_classed (hp : p.Sound) (h : p.arena.Classed G) {usage : SlotUsage} {bytes : Nat}
    (hg : G usage bytes) : (p.createSlot usage bytes).2.arena.Classed G := by
  have hbudget := ensureBudget_classed h bytes
  refine Attempt.andThen_keeps (P := fun p : Pool ν α => p.arena.Classed G) hbudget fun _ _ => ?_
  have hsound := (ensureBudget_quiet hp bytes).sound
  generalize (p.ensureBudget bytes).2 = p' at hbudget hsound
  generalize hv : p'.arena.vacancy = v
  obtain ⟨i, a⟩ := v
  obtain ⟨-, -, hfree, -, -⟩ := vacancy_spec hsound hv
  have hvacancy : a.Classed G := fun j => by
    have hsame := p'.arena.slotAt_vacancy j
    rw [hv] at hsame
    exact hsame ▸ hbudget j
  dsimp only
  split
  · exact hvacancy
  · refine hvacancy.modifySlot (f := fun slot => { slot with backing := some _ }) ⟨fun b hb => ?_, fun c b hc => ?_⟩
    · cases hb
      exact hg
    · dsimp only at hc
      rw [hfree] at hc
      cases hc

theorem takeSlot_classed (hp : p.Sound) (h : p.arena.Classed G) {usage : SlotUsage} {bytes : Nat}
    (hg : G usage bytes) : (p.takeSlot usage bytes).2.arena.Classed G := by
  unfold takeSlot
  split
  · exact h
  · exact createSlot_classed hp h hg

theorem allocate_sound (hp : p.Sound) (format : SlotFormat ν) (size : ν) : (p.allocate format size).2.Sound := by
  obtain ⟨herr, hok⟩ := allocate_spec hp format size
  cases h : (p.allocate format size).1 with
  | error failure => exact (herr failure h).sound
  | ok k =>
    obtain ⟨bytes, -, ha⟩ := hok k h
    exact ha.sound

theorem allocate_classed (hp : p.Sound) (h : p.arena.Classed G) {format : SlotFormat ν} {size : ν}
    (hg : ∀ bytes, Measure.wholeWords? size = some bytes → G format.usage bytes) :
    (p.allocate format size).2.arena.Classed G := by
  unfold allocate
  split
  · exact h
  · exact h
  · rename_i bytes _ hbytes
    have htake := takeSlot_classed hp h (hg bytes hbytes)
    refine Attempt.andThen_keeps (P := fun p : Pool ν α => p.arena.Classed G) htake fun i hi => ?_
    obtain ⟨b, hb, -, husage⟩ := ((takeSlot_spec hp format.usage bytes).2 i hi).fits
    refine htake.modifySlot ⟨fun b' hb' => (htake i).made b' hb', fun c b' hc hb' => ?_⟩
    dsimp only at hc hb'
    rw [hb] at hb'
    cases hb'
    cases hc
    exact husage

theorem Request.perform_classed (hp : p.Sound) (h : p.arena.Classed G) {r : Request ν}
    (hg : ∀ format size bytes, r = .allocate format size → Measure.wholeWords? size = some bytes →
      G format.usage bytes) :
    (r.perform p).2.arena.Classed G := by
  cases r with
  | allocate format size => exact allocate_classed hp h fun bytes hbytes => hg format size bytes rfl hbytes
  | release k => exact Attempt.endWith_snd .. ▸ release_classed h k
  | acquire k => exact acquire_classed h k
  | relinquish k => exact Attempt.endWith_snd .. ▸ relinquish_classed h k
  | invalidate => exact Attempt.endWith_snd .. ▸ invalidate_classed h
  | trim => exact Attempt.endWith_snd .. ▸ trim_classed h
  | close closing => exact Attempt.endWith_snd .. ▸ close_classed h closing
  | script | limit => exact h

end

end Pool

end Strata
