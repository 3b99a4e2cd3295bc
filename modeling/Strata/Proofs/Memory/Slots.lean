import Strata.Memory.Pool

/-!
# The life of a slot

`Slot.Later s s'` says what may become of a slot: its generation only grows, and while it stays, an
occupied slot keeps its buffer and what it holds. Every operation of the arena leaves every slot
later than it was, so a handle that was issued stays issued (`Arena.Issued`), and a live slot that
is still live is still the same (`resolve_later`).
-/

namespace Strata

variable {ν α : Type}

namespace Slot

def isLive (s : Slot ν) : Bool :=
  match s.occupancy with
  | .live _ => true
  | _ => false

def declared (s : Slot ν) : Option (SlotFormat ν × Nat) :=
  match s.occupancy with
  | .live c => some (c.format, c.size)
  | _ => none

def contents? (s : Slot ν) : Option (Contents ν) :=
  match s.occupancy with
  | .free => none
  | .live c | .released c => some c

/-- References of commands in flight, which only an occupied slot has. -/
def refs (s : Slot ν) : Nat := (s.contents?.map (·.refs)).getD 0

structure Later (s s' : Slot ν) : Prop where
  generation : s.generation ≤ s'.generation
  kept : s.generation = s'.generation → s.occupancy ≠ .free → s'.occupancy ≠ .free ∧ s'.backing = s.backing
  declared : s.generation = s'.generation → s.occupancy ≠ .free → s'.declared ≠ none → s'.declared = s.declared

theorem Later.refl (s : Slot ν) : s.Later s :=
  ⟨Nat.le_refl _, fun _ h => ⟨h, rfl⟩, fun _ _ _ => rfl⟩

theorem Later.trans {s s' s'' : Slot ν} (h : s.Later s') (h' : s'.Later s'') : s.Later s'' := by
  have same (e : s.generation = s''.generation) :
      s.generation = s'.generation ∧ s'.generation = s''.generation := by
    have h₁ := h.generation
    have h₂ := h'.generation
    omega
  refine ⟨Nat.le_trans h.generation h'.generation, fun e ho => ?_, fun e ho hd => ?_⟩
  · obtain ⟨e₁, e₂⟩ := same e
    obtain ⟨ho', hb'⟩ := h.kept e₁ ho
    obtain ⟨ho'', hb''⟩ := h'.kept e₂ ho'
    exact ⟨ho'', hb''.trans hb'⟩
  · obtain ⟨e₁, e₂⟩ := same e
    have hd' := h'.declared e₂ (h.kept e₁ ho).1 hd
    rw [hd'] at hd ⊢
    exact h.declared e₁ ho hd

/-- A free slot may be changed at will within its generation. -/
theorem Later.of_free {s s' : Slot ν} (hf : s.occupancy = .free) (hg : s.generation ≤ s'.generation) :
    s.Later s' :=
  ⟨hg, fun _ h => absurd hf h, fun _ h => absurd hf h⟩

theorem Later.of_lt {s s' : Slot ν} (hg : s.generation < s'.generation) : s.Later s' :=
  ⟨Nat.le_of_lt hg, fun e => absurd e (Nat.ne_of_lt hg), fun e => absurd e (Nat.ne_of_lt hg)⟩

theorem isLive_iff {s : Slot ν} : s.isLive = true ↔ ∃ c, s.occupancy = .live c := by
  unfold isLive
  cases s.occupancy <;> simp

theorem occupied_of_isLive {s : Slot ν} (h : s.isLive = true) : s.occupancy ≠ .free := by
  obtain ⟨c, hc⟩ := isLive_iff.mp h
  simp [hc]

theorem declared_ne_none {s : Slot ν} : s.declared ≠ none ↔ s.isLive = true := by
  unfold declared isLive
  cases s.occupancy <;> simp

end Slot

/-! ## Slots of an arena -/

namespace Arena

theorem slotAt_modifySlot (a : Arena ν) (i j : Nat) (f : Slot ν → Slot ν) :
    (a.modifySlot i f).slotAt j = if i = j ∧ j < a.slots.size then f (a.slotAt j) else a.slotAt j := by
  unfold slotAt modifySlot
  simp only [Array.getD_eq_getD_getElem?, Array.getElem?_modify]
  by_cases hj : j < a.slots.size
  · by_cases hi : i = j
    · simp [hi, hj]
    · simp [hi]
  · simp [hj]

theorem slotAt_modifySlot_of_ne (a : Arena ν) {i j : Nat} (h : i ≠ j) (f : Slot ν → Slot ν) :
    (a.modifySlot i f).slotAt j = a.slotAt j := by
  rw [slotAt_modifySlot, if_neg fun hc => h hc.1]

theorem slotAt_modifySlot_self (a : Arena ν) {i : Nat} (h : i < a.slots.size) (f : Slot ν → Slot ν) :
    (a.modifySlot i f).slotAt i = f (a.slotAt i) := by
  rw [slotAt_modifySlot, if_pos ⟨rfl, h⟩]

theorem slotAt_modifySlot_of_lt (a : Arena ν) {i : Nat} (h : i < a.slots.size) (f : Slot ν → Slot ν) (j : Nat) :
    (a.modifySlot i f).slotAt j = if i = j then f (a.slotAt j) else a.slotAt j := by
  by_cases hij : i = j
  · rw [if_pos hij, ← hij, a.slotAt_modifySlot_self h]
  · rw [if_neg hij, a.slotAt_modifySlot_of_ne hij]

theorem backing_modifySlot (a : Arena ν) {i : Nat} {f : Slot ν → Slot ν}
    (hb : (f (a.slotAt i)).backing = (a.slotAt i).backing) (j : Nat) :
    ((a.modifySlot i f).slotAt j).backing = (a.slotAt j).backing := by
  rw [slotAt_modifySlot]
  split
  · rename_i hj
    rw [← hj.1]
    exact hb
  · rfl

theorem modifySlot_modifySlot (a : Arena ν) (i : Nat) (f g : Slot ν → Slot ν) :
    (a.modifySlot i f).modifySlot i g = a.modifySlot i fun slot => g (f slot) := by
  unfold modifySlot
  simp only [mk.injEq, true_and, and_true]
  ext j : 1
  · simp
  · simp only [Array.getElem_modify]
    split <;> rfl

@[simp] theorem size_modifySlot (a : Arena ν) (i : Nat) (f : Slot ν → Slot ν) :
    (a.modifySlot i f).slots.size = a.slots.size := by simp [modifySlot]

@[simp] theorem free_modifySlot (a : Arena ν) (i : Nat) (f : Slot ν → Slot ν) :
    (a.modifySlot i f).free = a.free := rfl

@[simp] theorem options_modifySlot (a : Arena ν) (i : Nat) (f : Slot ν → Slot ν) :
    (a.modifySlot i f).options = a.options := rfl

@[simp] theorem closing_modifySlot (a : Arena ν) (i : Nat) (f : Slot ν → Slot ν) :
    (a.modifySlot i f).closing = a.closing := rfl

theorem slotAt_of_size_le (a : Arena ν) {i : Nat} (h : a.slots.size ≤ i) : a.slotAt i = .empty := by
  simp [slotAt, Array.getD_eq_getD_getElem?, Array.getElem?_eq_none h]

theorem slotAt_push_empty (a : Arena ν) (i : Nat) :
    slotAt { a with slots := a.slots.push .empty } i = a.slotAt i := by
  simp only [slotAt, Array.getD_eq_getD_getElem?, Array.getElem?_push]
  split
  · rename_i hi
    subst hi
    simp
  · rfl

theorem slotAt_vacancy (a : Arena ν) (i : Nat) : a.vacancy.2.slotAt i = a.slotAt i := by
  unfold vacancy
  split
  · rfl
  · exact a.slotAt_push_empty i

theorem lt_size_of_occupied {a : Arena ν} {i : Nat} (h : (a.slotAt i).occupancy ≠ .free) : i < a.slots.size := by
  rcases Nat.lt_or_ge i a.slots.size with hi | hi
  · exact hi
  · exact absurd (by rw [slotAt_of_size_le a hi]; rfl) h

/-- Every slot of `a'` is later than the slot of `a` in its place. -/
def Later (a a' : Arena ν) : Prop := ∀ i, (a.slotAt i).Later (a'.slotAt i)

theorem Later.refl (a : Arena ν) : a.Later a := fun _ => .refl _

theorem Later.trans {a a' a'' : Arena ν} (h : a.Later a') (h' : a'.Later a'') : a.Later a'' :=
  fun i => (h i).trans (h' i)

theorem later_of_slotAt_eq {a a' : Arena ν} (h : ∀ i, a'.slotAt i = a.slotAt i) : a.Later a' :=
  fun i => by rw [h i]; exact .refl _

theorem later_modifySlot {a : Arena ν} {i : Nat} {f : Slot ν → Slot ν}
    (h : (a.slotAt i).Later (f (a.slotAt i))) : a.Later (a.modifySlot i f) := by
  intro j
  rw [slotAt_modifySlot]
  split
  · rename_i hj
    rw [← hj.1]
    exact h
  · exact .refl _

/-! ## Handles -/

theorem position?_eq_some {a : Arena ν} {h : Handle} {i : Nat} :
    a.position? h = some i ↔ i < a.slots.size ∧ h = a.handleAt i := by
  obtain ⟨index, generation⟩ := h
  unfold position? handleAt slotAt
  cases index with
  | number n =>
    cases generation with
    | number g =>
      by_cases hn : n < a.slots.size
      · simp only [Ident.number?, Array.getElem?_eq_getElem hn]
        constructor
        · intro h
          split at h
          · rename_i hg
            cases h
            exact ⟨hn, by simp [Array.getD_eq_getD_getElem?, hn, hg]⟩
          · cases h
        · rintro ⟨-, h⟩
          simp only [Handle.mk.injEq, Ident.number.injEq] at h
          obtain ⟨rfl, hg⟩ := h
          simp [Array.getD_eq_getD_getElem?, hn] at hg
          simp [hg]
      · have hnone : a.slots[n]? = none := Array.getElem?_eq_none (Nat.le_of_not_lt hn)
        simp only [Ident.number?, hnone, Handle.mk.injEq, Ident.number.injEq]
        constructor
        · intro h; cases h
        · rintro ⟨hi, rfl, -⟩; exact absurd hi hn
    | foreign s => simp [Ident.number?]
    | notANumber => simp [Ident.number?]
  | foreign s => simp [Ident.number?]
  | notANumber => simp [Ident.number?]

theorem contains_iff {a : Arena ν} {h : Handle} :
    a.contains h = true ↔ ∃ i, h = a.handleAt i ∧ (a.slotAt i).isLive = true := by
  unfold contains
  cases hp : a.position? h with
  | none =>
    constructor
    · intro h; cases h
    · rintro ⟨i, rfl, hl⟩
      have := position?_eq_some.mpr ⟨lt_size_of_occupied (Slot.occupied_of_isLive hl), rfl⟩
      rw [hp] at this
      cases this
  | some i =>
    obtain ⟨hi, rfl⟩ := position?_eq_some.mp hp
    constructor
    · intro hl
      refine ⟨i, rfl, ?_⟩
      unfold Slot.isLive
      cases hs : (a.slotAt i).occupancy <;> simp_all
    · rintro ⟨j, hj, hl⟩
      have : j = i := by
        unfold handleAt at hj
        simp only [Handle.mk.injEq, Ident.number.injEq] at hj
        exact hj.1.symm
      subst this
      obtain ⟨c, hc⟩ := Slot.isLive_iff.mp hl
      simp [hc]

theorem contains_congr {a a' : Arena ν}
    (h : ∀ i, (a'.slotAt i).isLive = (a.slotAt i).isLive)
    (hg : ∀ i, (a.slotAt i).isLive = true → (a'.slotAt i).generation = (a.slotAt i).generation) :
    a'.contains = a.contains := by
  funext k
  rw [Bool.eq_iff_iff, contains_iff, contains_iff]
  constructor
  · rintro ⟨i, rfl, hl⟩
    rw [h i] at hl
    exact ⟨i, by simp [handleAt, hg i hl], hl⟩
  · rintro ⟨i, rfl, hl⟩
    exact ⟨i, by simp [handleAt, hg i hl], by rw [h i]; exact hl⟩

theorem locate_eq_ok {a : Arena ν} {h : Handle} {i : Nat} {r : SlotRef ν} :
    a.locate h = .ok (i, r) ↔ h = a.handleAt i ∧ ∃ c b, (a.slotAt i).occupancy = .live c ∧
      (a.slotAt i).backing = some b ∧ r = ⟨h, b.buffer, c.format, c.size⟩ := by
  unfold locate
  cases hp : a.position? h with
  | none =>
    constructor
    · intro h; cases h
    · rintro ⟨rfl, c, b, hc, -⟩
      have ho : (a.slotAt i).occupancy ≠ .free := by simp [hc]
      have := position?_eq_some.mpr ⟨lt_size_of_occupied ho, rfl⟩
      rw [hp] at this
      cases this
  | some j =>
    obtain ⟨-, rfl⟩ := position?_eq_some.mp hp
    have inj : a.handleAt j = a.handleAt i → j = i := by
      intro h
      simp only [handleAt, Handle.mk.injEq, Ident.number.injEq] at h
      exact h.1
    constructor
    · intro h
      cases ho : (a.slotAt j).occupancy with
      | live c =>
        cases hb : (a.slotAt j).backing with
        | some b =>
          simp only [ho, hb] at h
          cases h
          exact ⟨rfl, c, b, ho, hb, rfl⟩
        | none => simp [ho, hb] at h
      | free => simp [ho] at h
      | released c => simp [ho] at h
    · rintro ⟨hh, c, b, hc, hb, rfl⟩
      obtain rfl := inj hh
      simp [hc, hb]

theorem resolve_eq_ok {a : Arena ν} {h : Handle} {r : SlotRef ν} :
    a.resolve h = .ok r ↔ ∃ i, a.locate h = .ok (i, r) := by
  unfold resolve
  cases hl : a.locate h with
  | error e => simp [Except.map]
  | ok x =>
    obtain ⟨i, x⟩ := x
    simp [Except.map]

/-- A handle that some allocation has returned: its slot has moved on since, or is still occupied. -/
def Issued (a : Arena ν) (h : Handle) : Prop :=
  ∃ i g, h = ⟨.number i, .number g⟩ ∧ (g < (a.slotAt i).generation ∨
    g = (a.slotAt i).generation ∧ (a.slotAt i).occupancy ≠ .free)

theorem Issued.later {a a' : Arena ν} {h : Handle} (hi : a.Issued h) (hl : a.Later a') : a'.Issued h := by
  obtain ⟨i, g, rfl, hg⟩ := hi
  refine ⟨i, g, rfl, ?_⟩
  have hle := (hl i).generation
  rcases hg with hg | ⟨rfl, ho⟩
  · exact .inl (Nat.lt_of_lt_of_le hg hle)
  · rcases Nat.lt_or_eq_of_le hle with hlt | he
    · exact .inl hlt
    · exact .inr ⟨he, ((hl i).kept he ho).1⟩

theorem issued_of_contains {a : Arena ν} {h : Handle} (hc : a.contains h = true) : a.Issued h := by
  rw [contains_iff] at hc
  obtain ⟨i, rfl, hl⟩ := hc
  exact ⟨i, _, rfl, .inr ⟨rfl, Slot.occupied_of_isLive hl⟩⟩

theorem contains_of_resolve {a : Arena ν} {h : Handle} {r : SlotRef ν} (hr : a.resolve h = .ok r) :
    a.contains h = true := by
  rw [resolve_eq_ok] at hr
  obtain ⟨i, hl⟩ := hr
  rw [locate_eq_ok] at hl
  obtain ⟨hh, c, b, hc, -⟩ := hl
  rw [contains_iff]
  exact ⟨i, hh, Slot.isLive_iff.mpr ⟨c, hc⟩⟩

/-- A live slot that is still live is still the same. -/
theorem resolve_later {a a' : Arena ν} {h : Handle} {r : SlotRef ν} (hl : a.Later a')
    (hr : a.resolve h = .ok r) (hc : a'.contains h = true) : a'.resolve h = .ok r := by
  rw [resolve_eq_ok] at hr ⊢
  obtain ⟨i, hr⟩ := hr
  rw [locate_eq_ok] at hr
  obtain ⟨rfl, c, b, ho, hb, rfl⟩ := hr
  rw [contains_iff] at hc
  obtain ⟨j, hj, hlive⟩ := hc
  simp only [handleAt, Handle.mk.injEq, Ident.number.injEq] at hj
  obtain ⟨rfl, hg⟩ := hj
  obtain ⟨c', ho'⟩ := Slot.isLive_iff.mp hlive
  have hne : (a.slotAt i).occupancy ≠ .free := by simp [ho]
  have hd := (hl i).declared hg hne (Slot.declared_ne_none.mpr hlive)
  simp only [Slot.declared, ho, ho', Option.some.injEq, Prod.mk.injEq] at hd
  refine ⟨i, ?_⟩
  rw [locate_eq_ok]
  refine ⟨?_, c', b, ho', ?_, ?_⟩
  · simp [handleAt, hg]
  · rw [((hl i).kept hg hne).2, hb]
  · simp [hd.1, hd.2]

/-- A handle of the past that is not live now will never be. -/
theorem not_contains_later {a a' : Arena ν} {h : Handle} (hi : a.Issued h) (hl : a.Later a')
    (hc : a.contains h = false) : a'.contains h = false := by
  rw [Bool.eq_false_iff]
  intro hc'
  rw [contains_iff] at hc'
  obtain ⟨j, hj, hlive⟩ := hc'
  obtain ⟨i, g, rfl, hg⟩ := hi
  simp only [handleAt, Handle.mk.injEq, Ident.number.injEq] at hj
  obtain ⟨rfl, rfl⟩ := hj
  have hle := (hl i).generation
  rcases hg with hg | ⟨hg, ho⟩
  · omega
  · have hd := (hl i).declared hg.symm ho (Slot.declared_ne_none.mpr hlive)
    have hlive' : (a.slotAt i).isLive = true :=
      Slot.declared_ne_none.mp (by rw [← hd]; exact Slot.declared_ne_none.mpr hlive)
    rw [Bool.eq_false_iff] at hc
    exact hc (contains_iff.mpr ⟨i, by simp [handleAt, hg], hlive'⟩)

end Arena

end Strata
