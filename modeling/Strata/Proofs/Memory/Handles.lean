import Strata.Proofs.Memory.Holding

/-!
# Handles are exact

A history of an arena is what was asked of it and what it answered. A handle is held in a history if
an allocation returned it and nothing has ended it since: no release of it that succeeded, no
invalidation and no closing. `Request.perform_spec` says what one request does to the live handles;
`handles_exact` puts the requests together, for an arena that starts empty on any device.
-/

namespace Strata.Pool

variable {ν α : Type}

/-- What an arena can be asked. Its device may at any time be told to fail calls or to refuse large
buffers. -/
inductive Request (ν : Type)
  | allocate (format : SlotFormat ν) (size : ν)
  | release (h : Handle)
  | acquire (h : Handle)
  | relinquish (h : Handle)
  | invalidate
  | trim
  | close (closing : Closing)
  | script (faults : List (DeviceCall × Raised))
  | limit (bytes : Option ν)

structure Event (ν : Type) where
  request : Request ν
  answer : Except Failure (Option Handle)

namespace Event

def Returns (e : Event ν) (h : Handle) : Prop := e.answer = .ok (some h)

/-- Whether a handle that was live is not any more. -/
def Ends (e : Event ν) (h : Handle) : Prop :=
  match e.request with
  | .release k => k = h ∧ e.answer = .ok none
  | .invalidate | .close _ => True
  | _ => False

def returned? (e : Event ν) : Option Handle :=
  match e.answer with
  | .ok h => h
  | .error _ => none

theorem returned?_eq_some {e : Event ν} {h : Handle} : e.returned? = some h ↔ e.Returns h := by
  obtain ⟨request, answer⟩ := e
  unfold returned? Returns
  cases answer <;> simp

end Event

/-- Some allocation returned the handle, and nothing has ended it since. -/
def Held (events : List (Event ν)) (h : Handle) : Prop :=
  ∃ before e after, events = before ++ e :: after ∧ e.Returns h ∧ ∀ e' ∈ after, ¬ e'.Ends h

theorem held_cons {e : Event ν} {events : List (Event ν)} {h : Handle} :
    Held (e :: events) h ↔ Held events h ∨ e.Returns h ∧ ∀ e' ∈ events, ¬ e'.Ends h := by
  constructor
  · rintro ⟨before, e', after, heq, hr, hn⟩
    cases before with
    | nil => cases heq; exact .inr ⟨hr, hn⟩
    | cons x before => cases heq; exact .inl ⟨before, e', after, rfl, hr, hn⟩
  · rintro (⟨before, e', after, rfl, hr, hn⟩ | ⟨hr, hn⟩)
    · exact ⟨e :: before, e', after, rfl, hr, hn⟩
    · exact ⟨[], e, events, rfl, hr, hn⟩

/-! ## One request -/

namespace Request

variable [Measure ν]

def perform (p : Pool ν α) : Request ν → Attempt Failure (Pool ν α) (Option Handle)
  | allocate format size => ((p.allocate format size).1.map some, (p.allocate format size).2)
  | release h => (p.release h).endWith (.ok none)
  | acquire h => ((p.acquire h).1.map fun _ => none, (p.acquire h).2)
  | relinquish h => (p.relinquish h).endWith (.ok none)
  | invalidate => p.invalidate.endWith (.ok none)
  | trim => p.trim.endWith (.ok none)
  | close closing => (p.close closing).endWith (.ok none)
  | script faults => (.ok none, { p with device := { p.device with faults } })
  | limit bytes => (.ok none, { p with device := { p.device with maxAllocation := bytes } })

/-- The request does not make the device fail to destroy a buffer, which no device does. -/
def Fair : Request ν → Prop
  | script faults => ∀ r, (DeviceCall.destroyBuffer, r) ∉ faults
  | _ => True

/-- What a request does to a sound arena, whatever it answers. -/
structure Spec (p : Pool ν α) (r : Request ν) (answer : Except Failure (Option Handle)) (p' : Pool ν α) : Prop where
  sound : p'.Sound
  later : p.arena.Later p'.arena
  destroys : p.Destroys → r.Fair → p'.Destroys
  fresh : ∀ h, Event.Returns ⟨r, answer⟩ h → ¬ p.arena.Issued h ∧ p'.arena.contains h = true
  live : p.Destroys → ∀ h, p'.arena.contains h = true ↔
    p.arena.contains h = true ∧ ¬ Event.Ends ⟨r, answer⟩ h ∨ Event.Returns ⟨r, answer⟩ h

omit [Measure ν] in
theorem Spec.of_quiet {p p' : Pool ν α} {r : Request ν} {answer : Except Failure (Option Handle)} (hq : p.Quiet p')
    (hn : ∀ h, ¬ Event.Returns ⟨r, answer⟩ h) (he : ∀ h, ¬ Event.Ends ⟨r, answer⟩ h) : Spec p r answer p' where
  sound := hq.sound
  later := hq.later
  destroys hd _ := hq.toLeads.destroys hd
  fresh h hr := absurd hr (hn h)
  live _ h := by simp [hq.contains, hn h, he h]

omit [Measure ν] in
/-- A request that leaves no handle live, unless the device fails to destroy a buffer. -/
theorem Spec.of_invalidated {p p' : Pool ν α} {r : Request ν} {answer : Except Failure (Option Handle)}
    (hl : p.Leads p') (hn : ∀ h, ¬ Event.Returns ⟨r, answer⟩ h) (he : ∀ h, Event.Ends ⟨r, answer⟩ h)
    (hc : p.Destroys → ∀ h, p'.arena.contains h = false) : Spec p r answer p' where
  sound := hl.sound
  later := hl.later
  destroys hd _ := hl.destroys hd
  fresh h hr := absurd hr (hn h)
  live hd h := by simp [hc hd h, hn h, he h]

omit [Measure ν] in
theorem not_returns_endWith (r : Request ν) (a : Attempt Failure (Pool ν α) Unit) (h : Handle) :
    ¬ Event.Returns ⟨r, (a.endWith (.ok none)).1⟩ h := by
  obtain ⟨x, p⟩ := a
  cases x <;> simp [Event.Returns, Attempt.endWith]

/-- An allocation that succeeds returns a handle that was never issued, and no other becomes live. -/
theorem allocate_meets {p : Pool ν α} (hp : p.Sound) (format : SlotFormat ν) (size : ν) :
    Spec p (.allocate format size) ((p.allocate format size).1.map some) (p.allocate format size).2 := by
  obtain ⟨herr, hok⟩ := p.allocate_spec hp format size
  generalize p.allocate format size = a at *
  obtain ⟨x, p'⟩ := a
  cases x with
  | error e => exact .of_quiet (herr e rfl) (fun h hr => by (cases hr)) (by simp [Event.Ends])
  | ok h =>
    obtain ⟨bytes, -, ha⟩ := hok h rfl
    refine ⟨ha.sound, ha.later, fun hd _ => ha.toLeads.destroys hd, fun k hk => ?_, fun _ k => ?_⟩
    · cases hk
      exact ⟨ha.fresh, (ha.contains h).mpr (.inr rfl)⟩
    · have hr : Event.Returns ⟨.allocate format size, .ok (some h)⟩ k ↔ k = h := by
        simp [Event.Returns, eq_comm (a := k)]
      rw [ha.contains]
      show _ ↔ _ ∨ Event.Returns ⟨.allocate format size, .ok (some h)⟩ k
      rw [hr]
      simp [Event.Ends]

/-- A release ends its handle, if that is live. -/
theorem release_meets {p : Pool ν α} (hp : p.Sound) (k : Handle) :
    Spec p (.release k) ((p.release k).endWith (.ok none)).1
      (Attempt.endWith (p.release k) (.ok none : Except Failure (Option Handle))).2 := by
  obtain ⟨hl, hc, -, hok⟩ := p.release_spec hp k
  refine ⟨?_, ?_, fun hd _ => ?_, fun h hr => absurd hr (not_returns_endWith _ _ h), fun hd h => ?_⟩
  all_goals rw [Attempt.endWith_snd]
  · exact hl.sound
  · exact hl.later
  · exact hl.destroys hd
  · rw [hc]
    have hne := not_returns_endWith (.release k) (p.release k) h
    simp only [hne, or_false]
    refine and_congr_right fun hlive => not_congr ⟨?_, fun he => he.1.symm⟩
    -- A live handle can be released, so its release is among the answers that end it.
    rintro rfl
    refine ⟨rfl, ?_⟩
    have := hok hd hlive
    unfold Attempt.endWith
    generalize p.release h = a at this
    obtain ⟨x, p'⟩ := a
    cases this
    rfl

theorem perform_spec {p : Pool ν α} (hp : p.Sound) (r : Request ν) : Spec p r (r.perform p).1 (r.perform p).2 := by
  cases r with
  | allocate format size => exact allocate_meets hp format size
  | release k => exact release_meets hp k
  | acquire h =>
    refine .of_quiet (p.acquire_spec hp h) (fun k hk => ?_) (by simp [Event.Ends])
    change (p.acquire h).1.map (fun _ => none) = .ok (some k) at hk
    cases hx : (p.acquire h).1 <;> rw [hx] at hk <;> cases hk
  | relinquish h =>
    show Spec p (.relinquish h) (Attempt.endWith (p.relinquish h) (.ok none)).1
      (Attempt.endWith (p.relinquish h) (.ok none)).2
    refine .of_quiet ?_ (not_returns_endWith _ _) (by simp [Event.Ends])
    rw [Attempt.endWith_snd]
    exact p.relinquish_spec hp h
  | invalidate =>
    obtain ⟨hl, hok, hc⟩ := p.invalidate_spec hp
    show Spec p .invalidate (Attempt.endWith p.invalidate (.ok none)).1 (Attempt.endWith p.invalidate (.ok none)).2
    refine .of_invalidated ?_ (not_returns_endWith _ _) (by simp [Event.Ends]) fun hd => ?_
    all_goals rw [Attempt.endWith_snd]
    · exact hl
    · exact hc (hok hd)
  | trim =>
    show Spec p .trim (Attempt.endWith p.trim (.ok none)).1 (Attempt.endWith p.trim (.ok none)).2
    refine .of_quiet ?_ (not_returns_endWith _ _) (by simp [Event.Ends])
    rw [Attempt.endWith_snd]
    exact p.trim_quiet hp
  | close closing =>
    obtain ⟨hl, hok, hc⟩ := p.close_spec hp closing
    show Spec p (.close closing) (Attempt.endWith (p.close closing) (.ok none)).1
      (Attempt.endWith (p.close closing) (.ok none)).2
    refine .of_invalidated ?_ (not_returns_endWith _ _) (by simp [Event.Ends]) fun hd => ?_
    all_goals rw [Attempt.endWith_snd]
    · exact hl
    · exact hc (hok hd)
  | script faults =>
    exact ⟨{ hp with }, .refl _, fun _ hf => hf, fun h hr => by (cases hr), fun _ h => by
      simp [perform, Event.Ends, Event.Returns, Arena.contains]⟩
  | limit bytes =>
    exact ⟨{ hp with }, .refl _, fun hd _ => hd, fun h hr => by (cases hr), fun _ h => by
      simp [perform, Event.Ends, Event.Returns, Arena.contains]⟩

theorem returns_allocate {p : Pool ν α} {r : Request ν} {h : Handle}
    (hr : Event.Returns ⟨r, (r.perform p).1⟩ h) : ∃ format size, r = .allocate format size := by
  cases r with
  | allocate format size => exact ⟨format, size, rfl⟩
  | acquire k =>
    change (p.acquire k).1.map (fun _ => none) = .ok (some h) at hr
    cases hx : (p.acquire k).1 <;> rw [hx] at hr <;> cases hr
  | release | relinquish | invalidate | trim | close => exact absurd hr (not_returns_endWith _ _ h)
  | script | limit => cases hr

/-- Only a script changes more of the device than its buffers, counts and limit. -/
theorem perform_steady {p : Pool ν α} (hp : p.Sound) {r : Request ν} (h : ∀ faults, r ≠ .script faults) :
    p.device.Steady (r.perform p).2.device := by
  have hend (a : Attempt Failure (Pool ν α) Unit) (ha : p.Leads a.2) :
      p.device.Steady (a.endWith (.ok none : Except Failure (Option Handle))).2.device := by
    rw [Attempt.endWith_snd]
    exact ha.device
  cases r with
  | allocate format size =>
    obtain ⟨herr, hok⟩ := p.allocate_spec hp format size
    show p.device.Steady (p.allocate format size).2.device
    cases hx : (p.allocate format size).1 with
    | error failure => exact (herr failure hx).device
    | ok handle =>
      obtain ⟨bytes, -, ha⟩ := hok handle hx
      exact ha.toLeads.device
  | release k => exact hend _ (p.release_spec hp k).1
  | acquire k => exact (p.acquire_spec hp k).device
  | relinquish k => exact hend _ (p.relinquish_spec hp k).toLeads
  | invalidate => exact hend _ (p.invalidate_spec hp).1
  | trim => exact hend _ (p.trim_quiet hp).toLeads
  | close closing => exact hend _ (p.close_spec hp closing).1
  | script faults => exact absurd rfl (h faults)
  | limit bytes => exact ⟨List.Subset.refl _, rfl, rfl, rfl, rfl, rfl⟩

end Request

/-! ## A run -/

section
variable [Measure ν]

def run (p : Pool ν α) : List (Request ν) → List (Event ν) × Pool ν α
  | [] => ([], p)
  | r :: rest => (⟨r, (r.perform p).1⟩ :: (run (r.perform p).2 rest).1, (run (r.perform p).2 rest).2)

theorem run_append (p : Pool ν α) (rs rs' : List (Request ν)) :
    run p (rs ++ rs') = ((run p rs).1 ++ (run (run p rs).2 rs').1, (run (run p rs).2 rs').2) := by
  induction rs generalizing p with
  | nil => rfl
  | cons r rs ih => simp only [List.cons_append, run, ih]

theorem run_sound {p : Pool ν α} (hp : p.Sound) (rs : List (Request ν)) :
    (run p rs).2.Sound ∧ p.arena.Later (run p rs).2.arena := by
  induction rs generalizing p with
  | nil => exact ⟨hp, .refl _⟩
  | cons r rs ih =>
    have hs := r.perform_spec hp
    obtain ⟨h, hl⟩ := ih hs.sound
    exact ⟨h, hs.later.trans hl⟩

/-- A handle that a run returned was not issued before, and is not returned again. -/
theorem run_returned {p : Pool ν α} (hp : p.Sound) (rs : List (Request ν)) :
    ((run p rs).1.filterMap Event.returned?).Nodup ∧
      ∀ h ∈ (run p rs).1.filterMap Event.returned?, ¬ p.arena.Issued h ∧ (run p rs).2.arena.Issued h := by
  induction rs generalizing p with
  | nil => exact ⟨List.nodup_nil, by simp [run]⟩
  | cons r rs ih =>
    have hs := r.perform_spec hp
    obtain ⟨hn, hi⟩ := ih hs.sound
    have hi' : ∀ h ∈ (run (r.perform p).2 rs).1.filterMap Event.returned?,
        ¬ p.arena.Issued h ∧ (run p (r :: rs)).2.arena.Issued h :=
      fun h hh => ⟨fun hp => (hi h hh).1 (hp.later hs.later), (hi h hh).2⟩
    rw [run, List.filterMap_cons]
    split
    · exact ⟨hn, hi'⟩
    · rename_i k hk
      obtain ⟨hfresh, hlive⟩ := hs.fresh k (Event.returned?_eq_some.mp hk)
      have hissued := Arena.issued_of_contains hlive
      refine ⟨List.nodup_cons.mpr ⟨fun h => (hi k h).1 hissued, hn⟩, fun h hh => ?_⟩
      rcases List.mem_cons.mp hh with rfl | hh
      · exact ⟨hfresh, hissued.later (run_sound hs.sound rs).2⟩
      · exact hi' h hh

/-- What is live after a run: what was live and has not ended, and what the run holds. -/
theorem run_live {p : Pool ν α} (hp : p.Sound) (hd : p.Destroys) (rs : List (Request ν)) (hf : ∀ r ∈ rs, r.Fair)
    (h : Handle) : (run p rs).2.arena.contains h = true ↔
      p.arena.contains h = true ∧ (∀ e ∈ (run p rs).1, ¬ e.Ends h) ∨ Held (run p rs).1 h := by
  induction rs generalizing p with
  | nil => simp [run, Held]
  | cons r rs ih =>
    have hs := r.perform_spec hp
    have hd' := hs.destroys hd (hf r (List.mem_cons_self ..))
    rw [run, ih hs.sound hd' fun r hr => hf r (List.mem_cons_of_mem _ hr), hs.live hd h, held_cons,
      List.forall_mem_cons]
    constructor
    · rintro (⟨hl | hr, hn⟩ | hh)
      · exact .inl ⟨hl.1, hl.2, hn⟩
      · exact .inr (.inr ⟨hr, hn⟩)
      · exact .inr (.inl hh)
    · rintro (⟨hl, he, hn⟩ | hh | ⟨hr, hn⟩)
      · exact .inl ⟨.inl ⟨hl, he⟩, hn⟩
      · exact .inr hh
      · exact .inl ⟨.inr hr, hn⟩

/-- However an arena is used from its start: a handle resolves if and only if it is contained. As long
as the device destroys what it is asked to destroy, that is so if and only if the history holds it. No
handle is returned twice, and one that was returned and is not live is not live after any further
requests either. -/
theorem handles_exact (options : ArenaOptions ν) (device : Device ν α) (rs : List (Request ν)) :
    let start : Pool ν α := ⟨{ options }, device⟩
    let events := (run start rs).1
    let p := (run start rs).2
    (∀ h, (∃ ref, p.arena.resolve h = .ok ref) ↔ p.arena.contains h = true) ∧
    (start.Destroys → (∀ r ∈ rs, r.Fair) → ∀ h, p.arena.contains h = true ↔ Held events h) ∧
    (events.filterMap Event.returned?).Nodup ∧
    ∀ h ∈ events.filterMap Event.returned?, p.arena.contains h = false →
      ∀ more, (run start (rs ++ more)).2.arena.contains h = false := by
  intro start events p
  have hempty (i : Nat) : start.arena.slotAt i = .empty := Arena.slotAt_of_size_le _ (Nat.zero_le i)
  have hstart : start.Sound := .start options device
  obtain ⟨hp, hl⟩ := run_sound hstart rs
  obtain ⟨hn, hi⟩ := run_returned hstart rs
  refine ⟨fun h => ⟨fun ⟨ref, hr⟩ => Arena.contains_of_resolve hr, hp.resolve_of_contains⟩, fun hd hf h => ?_, hn,
    fun h hh hc more => ?_⟩
  · have hnone : start.arena.contains h = false := by
      rw [Bool.eq_false_iff]
      intro hc
      obtain ⟨i, -, hlive⟩ := Arena.contains_iff.mp hc
      rw [hempty] at hlive
      cases hlive
    rw [run_live hstart hd rs hf, hnone]
    simp [events]
  · rw [run_append]
    exact Arena.not_contains_later (hi h hh).2 (run_sound hp more).2 hc

end

/-- A slot is allocated, given up while a command refers to it, freed and allocated again. -/
theorem handles_exact_reused :
    let start : Pool Int Unit := ⟨{ options := .standard }, { limits := .standard }⟩
    let rs : List (Request Int) := [.allocate .params 32, .acquire ⟨.number 0, .number 0⟩,
      .release ⟨.number 0, .number 0⟩, .relinquish ⟨.number 0, .number 0⟩, .allocate .params 32]
    (start.Destroys ∧ ∀ r ∈ rs, r.Fair) ∧ Held (run start rs).1 ⟨.number 0, .number 1⟩ ∧
      ∀ more, (run start (rs ++ more)).2.arena.contains ⟨.number 0, .number 0⟩ = false := by
  intro start rs
  have hd : start.Destroys := fun r hr => absurd hr List.not_mem_nil
  have hf : ∀ r ∈ rs, r.Fair := by simp [rs, Request.Fair]
  obtain ⟨-, hlive, -, hstale⟩ := handles_exact .standard start.device rs
  refine ⟨⟨hd, hf⟩, (hlive hd hf _).mp (by decide), hstale _ (by decide) (by decide)⟩

end Strata.Pool
