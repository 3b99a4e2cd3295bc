import Strata.Engine.Completion

/-!
# Where a completion stands with a submission

Both ways of delivery keep a submission waiting until it settles, then hand its outcome to those who wait or keep
it. `status` is what they have in common; each operation changes the status of the submission it is about, and of
no other.
-/

namespace Strata

inductive Status (W : Type)
  | absent
  /-- It has not settled, and some wait for it. -/
  | waiting (ws : List W)
  | kept (outcome : Outcome)
deriving DecidableEq

namespace Completion

variable {W : Type}

theorem lookup_filter_ne {κ β : Type} [DecidableEq κ] (l : List (κ × β)) (id x : κ) :
    (l.filter (·.1 != id)).lookup x = if x = id then none else l.lookup x := by
  induction l with
  | nil => simp
  | cons y l ih =>
    obtain ⟨k, b⟩ := y
    rw [List.filter_cons, List.lookup_cons]
    by_cases hk : k = id
    · subst hk
      rw [if_neg (by simp), ih]
      by_cases hx : x = k
      · rw [if_pos hx, if_pos hx]
      · rw [if_neg hx, if_neg hx, beq_eq_false_iff_ne.mpr hx]
    · rw [if_pos (by simpa using hk), List.lookup_cons, ih]
      by_cases hx : x = id
      · subst hx
        rw [if_pos rfl, beq_eq_false_iff_ne.mpr (Ne.symm hk), if_pos rfl]
      · rw [if_neg hx, if_neg hx]

theorem lookup_snoc {β : Type} (l : List (SubmissionId × β)) (id : SubmissionId) (b : β) (x : SubmissionId) :
    (l.filter (·.1 != id) ++ [(id, b)]).lookup x = if x = id then some b else l.lookup x := by
  rw [List.lookup_append, lookup_filter_ne, List.lookup_cons]
  by_cases hx : x = id
  · simp [hx]
  · rw [if_neg hx, if_neg hx, beq_eq_false_iff_ne.mpr hx]
    simp

def status (c : Completion W) (id : SubmissionId) : Status W :=
  match c with
  | reactor r =>
    if id ∈ r.inFlight then .waiting ((r.listeners.filter (·.1 == id)).map (·.2))
    else match r.retained.lookup id with
      | some outcome => .kept outcome
      | none => .absent
  | deferrals d =>
    match d.entries.lookup id with
    | some ⟨none, waiters⟩ => .waiting waiters
    | some ⟨some outcome, _⟩ => .kept outcome
    | none => .absent

/-- A submission in flight has no outcome yet and is listed once, and listeners listen to such submissions only. -/
def Sane : Completion W → Prop
  | reactor r => r.inFlight.Nodup ∧ (∀ id ∈ r.inFlight, r.retained.lookup id = none) ∧
      ∀ x ∈ r.listeners, x.1 ∈ r.inFlight
  | deferrals _ => True

variable {c : Completion W} {id x : SubmissionId} {ws : List W} {outcome : Outcome}

def Open (c : Completion W) (id : SubmissionId) : Prop := ∃ ws, c.status id = .waiting ws

theorem reactor_waiting {r : Reactor W} (h : (reactor r).status id = .waiting ws) :
    id ∈ r.inFlight ∧ (r.listeners.filter (·.1 == id)).map (·.2) = ws := by
  unfold status at h
  dsimp only at h
  split at h
  · rename_i hmem
    exact ⟨hmem, Status.waiting.inj h⟩
  · split at h <;> cases h

theorem deferrals_waiting {d : Deferrals W} :
    (deferrals d).status id = .waiting ws ↔ d.entries.lookup id = some ⟨none, ws⟩ := by
  unfold status
  dsimp only
  split
  · rename_i heq
    simp [heq]
  · rename_i heq
    simp [heq]
  · rename_i heq
    simp [heq]

theorem sane_ofPlatform (p : Platform) : (ofPlatform p : Completion W).Sane := by
  cases p with
  | native => exact ⟨List.nodup_nil, nofun, nofun⟩
  | browser => trivial

theorem status_ofPlatform (p : Platform) (id : SubmissionId) :
    (ofPlatform p : Completion W).status id = .absent := by
  cases p <;> rfl

/-! ## Watching -/

theorem watch_spec (h : c.Sane) (hid : c.status id = .absent) :
    (c.watch id).Sane ∧ (c.watch id).status id = .waiting [] ∧ ∀ x ≠ id, (c.watch id).status x = c.status x := by
  cases c with
  | reactor r =>
    obtain ⟨hnodup, hnone, hlisten⟩ := h
    unfold status at hid
    dsimp only at hid
    split at hid
    · cases hid
    · rename_i hfresh
      have hlookup : r.retained.lookup id = none := by
        split at hid
        · cases hid
        · assumption
      have hwatch : (reactor r).watch id = reactor { r with inFlight := r.inFlight ++ [id] } := by
        unfold watch Reactor.watch
        simp [hfresh]
      rw [hwatch]
      refine ⟨⟨?_, fun x hx => ?_, fun x hx => List.mem_append_left _ (hlisten x hx)⟩, ?_, fun x hx => ?_⟩
      · exact List.nodup_append.mpr ⟨hnodup, by simp, fun a ha b hb heq => hfresh (by simp_all)⟩
      · rcases List.mem_append.mp hx with hx | hx
        · exact hnone x hx
        · rw [List.mem_singleton.mp hx]
          exact hlookup
      · have hsilent : r.listeners.filter (·.1 == id) = [] :=
          List.filter_eq_nil_iff.mpr fun x hx heq => hfresh (beq_iff_eq.mp heq ▸ hlisten x hx)
        simp [status, hsilent]
      · simp [status, hx]
  | deferrals d =>
    refine ⟨trivial, ?_, fun x hx => ?_⟩
    · simp [status, watch, Deferrals.watch, Deferrals.put, lookup_snoc]
    · simp [status, watch, Deferrals.watch, Deferrals.put, lookup_snoc, hx]

/-! ## Settling -/

theorem settle_closed (h : ¬c.Open id) (outcome : Outcome) : c.settle id outcome = ([], c) := by
  cases c with
  | reactor r =>
    have hid : id ∉ r.inFlight := fun hid => h ⟨_, if_pos hid⟩
    simp [settle, Reactor.settle, hid]
  | deferrals d =>
    unfold settle Deferrals.settle
    dsimp only
    split
    · rename_i waiters heq
      exact absurd ⟨waiters, deferrals_waiting.mpr heq⟩ h
    · rfl

theorem settle_spec (h : c.Sane) (hid : c.status id = .waiting ws) (outcome : Outcome) :
    (c.settle id outcome).2.Sane ∧ (c.settle id outcome).1 = ws.map (·, outcome) ∧
      ((c.settle id outcome).2.status id = .kept outcome ∨
        (c.settle id outcome).2.status id = .absent ∧ ws ≠ []) ∧
      ∀ x ≠ id, (c.settle id outcome).2.status x = c.status x := by
  cases c with
  | reactor r =>
    obtain ⟨hnodup, hnone, hlisten⟩ := h
    obtain ⟨hmem, hws⟩ := reactor_waiting hid
    have hgone : id ∉ r.inFlight.erase id := hnodup.not_mem_erase
    have hother (x : SubmissionId) (hx : x ≠ id) : x ∈ r.inFlight.erase id ↔ x ∈ r.inFlight :=
      List.mem_erase_of_ne hx
    have hlate (x : SubmissionId) (hx : x ∈ r.inFlight.erase id) : x ≠ id := fun heq => hgone (heq ▸ hx)
    unfold settle Reactor.settle
    simp only [hmem, if_true]
    split
    · rename_i hsilent
      rw [List.isEmpty_iff] at hsilent
      rw [hsilent] at hws
      subst hws
      refine ⟨⟨hnodup.erase id, fun x hx => ?_, fun x hx => ?_⟩, rfl, .inl ?_, fun x hx => ?_⟩
      · rw [lookup_snoc, if_neg (hlate x hx)]
        exact hnone x (List.mem_of_mem_erase hx)
      · have hne : x.1 ≠ id := fun heq =>
          (List.filter_eq_nil_iff.mp hsilent x hx) (beq_iff_eq.mpr heq)
        exact (hother _ hne).mpr (hlisten x hx)
      · simp [status, hgone, lookup_snoc]
      · simp only [status, hother x hx, lookup_snoc, if_neg hx]
    · rename_i hlistened
      refine ⟨⟨hnodup.erase id, fun x hx => hnone x (List.mem_of_mem_erase hx), fun x hx => ?_⟩, ?_, .inr ⟨?_, ?_⟩,
        fun x hx => ?_⟩
      · obtain ⟨hx, hne⟩ := List.mem_filter.mp hx
        exact (hother _ (bne_iff_ne.mp hne)).mpr (hlisten x hx)
      · rw [← hws, List.map_map]
        rfl
      · simp [status, hgone, hnone id hmem]
      · rintro rfl
        exact hlistened (List.isEmpty_iff.mpr (List.map_eq_nil_iff.mp hws))
      · have hfilter : (r.listeners.filter (·.1 != id)).filter (·.1 == x) = r.listeners.filter (·.1 == x) := by
          rw [List.filter_filter]
          refine List.filter_congr fun y _ => ?_
          by_cases hy : y.1 = x
          · simp [hy, hx]
          · simp [hy]
        simp only [status, hother x hx, hfilter]
  | deferrals d =>
    have hentry := deferrals_waiting.mp hid
    unfold settle Deferrals.settle
    simp only [hentry]
    refine ⟨trivial, trivial, .inl ?_, fun x hx => ?_⟩
    · simp [status, Deferrals.put, lookup_snoc]
    · simp [status, Deferrals.put, lookup_snoc, hx]

/-! ## Waiting -/

theorem wait_waiting (h : c.Sane) (hid : c.status id = .waiting ws) (w : W) :
    (c.wait id w).2.Sane ∧ (c.wait id w).1 = .suspended ∧ (c.wait id w).2.status id = .waiting (ws ++ [w]) ∧
      ∀ x ≠ id, (c.wait id w).2.status x = c.status x := by
  cases c with
  | reactor r =>
    obtain ⟨hnodup, hnone, hlisten⟩ := h
    obtain ⟨hmem, hws⟩ := reactor_waiting hid
    have hwait : (reactor r).wait id w =
        (.suspended, reactor { r with listeners := r.listeners ++ [(id, w)] }) := by
      unfold wait Reactor.wait
      simp [hnone id hmem, hmem]
    rw [hwait]
    refine ⟨⟨hnodup, hnone, fun x hx => ?_⟩, rfl, ?_, fun x hx => ?_⟩
    · rcases List.mem_append.mp hx with hx | hx
      · exact hlisten x hx
      · rw [List.mem_singleton.mp hx]
        exact hmem
    · simp [status, hmem, ← hws]
    · have hne : ¬(id = x) := fun heq => hx heq.symm
      simp [status, hne]
  | deferrals d =>
    have hentry := deferrals_waiting.mp hid
    unfold wait Deferrals.wait
    simp only [hentry]
    refine ⟨trivial, trivial, ?_, fun x hx => ?_⟩
    · simp [status, Deferrals.put, lookup_snoc]
    · simp [status, Deferrals.put, lookup_snoc, hx]

theorem wait_kept (h : c.Sane) (hid : c.status id = .kept outcome) (w : W) :
    (c.wait id w).2.Sane ∧
      ((c.wait id w).1 = .now outcome ∧ (c.wait id w).2.status id = .absent ∨
        (c.wait id w).1 = .later outcome ∧ (c.wait id w).2.status id = .kept outcome) ∧
      ∀ x ≠ id, (c.wait id w).2.status x = c.status x := by
  cases c with
  | reactor r =>
    obtain ⟨hnodup, hnone, hlisten⟩ := h
    unfold status at hid
    dsimp only at hid
    split at hid
    · cases hid
    · rename_i hmem
      have hlookup : r.retained.lookup id = some outcome := by
        split at hid
        · rename_i heq
          rw [heq, Status.kept.inj hid]
        · cases hid
      have hwait : (reactor r).wait id w =
          (.now outcome, reactor { r with retained := r.retained.filter (·.1 != id) }) := by
        unfold wait Reactor.wait
        simp [hlookup]
      rw [hwait]
      refine ⟨⟨hnodup, fun x hx => ?_, hlisten⟩, .inl ⟨rfl, ?_⟩, fun x hx => ?_⟩
      · rw [lookup_filter_ne]
        split
        · rfl
        · exact hnone x hx
      · simp [status, hmem, lookup_filter_ne]
      · simp [status, lookup_filter_ne, hx]
  | deferrals d =>
    have hentry : ∃ ws, d.entries.lookup id = some ⟨some outcome, ws⟩ := by
      unfold status at hid
      dsimp only at hid
      split at hid
      · cases hid
      · rename_i ws heq
        exact ⟨ws, by rw [heq, Status.kept.inj hid]⟩
      · cases hid
    obtain ⟨ws, hentry⟩ := hentry
    unfold wait Deferrals.wait
    simp only [hentry]
    refine ⟨trivial, .inr ⟨trivial, ?_⟩, fun _ _ => trivial⟩
    simp [status, hentry]

/-! ## Forgetting -/

theorem collect_spec (h : c.Sane) (id : SubmissionId) :
    (c.collect id).Sane ∧ ((c.collect id).status id = c.status id ∨ (c.collect id).status id = .absent) ∧
      ∀ x ≠ id, (c.collect id).status x = c.status x := by
  cases c with
  | reactor r => exact ⟨h, .inl rfl, fun _ _ => rfl⟩
  | deferrals d =>
    refine ⟨trivial, .inr ?_, fun x hx => ?_⟩
    · simp [status, collect, Deferrals.drop, lookup_filter_ne]
    · simp [status, collect, Deferrals.drop, lookup_filter_ne, hx]

/-- Nobody is told of what is discarded but those who wait already. -/
theorem discard_spec (h : c.Sane) (id : SubmissionId) :
    (c.discard id).2.Sane ∧ (c.discard id).2.status id = .absent ∧
      (∀ x ≠ id, (c.discard id).2.status x = c.status x) ∧
      ((∀ ws, c.status id = .waiting ws → ws = []) → (c.discard id).1 = []) := by
  have hsettled : ∃ woken c', c.settle id (.error (discardedSubmission id)) = (woken, c') ∧ c'.Sane ∧ ¬c'.Open id ∧
      (∀ x ≠ id, c'.status x = c.status x) ∧ ((∀ ws, c.status id = .waiting ws → ws = []) → woken = []) := by
    by_cases hopen : c.Open id
    · obtain ⟨ws, hws⟩ := hopen
      obtain ⟨hsane, hwoken, hstatus, hother⟩ := settle_spec h hws (.error (discardedSubmission id))
      refine ⟨_, _, rfl, hsane, ?_, hother, fun hnone => ?_⟩
      · rintro ⟨ws', hws'⟩
        rcases hstatus with hs | ⟨hs, -⟩
        · cases hs.symm.trans hws'
        · cases hs.symm.trans hws'
      · exact hwoken.trans (by rw [hnone ws hws]; rfl)
    · exact ⟨[], c, settle_closed hopen _, h, hopen, fun _ _ => rfl, fun _ => rfl⟩
  obtain ⟨woken, c', heq, hsane, hclosed, hother, hwoken⟩ := hsettled
  unfold discard
  rw [heq]
  cases c' with
  | reactor r =>
    obtain ⟨hnodup, hnone, hlisten⟩ := hsane
    have hid : id ∉ r.inFlight := fun hid => hclosed ⟨_, if_pos hid⟩
    refine ⟨⟨hnodup, fun x hx => ?_, hlisten⟩, ?_, fun x hx => ?_, hwoken⟩
    · unfold Reactor.drop
      rw [lookup_filter_ne]
      split
      · rfl
      · exact hnone x hx
    · simp [status, Reactor.drop, hid, lookup_filter_ne]
    · rw [← hother x hx]
      simp [status, Reactor.drop, lookup_filter_ne, hx]
  | deferrals d =>
    refine ⟨trivial, ?_, fun x hx => ?_, hwoken⟩
    · simp [status, Deferrals.drop, lookup_filter_ne]
    · rw [← hother x hx]
      simp [status, Deferrals.drop, lookup_filter_ne, hx]

end Completion

end Strata
