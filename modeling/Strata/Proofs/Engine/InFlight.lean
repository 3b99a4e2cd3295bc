import Strata.Proofs.Color.Bits
import Strata.Proofs.Engine.Able
import Strata.Proofs.Engine.Changes
import Strata.Proofs.Memory.References

/-!
# References of submissions in flight

The slots of an engine count exactly the handles of its pending submissions, as long as nobody else takes or drops
a reference (`Tracked`). Every deed keeps that, and a slot that a submission refers to stays at its generation
until the submission has finished (`Follows`).
-/

namespace Strata

open Relation

variable {ν α : Type}

theorem perm_of_lookup {κ β : Type} [BEq κ] [LawfulBEq κ] {l : List (κ × List β)} {k : κ} {v : List β}
    (hn : (l.map (·.1)).Nodup) (h : l.lookup k = some v) :
    (l.flatMap (·.2)).Perm (v ++ (l.filter (·.1 != k)).flatMap (·.2)) := by
  induction l with
  | nil => cases h
  | cons x l ih =>
    obtain ⟨k', v'⟩ := x
    obtain ⟨hnot, hn⟩ := List.nodup_cons.mp hn
    by_cases hk : k = k'
    · subst hk
      rw [List.lookup_cons_self] at h
      cases h
      have hrest : l.filter (·.1 != k) = l := List.filter_eq_self.mpr fun x hx =>
        bne_iff_ne.mpr fun heq => hnot (List.mem_map.mpr ⟨x, hx, heq⟩)
      rw [List.filter_cons_of_neg (by simp), hrest]
      exact List.Perm.refl _
    · rw [List.lookup_cons, beq_false_of_ne hk] at h
      rw [List.filter_cons_of_pos (by simpa using Ne.symm hk)]
      simp only [List.flatMap_cons]
      have hmoved : (v' ++ (v ++ (l.filter (·.1 != k)).flatMap (·.2))).Perm
          (v ++ (v' ++ (l.filter (·.1 != k)).flatMap (·.2))) := by
        simp only [← List.append_assoc]
        exact List.perm_append_comm.append_right _
      exact ((ih hn h).append_left v').trans hmoved

namespace Pool

/-- A pool whose slots count their references in a list of handles. -/
structure Tallied (p : Pool ν α) (held : List Handle) : Prop where
  sound : p.Sound
  destroys : p.Destroys
  counts : p.arena.Counts held

/-- What is referred to stays at its generation. -/
def Stays (held : List Handle) (p p' : Pool ν α) : Prop :=
  ∀ i, p.arena.handleAt i ∈ held → p'.arena.handleAt i = p.arena.handleAt i

variable {p p' p'' : Pool ν α} {held : List Handle}

theorem Stays.refl (held : List Handle) (p : Pool ν α) : Stays held p p := fun _ _ => rfl

theorem Stays.trans (h : Stays held p p') (h' : Stays held p' p'') : Stays held p p'' := fun i hi =>
  (h' i (by rw [h i hi]; exact hi)).trans (h i hi)

theorem stays_of_generation (h : ∀ i, p.arena.handleAt i ∈ held →
    (p'.arena.slotAt i).generation = (p.arena.slotAt i).generation) : Stays held p p' := fun i hi => by
  unfold Arena.handleAt
  rw [h i hi]

theorem Stays.mono {held' : List Handle} (h : Stays held p p') (hs : held' ⊆ held) : Stays held' p p' :=
  fun i hi => h i (hs hi)

/-- A device whose buffers keep their sizes may be put in the place of another. -/
theorem Tallied.setDevice (h : p.Tallied held) {device : Device ν α}
    (hd : p.device.Firm device) : Tallied { p with device } held where
  sound := h.sound.resize hd.size hd.block
  destroys r hr := h.destroys r (hd.faults hr)
  counts := h.counts

theorem Tallied.fades (h : p.Tallied held) {device : Device ν α} (hd : p.device.Fades device)
    (hf : device.faults ⊆ p.device.faults) : Tallied { p with device } held :=
  h.setDevice ⟨Nat.le_of_eq hd.size.symm, fun id _ => by rw [hd.block id], hf⟩

variable [Measure ν]

/-- A request that neither takes nor drops a reference. -/
def Request.Neutral : Request ν → Prop
  | acquire _ | relinquish _ => False
  | r => r.Fair

/-- A request that lets no handle go stale but that it releases. -/
def Request.Gentle : Request ν → Prop
  | invalidate | close _ => False
  | r => r.Neutral

omit [Measure ν] in
theorem Request.Gentle.neutral {r : Request ν} (h : r.Gentle) : r.Neutral := by
  cases r <;> first | exact h | exact h.elim

omit [Measure ν] in
theorem Request.Neutral.fair {r : Request ν} (h : r.Neutral) : r.Fair := by
  cases r <;> first | exact h | exact h.elim

theorem Request.perform_tallies (hp : p.Sound) {r : Request ν} (h : r.Gentle) :
    p.arena.Tallies (r.perform p).2.arena := by
  cases r with
  | allocate format size => exact allocate_tallies hp format size
  | release k =>
    show p.arena.Tallies (Attempt.endWith (p.release k) _).2.arena
    rw [Attempt.endWith_snd]
    exact p.release_tallies k
  | trim =>
    show p.arena.Tallies (Attempt.endWith p.trim _).2.arena
    rw [Attempt.endWith_snd]
    exact p.trim_tallies
  | script | limit => exact .refl _
  | acquire | relinquish | invalidate | close => exact h.elim

theorem Request.perform_voids (hp : p.Sound) {r : Request ν} (h : r.Neutral) :
    p.arena.Voids (r.perform p).2.arena := by
  cases r with
  | invalidate =>
    show p.arena.Voids (Attempt.endWith p.invalidate _).2.arena
    rw [Attempt.endWith_snd]
    exact p.invalidate_voids
  | close closing =>
    show p.arena.Voids (Attempt.endWith (p.close closing) _).2.arena
    rw [Attempt.endWith_snd]
    exact p.close_voids closing
  | allocate format size => exact (@perform_tallies _ _ _ _ hp (.allocate format size) h).voids
  | release k => exact (@perform_tallies _ _ _ _ hp (.release k) h).voids
  | trim => exact (@perform_tallies _ _ _ _ hp .trim h).voids
  | script faults => exact (@perform_tallies _ _ _ _ hp (.script faults) h).voids
  | limit bytes => exact (@perform_tallies _ _ _ _ hp (.limit bytes) h).voids
  | acquire | relinquish => exact h.elim

theorem Tallied.perform (hp : p.Tallied held) {r : Request ν} (h : r.Neutral) : (r.perform p).2.Tallied held := by
  have hspec := r.perform_spec hp.sound
  exact ⟨hspec.sound, hspec.destroys hp.destroys h.fair,
    hp.counts.voids hspec.later (Request.perform_voids hp.sound h)⟩

theorem Tallied.perform_stays (hp : p.Tallied held) {r : Request ν} (h : r.Gentle) : Stays held p (r.perform p).2 :=
  stays_of_generation fun _ hi => hp.counts.stays (Request.perform_tallies hp.sound h) hi

omit [Measure ν] in
theorem Request.gentle_of_routine {r : Request ν} (h : r.isRoutine = true) : r.Gentle := by
  cases r <;> trivial

theorem Tallied.uses (hp : p.Tallied held) (h : p.Uses p') :
    p'.Tallied held ∧ p.arena.Later p'.arena ∧ Stays held p p' := by
  induction h with
  | refl => exact ⟨hp, .refl _, .refl held p⟩
  | tail _ h ih =>
    obtain ⟨r, hr, rfl⟩ := h
    obtain ⟨hq, hl, hs⟩ := ih
    have hgentle := Request.gentle_of_routine hr
    exact ⟨hq.perform hgentle.neutral, hl.trans (r.perform_spec hq.sound).later,
      hs.trans (hq.perform_stays hgentle)⟩

theorem Tallied.each_relinquish {handles : List Handle} (hp : p.Tallied (handles ++ held)) :
    (Attempt.each relinquish p handles).1 = .ok () ∧ p.arena.Later (Attempt.each relinquish p handles).2.arena ∧
      (Attempt.each relinquish p handles).2.Tallied held ∧ Stays held p (Attempt.each relinquish p handles).2 := by
  induction handles generalizing p with
  | nil => exact ⟨rfl, .refl _, hp, .refl held p⟩
  | cons h handles ih =>
    have hok := relinquish_ok hp.sound hp.destroys h
    have hquiet := relinquish_spec hp.sound h
    obtain ⟨hcounts, hstays⟩ := relinquish_counts hp.sound hp.counts
    unfold Attempt.each Attempt.andThen
    generalize p.relinquish h = r at hok hquiet hcounts hstays
    obtain ⟨r, q⟩ := r
    cases hok
    obtain ⟨hok', hl, hp', hs⟩ := ih ⟨hquiet.sound, hquiet.toLeads.destroys hp.destroys, hcounts⟩
    have hfirst : Stays held p q := stays_of_generation fun i hi => hstays i (List.mem_append_right _ hi)
    exact ⟨hok', hquiet.later.trans hl, hp', hfirst.trans hs⟩

end Pool

namespace Engine

/-! ## Taking references for a submission -/

/-- All handles are referred to, each at the generation of its slot, or none, if one is stale. -/
theorem acquireAll_tallied [Measure ν] {p : Pool ν α} {held taken : List Handle} {handles : List Handle}
    (hp : p.Tallied (taken ++ held)) :
    p.arena.Later (acquireAll p taken handles).2.arena ∧
    match acquireAll p taken handles with
    | (.ok (), q) => q.Tallied (handles ++ (taken ++ held)) ∧ Pool.Stays (taken ++ held) p q ∧
        ∀ h ∈ handles, q.arena.Current h
    | (.error _, q) => q.Tallied held ∧ Pool.Stays held p q := by
  induction handles generalizing p taken with
  | nil => exact ⟨.refl _, hp, .refl _ p, nofun⟩
  | cons h handles ih =>
    have hquiet := Pool.acquire_spec hp.sound h
    have hstays (held : List Handle) : Pool.Stays held p (p.acquire h).2 :=
      Pool.stays_of_generation fun i _ => p.acquire_tallies h i
    unfold acquireAll
    generalize hr : p.acquire h = r at hquiet hstays
    obtain ⟨r, q⟩ := r
    have hdestroys := hquiet.toLeads.destroys hp.destroys
    cases r with
    | error failure =>
      -- what was taken so far is dropped again
      obtain rfl := Pool.acquire_error hr
      obtain ⟨hok, hl, hq, hs⟩ := @Pool.Tallied.each_relinquish _ _ q held _ taken.reverse
        ⟨hp.sound, hp.destroys, hp.counts.perm ((List.reverse_perm taken).symm.append_right held)⟩
      dsimp only
      generalize Attempt.each Pool.relinquish q taken.reverse = r at hok hl hq hs
      obtain ⟨r, q'⟩ := r
      cases hok
      exact ⟨hl, hq, hs⟩
    | ok ref =>
      have htaken : q.Tallied ((h :: taken) ++ held) :=
        ⟨hquiet.sound, hdestroys, Pool.acquire_counts hp.counts hr⟩
      obtain ⟨hl, hrest⟩ := ih htaken
      dsimp only
      generalize acquireAll q (h :: taken) handles = r at hl hrest
      obtain ⟨r, q'⟩ := r
      refine ⟨hquiet.later.trans hl, ?_⟩
      cases r with
      | error failure => exact ⟨hrest.1, (hstays held).trans hrest.2⟩
      | ok u =>
        obtain ⟨hq, hs, hcurrent⟩ := hrest
        refine ⟨⟨hq.sound, hq.destroys, hq.counts.perm ?_⟩, (hstays _).trans (hs.mono (List.subset_cons_self ..)),
          List.forall_mem_cons.mpr ⟨?_, hcurrent⟩⟩
        · simp only [List.cons_append]
          exact List.perm_middle
        · obtain ⟨i, hi⟩ := Pool.acquire_current hr
          exact ⟨i, (hs i (by rw [hi]; exact List.mem_cons_self ..)).trans hi⟩

/-! ## Pending submissions -/

def held (e : Engine ν α) : List Handle := e.session.pending.flatMap (·.2)

/-- The slots of an engine count the handles of its pending submissions, and no others. -/
structure Tracked (e : Engine ν α) : Prop where
  sorted : e.Sorted
  tallied : e.pool.Tallied e.held
  numbered : ∀ x ∈ e.session.pending, ∃ n < e.session.nextToken, x.1 = .number n
  distinct : (e.session.pending.map (·.1)).Nodup

/-- What is pending was pending before, or was submitted since, which only a ready session allows. -/
structure Follows (e e' : Engine ν α) : Prop where
  tracked : e'.Tracked
  later : e.pool.arena.Later e'.pool.arena
  phase : e'.session.phase = .ready → e.session.phase = .ready
  nextToken : e.session.nextToken ≤ e'.session.nextToken
  pending : ∀ x ∈ e'.session.pending, x ∈ e.session.pending ∨
    e.session.phase = .ready ∧ ∃ n, e.session.nextToken ≤ n ∧ x.1 = .number n

/-- Moreover, the handles of what is pending are at the generations of their slots, unless they were stale before.
-/
structure Guards (e e' : Engine ν α) : Prop extends e.Follows e' where
  current : ∀ x ∈ e'.session.pending, ∀ h ∈ x.2, (x ∈ e.session.pending → e.pool.arena.Current h) →
    e'.pool.arena.Current h

variable {e e' e'' : Engine ν α}

theorem Follows.refl (h : e.Tracked) : e.Follows e := ⟨h, .refl _, id, Nat.le_refl _, fun _ => .inl⟩

theorem Follows.trans (h : e.Follows e') (h' : e'.Follows e'') : e.Follows e'' where
  tracked := h'.tracked
  later := h.later.trans h'.later
  phase := h.phase ∘ h'.phase
  nextToken := Nat.le_trans h.nextToken h'.nextToken
  pending x hx := by
    rcases h'.pending x hx with hx | ⟨hready, n, hn, heq⟩
    · exact h.pending x hx
    · exact .inr ⟨h.phase hready, n, Nat.le_trans h.nextToken hn, heq⟩

theorem Follows.idle (h : e.Follows e') (hready : e.session.phase ≠ .ready) (hp : e.session.pending = []) :
    e'.session.pending = [] := by
  refine List.eq_nil_iff_forall_not_mem.mpr fun x hx => ?_
  rcases h.pending x hx with hx | ⟨hr, -⟩
  · rw [hp] at hx
    cases hx
  · exact hready hr

theorem Guards.refl (h : e.Tracked) : e.Guards e := ⟨.refl h, fun _ hx _ _ hc => hc hx⟩

theorem Guards.trans (h : e.Guards e') (h' : e'.Guards e'') : e.Guards e'' :=
  ⟨h.toFollows.trans h'.toFollows, fun x hx k hk hc => h'.current x hx k hk fun hx => h.current x hx k hk hc⟩

/-- Nothing of the session changes but what is awaited and that it may end. -/
theorem Tracked.follows (h : e.Tracked) (hsorted : e'.Sorted) (hp : e'.session.pending = e.session.pending)
    (hphase : e'.session.phase = .ready → e.session.phase = .ready)
    (hn : e'.session.nextToken = e.session.nextToken) (htallied : e'.pool.Tallied e.held)
    (hl : e.pool.arena.Later e'.pool.arena) : e.Follows e' where
  tracked := ⟨hsorted, by unfold held; rw [hp]; exact htallied, by rw [hp, hn]; exact h.numbered,
    by rw [hp]; exact h.distinct⟩
  later := hl
  phase := hphase
  nextToken := Nat.le_of_eq hn.symm
  pending x hx := .inl (hp ▸ hx)

theorem Tracked.able (h : e.Tracked) : e.Able [.destroyBuffer] where
  pool := ⟨h.tallied.sound, fun x hx hmem => h.tallied.destroys x.2 (List.mem_singleton.mp hmem ▸ hx)⟩
  sorted := h.sorted

theorem mem_held {x : SubmissionId × List Handle} (hx : x ∈ e.session.pending) {k : Handle} (hk : k ∈ x.2) :
    k ∈ e.held := List.mem_flatMap.mpr ⟨x, hx, hk⟩

theorem current_of_stays (hs : Pool.Stays e.held e.pool e'.pool) {x : SubmissionId × List Handle}
    (hx : x ∈ e.session.pending) {k : Handle} (hk : k ∈ x.2) (hc : e.pool.arena.Current k) :
    e'.pool.arena.Current k := by
  obtain ⟨i, rfl⟩ := hc
  exact ⟨i, hs i (mem_held hx hk)⟩

theorem Tracked.guards (h : e.Tracked) (hsorted : e'.Sorted) (hp : e'.session.pending = e.session.pending)
    (hphase : e'.session.phase = .ready → e.session.phase = .ready)
    (hn : e'.session.nextToken = e.session.nextToken) (htallied : e'.pool.Tallied e.held)
    (hl : e.pool.arena.Later e'.pool.arena) (hs : Pool.Stays e.held e.pool e'.pool) : e.Guards e' :=
  ⟨h.follows hsorted hp hphase hn htallied hl, fun _ hx _ hk hc => current_of_stays hs (hp ▸ hx) hk (hc (hp ▸ hx))⟩

theorem Follows.guards_of_idle (h : e.Follows e') (hp : e'.session.pending = []) : e.Guards e' :=
  ⟨h, fun x hx => by rw [hp] at hx; cases hx⟩

/-! ## Acts -/

section
variable [Measure ν]

theorem Chore.guards (h : e.Tracked) (hc : e.Chore e') : e.Guards e' := by
  have hs := hc.sorted h.sorted
  cases hc with
  | note | schedule | settle | addJob | setJob | addPlan | makeArray | cache =>
    exact h.guards hs rfl id rfl h.tallied (.refl _) (.refl _ _)
  | pool pool huses =>
    obtain ⟨ht, hl, hstays⟩ := h.tallied.uses huses
    exact h.guards hs rfl id rfl ht hl hstays
  | device device hd =>
    exact h.guards hs rfl id rfl (h.tallied.fades (.of_rests hd) hd.faults) (.refl _) (.refl _ _)
  | compile key hopen =>
    have hc := e.cache.compile_compiles e.pool.device key
    have hfirm : e.pool.device.Firm (e.cache.compile e.pool.device key).2.2 :=
      ⟨hc.buffers ▸ Nat.le_refl _, fun _ _ => by rw [hc.buffers], hc.device.faults⟩
    exact h.guards hs rfl id rfl (h.tallied.setDevice hfirm) (.refl _) (.refl _ _)

/-- The references of a submission that is pending are dropped; those of others stay. Of a submission that is not
pending there is nothing to drop. -/
theorem finish_guards (h : e.Tracked) (token : SubmissionId) :
    (e.finish token).1 = .ok () ∧ e.Guards (e.finish token).2 ∧
      (e.finish token).2.session.pending = e.session.pending.filter (·.1 != token) := by
  unfold finish
  cases hl : e.session.pending.lookup token with
  | none =>
    refine ⟨rfl, .refl h, (List.filter_eq_self.mpr fun x hx => ?_).symm⟩
    exact bne_iff_ne.mpr (bne_iff_ne.mp (List.lookup_eq_none_iff.mp hl x hx)).symm
  | some handles =>
    dsimp only
    have hperm := perm_of_lookup h.distinct hl
    obtain ⟨hok, hlater, ht, hs⟩ := @Pool.Tallied.each_relinquish _ _ e.pool _ _ handles
      ⟨h.tallied.sound, h.tallied.destroys, h.tallied.counts.perm hperm⟩
    refine ⟨hok, ⟨⟨⟨?_, ht, fun x hx => h.numbered x (List.mem_of_mem_filter hx), ?_⟩, hlater, id,
      Nat.le_refl _,
      fun x hx => .inl (List.mem_of_mem_filter hx)⟩, fun x hx k hk hc => ?_⟩, rfl⟩
    · exact h.sorted
    · exact h.distinct.sublist (List.filter_sublist.map _)
    · obtain ⟨i, rfl⟩ := hc (List.mem_of_mem_filter hx)
      exact ⟨i, hs i (List.mem_flatMap.mpr ⟨x, hx, hk⟩)⟩

variable [Channel α] [Stored α] [Transfer α]

theorem submit_guards (h : e.Tracked) (plan : PlanId) : e.Guards (e.submit plan).2 := by
  have hsorted : (e.submit plan).2.Sorted := (Act.submit (R := fun _ => True) e plan).sorted h.sorted
  rcases e.submit_cases plan with heq | ⟨rec, failure, pool, -, hacquire, heq⟩ |
    ⟨rec, pool, device, turns, completion, hready, -, hacquire, hfirm, heq⟩
  all_goals rw [heq] at hsorted ⊢
  · exact .refl h
  · obtain ⟨hl, hq⟩ := @acquireAll_tallied _ _ _ e.pool e.held [] (rec.plan.stages.flatMap Stage.handles) h.tallied
    rw [hacquire] at hl hq
    exact h.guards hsorted rfl id rfl hq.1 hl hq.2
  · obtain ⟨hl, hq⟩ := @acquireAll_tallied _ _ _ e.pool e.held [] (rec.plan.stages.flatMap Stage.handles) h.tallied
    rw [hacquire] at hl hq
    obtain ⟨ht, hs, hcurrent⟩ := hq
    have hheld : (rec.plan.stages.flatMap Stage.handles ++ ([] ++ e.held)).Perm
        ((e.session.pending ++ [(e.token, rec.plan.stages.flatMap Stage.handles)]).flatMap Prod.snd) := by
      rw [List.flatMap_append, List.flatMap_singleton]
      exact List.perm_append_comm
    have hnew {x : SubmissionId × List Handle}
        (hx : x ∈ e.session.pending ++ [(e.token, rec.plan.stages.flatMap Stage.handles)]) :
        x ∈ e.session.pending ∨ x = (e.token, rec.plan.stages.flatMap Stage.handles) := by
      rwa [List.mem_append, List.mem_singleton] at hx
    refine ⟨⟨⟨hsorted, ?_, fun x hx => ?_, ?_⟩, hl, id, Nat.le_succ _, fun x hx => ?_⟩, fun x hx k hk hc => ?_⟩
    · exact Pool.Tallied.setDevice (p := pool) ⟨ht.sound, ht.destroys, ht.counts.perm hheld⟩ hfirm
    · rcases hnew hx with hx | rfl
      · obtain ⟨n, hn, heq⟩ := h.numbered x hx
        exact ⟨n, Nat.lt_succ_of_lt hn, heq⟩
      · exact ⟨e.session.nextToken, Nat.lt_succ_self _, rfl⟩
    · show ((e.session.pending ++ [(e.token, rec.plan.stages.flatMap Stage.handles)]).map (·.1)).Nodup
      rw [List.map_append, List.map_singleton, List.nodup_append]
      refine ⟨h.distinct, List.nodup_singleton _, fun a ha b hb heq => ?_⟩
      -- The number of the new submission is above all that are pending.
      obtain ⟨x, hx, rfl⟩ := List.mem_map.mp ha
      obtain ⟨n, hn, hnum⟩ := h.numbered x hx
      rw [List.mem_singleton.mp hb, hnum] at heq
      cases heq
      exact Nat.lt_irrefl _ hn
    · exact (hnew hx).imp_right fun heq => ⟨hready, e.session.nextToken, Nat.le_refl _, by rw [heq]; rfl⟩
    · rcases hnew hx with hx | rfl
      · exact @current_of_stays _ _ e { e with pool } hs _ hx k hk (hc hx)
      · exact hcurrent k hk

variable {R : Pool.Request ν → Prop}

theorem Act.guards (hR : ∀ r, R r → r.Gentle) (h : e.Tracked) (ha : Act R e e') : e.Guards e' := by
  have hs := ha.sorted h.sorted
  cases ha with
  | chore hc => exact hc.guards h
  | deliver | fill | addWait | await | tell | collect | discard | forget =>
    exact h.guards hs rfl id rfl h.tallied (.refl _) (.refl _ _)
  | submit plan => exact submit_guards h plan
  | finish token => exact (finish_guards h token).2.1
  | request r hr =>
    exact h.guards hs rfl id rfl (h.tallied.perform (hR r hr).neutral) (r.perform_spec h.tallied.sound).later
      (h.tallied.perform_stays (hR r hr))

theorem Deed.guards (hR : ∀ r, R r → r.Gentle) (h : e.Tracked) (hd : Deed R e e') : e.Guards e' := by
  have hs := hd.sorted h.sorted
  cases hd with
  | act ha => exact ha.guards hR h
  | phase phase hphase _ => exact h.guards hs rfl (absurd · hphase) rfl h.tallied (.refl _) (.refl _ _)
  | closeCache closing => exact h.guards hs rfl id rfl h.tallied (.refl _) (.refl _ _)
  | destroyDevice =>
    exact h.guards hs rfl id rfl (h.tallied.fades (.destroy e.pool.device) e.pool.device.destroy_steady.faults)
      (.refl _) (.refl _ _)

/-- Whatever requests are made, the slots count what is pending. -/
theorem Deed.follows (hR : ∀ r, R r → r.Neutral) (h : e.Tracked) (hd : Deed R e e') : e.Follows e' := by
  by_cases hrequest : ∃ r : Pool.Request ν, R r ∧ e' = { e with pool := (r.perform e.pool).2 }
  · obtain ⟨r, hr, rfl⟩ := hrequest
    exact h.follows h.sorted rfl id rfl (h.tallied.perform (hR r hr)) (r.perform_spec h.tallied.sound).later
  · have hgentle : Deed Pool.Request.Gentle e e' := by
      cases hd with
      | act ha =>
        cases ha with
        | chore hc => exact .act (.chore hc)
        | deliver turns heldBack settled hturns hsettled =>
            exact .act (.deliver e turns heldBack settled hturns hsettled)
        | fill a values => exact .act (.fill e a values)
        | await job token hmem => exact .act (.await e job token hmem)
        | tell token outcome => exact .act (.tell e token outcome)
        | collect token => exact .act (.collect e token)
        | discard token => exact .act (.discard e token)
        | forget => exact .act (.forget e)
        | addWait => exact .act (.addWait e)
        | submit plan => exact .act (.submit e plan)
        | finish token => exact .act (.finish e token)
        | request r hr => exact absurd ⟨r, hr, rfl⟩ hrequest
      | phase phase hphase hd => exact .phase e phase hphase hd
      | closeCache closing => exact .closeCache e closing
      | destroyDevice => exact .destroyDevice e
    exact (hgentle.guards (fun _ => id) h).toFollows

theorem Deeds.guards (hR : ∀ r, R r → r.Gentle) (h : e.Tracked) (hd : Deeds R e e') : e.Guards e' := by
  induction hd with
  | refl => exact .refl h
  | tail _ hd ih => exact ih.trans (hd.guards hR ih.tracked)

theorem Deeds.follows (hR : ∀ r, R r → r.Neutral) (h : e.Tracked) (hd : Deeds R e e') : e.Follows e' := by
  induction hd with
  | refl => exact .refl h
  | tail _ hd ih => exact ih.trans (hd.follows hR ih.tracked)

theorem Acts.guards (hR : ∀ r, R r → r.Gentle) (h : e.Tracked) (ha : Acts R e e') : e.Guards e' :=
  ha.deeds.guards hR h

/-! ## The end of a session -/

theorem abandoned_idle (h : e.Tracked) (hphase : e.session.phase ≠ .ready) (failure : Failure)
    {rest : Engine ν α → Attempt Failure (Engine ν α) Unit}
    (hrest : ∀ e', e.Guards e' → Deeds Pool.Request.Neutral e' (rest e').2) :
    ((e.abandonPending failure).andThen fun _ e' => rest e').2.session.pending = [] := by
  obtain ⟨hok, hidle⟩ := abandonPending_idle h.able (List.mem_singleton_self _) failure
  have hended := (abandonPending_acts (R := Pool.Request.Gentle) e failure).guards (fun _ => id) h
  unfold Attempt.andThen
  generalize e.abandonPending failure = r at hok hidle hended
  obtain ⟨r, e'⟩ := r
  cases hok
  exact ((hrest e' hended).follows (fun _ => id) hended.tracked).idle (fun hr => hphase (hended.phase hr)) hidle

theorem destroy_guards (h : e.Tracked) : e.Guards e.destroy.2 := by
  have hfollows : e.Follows e.destroy.2 :=
    (destroy_deeds (R := Pool.Request.Neutral) h.sorted fun _ => trivial).follows (fun _ => id) h
  by_cases hdestroyed : e.session.phase = .destroyed
  · unfold destroy
    rw [if_pos hdestroyed]
    exact .refl h
  · refine hfollows.guards_of_idle ?_
    unfold destroy
    rw [if_neg hdestroyed]
    have hphase := (Deed.phase (R := Pool.Request.Gentle) e .destroyed nofun hdestroyed).guards (fun _ => id) h
    refine abandoned_idle hphase.tracked nofun _ fun e' hended => ?_
    have hdiscard := (discardUnawaited_acts (R := Pool.Request.Neutral) e').deeds
    exact hdiscard.trans (shutDown_deeds (hdiscard.sorted hended.tracked.sorted) trivial)

theorem lossSeen_guards (h : e.Tracked) (reason message : String) : e.Guards (e.lossSeen reason message) := by
  have hfollows : e.Follows (e.lossSeen reason message) :=
    (lossSeen_deeds (R := Pool.Request.Neutral) h.sorted (fun _ => trivial) reason message).follows (fun _ => id) h
  by_cases hdestroyed : e.session.phase = .destroyed
  · unfold lossSeen
    rw [if_pos hdestroyed]
    exact .refl h
  · refine hfollows.guards_of_idle ?_
    unfold lossSeen
    rw [if_neg hdestroyed]
    have hreport := ((report_chores e (.deviceLost reason message)).acts (R := Pool.Request.Gentle)).guards
      (fun _ => id) h
    have hphase := (Deed.phase (R := Pool.Request.Gentle) (e.report (.deviceLost reason message)) .lost nofun
      hdestroyed).guards (fun _ => id) hreport.tracked
    exact abandoned_idle hphase.tracked nofun _ fun e' hended => shutDown_deeds hended.tracked.sorted trivial

/-! ## Moves -/

end

end Engine

/-- An operation leaves references to the session, and lets buffers be destroyed. -/
def Operation.Exclusive : Operation ν α → Prop
  | acquire _ | relinquish _ => False
  | fault call _ => call ≠ .destroyBuffer
  | _ => True

def Operation.invalidates : Operation ν α → Bool
  | invalidate | closeArena _ => true
  | _ => false

namespace Move

def Exclusive : Move ν α → Prop
  | call op => op.Exclusive
  | turn _ | fire => True

def invalidates : Move ν α → Bool
  | call op => op.invalidates
  | turn _ | fire => false

end Move

namespace Engine

variable [Measure ν] [Channel α] [Stored α] [Transfer α] {e : Engine ν α}

omit [Measure ν] [Channel α] [Stored α] [Transfer α] in
theorem neutral_of_exclusive {op : Operation ν α} (hop : op.Exclusive) {r : Pool.Request ν}
    (h : op.request? = some r) : r.Neutral := by
  cases op <;> cases h <;> trivial

omit [Measure ν] [Channel α] [Stored α] [Transfer α] in
theorem neutral_of_fault (h : e.Tracked) {call : DeviceCall} {raised : Raised}
    (hop : (Operation.fault call raised : Operation ν α).Exclusive) :
    Pool.Request.Neutral (.script (e.pool.device.faults ++ [(call, raised)]) : Pool.Request ν) := by
  intro r hr
  rcases List.mem_append.mp hr with hr | hr
  · exact h.tallied.destroys r hr
  · cases List.mem_singleton.mp hr
    exact hop rfl

theorem perform_guards (h : e.Tracked) (t : Turn ν α) : e.Guards (e.perform t) := by
  cases hloss : t.isLoss with
  | false => exact (perform_acts (R := Pool.Request.Gentle) h.sorted hloss).guards (fun _ => id) h
  | true =>
    cases t with
    | lossSeen reason message => exact lossSeen_guards h reason message
    | _ => cases hloss

omit [Measure ν] [Channel α] [Stored α] [Transfer α] in
theorem setTurns_guards (h : e.Tracked) (turns : List (Nat × Turn ν α)) : e.Guards { e with turns } :=
  h.guards h.sorted rfl id rfl h.tallied (.refl _) (.refl _ _)

theorem move_follows (h : e.Tracked) {m : Move ν α} (hm : m.Exclusive) : e.Follows (e.move m) := by
  obtain ⟨turns, -, hdeeds⟩ := move_deeds (R := Pool.Request.Neutral) h.sorted m (fun _ => trivial)
    (fun op r heq => by subst heq; exact neutral_of_exclusive hm)
    fun call raised heq => by subst heq; exact neutral_of_fault h hm
  have htaken := setTurns_guards h turns
  exact htaken.toFollows.trans (hdeeds.follows (fun _ => id) htaken.tracked)

theorem apply_guards (h : e.Tracked) {op : Operation ν α} (hop : op.Exclusive) (hi : op.invalidates = false) :
    e.Guards (e.apply op).2 := by
  have hR {r : Pool.Request ν} (hr : op.request? = some r) : r.Gentle := by
    cases op <;> cases hr <;> trivial
  by_cases hcache : ∃ closing, op = .closePipelines closing
  · obtain ⟨closing, rfl⟩ := hcache
    exact (closePipelines_deeds (R := Pool.Request.Gentle) h.sorted closing).guards (fun _ => id) h
  · by_cases hdestroy : op = .destroy
    · subst hdestroy
      unfold Engine.apply
      split
      · exact .refl h
      · exact destroy_guards h
    · refine (apply_acts (R := Pool.Request.Gentle) (fun closing h => hcache ⟨closing, h⟩) hdestroy (fun _ => hR)
        fun call raised heq => ?_).guards (fun _ => id) h
      subst heq
      exact neutral_of_fault h hop

theorem move_guards (h : e.Tracked) {m : Move ν α} (hm : m.Exclusive) (hi : m.invalidates = false) :
    e.Guards (e.move m) := by
  have htake (turns : List (Nat × Turn ν α)) (t : Turn ν α) :
      e.Guards (({ e with turns } : Engine ν α).perform t) :=
    (setTurns_guards h turns).trans (perform_guards (setTurns_guards h turns).tracked t)
  cases m with
  | call op => exact apply_guards h hm hi
  | turn n =>
    unfold Engine.move
    dsimp only
    split
    · exact htake _ _
    · exact .refl h
  | fire =>
    unfold Engine.move fire
    dsimp only
    split
    · exact .refl h
    · rename_i delay t rest _
      split
      · exact htake rest t
      · exact (setTurns_guards h rest).trans ((Act.schedule (R := Pool.Request.Gentle) _ _ t).guards (fun _ => id)
          (setTurns_guards h rest).tracked)

theorem run_follows {moves : List (Move ν α)} (h : e.Tracked) (hm : ∀ m ∈ moves, m.Exclusive) :
    e.Follows (e.run moves) := by
  induction moves generalizing e with
  | nil => exact .refl h
  | cons m moves ih =>
    have hfirst := move_follows h (hm m (List.mem_cons_self ..))
    exact hfirst.trans (ih hfirst.tracked fun m' hm' => hm m' (List.mem_cons_of_mem _ hm'))

theorem run_guards {moves : List (Move ν α)} (h : e.Tracked) (hm : ∀ m ∈ moves, m.Exclusive)
    (hi : ∀ m ∈ moves, m.invalidates = false) : e.Guards (e.run moves) := by
  induction moves generalizing e with
  | nil => exact .refl h
  | cons m moves ih =>
    have hfirst := move_guards h (hm m (List.mem_cons_self ..)) (hi m (List.mem_cons_self ..))
    exact hfirst.trans (ih hfirst.tracked (fun m' hm' => hm m' (List.mem_cons_of_mem _ hm'))
      fun m' hm' => hi m' (List.mem_cons_of_mem _ hm'))

omit [Stored α] [Transfer α] in
theorem Opened.tracked (h : e.Opened) (hd : e.pool.Destroys) : e.Tracked := by
  obtain ⟨device, o, config, rfl⟩ := h.eq
  refine ⟨fun j ⟨b, hb, _⟩ => absurd hb List.not_mem_nil, ⟨.start _ device, hd, nofun, fun i => ?_⟩, nofun,
    List.nodup_nil⟩
  show (Arena.slotAt _ i).refs = 0
  rw [Arena.slotAt_of_size_le _ (Nat.zero_le i)]
  rfl

/-- While the session alone takes and drops references, each slot counts the handles at its generation among those
of the submissions that are pending. Unless all handles are made stale at once, a slot that a pending submission
refers to stays occupied, at its generation and with its buffer. A submission that has finished has nothing to drop
ever after. -/
theorem references_exact {start : Engine ν α} (hstart : start.Opened) (hd : start.pool.Destroys)
    {moves : List (Move ν α)} (hm : ∀ m ∈ moves, m.Exclusive) :
    let e := start.run moves
    (∀ i, (e.pool.arena.slotAt i).refs = (e.session.pending.flatMap (·.2)).count (e.pool.arena.handleAt i)) ∧
    (∀ more : List (Move ν α), (∀ m ∈ more, m.Exclusive) → (∀ m ∈ more, m.invalidates = false) →
      let e' := e.run more
      ∀ x ∈ e'.session.pending, ∀ h ∈ x.2, (x ∈ e.session.pending → e.pool.arena.Current h) →
        ∃ i, e'.pool.arena.handleAt i = h ∧ (e'.pool.arena.slotAt i).occupancy ≠ .free ∧
          (x ∈ e.session.pending → (e'.pool.arena.slotAt i).backing = (e.pool.arena.slotAt i).backing)) ∧
    ∀ n < e.session.nextToken, .number n ∉ e.session.pending.map (·.1) →
      ∀ more : List (Move ν α), (∀ m ∈ more, m.Exclusive) →
        (e.run more).finish (.number n) = (.ok (), e.run more) := by
  intro e
  have htracked : e.Tracked := (run_follows (hstart.tracked hd) hm).tracked
  refine ⟨htracked.tallied.counts.refs, fun more hmore hi => ?_, fun n hn hp more hmore => ?_⟩
  · intro e' x hx h hh hc
    have hguards : e.Guards e' := run_guards htracked hmore hi
    obtain ⟨i, rfl⟩ := hguards.current x hx h hh hc
    refine ⟨i, rfl, hguards.tracked.tallied.counts.occupied (mem_held hx hh), fun hold => ?_⟩
    -- Both times the slot is at the generation of the handle.
    obtain ⟨j, hj⟩ := hc hold
    have hheld : e.pool.arena.handleAt j ∈ e.held := hj ▸ mem_held hold hh
    unfold Arena.handleAt at hj
    simp only [Handle.mk.injEq, Ident.number.injEq] at hj
    obtain ⟨rfl, hsame⟩ := hj
    exact ((hguards.later j).kept hsame (htracked.tallied.counts.occupied hheld)).2
  · have hfollows : e.Follows (e.run more) := run_follows htracked hmore
    have hnone : (e.run more).session.pending.lookup (.number n) = none := by
      refine List.lookup_eq_none_iff.mpr fun x hx => bne_iff_ne.mpr fun heq => ?_
      rcases hfollows.pending x hx with hx | ⟨-, k, hk, hnum⟩
      · exact hp (heq ▸ List.mem_map_of_mem hx)
      · rw [hnum] at heq
        cases heq
        exact Nat.not_lt_of_le hk hn
    unfold finish
    rw [hnone]

/-- A plan refers to a slot twice, and the slot is given up while the plan is pending. -/
theorem references_exact_released :
    let device : Device Int Bool := { limits := .standard }
    let h : Handle := ⟨.number 0, .number 0⟩
    let plan : Plan Int Bool := ⟨[.upload h ⟨0, #[]⟩, .barrier, .upload h ⟨0, #[]⟩], [], 1, 1, 0⟩
    let start : Engine Int Bool := { bare device {} with
      pool := ⟨{ options := ({} : EngineOptions Int).arena "Session" }, device⟩
      config := Config.standard.update {}
      supervised := true }
    let moves : List (Move Int Bool) := [.call (.allocate .params 32), .call (.takePlan plan), .call (.submit 0),
      .call (.release h)]
    let ended := moves ++ List.replicate 12 .fire
    (start.Opened ∧ start.pool.Destroys ∧ (∀ m ∈ moves, m.Exclusive) ∧ ∀ m ∈ ended, m.Exclusive) ∧
    ((start.run moves).pool.arena.slotAt 0).refs = 2 ∧
    (∀ more : List (Move Int Bool), (∀ m ∈ more, m.Exclusive) → (∀ m ∈ more, m.invalidates = false) →
      (.number 1, [h, h]) ∈ ((start.run moves).run more).session.pending →
      ∃ i, ((start.run moves).run more).pool.arena.handleAt i = h ∧
        (((start.run moves).run more).pool.arena.slotAt i).occupancy ≠ .free) ∧
    ∀ more : List (Move Int Bool), (∀ m ∈ more, m.Exclusive) →
      ((start.run ended).run more).finish (.number 1) = (.ok (), (start.run ended).run more) := by
  intro device h plan start moves ended
  have hstart : start.Opened := ⟨device, {}, .object [], rfl⟩
  have hd : start.pool.Destroys := fun r hr => absurd hr List.not_mem_nil
  have hm : ∀ m ∈ moves, m.Exclusive := by simp [moves, Move.Exclusive, Operation.Exclusive]
  have hended : ∀ m ∈ ended, m.Exclusive := by
    simp only [ended, List.mem_append, List.mem_replicate]
    rintro m (hm' | ⟨-, rfl⟩)
    · exact hm m hm'
    · trivial
  obtain ⟨hrefs, hstays, -⟩ := references_exact hstart hd hm
  obtain ⟨-, -, hdone⟩ := references_exact hstart hd hended
  refine ⟨⟨hstart, hd, hm, hended⟩, (hrefs 0).trans (by decide), fun more hmore hi hx => ?_,
    hdone 1 (by decide) (by decide)⟩
  obtain ⟨i, hi, ho, -⟩ := hstays more hmore hi _ hx h (List.mem_cons_self ..) fun _ => ⟨0, by decide⟩
  exact ⟨i, hi, ho⟩

end Engine

end Strata
