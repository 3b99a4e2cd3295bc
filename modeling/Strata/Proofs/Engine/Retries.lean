import Strata.Proofs.Engine.Concluding
import Strata.Proofs.Memory.Shelved

/-!
# Attempts that are made again

An attempt ends with what it comes to (`FailsAtOnce.ends`, `Concludes.ends`), and the call ends with that, or trims
the pool and makes another attempt. A call that cannot be aborted waits for what it has sent (`run_waits`), so when
an attempt has ended, nothing refers to what the call has allocated, and it is free (`Kept.freed`).
-/

namespace Strata.Engine

variable {ν α : Type} [Measure ν] {B : Books ν α} {e e' : Engine ν α} {m : Move ν α} {j : JobId} {t : SubmissionId}
  {failure : Failure} {c : CompositeCall ν α}

/-! ## Buffers of free slots -/

theorem relinquish_able {pool : Pool ν α} (ha : pool.Able [.destroyBuffer]) (k : Handle) :
    (pool.relinquish k).2.Able [.destroyBuffer] := by
  have hable := ha.perform (r := .relinquish k) trivial
  change ((pool.relinquish k).endWith (.ok none : Except Failure (Option Handle))).2.Able _ at hable
  rwa [Attempt.endWith_snd] at hable

theorem each_relinquish_shelved {pool : Pool ν α} (ha : pool.Able [.destroyBuffer]) (h : pool.arena.Shelved [])
    (handles : List Handle) : (Attempt.each Pool.relinquish pool handles).2.arena.Shelved [] :=
  (Attempt.each_keeps (P := fun p : Pool ν α => p.Able [.destroyBuffer] ∧ p.arena.Shelved [])
    (fun _ hp k _ => ⟨relinquish_able hp.1 k,
      Pool.relinquish_shelved hp.2 (hp.1.destroys (List.mem_singleton_self _)) k⟩)
    ⟨ha, h⟩).2

theorem acquireAll_shelved {pool : Pool ν α} (ha : pool.Able [.destroyBuffer]) (h : pool.arena.Shelved [])
    (taken handles : List Handle) : (acquireAll pool taken handles).2.arena.Shelved [] := by
  induction handles generalizing pool taken with
  | nil => exact h
  | cons k rest ih =>
    have hacquire := Pool.acquire_shelved h k
    have hable : (pool.acquire k).2.Able [.destroyBuffer] := ha.perform (r := .acquire k) trivial
    unfold acquireAll
    generalize pool.acquire k = r at hacquire hable
    obtain ⟨r, pool'⟩ := r
    cases r with
    | error failure =>
      show ((Attempt.each Pool.relinquish pool' taken.reverse).endWith
        (.error failure : Except Failure Unit)).2.arena.Shelved []
      rw [Attempt.endWith_snd]
      exact each_relinquish_shelved hable hacquire _
    | ok ref => exact ih hable hacquire _

theorem Chore.shelved (ha : e.Able [.destroyBuffer]) (h : e.pool.arena.Shelved []) (hc : e.Chore e') :
    e'.pool.arena.Shelved [] := by
  cases hc with
  | note | schedule | settle | addJob | setJob | addPlan | makeArray | device | compile | cache => exact h
  | pool pool hu =>
    suffices hall : pool.Able [.destroyBuffer] ∧ pool.arena.Shelved [] from hall.2
    induction hu with
    | refl => exact ⟨ha.pool, h⟩
    | tail _ hu ih =>
      obtain ⟨r, hr, rfl⟩ := hu
      exact ⟨ih.1.perform (by cases r <;> trivial), Pool.Request.perform_shelved ih.2 (ih.1.destroys (by simp)) r⟩

variable [Channel α] [Stored α] [Transfer α] {R : Pool.Request ν → Prop}

theorem Deed.shelved (ha : e.Able [.destroyBuffer]) (h : e.pool.arena.Shelved []) (hd : Deed R e e') :
    e'.pool.arena.Shelved [] := by
  cases hd with
  | act hact =>
    cases hact with
    | chore hc => exact hc.shelved ha h
    | submit plan =>
      have hacquire := acquireAll_shelved ha.pool h []
      rcases e.submit_cases plan with heq | ⟨rec, failure, pool, -, hpool, heq⟩ |
        ⟨rec, pool, device, turns, completion, -, -, hpool, -, heq⟩
      all_goals rw [heq]
      · exact h
      all_goals
        have hshelved := hacquire (rec.plan.stages.flatMap Stage.handles)
        rw [hpool] at hshelved
        exact hshelved
    | finish token =>
      show (e.finish token).2.pool.arena.Shelved []
      unfold finish
      split
      · exact h
      · exact each_relinquish_shelved ha.pool h _
    | request r hr => exact Pool.Request.perform_shelved h (ha.pool.destroys (by simp)) r
    | deliver | fill | addWait | await | tell | collect | discard | forget => exact h
  | phase | closeCache | destroyDevice => exact h

theorem Deeds.shelved (hR : ∀ r, R r → r.Spares [.destroyBuffer]) (ha : e.Able [.destroyBuffer])
    (h : e.pool.arena.Shelved []) (hd : Deeds R e e') : e'.pool.arena.Shelved [] := by
  induction hd with
  | refl => exact h
  | tail hd hlast ih => exact hlast.shelved (Deeds.able hR ha hd) ih

theorem Tended.shelved_step (h : e.Tended B) (hs : e.pool.arena.Shelved []) (hm : m.LeavesDelivery) :
    (e.move m).pool.arena.Shelved [] := by
  have hable : e.Able [.destroyBuffer] := h.life.able.mono (by simp [deliveryCalls])
  obtain ⟨turns, -, hdeeds⟩ := move_deeds_spares h.life.able hm
  exact Deeds.shelved (e := { e with turns }) (fun _ => id) ⟨hable.pool, hable.sorted⟩ hs hdeeds

/-! ## Slots of an attempt that has ended -/

theorem enters_awaited (h : e.Tended B) {x : SubmissionId × List Handle} (htakes : e.Takes m (.planned j))
    (hx : e.Enters m x) : ∃ c plan, (e.move m).call? j = some c ∧ c.phase = .draining plan x.1 := by
  obtain ⟨hnot, hentered⟩ := hx
  obtain ⟨delay, rest, -, heq⟩ := htakes.move_eq
  let e₁ : Engine ν α := { e with turns := rest }
  have hable : e₁.Able deliveryCalls := ⟨h.life.able.pool, h.life.able.sorted⟩
  rcases planned_submits_or hable j with ⟨c, plan, t, hc, hphase, habort, hok⟩ | ⟨-, hsession⟩
  · have hsubmits : e.SubmitsFor m j plan t :=
      ⟨htakes, c, hc, hphase, habort, (submit_turns e rest plan).symm.trans hok⟩
    obtain ⟨-, -, -, c', -, -, -, -, hcall⟩ := hsubmits.stands h.life
    obtain ⟨-, rest', c'', listeners, rec, pool, device, -, -, -, rfl, hmove⟩ := hsubmits.move_eq
    have hpending : (e.move m).session.pending =
        e.session.pending ++ [(e.token, rec.plan.stages.flatMap Stage.handles)] := by
      rw [hmove, waitFor_session]
      split <;> rfl
    rw [hpending] at hentered
    obtain rfl := List.mem_singleton.mp ((List.mem_append.mp hentered).resolve_left hnot)
    exact ⟨_, plan, hcall, rfl⟩
  · have hsame : (e.move m).session = e.session := heq ▸ hsession
    exact absurd (hsame ▸ hentered) hnot

theorem sent_numbered {start : Engine ν α} (ht : start.Tracked) {moves : List (Move ν α)}
    (hm : ∀ m ∈ moves, m.Exclusive) {x : SubmissionId × List Handle} (hsent : start.Sends moves j x) :
    ∃ n < (start.run moves).session.nextToken, x.1 = .number n := by
  obtain ⟨before, m, after, rfl, -, -, hentered⟩ := hsent
  have hsplit : before ++ m :: after = before ++ [m] ++ after := by simp
  have hrun := start.run_snoc before m
  have hfollows : start.Follows (start.run (before ++ [m])) :=
    run_follows ht fun m' hm' => hm m' (by rw [hsplit]; exact List.mem_append_left _ hm')
  obtain ⟨n, hn, hnumber⟩ := hfollows.tracked.numbered x (hrun.symm ▸ hentered)
  refine ⟨n, Nat.lt_of_lt_of_le hn ?_, hnumber⟩
  rw [hsplit, run_append start (before ++ [m]) after]
  exact (run_follows hfollows.tracked fun m' hm' =>
    hm m' (by rw [hsplit]; exact List.mem_append_right _ hm')).nextToken

omit [Channel α] [Stored α] [Transfer α] in
/-- What is pending has not settled, so a call that cannot be aborted is not resumed with it. -/
theorem not_resumed (h : e.Tended B) (hc : e.call? j = some c) (hsignal : c.signal = none)
    (hpending : e.Pending t) (o : Outcome) : ¬e.Takes m (.resumed j t o) := by
  intro htakes
  obtain ⟨delay, hdue⟩ := htakes.mem
  obtain ⟨-, c', hc', hsettled⟩ : e.Warrants (.resumed j t o) := h.informed.turns _ hdue
  cases hc.symm.trans hc'
  exact (hsettled hsignal).2 (h.life.pending t hpending)

/-- A call that cannot be aborted waits for what it has sent, as long as that is pending. -/
theorem run_waits {start : Engine ν α} (h : start.Tended B) (ht : start.Tracked) {moves : List (Move ν α)}
    (hm : ∀ m ∈ moves, m.LeavesDelivery ∧ m.Exclusive)
    (hsignal : ∀ c, (start.run moves).call? j = some c → c.signal = none) {x : SubmissionId × List Handle}
    (hx : x ∈ (start.run moves).session.pending) (hsent : start.Sends moves j x) :
    ∃ c plan, (start.run moves).call? j = some c ∧ c.phase = .draining plan x.1 := by
  induction moves using List.reverseRecOn with
  | nil =>
    obtain ⟨before, m, after, heq, -⟩ := hsent
    cases before <;> cases heq
  | append_singleton moves m ih =>
    have hm' (m' : Move ν α) (hmem : m' ∈ moves) : m'.LeavesDelivery ∧ m'.Exclusive :=
      hm m' (List.mem_append_left _ hmem)
    have hlast := hm m (List.mem_append_right _ (List.mem_singleton_self m))
    have hrun := start.run_snoc moves m
    obtain ⟨B', -, h'⟩ := h.run fun m' hmem => (hm' m' hmem).1
    rw [hrun] at hx hsignal ⊢
    have hsignal' (c : CompositeCall ν α) (hc : (start.run moves).call? j = some c) : c.signal = none := by
      obtain ⟨c', hc', hsame, -⟩ := move_asked h'.tidy h'.destroys hc m
      exact hsame.symm.trans (hsignal c' hc')
    by_cases hold : x ∈ (start.run moves).session.pending
    · have hsent : start.Sends moves j x := (along_append.mp hsent).resolve_right fun ⟨_, hnot, _⟩ => hnot hold
      obtain ⟨c, plan, hc, hphase⟩ := ih hm' hsignal' hold hsent
      refine ⟨c, plan, drains_until_resumed h'.tidy hc (h'.poised j c hc) hphase fun o => ?_, hphase⟩
      exact not_resumed h' hc (hsignal' c hc) (List.mem_map_of_mem hold) o
    · rcases along_append.mp hsent with hsent | ⟨htakes, henters⟩
      · -- What is entered later has a number that is not out yet.
        have hfollows := run_follows ht fun m' hmem => (hm' m' hmem).2
        obtain ⟨n, hn, hnumber⟩ := sent_numbered ht (fun m' hmem => (hm' m' hmem).2) hsent
        obtain ⟨-, n', hn', hnumber'⟩ := ((move_follows hfollows.tracked hlast.2).pending x hx).resolve_left hold
        cases hnumber.symm.trans hnumber'
        exact absurd hn (Nat.not_lt.mpr hn')
      · exact enters_awaited h' htakes henters

/-- What a call that cannot be aborted has allocated is free once its attempt has ended, and is free in the trimmed
pool; unless a plan over it was submitted by hand. -/
theorem attempt_freed {start : Engine ν α} (h : start.Tended B) (ht : start.Tracked) {moves : List (Move ν α)}
    (hm : ∀ m ∈ moves, m.LeavesDelivery ∧ m.Exclusive) (hkept : start.Kept moves j)
    (hc : (start.run moves).call? j = some c) (hsignal : c.signal = none) (hover : c.phase.isOver = true)
    {k : Handle} (hk : start.Allocates moves j k)
    (hhand : ∀ x ∈ (start.run moves).session.pending, k ∈ x.2 → ¬start.SendsByHand moves x) :
    let p := (start.run moves).pool.trim.2
    p.arena.contains k = false ∧ ∀ i, p.arena.handleAt i = k → (p.arena.slotAt i).occupancy = .free := by
  intro p
  obtain ⟨B', -, h'⟩ := h.run fun m hmem => (hm m hmem).1
  have hneeds : ¬(start.run moves).Needs j k := by
    rintro ⟨c', hc', hclaim⟩
    cases hc.symm.trans hc'
    rw [(h'.poised j c hc).claims_nil hover] at hclaim
    cases hclaim
  have hunheld : k ∉ (start.run moves).session.pending.flatMap (·.2) := by
    intro hheld
    obtain ⟨x, hx, hkx⟩ := List.mem_flatMap.mp hheld
    rcases hkept.pending x hx k hkx hk with hsent | hsent
    · have hsignals (c' : CompositeCall ν α) (hc' : (start.run moves).call? j = some c') : c'.signal = none := by
        cases hc.symm.trans hc'
        exact hsignal
      obtain ⟨c', plan, hc', hphase⟩ := run_waits h ht hm hsignals hx hsent
      cases hc.symm.trans hc'
      rw [hphase] at hover
      cases hover
    · exact hhand x hx hkx hsent
  obtain ⟨hdead, hfree⟩ := hkept.freed hneeds hk hunheld
  refine ⟨?_, fun i hi => ?_⟩
  · rw [(Pool.trim_quiet h'.life.able.pool.sound).contains, hdead]
  · rw [Pool.trim_handleAt] at hi
    rw [(Pool.trim_stripped h'.destroys).2.occupancy]
    exact hfree i hi

/-! ## Counting the attempts -/

section
omit [Measure ν] [Channel α] [Stored α] [Transfer α]

/-- The turn that a move takes. -/
def taken? (e : Engine ν α) : Move ν α → Option (Turn ν α)
  | .call _ => none
  | .turn n => e.turns[n]?.map (·.2)
  | .fire => e.turns.head?.bind fun x => if x.1 ≤ 1 then some x.2 else none

theorem taken?_eq {x : Turn ν α} : e.taken? m = some x ↔ e.Takes m x := by
  cases m with
  | call op => simp [taken?, Takes]
  | turn n => simp [taken?, Takes]
  | fire =>
    cases hturns : e.turns with
    | nil => simp [taken?, Takes, hturns]
    | cons y rest =>
      simp only [taken?, Takes, hturns, List.head?_cons, Option.bind_some, Option.ite_none_right_eq_some,
        Option.some.injEq, List.cons.injEq]
      exact ⟨fun ⟨hle, hx⟩ => ⟨y.1, rest, ⟨hx ▸ rfl, rfl⟩, hle⟩, fun ⟨_, _, ⟨hy, _⟩, hle⟩ => hy ▸ ⟨hle, rfl⟩⟩

def renews (e : Engine ν α) (m : Move ν α) (j : JobId) : Bool :=
  match e.taken? m, e.call? j with
  | some (.attemptEnded i (.error failure)), some c =>
    i == j && failure.code? == some .outOfMemory && decide (c.retries < e.config.retries.getD 0)
  | _, _ => false

theorem renews_iff : e.renews m j = true ↔ ∃ failure, e.Renews m j failure := by
  constructor
  · intro h
    unfold renews at h
    split at h
    · rename_i i failure c htaken hc
      simp only [Bool.and_eq_true, beq_iff_eq, decide_eq_true_eq] at h
      obtain ⟨⟨rfl, hcode⟩, hlt⟩ := h
      exact ⟨failure, taken?_eq.mp htaken, c, hc, hcode, hlt⟩
    · cases h
  · rintro ⟨failure, htakes, c, hc, hcode, hlt⟩
    unfold renews
    rw [taken?_eq.mpr htakes, hc]
    simp [hcode, hlt]

end

def renewals (e : Engine ν α) (j : JobId) : List (Move ν α) → Nat
  | [] => 0
  | m :: moves => (e.renews m j).toNat + (e.move m).renewals j moves

theorem renewals_append (e : Engine ν α) (j : JobId) (moves moves' : List (Move ν α)) :
    e.renewals j (moves ++ moves') = e.renewals j moves + (e.run moves).renewals j moves' := by
  induction moves generalizing e with
  | nil => exact (Nat.zero_add _).symm
  | cons m moves ih =>
    show (e.renews m j).toNat + (e.move m).renewals j (moves ++ moves') = _
    rw [ih, ← Nat.add_assoc]
    rfl

/-! ## Runs -/

/-- How a composite call that cannot be aborted makes attempts, at most `r` of them again, after it has begun with
the pool. -/
structure RetriesCleanly (start : Engine ν α) (begun after : List (Move ν α)) (pool : Pool ν α) (j : JobId)
    (c : CompositeCall ν α) (r : Nat) : Prop where
  first : (start.run begun).Attempts pool j c
  bounded : ∀ mid rest, after = mid ++ rest →
    (start.run (begun ++ mid)).Has j { c with retries := (start.run begun).renewals j mid } ∧
      (start.run begun).renewals j mid ≤ r
  /-- An attempt ends with what it came to. -/
  own : ∀ mid m rest result, after = mid ++ m :: rest →
    let e := start.run (begun ++ mid)
    (∀ failure, ¬e.Renews m j failure) → ((e.move m).EndsWith j result ↔
      e.Concludes m j result ∨ e.EndsWith j result ∧ ¬e.Takes m (.attemptEnded j result))
  ends : ∀ mid rest result, after = mid ++ rest → (start.run (begun ++ mid)).EndsWith j result →
    ∃ n, ((start.run (begun ++ mid)).fires n).Takes .fire (.attemptEnded j result)
  /-- An attempt that ran out of memory is made again if fewer than `r` were. No free slot has a buffer then, and no
  slot of the call is live or given up, unless a plan over it was submitted by hand. -/
  again : ∀ mid m rest failure, after = mid ++ m :: rest →
    (start.run (begun ++ mid)).Takes m (.attemptEnded j (.error failure)) → failure.code? = some .outOfMemory →
    (start.run begun).renewals j mid < r →
    let p := (start.run (begun ++ mid)).pool.trim.2
    (∃ c', ((start.run (begun ++ mid)).move m).Attempts p j c' ∧
      { c with retries := (start.run begun).renewals j mid + 1 }.Same c') ∧
    (∀ i, (p.arena.slotAt i).occupancy = .free → (p.arena.slotAt i).backing = none) ∧
    ∀ k, start.Allocates (begun ++ mid) j k →
      (∀ x ∈ (start.run (begun ++ mid)).session.pending, k ∈ x.2 → ¬start.SendsByHand (begun ++ mid) x) →
        p.arena.contains k = false ∧ ∀ i, p.arena.handleAt i = k → (p.arena.slotAt i).occupancy = .free
  /-- Otherwise the call ends with what the attempt came to, and makes no other attempt. -/
  last : ∀ mid m rest result, after = mid ++ m :: rest →
    (start.run (begun ++ mid)).Takes m (.attemptEnded j result) →
    (∀ failure, result = .error failure → failure.code? = some .outOfMemory →
      r ≤ (start.run begun).renewals j mid) →
    (∃ answer, (start.run (begun ++ after)).settled.filter (·.1 == j) = [(j, answer)] ∧
      (∀ failure, result = .error failure → answer = .error failure) ∧
      ∀ raster, result = .ok raster → c.verifies = false → answer = .ok (.raster raster)) ∧
    ((start.run (begun ++ mid)).move m).renewals j rest = 0

theorem run_counts {begun : Engine ν α} (h : begun.Tended B) (hfirst : begun.Has j { c with retries := 0 })
    {r : Nat} {moves : List (Move ν α)} (hm : ∀ m ∈ moves, m.LeavesDelivery)
    (hconfig : ∀ mid rest, moves = mid ++ rest → (begun.run mid).config.retries.getD 0 = r) :
    (begun.run moves).Has j { c with retries := begun.renewals j moves } ∧ begun.renewals j moves ≤ r := by
  induction moves using List.reverseRecOn with
  | nil => exact ⟨hfirst, Nat.zero_le r⟩
  | append_singleton moves m ih =>
    have hm' (m' : Move ν α) (hmem : m' ∈ moves) : m'.LeavesDelivery := hm m' (List.mem_append_left _ hmem)
    obtain ⟨⟨c', hc', hsame⟩, hle⟩ := ih hm' fun mid rest heq => hconfig mid (rest ++ [m])
        (by rw [heq, List.append_assoc])
    obtain ⟨B', -, h'⟩ := h.run hm'
    have hlimit : (begun.run moves).config.retries.getD 0 = r := hconfig moves [m] rfl
    have hcount : begun.renewals j (moves ++ [m]) = begun.renewals j moves + ((begun.run moves).renews m j).toNat :=
      renewals_append ..
    rw [run_snoc, hcount]
    by_cases hrenews : (begun.run moves).renews m j = true
    · obtain ⟨failure, hr⟩ := renews_iff.mp hrenews
      obtain ⟨-, c'', hc'', -, hlt⟩ := id hr
      cases hc'.symm.trans hc''
      rw [hlimit, hsame.retries] at hlt
      rw [hrenews]
      refine ⟨?_, hlt⟩
      obtain ⟨c'', hc'', hsame'⟩ := renews_has h'.destroys hc' hr
      exact ⟨c'', hc'', hsame.again.trans hsame'⟩
    · rw [Bool.eq_false_iff.mpr hrenews]
      obtain ⟨c'', hc'', hsame'⟩ := move_has h'.tidy hc' fun failure hr => hrenews (renews_iff.mpr ⟨failure, hr⟩)
      exact ⟨⟨c'', hc'', hsame.trans hsame'⟩, hle⟩

theorem renewals_ended (h : e.Tended B) {answer : Except Failure (JobValue ν α)} (hmem : (j, answer) ∈ e.settled)
    (hcall : (e.call? j).isSome) {moves : List (Move ν α)} (hm : ∀ m ∈ moves, m.LeavesDelivery) :
    e.renewals j moves = 0 := by
  induction moves generalizing e B with
  | nil => rfl
  | cons m moves ih =>
    obtain ⟨hsettled, hcalls⟩ := move_retains h.life.able.sorted m
    obtain ⟨B', -, h'⟩ := h.move (hm m (List.mem_cons_self ..))
    have hrest := ih h' (hsettled hmem) (hcalls j hcall) fun m' hmem => hm m' (List.mem_cons_of_mem _ hmem)
    have hnone : e.renews m j = false := by
      refine Bool.eq_false_iff.mpr fun hrenews => ?_
      obtain ⟨failure, htakes, c, hc, -⟩ := renews_iff.mp hrenews
      exact htakes.endsWith.unsettled h hc answer hmem
    show (e.renews m j).toNat + (e.move m).renewals j moves = 0
    rw [hnone, hrest]
    rfl

theorem run_shelved {start : Engine ν α} (hstart : start.Opened)
    (hd : ∀ x ∈ start.pool.device.faults, x.1 ∉ deliveryCalls) {moves : List (Move ν α)}
    (hm : ∀ m ∈ moves, m.LeavesDelivery) : (start.run moves).pool.arena.Shelved [] := by
  have hempty : start.pool.arena.Shelved [] := by
    obtain ⟨device, o, config, rfl⟩ := hstart.eq
    exact fun i _ _ _ => rfl
  exact (hstart.tended hd).run_keeps (P := fun e => e.pool.arena.Shelved []) (Q := fun _ _ => False)
    (fun h hm _ hs => h.shelved_step hs hm) hm (fun ⟨_, _, _, _, h⟩ => h) hempty

theorem settled_stays (h : e.Tended B) {answer : Except Failure (JobValue ν α)} (hmem : (j, answer) ∈ e.settled)
    (hcall : (e.call? j).isSome) {moves : List (Move ν α)} (hm : ∀ m ∈ moves, m.LeavesDelivery) :
    (e.run moves).settled.filter (·.1 == j) = [(j, answer)] := by
  obtain ⟨hsettled, hcalls⟩ := h.run_keeps (P := fun e => (j, answer) ∈ e.settled ∧ (e.call? j).isSome)
    (Q := fun _ _ => False) (fun {e B m} h _ _ hP =>
      have hretains := move_retains h.life.able.sorted m
      ⟨hretains.1 hP.1, hretains.2 j hP.2⟩) hm (fun ⟨_, _, _, _, h⟩ => h) ⟨hmem, hcall⟩
  obtain ⟨B', -, h'⟩ := h.run hm
  obtain ⟨c, hc⟩ := Option.isSome_iff_exists.mp hcalls
  exact settled_alone hsettled (h'.ends_le hc)

section
variable {start : Engine ν α} {begun after mid rest : List (Move ν α)} {r : Nat}

omit [Measure ν] [Channel α] [Stored α] [Transfer α] in
theorem clean_split (hm : ∀ m ∈ begun ++ after, m.LeavesDelivery ∧ m.Exclusive) (heq : after = mid ++ rest) :
    (∀ m ∈ begun ++ mid, m.LeavesDelivery ∧ m.Exclusive) ∧ ∀ m ∈ rest, m.LeavesDelivery := by
  rw [heq, ← List.append_assoc] at hm
  exact ⟨fun m hmem => hm m (List.mem_append_left _ hmem), fun m hmem => (hm m (List.mem_append_right _ hmem)).1⟩

theorem begun_counts (hstart : start.Opened) (hd : ∀ x ∈ start.pool.device.faults, x.1 ∉ deliveryCalls)
    (hm : ∀ m ∈ begun ++ after, m.LeavesDelivery ∧ m.Exclusive)
    (hhas : (start.run begun).Has j { c with retries := 0 })
    (hconfig : ∀ mid rest, after = mid ++ rest → (start.run (begun ++ mid)).config.retries.getD 0 = r)
    (heq : after = mid ++ rest) : (∃ B, (start.run (begun ++ mid)).Tended B) ∧
      (start.run (begun ++ mid)).Has j { c with retries := (start.run begun).renewals j mid } ∧
      (start.run begun).renewals j mid ≤ r := by
  have hmid := (clean_split hm heq).1
  obtain ⟨B, -, h⟩ := (hstart.tended hd).run fun m hmem => (hmid m (List.mem_append_left _ hmem)).1
  obtain ⟨B', -, h'⟩ := (hstart.tended hd).run fun m hmem => (hmid m hmem).1
  refine ⟨⟨B', h'⟩, ?_⟩
  rw [run_append]
  refine run_counts h hhas (fun m hmem => (hmid m (List.mem_append_right _ hmem)).1) fun mid' rest' hmid' => ?_
  rw [← run_append]
  exact hconfig mid' (rest' ++ rest) (by rw [heq, hmid', List.append_assoc])

end

theorem begun_retries_cleanly {start : Engine ν α} (hstart : start.Opened)
    (hd : ∀ x ∈ start.pool.device.faults, x.1 ∉ deliveryCalls) {begun after : List (Move ν α)}
    (hm : ∀ m ∈ begun ++ after, m.LeavesDelivery ∧ m.Exclusive) {pool : Pool ν α} {r : Nat}
    (hfirst : (start.run begun).Attempts pool j c) (hhas : (start.run begun).Has j { c with retries := 0 })
    (hsignal : c.signal = none)
    (hconfig : ∀ mid rest, after = mid ++ rest → (start.run (begun ++ mid)).config.retries.getD 0 = r) :
    start.RetriesCleanly begun after pool j c r := by
  have hdestroys : start.pool.Destroys := (hstart.tended hd).destroys
  have hcounts {mid rest : List (Move ν α)} (heq : after = mid ++ rest) :=
    begun_counts hstart hd hm hhas hconfig heq
  constructor
  case first => exact hfirst
  case bounded => exact fun mid rest heq => (hcounts heq).2
  case own =>
    intro mid m rest result heq e hlast
    obtain ⟨hmid, hrest⟩ := clean_split hm heq
    obtain ⟨⟨B, h⟩, ⟨c', hc', hsame⟩, -⟩ := hcounts heq
    exact endsWith_iff h (hrest m (List.mem_cons_self ..)) hc' (hsame.signal.trans hsignal) hlast
  case ends =>
    intro mid rest result heq hends
    obtain ⟨⟨delay, x⟩, hdue, rfl⟩ := List.mem_map.mp hends
    obtain ⟨n, delay', rest', hn, hle⟩ := comes_up hdue
    exact ⟨n, delay', rest', hn, hle⟩
  case again =>
    intro mid m rest failure heq htakes hcode hlt
    obtain ⟨hmid, hrest⟩ := clean_split hm heq
    obtain ⟨⟨B, h⟩, ⟨c', hc', hsame⟩, -⟩ := hcounts heq
    have hr : (start.run (begun ++ mid)).Retriable c' failure := by
      refine ⟨hcode, ?_⟩
      rwa [hconfig mid (m :: rest) heq, hsame.retries]
    refine ⟨⟨_, renews_attempts h (hrest m (List.mem_cons_self ..)) hc' htakes hr, hsame.again⟩, fun i => ?_,
      fun k hk hhand => ?_⟩
    · exact Pool.trim_bare (run_shelved hstart hd fun m hmem => (hmid m hmem).1) h.destroys
    · have hkept := run_kept hstart hdestroys (fun m hmem => (hmid m hmem).2) j
      exact attempt_freed (hstart.tended hd) (hstart.tracked hdestroys) hmid hkept hc' (hsame.signal.trans hsignal)
        (htakes.endsWith.over h hc') hk hhand
  case last =>
    intro mid m rest result heq htakes hlast
    obtain ⟨hmid, hrest⟩ := clean_split hm heq
    obtain ⟨⟨B, h⟩, ⟨c', hc', hsame⟩, -⟩ := hcounts heq
    obtain ⟨B', -, h'⟩ := h.move (hrest m (List.mem_cons_self ..))
    have hlater (m' : Move ν α) (hmem : m' ∈ rest) : m'.LeavesDelivery := hrest m' (List.mem_cons_of_mem m hmem)
    have hsettled : (j, result >>= (start.run (begun ++ mid)).answerOf c') ∈
        ((start.run (begun ++ mid)).move m).settled := by
      refine ends_settled hc' htakes fun failure hf hr => ?_
      obtain ⟨hcode, hlt⟩ := hr
      rw [hconfig mid (m :: rest) heq, hsame.retries] at hlt
      exact Nat.not_lt.mpr (hlast failure hf hcode) hlt
    have hcall := (move_retains h.life.able.sorted m).2 j (Option.isSome_of_eq_some hc')
    refine ⟨⟨result >>= (start.run (begun ++ mid)).answerOf c', ?_, ?_, ?_⟩,
      renewals_ended h' hsettled hcall hlater⟩
    · rw [heq, ← List.append_assoc, run_append]
      exact settled_stays h' hsettled hcall hlater
    · rintro failure rfl
      rfl
    · rintro raster rfl hverifies
      exact if_neg (by rw [hsame.verifies.trans hverifies]; exact Bool.false_ne_true)

/-- Composite calls that cannot be aborted retry cleanly, in any run. -/
theorem calls_retry_cleanly {start : Engine ν α} (hstart : start.Opened)
    (hd : ∀ x ∈ start.pool.device.faults, x.1 ∉ deliveryCalls) {before after : List (Move ν α)}
    {layers options : Value α} {verifies : Bool} {ls : List (Layer ν α)} {o : CompositeOptions} {r : Nat}
    (hm : ∀ m ∈ before ++ .call (.composite layers options verifies) :: after, m.LeavesDelivery ∧ m.Exclusive)
    (hlayers : parseLayers layers = .ok ls) (hoptions : parseOptions options = .ok o) (hsignal : o.signal = none)
    (hconfig : ∀ mid rest, after = mid ++ rest →
      (start.run (before ++ .call (.composite layers options verifies) :: mid)).config.retries.getD 0 = r) :
    start.RetriesCleanly (before ++ [.call (.composite layers options verifies)]) after (start.run before).pool
      (start.run before).jobs.size ⟨ls, o.outputFormat, none, verifies, 0, [], .ended⟩ r := by
  let call : Move ν α := .call (.composite layers options verifies)
  have hsplit (mid : List (Move ν α)) : before ++ [call] ++ mid = before ++ call :: mid := List.append_assoc ..
  obtain ⟨B, -, h⟩ := (hstart.tended hd).run fun m hmem => (hm m (List.mem_append_left _ hmem)).1
  let first : CompositeCall ν α := ⟨ls, o.outputFormat, o.signal, verifies, 0, [], .ended⟩
  obtain ⟨hfirst, hhas⟩ : ((start.run before).move call).Attempts (start.run before).pool
      (start.run before).jobs.size first ∧
      ((start.run before).move call).Has (start.run before).jobs.size first :=
    begins_attempts h (run_supervised hstart hd before) hlayers hoptions (by rw [hsignal]; rfl)
  have hbegun := start.run_snoc before call
  dsimp only [first] at hfirst hhas
  rw [hsignal, ← hbegun] at hfirst hhas
  rw [← hsplit] at hm
  refine begun_retries_cleanly hstart hd hm hfirst hhas rfl fun mid rest heq => ?_
  rw [hsplit]
  exact hconfig mid rest heq

/-! ### A call that is made again once -/

namespace Retrying

def plain : Move Int Bool := .call (.composite (.array [Aborted.layer]) (.object []) false)

def exceeded : Failure := .of (.budgetExceeded 16 16 "20")

/-- The failure that is about to end an attempt of the first call. -/
def due? (e : Engine Int Bool) : Option Failure :=
  match e.turns with
  | (1, .attemptEnded 0 (.error failure)) :: _ => some failure
  | _ => none

theorem takes_due {e : Engine Int Bool} {failure : Failure} (h : due? e = some failure) :
    e.Takes .fire (.attemptEnded 0 (.error failure)) := by
  unfold due? at h
  split at h
  · rename_i rest hturns
    cases h
    exact ⟨1, rest, hturns, Nat.le_refl 1⟩
  · cases h

end Retrying

open Retrying in
theorem calls_retry_cleanly_once :
    ((start 20).Opened ∧ (∀ x ∈ (start 20).pool.device.faults, x.1 ∉ deliveryCalls) ∧
      (∀ m ∈ [] ++ plain :: [.fire, .fire], m.LeavesDelivery ∧ m.Exclusive) ∧
      (∃ ls : List (Layer Int Bool), parseLayers (.array [Aborted.layer]) = .ok ls) ∧
      ∀ mid rest, [.fire, .fire] = mid ++ rest → ((start 20).run ([] ++ plain :: mid)).config.retries.getD 0 = 1) ∧
    (∀ i, (((start 20).run [plain]).pool.trim.2.arena.slotAt i).occupancy = .free →
      (((start 20).run [plain]).pool.trim.2.arena.slotAt i).backing = none) ∧
    ((start 20).run [plain]).renewals 0 [.fire, .fire] = 1 ∧
    ((start 20).run [plain, .fire, .fire]).settled.filter (·.1 == 0) = [(0, .error exceeded)] := by
  have hd : ∀ x ∈ (start 20).pool.device.faults, x.1 ∉ deliveryCalls := fun x hx => absurd hx List.not_mem_nil
  have hm : ∀ m ∈ [] ++ plain :: [.fire, .fire], m.LeavesDelivery ∧ m.Exclusive := by
    simp [plain, Move.LeavesDelivery, Operation.LeavesDelivery, Move.Exclusive, Operation.Exclusive]
  have hparses : (parseLayers (ν := Int) (.array [Aborted.layer])).toOption.isSome = true := by decide +kernel
  have hconfig : ∀ mid rest, [.fire, .fire] = mid ++ rest →
      ((start 20).run ([] ++ plain :: mid)).config.retries.getD 0 = 1 := by
    intro mid rest heq
    rcases mid with _ | ⟨m, _ | ⟨m', _ | ⟨m'', mid⟩⟩⟩ <;> cases heq <;> decide +kernel
  have hparsed : ∃ ls : List (Layer Int Bool), parseLayers (.array [Aborted.layer]) = .ok ls := by
    cases hlayers : parseLayers (ν := Int) (.array [Aborted.layer]) with
    | error failure =>
      rw [hlayers] at hparses
      cases hparses
    | ok ls => exact ⟨ls, rfl⟩
  obtain ⟨ls, hlayers⟩ := id hparsed
  have hoptions : parseOptions (.object [] : Value Bool) = .ok ⟨none, none⟩ := by decide +kernel
  have hretries := calls_retry_cleanly (opened 20) hd hm hlayers hoptions rfl hconfig
  have hfirst : ((start 20).run [plain]).Takes .fire (.attemptEnded 0 (.error exceeded)) :=
    takes_due (by decide +kernel)
  have hsecond : ((start 20).run [plain, .fire]).Takes .fire (.attemptEnded 0 (.error exceeded)) :=
    takes_due (by decide +kernel)
  obtain ⟨-, hbare, -⟩ := hretries.again [] .fire [.fire] exceeded rfl hfirst rfl Nat.one_pos
  obtain ⟨⟨answer, hsettled, hfails, -⟩, -⟩ := hretries.last [.fire] .fire [] (.error exceeded) rfl hsecond
    fun _ _ _ => by decide +kernel
  refine ⟨⟨opened 20, hd, hm, hparsed, hconfig⟩, hbare, by decide +kernel, ?_⟩
  exact hfails exceeded rfl ▸ hsettled

end Strata.Engine
