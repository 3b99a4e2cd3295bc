import Strata.Proofs.Engine.Calls
import Strata.Proofs.Engine.Promises

/-!
# Changes that nobody relies on

A `Change` touches no slot that a call needs, writes no buffer and submits nothing: slots come and go,
builds go on, plans are added, the session may end, and a call may enter a new stage (`Entered`) with
slots of its own. Every promise outlives it (`Change.proceeds`).
-/

namespace Strata

theorem Pool.Intact.setDevice {ν α : Type} {p : Pool ν α} (hp : p.Intact) {device : Device ν α}
    (hb : device.buffers = p.device.buffers) : Pool.Intact { p with device } := fun i b h x hx => by
  dsimp only at hx
  rw [hb] at hx
  exact hp i b h x hx

theorem Pool.Intact.reshape {ν α : Type} {p : Pool ν α} (hp : p.Intact) {device : Device ν α}
    (hs : ∀ id, device.buffers.shape id = p.device.buffers.shape id) : Pool.Intact { p with device } := by
  intro i b h y hy
  have hshape := hs b.buffer
  unfold Heap.shape at hshape
  dsimp only at hy
  rw [hy] at hshape
  cases hx : p.device.buffers[b.buffer]? with
  | none =>
    rw [hx] at hshape
    cases hshape
  | some x =>
    rw [hx] at hshape
    simp only [Option.map_some, Option.some.injEq, Prod.mk.injEq] at hshape
    rw [hshape.2.2.2]
    exact hp i b h x hx

namespace Engine

variable {α : Type} [Channel α] [Stored α] [Transfer α] {G : Ledger α} {e e' : Engine Int α}

/-- A call is at a stage before or after its submission, with slots of its own. -/
structure Entered (G : Ledger α) (e : Engine Int α) (j : JobId) (c : CompositeCall Int α) : Prop where
  known : ∃ o, G j = some o ∧ c.layers = o.layers ∧ c.outputFormat = o.outputFormat
  waits : ∀ plan token, c.phase ≠ .draining plan token
  live : e.session.phase = .ready → ∀ k ∈ e.claims c, e.pool.arena.contains k = true
  apart : e.session.phase = .ready → ∀ i d, i ≠ j → e.call? i = some d → ∀ k ∈ e.claims c, k ∉ e.claims d
  staged : e.session.phase = .ready → ∀ o, G j = some o → e.Staged o c

structure Change (G : Ledger α) (e e' : Engine Int α) : Prop where
  sound : e'.pool.Sound
  intact : e'.session.phase = .ready → e.pool.Intact → e'.pool.Intact
  heap : e.pool.device.buffers.Extends e'.pool.device.buffers
  later : e.pool.arena.Later e'.pool.arena
  right : e'.cache.Right G.Expects
  ages : e.cache.Ages e'.cache
  tokens : e.session.nextToken ≤ e'.session.nextToken
  consumed : e.session.consumed ⊆ e'.session.consumed
  spent : ∀ plan ∈ e'.session.consumed, plan < e'.plans.size
  watched : e'.completion.ids ⊆ e.completion.ids
  ready : e'.session.phase = .ready → e.session.phase = .ready
  plans : ∀ (i : Nat) rec, e.plans[i]? = some rec → e'.plans[i]? = some rec
  fresh : ∀ (i : Nat) rec, e'.plans[i]? = some rec → e.plans[i]? = some rec ∨ rec.filled = #[]
  size : e.jobs.size ≤ e'.jobs.size
  lone : ∀ (j : Nat) p, e'.jobs[j]? ≠ some (.plan p)
  calls : ∀ j c, e'.call? j = some c →
    (e.call? j = some c ∧ (e'.session.phase = .ready → ∀ k ∈ e.claims c, e'.pool.arena.contains k = true)) ∨
      Entered G e' j c

namespace Change

omit [Transfer α] in
/-- The slots of a call that stands well do not depend on plans added later. -/
theorem claims_eq (h : ∀ (i : Nat) rec, e.plans[i]? = some rec → e'.plans[i]? = some rec) {o : Order α}
    {c : CompositeCall Int α} (hs : e.Staged o c) : e'.claims c = e.claims c := by
  unfold Engine.claims
  cases hp : c.phase.plan? with
  | none => rfl
  | some plan =>
    obtain ⟨rec, -, -, -, hrec, -⟩ := hs.carried plan hp
    have howned : e'.ownedBy plan = e.ownedBy plan := by
      unfold ownedBy
      rw [h plan rec hrec, hrec]
    simp only [Option.toList_some, List.flatMap_singleton, howned]

omit [Channel α] [Stored α] [Transfer α] in
theorem mem_claims {c : CompositeCall Int α} {k : Handle} (h : k ∈ c.held) : k ∈ e.claims c :=
  List.mem_append_left _ h

omit [Channel α] [Stored α] [Transfer α] in
theorem receives {arena arena' : Arena Int} {width height : Int} {destination : Handle} (hl : arena.Later arena')
    (hc : arena'.contains destination = true) (h : Draft.Receives arena width height destination) :
    Draft.Receives arena' width height destination := by
  obtain ⟨r, hr, hf, hs⟩ := h
  exact ⟨r, Arena.resolve_later hl hr hc, hf, hs⟩

omit [Transfer α] in
theorem carried (hp : ∀ (i : Nat) rec, e.plans[i]? = some rec → e'.plans[i]? = some rec) {o : Order α}
    {held : List Handle} {plan : PlanId} (hc : e.Carried o held plan) : e'.Carried o held plan := by
  obtain ⟨rec, destination, parts, last, hrec, hcarries⟩ := hc
  exact ⟨rec, destination, parts, last, hp plan rec hrec, hcarries⟩

omit [Transfer α] in
theorem staged (hl : e.pool.arena.Later e'.pool.arena)
    (hp : ∀ (i : Nat) rec, e.plans[i]? = some rec → e'.plans[i]? = some rec) {o : Order α} {c : CompositeCall Int α}
    (hc : ∀ k ∈ e.claims c, e'.pool.arena.contains k = true) (hs : e.Staged o c) : e'.Staged o c := by
  refine ⟨fun p hphase => ?_, fun plan hplan => carried hp (hs.carried plan hplan)⟩
  have hdrafted := hs.drafted p hphase
  obtain ⟨sources, destination, hheld, hlen, hdraft, hrec⟩ := hdrafted.slots
  have hmem : destination ∈ c.held := by
    rw [hheld]
    exact List.mem_append_right _ (List.mem_singleton_self _)
  exact { hdrafted with
    slots := ⟨sources, destination, hheld, hlen, hdraft, receives hl (hc _ (mem_claims hmem)) hrec⟩ }

omit [Transfer α] in
theorem orderly (hs : e.Safe G) (h : e.Change G e') (hr : e'.session.phase = .ready) : e'.Orderly G := by
  have ho := hs.orderly (h.ready hr)
  have hclaims (j : JobId) (c : CompositeCall Int α) (hc : e.call? j = some c) : e'.claims c = e.claims c := by
    obtain ⟨o, hg, -⟩ := hs.known j c hc
    exact claims_eq h.plans (ho.staged j c o hc hg)
  refine ⟨fun j c hc k hk => ?_, fun i j c d hne hc hd k hk hk' => ?_, fun j c o hc hg => ?_⟩
  · rcases h.calls j c hc with ⟨hc, hlive⟩ | hent
    · rw [hclaims j c hc] at hk
      exact hlive hr k hk
    · exact hent.live hr k hk
  · rcases h.calls i c hc with ⟨hci, -⟩ | hent
    · rcases h.calls j d hd with ⟨hdj, -⟩ | hent
      · rw [hclaims i c hci] at hk
        rw [hclaims j d hdj] at hk'
        exact ho.apart i j c d hne hci hdj k hk hk'
      · exact hent.apart hr i c hne hc k hk' hk
    · exact hent.apart hr j d (Ne.symm hne) hd k hk hk'
  · rcases h.calls j c hc with ⟨hc, hlive⟩ | hent
    · exact staged h.later h.plans (hlive hr) (ho.staged j c o hc hg)
    · exact hent.staged hr o hg

omit [Transfer α] in
theorem old (h : e.Change G e') {token : SubmissionId} (ht : e.Old token) : e'.Old token := by
  obtain ⟨n, hn, rfl⟩ := ht
  exact ⟨n, Nat.lt_of_lt_of_le hn h.tokens, rfl⟩

omit [Transfer α] in
theorem safe (hs : e.Safe G) (h : e.Change G e') : e'.Safe G where
  sound := h.sound
  intact hr := h.intact hr (hs.intact (h.ready hr))
  right := h.right
  lone := h.lone
  known j c hc := by
    rcases h.calls j c hc with ⟨hc, -⟩ | hent
    · exact hs.known j c hc
    · exact hent.known
  asked j o hg := by
    obtain ⟨hlt, hsane⟩ := hs.asked j o hg
    exact ⟨Nat.lt_of_lt_of_le hlt h.size, hsane⟩
  filled i rec hrec := by
    rcases h.fresh i rec hrec with hrec | hempty
    · exact hs.filled i rec hrec
    · rw [hempty]
      exact Nat.zero_le _
  spent := h.spent
  watched id hid := h.old (hs.watched id (h.watched hid))
  drains j c o plan token hc hg hp := by
    rcases h.calls j c hc with ⟨hc, -⟩ | hent
    · obtain ⟨hold, hcons, hfit, rec, hrec, hlen⟩ := hs.drains j c o plan token hc hg hp
      exact ⟨h.old hold, h.consumed hcons, hfit, rec, h.plans plan rec hrec, hlen⟩
    · exact absurd hp (hent.waits plan token)
  orderly hr := orderly hs h hr

theorem filled (h : e.Change G e') {o : Order α} {plan : PlanId} (hf : e.Filled o plan) : e'.Filled o plan := by
  obtain ⟨rec, hrec, ho⟩ := hf
  exact ⟨rec, h.plans plan rec hrec, ho⟩

theorem keeps (hs : e.Safe G) (h : e.Change G e') (n : Note α) (hn : e.Holds G n) : e'.Holds G n := by
  cases n with
  | arrives job index p => exact hn
  | gathered job ps => exact fun hr => hn (h.ready hr)
  | yields job r => exact hn
  | builds serial key => exact Cache.Builds.later hn h.ages
  | built serial a => exact Cache.Built.later hn h.ages
  | promises token ds =>
    have hn : e.Promises G token ds := hn
    refine ⟨?_, fun j c o plan hc hg hp => ?_, fun d hd => ?_⟩
    · exact h.old hn.old
    · rcases h.calls j c hc with ⟨hc, -⟩ | hent
      · exact (hn.covers j c o plan hc hg hp).imp_left h.filled
      · exact absurd hp (hent.waits plan token)
    · intro plan hplan
      obtain ⟨hcons, hshown⟩ := hn.shows d hd plan hplan
      refine ⟨h.consumed hcons, fun j c o token' hc hg hp => ?_⟩
      rcases h.calls j c hc with ⟨hc, hlive⟩ | hent
      · obtain ⟨hbytes, hbuffer, himage, hslot⟩ := hshown j c o token' hc hg hp
        refine ⟨hbytes, Nat.lt_of_lt_of_le hbuffer h.heap.1, ?_, fun hr => ?_⟩
        · rw [h.heap.2 _ hbuffer]
          exact himage
        · obtain ⟨k, hk, hb⟩ := hslot (h.ready hr)
          have hmem := mem_claims (e := e) (List.mem_of_getLast? hk)
          obtain ⟨r, hres⟩ := hs.sound.resolve_of_contains ((hs.orderly (h.ready hr)).live j c hc k hmem)
          refine ⟨k, hk, ?_⟩
          rw [Arena.bufferOf_eq (Arena.resolve_later h.later hres (hlive hr k hmem)), ← hb, Arena.bufferOf_eq hres]
      · exact absurd hp (hent.waits plan token')

theorem proceeds (hs : e.Safe G) (h : e.Change G e') (hn : ∀ n ∈ e'.notes, n ∈ e.notes ∨ e'.Holds G n) :
    e.Proceeds G e' :=
  ⟨safe hs h, h.ready, keeps hs h, hn⟩

end Change

/-! ## Changes of single parts -/

omit [Channel α] [Stored α] [Transfer α] in
theorem mem_notes {n : Note α} : n ∈ e.notes ↔ (∃ t ∈ e.turns, n ∈ t.2.notes) ∨ (∃ s ∈ e.heldBack, n ∈ s.notes) ∨
    (∃ g ∈ e.gated, n = .builds g.2.1 g.2.2) ∨ (∃ x ∈ e.completion.outcomes, n ∈ Outcome.notes x.1 x.2) ∨
      ∃ x ∈ e.settled, n ∈ answerNotes x := by
  unfold notes
  simp only [List.mem_append, List.mem_flatMap, List.mem_map, or_assoc, eq_comm (a := n)]

omit [Transfer α] in
/-- The state of the device, of the pool and of the pipelines changes, and no buffer is written. -/
theorem Change.parts (hs : e.Safe G) (pool : Pool Int α) (cache : Cache PipelineWaiter) (hp : pool.Sound)
    (hh : e.pool.device.buffers.Extends pool.device.buffers) (hl : e.pool.arena.Later pool.arena)
    (hc : e'.session.phase = .ready → (e.pool.Intact → pool.Intact) ∧
      ∀ k, e.pool.arena.contains k = true → pool.arena.contains k = true)
    (hr : cache.Right G.Expects) (ha : e.cache.Ages cache) (hpool : e'.pool = pool) (hcache : e'.cache = cache)
    (hplans : e'.plans = e.plans) (hjobs : e'.jobs = e.jobs) (htokens : e.session.nextToken ≤ e'.session.nextToken)
    (hconsumed : e'.session.consumed = e.session.consumed ∨
      ∃ plan < e.plans.size, e'.session.consumed = plan :: e.session.consumed)
    (hphase : e'.session.phase = .ready → e.session.phase = .ready)
    (hids : e'.completion.ids ⊆ e.completion.ids) : e.Change G e' where
  sound := by rw [hpool]; exact hp
  intact hr := by rw [hpool]; exact (hc hr).1
  heap := by rw [hpool]; exact hh
  later := by rw [hpool]; exact hl
  right := by rw [hcache]; exact hr
  ages := by rw [hcache]; exact ha
  tokens := htokens
  consumed := by
    rcases hconsumed with h | ⟨plan, -, h⟩
    · rw [h]
      exact List.Subset.refl _
    · rw [h]
      exact List.subset_cons_self _ _
  spent := by
    rw [hplans]
    rcases hconsumed with h | ⟨plan, hlt, h⟩
    · rw [h]
      exact hs.spent
    · rw [h]
      exact List.forall_mem_cons.mpr ⟨hlt, hs.spent⟩
  watched := hids
  ready := hphase
  plans i rec h := by rw [hplans]; exact h
  fresh i rec h := by rw [hplans] at h; exact .inl h
  size := by rw [hjobs]
  lone := by rw [hjobs]; exact hs.lone
  calls j c h := by
    have hcall : e'.call? j = e.call? j := by
      unfold call?
      rw [hjobs]
    rw [hcall] at h
    refine .inl ⟨h, fun hr k hk => ?_⟩
    rw [hpool]
    exact (hc hr).2 k ((hs.orderly (hphase hr)).live j c h k hk)

/-- Nothing changes that a promise speaks of, but for watches that end. -/
theorem Proceeds.same_of_ids (hs : e.Safe G) (hpool : e'.pool = e.pool) (hcache : e'.cache = e.cache)
    (hplans : e'.plans = e.plans) (hjobs : e'.jobs = e.jobs) (htokens : e'.session.nextToken = e.session.nextToken)
    (hconsumed : e'.session.consumed = e.session.consumed) (hphase : e'.session.phase = e.session.phase)
    (hids : e'.completion.ids ⊆ e.completion.ids) (hn : ∀ n ∈ e'.notes, n ∈ e.notes ∨ e.Holds G n) :
    e.Proceeds G e' := by
  have hchange : e.Change G e' := .parts hs e.pool e.cache hs.sound (.refl _) (.refl _)
    (fun _ => ⟨id, fun _ h => h⟩)
    hs.right (.refl _) hpool hcache hplans hjobs (Nat.le_of_eq htokens.symm) (.inl hconsumed)
      (fun hr => hphase ▸ hr) hids
  exact hchange.proceeds hs fun n h => (hn n h).imp_right (hchange.keeps hs n)

/-- Nothing changes that a promise speaks of. -/
theorem Proceeds.same (hs : e.Safe G) (hpool : e'.pool = e.pool) (hcache : e'.cache = e.cache)
    (hplans : e'.plans = e.plans) (hjobs : e'.jobs = e.jobs) (htokens : e'.session.nextToken = e.session.nextToken)
    (hconsumed : e'.session.consumed = e.session.consumed) (hphase : e'.session.phase = e.session.phase)
    (hids : e'.completion.ids = e.completion.ids) (hn : ∀ n ∈ e'.notes, n ∈ e.notes ∨ e.Holds G n) :
    e.Proceeds G e' :=
  .same_of_ids hs hpool hcache hplans hjobs htokens hconsumed hphase (hids ▸ List.Subset.refl _) hn

theorem schedule_proceeds (hs : e.Safe G) (delay : Nat) {t : Turn Int α} (ht : ∀ n ∈ t.notes, e.Holds G n) :
    e.Proceeds G (e.schedule delay t) := by
  refine .same hs rfl rfl rfl rfl rfl rfl rfl rfl fun n hn => ?_
  unfold schedule notes at hn
  unfold notes
  simp only [List.flatMap_append, List.flatMap_singleton, List.mem_append] at hn ⊢
  rcases hn with (((hn | hn) | hn) | hn) | hn
  · rcases hn with hn | hn
    · exact .inl (.inl (.inl (.inl (.inl hn))))
    · exact .inr (ht n hn)
  · exact .inl (.inl (.inl (.inl (.inr hn))))
  · exact .inl (.inl (.inl (.inr hn)))
  · exact .inl (.inl (.inr hn))
  · exact .inl (.inr hn)

theorem settle_proceeds (hs : e.Safe G) (job : JobId) {result : Except Failure (JobValue Int α)}
    (hr : ∀ n ∈ answerNotes (job, result), e.Holds G n) : e.Proceeds G (e.settle job result) := by
  refine .same hs rfl rfl rfl rfl rfl rfl rfl rfl fun n hn => ?_
  unfold settle notes at hn
  unfold notes
  simp only [List.flatMap_append, List.flatMap_singleton, List.mem_append] at hn ⊢
  rcases hn with hn | hn | hn
  · exact .inl (.inl hn)
  · exact .inl (.inr hn)
  · exact .inr (hr n hn)

theorem report_proceeds (hs : e.Safe G) (entry : LogEntry) : e.Proceeds G (e.report entry) :=
  .same hs rfl rfl rfl rfl rfl rfl rfl rfl fun _ hn => .inl hn

theorem setDevice_proceeds (hs : e.Safe G) {device : Device Int α} (hb : device.buffers = e.pool.device.buffers) :
    e.Proceeds G (e.setDevice device) := by
  have hchange : e.Change G (e.setDevice device) := .parts hs { e.pool with device } e.cache (hs.sound.setDevice hb)
    (by rw [hb]; exact .refl _) (.refl _) (fun _ => ⟨fun h => h.setDevice hb, fun _ h => h⟩) hs.right
      (.refl _) rfl rfl rfl
    rfl (Nat.le_refl _) (.inl rfl) id (List.Subset.refl _)
  exact hchange.proceeds hs fun n hn => .inl hn

omit [Transfer α] in
/-- An operation of the pool that keeps every live slot. -/
theorem setPool_change (hs : e.Safe G) {pool : Pool Int α} (hl : e.pool.Leads pool)
    (hc : ∀ k, e.pool.arena.contains k = true → pool.arena.contains k = true) : e.Change G { e with pool } :=
  .parts hs pool e.cache hl.sound hl.blocks hl.later (fun _ => ⟨hl.intact, hc⟩) hs.right (.refl _) rfl rfl rfl rfl
    (Nat.le_refl _) (.inl rfl) id (List.Subset.refl _)

theorem setPool_proceeds (hs : e.Safe G) {pool : Pool Int α} (hl : e.pool.Leads pool)
    (hc : ∀ k, e.pool.arena.contains k = true → pool.arena.contains k = true) : e.Proceeds G { e with pool } :=
  (setPool_change hs hl hc).proceeds hs fun _ hn => .inl hn

theorem addJob_proceeds (hs : e.Safe G) {job : Job Int α} (hp : ∀ p, job ≠ .plan p) (hc : ∀ c, job ≠ .composite c) :
    e.Proceeds G (e.addJob job).2 := by
  have hjobs (j : JobId) : (e.jobs.push job)[j]? = if j = e.jobs.size then some job else e.jobs[j]? :=
    Array.getElem?_push
  have hcall (j : JobId) : (e.addJob job).2.call? j = e.call? j := by
    unfold addJob call?
    dsimp only
    rw [hjobs]
    by_cases hj : j = e.jobs.size
    · rw [if_pos hj, hj, Array.getElem?_eq_none (Nat.le_refl _)]
      cases job with
      | composite c => exact absurd rfl (hc c)
      | lookup | plan p | wait => rfl
    · rw [if_neg hj]
  have hchange : e.Change G (e.addJob job).2 :=
    { sound := hs.sound
      intact := fun _ => id
      heap := .refl _
      later := .refl _
      right := hs.right
      ages := .refl _
      tokens := Nat.le_refl _
      consumed := List.Subset.refl _
      watched := List.Subset.refl _
      spent := hs.spent
      ready := id
      plans := fun _ _ h => h
      fresh := fun _ _ h => .inl h
      size := by
        show _ ≤ (e.jobs.push job).size
        rw [Array.size_push]
        exact Nat.le_succ _
      lone := fun j p h => by
        unfold addJob at h
        dsimp only at h
        rw [hjobs] at h
        split at h
        · exact hp p (Option.some.inj h)
        · exact hs.lone j p h
      calls := fun j c h => by
        rw [hcall] at h
        exact .inl ⟨h, fun hr => (hs.orderly hr).live j c h⟩ }
  exact hchange.proceeds hs fun n hn => .inl hn

theorem addPlan_proceeds (hs : e.Safe G) (plan : Plan Int α) : e.Proceeds G (e.addPlan plan).2 := by
  have hplans (i : Nat) : (e.addPlan plan).2.plans[i]? = if i = e.plans.size then some ⟨plan, #[]⟩ else
      e.plans[i]? :=
    Array.getElem?_push
  have hchange : e.Change G (e.addPlan plan).2 :=
    { sound := hs.sound
      intact := fun _ => id
      heap := .refl _
      later := .refl _
      right := hs.right
      ages := .refl _
      tokens := Nat.le_refl _
      consumed := List.Subset.refl _
      watched := List.Subset.refl _
      spent := fun p h => by
        show p < (e.plans.push _).size
        rw [Array.size_push]
        exact Nat.lt_succ_of_lt (hs.spent p h)
      ready := id
      plans := fun i rec h => by
        rw [hplans, if_neg fun hi => ?_]
        · exact h
        · rw [hi, Array.getElem?_eq_none (Nat.le_refl _)] at h
          cases h
      fresh := fun i rec h => by
        rw [hplans] at h
        split at h
        · cases h
          exact .inr rfl
        · exact .inl h
      size := Nat.le_refl _
      lone := hs.lone
      calls := fun j c h => .inl ⟨h, fun hr => (hs.orderly hr).live j c h⟩ }
  exact hchange.proceeds hs fun n hn => .inl hn

omit [Transfer α] in
theorem setCall_change (hs : e.Safe G) {pool : Pool Int α} (hl : e.pool.Leads pool) {j : JobId}
    {c : CompositeCall Int α}
    (hc : e.session.phase = .ready → ∀ i d, i ≠ j → e.call? i = some d → ∀ k ∈ e.claims d,
      pool.arena.contains k = true)
    (hent : Entered G ({ e with pool }.setCall j c) j c) : e.Change G ({ e with pool }.setCall j c) where
  sound := hl.sound
  intact _ := hl.intact
  heap := hl.blocks
  later := hl.later
  right := hs.right
  ages := .refl _
  tokens := Nat.le_refl _
  consumed := List.Subset.refl _
  watched := List.Subset.refl _
  spent := hs.spent
  ready := id
  plans _ _ h := h
  fresh _ _ h := .inl h
  size := by
    show _ ≤ (e.jobs.setIfInBounds j _).size
    rw [Array.size_setIfInBounds]
  lone i p h := by
    unfold setCall setJob at h
    dsimp only at h
    rw [Array.getElem?_setIfInBounds] at h
    split at h
    · split at h
      · cases h
      · cases h
    · exact hs.lone i p h
  calls i d h := by
    have hcall := call?_setCall { e with pool } j c i
    rw [hcall] at h
    by_cases hij : i = j ∧ j < e.jobs.size
    · rw [if_pos hij] at h
      obtain rfl := Option.some.inj h
      rw [hij.1]
      exact .inr hent
    · rw [if_neg hij] at h
      by_cases he : i = j
      · refine absurd h ?_
        show e.call? i ≠ some d
        unfold call?
        rw [he, Array.getElem?_eq_none (Nat.not_lt.mp fun hlt => hij ⟨he, hlt⟩)]
        exact nofun
      · exact .inl ⟨h, fun hr => hc hr i d he h⟩

end Engine

end Strata
