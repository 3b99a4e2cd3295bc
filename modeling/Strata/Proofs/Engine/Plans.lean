import Strata.Proofs.Color.Bits
import Strata.Proofs.Engine.Bystanders
import Strata.Proofs.Engine.Able
import Strata.Proofs.Plan.Folding

/-!
# Calls for plans

What a call for a plan was checked with is entered in a ledger (`Drafts`), and everything that is under way fits
the ledger (`Prepares`): requests ask for the keys of the drafts, pipelines arrive where they belong, and a plan is
made only once all of them are there. So a plan that a call answers is one that its draft was emitted as, over an
arena that came after the one it was checked against (`run_planned`).
-/

namespace Strata

variable {ν α : Type}

/-- Drafts of calls for plans, each with the arena that it was checked against. -/
abbrev Drafts (ν α : Type) := JobId → Option (Draft ν α × Arena ν)

def Drafts.enter (D : Drafts ν α) (j : JobId) (d : Draft ν α × Arena ν) : Drafts ν α := Function.update D j (some d)

namespace Draft

def Suits (draft : Draft ν α) (i : Nat) (p : Pipeline) : Prop :=
  ∃ step, draft.steps[i]? = some step ∧ Cache.Serves step.key.text p

structure Supplied (draft : Draft ν α) (pipelines : List Pipeline) : Prop where
  length : pipelines.length = draft.steps.length
  suits : ∀ (i : Nat) p, pipelines[i]? = some p → draft.Suits i p

/-- Made of a draft, over an arena after the one that the draft was checked against. -/
def Made [Measure ν] [Channel α] [Stored α] (draft : Draft ν α) (checked : Arena ν) (plan : Plan ν α) : Prop :=
  ∃ (pipelines : List Pipeline) (pool pool' : Pool ν α), draft.Supplied pipelines ∧ pool.Sound ∧
    checked.Later pool.arena ∧ draft.emit pipelines pool = (.ok plan, pool')

end Draft

/-- A planning that waits for the pipelines of a draft. -/
structure Planning.Gathers (p : Planning ν α) (draft : Draft ν α) : Prop where
  of : p.draft = draft
  places : p.arrived.length = draft.steps.length
  arrived : ∀ (i : Nat) q, p.arrived[i]? = some (some q) → draft.Suits i q

namespace Planning.Gathers

variable {p : Planning ν α} {draft : Draft ν α}

theorem start (draft : Draft ν α) : Gathers ⟨draft, draft.steps.map fun _ => none, false⟩ draft := by
  refine ⟨rfl, List.length_map _, fun i q h => ?_⟩
  rw [List.getElem?_map] at h
  cases hs : draft.steps[i]? with
  | none =>
    rw [hs] at h
    cases h
  | some step =>
    rw [hs] at h
    cases h

theorem arrive (h : p.Gathers draft) {i : Nat} {q : Pipeline} (hq : draft.Suits i q) (ended : Bool) :
    Gathers { p with arrived := p.arrived.set i (some q), ended } draft := by
  refine ⟨h.of, (List.length_set ..).trans h.places, fun k r hr => ?_⟩
  dsimp only at hr
  rw [List.getElem?_set] at hr
  split at hr
  · rename_i hik
    split at hr
    · cases hr
      exact hik ▸ hq
    · cases hr
  · exact h.arrived k r hr

theorem supplied (h : p.Gathers draft) (ha : p.arrived.all Option.isSome = true) :
    draft.Supplied (p.arrived.filterMap id) := by
  have harrived := Engine.exists_of_all_isSome ha
  generalize p.arrived.filterMap id = ps at harrived
  refine ⟨?_, fun i q hq => h.arrived i q ?_⟩
  · rw [← h.places, harrived, List.length_map]
  · rw [harrived, List.getElem?_map, hq]
    rfl

end Planning.Gathers

namespace Cache

variable {W : Type} {c : Cache W}

/-- Only who waits for a build is answered when it ends. -/
theorem waiter_of_answered {serial : Nat} {result : Except Failure Artifact} {x : W × Except Failure Pipeline}
    (h : x ∈ (c.finish serial result).1.answers) : ∃ b ∈ c.inFlight, x.1 ∈ b.waiters := by
  unfold finish at h
  split at h
  · exact absurd h List.not_mem_nil
  · rename_i b hb
    have hmem := List.mem_of_find?_eq_some hb
    dsimp only at h
    split at h
    · exact absurd h List.not_mem_nil
    · split at h
      all_goals
        obtain ⟨w, hw, rfl⟩ := List.mem_map.mp h
        exact ⟨b, hmem, hw⟩

theorem waiter_of_refused {closing : Closing} {w : W} (h : w ∈ (c.close closing).1) :
    ∃ b ∈ c.inFlight, w ∈ b.waiters := by
  obtain ⟨serial, -, h⟩ := List.mem_flatMap.mp h
  obtain ⟨b, hb, h⟩ := List.mem_flatMap.mp h
  exact ⟨b, (List.mem_filter.mp hb).1, h⟩

end Cache

/-! ## What is under way -/

/-- What a request for a pipeline is to be for, if `n` calls have begun. -/
def Drafts.Expects (D : Drafts ν α) (n : Nat) : String → PipelineWaiter → Prop
  | _, .lookup j => j < n
  | text, .step j i => j < n ∧ ∀ d, D j = some d → ∃ step, d.1.steps[i]? = some step ∧ step.key.text = text

/-- A turn about a build or a plan carries what the ledger says. -/
def Turn.Fits (D : Drafts ν α) (n : Nat) (c : Cache PipelineWaiter) : Turn ν α → Prop
  | buildUngated serial key => c.Builds serial key
  | buildEnded serial result => ∀ a, result = .ok a → c.Built serial a
  | pipelineArrived j i result => j < n ∧ ∀ d q, D j = some d → result = .ok q → d.1.Suits i q
  | planReady j result => j < n ∧ ∀ d qs, D j = some d → result = .ok qs → d.1.Supplied qs
  | _ => True

variable {D D' : Drafts ν α} {n n' : Nat}

theorem Drafts.Expects.mono (hn : n ≤ n') {text : String} {w : PipelineWaiter} (h : D.Expects n text w) :
    D.Expects n' text w := by
  cases w with
  | lookup j => exact Nat.lt_of_lt_of_le h hn
  | step j i => exact ⟨Nat.lt_of_lt_of_le h.1 hn, h.2⟩

theorem Turn.Fits.mono (hn : n ≤ n') {c c' : Cache PipelineWaiter} (ha : c.Ages c') {t : Turn ν α}
    (h : t.Fits D n c) : t.Fits D n' c' := by
  cases t with
  | buildUngated serial key => exact Cache.Builds.later h ha
  | buildEnded serial result => exact fun a he => (h a he).later ha
  | pipelineArrived j i result => exact ⟨Nat.lt_of_lt_of_le h.1 hn, h.2⟩
  | planReady j result => exact ⟨Nat.lt_of_lt_of_le h.1 hn, h.2⟩
  | planned | scopesClosed | workDone | mapped | rejected | finished | reported | lossSeen | collected | drained
  | resumed | attemptEnded => exact trivial

theorem Turn.Fits.of_delivers {t : Turn ν α} (h : t.delivers = true) {c : Cache PipelineWaiter} : t.Fits D n c := by
  cases t with
  | buildUngated | buildEnded | pipelineArrived | planReady => cases h
  | planned | scopesClosed | workDone | mapped | rejected | finished | reported | lossSeen | collected | drained
  | resumed | attemptEnded => exact trivial

theorem Drafts.Expects.enter {text : String} {w : PipelineWaiter} (h : D.Expects n text w)
    (d : Draft ν α × Arena ν) : (D.enter n d).Expects n text w := by
  cases w with
  | lookup j => exact h
  | step j i => exact ⟨h.1, fun d' hd' => h.2 d' (by
    rwa [Drafts.enter, Function.update_of_ne (Nat.ne_of_lt h.1)] at hd')⟩

theorem Turn.Fits.enter {c : Cache PipelineWaiter} {t : Turn ν α} (h : t.Fits D n c) (d : Draft ν α × Arena ν) :
    t.Fits (D.enter n d) n c := by
  cases t with
  | buildUngated | buildEnded => exact h
  | pipelineArrived j i result =>
    exact ⟨h.1, fun d' q hd' => h.2 d' q (by rwa [Drafts.enter, Function.update_of_ne (Nat.ne_of_lt h.1)] at hd')⟩
  | planReady j result =>
    exact ⟨h.1, fun d' q hd' => h.2 d' q (by rwa [Drafts.enter, Function.update_of_ne (Nat.ne_of_lt h.1)] at hd')⟩
  | planned | scopesClosed | workDone | mapped | rejected | finished | reported | lossSeen | collected | drained
  | resumed | attemptEnded => exact trivial

namespace Engine

variable [Measure ν] [Channel α] [Stored α]

/-- A settled call for a plan has what its draft says. -/
def Honest (D : Drafts ν α) (e : Engine ν α) (x : JobId × Except Failure (JobValue ν α)) : Prop :=
  x.1 < e.jobs.size ∧ ∀ id, x.2 = .ok (.plan id) → ∃ d rec, D x.1 = some d ∧ e.plans[id]? = some rec ∧
    d.1.Made d.2 rec.plan

/-- A call stands to its entry as it should. -/
def Stands (D : Drafts ν α) (j : JobId) : Job ν α → Prop
  | .plan p => ∃ d, D j = some d ∧ p.Gathers d.1
  | .composite _ => D j = none
  | _ => True

structure Prepares (D : Drafts ν α) (e : Engine ν α) : Prop where
  asked : ∀ j d, D j = some d → j < e.jobs.size
  cache : e.cache.Right (D.Expects e.jobs.size)
  gated : ∀ g ∈ e.gated, e.cache.Builds g.2.1 g.2.2
  turns : ∀ t ∈ e.turns, t.2.Fits D e.jobs.size e.cache
  settled : ∀ x ∈ e.settled, Honest D e x
  jobs : ∀ (j : JobId) job, e.jobs[j]? = some job → Stands D j job

variable {e e' : Engine ν α}

theorem Honest.later {x : JobId × Except Failure (JobValue ν α)} (h : Honest D e x)
    (hn : e.jobs.size ≤ e'.jobs.size)
    (hp : ∀ (id : PlanId) rec, e.plans[id]? = some rec → ∃ rec', e'.plans[id]? = some rec' ∧ rec'.plan = rec.plan) :
    Honest D e' x := by
  refine ⟨Nat.lt_of_lt_of_le h.1 hn, fun id he => ?_⟩
  obtain ⟨d, rec, hd, hrec, hmade⟩ := h.2 id he
  obtain ⟨rec', hrec', heq⟩ := hp id rec hrec
  exact ⟨d, rec', hd, hrec', heq ▸ hmade⟩

namespace Prepares

theorem onward (h : e.Prepares D) (hn : e.jobs.size ≤ e'.jobs.size)
    (hcache : e'.cache.Right (D.Expects e'.jobs.size)) (hages : e.cache.Ages e'.cache)
    (hgated : ∀ g ∈ e'.gated, g ∈ e.gated ∨ e'.cache.Builds g.2.1 g.2.2)
    (hturns : ∀ t ∈ e'.turns, t ∈ e.turns ∨ t.2.Fits D e'.jobs.size e'.cache)
    (hplans : ∀ (id : PlanId) rec, e.plans[id]? = some rec → ∃ rec', e'.plans[id]? = some rec' ∧
      rec'.plan = rec.plan)
    (hsettled : ∀ x ∈ e'.settled, x ∈ e.settled ∨ Honest D e' x)
    (hjobs : ∀ (j : JobId) job, e'.jobs[j]? = some job → e.jobs[j]? = some job ∨ Stands D j job) :
    e'.Prepares D where
  asked j d hd := Nat.lt_of_lt_of_le (h.asked j d hd) hn
  cache := hcache
  gated g hg := (hgated g hg).elim (fun hg => (h.gated g hg).later hages) id
  turns t ht := (hturns t ht).elim (fun ht => (h.turns t ht).mono hn hages) id
  settled x hx := (hsettled x hx).elim (fun hx => (h.settled x hx).later hn hplans) id
  jobs j job hj := (hjobs j job hj).elim (h.jobs j job) id

theorem schedule (h : e.Prepares D) (delay : Nat) {t : Turn ν α} (ht : t.Fits D e.jobs.size e.cache) :
    (e.schedule delay t).Prepares D :=
  { h with
    turns := fun x hx => (List.mem_append.mp hx).elim (h.turns x) fun hx => by
      rw [List.mem_singleton.mp hx]
      exact ht }

theorem settle (h : e.Prepares D) {j : JobId} {result : Except Failure (JobValue ν α)}
    (hr : Honest D e (j, result)) : (e.settle j result).Prepares D :=
  { h with
    settled := fun x hx => (List.mem_append.mp hx).elim (h.settled x) fun hx => by
      rw [List.mem_singleton.mp hx]
      exact hr }

theorem takeTurns (h : e.Prepares D) {turns : List (Nat × Turn ν α)} (ht : turns ⊆ e.turns) :
    ({ e with turns } : Engine ν α).Prepares D :=
  { h with turns := fun t hm => h.turns t (ht hm) }

theorem of_eq (h : e.Prepares D) (hcache : e'.cache = e.cache) (hgated : e'.gated = e.gated)
    (hjobs : e'.jobs = e.jobs) (hplans : e'.plans = e.plans) (hturns : e'.turns = e.turns)
    (hsettled : e'.settled = e.settled) : e'.Prepares D := by
  refine h.onward (hjobs ▸ Nat.le_refl _) (by rw [hcache, hjobs]; exact h.cache) (hcache ▸ .refl _)
    (fun g hg => .inl (hgated ▸ hg)) (fun t ht => .inl (hturns ▸ ht)) (fun id rec hrec => ⟨rec, hplans ▸ hrec, rfl⟩)
    (fun x hx => .inl (hsettled ▸ hx)) fun j job hj => .inl (hjobs ▸ hj)

theorem report (h : e.Prepares D) (entry : LogEntry) : (e.report entry).Prepares D :=
  h.of_eq rfl rfl rfl rfl rfl rfl

theorem setPool (h : e.Prepares D) (pool : Pool ν α) : ({ e with pool } : Engine ν α).Prepares D :=
  h.of_eq rfl rfl rfl rfl rfl rfl

theorem setCache (h : e.Prepares D) {cache : Cache PipelineWaiter} (device : Device ν α)
    (hr : cache.Right (D.Expects e.jobs.size)) (ha : e.cache.Ages cache) :
    ({ e with cache, pool := { e.pool with device } } : Engine ν α).Prepares D :=
  h.onward (Nat.le_refl _) hr ha (fun _ hg => .inl hg) (fun _ ht => .inl ht) (fun _ rec hrec => ⟨rec, hrec, rfl⟩)
    (fun _ hx => .inl hx) fun _ _ hj => .inl hj

theorem bystands (h : e.Prepares D) (hb : e.Bystands e') : e'.Prepares D := by
  obtain ⟨more, hturns, hdelivers⟩ := hb.turns
  obtain ⟨ended, hsettled, hwait⟩ := hb.settled
  obtain ⟨begun, hjobs, hwaits⟩ := hb.jobs
  refine h.onward hb.size (hb.cache ▸ h.cache.mono fun _ _ => .mono hb.size) (hb.cache ▸ .refl _)
    (fun g hg => .inl (hb.gated ▸ hg)) (fun t ht => ?_) hb.plans (fun x hx => ?_) fun j job hj => ?_
  · rw [hturns] at ht
    exact (List.mem_append.mp ht).imp_right fun ht => .of_delivers (hdelivers t ht)
  · rw [hsettled] at hx
    refine (List.mem_append.mp hx).imp_right fun hx => ?_
    obtain ⟨hj, hnothing⟩ := hwait x hx
    exact ⟨(Array.getElem?_eq_some_iff.mp hj).1, fun id he => absurd (hnothing _ he) nofun⟩
  · rw [hjobs, Array.getElem?_append] at hj
    split at hj
    · exact .inl hj
    · have hw := hwaits job (Array.mem_of_getElem? hj)
      cases job with
      | wait => exact .inr trivial
      | lookup | plan | composite => cases hw

theorem unasked (h : e.Prepares D) {j : JobId} (hj : e.jobs.size ≤ j) : D j = none := by
  cases hd : D j with
  | none => rfl
  | some d => exact absurd (h.asked j d hd) (Nat.not_lt.mpr hj)

theorem addJob (h : e.Prepares D) (job : Job ν α) (hj : Stands D e.jobs.size job) :
    (e.addJob job).2.Prepares D := by
  have hsize : (e.jobs.push job).size = e.jobs.size + 1 := Array.size_push ..
  refine h.onward (hsize ▸ Nat.le_succ _) (h.cache.mono fun _ _ => .mono (hsize ▸ Nat.le_succ _)) (.refl _)
    (fun _ hg => .inl hg) (fun _ ht => .inl ht) (fun _ rec hrec => ⟨rec, hrec, rfl⟩)
      (fun _ hx => .inl hx) fun j job' hj' => ?_
  have hj' : (e.jobs.push job)[j]? = some job' := hj'
  rw [Array.getElem?_push] at hj'
  split at hj'
  · rename_i he
    cases hj'
    exact .inr (he ▸ hj)
  · exact .inl hj'

theorem setJob (h : e.Prepares D) {j : JobId} (job : Job ν α) (hj : Stands D j job) :
    (e.setJob j job).Prepares D := by
  have hsize : (e.jobs.setIfInBounds j job).size = e.jobs.size := Array.size_setIfInBounds ..
  refine h.onward (Nat.le_of_eq hsize.symm) (h.cache.mono fun _ _ => .mono (Nat.le_of_eq hsize.symm)) (.refl _)
    (fun _ hg => .inl hg) (fun _ ht => .inl ht) (fun _ rec hrec => ⟨rec, hrec, rfl⟩)
      (fun _ hx => .inl hx) fun k job' hk => ?_
  have hk : (e.jobs.setIfInBounds j job)[k]? = some job' := hk
  by_cases hjk : j = k
  · subst hjk
    rw [Array.getElem?_setIfInBounds_self] at hk
    split at hk
    · cases hk
      exact .inr hj
    · cases hk
  · rw [Array.getElem?_setIfInBounds_ne hjk] at hk
    exact .inl hk

theorem enter (h : e.Prepares D) (d : Draft ν α × Arena ν) :
    (e.addJob .lookup).2.Prepares (D.enter e.jobs.size d) := by
  have hnew := h.addJob .lookup trivial
  have hother {j : JobId} (hj : j ≠ e.jobs.size) : D.enter e.jobs.size d j = D j := Function.update_of_ne hj _ _
  refine ⟨fun j d' hd' => ?_, ?_, hnew.gated, fun t ht => ((h.turns t ht).enter d).mono (Nat.le_of_lt ?_) (.refl _),
    fun x hx => ?_, fun j job hj => ?_⟩
  · by_cases hj : j = e.jobs.size
    · rw [hj]
      exact Array.size_push .. ▸ Nat.lt_succ_self _
    · exact hnew.asked j d' (hother hj ▸ hd')
  · exact h.cache.mono fun _ _ hw => (hw.enter d).mono (Array.size_push .. ▸ Nat.le_succ _)
  · exact Array.size_push .. ▸ Nat.lt_succ_self _
  · obtain ⟨hlt, hmade⟩ := h.settled x hx
    refine ⟨Array.size_push .. ▸ Nat.lt_succ_of_lt hlt, fun id he => ?_⟩
    obtain ⟨d', rec, hd', hrest⟩ := hmade id he
    exact ⟨d', rec, (hother (Nat.ne_of_lt hlt)).trans hd', hrest⟩
  · have hstands := hnew.jobs j job hj
    by_cases he : j = e.jobs.size
    · subst he
      have hj : (e.jobs.push .lookup)[e.jobs.size]? = some job := hj
      rw [Array.getElem?_push_size] at hj
      cases hj
      trivial
    · cases job with
      | plan p =>
        obtain ⟨d', hd', hp⟩ := hstands
        exact ⟨d', (hother he).trans hd', hp⟩
      | composite c => exact (hother he).trans hstands
      | lookup | wait => trivial

/-! ## Pipelines -/

theorem answer (h : e.Prepares D) {w : PipelineWaiter} {text : String} {result : Except Failure Pipeline}
    (hw : D.Expects e.jobs.size text w) (hr : ∀ p, result = .ok p → Cache.Serves text p) :
    (e.answer w result).Prepares D := by
  cases w with
  | lookup j => exact h.settle ⟨hw, fun id he => by cases result <;> cases he⟩
  | step j i =>
    refine h.schedule 1 ⟨hw.1, fun d q hd hq => ?_⟩
    obtain ⟨step, hstep, ht⟩ := hw.2 d hd
    exact ⟨step, hstep, ht ▸ hr q hq⟩

theorem answerAll (h : e.Prepares D) {answers : List (PipelineWaiter × Except Failure Pipeline)}
    (ha : ∀ x ∈ answers, ∃ text, D.Expects e.jobs.size text x.1 ∧ ∀ p, x.2 = .ok p → Cache.Serves text p) :
    (e.answerAll answers).Prepares D := by
  unfold Engine.answerAll
  induction answers generalizing e with
  | nil => exact h
  | cons x rest ih =>
    obtain ⟨text, hw, hr⟩ := ha x (List.mem_cons_self ..)
    have hjobs : (e.answer x.1 x.2).jobs = e.jobs := by
      unfold Engine.answer
      split <;> rfl
    exact ih (h.answer hw hr) fun y hy => hjobs.symm ▸ ha y (List.mem_cons_of_mem _ hy)

theorem startBuild (h : e.Prepares D) {serial : Nat} {key : PipelineKey} (hb : e.cache.Builds serial key) :
    (e.startBuild serial key).Prepares D := by
  have hc := e.cache.compile_compiles e.pool.device key
  unfold Engine.startBuild
  generalize e.cache.compile e.pool.device key = r at hc
  obtain ⟨compilation, cache, device⟩ := r
  obtain ⟨hr, ha⟩ := h.cache.compiles hc
  have hset := h.setCache device hr ha
  have hbuilds := hb.later ha
  cases compilation with
  | failed failure => exact hset.schedule 1 fun a he => by cases he
  | refused failure => exact hset.schedule 2 fun a he => by cases he
  | compiling gate =>
    cases gate with
    | none => exact hset.schedule 2 fun a he => hbuilds.built he
    | some gate =>
      exact { hset with
        gated := fun g hg => (List.mem_append.mp hg).elim (hset.gated g) fun hg => by
          rw [List.mem_singleton.mp hg]
          exact hbuilds }

theorem requestPipeline (h : e.Prepares D) (key : PipelineKey) (w : PipelineWaiter)
    (hw : D.Expects e.jobs.size key.text w) :
    (e.requestPipeline key w).2.Prepares D ∧
      ∀ result, (e.requestPipeline key w).1 = some result → ∀ p, result = .ok p → Cache.Serves key.text p := by
  obtain ⟨hr, ha, hready, hstart⟩ := h.cache.request hw
  unfold Engine.requestPipeline
  generalize e.cache.request key w = r at hr ha hready hstart
  obtain ⟨reply, cache⟩ := r
  have hset := h.setCache e.pool.device hr ha
  cases reply with
  | refused failure =>
    refine ⟨hset, fun result he p hp => ?_⟩
    rw [← Option.some.inj he] at hp
    cases hp
  | ready pipeline =>
    refine ⟨hset, fun result he p hp => ?_⟩
    rw [← Option.some.inj he] at hp
    cases hp
    exact hready _ rfl
  | joined => exact ⟨hset, fun result he => by cases he⟩
  | started serial => exact ⟨hset.startBuild (hstart serial rfl), fun result he => by cases he⟩

theorem lookupPipeline (h : e.Prepares D) (key : PipelineKey) : (e.lookupPipeline key).2.Prepares D := by
  have hlt : e.jobs.size < (e.addJob .lookup).2.jobs.size := Array.size_push .. ▸ Nat.lt_succ_self _
  obtain ⟨hreq, -⟩ := (h.addJob .lookup trivial).requestPipeline key (.lookup e.jobs.size) hlt
  have hjobs := (Aside.requestPipeline (e.addJob .lookup).2 key (.lookup e.jobs.size)).jobs
  unfold Engine.lookupPipeline
  dsimp only [Engine.addJob] at hreq hlt hjobs ⊢
  generalize Engine.requestPipeline _ key (.lookup e.jobs.size) = r at hreq hjobs
  obtain ⟨reply, e'⟩ := r
  cases reply with
  | none => exact hreq
  | some result =>
    refine hreq.settle ⟨?_, fun id he => by cases result <;> cases he⟩
    dsimp only at hjobs ⊢
    rw [hjobs]
    exact hlt

theorem buildEnded (h : e.Prepares D) {serial : Nat} {result : Except Failure Artifact}
    (hb : ∀ a, result = .ok a → e.cache.Built serial a) : (e.buildEnded serial result).Prepares D := by
  obtain ⟨hr, ha, hanswers⟩ := h.cache.finish hb
  have hwaits := @Cache.waiter_of_answered _ e.cache serial result
  unfold Engine.buildEnded
  generalize e.cache.finish serial result = r at hr ha hanswers hwaits
  obtain ⟨⟨answers, warning⟩, cache⟩ := r
  have hset := h.setCache e.pool.device hr ha
  have hall : ∀ x ∈ answers, ∃ text, D.Expects e.jobs.size text x.1 ∧ ∀ p, x.2 = .ok p → Cache.Serves text p := by
    rintro ⟨w, result⟩ hx
    cases result with
    | error failure =>
      obtain ⟨b, hb, hw⟩ := hwaits hx
      exact ⟨_, h.cache.waiters b hb w hw, fun p hp => by cases hp⟩
    | ok p =>
      obtain ⟨text, hw, hp⟩ := hanswers w p hx
      exact ⟨text, hw, fun q hq => by cases hq; exact hp⟩
  cases warning with
  | none => exact hset.answerAll hall
  | some w =>
    have hreport := hset.report (.buildFailed w.1 w.2)
    exact hreport.answerAll hall

theorem closePipelines (h : e.Prepares D) (closing : Closing) : (e.closePipelines closing).Prepares D := by
  obtain ⟨hr, ha⟩ := h.cache.close closing
  have hwaits := @Cache.waiter_of_refused _ e.cache closing
  unfold Engine.closePipelines
  generalize e.cache.close closing = r at hr ha hwaits
  obtain ⟨waiting, cache⟩ := r
  refine (h.setCache e.pool.device hr ha).answerAll fun x hx => ?_
  obtain ⟨w, hw, rfl⟩ := List.mem_map.mp hx
  obtain ⟨b, hb, hw⟩ := hwaits hw
  exact ⟨_, h.cache.waiters b hb w hw, fun p hp => by cases hp⟩

theorem openGate (h : e.Prepares D) : e.openGate.Prepares D := by
  have hopened : ∀ g ∈ e.gated.filter (·.1 == e.pool.device.gates), e.cache.Builds g.2.1 g.2.2 := fun g hg =>
    h.gated g (List.mem_filter.mp hg).1
  have hset : ({ e with
      gated := e.gated.filter (·.1 != e.pool.device.gates)
      pool := { e.pool with device := { e.pool.device with gate := none } } } : Engine ν α).Prepares D :=
    h.onward (Nat.le_refl _) h.cache (.refl _) (fun g hg => .inl (List.mem_filter.mp hg).1) (fun _ ht => .inl ht)
      (fun _ rec hrec => ⟨rec, hrec, rfl⟩) (fun _ hx => .inl hx) fun _ _ hj => .inl hj
  unfold Engine.openGate
  dsimp only
  generalize e.gated.filter (·.1 == e.pool.device.gates) = opened at hopened
  have hcache : ∀ g ∈ opened, Cache.Builds ({ e with
      gated := e.gated.filter (·.1 != e.pool.device.gates)
      pool := { e.pool with device := { e.pool.device with gate := none } } } : Engine ν α).cache g.2.1 g.2.2 :=
        hopened
  clear hopened
  generalize ({ e with
      gated := e.gated.filter (·.1 != e.pool.device.gates)
      pool := { e.pool with device := { e.pool.device with gate := none } } } : Engine ν α) = e' at hset hcache
  induction opened generalizing e' with
  | nil => exact hset
  | cons g opened ih =>
    exact ih _ (hset.schedule 1 (hcache g (List.mem_cons_self ..))) fun g hg => hcache g (List.mem_cons_of_mem _ hg)

/-! ## Plans -/

theorem requestSteps (h : e.Prepares D) (job : JobId) (i : Nat) (steps : List (PlanStep ν α))
    (hj : job < e.jobs.size)
    (hd : ∀ d, D job = some d → ∀ (k : Nat) step, steps[k]? = some step → d.1.steps[i + k]? = some step) :
    (e.requestSteps job i steps).2.Prepares D ∧
      ∀ (k : Nat) result, (e.requestSteps job i steps).1[k]? = some (some result) →
        ∃ step, steps[k]? = some step ∧ ∀ p, result = .ok p → Cache.Serves step.key.text p := by
  induction steps generalizing e i with
  | nil => exact ⟨h, fun k result hk => by cases hk⟩
  | cons step rest ih =>
    obtain ⟨hstep, hnow⟩ := h.requestPipeline step.key (.step job i)
      ⟨hj, fun d hdraft => ⟨step, hd d hdraft 0 step rfl, rfl⟩⟩
    have hjobs := (Aside.requestPipeline e step.key (.step job i)).jobs
    obtain ⟨hrest, hlater⟩ := ih hstep (i + 1) (hjobs.symm ▸ hj) fun d hdraft k s hk => by
      have := hd d hdraft (k + 1) s hk
      rwa [← Nat.add_assoc, Nat.add_right_comm] at this
    refine ⟨hrest, fun k result hk => ?_⟩
    cases k with
    | zero => exact ⟨step, rfl, hnow result (Option.some.inj hk)⟩
    | succ k => exact hlater k result hk

theorem arriveNow (h : e.Prepares D) {job : JobId} {i : Nat} {replies : List (Option (Except Failure Pipeline))}
    (hr : ∀ (k : Nat) result, replies[k]? = some (some result) →
      (Turn.pipelineArrived job (i + k) result : Turn ν α).Fits D e.jobs.size e.cache) :
    (e.arriveNow job i replies).Prepares D := by
  induction replies generalizing e i with
  | nil => exact h
  | cons reply rest ih =>
    have hrest (k : Nat) result (hk : rest[k]? = some (some result)) :
        (Turn.pipelineArrived job (i + 1 + k) result : Turn ν α).Fits D e.jobs.size e.cache := by
      have := hr (k + 1) result hk
      rwa [← Nat.add_assoc, Nat.add_right_comm] at this
    cases reply with
    | none => exact ih h hrest
    | some result => exact ih (h.schedule 1 (hr 0 result rfl)) hrest

/-- The draft of the call, if it is entered, is the one that is planned. -/
theorem beginPlanning (h : e.Prepares D) {job : JobId} (hj : job < e.jobs.size) (stack : List (BlendDescriptor ν α))
    (uploads : List (Upload α)) (hd : ∀ d, D job = some d →
      Draft.check e.pool.arena e.capabilities e.cache.library stack uploads = .ok d.1) :
    (e.beginPlanning job stack uploads).2.Prepares D := by
  unfold Engine.beginPlanning
  split
  · exact h
  · rename_i draft hdraft
    have hsteps (d) (hdraft' : D job = some d) : d.1.steps = draft.steps := by
      have := hd d hdraft'
      rw [hdraft] at this
      cases this
      rfl
    have hjobs := (Aside.requestSteps e job 0 draft.steps).jobs
    obtain ⟨hreq, hreplies⟩ := h.requestSteps job 0 draft.steps hj fun d hd k step hk => by
      rw [hsteps d hd, Nat.zero_add]
      exact hk
    refine hreq.arriveNow fun k result hk => ⟨hjobs.symm ▸ hj, fun d q hd hq => ?_⟩
    obtain ⟨step, hstep, hp⟩ := hreplies k result hk
    rw [Nat.zero_add]
    exact ⟨step, by rw [hsteps d hd, hstep], hp q hq⟩

omit [Measure ν] [Channel α] [Stored α] in
theorem lt_of_planning? {job : JobId} {p : Planning ν α} (hp : e.planning? job = some p) : job < e.jobs.size := by
  obtain ⟨_, hjob, -⟩ := busy_of_planning hp
  exact (Array.getElem?_eq_some_iff.mp hjob).1

/-- Whoever is entered and plans, plans for its draft. -/
theorem gathers (h : e.Prepares D) {job : JobId} {p : Planning ν α} (hp : e.planning? job = some p)
    {d : Draft ν α × Arena ν} (hd : D job = some d) : p.Gathers d.1 := by
  unfold Engine.planning? at hp
  split at hp
  · rename_i hjob
    cases hp
    obtain ⟨d', hd', hg⟩ := h.jobs _ _ hjob
    rw [hd] at hd'
    cases hd'
    exact hg
  · rename_i hjob
    have hnone : D job = none := h.jobs _ _ hjob
    rw [hd] at hnone
    cases hnone
  · cases hp

theorem setPlanning (h : e.Prepares D) (job : JobId) (p : Planning ν α) (hp : ∀ d, D job = some d → p.Gathers d.1) :
    (e.setPlanning job p).Prepares D := by
  unfold Engine.setPlanning
  split
  · rename_i hjob
    obtain ⟨d, hd, -⟩ := h.jobs _ _ hjob
    exact h.setJob (.plan p) ⟨d, hd, hp d hd⟩
  · rename_i c hjob
    have hnone : D job = none := h.jobs _ _ hjob
    exact h.setJob (.composite _) hnone
  · exact h

omit [Measure ν] [Channel α] [Stored α] in
theorem setPlanning_size (e : Engine ν α) (job : JobId) (p : Planning ν α) :
    (e.setPlanning job p).jobs.size = e.jobs.size := by
  unfold Engine.setPlanning
  split
  · exact Array.size_setIfInBounds ..
  · exact Array.size_setIfInBounds ..
  · rfl

theorem pipelineArrived (h : e.Prepares D) {job : JobId} {index : Nat} {result : Except Failure Pipeline}
    (ht : (Turn.pipelineArrived job index result : Turn ν α).Fits D e.jobs.size e.cache) :
    (e.pipelineArrived job index result).Prepares D := by
  unfold Engine.pipelineArrived
  split
  · exact h
  · rename_i p hp
    have hlt := lt_of_planning? hp
    split
    · exact h
    · split
      · have hset := h.setPlanning job { p with ended := true } fun d hd =>
          { h.gathers hp hd with }
        exact hset.schedule 1 ⟨(setPlanning_size ..).symm ▸ hlt, fun d qs hd he => by cases he⟩
      · rename_i q
        have hgathers (ended : Bool) (d) (hd : D job = some d) :
            Planning.Gathers { p with arrived := p.arrived.set index (some q), ended } d.1 :=
          (h.gathers hp hd).arrive (ht.2 d q hd rfl) ended
        dsimp only
        split
        · rename_i hall
          refine (h.setPlanning job _ (hgathers true)).schedule 1 ⟨(setPlanning_size ..).symm ▸ hlt,
            fun d qs hd he => ?_⟩
          cases he
          exact (hgathers true d hd).supplied hall
        · exact h.setPlanning job _ (hgathers p.ended)

/-- A call for a plan, checked and entered. -/
theorem startPlan (h : e.Prepares D) (stack : List (BlendDescriptor ν α)) (uploads : List (Upload α)) :
    ∃ D', (∀ j < e.jobs.size, D' j = D j) ∧ (e.startPlan stack uploads).2.Prepares D' ∧
      ∀ j d, e.jobs.size ≤ j → D' j = some d → d.2 = e.pool.arena ∧
        Draft.check e.pool.arena e.capabilities e.cache.library stack uploads = .ok d.1 := by
  have hlt : e.jobs.size < (e.addJob .lookup).2.jobs.size := Array.size_push .. ▸ Nat.lt_succ_self _
  have hjobs := (Aside.beginPlanning (e.addJob .lookup).2 e.jobs.size stack uploads).jobs
  cases hcheck : Draft.check e.pool.arena e.capabilities e.cache.library stack uploads with
  | error failure =>
    have hcheck' : Draft.check (e.addJob .lookup).2.pool.arena (e.addJob .lookup).2.capabilities
      (e.addJob .lookup).2.cache.library stack uploads = .error failure := hcheck
    -- a stack that is refused is entered nowhere
    refine ⟨D, fun _ _ => rfl, ?_, fun j d hj hd => absurd (h.asked j d hd) (Nat.not_lt.mpr hj)⟩
    have hbegin : (e.addJob .lookup).2.beginPlanning e.jobs.size stack uploads =
        (.error failure, (e.addJob .lookup).2) := by
      unfold Engine.beginPlanning
      rw [hcheck']
    unfold Engine.startPlan
    rw [show (e.addJob .lookup : JobId × Engine ν α) = (e.jobs.size, (e.addJob .lookup).2) from rfl]
    dsimp only
    rw [hbegin]
    exact (h.addJob .lookup trivial).settle ⟨hlt, fun id he => by cases he⟩
  | ok draft =>
    have hcheck' : Draft.check (e.addJob .lookup).2.pool.arena (e.addJob .lookup).2.capabilities
      (e.addJob .lookup).2.cache.library stack uploads = .ok draft := hcheck
    have hself : D.enter e.jobs.size (draft, e.pool.arena) e.jobs.size = some (draft, e.pool.arena) :=
      Function.update_self ..
    -- a checked stack is entered under the number that its call gets
    refine ⟨D.enter e.jobs.size (draft, e.pool.arena), fun j hj => Function.update_of_ne (Nat.ne_of_lt hj) _ _, ?_,
      fun j d hj hd => ?_⟩
    · have hbegin := (h.enter (draft, e.pool.arena)).beginPlanning hlt stack uploads fun d hd => by
        rw [hself] at hd
        cases hd
        exact hcheck
      have hp : ∀ p, ((e.addJob .lookup).2.beginPlanning e.jobs.size stack uploads).1 = .ok p →
          p = ⟨draft, draft.steps.map fun _ => none, false⟩ := by
        intro p hp
        obtain ⟨draft', hdraft', rfl⟩ := beginPlanning_ok hp
        rw [hcheck'] at hdraft'
        cases hdraft'
        rfl
      unfold Engine.startPlan
      rw [show (e.addJob .lookup : JobId × Engine ν α) = (e.jobs.size, (e.addJob .lookup).2) from rfl]
      dsimp only
      generalize (e.addJob .lookup).2.beginPlanning e.jobs.size stack uploads = r at hbegin hp hjobs
      obtain ⟨r, e'⟩ := r
      cases r with
      | error failure =>
        exact hbegin.settle ⟨by dsimp only at hjobs ⊢; rw [hjobs]; exact hlt, fun id he => by cases he⟩
      | ok p =>
        refine hbegin.setJob (.plan p) ⟨_, hself, ?_⟩
        rw [hp p rfl]
        exact .start draft
    · by_cases he : j = e.jobs.size
      · rw [he, hself] at hd
        cases hd
        exact ⟨rfl, rfl⟩
      · rw [Drafts.enter, Function.update_of_ne he, h.unasked hj] at hd
        cases hd

theorem planMade (h : e.Prepares D) {job : JobId} {result : Except Failure PlanId} (hr : ∀ id, result = .ok id →
    ∀ d, D job = some d → ∃ rec, e.plans[id]? = some rec ∧ d.1.Made d.2 rec.plan) :
    (e.planMade job result).Prepares D := by
  unfold Engine.planMade
  split
  · rename_i p hjob
    obtain ⟨d, hd, -⟩ := h.jobs _ _ hjob
    refine h.settle ⟨(Array.getElem?_eq_some_iff.mp hjob).1, fun id he => ?_⟩
    cases result with
    | error failure => cases he
    | ok id' =>
      cases he
      obtain ⟨rec, hrec, hmade⟩ := hr _ rfl d hd
      exact ⟨d, rec, hd, hrec, hmade⟩
  · rename_i c hjob
    have hnone : D job = none := h.jobs _ _ hjob
    exact (h.setJob (.composite _) hnone).schedule 1 trivial
  · exact h

theorem planReady (h : e.Prepares D) (hs : e.pool.Sound) (hl : ∀ j d, D j = some d → d.2.Later e.pool.arena)
    {job : JobId} {result : Except Failure (List Pipeline)}
    (ht : (Turn.planReady job result : Turn ν α).Fits D e.jobs.size e.cache) :
    (e.planReady job result).Prepares D := by
  unfold Engine.planReady
  split
  · exact h
  · exact h.planMade fun id he => by cases he
  · rename_i p pipelines hp
    split
    · exact (h.setPool _).planMade fun id he => by cases he
    · rename_i plan pool hemit
      refine ((h.setPool pool).bystands (.addPlan _ plan)).planMade fun id he d hd => ?_
      cases he
      refine ⟨⟨plan, #[]⟩, Array.getElem?_push_size, pipelines, e.pool, pool, ht.2 d pipelines hd rfl, hs,
        hl job d hd, ?_⟩
      rw [← (h.gathers hp hd).of]
      exact hemit

/-! ## Composite calls -/

theorem unasked_of_call (h : e.Prepares D) {job : JobId} {c : CompositeCall ν α} (hc : e.call? job = some c) :
    D job = none := h.jobs _ _ (call?_eq.mp hc)

theorem setCall (h : e.Prepares D) {job : JobId} (hd : D job = none) (c : CompositeCall ν α) :
    (e.setCall job c).Prepares D :=
  h.setJob (.composite c) hd

theorem leave (h : e.Prepares D) (job : JobId) (owned : List Handle) (result : Except Failure (Raster ν α)) :
    (e.leave job owned result).Prepares D := by
  unfold Engine.leave
  split
  · exact h
  · rename_i c hc
    exact ((h.setPool _).setCall (h.unasked_of_call hc) _).schedule 1 trivial

theorem planAttempt (h : e.Prepares D) {job : JobId} (hj : job < e.jobs.size) (hd : D job = none)
    (c : CompositeCall ν α) (destination : Handle)
    (sources : List Handle) : (e.planAttempt job c destination sources).Prepares D := by
  unfold Engine.planAttempt
  dsimp only
  split
  · exact (h.setCall hd _).leave job [] _
  · rename_i stack _
    have hbegin := h.beginPlanning hj stack (uploadsOf c.layers sources) fun d hd' => by
      rw [hd] at hd'
      cases hd'
    split
    all_goals
      rename_i heq
      rw [heq] at hbegin
    · exact (hbegin.setCall hd _).schedule 1 trivial
    · exact hbegin.setCall hd _

theorem startAttempt (h : e.Prepares D) {job : JobId} (hj : job < e.jobs.size) (hd : D job = none)
    (c : CompositeCall ν α) : (e.startAttempt job c).Prepares D := by
  unfold Engine.startAttempt
  split
  · exact (h.setCall hd _).schedule 1 trivial
  · exact (h.setCall hd _).schedule 1 trivial
  · split
    · exact ((h.setPool _).setCall hd _).leave job [] _
    · dsimp only
      split
      · exact ((h.setPool _).setCall hd _).leave job [] _
      · rename_i pool _
        exact (h.setPool pool).planAttempt hj hd c _ _

theorem startComposite (h : e.Prepares D) (layers options : Value α) (verifies : Bool) :
    (e.startComposite layers options verifies).2.Prepares D := by
  have hadd := h.addJob .lookup trivial
  have hlt : e.jobs.size < (e.addJob .lookup).2.jobs.size := Array.size_push .. ▸ Nat.lt_succ_self _
  have hfail (failure : Failure) : ((e.addJob .lookup).2.settle e.jobs.size (.error failure)).Prepares D :=
    hadd.settle ⟨hlt, fun id he => by cases he⟩
  unfold Engine.startComposite
  rw [show (e.addJob .lookup : JobId × Engine ν α) = (e.jobs.size, (e.addJob .lookup).2) from rfl]
  dsimp only
  split
  · exact hfail _
  · exact hfail _
  · split
    · exact hfail _
    · exact hadd.startAttempt hlt (h.unasked (Nat.le_refl _)) _

section
variable [Transfer α]

theorem planned (h : e.Prepares D) (job : JobId) : (e.planned job).Prepares D := by
  unfold Engine.planned
  split
  · rename_i c hc
    have hd := h.unasked_of_call hc
    split
    · exact h.leave job [] _
    · rename_i plan _
      split
      · exact h.leave job _ _
      · have hsubmit := h.bystands (submit_bystands e plan)
        split
        · rename_i heq
          rw [heq] at hsubmit
          exact hsubmit.leave job _ _
        · rename_i token e' heq
          rw [heq] at hsubmit
          have hset := hsubmit.setCall hd { c with phase := .draining plan token }
          dsimp only
          split
          · rename_i signal _
            have hlisten : ({ e'.setCall job { c with phase := .draining plan token } with
                listeners := e'.listeners ++ [(signal, job, token)] } : Engine ν α).Prepares D :=
              hset.of_eq rfl rfl rfl rfl rfl rfl
            exact hlisten.bystands (waitFor_bystands _ job token)
          · exact hset.bystands (waitFor_bystands _ job token)
    · exact h
  · exact h

theorem resumed (h : e.Prepares D) (job : JobId) (token : SubmissionId) (outcome : Outcome) :
    (e.resumed job token outcome).Prepares D := by
  unfold Engine.resumed
  split
  · split
    · split
      · exact h.leave job _ _
      · exact h
    · exact h
  · exact h

theorem attemptEnded (h : e.Prepares D) (job : JobId) (result : Except Failure (Raster ν α)) :
    (e.attemptEnded job result).Prepares D := by
  have hanswer (e' : Engine ν α) (c : CompositeCall ν α) (raster : Raster ν α) (id : PlanId) :
      e'.answerOf c raster ≠ .ok (.plan id) := by
    unfold answerOf
    split
    · cases Direct.composite c.layers (some raster.format) with
      | error failure => exact fun he => by cases he
      | ok host =>
        simp only [bind, Except.bind]
        split
        · exact fun he => by cases he
        · exact fun he => by cases he
    · exact fun he => by cases he
  unfold Engine.attemptEnded
  split
  · exact h
  · rename_i c raster hc
    have hlt := lt_of_call? hc
    have hsettle {e' : Engine ν α} (h' : e'.Prepares D) (hn : e'.jobs.size = e.jobs.size) :
        (e'.settle job (e'.answerOf c raster)).Prepares D :=
      h'.settle ⟨hn ▸ hlt, fun id he => absurd he (hanswer e' c raster id)⟩
    dsimp only
    split
    · exact hsettle (h.report _) rfl
    · exact hsettle h rfl
  · rename_i c failure hc
    have hlt := lt_of_call? hc
    have hd := h.unasked_of_call hc
    dsimp only
    split
    · split
      · rename_i pool _
        exact ((h.report _).setPool pool).startAttempt hlt hd _
      · rename_i pool _
        exact ((h.report _).setPool pool).settle ⟨hlt, fun id he => by cases he⟩
    · exact h.settle ⟨hlt, fun id he => by cases he⟩

/-! ## Turns and operations -/

omit [Transfer α] in
theorem shutDown (h : e.Prepares D) (closing : Closing) : (e.shutDown closing).2.Prepares D := by
  refine Attempt.andThen_keeps (P := fun e' : Engine ν α => e'.Prepares D) (h.setPool _) fun _ _ => ?_
  exact ((h.setPool _).closePipelines closing).bystands (.setDevice _ _)

omit [Transfer α] in
theorem destroy (h : e.Prepares D) : e.destroy.2.Prepares D := by
  unfold Engine.destroy
  split
  · exact h
  · have hset : ({ e with session := { e.session with phase := .destroyed } } : Engine ν α).Prepares D :=
      h.of_eq rfl rfl rfl rfl rfl rfl
    have habandon := hset.bystands (abandonPending_bystands _ (.of (.sessionDestroyed .deviceLost)))
    refine Attempt.andThen_keeps (P := fun e' : Engine ν α => e'.Prepares D) habandon fun _ _ => ?_
    exact (habandon.bystands (discardUnawaited_bystands _)).shutDown _

omit [Transfer α] in
theorem lossSeen (h : e.Prepares D) (reason message : String) : (e.lossSeen reason message).Prepares D := by
  unfold Engine.lossSeen
  split
  · exact h
  · have hset : ({ e.report (.deviceLost reason message) with session := { e.session with phase := .lost } } :
        Engine ν α).Prepares D := (h.report (.deviceLost reason message)).of_eq rfl rfl rfl rfl rfl rfl
    have habandon := hset.bystands (abandonPending_bystands _ (.of (.deviceLostBecause reason message)))
    refine Attempt.andThen_keeps (P := fun e' : Engine ν α => e'.Prepares D) habandon fun _ _ => ?_
    exact habandon.shutDown _

theorem perform (h : e.Prepares D) (hs : e.pool.Sound) (hl : ∀ j d, D j = some d → d.2.Later e.pool.arena)
    {t : Turn ν α} (ht : t.Fits D e.jobs.size e.cache) : (e.perform t).Prepares D := by
  cases t with
  | buildUngated serial key => exact h.schedule 2 fun a he => Cache.Builds.built ht he
  | buildEnded serial result => exact h.buildEnded ht
  | pipelineArrived job index result => exact h.pipelineArrived ht
  | planReady job result => exact h.planReady hs hl ht
  | planned job => exact h.planned job
  | scopesClosed s => exact h.bystands (scopesClosed_bystands e s)
  | workDone s outcome => exact h.bystands (workDone_bystands e s outcome)
  | mapped token downloads outcome => exact h.bystands (mapped_bystands e token downloads outcome)
  | rejected token failure => exact h.schedule 1 trivial
  | finished token outcome => exact h.bystands (finished_bystands e token outcome)
  | reported token outcome => exact h.bystands (reported_bystands e token outcome)
  | lossSeen reason message => exact h.lossSeen reason message
  | collected job token outcome => exact h.bystands (collected_bystands e job token outcome)
  | drained job token outcome => exact h.bystands (drained_bystands e job token outcome)
  | resumed job token outcome => exact h.resumed job token outcome
  | attemptEnded job result => exact h.attemptEnded job result

theorem carryOut (h : e.Prepares D) {op : Operation ν α} (hop : ∀ stack uploads, op ≠ .makePlan stack uploads) :
    (e.carryOut op).2.Prepares D := by
  have hdevice (device : Device ν α) : (e.setDevice device).Prepares D := h.bystands (.setDevice e device)
  cases op with
  | makePlan stack uploads => exact absurd rfl (hop stack uploads)
  | allocate | acquire | relinquish | release | invalidate | trim | closeArena => exact h.setPool _
  | resolve | contains | checkArena | read | supports | hasPipeline | output | checkUsable | config => exact h
  | inject | fault | hold | gate | refuseBuilds | limitAllocation => exact hdevice _
  | lookUp key => exact h.lookupPipeline key
  | clearPipelines =>
    obtain ⟨hr, ha⟩ := h.cache.clear
    exact h.setCache e.pool.device hr ha
  | closePipelines closing => exact h.closePipelines closing
  | takePlan plan => exact h.bystands (.addPlan e plan)
  | makeArray values => exact h.bystands (.makeArray e values)
  | submit plan => exact h.bystands (submit_bystands e plan)
  | wait token => exact h.bystands (startWait_bystands e token)
  | destroy => exact h.destroy
  | composite layers options verifies => exact h.startComposite layers options verifies
  | configure change =>
    show (e.configure change).2.Prepares D
    unfold Engine.configure
    split
    · exact h
    · exact h.of_eq rfl rfl rfl rfl rfl rfl
  | newSignal => exact h.of_eq rfl rfl rfl rfl rfl rfl
  | abort signal reason => exact h.bystands (abort_bystands e signal reason)
  | lose message =>
    refine Attempt.andThen_keeps (P := fun e' : Engine ν α => e'.Prepares D) (hdevice _) fun _ _ => ?_
    exact (hdevice _).bystands (lose_bystands _ message)
  | uncaptured message => exact h.report _
  | unhold =>
    refine Attempt.andThen_keeps (P := fun e' : Engine ν α => e'.Prepares D) (hdevice _) fun _ _ => ?_
    exact (hdevice _).bystands (unhold_bystands _)
  | openGate =>
    show (if e.pool.device.gates = 0 then (.error (.host .mistyped), e) else
      e.openGate.replyDone : Answered ν α).2.Prepares D
    split
    · exact h
    · exact h.openGate

end

end Prepares

/-! ## Runs -/

section
variable [Transfer α]

/-- Everything under way fits the ledger, over a pool that has gone on since drafts were checked. -/
structure Planned (D : Drafts ν α) (e : Engine ν α) : Prop where
  able : e.Able []
  prepares : e.Prepares D
  later : ∀ j d, D j = some d → d.2.Later e.pool.arena

omit [Transfer α] in
theorem Opened.planned (h : e.Opened) : e.Planned fun _ => none := by
  refine ⟨h.able fun _ _ => List.not_mem_nil, ?_, fun _ _ hd => by cases hd⟩
  obtain ⟨device, o, config, rfl⟩ := h.eq
  exact ⟨fun _ _ hd => (by cases hd),
    ⟨fun _ h => absurd h List.not_mem_nil, fun _ _ h => absurd h List.not_mem_nil, fun _ _ h =>
      absurd h List.not_mem_nil, fun _ h => absurd h List.not_mem_nil⟩,
    fun _ h => absurd h List.not_mem_nil, fun _ h => absurd h List.not_mem_nil, fun _ h =>
      absurd h List.not_mem_nil,
    fun _ _ hj => (by cases hj)⟩

/-- A draft that a move enters in the ledger is that of a stack which the move checks. -/
def Enrols (e : Engine ν α) (m : Move ν α) (D : Drafts ν α) : Prop :=
  ∀ j d, e.jobs.size ≤ j → D j = some d → d.2 = e.pool.arena ∧ ∃ stack uploads,
    m = .call (.makePlan stack uploads) ∧
    Draft.check e.pool.arena e.capabilities e.cache.library stack uploads = .ok d.1

omit [Transfer α] in
theorem Planned.enrols (h : e.Planned D) (m : Move ν α) : e.Enrols m D :=
  fun j d hj hd => absurd (h.prepares.asked j d hd) (Nat.not_lt.mpr hj)

theorem Planned.turn (h : e.Planned D) {turns : List (Nat × Turn ν α)} (hsub : turns ⊆ e.turns) {t : Nat × Turn ν α}
    (ht : t ∈ e.turns) : (({ e with turns } : Engine ν α).perform t.2).Prepares D :=
  (h.prepares.takeTurns hsub).perform h.able.pool.sound h.later (h.prepares.turns t ht)

theorem Planned.move_prepares (h : e.Planned D) (m : Move ν α) : ∃ D', (∀ j < e.jobs.size, D' j = D j) ∧
    (e.move m).Prepares D' ∧ e.Enrols m D' := by
  cases m with
  | call op =>
    by_cases hop : ∃ stack uploads, op = .makePlan stack uploads
    · obtain ⟨stack, uploads, rfl⟩ := hop
      obtain ⟨D', hold, hp, hnew⟩ := h.prepares.startPlan stack uploads
      refine ⟨D', hold, hp, fun j d hj hd => ?_⟩
      obtain ⟨harena, hcheck⟩ := hnew j d hj hd
      exact ⟨harena, stack, uploads, rfl, hcheck⟩
    · refine ⟨D, fun _ _ => rfl, ?_, h.enrols _⟩
      show (e.apply op).2.Prepares D
      unfold Engine.apply
      split
      · exact h.prepares
      · exact h.prepares.carryOut fun stack uploads he => hop ⟨stack, uploads, he⟩
  | turn n =>
    refine ⟨D, fun _ _ => rfl, ?_, h.enrols _⟩
    unfold Engine.move
    dsimp only
    split
    · rename_i heq
      exact h.turn List.eraseIdx_subset (List.mem_of_getElem? heq)
    · exact h.prepares
  | fire =>
    refine ⟨D, fun _ _ => rfl, ?_, h.enrols _⟩
    show e.fire.Prepares D
    unfold Engine.fire
    split
    · exact h.prepares
    · rename_i delay t rest heq
      have hmem : (delay, t) ∈ e.turns := heq ▸ List.mem_cons_self ..
      have hsub : rest ⊆ e.turns := heq ▸ List.subset_cons_self ..
      dsimp only
      split
      · exact h.turn hsub hmem
      · exact (h.prepares.takeTurns hsub).schedule _ (h.prepares.turns _ hmem)

/-- What a move enters in the ledger. -/
theorem move_planned (h : e.Planned D) (m : Move ν α) :
    ∃ D', (∀ j < e.jobs.size, D' j = D j) ∧ (e.move m).Planned D' ∧ e.jobs.size ≤ (e.move m).jobs.size ∧
      e.Enrols m D' := by
  obtain ⟨turns, hturns, hdeeds⟩ := move_deeds (R := fun _ => True) h.able.sorted m (fun _ => trivial)
    (fun _ _ _ _ => trivial) fun _ _ _ => trivial
  have hspares (r : Pool.Request ν) (_ : True) : r.Spares [] := r.spares_nil
  have hable : ({ e with turns } : Engine ν α).Able [] := ⟨h.able.pool, h.able.sorted⟩
  have hlater := Deeds.later hspares hable hdeeds
  obtain ⟨D', hold, hprepares, henrols⟩ := h.move_prepares m
  refine ⟨D', hold, ⟨hdeeds.able hspares hable, hprepares, fun j d hd => ?_⟩, hdeeds.jobs, henrols⟩
  by_cases hj : j < e.jobs.size
  · exact (h.later j d (hold j hj ▸ hd)).trans hlater
  · rw [(henrols j d (Nat.not_lt.mp hj) hd).1]
    exact hlater

theorem run_planned (h : e.Planned D) (moves : List (Move ν α)) :
    ∃ D', (∀ j < e.jobs.size, D' j = D j) ∧ (e.run moves).Planned D' ∧ e.jobs.size ≤ (e.run moves).jobs.size := by
  induction moves generalizing e D with
  | nil => exact ⟨D, fun _ _ => rfl, h, Nat.le_refl _⟩
  | cons m moves ih =>
    obtain ⟨D₁, hold₁, h₁, hsize₁, -⟩ := move_planned h m
    obtain ⟨D₂, hold₂, h₂, hsize₂⟩ := ih h₁
    exact ⟨D₂, fun j hj => (hold₂ j (Nat.lt_of_lt_of_le hj hsize₁)).trans (hold₁ j hj), h₂,
      Nat.le_trans hsize₁ hsize₂⟩

end

end Engine

/-! ## What a plan computes -/

/-- A pipeline of the layer's own: the program that the library has for it. -/
def BlendDescriptor.Own (d : BlendDescriptor ν α) (arena : Arena ν) (library : Library) (index : Nat)
    (p : Pipeline) : Prop :=
  ∃ (r : SlotRef ν) (format : String) (a : Artifact), arena.resolve d.source = .ok r ∧
    r.format.pixels = some format ∧
    library.resolve (d.key index format) = some a ∧ p.artifact.program = a.program

/-- The bottom layer is copied. -/
theorem BlendDescriptor.Own.copies {d : BlendDescriptor ν α} {arena : Arena ν} {library : Library} {p : Pipeline}
    (h : d.Own arena library 0 p) : p.bindings = .copy := by
  obtain ⟨r, format, a, -, -, ha, hp⟩ := h
  have hn := Library.names_of_resolve ha
  show p.artifact.program.bindings = .copy
  rw [hp]
  cases hprogram : a.program with
  | copy format' => rfl
  | blend mode space format' =>
    rw [hprogram] at hn
    exact absurd hn.1.symm (BlendMode.name_ne_copyMode mode)

namespace Draft

variable [Measure ν] {arena : Arena ν} {library : Library} {stack : List (BlendDescriptor ν α)}
  {uploads : List (Upload α)} {draft : Draft ν α} {base : BlendDescriptor ν α} {r : SlotRef ν}

theorem Reads.own (h : Reads arena library stack uploads draft base r) {pipelines : List Pipeline}
    (hp : draft.Supplied pipelines) {i : Nat} {d : BlendDescriptor ν α} {p : Pipeline} (hd : stack[i]? = some d)
    (hi : pipelines[i]? = some p) : d.Own arena library i p := by
  obtain ⟨step, hstep, key, htext, hnames⟩ := hp.suits i p hi
  obtain ⟨s, format, hs, hf, rfl, hkey⟩ := h.steps.2 i d step hd hstep
  rw [Nat.zero_add] at htext hkey
  obtain ⟨a, ha⟩ := Option.isSome_iff_exists.mp hkey
  exact ⟨s, format, a, hs, hf, ha, hnames.unique (Library.names_of_resolve ha) htext⟩

variable [Channel α] [Stored α]

theorem Made.folds {plan : Plan ν α} (h : draft.Made arena plan)
    (hr : Reads arena library stack uploads draft base r) :
    ∃ pipelines : List Pipeline, pipelines.length = stack.length ∧
      (∀ (i : Nat) d p, stack[i]? = some d → pipelines[i]? = some p → d.Own arena library i p) ∧
      draft.Folds pipelines r.format.width r.format.height plan := by
  obtain ⟨pipelines, pool, pool', hp, hsound, hlater, hemit⟩ := h
  have hown := fun (i : Nat) d p => hr.own (i := i) (d := d) (p := p) hp
  refine ⟨pipelines, hp.length.trans hr.steps.1, hown, ?_⟩
  obtain ⟨r', hr', hfolds⟩ := emit_folds hsound hemit hp.length fun p hfirst => by
    cases pipelines with
    | nil => cases hfirst
    | cons q pipelines =>
      cases hfirst
      have hd : stack[0]? = some base := by
        rw [← List.head?_eq_getElem?]
        exact hr.head
      exact (hown 0 base p hd rfl).copies
  -- the destination is the one that was checked
  have hsame := Arena.resolve_later hlater hr.resolves (hr.destination ▸ Arena.contains_of_resolve hr')
  rw [hr.destination, hsame] at hr'
  cases hr'
  exact hfolds

end Draft

namespace Engine

variable [Measure ν] [Channel α] [Stored α] [Transfer α]

omit [Channel α] [Stored α] [Transfer α] in
theorem startPlan_size (e : Engine ν α) (stack : List (BlendDescriptor ν α)) (uploads : List (Upload α)) :
    e.jobs.size < (e.startPlan stack uploads).2.jobs.size := by
  have hjobs := (Aside.beginPlanning (e.addJob .lookup).2 e.jobs.size stack uploads).jobs
  have hlt : e.jobs.size < (e.addJob .lookup).2.jobs.size := Array.size_push .. ▸ Nat.lt_succ_self _
  unfold startPlan
  rw [show (e.addJob .lookup : JobId × Engine ν α) = (e.jobs.size, (e.addJob .lookup).2) from rfl]
  dsimp only
  generalize (e.addJob .lookup).2.beginPlanning e.jobs.size stack uploads = r at hjobs
  obtain ⟨r, e'⟩ := r
  rw [← hjobs] at hlt
  cases r with
  | error failure => exact hlt
  | ok p =>
    show _ < (e'.jobs.setIfInBounds _ _).size
    rw [Array.size_setIfInBounds]
    exact hlt

/-- Whatever else the engine is at, and whenever the pipelines arrive: a plan that a call answers computes the fold
of the stack the call was made with, whatever slots hold and kernels compute. Each layer has the pipeline that the
library has for it, sources hold what the uploads leave, there are at most two working images, and no source is
written by a dispatch. -/
theorem plans_fold {start : Engine ν α} (hstart : start.Opened) (moves moves' : List (Move ν α))
    (stack : List (BlendDescriptor ν α)) (uploads : List (Upload α)) (id : PlanId) :
    let e := start.run moves
    let e' := (e.move (.call (.makePlan stack uploads))).run moves'
    (e.jobs.size, .ok (.plan id)) ∈ e'.settled →
      ∃ (rec : PlanRecord ν α) (base : BlendDescriptor ν α) (r : SlotRef ν) (pipelines : List Pipeline),
        e'.plans[id]? = some rec ∧ stack.head? = some base ∧ e.pool.arena.resolve base.destination = .ok r ∧
        pipelines.length = stack.length ∧
        (∀ (i : Nat) d p, stack[i]? = some d → pipelines[i]? = some p → d.Own e.pool.arena e.cache.library i p) ∧
        (∀ {C : Type} (m : Meaning α C) (store : Handle → C), ∃ store',
          m.stages store rec.plan.stages = some store' ∧
          some (store' base.destination) =
            m.fold (Meaning.layers (m.written store uploads) r.format.width r.format.height stack pipelines)) ∧
        Stage.images rec.plan.stages ≤ 2 ∧
        ∀ label p b x y, .dispatch label p b x y ∈ rec.plan.stages → ∀ d ∈ stack, b.result ≠ d.source := by
  intro e e' hsettled
  obtain ⟨D, -, he, -⟩ := run_planned hstart.planned moves
  obtain ⟨D₁, -, h₁, -, hnew⟩ := move_planned he (.call (.makePlan stack uploads))
  obtain ⟨D', hold, h', -⟩ := run_planned h₁ moves'
  obtain ⟨-, hmade⟩ := h'.prepares.settled _ hsettled
  obtain ⟨d, rec, hd, hrec, hmade⟩ := hmade id rfl
  rw [hold _ (startPlan_size e stack uploads)] at hd
  obtain ⟨harena, stack', uploads', hcall, hcheck⟩ := hnew _ d (Nat.le_refl _) hd
  cases hcall
  obtain ⟨draft, arena⟩ := d
  obtain rfl : arena = e.pool.arena := harena
  obtain ⟨base, r, hreads⟩ := Draft.check_reads hcheck
  obtain ⟨pipelines, hlength, hown, hfolds⟩ := hmade.folds hreads
  refine ⟨rec, base, r, pipelines, hrec, hreads.head, hreads.resolves, hlength, hown,
    fun m store => ?_, hfolds.images, ?_⟩
  · obtain ⟨store', hrun, hresult⟩ := hfolds.folds m store
    rw [hreads.destination, hreads.uploads, hreads.steps.operands_eq] at hresult
    exact ⟨store', hrun, hresult⟩
  · intro label p b x y hmem layer hlayer
    obtain ⟨i, hi⟩ := List.getElem?_of_mem hlayer
    have hlt : i < draft.steps.length := hreads.steps.1 ▸ (List.getElem?_eq_some_iff.mp hi).1
    obtain ⟨s, format, -, -, hstep, -⟩ := hreads.steps.2 i layer _ hi (List.getElem?_eq_getElem hlt)
    have hsource : (draft.steps[i]).source = layer.source := by rw [hstep]
    exact hsource ▸ hfolds.spared label p b x y hmem _ (List.getElem_mem hlt)

/-! ### One source for three layers -/

namespace Thrice

def source : Handle := ⟨.number 0, .number 0⟩

def destination : Handle := ⟨.number 1, .number 0⟩

def stack : List (BlendDescriptor Int Bool) :=
  [⟨source, destination, "source-over", "srgb", true, none⟩,
    ⟨source, destination, "multiply", "linear", true, none⟩,
    ⟨source, destination, "multiply", "linear", true, none⟩]

def uploads : List (Upload Bool) := [⟨source, ⟨4, #[]⟩⟩]

def start : Engine Int Bool :=
  { bare { limits := .standard } {} with
    pool := ⟨{ options := ({} : EngineOptions Int).arena "Session" }, { limits := .standard }⟩
    config := Config.standard.update {}
    supervised := true }

def moves : List (Move Int Bool) :=
  [.call (.allocate (.image .storage .float32 1 1) 16), .call (.allocate (.image .readback .float32 1 1) 16)]

/-- The plan is asked for, and its pipelines are built. -/
def made : Engine Int Bool :=
  ((start.run moves).move (.call (.makePlan stack uploads))).run (List.replicate 9 .fire)

end Thrice

def answersPlan (e : Engine ν α) (job : JobId) (id : PlanId) : Bool := e.settled.any fun
  | (j, .ok (.plan k)) => j == job && k == id
  | _ => false

omit [Measure ν] [Channel α] [Stored α] [Transfer α] in
theorem mem_of_answersPlan {e : Engine ν α} {job : JobId} {id : PlanId} (h : e.answersPlan job id = true) :
    (job, .ok (.plan id)) ∈ e.settled := by
  obtain ⟨x, hx, hh⟩ := List.any_eq_true.mp h
  split at hh
  · rw [Bool.and_eq_true, beq_iff_eq, beq_iff_eq] at hh
    obtain ⟨rfl, rfl⟩ := hh
    exact hx
  · cases hh

open Thrice in
/-- The call answers a plan, for a destination of one texel. -/
theorem Thrice.made_spec : made.answersPlan (start.run moves).jobs.size 0 = true ∧
    ((start.run moves).pool.arena.resolve destination).toOption.map (·.format) =
      some (.image .readback .float32 1 1) := by decide +kernel

open Thrice in
theorem Thrice.format_destination {r : SlotRef Int}
    (hr : (start.run moves).pool.arena.resolve destination = .ok r) : r.format = .image .readback .float32 1 1 := by
  have h := made_spec.2
  rw [hr] at h
  exact Option.some.inj h

open Thrice in
theorem plans_fold_thrice : start.Opened ∧ ((start.run moves).jobs.size, .ok (.plan 0)) ∈ made.settled ∧
    ∃ (rec : PlanRecord Int Bool) (pipelines : List Pipeline), made.plans[0]? = some rec ∧ pipelines.length = 3 ∧
      (∀ {C : Type} (m : Meaning Bool C) (store : Handle → C), ∃ store',
        m.stages store rec.plan.stages = some store' ∧
        some (store' destination) = m.fold (Meaning.layers (m.written store uploads) 1 1 stack pipelines)) ∧
      Stage.images rec.plan.stages ≤ 2 := by
  have hstart : start.Opened := ⟨{ limits := .standard }, {}, .object [], rfl⟩
  have hsettled : ((start.run moves).jobs.size, .ok (.plan 0)) ∈ made.settled := mem_of_answersPlan made_spec.1
  obtain ⟨rec, base, r, pipelines, hrec, hbase, hr, hlength, -, hfolds, himages, -⟩ :=
    plans_fold hstart moves (List.replicate 9 .fire) stack uploads 0 hsettled
  cases hbase
  rw [format_destination hr] at hfolds
  exact ⟨hstart, hsettled, rec, pipelines, hrec, hlength, hfolds, himages⟩

end Engine

end Strata
