import Strata.Proofs.Engine.Changes

/-!
# Builds keep every promise

Whoever waits for a pipeline is answered with the program of its key: `requestPipeline_proceeds` for a
request, `buildEnded_proceeds` for the end of a build.
-/

namespace Strata

variable {α : Type} {G : Ledger α} [Channel α] [Stored α] [Transfer α]

/-- A pipeline that serves the text of a step's key computes the step's program. -/
theorem Ledger.Expects.arrives {text : String} {job : JobId} {index : Nat} {p : Pipeline}
    (h : G.Expects text (.step job index)) (hp : Cache.Serves text p) (e : Engine Int α) :
    e.Holds G (.arrives job index p) := by
  obtain ⟨o, l, ho, hl, rfl⟩ := h
  obtain ⟨key, ht, hn⟩ := hp
  exact ⟨o, l, ho, hl, hn.unique (l.key_names _) ht⟩

namespace Engine

variable {e : Engine Int α}

/-- The waiters of a request are answered with a pipeline for what they asked. -/
def Answers (G : Ledger α) (w : PipelineWaiter) (result : Except Failure Pipeline) : Prop :=
  ∀ p, result = .ok p → ∃ text, G.Expects text w ∧ Cache.Serves text p

theorem answer_proceeds (hs : e.Safe G) {w : PipelineWaiter} {result : Except Failure Pipeline}
    (hr : Answers G w result) : e.Proceeds G (e.answer w result) := by
  cases w with
  | lookup job =>
    refine settle_proceeds hs job fun n hn => ?_
    cases result with
    | error failure => exact absurd hn List.not_mem_nil
    | ok p => exact absurd hn List.not_mem_nil
  | step job index =>
    refine schedule_proceeds hs 1 fun n hn => ?_
    cases result with
    | error failure => exact absurd hn List.not_mem_nil
    | ok p =>
      rw [List.mem_singleton.mp hn]
      obtain ⟨text, hw, hp⟩ := hr p rfl
      exact hw.arrives hp e

theorem answerAll_proceeds (hs : e.Safe G) {answers : List (PipelineWaiter × Except Failure Pipeline)}
    (ha : ∀ x ∈ answers, Answers G x.1 x.2) : e.Proceeds G (e.answerAll answers) := by
  unfold answerAll
  induction answers generalizing e with
  | nil => exact .refl hs
  | cons x rest ih =>
    have hx := answer_proceeds hs (ha x (List.mem_cons_self ..))
    exact hx.trans (ih hx.safe fun y hy => ha y (List.mem_cons_of_mem _ hy))

omit [Transfer α] in
theorem setCache_change (hs : e.Safe G) {cache : Cache PipelineWaiter} {device : Device Int α}
    (hr : cache.Right G.Expects) (ha : e.cache.Ages cache) (hb : device.buffers = e.pool.device.buffers) :
    e.Change G { e with cache, pool := { e.pool with device } } :=
  .parts hs { e.pool with device } cache (hs.sound.setDevice hb) (by rw [hb]; exact .refl _) (.refl _)
    (fun _ => ⟨fun h => h.setDevice hb, fun _ h => h⟩) hr ha rfl rfl rfl rfl (Nat.le_refl _) (.inl rfl) id
    (List.Subset.refl _)

theorem setCache_proceeds (hs : e.Safe G) {cache : Cache PipelineWaiter} (hr : cache.Right G.Expects)
    (ha : e.cache.Ages cache) : e.Proceeds G { e with cache } :=
  (setCache_change hs hr ha rfl).proceeds hs fun _ hn => .inl hn

theorem schedule_buildEnded (hs : e.Safe G) {serial : Nat} {key : PipelineKey} (hb : e.cache.Builds serial key)
    (delay : Nat) {c : Cache PipelineWaiter} {d : Device Int α} :
    e.Proceeds G (e.schedule delay (.buildEnded serial (c.compiled d key))) := by
  refine schedule_proceeds hs delay fun n hn => ?_
  cases hresult : c.compiled d key with
  | error failure =>
    rw [hresult] at hn
    exact absurd hn List.not_mem_nil
  | ok a =>
    rw [hresult] at hn
    rw [List.mem_singleton.mp hn]
    exact hb.built hresult

theorem startBuild_proceeds (hs : e.Safe G) {serial : Nat} {key : PipelineKey} (hb : e.cache.Builds serial key) :
    e.Proceeds G (e.startBuild serial key) := by
  have hc := e.cache.compile_compiles e.pool.device key
  unfold startBuild
  generalize e.cache.compile e.pool.device key = r at hc
  obtain ⟨compilation, cache, device⟩ := r
  obtain ⟨hr, ha⟩ := hs.right.compiles hc
  have hbuilds := hb.later ha
  have hset : e.Proceeds G { e with cache, pool := { e.pool with device } } :=
    (setCache_change hs hr ha hc.buffers).proceeds hs fun _ hn => .inl hn
  cases compilation with
  | failed failure => exact hset.trans (schedule_proceeds hset.safe 1 fun n hn => absurd hn List.not_mem_nil)
  | refused failure => exact hset.trans (schedule_proceeds hset.safe 2 fun n hn => absurd hn List.not_mem_nil)
  | compiling gate =>
    cases gate with
    | none => exact hset.trans (schedule_buildEnded hset.safe hbuilds 2)
    | some gate =>
      refine hset.trans (.same hset.safe rfl rfl rfl rfl rfl rfl rfl rfl fun n hn => ?_)
      rcases mem_notes.mp hn with hn | hn | ⟨g, hg, hn⟩ | hn
      · exact .inl (mem_notes.mpr (.inl hn))
      · exact .inl (mem_notes.mpr (.inr (.inl hn)))
      · rcases List.mem_append.mp hg with hg | hg
        · exact .inl (mem_notes.mpr (.inr (.inr (.inl ⟨g, hg, hn⟩))))
        · rw [hn, List.mem_singleton.mp hg]
          exact .inr hbuilds
      · exact .inl (mem_notes.mpr (.inr (.inr (.inr hn))))

theorem requestPipeline_proceeds (hs : e.Safe G) {key : PipelineKey} {w : PipelineWaiter}
    (hw : G.Expects key.text w) :
    e.Proceeds G (e.requestPipeline key w).2 ∧
      ∀ result, (e.requestPipeline key w).1 = some result → Answers G w result := by
  obtain ⟨hr, ha, hready, hstart⟩ := hs.right.request hw
  unfold requestPipeline
  generalize e.cache.request key w = r at hr ha hready hstart
  obtain ⟨reply, cache⟩ := r
  have hset := setCache_proceeds hs hr ha
  cases reply with
  | refused failure =>
    refine ⟨hset, fun result he p hp => ?_⟩
    rw [← Option.some.inj he] at hp
    cases hp
  | ready pipeline =>
    refine ⟨hset, fun result he p hp => ?_⟩
    rw [← Option.some.inj he] at hp
    cases hp
    exact ⟨_, hw, hready _ rfl⟩
  | joined => exact ⟨hset, fun result he => by cases he⟩
  | started serial =>
    exact ⟨hset.trans (startBuild_proceeds hset.safe (hstart serial rfl)), fun result he => by cases he⟩

theorem lookupPipeline_proceeds (hs : e.Safe G) (key : PipelineKey) : e.Proceeds G (e.lookupPipeline key).2 := by
  have hadd := @addJob_proceeds _ _ _ _ _ _ hs .lookup (fun _ h => by cases h) fun _ h => by cases h
  unfold lookupPipeline
  obtain ⟨hreq, -⟩ := requestPipeline_proceeds (w := .lookup (e.addJob .lookup).1) hadd.safe trivial
  dsimp only
  generalize (e.addJob .lookup).2.requestPipeline key (.lookup (e.addJob .lookup).1) = r at hreq
  obtain ⟨reply, e'⟩ := r
  cases reply with
  | none => exact hadd.trans hreq
  | some result =>
    refine (hadd.trans hreq).trans (settle_proceeds hreq.safe _ fun n hn => ?_)
    cases result with
    | error failure => exact absurd hn List.not_mem_nil
    | ok p => exact absurd hn List.not_mem_nil

theorem buildUngated_proceeds (hs : e.Safe G) {serial : Nat} {key : PipelineKey} (hb : e.cache.Builds serial key) :
    e.Proceeds G (e.buildUngated serial key) := schedule_buildEnded hs hb 2

theorem buildEnded_proceeds (hs : e.Safe G) {serial : Nat} {result : Except Failure Artifact}
    (hb : ∀ a, result = .ok a → e.cache.Built serial a) : e.Proceeds G (e.buildEnded serial result) := by
  obtain ⟨hr, ha, hanswers⟩ := hs.right.finish hb
  unfold buildEnded
  generalize e.cache.finish serial result = r at hr ha hanswers
  obtain ⟨⟨answers, warning⟩, cache⟩ := r
  have hset := setCache_proceeds hs hr ha
  have hall {e' : Engine Int α} (h : e.Proceeds G e') : e.Proceeds G (e'.answerAll answers) := by
    refine h.trans (answerAll_proceeds h.safe fun x hx p hp => ?_)
    exact hanswers x.1 p (hp ▸ hx)
  cases warning with
  | none => exact hall hset
  | some w => exact hall (hset.trans (report_proceeds hset.safe _))

theorem closePipelines_proceeds (hs : e.Safe G) (closing : Closing) : e.Proceeds G (e.closePipelines closing) := by
  obtain ⟨hr, ha⟩ := hs.right.close closing
  unfold closePipelines
  generalize e.cache.close closing = r at hr ha
  obtain ⟨waiting, cache⟩ := r
  have hset := setCache_proceeds hs hr ha
  refine hset.trans (answerAll_proceeds hset.safe fun x hx p hp => ?_)
  obtain ⟨w, -, rfl⟩ := List.mem_map.mp hx
  cases hp

theorem openGate_proceeds (hs : e.Safe G) (hn : ∀ n ∈ e.notes, e.Holds G n) : e.Proceeds G e.openGate := by
  have hset : e.Proceeds G { e with
      gated := e.gated.filter (·.1 != e.pool.device.gates)
      pool := { e.pool with device := { e.pool.device with gate := none } } } := by
    refine ((@setDevice_proceeds _ _ _ _ _ _ hs { e.pool.device with gate := none } rfl).trans ?_)
    refine .same (@setDevice_proceeds _ _ _ _ _ _ hs { e.pool.device with gate := none } rfl).safe rfl rfl rfl
      rfl rfl rfl rfl
      rfl fun n hn => .inl ?_
    rcases mem_notes.mp hn with hn | hn | ⟨g, hg, hn⟩ | hn
    · exact mem_notes.mpr (.inl hn)
    · exact mem_notes.mpr (.inr (.inl hn))
    · exact mem_notes.mpr (.inr (.inr (.inl ⟨g, (List.mem_filter.mp hg).1, hn⟩)))
    · exact mem_notes.mpr (.inr (.inr (.inr hn)))
  have hopened : ∀ g ∈ e.gated.filter (·.1 == e.pool.device.gates), e.cache.Builds g.2.1 g.2.2 := fun g hg =>
    hn _ (mem_notes.mpr (.inr (.inr (.inl ⟨g, (List.mem_filter.mp hg).1, rfl⟩))))
  unfold openGate
  dsimp only
  generalize e.gated.filter (·.1 == e.pool.device.gates) = opened at hopened
  have hcache : ∀ g ∈ opened, Cache.Builds { e with
      gated := e.gated.filter (·.1 != e.pool.device.gates)
      pool := { e.pool with device := { e.pool.device with gate := none } } }.cache g.2.1 g.2.2 := hopened
  clear hopened
  generalize ({ e with
      gated := e.gated.filter (·.1 != e.pool.device.gates)
      pool := { e.pool with device := { e.pool.device with gate := none } } } : Engine Int α) = e' at hset hcache
  refine hset.trans ?_
  have hs' := hset.safe
  clear hset
  induction opened generalizing e' with
  | nil => exact .refl hs'
  | cons g opened ih =>
    have hstep := schedule_proceeds hs' 1 (t := .buildUngated g.2.1 g.2.2) fun n hn => by
      rw [List.mem_singleton.mp hn]
      exact hcache g (List.mem_cons_self ..)
    exact hstep.trans (ih _ (fun g hg => hcache g (List.mem_cons_of_mem _ hg)) hstep.safe)

end Engine

end Strata
