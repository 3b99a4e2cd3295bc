import Mathlib.Logic.Function.Basic
import Strata.Proofs.Plan.Layout

/-!
# Plans compute the fold

`Meaning` leaves open what a slot holds and what the kernels make of it. Run on a store that says what each slot
holds, a plan leaves in its destination the bottom layer copied and every later layer blended onto what is below
it (`emit_folds`). A working image is used again only once the dispatch that reads it is laid out, so the result
of one step is there for the next; two images are enough for any stack (`emit_intermediates`).
-/

namespace Strata

variable {ν α C : Type}

/-- What slots hold, under writing and under the kernels. -/
structure Meaning (α C : Type) where
  write : C → Block α → C
  /-- What a dispatch reads in a parameter block. -/
  told : C → Block α
  copy : (source : C) → (params : Block α) → C
  blend : Pipeline → (backdrop source : C) → (params : Block α) → C
  told_write : ∀ c data, data.size = paramsSize → told (write c data) = data

/-- A layer as it enters the fold: its pipeline, the contents of its source and what its dispatch is told. -/
structure Operand (α C : Type) where
  pipeline : Pipeline
  source : C
  params : Block α

namespace Meaning

variable (m : Meaning α C)

/-! ## Running stages on a store -/

/-- Only a copy runs without a backdrop. -/
def dispatch (pipeline : Pipeline) (backdrop : Option C) (source : C) (params : Block α) : Option C :=
  match backdrop with
  | some backdrop => some (m.blend pipeline backdrop source params)
  | none => if pipeline.bindings = .copy then some (m.copy source params) else none

/-- One stage. A dispatch that would write a slot it reads does not run. -/
def stage (store : Handle → C) : Stage ν α → Option (Handle → C)
  | .allocate .. | .barrier => some store
  | .upload handle data => some (Function.update store handle (m.write (store handle) data))
  | .dispatch _ pipeline b _ _ =>
    if b.result ∈ b.reads then none
    else (m.dispatch pipeline (b.backdrop.map store) (store b.source) (m.told (store b.params))).map
      (Function.update store b.result)
  | .download source destination _ => some (Function.update store destination (store source))

def stages (store : Handle → C) (ss : List (Stage ν α)) : Option (Handle → C) := ss.foldlM m.stage store

/-- What uploads, one after the other, leave in the slots. -/
def written (store : Handle → C) (uploads : List (Upload α)) : Handle → C :=
  uploads.foldl (fun store u => Function.update store u.handle (m.write (store u.handle) u.data)) store

/-- Layers blended onto a backdrop, the lowest first. -/
def blendAll (backdrop : C) (layers : List (Operand α C)) : C :=
  layers.foldl (fun acc o => m.blend o.pipeline acc o.source o.params) backdrop

/-- The bottom layer copied, the others blended onto it. -/
def fold : List (Operand α C) → Option C
  | [] => none
  | base :: above => some (m.blendAll (m.copy base.source base.params) above)

/-- What layers come to, over a backdrop if there is one. -/
def onto (backdrop : Option C) (layers : List (Operand α C)) : Option C :=
  match backdrop with
  | none => m.fold layers
  | some backdrop => some (m.blendAll backdrop layers)

theorem stages_append (store : Handle → C) (ss ts : List (Stage ν α)) :
    m.stages store (ss ++ ts) = (m.stages store ss).bind fun store => m.stages store ts := List.foldlM_append

theorem stages_cons (store : Handle → C) (s : Stage ν α) (ss : List (Stage ν α)) :
    m.stages store (s :: ss) = (m.stage store s).bind fun store => m.stages store ss := List.foldlM_cons

theorem stages_works (store : Handle → C) (ss : List (Stage ν α)) :
    m.stages store (Engine.Encoder.works ss) = m.stages store ss := by
  induction ss generalizing store with
  | nil => rfl
  | cons s ss ih =>
    cases s with
    | allocate | barrier => exact ih store
    | upload | dispatch | download =>
      show m.stages store (_ :: Engine.Encoder.works ss) = _
      rw [stages_cons, stages_cons]
      exact congrArg _ (funext ih)

theorem stages_uploads (store : Handle → C) (uploads : List (Upload α)) :
    m.stages store (uploads.map fun u => (.upload u.handle u.data : Stage ν α)) =
      some (m.written store uploads) := by
  induction uploads generalizing store with
  | nil => rfl
  | cons u uploads ih => exact ih _

theorem written_append (store : Handle → C) (us vs : List (Upload α)) :
    m.written store (us ++ vs) = m.written (m.written store us) vs := List.foldl_append

theorem written_of_not_mem {uploads : List (Upload α)} {k : Handle} (h : k ∉ uploads.map (·.handle))
    (store : Handle → C) : m.written store uploads k = store k := by
  induction uploads generalizing store with
  | nil => rfl
  | cons u uploads ih =>
    have hu : k ≠ u.handle := fun he => h (he ▸ List.mem_cons_self ..)
    have hrest : k ∉ uploads.map (·.handle) := fun hk => h (List.mem_cons_of_mem _ hk)
    exact (ih hrest _).trans (Function.update_of_ne hu _ _)

/-- What the first dispatch makes of its sources is what the others fold onto. -/
theorem onto_cons {backdrop : Option C} {pipeline : Pipeline} (source : C) (params : Block α)
    (hfirst : backdrop = none → pipeline.bindings = .copy) (above : List (Operand α C)) :
    ∃ c, m.dispatch pipeline backdrop source params = some c ∧
      m.onto backdrop (⟨pipeline, source, params⟩ :: above) = some (m.blendAll c above) := by
  cases backdrop with
  | none => exact ⟨_, if_pos (hfirst rfl), rfl⟩
  | some b => exact ⟨_, rfl, rfl⟩

end Meaning

open Draft.Emission (blockUploads dispatchStages params)
open Meaning

variable [Measure ν]

/-! ## Dispatches -/

section
variable [Stored α]

def Draft.operands (width height : ν) (contents : Handle → C) (steps : List (PlanStep ν α))
    (pipelines : List Pipeline) : List (Operand α C) :=
  (steps.zip pipelines).map fun (step, pipeline) =>
    ⟨pipeline, contents step.source, (params width height step).pack⟩

theorem Draft.operands_congr {width height : ν} {contents contents' : Handle → C} {steps : List (PlanStep ν α)}
    (h : ∀ step ∈ steps, contents step.source = contents' step.source) (pipelines : List Pipeline) :
    Draft.operands width height contents steps pipelines = Draft.operands width height contents' steps
    pipelines := by
  refine List.map_congr_left fun x hx => ?_
  have hx := h x.1 (List.of_mem_zip hx).1
  exact congrArg (Operand.mk x.2 · _) hx

theorem Draft.params_size (width height : ν) (step : PlanStep ν α) :
    (params width height step).pack.size = paramsSize :=
  rfl

theorem Meaning.told_blocks (m : Meaning α C) {width height : ν} {steps : List (PlanStep ν α)}
    {blocks : List Handle} (hn : blocks.Nodup) (store : Handle → C) :
    ∀ x ∈ steps.zip blocks,
      m.told (m.written store (blockUploads width height steps blocks) x.2) = (params width height x.1).pack := by
  induction steps generalizing blocks store with
  | nil => exact fun x hx => absurd hx List.not_mem_nil
  | cons step steps ih =>
    cases blocks with
    | nil => exact fun x hx => absurd hx List.not_mem_nil
    | cons block blocks =>
      obtain ⟨hnot, hn⟩ := List.nodup_cons.mp hn
      have hlater : block ∉ (blockUploads width height steps blocks).map (·.handle) := by
        intro h
        obtain ⟨u, hu, rfl⟩ := List.mem_map.mp h
        obtain ⟨x, hx, rfl⟩ := List.mem_map.mp hu
        exact hnot (List.of_mem_zip hx).2
      intro x hx
      rcases List.mem_cons.mp hx with rfl | hx
      · have hkept := m.written_of_not_mem hlater
          (Function.update store block (m.write (store block) (params width height step).pack))
        refine (congrArg m.told hkept).trans ?_
        rw [Function.update_self]
        exact m.told_write _ _ (Draft.params_size ..)
      · exact ih hn _ x hx

theorem Bindings.not_mem_reads {b : Bindings} {k : Handle} (hbackdrop : b.backdrop ≠ some k)
    (hsource : b.source ≠ k) (hparams : b.params ≠ k) : k ∉ b.reads := by
  intro h
  rcases List.mem_append.mp h with h | h
  · exact hbackdrop (Option.mem_toList.mp h)
  · rcases List.mem_cons.mp h with rfl | h
    · exact hsource rfl
    · exact hparams (List.mem_singleton.mp h).symm

theorem isChain_results {backdrop : Option Handle} {result : Handle} {results : List Handle}
    (h : (backdrop.toList ++ result :: results).IsChain (· ≠ ·)) :
    backdrop ≠ some result ∧ (result :: results).IsChain (· ≠ ·) := by
  cases backdrop with
  | none => exact ⟨nofun, h⟩
  | some b =>
    obtain ⟨hne, hrest⟩ := List.isChain_cons_cons.mp h
    exact ⟨fun heq => hne (Option.some.inj heq), hrest⟩

/-- Dispatches that write no slot which a later one reads, but for the result that it folds onto, come to the
fold over their sources. -/
theorem Meaning.stages_dispatchStages (m : Meaning α C) (width height : ν) (store : Handle → C) (index : Nat)
    (backdrop : Option Handle) {steps : List (PlanStep ν α)} {pipelines : List Pipeline}
    {results blocks : List Handle} (hp : pipelines.length = steps.length) (hr : results.length = steps.length)
    (hb : blocks.length = steps.length) (hchain : (backdrop.toList ++ results).IsChain (· ≠ ·))
    (hsources : ∀ step ∈ steps, step.source ∉ results) (hblocks : ∀ k ∈ results, k ∉ blocks)
    (htold : ∀ x ∈ steps.zip blocks, m.told (store x.2) = (params width height x.1).pack)
    (hfirst : backdrop = none → ∀ p, pipelines.head? = some p → p.bindings = .copy) :
    ∃ store', m.stages store (dispatchStages width height index backdrop steps pipelines results blocks) =
      some store' ∧
      ∀ last, (backdrop.toList ++ results).getLast? = some last →
        some (store' last) = m.onto (backdrop.map store) (Draft.operands width height store steps pipelines) := by
  induction steps generalizing pipelines results blocks backdrop store index with
  | nil =>
    obtain rfl := List.length_eq_zero_iff.mp hr
    refine ⟨store, rfl, fun last hlast => ?_⟩
    cases backdrop with
    | none => cases hlast
    | some b =>
      cases hlast
      rfl
  | cons step steps ih =>
    obtain ⟨pipeline, pipelines, rfl⟩ := List.exists_cons_of_length_eq_add_one hp
    obtain ⟨result, results, rfl⟩ := List.exists_cons_of_length_eq_add_one hr
    obtain ⟨block, blocks, rfl⟩ := List.exists_cons_of_length_eq_add_one hb
    obtain ⟨hblock, htold⟩ := List.forall_mem_cons.mp htold
    obtain ⟨hsource, hsources⟩ := List.forall_mem_cons.mp hsources
    obtain ⟨hresult, hblocks⟩ := List.forall_mem_cons.mp hblocks
    obtain ⟨hbackdrop, hnext⟩ := isChain_results hchain
    have hreads : result ∉ (⟨backdrop, step.source, result, block⟩ : Bindings).reads :=
      Bindings.not_mem_reads hbackdrop (List.ne_of_not_mem_cons hsource) fun h =>
        hresult (h ▸ List.mem_cons_self ..)
    obtain ⟨c, hc, hfold⟩ := @onto_cons _ _ m (backdrop.map store) pipeline (store step.source)
      (params width height step).pack
      (fun h => hfirst (Option.map_eq_none_iff.mp h) pipeline rfl)
        (Draft.operands width height store steps pipelines)
    rw [← (show m.told (store block) = (params width height step).pack from hblock)] at hc
    -- the later steps find their sources and blocks as they are now
    have hothers (s : PlanStep ν α) (hs : s ∈ steps) : s.source ≠ result := List.ne_of_not_mem_cons (hsources s hs)
    have hsame : Draft.operands width height (Function.update store result c) steps pipelines =
        Draft.operands width height store steps pipelines :=
      Draft.operands_congr (fun s hs => Function.update_of_ne (hothers s hs) _ _) pipelines
    obtain ⟨store', hstore', hlast⟩ := @ih (Function.update store result c) (index + 1)
      (some result) pipelines results blocks (Nat.succ.inj hp) (Nat.succ.inj hr) (Nat.succ.inj hb) hnext
      (fun s hs => List.not_mem_of_not_mem_cons (hsources s hs))
      (fun k hk => List.not_mem_of_not_mem_cons (hblocks k hk))
      (fun x hx => by
        have hne : x.2 ≠ result := fun h => hresult (List.mem_cons_of_mem _ (h ▸ (List.of_mem_zip hx).2))
        rw [Function.update_of_ne hne]
        exact htold x hx)
      (fun h => by cases h)
    refine ⟨store', ?_, fun last h => ?_⟩
    · rw [← hstore', dispatchStages, stages_cons]
      show Option.bind (if result ∈ _ then none else _) _ = _
      rw [if_neg hreads]
      dsimp only
      rw [hc]
      rfl
    · have h' : ((some result).toList ++ results).getLast? = some last := by
        cases backdrop with
        | none => exact h
        | some b => exact h
      rw [hlast last h', Option.map_some, Function.update_self, hsame]
      exact hfold.symm

/-! ## The plan -/

/-- A plan that carries a draft out computes the fold over its sources, as the uploads leave them. -/
theorem Draft.Drawn.folds {draft : Draft ν α} {pipelines : List Pipeline} {width height : ν}
    {results blocks : List Handle} {last : Handle} {plan : Plan ν α}
    (h : draft.Drawn pipelines width height results blocks last plan) (hp : pipelines.length = draft.steps.length)
    (hfirst : ∀ p, pipelines.head? = some p → p.bindings = .copy)
    (hsources : ∀ step ∈ draft.steps, step.source ∉ plan.owned) (m : Meaning α C) (store : Handle → C) :
    ∃ store', m.stages store plan.stages = some store' ∧ some (store' draft.destination) =
      m.fold (Draft.operands width height (m.written store draft.uploads) draft.steps pipelines) := by
  have hblocks : ∀ step ∈ draft.steps,
      step.source ∉ (blockUploads width height draft.steps blocks).map (·.handle) := by
    intro step hstep hmem
    obtain ⟨u, hu, he⟩ := List.mem_map.mp hmem
    obtain ⟨x, hx, rfl⟩ := List.mem_map.mp hu
    exact hsources step hstep (he ▸ h.owned _ (.inr (List.of_mem_zip hx).2))
  obtain ⟨store', hrun, hlast⟩ := m.stages_dispatchStages width height
    (m.written (m.written store draft.uploads) (blockUploads width height draft.steps blocks)) 0 none hp
    h.resultCount h.blockCount h.chain (fun step hstep hk => hsources step hstep (h.owned _ (.inl hk))) h.apart
    (m.told_blocks h.nodup _) fun _ => hfirst
  refine ⟨Function.update store' draft.destination (store' last), ?_, ?_⟩
  · rw [← m.stages_works, h.stages, stages_append, stages_append, stages_uploads, written_append]
    show Option.bind (m.stages _ _) _ = _
    rw [hrun]
    rfl
  · rw [Function.update_self]
    refine (hlast last h.last).trans (congrArg m.fold ?_)
    exact Draft.operands_congr (fun step hstep => m.written_of_not_mem (hblocks step hstep) _) pipelines

/-! ## Working images -/

def Stage.makesImage : Stage ν α → Bool
  | .allocate _ .intermediate => true
  | _ => false

def Stage.images (ss : List (Stage ν α)) : Nat := ss.countP Stage.makesImage

omit [Measure ν] [Stored α] in
theorem Stage.images_append (ss ts : List (Stage ν α)) : images (ss ++ ts) = images ss + images ts :=
  List.countP_append

namespace Draft.Emission

variable {e : Emission ν α}

omit [Stored α] in
theorem allocate_images (e : Emission ν α) (purpose : AllocationPurpose) (width height : ν) :
    Stage.images (e.allocate purpose width height).2.stages ≤
      Stage.images e.stages + (if purpose = .intermediate then 1 else 0) := by
  have hcase (format : SlotFormat ν) (size : ν) : Stage.images
      (((e.pool.allocate format size).lift fun pool => { e with pool }).andThen fun handle (e : Emission ν α) =>
        ((.ok handle : Except Failure Handle),
          { e with owned := e.owned ++ [handle], stages := e.stages ++ [.allocate handle purpose] })).2.stages ≤
      Stage.images e.stages + (if purpose = .intermediate then 1 else 0) := by
    generalize e.pool.allocate format size = r
    obtain ⟨r, pool⟩ := r
    cases r with
    | error failure => exact Nat.le_add_right ..
    | ok handle =>
      show Stage.images (e.stages ++ [.allocate handle purpose]) ≤ _
      rw [Stage.images_append]
      cases purpose <;> exact Nat.le_refl _
  cases purpose <;> exact hcase _ _

omit [Stored α] in
/-- Two working images are enough: `previous` and `spare` are those there are. -/
theorem images_images {count : Nat} {spare : List Handle} {previous : Option Handle} {width height : ν}
    (h : (previous.toList ++ spare).length ≤ 2) :
    Stage.images (images width height count spare previous e).2.stages + (previous.toList ++ spare).length ≤
      Stage.images e.stages + 2 := by
  induction count generalizing spare previous e with
  | zero => exact Nat.add_le_add_left h _
  | succ count ih =>
    -- whichever image is chosen, two are in turn from then on
    have next {handle : Handle} {spare : List Handle} {e : Emission ν α}
        (h : (handle :: (previous.toList ++ spare)).length ≤ 2) :
        Stage.images ((images width height count (previous.toList ++ spare) (some handle) e).andThen
          fun results e => (Except.ok (handle :: results), e)).2.stages +
            (handle :: (previous.toList ++ spare)).length ≤
            Stage.images e.stages + 2 := by
      have hih := @ih e (previous.toList ++ spare) (some handle) h
      generalize images width height count (previous.toList ++ spare) (some handle) e = r at hih
      obtain ⟨r, e'⟩ := r
      cases r <;> exact hih
    cases spare with
    | cons handle spare =>
      have hlen : (handle :: (previous.toList ++ spare)).length = (previous.toList ++ handle :: spare).length :=
        (List.perm_middle.length_eq).symm
      rw [← hlen] at h ⊢
      exact next h
    | nil =>
      have hlt : (previous.toList ++ []).length < 2 := by cases previous <;> simp
      have halloc := allocate_images e .intermediate width height
      unfold images
      generalize e.allocate .intermediate width height = r at halloc
      obtain ⟨r, e₁⟩ := r
      rw [if_pos rfl] at halloc
      dsimp only at halloc
      cases r with
      | error failure =>
        show Stage.images e₁.stages + _ ≤ _
        omega
      | ok handle =>
        have hnext := @next handle [] e₁ hlt
        simp only [List.append_nil, List.length_cons] at hnext ⊢
        exact Nat.le_of_succ_le_succ (Nat.le_trans hnext (Nat.add_le_add_right halloc 2))

theorem paramBlocks_images (steps : List (PlanStep ν α)) (width height : ν) (e : Emission ν α) :
    Stage.images (paramBlocks width height steps e).2.stages ≤ Stage.images e.stages := by
  induction steps generalizing e with
  | nil => exact Nat.le_refl _
  | cons step rest ih =>
    have halloc := allocate_images e .params width height
    rw [if_neg (by decide)] at halloc
    unfold paramBlocks
    generalize e.allocate .params width height = r at halloc
    obtain ⟨r, e₁⟩ := r
    cases r with
    | error failure => exact halloc
    | ok handle =>
      have hup : Stage.images (e₁.stages ++ [.upload handle (params width height step).pack]) =
          Stage.images e₁.stages :=
        Stage.images_append ..
      have hrest := ih { e₁ with stages := e₁.stages ++ [.upload handle (params width height step).pack] }
      dsimp only [Attempt.andThen] at hrest ⊢
      generalize paramBlocks width height rest
        { e₁ with stages := e₁.stages ++ [.upload handle (params width height step).pack] } = r at hrest
      obtain ⟨r, e₂⟩ := r
      rw [hup] at hrest
      cases r <;> exact Nat.le_trans hrest halloc

omit [Measure ν] [Stored α] in
theorem push_images {stage : Stage ν α} (h : stage.makesImage = false) (e : Emission ν α) :
    Stage.images (e.push stage).stages = Stage.images e.stages := by
  have hstage : Stage.images [stage] = 0 := List.countP_eq_zero.mpr fun s hs => by
    rw [List.mem_singleton.mp hs, h]
    exact Bool.false_ne_true
  unfold push
  dsimp only
  rw [Stage.images_append]
  split
  · show _ + Stage.images ([.barrier] ++ [stage]) = _
    rw [Stage.images_append, hstage]
    rfl
  · rw [hstage]
    rfl

omit [Stored α] in
/-- What a stage of some dispatches is, and where its result goes. -/
theorem mem_dispatchStages {width height : ν} {index : Nat} {backdrop : Option Handle} {steps : List (PlanStep ν α)}
    {pipelines : List Pipeline} {results blocks : List Handle} {s : Stage ν α}
    (h : s ∈ dispatchStages width height index backdrop steps pipelines results blocks) :
    ∃ label pipeline b x y, s = .dispatch label pipeline b x y ∧ b.result ∈ results := by
  induction steps generalizing index backdrop pipelines results blocks with
  | nil => exact absurd h List.not_mem_nil
  | cons step steps ih =>
    cases pipelines with
    | nil => exact absurd h List.not_mem_nil
    | cons pipeline pipelines =>
      cases results with
      | nil => exact absurd h List.not_mem_nil
      | cons result results =>
        cases blocks with
        | nil => exact absurd h List.not_mem_nil
        | cons block blocks =>
          rcases List.mem_cons.mp h with rfl | h
          · exact ⟨_, _, _, _, _, rfl, List.mem_cons_self ..⟩
          · obtain ⟨label, pipeline, b, x, y, hs, hb⟩ := ih h
            exact ⟨label, pipeline, b, x, y, hs, List.mem_cons_of_mem _ hb⟩

omit [Stored α] in
theorem dispatches_images (width height : ν) (index : Nat) (backdrop : Option Handle) (steps : List (PlanStep ν α))
    (pipelines : List Pipeline) (results blocks : List Handle) (e : Emission ν α) :
    Stage.images (dispatches width height index backdrop steps pipelines results blocks e).stages =
      Stage.images e.stages := by
  rw [dispatches_eq]
  have hall : ∀ s ∈ dispatchStages width height index backdrop steps pipelines results blocks,
      s.makesImage = false := by
    intro s hs
    obtain ⟨_, _, _, _, _, rfl, -⟩ := mem_dispatchStages hs
    rfl
  generalize dispatchStages width height index backdrop steps pipelines results blocks = ss at hall
  induction ss generalizing e with
  | nil => rfl
  | cons s ss ih =>
    exact (ih _ fun t ht => hall t (List.mem_cons_of_mem _ ht)).trans
      (push_images (hall s (List.mem_cons_self ..)) e)

theorem layOut_images [Channel α] (draft : Draft ν α) (pipelines : List Pipeline) (width height : ν)
    (pool : Pool ν α) {plan : Plan ν α} {e : Emission ν α}
    (h : layOut draft pipelines width height ⟨pool, [], []⟩ = (.ok plan, e)) : Stage.images plan.stages ≤ 2 := by
  have huploads : Stage.images ([] ++ draft.uploads.map fun u => (.upload u.handle u.data : Stage ν α)) = 0 := by
    rw [List.nil_append]
    refine List.countP_eq_zero.mpr fun s hs => ?_
    obtain ⟨u, -, rfl⟩ := List.mem_map.mp hs
    exact Bool.false_ne_true
  unfold layOut at h
  have himages := @images_images _ _ _
    ⟨pool, [], [] ++ draft.uploads.map fun u => .upload u.handle u.data⟩ draft.steps.length [] none width height
    (Nat.zero_le 2)
  dsimp only at h himages
  generalize images width height draft.steps.length [] none
    ⟨pool, [], [] ++ draft.uploads.map fun u => .upload u.handle u.data⟩ = r at h himages
  obtain ⟨r, e₁⟩ := r
  rw [huploads] at himages
  cases r with
  | error failure => cases h
  | ok results =>
    have hblocks := paramBlocks_images draft.steps width height e₁
    dsimp only [Attempt.andThen] at h
    generalize paramBlocks width height draft.steps e₁ = r at h hblocks
    obtain ⟨r, e₂⟩ := r
    cases r with
    | error failure => cases h
    | ok blocks =>
      dsimp only at h
      cases hl : results.getLast? with
      | none =>
        rw [hl] at h
        cases h
      | some last =>
        rw [hl] at h
        cases h
        dsimp only
        rw [push_images rfl, dispatches_images]
        exact Nat.le_trans hblocks himages

end Draft.Emission

namespace Draft

/-- A plan is made only while its sources are live. -/
theorem emit_sources {draft : Draft ν α} [Channel α] {pipelines : List Pipeline} {pool pool' : Pool ν α}
    {plan : Plan ν α} (h : draft.emit pipelines pool = (.ok plan, pool')) :
    ∀ step ∈ draft.steps, pool.arena.contains step.source = true := by
  have hcheck : ∃ canvas, draft.recheck pool.arena = .ok canvas := by
    unfold emit at h
    split at h
    · cases h
    · exact ⟨_, ‹_›⟩
  obtain ⟨canvas, hcheck⟩ := hcheck
  unfold recheck at hcheck
  cases ho : pool.arena.checkOpen with
  | error failure =>
    rw [ho] at hcheck
    cases hcheck
  | ok u =>
    cases hd : pool.arena.resolve draft.destination with
    | error failure =>
      rw [ho, hd] at hcheck
      cases hcheck
    | ok r =>
      rw [ho, hd] at hcheck
      have hall : (draft.steps.forM fun step => do
          let _ ← pool.arena.resolve step.source
          return ()) = (.ok () : Except Failure Unit) := by
        generalize (draft.steps.forM fun step => do
          let _ ← pool.arena.resolve step.source
          return ()) = r' at hcheck
        cases r' with
        | error failure => cases hcheck
        | ok u => rfl
      intro step hstep
      have hstep := forM_eq_ok.mp hall step hstep
      cases hr : pool.arena.resolve step.source with
      | error failure =>
        rw [hr] at hstep
        cases hstep
      | ok s => exact Arena.contains_of_resolve hr

/-- A plan as the fold asks for it. -/
structure Folds (draft : Draft ν α) (pipelines : List Pipeline) (width height : ν) (plan : Plan ν α) : Prop where
  folds : ∀ {C : Type} (m : Meaning α C) (store : Handle → C), ∃ store', m.stages store plan.stages = some store' ∧
    some (store' draft.destination) =
      m.fold (operands width height (m.written store draft.uploads) draft.steps pipelines)
  images : Stage.images plan.stages ≤ 2
  spared : ∀ label pipeline b x y, Stage.dispatch label pipeline b x y ∈ plan.stages →
    ∀ step ∈ draft.steps, b.result ≠ step.source

theorem emit_folds [Channel α] {draft : Draft ν α} {pipelines : List Pipeline} {pool pool' : Pool ν α}
    {plan : Plan ν α} (hs : pool.Sound) (h : draft.emit pipelines pool = (.ok plan, pool'))
    (hp : pipelines.length = draft.steps.length) (hfirst : ∀ p, pipelines.head? = some p → p.bindings = .copy) :
    ∃ r, pool.arena.resolve draft.destination = .ok r ∧
    draft.Folds pipelines r.format.width r.format.height plan := by
  obtain ⟨r, hr, results, blocks, last, hdrawn, hprovided⟩ := emit_drawn hs h
  obtain ⟨grants, hgains, howned⟩ := hprovided.gains
  have hlive := emit_sources h
  have hsources : ∀ step ∈ draft.steps, step.source ∉ plan.owned := by
    intro step hstep hmem
    rw [howned] at hmem
    obtain ⟨g, hg, he⟩ := List.mem_map.mp hmem
    exact hgains.fresh g hg (he ▸ Arena.issued_of_contains (hlive step hstep))
  refine ⟨r, hr, fun m store => hdrawn.folds hp hfirst hsources m store, ?_,
    fun label pipeline b x y hmem step hstep he => ?_⟩
  · unfold emit at h
    split at h
    · cases h
    · split at h
      · rename_i heq
        cases h
        exact Emission.layOut_images _ _ _ _ _ heq
      · cases (Attempt.endWith_eq_ok (congrArg Prod.fst h)).1
  · have hworks : Stage.dispatch label pipeline b x y ∈ Engine.Encoder.works plan.stages :=
      List.mem_filter.mpr ⟨hmem, rfl⟩
    rw [hdrawn.stages] at hworks
    rcases List.mem_append.mp hworks with hworks | hworks
    · rcases List.mem_append.mp hworks with hworks | hworks
      · obtain ⟨u, -, hu⟩ := List.mem_map.mp hworks
        cases hu
      · obtain ⟨_, _, _, _, _, heq, hb⟩ := Emission.mem_dispatchStages hworks
        cases heq
        exact hsources step hstep (he ▸ hdrawn.owned _ (.inl hb))
    · cases List.mem_singleton.mp hworks

end Draft

end

/-! ## Stacks and their steps -/

/-- What a layer of a stack asks of the library, over a source of some format. -/
def BlendDescriptor.key (d : BlendDescriptor ν α) (index : Nat) (format : String) : PipelineKey :=
  ⟨if index = 0 then copyMode else d.mode, d.space, format⟩

def BlendDescriptor.params (d : BlendDescriptor ν α) (width height : ν) : DispatchParams ν α :=
  let placement := d.placement.getD (.ofSize width height)
  ⟨width, height, d.opacity, placement.x, placement.y, placement.width, placement.height⟩

def Meaning.layers [Stored α] (contents : Handle → C) (width height : ν) (stack : List (BlendDescriptor ν α))
    (pipelines : List Pipeline) : List (Operand α C) :=
  (stack.zip pipelines).map fun (d, pipeline) => ⟨pipeline, contents d.source, (d.params width height).pack⟩

namespace Draft

/-- A step carries out a layer, and the library has a program for it. -/
def Follows (arena : Arena ν) (library : Library) (width height : ν) (index : Nat) (d : BlendDescriptor ν α)
    (step : PlanStep ν α) : Prop :=
  ∃ r format, arena.resolve d.source = .ok r ∧ r.format.pixels = some format ∧
    step = ⟨d.source, d.key index format, d.placement.getD (.ofSize width height), d.opacity⟩ ∧
      (library.resolve step.key).isSome = true

/-- The steps of a stack that passed its checks. -/
def StepsOf (arena : Arena ν) (library : Library) (width height : ν) (index : Nat)
    (stack : List (BlendDescriptor ν α)) (steps : List (PlanStep ν α)) : Prop :=
  steps.length = stack.length ∧ ∀ (i : Nat) d step, stack[i]? = some d → steps[i]? = some step →
    Follows arena library width height (index + i) d step

theorem checkStep_follows {arena : Arena ν} {capabilities : Capabilities ν} {destination : Handle}
    {width height : ν} {index : Nat} {d : BlendDescriptor ν α} {step : PlanStep ν α}
    (h : checkStep arena capabilities destination width height index d = .ok step) :
    ∃ r format, arena.resolve d.source = .ok r ∧ r.format.pixels = some format ∧
      step = ⟨d.source, d.key index format, d.placement.getD (.ofSize width height), d.opacity⟩ := by
  unfold checkStep at h
  simp only [bind, Except.bind, pure, Except.pure, throw, throwThe, MonadExceptOf.throw] at h
  split at h
  · cases h
  · cases hr : arena.resolve d.source with
    | error failure =>
      rw [hr] at h
      cases h
    | ok r =>
      rw [hr] at h
      dsimp only at h
      cases hf : r.format.pixels with
      | none =>
        rw [hf] at h
        cases h
      | some format =>
        rw [hf] at h
        dsimp only at h
        refine ⟨r, format, rfl, hf, ?_⟩
        split at h
        · cases h
        · split at h
          · cases h
          · split at h
            · cases h
            · split at h
              · cases h
              · split at h
                · cases h
                · exact (Except.ok.inj h).symm

theorem checkSteps_follow {arena : Arena ν} {capabilities : Capabilities ν} {destination : Handle}
    {width height : ν} {index : Nat} {stack : List (BlendDescriptor ν α)} {steps : List (PlanStep ν α)}
    {library : Library} (h : checkSteps arena capabilities destination width height index stack = .ok steps)
    (hl : ∀ step ∈ steps, (library.resolve step.key).isSome = true) :
    StepsOf arena library width height index stack steps := by
  induction stack generalizing index steps with
  | nil =>
    cases h
    exact ⟨rfl, fun i d step hd => by cases hd⟩
  | cons d stack ih =>
    unfold checkSteps at h
    simp only [bind, Except.bind, pure, Except.pure] at h
    split at h
    · cases h
    · rename_i step hstep
      split at h
      · cases h
      · rename_i rest hrest
        cases h
        obtain ⟨hlen, hall⟩ := ih hrest fun s hs => hl s (List.mem_cons_of_mem _ hs)
        refine ⟨congrArg (· + 1) hlen, fun i d' step' hd hs => ?_⟩
        cases i with
        | zero =>
          cases hd
          cases hs
          obtain ⟨r, format, hr, hf, heq⟩ := checkStep_follows hstep
          exact ⟨r, format, hr, hf, heq, hl _ (List.mem_cons_self ..)⟩
        | succ i =>
          have hnext := hall i d' step' hd hs
          rwa [Nat.add_right_comm] at hnext

/-- What a checked stack comes to. -/
structure Reads (arena : Arena ν) (library : Library) (stack : List (BlendDescriptor ν α))
    (uploads : List (Upload α)) (draft : Draft ν α) (base : BlendDescriptor ν α) (r : SlotRef ν) : Prop where
  head : stack.head? = some base
  destination : draft.destination = base.destination
  resolves : arena.resolve base.destination = .ok r
  uploads : draft.uploads = uploads
  steps : StepsOf arena library r.format.width r.format.height 0 stack draft.steps

theorem check_reads {arena : Arena ν} {capabilities : Capabilities ν} {library : Library}
    {stack : List (BlendDescriptor ν α)} {uploads : List (Upload α)} {draft : Draft ν α}
    (h : check arena capabilities library stack uploads = .ok draft) :
    ∃ base r, Reads arena library stack uploads draft base r := by
  unfold check at h
  cases stack with
  | nil =>
    cases ho : arena.checkOpen with
    | error failure =>
      rw [ho] at h
      cases h
    | ok u =>
      rw [ho] at h
      cases h
  | cons base above =>
    simp only [List.head?_cons, bind, Except.bind, pure, Except.pure] at h
    -- each check that fails refuses the stack; what is left has passed them all
    split at h
    · cases h
    · split at h
      · cases h
      · rename_i r hr
        split at h
        · cases h
        · rename_i steps hsteps
          split at h
          · cases h
          · split at h
            · cases h
            · rename_i hlib
              cases h
              refine ⟨base, r, rfl, rfl, ?_, rfl, checkSteps_follow hsteps fun step hstep => ?_⟩
              · unfold checkDestination at hr
                cases hd : arena.resolve base.destination with
                | error failure =>
                  rw [hd] at hr
                  cases hr
                | ok r' =>
                  rw [hd] at hr
                  simp only [bind, Except.bind, pure, Except.pure, throw, throwThe, MonadExceptOf.throw] at hr
                  repeat' split at hr
                  all_goals cases hr
                  rfl
              · have hkey := forM_eq_ok.mp hlib step hstep
                cases hk : library.resolve step.key with
                | some a => rfl
                | none =>
                  rw [hk] at hkey
                  cases hkey

theorem StepsOf.operands_eq [Stored α] {arena : Arena ν} {library : Library} {width height : ν} {index : Nat}
    {stack : List (BlendDescriptor ν α)} {steps : List (PlanStep ν α)}
    (h : StepsOf arena library width height index stack steps) (contents : Handle → C) (pipelines : List Pipeline) :
    operands width height contents steps pipelines = Meaning.layers contents width height stack pipelines := by
  obtain ⟨hlen, hall⟩ := h
  induction stack generalizing index steps pipelines with
  | nil =>
    rw [List.length_eq_zero_iff.mp hlen]
    rfl
  | cons d stack ih =>
    obtain ⟨step, steps, rfl⟩ := List.exists_cons_of_length_eq_add_one hlen
    cases pipelines with
    | nil => rfl
    | cons pipeline pipelines =>
      obtain ⟨r, format, -, -, rfl, -⟩ := hall 0 d step rfl rfl
      refine congrArg (List.cons _) (@ih (index + 1) steps pipelines (Nat.succ.inj hlen) fun i d' step' hd hs => ?_)
      have hnext := hall (i + 1) d' step' hd hs
      rwa [← Nat.add_assoc, Nat.add_right_comm] at hnext

end Draft

end Strata
