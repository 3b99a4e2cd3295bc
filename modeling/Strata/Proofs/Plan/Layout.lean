import Mathlib.Data.List.Chain
import Strata.Plan.Draft
import Strata.Proofs.Memory.Gains
import Strata.Proofs.Plan.Encoding

/-!
# What a made plan consists of

`Plan.Drawn` lists the stages of a plan that do something: the uploads of the sources and of the
parameter blocks, one dispatch for each step, the download. Consecutive results are in different working
images, no parameter block is one of them, and all are the plan's own. `emit_drawn` says that `emit` draws
such a plan and allocates what it owns; `emit_fails` that a failing one leaves every live handle live.
-/

namespace Strata

variable {ν α : Type} [Measure ν]

/-! ## Releasing -/

namespace Pool

theorem releaseLive_spec {p : Pool ν α} (hp : p.Sound) (handles : List Handle) :
    p.Leads (p.releaseLive handles).2 ∧
      (∀ k, k ∉ handles → p.arena.contains k = true → (p.releaseLive handles).2.arena.contains k = true) ∧
      (p.Destroys → (p.releaseLive handles).1 = .ok ()) := by
  unfold releaseLive
  induction handles generalizing p with
  | nil => exact ⟨.refl hp, fun _ _ h => h, fun _ => rfl⟩
  | cons h rest ih =>
    obtain ⟨hl, hk, hok⟩ := releaseIfLive_spec hp h
    unfold Attempt.each Attempt.andThen
    generalize p.releaseIfLive h = r at hl hk hok
    obtain ⟨r, p'⟩ := r
    cases r with
    | error e =>
      refine ⟨hl, fun k hn hc => (hk k).mpr ⟨hc, fun he => hn (he ▸ List.mem_cons_self ..)⟩, fun hd => ?_⟩
      cases hok hd
    | ok u =>
      obtain ⟨hl', hk', hok'⟩ := ih hl.sound
      refine ⟨hl.trans hl', fun k hn hc => ?_, fun hd => hok' (hl.destroys hd)⟩
      have hne : k ≠ h := fun he => hn (he ▸ List.mem_cons_self ..)
      exact hk' k (fun hr => hn (List.mem_cons_of_mem _ hr)) ((hk k).mpr ⟨hc, hne⟩)

end Pool

theorem forM_eq_ok {β ε : Type} {f : β → Except ε Unit} {l : List β} :
    l.forM f = .ok () ↔ ∀ x ∈ l, f x = .ok () := by
  induction l with
  | nil => exact ⟨fun _ x h => absurd h List.not_mem_nil, fun _ => rfl⟩
  | cons x xs ih =>
    show (f x >>= fun _ => xs.forM f) = .ok () ↔ _
    rw [List.forall_mem_cons, ← ih]
    cases f x with
    | error e => exact ⟨fun h => (by cases h), fun h => (by cases h.1)⟩
    | ok u => exact ⟨fun h => ⟨rfl, h⟩, fun h => h.2⟩

namespace Draft

open Engine.Encoder (works works_append)
open Pool (Grant Gains)

namespace Emission

/-! ## Growing -/

/-- An emission went on: what it allocated, and the stages it appended that do something. -/
structure Grows (e e' : Emission ν α) (grants : List (Grant ν)) (more : List (Stage ν α)) : Prop where
  gains : e.pool.Gains e'.pool grants
  owned : e'.owned = e.owned ++ grants.map (·.handle)
  works : works e'.stages = works e.stages ++ more

variable {e e' e'' : Emission ν α}

omit [Measure ν] in
theorem Grows.trans {gs gs' : List (Grant ν)} {ms ms' : List (Stage ν α)} (h : Grows e e' gs ms)
    (h' : Grows e' e'' gs' ms') : Grows e e'' (gs ++ gs') (ms ++ ms') :=
  ⟨h.gains.trans h'.gains, by rw [h'.owned, h.owned, List.map_append, List.append_assoc],
    by rw [h'.works, h.works, List.append_assoc]⟩

omit [Measure ν] in
theorem Grows.refl (hs : e.pool.Sound) : Grows e e [] [] := ⟨.refl hs, by simp, by simp⟩

omit [Measure ν] in
theorem Grows.of_stages {stages more : List (Stage ν α)} (hs : e.pool.Sound)
    (h : Engine.Encoder.works stages = Engine.Encoder.works e.stages ++ more) : Grows e { e with stages } [] more :=
  ⟨.refl hs, by simp, h⟩

omit [Measure ν] in
theorem works_push (e : Emission ν α) (stage : Stage ν α) :
    works (e.push stage).stages = works e.stages ++ works [stage] := by
  unfold push
  dsimp only
  split
  · rw [works_append]
    rfl
  · rw [works_append]

/-- What a slot for a purpose is allocated with. -/
def asked (purpose : AllocationPurpose) (width height : ν) : SlotFormat ν × ν :=
  match purpose with
  | .intermediate => (.image .storage .float32 width height, workingBytes width height)
  | .params => (.params, Measure.ofNat paramsSize)

/-- A slot is as it was asked for. -/
def Meets (asked : SlotFormat ν × ν) (g : Grant ν) : Prop :=
  g.format = asked.1 ∧ Measure.wholeWords? asked.2 = some g.size

/-! ## What allocations keep -/

section
variable {P : Pool ν α → Prop} {width height : ν} (hP : ∀ (pool : Pool ν α) (purpose : AllocationPurpose), P pool →
  P (pool.allocate (asked purpose width height).1 (asked purpose width height).2).2)
include hP

theorem allocate_keeps (h : P e.pool) (purpose : AllocationPurpose) :
    P (e.allocate purpose width height).2.pool := by
  have hnext := hP e.pool purpose h
  unfold allocate
  cases purpose
  all_goals exact Attempt.andThen_keeps (P := fun e' : Emission ν α => P e'.pool) hnext fun _ _ => hnext

theorem images_keeps (h : P e.pool) (count : Nat) (spare : List Handle) (previous : Option Handle) :
    P (images width height count spare previous e).2.pool := by
  induction count generalizing spare previous e with
  | zero => exact h
  | succ count ih =>
    cases spare with
    | cons handle spare =>
      exact Attempt.andThen_keeps (P := fun e' : Emission ν α => P e'.pool) (ih h _ _) fun _ _ => ih h _ _
    | nil =>
      have hone := allocate_keeps hP h .intermediate
      refine Attempt.andThen_keeps (P := fun e' : Emission ν α => P e'.pool) hone fun handle _ => ?_
      exact Attempt.andThen_keeps (P := fun e' : Emission ν α => P e'.pool) (ih hone _ _) fun _ _ => ih hone _ _

theorem paramBlocks_keeps [Stored α] (h : P e.pool) (steps : List (PlanStep ν α)) :
    P (paramBlocks width height steps e).2.pool := by
  induction steps generalizing e with
  | nil => exact h
  | cons step steps ih =>
    have hone := allocate_keeps hP h .params
    refine Attempt.andThen_keeps (P := fun e' : Emission ν α => P e'.pool) hone fun handle _ => ?_
    have hrest := ih (e := { (e.allocate .params width height).2 with stages :=
      (e.allocate .params width height).2.stages ++ [.upload handle (params width height step).pack] }) hone
    exact Attempt.andThen_keeps (P := fun e' : Emission ν α => P e'.pool) hrest fun _ _ => hrest

omit hP in
theorem dispatches_pool (width height : ν) :
    ∀ (index : Nat) (backdrop : Option Handle) (steps : List (PlanStep ν α))
    (pipelines : List Pipeline) (results blocks : List Handle) (e : Emission ν α),
    (dispatches width height index backdrop steps pipelines results blocks e).pool = e.pool
  | index, _, _ :: steps, _ :: pipelines, result :: results, _ :: blocks, e => by
    unfold dispatches
    exact dispatches_pool width height (index + 1) (some result) steps pipelines results blocks _
  | _, _, [], _, _, _, _ => rfl
  | _, _, _ :: _, [], _, _, _ => rfl
  | _, _, _ :: _, _ :: _, [], _, _ => rfl
  | _, _, _ :: _, _ :: _, _ :: _, [], _ => rfl

/-- Laying a plan out does no more to the pool than to allocate. -/
theorem layOut_keeps [Channel α] [Stored α] (draft : Draft ν α) (pipelines : List Pipeline) (h : P e.pool) :
    P (layOut draft pipelines width height e).2.pool := by
  unfold layOut
  dsimp only
  have himages := images_keeps
    (e := { e with stages := e.stages ++ draft.uploads.map fun u => .upload u.handle u.data })
    hP h draft.steps.length [] none
  refine Attempt.andThen_keeps (P := fun e' : Emission ν α => P e'.pool) himages fun results _ => ?_
  have hblocks := paramBlocks_keeps hP himages draft.steps
  refine Attempt.andThen_keeps (P := fun e' : Emission ν α => P e'.pool) hblocks fun blocks _ => ?_
  split
  all_goals
    show P (Emission.pool (dispatches ..))
    rw [dispatches_pool]
    exact hblocks

end

theorem allocate_grows (hs : e.pool.Sound) (purpose : AllocationPurpose) (width height : ν) :
    ∃ grants, Grows e (e.allocate purpose width height).2 grants [] ∧
      (∀ g ∈ grants, Meets (asked purpose width height) g) ∧
      ∀ k, (e.allocate purpose width height).1 = .ok k → grants.map (·.handle) = [k] := by
  obtain ⟨herr, hok⟩ := Pool.allocate_spec hs (asked purpose width height).1 (asked purpose width height).2
  have hunfold : e.allocate purpose width height =
      ((e.pool.allocate (asked purpose width height).1 (asked purpose width height).2).lift fun pool =>
        { e with pool }).andThen fun handle e => (.ok handle,
          { e with owned := e.owned ++ [handle], stages := e.stages ++ [.allocate handle purpose] }) := by
    unfold allocate asked
    cases purpose <;> rfl
  rw [hunfold]
  generalize e.pool.allocate (asked purpose width height).1 (asked purpose width height).2 = r at herr hok
  obtain ⟨r, pool⟩ := r
  cases r with
  | error failure =>
    refine ⟨[], ⟨.of_quiet (herr failure rfl), by
      simp [Attempt.lift, Attempt.andThen], by simp [Attempt.lift, Attempt.andThen]⟩,
      fun g hg => absurd hg List.not_mem_nil, fun k hk => by cases hk⟩
  | ok k =>
    obtain ⟨bytes, hb, ha⟩ := hok k rfl
    refine ⟨[⟨k, _, bytes⟩], ⟨.of_allocated ha, rfl, ?_⟩, fun g hg => ?_, fun k' hk' => ?_⟩
    · show works (e.stages ++ [_]) = _
      rw [works_append]
      rfl
    · rw [List.mem_singleton.mp hg]
      exact ⟨rfl, hb⟩
    · cases hk'
      rfl

/-! ## Working images -/

/-- Images are allocated; if that succeeds, the results of steps are in these or in old ones, no two in a row in the
same one. -/
def Lays (e : Emission ν α) (width height : ν) (count : Nat) (old : List Handle) (previous : Option Handle)
    (a : Attempt Failure (Emission ν α) (List Handle)) : Prop :=
  ∃ grants, Grows e a.2 grants [] ∧ (∀ g ∈ grants, Meets (asked .intermediate width height) g) ∧
    ∀ results, a.1 = .ok results → results.length = count ∧
      (∀ k ∈ results, k ∈ old ∨ k ∈ grants.map (·.handle)) ∧ (previous.toList ++ results).IsChain (· ≠ ·)

namespace Lays

variable {count : Nat} {old old' : List Handle} {previous : Option Handle} {width height : ν} {handle : Handle}
  {a : Attempt Failure (Emission ν α) (List Handle)}

/-- An image is chosen for a result, other than the one that the last result is in. -/
theorem cons (h : Lays e width height count old (some handle) a) (hold : handle ∈ old)
    (hne : previous ≠ some handle) :
    Lays e width height (count + 1) old previous (a.andThen fun results e => (.ok (handle :: results), e)) := by
  obtain ⟨grants, hg, hsize, hok⟩ := h
  obtain ⟨r, e'⟩ := a
  cases r with
  | error failure => exact ⟨grants, hg, hsize, fun _ h => by cases h⟩
  | ok results =>
    refine ⟨grants, hg, hsize, fun results' h => ?_⟩
    cases h
    obtain ⟨hlen, hmem, hchain⟩ := hok results rfl
    refine ⟨congrArg (· + 1) hlen, List.forall_mem_cons.mpr ⟨.inl hold, hmem⟩, ?_⟩
    cases previous with
    | none => exact hchain
    | some p => exact List.isChain_cons_cons.mpr ⟨fun heq => hne (congrArg some heq), hchain⟩

theorem grown {gs : List (Grant ν)} (h : Lays e' width height count old' previous a) (hg : Grows e e' gs [])
    (hsize : ∀ g ∈ gs, Meets (asked .intermediate width height) g)
    (hold : ∀ k ∈ old', k ∈ old ∨ k ∈ gs.map (·.handle)) : Lays e width height count old previous a := by
  obtain ⟨grants, hg', hsize', hok⟩ := h
  refine ⟨gs ++ grants, hg.trans hg', List.forall_mem_append.mpr ⟨hsize, hsize'⟩, fun results h => ?_⟩
  obtain ⟨hlen, hmem, hchain⟩ := hok results h
  refine ⟨hlen, fun k hk => ?_, hchain⟩
  rw [List.map_append, List.mem_append]
  rcases hmem k hk with hk | hk
  · exact (hold k hk).imp_right .inl
  · exact .inr (.inr hk)

end Lays

omit [Measure ν] in
theorem ne_of_nodup {previous : Option Handle} {handle : Handle} {l : List Handle}
    (h : (handle :: (previous.toList ++ l)).Nodup) : previous ≠ some handle := by
  rintro rfl
  simp at h

/-- No image receives a result while the dispatch that reads it is not laid out: `previous` holds the
last result, `spare` what nothing reads any more. -/
theorem images_lays {count : Nat} {spare : List Handle} {previous : Option Handle} {width height : ν}
    (hs : e.pool.Sound) (hn : (previous.toList ++ spare).Nodup)
    (hi : ∀ k ∈ previous.toList ++ spare, e.pool.arena.Issued k) :
    Lays e width height count (previous.toList ++ spare) previous (images width height count spare previous e) := by
  induction count generalizing spare previous e with
  | zero =>
    refine ⟨[], .refl hs, fun g hg => absurd hg List.not_mem_nil, fun results h => ?_⟩
    cases h
    refine ⟨rfl, fun k hk => absurd hk List.not_mem_nil, ?_⟩
    cases previous <;> simp
  | succ count ih =>
    cases spare with
    | cons handle spare =>
      -- a spare image is taken, and the one that held the last result becomes spare
      have hperm : (previous.toList ++ handle :: spare).Perm (handle :: (previous.toList ++ spare)) :=
        List.perm_middle
      have hn := hperm.nodup hn
      have hrest := @ih e (previous.toList ++ spare) (some handle) hs hn fun k hk => hi k (hperm.mem_iff.mpr hk)
      have hall := hrest.cons (List.mem_cons_self ..) (ne_of_nodup hn)
      exact hall.grown (.refl hs) (fun g hg => absurd hg List.not_mem_nil) fun k hk => .inl (hperm.mem_iff.mpr hk)
    | nil =>
      obtain ⟨gs, hg, hsize, hok⟩ := allocate_grows hs .intermediate width height
      unfold images
      generalize e.allocate .intermediate width height = r at hg hok
      obtain ⟨r, e'⟩ := r
      cases r with
      | error failure => exact ⟨gs, hg, hsize, fun _ h => by cases h⟩
      | ok handle =>
        obtain ⟨g, hgm, rfl⟩ := List.mem_map.mp (hok handle rfl ▸ List.mem_singleton_self handle)
        rw [List.append_nil] at hn hi ⊢
        -- nothing is spare: a new image, other than all that were issued
        have hfresh : g.handle ∉ previous.toList := fun h => hg.gains.fresh g hgm (hi _ h)
        have hn := List.nodup_cons.mpr ⟨hfresh, hn⟩
        have hlater (k : Handle) (hk : k ∈ g.handle :: previous.toList) : e'.pool.arena.Issued k := by
          rcases List.mem_cons.mp hk with rfl | hk
          · exact hg.gains.issued hgm
          · exact (hi k hk).later hg.gains.later
        have hrest := @ih e' previous.toList (some g.handle) hg.gains.sound hn hlater
        have hne : previous ≠ some g.handle := ne_of_nodup (l := []) (by rwa [List.append_nil])
        refine (hrest.cons (List.mem_cons_self ..) hne).grown hg hsize fun k hk => ?_
        rcases List.mem_cons.mp hk with rfl | hk
        · exact .inr (List.mem_map_of_mem hgm)
        · exact .inl hk

/-- The first result is in a new image, as all are that follow. -/
theorem images_grows {count : Nat} {width height : ν} (hs : e.pool.Sound) :
    Lays e width height count [] none (images width height count [] none e) :=
  images_lays hs List.nodup_nil fun _ hk => absurd hk List.not_mem_nil

/-! ## Parameter blocks -/

section
variable [Stored α]

def blockUploads (width height : ν) (steps : List (PlanStep ν α)) (blocks : List Handle) : List (Upload α) :=
  (steps.zip blocks).map fun (step, block) => ⟨block, (params width height step).pack⟩

theorem paramBlocks_grows {steps : List (PlanStep ν α)} {width height : ν} (hs : e.pool.Sound) :
    ∃ grants more, Grows e (paramBlocks width height steps e).2 grants more ∧
      (∀ g ∈ grants, Meets (asked .params width height) g) ∧
      ∀ blocks, (paramBlocks width height steps e).1 = .ok blocks →
        blocks.length = steps.length ∧ blocks = grants.map (·.handle) ∧
          more = (blockUploads width height steps blocks).map fun u => .upload u.handle u.data := by
  induction steps generalizing e with
  | nil =>
    refine ⟨[], [], .refl hs, fun g hg => absurd hg List.not_mem_nil, fun blocks h => ?_⟩
    cases h
    exact ⟨rfl, rfl, rfl⟩
  | cons step rest ih =>
    obtain ⟨gs, hg, hsize, hok⟩ := allocate_grows hs .params width height
    unfold paramBlocks
    generalize e.allocate .params width height = r at hg hok
    obtain ⟨r, e₁⟩ := r
    cases r with
    | error failure => exact ⟨gs, [], hg, hsize, fun _ h => by cases h⟩
    | ok handle =>
      have hgs := hok handle rfl
      have hup : Grows e₁ { e₁ with stages := e₁.stages ++ [.upload handle (params width height step).pack] } []
          [.upload handle (params width height step).pack] := .of_stages hg.gains.sound (works_append _ _)
      obtain ⟨grants, more, hg', hsize', hok'⟩ := ih hup.gains.sound
      have hall := (hg.trans hup).trans hg'
      dsimp only [Attempt.andThen]
      generalize paramBlocks width height rest
        { e₁ with stages := e₁.stages ++ [.upload handle (params width height step).pack] } = r at hall hok'
      obtain ⟨r, e₂⟩ := r
      have hsizes (g : Grant ν) (hx : g ∈ gs ++ [] ++ grants) : Meets (asked .params width height) g := by
        rw [List.append_nil] at hx
        exact (List.mem_append.mp hx).elim (hsize g) (hsize' g)
      cases r with
      | error failure => exact ⟨_, _, hall, hsizes, fun _ h => by cases h⟩
      | ok handles =>
        refine ⟨_, _, hall, hsizes, fun blocks h => ?_⟩
        cases h
        obtain ⟨hlen, hmap, hmore⟩ := hok' handles rfl
        refine ⟨by simp [hlen], by simp [hgs, hmap], ?_⟩
        rw [hmore]
        rfl

end

/-! ## Dispatches -/

def dispatchStages (width height : ν) : (index : Nat) → (backdrop : Option Handle) → List (PlanStep ν α) →
    List Pipeline → (results blocks : List Handle) → List (Stage ν α)
  | index, backdrop, step :: steps, pipeline :: pipelines, result :: results, block :: blocks =>
    dispatch width height index step pipeline backdrop result block ::
      dispatchStages width height (index + 1) (some result) steps pipelines results blocks
  | _, _, _, _, _, _ => []

theorem dispatches_eq (width height : ν) (index : Nat) (backdrop : Option Handle) (steps : List (PlanStep ν α))
    (pipelines : List Pipeline) (results blocks : List Handle) (e : Emission ν α) :
    dispatches width height index backdrop steps pipelines results blocks e =
      (dispatchStages width height index backdrop steps pipelines results blocks).foldl push e := by
  induction steps generalizing index backdrop pipelines results blocks e with
  | nil => rfl
  | cons step steps ih =>
    cases pipelines with
    | nil => rfl
    | cons pipeline pipelines =>
      cases results with
      | nil => rfl
      | cons result results =>
        cases blocks with
        | nil => rfl
        | cons block blocks => exact ih _ _ _ _ _ _

theorem works_dispatchStages (width height : ν) (index : Nat) (backdrop : Option Handle)
    (steps : List (PlanStep ν α)) (pipelines : List Pipeline) (results blocks : List Handle) :
    works (dispatchStages width height index backdrop steps pipelines results blocks) =
      dispatchStages width height index backdrop steps pipelines results blocks := by
  induction steps generalizing index backdrop pipelines results blocks with
  | nil => rfl
  | cons step steps ih =>
    cases pipelines with
    | nil => rfl
    | cons pipeline pipelines =>
      cases results with
      | nil => rfl
      | cons result results =>
        cases blocks with
        | nil => rfl
        | cons block blocks => exact congrArg (List.cons _) (ih _ _ _ _ _)

omit [Measure ν] in
theorem works_uploads (uploads : List (Upload α)) :
    works (uploads.map fun u => (.upload u.handle u.data : Stage ν α)) =
      uploads.map fun u => .upload u.handle u.data := by
  induction uploads with
  | nil => rfl
  | cons u us ih => exact congrArg (List.cons _) ih

omit [Measure ν] in
theorem push_all_grows {stages : List (Stage ν α)} (hs : e.pool.Sound) :
    Grows e (stages.foldl push e) [] (works stages) := by
  induction stages generalizing e with
  | nil => exact .refl hs
  | cons stage rest ih =>
    have hpush : Grows e (e.push stage) [] (works [stage]) := .of_stages hs (works_push e stage)
    have hall := hpush.trans (ih hpush.gains.sound)
    rw [← works_append] at hall
    exact hall

end Emission

/-! ## The plan -/

open Emission (blockUploads dispatchStages)

/-- A plan that carries out a draft over a canvas. -/
structure Drawn [Stored α] (draft : Draft ν α) (pipelines : List Pipeline) (width height : ν)
    (results blocks : List Handle) (last : Handle) (plan : Plan ν α) : Prop where
  stages : works plan.stages =
    (draft.uploads ++ blockUploads width height draft.steps blocks).map (fun u => .upload u.handle u.data) ++
      dispatchStages width height 0 none draft.steps pipelines results blocks ++
      [.download last draft.destination (workingBytes width height)]
  last : results.getLast? = some last
  resultCount : results.length = draft.steps.length
  blockCount : blocks.length = draft.steps.length
  chain : results.IsChain (· ≠ ·)
  nodup : blocks.Nodup
  apart : ∀ k ∈ results, k ∉ blocks
  owned : ∀ k, k ∈ results ∨ k ∈ blocks → k ∈ plan.owned
  size : plan.width = width ∧ plan.height = height
  outputLength : plan.outputLength = dataLength width height

/-- A pool after a plan was made: what the plan owns is new, and as large as it was asked to be. -/
structure Provided (width height : ν) (results blocks : List Handle) (plan : Plan ν α) (pool pool' : Pool ν α) :
    Prop where
  gains : ∃ grants, pool.Gains pool' grants ∧ plan.owned = grants.map (·.handle)
  results : ∀ k ∈ results, ∃ r, pool'.arena.resolve k = .ok r ∧
    Measure.wholeWords? (workingBytes width height) = some r.size ∧ r.format = .image .storage .float32 width height
  blocks : ∀ k ∈ blocks, ∃ r, pool'.arena.resolve k = .ok r ∧
    Measure.wholeWords? (Measure.ofNat paramsSize : ν) = some r.size

variable [Channel α] [Stored α]

namespace Emission

theorem layOut_ok {draft : Draft ν α} {pipelines : List Pipeline} {width height : ν} {pool : Pool ν α}
    {plan : Plan ν α} {e : Emission ν α} (h : layOut draft pipelines width height ⟨pool, [], []⟩ = (.ok plan, e)) :
    ∃ results e₁ blocks e₂ last,
      images width height draft.steps.length [] none
        ⟨pool, [], draft.uploads.map fun u => .upload u.handle u.data⟩ = (.ok results, e₁) ∧
      paramBlocks width height draft.steps e₁ = (.ok blocks, e₂) ∧ results.getLast? = some last ∧
      e = ((dispatchStages width height 0 none draft.steps pipelines results blocks).foldl push e₂).push
        (.download last draft.destination (workingBytes width height)) ∧
      plan = ⟨e.stages, e.owned, width, height, dataLength width height⟩ := by
  unfold layOut at h
  dsimp only at h
  rw [List.nil_append] at h
  generalize himages : images width height draft.steps.length [] none
    ⟨pool, [], draft.uploads.map fun u => .upload u.handle u.data⟩ = r at h
  obtain ⟨r, e₁⟩ := r
  cases r with
  | error failure => cases h
  | ok results =>
    dsimp only [Attempt.andThen] at h
    generalize hblocks : paramBlocks width height draft.steps e₁ = r at h
    obtain ⟨r, e₂⟩ := r
    cases r with
    | error failure => cases h
    | ok blocks =>
      dsimp only at h
      cases hl : results.getLast? with
      | none =>
        rw [hl] at h
        cases h
      | some last =>
        rw [hl] at h
        cases h
        refine ⟨results, e₁, blocks, e₂, last, rfl, hblocks, hl, ?_, rfl⟩
        rw [← dispatches_eq]

/-- However far a plan is laid out, slots are allocated and stages appended. -/
theorem layOut_grows {draft : Draft ν α} {pipelines : List Pipeline} {width height : ν} {pool : Pool ν α}
    (hs : pool.Sound) :
    ∃ grants more, Grows ⟨pool, [], []⟩ (layOut draft pipelines width height ⟨pool, [], []⟩).2 grants more := by
  unfold layOut
  have h₀ : Grows ⟨pool, [], []⟩ ⟨pool, [], [] ++ draft.uploads.map fun u => .upload u.handle u.data⟩ []
      (draft.uploads.map fun u => .upload u.handle u.data) :=
    .of_stages hs (by rw [List.nil_append, works_uploads]; rfl)
  obtain ⟨gs, h₁, -⟩ := @images_grows _ _ _ _ draft.steps.length width height h₀.gains.sound
  dsimp only
  generalize images width height draft.steps.length [] none
    ⟨pool, [], [] ++ draft.uploads.map fun u => .upload u.handle u.data⟩ = r at h₁
  obtain ⟨r, e₁⟩ := r
  cases r with
  | error failure => exact ⟨_, _, h₀.trans h₁⟩
  | ok results =>
    obtain ⟨gs', more, h₂, -⟩ := @paramBlocks_grows _ _ _ _ _ draft.steps width height h₁.gains.sound
    dsimp only [Attempt.andThen]
    generalize paramBlocks width height draft.steps e₁ = r at h₂
    obtain ⟨r, e₂⟩ := r
    cases r with
    | error failure => exact ⟨_, _, (h₀.trans h₁).trans h₂⟩
    | ok blocks =>
      have h₃ := @push_all_grows _ _ _ (dispatchStages width height 0 none draft.steps pipelines results blocks)
        h₂.gains.sound
      rw [← dispatches_eq] at h₃
      have hall := ((h₀.trans h₁).trans h₂).trans h₃
      dsimp only
      cases results.getLast? with
      | none => exact ⟨_, _, hall⟩
      | some last => exact ⟨_, _, hall.trans (.of_stages h₃.gains.sound (works_push _ _))⟩

theorem layOut_drawn {draft : Draft ν α} {pipelines : List Pipeline} {width height : ν} {pool : Pool ν α}
    {plan : Plan ν α} {e : Emission ν α} (hs : pool.Sound)
    (h : layOut draft pipelines width height ⟨pool, [], []⟩ = (.ok plan, e)) :
    ∃ results blocks last, draft.Drawn pipelines width height results blocks last plan ∧
      Provided width height results blocks plan pool e.pool := by
  obtain ⟨results, e₁, blocks, e₂, last, himages, hblocks, hl, rfl, rfl⟩ := layOut_ok h
  have h₀ : Grows ⟨pool, [], []⟩ ⟨pool, [], draft.uploads.map fun u => .upload u.handle u.data⟩ []
      (draft.uploads.map fun u => .upload u.handle u.data) := .of_stages hs (by rw [works_uploads]; rfl)
  obtain ⟨gs, h₁, hsize, hok⟩ := @images_grows _ _ _ _ draft.steps.length width height h₀.gains.sound
  rw [himages] at h₁ hok
  obtain ⟨hlen, hmem, hchain⟩ := hok results rfl
  obtain ⟨gs', more, h₂, hsize', hok'⟩ := @paramBlocks_grows _ _ _ _ _ draft.steps width height h₁.gains.sound
  rw [hblocks] at h₂ hok'
  obtain ⟨hlen', hnew, hmore⟩ := hok' blocks rfl
  have h₃ := @push_all_grows _ _ _ (dispatchStages width height 0 none draft.steps pipelines results blocks)
    h₂.gains.sound
  rw [works_dispatchStages] at h₃
  have h₄ : Grows _ (push _ (.download last draft.destination (workingBytes width height))) [] _ :=
    .of_stages h₃.gains.sound (works_push _ _)
  have hend := (((h₀.trans h₁).trans h₂).trans h₃).trans h₄
  -- the results are in images, the blocks are not, and both are among what was allocated
  have hgains := hend.gains
  have howned := hend.owned
  simp only [List.nil_append, List.append_nil] at hgains howned
  have hresults (k : Handle) (hk : k ∈ results) : k ∈ gs.map (·.handle) := (hmem k hk).resolve_left List.not_mem_nil
  have hnodup := hgains.nodup
  rw [List.map_append, List.nodup_append] at hnodup
  refine ⟨results, blocks, last, {
    stages := ?_
    last := hl
    resultCount := hlen
    blockCount := hlen'
    chain := hchain
    nodup := hnew ▸ hnodup.2.1
    apart := fun k hk hb => hnodup.2.2 k (hresults k hk) k (hnew ▸ hb) rfl
    owned := fun k hk => ?_
    size := ⟨rfl, rfl⟩
    outputLength := rfl }, {
    gains := ⟨gs ++ gs', hgains, howned⟩
    results := fun k hk => ?_
    blocks := fun k hk => ?_ }⟩
  · show works (Emission.stages _) = _
    rw [hend.works, hmore]
    simp [works]
  · show k ∈ Emission.owned _
    rw [howned, List.map_append, List.mem_append, ← hnew]
    exact hk.imp_left (hresults k)
  · obtain ⟨g, hg, rfl⟩ := List.mem_map.mp (hresults k hk)
    obtain ⟨b, hb⟩ := hgains.resolves g (List.mem_append_left _ hg)
    exact ⟨_, hb, (hsize g hg).2, (hsize g hg).1⟩
  · rw [hnew] at hk
    obtain ⟨g, hg, rfl⟩ := List.mem_map.mp hk
    obtain ⟨b, hb⟩ := hgains.resolves g (List.mem_append_right _ hg)
    exact ⟨_, hb, (hsize' g hg).2⟩

end Emission

/-- Making a plan that succeeds: the sources and the destination are live, and the plan carries the draft
out over the canvas that the destination declares. -/
theorem emit_drawn {draft : Draft ν α} {pipelines : List Pipeline} {pool pool' : Pool ν α} {plan : Plan ν α}
    (hs : pool.Sound) (h : draft.emit pipelines pool = (.ok plan, pool')) :
    ∃ r, pool.arena.resolve draft.destination = .ok r ∧ ∃ results blocks last,
      draft.Drawn pipelines r.format.width r.format.height results blocks last plan ∧
        Provided r.format.width r.format.height results blocks plan pool pool' := by
  unfold emit at h
  split at h
  · cases h
  · rename_i canvas hc
    have hdest : ∃ r, pool.arena.resolve draft.destination = .ok r ∧ r.format = canvas := by
      unfold recheck at hc
      cases ho : pool.arena.checkOpen with
      | error e => rw [ho] at hc; cases hc
      | ok u =>
        cases hd : pool.arena.resolve draft.destination with
        | error e => rw [ho, hd] at hc; cases hc
        | ok r =>
          refine ⟨r, rfl, ?_⟩
          rw [ho, hd] at hc
          simp only [bind, Except.bind] at hc
          split at hc
          · cases hc
          · cases hc
            rfl
    obtain ⟨r, hr, rfl⟩ := hdest
    refine ⟨r, hr, ?_⟩
    split at h
    · rename_i heq
      cases h
      exact Emission.layOut_drawn hs heq
    · have hok := Attempt.endWith_eq_ok (congrArg Prod.fst h)
      cases hok.1

theorem emit_fails {draft : Draft ν α} {pipelines : List Pipeline} {pool pool' : Pool ν α} {failure : Failure}
    (hs : pool.Sound) (h : draft.emit pipelines pool = (.error failure, pool')) :
    pool.Leads pool' ∧ ∀ k, pool.arena.contains k = true → pool'.arena.contains k = true := by
  unfold emit at h
  split at h
  · cases h
    exact ⟨.refl hs, fun _ h => h⟩
  · rename_i canvas hc
    have hl := @Emission.layOut_grows _ _ _ _ _ draft pipelines canvas.width canvas.height _ hs
    split at h
    · cases h
    · rename_i e heq
      rw [heq] at hl
      obtain ⟨grants, more, hg⟩ := hl
      obtain ⟨hrel, hkeep, -⟩ := Pool.releaseLive_spec hg.gains.sound e.owned
      have hp : pool' = (e.pool.releaseLive e.owned).2 := by
        rw [← Attempt.endWith_snd, h]
      rw [hp]
      refine ⟨hg.gains.toLeads.trans hrel, fun k hk => ?_⟩
      refine hkeep k (fun hmem => ?_) ((hg.gains.contains k).mpr (.inl hk))
      rw [hg.owned, List.nil_append] at hmem
      obtain ⟨g, hgm, rfl⟩ := List.mem_map.mp hmem
      exact hg.gains.fresh g hgm (Arena.issued_of_contains hk)

/-! ## Room -/

omit [Channel α] [Stored α] in
theorem Emission.allocate_complete {e : Emission Int α} {bytes : Nat} {rest : List Nat}
    {purpose : AllocationPurpose} {width height : Int} (hs : e.pool.Spacious (bytes :: rest))
    (hb : Measure.wholeWords? (Emission.asked purpose width height).2 = some bytes) :
    ∃ handle e', e.allocate purpose width height = (.ok handle, e') ∧ e'.pool.Spacious rest := by
  obtain ⟨handle, pool, h, hsp⟩ := hs.allocate (Emission.asked purpose width height).1 hb
  refine ⟨handle, ⟨pool, e.owned ++ [handle], e.stages ++ [.allocate handle purpose]⟩, ?_, hsp⟩
  unfold Emission.asked at h
  unfold Emission.allocate
  cases purpose with
  | intermediate =>
    dsimp only at h ⊢
    rw [h]
    rfl
  | params =>
    dsimp only at h ⊢
    rw [h]
    rfl

omit [Channel α] [Stored α] in
/-- Two working images are enough. -/
theorem Emission.images_complete {count bytes : Nat} {rest : List Nat} {spare : List Handle}
    {previous : Option Handle} {width height : Int} {e : Emission Int α}
    (hb : Measure.wholeWords? (workingBytes width height) = some bytes)
    (hs : e.pool.Spacious (List.replicate (min count (2 - (previous.toList ++ spare).length)) bytes ++ rest)) :
    ∃ results e', images width height count spare previous e = (.ok results, e') ∧ e'.pool.Spacious rest := by
  induction count generalizing spare previous e with
  | zero =>
    rw [Nat.zero_min] at hs
    exact ⟨[], e, rfl, hs⟩
  | succ count ih =>
    cases spare with
    | cons handle spare =>
      have hle : min count (2 - ((some handle).toList ++ (previous.toList ++ spare)).length) ≤
          min (count + 1) (2 - (previous.toList ++ handle :: spare).length) := by
        simp only [List.length_append, List.length_cons, Option.toList_some, List.length_nil]
        omega
      obtain ⟨d, hd⟩ := Nat.exists_eq_add_of_le' hle
      rw [hd, List.replicate_add, List.append_assoc] at hs
      obtain ⟨results, e', h, hsp⟩ := ih hs.of_append
      unfold images
      rw [h]
      exact ⟨_, _, rfl, hsp⟩
    | nil =>
      have hsplit : List.replicate (min (count + 1) (2 - (previous.toList ++ []).length)) bytes ++ rest =
          bytes :: (List.replicate (min count (2 - ((previous.toList ++ []).length + 1))) bytes ++ rest) := by
        have hlt : (previous.toList ++ []).length < 2 := by cases previous <;> simp
        have hmin : min (count + 1) (2 - (previous.toList ++ []).length) =
            min count (2 - ((previous.toList ++ []).length + 1)) + 1 := by omega
        rw [hmin, List.replicate_succ, List.cons_append]
      rw [hsplit] at hs
      obtain ⟨handle, e₁, h₁, hsp₁⟩ := @allocate_complete _ _ _ _ .intermediate _ _ hs hb
      obtain ⟨results, e', h, hsp⟩ := @ih previous.toList (some handle) e₁
        (by simpa [Nat.add_comm] using hsp₁)
      unfold images
      rw [h₁]
      dsimp only [Attempt.andThen]
      rw [h]
      exact ⟨_, _, rfl, hsp⟩

omit [Channel α] in
theorem Emission.paramBlocks_complete {rest : List Nat} {steps : List (PlanStep Int α)} {width height : Int}
    {e : Emission Int α} (hs : e.pool.Spacious (List.replicate steps.length paramsSize ++ rest)) :
    ∃ blocks e', paramBlocks width height steps e = (.ok blocks, e') ∧ e'.pool.Spacious rest := by
  induction steps generalizing e with
  | nil => exact ⟨[], e, rfl, hs⟩
  | cons step steps ih =>
    obtain ⟨handle, e₁, h₁, hsp₁⟩ := @allocate_complete _ _ _ _ .params _ _ hs
      (show Measure.wholeWords? (Measure.ofNat paramsSize : Int) = some paramsSize by decide)
    obtain ⟨blocks, e', h, hsp⟩ := ih
      (e := { e₁ with stages := e₁.stages ++ [.upload handle (params width height step).pack] }) hsp₁
    unfold paramBlocks
    rw [h₁]
    dsimp only [Attempt.andThen]
    rw [h]
    exact ⟨_, _, rfl, hsp⟩

/-- Bytes of the slots that a plan of so many steps allocates, in order. -/
def planSizes (count working : Nat) : List Nat :=
  List.replicate (min count 2) working ++ List.replicate count paramsSize

omit [Measure ν] [Channel α] [Stored α] in
theorem recheck_ok {draft : Draft ν α} {arena : Arena ν} {r : SlotRef ν} (ho : arena.checkOpen = .ok ())
    (hr : arena.resolve draft.destination = .ok r)
    (hs : ∀ step ∈ draft.steps, ∃ s, arena.resolve step.source = .ok s) : draft.recheck arena = .ok r.format := by
  have hall : (draft.steps.forM fun step => do
      let _ ← arena.resolve step.source
      return ()) = (.ok () : Except Failure Unit) := by
    refine forM_eq_ok.mpr fun step h => ?_
    obtain ⟨s, hs⟩ := hs step h
    rw [hs]
    rfl
  unfold recheck
  rw [ho, hr]
  show ((draft.steps.forM fun step => do
      let _ ← arena.resolve step.source
      return ()) >>= fun _ => pure r.format) = _
  rw [hall]
  rfl

theorem emit_complete {draft : Draft Int α} {pipelines : List Pipeline} {pool : Pool Int α} {r : SlotRef Int}
    {working : Nat} {rest : List Nat} (hr : pool.arena.resolve draft.destination = .ok r)
    (hsources : ∀ step ∈ draft.steps, pool.arena.contains step.source = true) (hp : pool.Sound)
    (hb : Measure.wholeWords? (workingBytes r.format.width r.format.height) = some working)
    (hn : draft.steps ≠ []) (hs : pool.Spacious (planSizes draft.steps.length working ++ rest)) :
    ∃ plan pool', draft.emit pipelines pool = (.ok plan, pool') ∧ pool'.Spacious rest := by
  have hcheck : draft.recheck pool.arena = .ok r.format := by
    refine recheck_ok ?_ hr fun step h => hp.resolve_of_contains (hsources step h)
    unfold Arena.checkOpen
    rw [hs.isOpen]
  unfold emit
  rw [hcheck]
  dsimp only
  unfold Emission.layOut
  unfold planSizes at hs
  rw [List.append_assoc] at hs
  obtain ⟨results, e₁, h₁, hsp₁⟩ := @Emission.images_complete _ _ _ _ [] none _ _
    ⟨pool, [], [] ++ draft.uploads.map fun u => .upload u.handle u.data⟩ hb hs
  obtain ⟨blocks, e₂, h₂, hsp₂⟩ := Emission.paramBlocks_complete hsp₁
  have hlen : results.length = draft.steps.length := by
    obtain ⟨_, -, -, hok⟩ := @Emission.images_grows _ _ _
      ⟨pool, [], [] ++ draft.uploads.map fun u => .upload u.handle u.data⟩ _ _ _ hp
    exact (hok results (by rw [h₁])).1
  dsimp only
  rw [h₁]
  dsimp only [Attempt.andThen]
  rw [h₂]
  dsimp only
  -- a draft with a step has a last result to download
  cases hl : results.getLast? with
  | none =>
    rw [List.getLast?_eq_none_iff] at hl
    rw [hl] at hlen
    exact absurd (List.length_eq_zero_iff.mp hlen.symm) hn
  | some last =>
    refine ⟨_, _, rfl, ?_⟩
    show (Emission.dispatches _ _ 0 none draft.steps pipelines results blocks e₂).pool.Spacious rest
    rw [Emission.dispatches_pool]
    exact hsp₂

end Draft

end Strata
