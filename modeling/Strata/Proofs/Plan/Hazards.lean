import Strata.Proofs.Engine.Plans
import Strata.Proofs.Plan.Bindings

/-!
# Plans are free of hazards

A barrier is laid out only where a stage reads what the stage right before it writes. As every dispatch reads the
result of the one before, and the download that of the last, this puts a barrier between any two of them
(`Stage.Spaced`), whatever images are used again. Recorded stages that are spaced are in passes of their own
(`log_spaced`), and the copy follows when the last pass has ended.
-/

namespace Strata

variable {ν α : Type}

/-! ## Spaced stages -/

namespace Stage

def records : Stage ν α → Bool
  | .dispatch .. | .download .. => true
  | _ => false

/-- Whether a stage records a command or separates commands. -/
def marks : Stage ν α → Bool
  | .barrier => true
  | s => s.records

/-- No two recording stages follow one another without a barrier. -/
def Spaced (ss : List (Stage ν α)) : Prop :=
  (ss.filter marks).IsChain fun s t => s.records = true → t.records = false

theorem marks_of_records {s : Stage ν α} (h : s.records = true) : s.marks = true := by
  cases s <;> first | rfl | cases h

variable {ss ts : List (Stage ν α)}

theorem spaced_singleton (s : Stage ν α) : Spaced [s] := by
  unfold Spaced
  cases hm : s.marks with
  | true =>
    rw [List.filter_cons_of_pos hm]
    exact List.IsChain.singleton _
  | false =>
    rw [List.filter_cons_of_neg (by rw [hm]; exact Bool.false_ne_true)]
    exact List.IsChain.nil

theorem Spaced.append (hs : Spaced ss) (ht : Spaced ts)
    (h : (∀ s ∈ ss, s.records = false) ∨ ∀ t ∈ (ts.filter marks).head?, t.records = false) : Spaced (ss ++ ts) := by
  unfold Spaced
  rw [List.filter_append]
  refine List.isChain_append.mpr ⟨hs, ht, fun s hs t ht hrecords => ?_⟩
  rcases h with h | h
  · rw [h s (List.mem_filter.mp (List.mem_of_mem_getLast? hs)).1] at hrecords
    cases hrecords
  · exact h t ht

theorem Spaced.of_not_records (h : ∀ s ∈ ss, s.records = false) : Spaced ss := by
  induction ss with
  | nil => exact List.IsChain.nil
  | cons s ss ih =>
    refine (spaced_singleton s).append (ih fun t ht => h t (List.mem_cons_of_mem _ ht)) (.inl fun t ht => ?_)
    rw [List.mem_singleton.mp ht]
    exact h s (List.mem_cons_self ..)

theorem Spaced.barrier (h : Spaced ss) : Spaced (.barrier :: ss) :=
  List.isChain_cons.mpr ⟨fun _ _ hb => (by cases hb), h⟩

theorem Spaced.barrier_mem (h : Spaced ss) {before between after : List (Stage ν α)} {s t : Stage ν α}
    (heq : ss = before ++ s :: between ++ t :: after) (hs : s.records = true) (ht : t.records = true) :
    .barrier ∈ between := by
  subst heq
  unfold Spaced at h
  simp only [List.append_assoc, List.cons_append, List.filter_append, List.filter_cons_of_pos (marks_of_records hs),
    List.filter_cons_of_pos (marks_of_records ht)] at h
  have hchain := h.right_of_append
  cases hb : between.filter marks with
  | nil =>
    rw [hb] at hchain
    have hn := (List.isChain_cons_cons.mp hchain).1 hs
    rw [ht] at hn
    cases hn
  | cons x rest =>
    rw [hb] at hchain
    have hn := (List.isChain_cons_cons.mp hchain).1 hs
    obtain ⟨hmem, hmarks⟩ := List.mem_filter.mp (hb ▸ List.mem_cons_self .. : x ∈ between.filter marks)
    cases x with
    | barrier => exact hmem
    | dispatch | download => cases hn
    | allocate | upload => cases hmarks

end Stage

open Stage (Spaced)

/-! ## Laying out -/

namespace Draft.Emission

variable {e : Emission ν α}

theorem mem_push {stage s : Stage ν α} (h : s ∈ (e.push stage).stages) :
    s ∈ e.stages ∨ s = .barrier ∨ s = stage := by
  unfold push at h
  refine (List.mem_append.mp h).imp_right fun h => ?_
  split at h
  · exact (List.mem_cons.mp h).imp_right List.mem_singleton.mp
  · exact .inr (List.mem_singleton.mp h)

theorem mem_push_all {stages : List (Stage ν α)} {s : Stage ν α} (h : s ∈ (stages.foldl push e).stages) :
    s ∈ e.stages ∨ s = .barrier ∨ s ∈ stages := by
  induction stages generalizing e with
  | nil => exact .inl h
  | cons stage stages ih =>
    rcases ih h with h | h | h
    · exact (mem_push h).imp_right (Or.imp_right fun h => List.mem_cons.mpr (.inl h))
    · exact .inr (.inl h)
    · exact .inr (.inr (List.mem_cons_of_mem _ h))

theorem push_last (e : Emission ν α) (stage : Stage ν α) : (e.push stage).stages.getLast? = some stage := by
  unfold push
  dsimp only
  split
  · rw [List.getLast?_append]
    rfl
  · exact List.getLast?_concat

/-- A stage is kept apart from all before it, if it reads what the last of them writes. -/
theorem push_spaced {stage : Stage ν α} (h : Spaced e.stages) (hw : (∀ s ∈ e.stages, s.records = false) ∨
    ∃ s k, e.stages.getLast? = some s ∧ k ∈ s.writes ∧ k ∈ stage.reads) : Spaced (e.push stage).stages := by
  unfold push
  rcases hw with hw | ⟨s, k, hs, hwrites, hreads⟩
  · refine h.append ?_ (.inl hw)
    split
    · exact (Stage.spaced_singleton stage).barrier
    · exact Stage.spaced_singleton stage
  · have hwait : stage.readsFrom s = true := List.any_eq_true.mpr ⟨k, hreads, decide_eq_true hwrites⟩
    rw [hs, Option.map_some, Option.getD_some, hwait]
    exact h.append (Stage.spaced_singleton stage).barrier (.inr fun t ht => by cases ht; rfl)

section
variable [Measure ν]

/-- Dispatches that each read the result of the one before are spaced. -/
theorem spaced_dispatches {width height : ν} {index : Nat} {backdrop : Option Handle} {steps : List (PlanStep ν α)}
    {pipelines : List Pipeline} {results blocks : List Handle} (hp : pipelines.length = steps.length)
    (hr : results.length = steps.length) (hb : blocks.length = steps.length) (h : Spaced e.stages)
    (hfirst : backdrop = none → ∀ s ∈ e.stages, s.records = false)
    (hnext : ∀ k, backdrop = some k → ∃ s, e.stages.getLast? = some s ∧ k ∈ s.writes) :
    Spaced ((dispatchStages width height index backdrop steps pipelines results blocks).foldl push e).stages ∧
      ∀ last, (backdrop.toList ++ results).getLast? = some last → ∃ s,
        ((dispatchStages width height index backdrop steps pipelines results blocks).foldl push e).stages.getLast? =
          some s ∧ last ∈ s.writes := by
  induction steps generalizing index backdrop pipelines results blocks e with
  | nil =>
    obtain rfl := List.length_eq_zero_iff.mp hr
    refine ⟨h, fun last hlast => ?_⟩
    cases backdrop with
    | none => cases hlast
    | some k =>
      cases hlast
      exact hnext k rfl
  | cons step steps ih =>
    obtain ⟨pipeline, pipelines, rfl⟩ := List.exists_cons_of_length_eq_add_one hp
    obtain ⟨result, results, rfl⟩ := List.exists_cons_of_length_eq_add_one hr
    obtain ⟨block, blocks, rfl⟩ := List.exists_cons_of_length_eq_add_one hb
    have hwaits : (∀ s ∈ e.stages, s.records = false) ∨ ∃ s k, e.stages.getLast? = some s ∧ k ∈ s.writes ∧
        k ∈ (dispatch width height index step pipeline backdrop result block).reads := by
      cases backdrop with
      | none => exact .inl (hfirst rfl)
      | some k =>
        obtain ⟨s, hs, hk⟩ := hnext k rfl
        exact .inr ⟨s, k, hs, hk, List.mem_cons_self ..⟩
    obtain ⟨hspaced, hlast⟩ := @ih (e.push (dispatch width height index step pipeline backdrop result block))
      (index + 1) (some result) pipelines results blocks (Nat.succ.inj hp) (Nat.succ.inj hr) (Nat.succ.inj hb)
      (push_spaced h hwaits)
      (fun h => by cases h) fun k hk => ⟨_, push_last e _, by cases hk; exact List.mem_singleton_self _⟩
    refine ⟨hspaced, fun last hl => hlast last ?_⟩
    cases backdrop with
    | none => exact hl
    | some k => exact hl

theorem layOut_spaced [Channel α] [Stored α] {draft : Draft ν α} {pipelines : List Pipeline} {width height : ν}
    {pool : Pool ν α} {plan : Plan ν α} {e : Emission ν α} (hs : pool.Sound)
    (hp : pipelines.length = draft.steps.length)
    (h : layOut draft pipelines width height ⟨pool, [], []⟩ = (.ok plan, e)) :
    Spaced plan.stages ∧ ∃ front last, plan.stages = front ++
    [.download last draft.destination (workingBytes width height)] ∧
      ∀ s ∈ front, ∀ source destination bytes, s ≠ .download source destination bytes := by
  obtain ⟨results, e₁, blocks, e₂, last, himages, hblocks, hl, rfl, rfl⟩ := layOut_ok h
  -- nothing is recorded before the dispatches
  obtain ⟨gs, h₁, -, hok⟩ := @images_grows _ _ _ ⟨pool, [], draft.uploads.map fun u => .upload u.handle u.data⟩
    draft.steps.length width height hs
  rw [himages] at h₁ hok
  obtain ⟨gs', more, h₂, -, hok'⟩ := @paramBlocks_grows _ _ _ _ _ draft.steps width height h₁.gains.sound
  rw [hblocks] at h₂ hok'
  obtain ⟨hlength, -, -⟩ := hok results rfl
  obtain ⟨hlength', -, rfl⟩ := hok' blocks rfl
  have hquiet : ∀ s ∈ e₂.stages, s.records = false := by
    intro s hs
    by_contra hrecords
    have hworks : s ∈ Engine.Encoder.works e₂.stages := List.mem_filter.mpr ⟨hs, by
      cases s <;> first | rfl | exact absurd rfl hrecords⟩
    rw [h₂.works, h₁.works, works_uploads, List.append_nil] at hworks
    rcases List.mem_append.mp hworks with hm | hm
    all_goals
      obtain ⟨u, -, rfl⟩ := List.mem_map.mp hm
      exact hrecords rfl
  have hspaced₂ : Spaced e₂.stages := .of_not_records hquiet
  obtain ⟨hspaced, hlast⟩ := @spaced_dispatches _ _ e₂ _ width height 0 none draft.steps pipelines results blocks hp
    hlength hlength' hspaced₂ (fun _ => hquiet) (fun k hk => by cases hk)
  obtain ⟨s, hs, hk⟩ := hlast last hl
  refine ⟨push_spaced hspaced (.inr ⟨s, last, hs, hk, List.mem_singleton_self _⟩), ?_⟩
  -- what comes before the download are stages of `e₂`, dispatches and barriers
  have hfront : ∀ s ∈ ((dispatchStages width height 0 none draft.steps pipelines results blocks).foldl
      push e₂).stages,
      ∀ source destination bytes, s ≠ .download source destination bytes := by
    rintro s hs source destination bytes rfl
    rcases mem_push_all hs with hs | hs | hs
    · cases hquiet _ hs
    · cases hs
    · obtain ⟨_, _, _, _, _, heq, -⟩ := mem_dispatchStages hs
      cases heq
  generalize (dispatchStages width height 0 none draft.steps pipelines results blocks).foldl push e₂ = e₃ at hfront
  unfold push
  dsimp only
  split
  · refine ⟨e₃.stages ++ [.barrier], last, by simp, fun s hs => ?_⟩
    rcases List.mem_append.mp hs with hs | hs
    · exact hfront s hs
    · rw [List.mem_singleton.mp hs]
      nofun
  · exact ⟨e₃.stages, last, rfl, hfront⟩

end

end Draft.Emission

/-! ## Recording -/

namespace Engine.Encoder

variable [Stored α]

/-- The compute pass that is open, by its number. -/
def pass? (c : Encoder ν α) : Option Nat := if c.passOpen then some c.device.passes else none

/-- The commands that stages record, each with the pass that it is recorded in. -/
def log (arena : Arena ν) (plan : PlanId) (c : Encoder ν α) : List (Stage ν α) → List (Command ν × Option Nat)
  | [] => []
  | s :: rest =>
    let c' := (c.stage arena plan s).2
    (c'.commands.drop c.commands.length).map (·, c'.pass?) ++ log arena plan c' rest

variable {arena : Arena ν} {plan : PlanId} {c c' : Encoder ν α}

/-- What is neither recorded nor a barrier goes on in the same pass. -/
theorem stage_unmarked {s : Stage ν α} (hs : s.marks = false) (h : c.stage arena plan s = (.ok (), c')) :
    c'.commands = c.commands ∧ c'.passOpen = c.passOpen ∧ c'.device.passes = c.device.passes := by
  cases s with
  | barrier | dispatch | download => cases hs
  | allocate k purpose =>
    cases h
    exact ⟨rfl, rfl, rfl⟩
  | upload k data =>
    dsimp only [stage] at h
    split at h
    · cases h
    · rename_i slot _
      unfold Device.writeBuffer at h
      split at h
      · cases h
      · rename_i heq
        obtain rfl := Device.takeFault_none heq
        split at h <;> cases h
        exact ⟨rfl, rfl, rfl⟩

theorem stage_dispatch {label : String} {p : Pipeline} {b : Bindings} {x y : ν} (ho : c.passOpen = false)
    (h : c.stage arena plan (.dispatch label p b x y) = (.ok (), c')) :
    ∃ d, c'.commands = c.commands ++ [.dispatch d] ∧ c'.passOpen = true ∧
    c'.device.passes = c.device.passes + 1 := by
  have hpass : c.ensurePass =
      { c with passOpen := true, device := { c.device with passes := c.device.passes + 1 } } := by
    unfold ensurePass
    rw [ho]
    rfl
  dsimp only [stage] at h
  rw [hpass] at h
  split at h
  · cases h
  · split at h
    · cases h
    · rename_i heq
      rw [Device.call_id_ok heq] at h
      cases h
      exact ⟨_, rfl, rfl, rfl⟩

theorem log_append (c : Encoder ν α) (ss ts : List (Stage ν α)) (h : c.stages arena plan ss = (.ok (), c')) :
    c.log arena plan (ss ++ ts) = c.log arena plan ss ++ c'.log arena plan ts := by
  induction ss generalizing c with
  | nil =>
    cases h
    rfl
  | cons s ss ih =>
    unfold stages at h
    rw [List.cons_append, log, log]
    generalize c.stage arena plan s = r at h
    obtain ⟨r, c₁⟩ := r
    cases r with
    | error failure => cases h
    | ok u =>
      dsimp only
      rw [ih c₁ h, List.append_assoc]

/-- Spaced dispatches are recorded in passes of their own, one begun after the other. -/
theorem log_spaced {ss : List (Stage ν α)} (hs : Stage.Spaced ss)
    (hopen : c.passOpen = true → ∀ s ∈ (ss.filter Stage.marks).head?, s.records = false)
    (hd : ∀ s ∈ ss, ∀ source destination bytes, s ≠ .download source destination bytes)
    (h : c.stages arena plan ss = (.ok (), c')) :
    ∃ passes : List (Dispatch ν × Nat), c.log arena plan ss = passes.map (fun d => (.dispatch d.1, some d.2)) ∧
      c'.commands = c.commands ++ passes.map (fun d => .dispatch d.1) ∧ (passes.map (·.2)).Pairwise (· < ·) ∧
      ∀ n ∈ passes.map (·.2), c.device.passes < n := by
  induction ss generalizing c with
  | nil =>
    cases h
    exact ⟨[], rfl, (List.append_nil _).symm, List.Pairwise.nil, fun n hn => absurd hn List.not_mem_nil⟩
  | cons s ss ih =>
    unfold stages at h
    unfold log
    generalize hstage : c.stage arena plan s = r at h
    obtain ⟨r, c₁⟩ := r
    cases r with
    | error failure => cases h
    | ok u =>
      dsimp only at h ⊢
      have hrest (t : Stage ν α) (ht : t ∈ ss) := hd t (List.mem_cons_of_mem _ ht)
      cases hm : s.marks with
      | false =>
        obtain ⟨hcommands, hpass, hpasses⟩ := stage_unmarked hm hstage
        unfold Stage.Spaced at hs
        rw [List.filter_cons_of_neg (by rw [hm]; exact Bool.false_ne_true)] at hs hopen
        rw [← hcommands, List.drop_length, ← hpasses]
        exact ih hs (hpass ▸ hopen) hrest h
      | true =>
        unfold Stage.Spaced at hs
        rw [List.filter_cons_of_pos hm] at hs hopen
        cases s with
        | allocate | upload => cases hm
        | download source destination bytes =>
            exact absurd rfl (hd _ (List.mem_cons_self ..) source destination bytes)
        | barrier =>
          cases hstage
          obtain ⟨passes, hlog, hcommands, hpairwise, hgreater⟩ := ih hs.tail (fun h => by cases h) hrest h
          refine ⟨passes, ?_, hcommands, hpairwise, hgreater⟩
          rw [hlog, List.drop_length]
          rfl
        | dispatch label p b x y =>
          -- the pass before has ended
          have hclosed : c.passOpen = false := by
            cases ho : c.passOpen with
            | false => rfl
            | true => cases hopen ho _ rfl
          obtain ⟨d, hcommands, hpass, hpasses⟩ := stage_dispatch hclosed hstage
          obtain ⟨passes, hlog, hcommands', hpairwise, hgreater⟩ := ih hs.tail
            (fun _ t ht => (List.isChain_cons.mp hs).1 t ht rfl) hrest h
          refine ⟨(d, c.device.passes + 1) :: passes, ?_, ?_, List.pairwise_cons.mpr ⟨fun n hn => ?_, hpairwise⟩,
            fun n hn => ?_⟩
          · rw [hlog, hcommands, List.drop_left]
            unfold pass?
            rw [hpass, hpasses]
            rfl
          · rw [hcommands', hcommands, List.append_assoc]
            rfl
          · rw [← hpasses]
            exact hgreater n hn
          · rcases List.mem_cons.mp hn with rfl | hn
            · exact Nat.lt_succ_self _
            · exact Nat.lt_trans (hpasses ▸ Nat.lt_succ_self _) (hgreater n hn)

theorem stage_download {source : Handle} {destination : Readback} {bytes : ν}
    (h : c.stage arena plan (.download source destination bytes) = (.ok (), c')) :
    ∃ s d, c'.commands = c.commands ++ [.copy s d bytes] ∧ c'.passOpen = false := by
  dsimp only [stage] at h
  split at h <;> cases h
  exact ⟨_, _, rfl, rfl⟩

theorem log_download {source : Handle} {destination : Readback} {bytes : ν}
    (h : c.stages arena plan [.download source destination bytes] = (.ok (), c')) :
    ∃ s d, c.log arena plan [.download source destination bytes] = [(.copy s d bytes, none)] ∧
      c'.commands = c.commands ++ [.copy s d bytes] := by
  rw [stages] at h
  rw [log]
  generalize hstage : c.stage arena plan (.download source destination bytes) = r at h
  obtain ⟨r, c₁⟩ := r
  cases r with
  | error failure => cases h
  | ok u =>
    cases h
    obtain ⟨s, d, hcommands, hclosed⟩ := stage_download hstage
    refine ⟨s, d, ?_, hcommands⟩
    dsimp only
    rw [hcommands, List.drop_left]
    unfold pass?
    rw [hclosed]
    rfl

end Engine.Encoder

/-! ## Plans that calls answer -/

namespace Draft

variable [Measure ν] [Channel α] [Stored α]

/-- Encoding a plan puts each dispatch in a pass of its own, and the copy after all passes. -/
theorem emit_passes {draft : Draft ν α} {pipelines : List Pipeline} {pool pool' : Pool ν α} {plan : Plan ν α}
    (hs : pool.Sound) (hp : pipelines.length = draft.steps.length)
    (h : draft.emit pipelines pool = (.ok plan, pool')) :
    Stage.Spaced plan.stages ∧ ∀ (arena : Arena ν) (id : PlanId) (device : Device ν α) (c : Engine.Encoder ν α),
      Engine.Encoder.stages arena id { device } plan.stages = (.ok (), c) →
        ∃ (passes : List (Dispatch ν × Nat)) (source destination : BufferId) (bytes : ν),
          Engine.Encoder.log arena id { device } plan.stages =
            passes.map (fun d => (.dispatch d.1, some d.2)) ++ [(.copy source destination bytes, none)] ∧
          c.commands = passes.map (fun d => .dispatch d.1) ++ [.copy source destination bytes] ∧
          (passes.map (·.2)).Pairwise (· < ·) := by
  obtain ⟨canvas, e, -, hlaid, -⟩ := emit_ok h
  obtain ⟨hspaced, front, last, hstages, hfront⟩ := Emission.layOut_spaced hs hp hlaid
  refine ⟨hspaced, fun arena id device c hc => ?_⟩
  rw [hstages] at hspaced hc ⊢
  rw [Engine.Encoder.stages_append] at hc
  generalize hrun : Engine.Encoder.stages arena id { device } front = r at hc
  obtain ⟨r, c₁⟩ := r
  cases r with
  | error failure => cases hc
  | ok u =>
    have hchain : Stage.Spaced front := by
      unfold Stage.Spaced at hspaced
      rw [List.filter_append] at hspaced
      exact hspaced.left_of_append
    obtain ⟨passes, hlog, hcommands, hpairwise, -⟩ :=
        Engine.Encoder.log_spaced hchain (fun h => by cases h) hfront hrun
    obtain ⟨s, d, hlog', hcommands'⟩ := Engine.Encoder.log_download hc
    refine ⟨passes, s, d, workingBytes canvas.width canvas.height, ?_, ?_, hpairwise⟩
    · rw [Engine.Encoder.log_append _ _ _ hrun, hlog, hlog']
    · rw [hcommands', hcommands]
      rfl

end Draft

namespace Engine

variable [Measure ν] [Channel α] [Stored α] [Transfer α]

/-- A plan that a call answers is free of hazards, however often its images are used again. No dispatch writes a
slot that it reads. Of the dispatches and the download, any two have a barrier between them, whatever they access.
When the plan is encoded, over whatever slots and device, every dispatch is in a pass of its own, and the copy
follows them all with no pass open. -/
theorem plans_hazard_free {start : Engine ν α} (hstart : start.Opened) (moves moves' : List (Move ν α))
    (stack : List (BlendDescriptor ν α)) (uploads : List (Upload α)) (id : PlanId) :
    let e := start.run moves
    let e' := (e.move (.call (.makePlan stack uploads))).run moves'
    (e.jobs.size, .ok (.plan id)) ∈ e'.settled → ∃ rec : PlanRecord ν α, e'.plans[id]? = some rec ∧
      (∀ label p b x y, .dispatch label p b x y ∈ rec.plan.stages → ∀ k ∈ b.reads, k.index ≠ b.result.index) ∧
      (∀ before s between t after, rec.plan.stages = before ++ s :: between ++ t :: after →
        s.records = true → t.records = true → .barrier ∈ between) ∧
      ∀ (arena : Arena ν) (device : Device ν α) (c : Encoder ν α),
        Encoder.stages arena id { device } rec.plan.stages = (.ok (), c) →
          ∃ (passes : List (Dispatch ν × Nat)) (source destination : BufferId) (bytes : ν),
            Encoder.log arena id { device } rec.plan.stages =
              passes.map (fun d => (.dispatch d.1, some d.2)) ++ [(.copy source destination bytes, none)] ∧
            c.commands = passes.map (fun d => .dispatch d.1) ++ [.copy source destination bytes] ∧
            (passes.map (·.2)).Pairwise (· < ·) := by
  intro e e' hsettled
  obtain ⟨D, -, he, -⟩ := run_planned hstart.planned (moves ++ .call (.makePlan stack uploads) :: moves')
  rw [run_append] at he
  obtain ⟨-, hmade⟩ := he.prepares.settled _ hsettled
  obtain ⟨d, rec, -, hrec, pipelines, pool, pool', hsupplied, hsound, -, hemit⟩ := hmade id rfl
  obtain ⟨hspaced, hpasses⟩ := Draft.emit_passes hsound hsupplied.length hemit
  refine ⟨rec, hrec, fun label p b x y hm k hk he => ?_, fun before s between t after heq hs ht =>
    hspaced.barrier_mem heq hs ht, fun arena device c hc => hpasses arena id device c hc⟩
  -- live handles to one slot are the same handle
  have hlive (k : Handle) (hk : k ∈ b.handles) : pool'.arena.contains k = true := by
    rcases Draft.emit_live hsound hemit _ hm k hk with h | ⟨data, h, -⟩
    · exact h
    · cases h
  have hreads : k ∈ b.handles := by
    unfold Bindings.reads at hk
    unfold Bindings.handles
    simp only [List.mem_append, List.mem_cons, List.not_mem_nil, or_false] at hk ⊢
    exact hk.imp_right (Or.imp_right .inr)
  have hresult : b.result ∈ b.handles := by simp [Bindings.handles]
  exact Draft.emit_apart hsound hemit hm (Arena.contains_index (hlive k hreads) (hlive b.result hresult) he ▸ hk)

open Thrice in
theorem plans_hazard_free_thrice : start.Opened ∧ ((start.run moves).jobs.size, .ok (.plan 0)) ∈ made.settled ∧
    ∃ rec : PlanRecord Int Bool, made.plans[0]? = some rec ∧
      (∀ label p b x y, .dispatch label p b x y ∈ rec.plan.stages → ∀ k ∈ b.reads, k.index ≠ b.result.index) ∧
      ∀ before s between t after, rec.plan.stages = before ++ s :: between ++ t :: after →
        s.records = true → t.records = true → .barrier ∈ between := by
  have hstart : start.Opened := ⟨{ limits := .standard }, {}, .object [], rfl⟩
  have hsettled : ((start.run moves).jobs.size, .ok (.plan 0)) ∈ made.settled := mem_of_answersPlan made_spec.1
  obtain ⟨rec, hrec, hslots, hbarriers, -⟩ :=
    plans_hazard_free hstart moves (List.replicate 9 .fire) stack uploads 0 hsettled
  exact ⟨hstart, hsettled, rec, hrec, hslots, hbarriers⟩

end Engine

end Strata
