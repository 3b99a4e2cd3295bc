import Strata.Engine.Submission
import Strata.Proofs.Device.Dispatches
import Strata.Proofs.Memory.Gains

/-!
# What encoding a plan does

`Effect` is what a list of stages comes to, without the device's bookkeeping: uploads change the heap at
once, dispatches and the download are recorded. Encoding that succeeds has the effect of its stages
(`stages_effect`), encoding stages that have an effect succeeds unless a call is made to fail
(`stages_complete`), and whatever it comes to, it changes only buffers of slots that the stages refer to
(`run_writes`).
-/

namespace Strata

variable {ν α : Type}

/-! ## Frames -/

namespace Device

theorem takeFault_steady (d : Device ν α) (call : DeviceCall) :
    d.Steady (d.takeFault call).2 ∧ (d.takeFault call).2.buffers = d.buffers := by
  obtain ⟨faults, hf, hs⟩ := d.takeFault_snd call
  rw [hf]
  exact ⟨⟨hs, rfl, rfl, rfl, rfl, rfl⟩, rfl⟩

theorem call_id_steady (d : Device ν α) (which : DeviceCall) :
    d.Steady (d.call which id).2 ∧ (d.call which id).2.buffers = d.buffers := by
  rcases d.call_snd which id with heq | heq <;> rw [heq]
  · exact d.takeFault_steady which
  · exact ⟨.refl d, rfl⟩

theorem call_id_ok {d d' : Device ν α} {which : DeviceCall} {u : Unit} (h : d.call which id = (.ok u, d')) :
    d' = d :=
  call_ok h

theorem call_of_not_mem {d : Device ν α} {which : DeviceCall} (h : ∀ r, (which, r) ∉ d.faults)
    (f : Device ν α → Device ν α) : d.call which f = (.ok (), f d) := by
  unfold call
  rw [Pool.takeFault_of_not_mem h]

theorem writeBuffer_writes [Stored α] (d : Device ν α) (id : BufferId) (data : Block α) :
    d.Steady (d.writeBuffer id data).2 ∧ d.buffers.Writes (d.writeBuffer id data).2.buffers [id] := by
  obtain ⟨hs, hb⟩ := d.takeFault_steady .writeBuffer
  unfold writeBuffer
  split
  · rename_i heq
    rw [heq] at hs hb
    simp only at hb
    exact ⟨hs, by rw [hb]; exact .refl _ _⟩
  · rename_i heq
    obtain rfl := takeFault_none heq
    split
    · exact ⟨.refl _, .refl _ _⟩
    · exact ⟨⟨List.Subset.refl _, rfl, rfl, rfl, rfl, rfl⟩,
        Heap.writes_modifyBlock _ id (·.overwrite data data.size) (Block.size_overwrite ..)⟩

theorem writeBuffer_ok [Stored α] {d d' : Device ν α} {id : BufferId} {data : Block α} {u : Unit}
    (h : d.writeBuffer id data = (.ok u, d')) :
    data.size ≤ (d.buffers.block id).size ∧
      d'.buffers = d.buffers.modifyBlock id fun b => b.overwrite data data.size := by
  unfold writeBuffer at h
  split at h
  · cases h
  · rename_i heq
    obtain rfl := takeFault_none heq
    split at h
    · cases h
    · cases h
      exact ⟨by omega, rfl⟩

theorem writeBuffer_of_not_mem [Stored α] {d : Device ν α} {id : BufferId} {data : Block α}
    (h : ∀ r, (DeviceCall.writeBuffer, r) ∉ d.faults) (hs : data.size ≤ (d.buffers.block id).size) :
    d.writeBuffer id data =
      (.ok (), { d with buffers := d.buffers.modifyBlock id fun b => b.overwrite data data.size }) := by
  unfold writeBuffer
  rw [Pool.takeFault_of_not_mem h]
  exact if_neg (by omega)

end Device

/-- The buffer that a command writes. -/
def Command.target : Command ν → BufferId
  | .dispatch d => d.buffers.result
  | .copy _ destination _ => destination

section
variable [Measure ν] [Channel α] [Stored α] [Transfer α]

theorem runCommand_writes (heap : Heap α) (c : Command ν) :
    heap.Writes (Device.runCommand heap c).2 [c.target] := by
  cases c with
  | dispatch d => exact Dispatch.run_writes d heap
  | copy source destination bytes =>
    dsimp only [Device.runCommand, Command.target]
    split
    · exact .refl _ _
    · split
      · exact .refl _ _
      · exact Heap.writes_modifyBlock _ destination (·.overwrite (heap.block source) _) (Block.size_overwrite ..)

theorem runCommands_append (heap : Heap α) (cs ds : List (Command ν)) :
    Device.runCommands heap (cs ++ ds) =
      if (Device.runCommands heap cs).1 then Device.runCommands (Device.runCommands heap cs).2 ds
      else Device.runCommands heap cs := by
  induction cs generalizing heap with
  | nil => rfl
  | cons c cs ih =>
    rw [List.cons_append, runCommands_cons, runCommands_cons]
    split
    · exact ih _
    · rfl

theorem runCommands_targets (heap : Heap α) (cs : List (Command ν)) :
    heap.Writes (Device.runCommands heap cs).2 (cs.map Command.target) := by
  induction cs generalizing heap with
  | nil => exact .refl _ _
  | cons c cs ih =>
    have hc : heap.Writes (Device.runCommand heap c).2 ((c :: cs).map Command.target) :=
      (runCommand_writes heap c).mono (by simp)
    have hcs : (Device.runCommand heap c).2.Writes (Device.runCommands (Device.runCommand heap c).2 cs).2
        ((c :: cs).map Command.target) := (ih (Device.runCommand heap c).2).mono (by simp)
    rw [runCommands_cons]
    split
    · exact hc.trans hcs
    · exact hc

theorem submit_writes (d : Device ν α) (cs : List (Command ν)) :
    d.Steady (d.submit cs).2 ∧ d.buffers.Writes (d.submit cs).2.buffers (cs.map Command.target) := by
  obtain ⟨hs, hb⟩ := d.takeFault_steady .submit
  unfold Device.submit
  split
  · rename_i heq
    rw [heq] at hs hb
    simp only at hb
    exact ⟨hs, by rw [hb]; exact .refl _ _⟩
  · rename_i heq
    obtain rfl := Device.takeFault_none heq
    exact ⟨⟨List.Subset.refl _, rfl, rfl, rfl, rfl, rfl⟩, runCommands_targets _ _⟩

theorem submit_ok {d d' : Device ν α} {cs : List (Command ν)} {u : Unit} (h : d.submit cs = (.ok u, d')) :
    (Device.runCommands d.buffers cs).1 = true ∧ d'.buffers = (Device.runCommands d.buffers cs).2 := by
  unfold Device.submit at h
  split at h
  · cases h
  · rename_i heq
    obtain rfl := Device.takeFault_none heq
    simp only [Prod.mk.injEq] at h
    obtain ⟨hok, rfl⟩ := h
    split at hok
    · exact ⟨‹_›, rfl⟩
    · cases hok

end

/-! ## Effects of stages -/

namespace Engine.Encoder

section
variable (arena : Arena ν)

def touched (stages : List (Stage ν α)) : List BufferId :=
  (stages.flatMap Stage.handles).filterMap fun h => (arena.resolve h).toOption.map (·.buffer)

theorem mem_touched {stages : List (Stage ν α)} {s : Stage ν α} {h : Handle} {r : SlotRef ν} (hs : s ∈ stages)
    (hh : h ∈ s.handles) (hr : arena.resolve h = .ok r) : r.buffer ∈ touched arena stages := by
  refine List.mem_filterMap.mpr ⟨h, List.mem_flatMap.mpr ⟨s, hs, hh⟩, ?_⟩
  rw [hr]
  rfl

theorem touched_mono {stages stages' : List (Stage ν α)} (h : stages ⊆ stages') :
    touched arena stages ⊆ touched arena stages' := by
  intro b hb
  obtain ⟨k, hk, hr⟩ := List.mem_filterMap.mp hb
  obtain ⟨s, hs, hks⟩ := List.mem_flatMap.mp hk
  exact List.mem_filterMap.mpr ⟨k, List.mem_flatMap.mpr ⟨s, h hs, hks⟩, hr⟩

end

/-- The stages that do something when a plan is encoded. -/
def works (stages : List (Stage ν α)) : List (Stage ν α) := stages.filter fun
  | .allocate .. | .barrier => false
  | _ => true

@[simp] theorem works_append (ss ts : List (Stage ν α)) : works (ss ++ ts) = works ss ++ works ts :=
  List.filter_append ss ts

inductive Effect [Stored α] (arena : Arena ν) (plan : PlanId) :
    Heap α → List (Stage ν α) → Heap α → List (Command ν) → List (Download ν) → Prop
  | done (heap : Heap α) : Effect arena plan heap [] heap [] []
  | upload {heap heap' : Heap α} {h : Handle} {data : Block α} {slot : SlotRef ν} {rest : List (Stage ν α)}
      {cs : List (Command ν)} {ds : List (Download ν)} (hr : arena.resolve h = .ok slot)
      (hs : data.size ≤ (heap.block slot.buffer).size)
      (he : Effect arena plan (heap.modifyBlock slot.buffer fun b => b.overwrite data data.size) rest heap' cs ds) :
      Effect arena plan heap (.upload h data :: rest) heap' cs ds
  | dispatch {heap heap' : Heap α} {label : String} {pipeline : Pipeline} {b : Bindings} {x y : ν}
      {buffers : DispatchBuffers} {rest : List (Stage ν α)} {cs : List (Command ν)} {ds : List (Download ν)}
      (hb : bind arena label pipeline b = .ok buffers) (he : Effect arena plan heap rest heap' cs ds) :
      Effect arena plan heap (.dispatch label pipeline b x y :: rest) heap'
        (.dispatch ⟨pipeline.artifact.program, buffers, x, y⟩ :: cs) ds
  | download {heap heap' : Heap α} {source : Handle} {destination : Readback} {bytes : ν} {s d : SlotRef ν}
      {rest : List (Stage ν α)} {cs : List (Command ν)} {ds : List (Download ν)}
      (hd : arena.resolve destination = .ok d) (hs : arena.resolve source = .ok s)
      (he : Effect arena plan heap rest heap' cs ds) :
      Effect arena plan heap (.download source destination bytes :: rest) heap'
        (.copy s.buffer d.buffer bytes :: cs) (⟨d.buffer, bytes, destination.target.within plan⟩ :: ds)

variable {arena : Arena ν} {plan : PlanId}

theorem bind_result {label : String} {pipeline : Pipeline} {b : Bindings} {buffers : DispatchBuffers}
    (h : bind arena label pipeline b = .ok buffers) :
    ∃ r, arena.resolve b.result = .ok r ∧ buffers.result = r.buffer := by
  unfold bind at h
  cases hs : arena.resolve b.source with
  | error e => rw [hs] at h; cases h
  | ok source =>
    cases hr : arena.resolve b.result with
    | error e => rw [hs, hr] at h; cases h
    | ok result =>
      refine ⟨result, rfl, ?_⟩
      rw [hs, hr] at h
      cases hp : arena.resolve b.params with
      | error e => rw [hp] at h; cases h
      | ok params =>
        rw [hp] at h
        cases hk : pipeline.bindings with
        | copy =>
          simp only [hk] at h
          cases h
          rfl
        | blend =>
          simp only [hk] at h
          cases hb : b.backdrop with
          | none => rw [hb] at h; cases h
          | some k =>
            rw [hb] at h
            cases hq : arena.resolve k with
            | error e => simp only [hq] at h; cases h
            | ok backdrop =>
              simp only [hq] at h
              cases h
              rfl

/-- One stage: what it leaves of the device, and what it records. -/
structure Moves (arena : Arena ν) (ids : List BufferId) (c c' : Encoder ν α) : Prop where
  steady : c.device.Steady c'.device
  writes : c.device.buffers.Writes c'.device.buffers ids
  targets : ∀ t ∈ c'.commands.map Command.target, t ∈ c.commands.map Command.target ∨ t ∈ ids

theorem Moves.refl (ids : List BufferId) (c : Encoder ν α) : Moves arena ids c c :=
  ⟨.refl _, .refl _ _, fun _ h => .inl h⟩

theorem Moves.trans {ids : List BufferId} {c c' c'' : Encoder ν α} (h : Moves arena ids c c')
    (h' : Moves arena ids c' c'') : Moves arena ids c c'' :=
  ⟨h.steady.trans h'.steady, h.writes.trans h'.writes, fun t ht =>
    (h'.targets t ht).elim (h.targets t) .inr⟩

theorem Moves.mono {ids ids' : List BufferId} {c c' : Encoder ν α} (h : Moves arena ids c c') (hs : ids ⊆ ids') :
    Moves arena ids' c c' :=
  ⟨h.steady, h.writes.mono hs, fun t ht => (h.targets t ht).imp_right (@hs t)⟩

theorem ensurePass_commands (c : Encoder ν α) : c.ensurePass.commands = c.commands := by
  unfold ensurePass
  split <;> rfl

theorem ensurePass_downloads (c : Encoder ν α) : c.ensurePass.downloads = c.downloads := by
  unfold ensurePass
  split <;> rfl

theorem ensurePass_buffers (c : Encoder ν α) : c.ensurePass.device.buffers = c.device.buffers := by
  unfold ensurePass
  split <;> rfl

theorem ensurePass_faults (c : Encoder ν α) : c.ensurePass.device.faults = c.device.faults := by
  unfold ensurePass
  split <;> rfl

theorem ensurePass_moves (arena : Arena ν) (ids : List BufferId) (c : Encoder ν α) :
    Moves arena ids c c.ensurePass := by
  unfold ensurePass
  split
  · exact .refl _ _
  · exact ⟨⟨List.Subset.refl _, rfl, rfl, rfl, rfl, rfl⟩, .refl _ _, fun _ h => .inl h⟩

variable [Stored α]

theorem stage_moves (arena : Arena ν) (plan : PlanId) (c : Encoder ν α) (s : Stage ν α) :
    Moves arena (touched arena [s]) c (c.stage arena plan s).2 := by
  cases s with
  | allocate h purpose => exact .refl _ _
  | barrier => exact ⟨.refl _, .refl _ _, fun _ h => .inl h⟩
  | upload h data =>
    dsimp only [stage]
    split
    · exact .refl _ _
    · rename_i slot hr
      obtain ⟨hs, hw⟩ := c.device.writeBuffer_writes slot.buffer data
      refine ⟨hs, hw.mono fun b hb => ?_, fun _ h => .inl h⟩
      rw [List.mem_singleton.mp hb]
      exact mem_touched arena (List.mem_singleton_self _) (by simp [Stage.handles]) hr
  | dispatch label pipeline b x y =>
    have hm : Moves arena (touched arena [(.dispatch label pipeline b x y : Stage ν α)]) c c.ensurePass :=
      ensurePass_moves ..
    dsimp only [stage]
    split
    · exact hm
    · rename_i buffers hb
      -- making a bind group touches no buffer, whether or not it succeeds
      obtain ⟨hs, hbuf⟩ := c.ensurePass.device.call_id_steady .createBindGroup
      split
      · rename_i heq
        rw [heq] at hs hbuf
        simp only at hbuf
        exact hm.trans ⟨hs, by rw [hbuf]; exact .refl _ _, fun _ h => .inl h⟩
      · rename_i heq
        rw [heq] at hs hbuf
        simp only at hbuf
        refine hm.trans ⟨hs, by rw [hbuf]; exact .refl _ _, fun t ht => ?_⟩
        rw [List.map_append, List.mem_append] at ht
        refine ht.imp_right fun ht => ?_
        simp only [List.map_cons, List.map_nil, List.mem_singleton, Command.target] at ht
        obtain ⟨r, hr, he⟩ := bind_result hb
        rw [ht, he]
        exact mem_touched arena (List.mem_singleton_self _) (by simp [Stage.handles, Bindings.handles]) hr
  | download source destination bytes =>
    dsimp only [stage]
    split
    · exact ⟨.refl _, .refl _ _, fun _ h => .inl h⟩
    · exact ⟨.refl _, .refl _ _, fun _ h => .inl h⟩
    · rename_i d s hd hs
      refine ⟨.refl _, .refl _ _, fun t ht => ?_⟩
      rw [List.map_append, List.mem_append] at ht
      refine ht.imp_right fun ht => ?_
      simp only [List.map_cons, List.map_nil, List.mem_singleton, Command.target] at ht
      rw [ht]
      exact mem_touched arena (List.mem_singleton_self _) (by simp [Stage.handles]) hd

theorem stages_moves (arena : Arena ν) (plan : PlanId) (c : Encoder ν α) (ss : List (Stage ν α)) :
    Moves arena (touched arena ss) c (c.stages arena plan ss).2 := by
  induction ss generalizing c with
  | nil => exact .refl _ _
  | cons s ss ih =>
    have hsub : [s] ⊆ s :: ss := List.cons_subset.mpr ⟨List.mem_cons_self, List.nil_subset _⟩
    have hs := (stage_moves arena plan c s).mono (touched_mono arena hsub)
    unfold stages
    split
    · rename_i heq
      rw [heq] at hs
      exact hs
    · rename_i heq
      rw [heq] at hs
      exact hs.trans ((ih _).mono (touched_mono arena (List.subset_cons_self s ss)))

theorem stages_append (c : Encoder ν α) (ss ts : List (Stage ν α)) :
    c.stages arena plan (ss ++ ts) =
      (c.stages arena plan ss).andThen fun _ c => c.stages arena plan ts := by
  induction ss generalizing c with
  | nil => rfl
  | cons s ss ih =>
    rw [List.cons_append, stages, stages]
    generalize c.stage arena plan s = r
    obtain ⟨r, c'⟩ := r
    cases r with
    | error e => rfl
    | ok u => exact ih c'

/-- A stage that is encoded has its effect before that of the stages that follow. -/
theorem stage_effect {s : Stage ν α} {ss : List (Stage ν α)} {c c₁ : Encoder ν α} {heap' : Heap α}
    {cs : List (Command ν)} {ds : List (Download ν)} (h : c.stage arena plan s = (.ok (), c₁))
    (he : Effect arena plan c₁.device.buffers ss heap' cs ds) :
    ∃ cs' ds', Effect arena plan c.device.buffers (works [s] ++ ss) heap' cs' ds' ∧
      c₁.commands ++ cs = c.commands ++ cs' ∧ c₁.downloads ++ ds = c.downloads ++ ds' := by
  cases s with
  | allocate k purpose =>
    cases h
    exact ⟨cs, ds, he, rfl, rfl⟩
  | barrier =>
    cases h
    exact ⟨cs, ds, he, rfl, rfl⟩
  | upload k data =>
    dsimp only [stage] at h
    split at h
    · cases h
    · rename_i slot hr
      generalize hw : c.device.writeBuffer slot.buffer data = w at h
      obtain ⟨w, device⟩ := w
      cases w with
      | error e => cases h
      | ok u =>
        obtain ⟨hsize, hbuf⟩ := Device.writeBuffer_ok hw
        cases h
        rw [hbuf] at he
        exact ⟨cs, ds, .upload hr hsize he, rfl, rfl⟩
  | dispatch label pipeline b x y =>
    dsimp only [stage] at h
    split at h
    · cases h
    · rename_i buffers hb
      split at h
      · cases h
      · rename_i device heq
        rw [Device.call_id_ok heq] at h
        cases h
        rw [ensurePass_buffers] at he
        refine ⟨_, ds, .dispatch hb he, ?_, congrArg (· ++ ds) (ensurePass_downloads c)⟩
        rw [ensurePass_commands, List.append_assoc]
        rfl
  | download source destination bytes =>
    dsimp only [stage] at h
    split at h
    · cases h
    · cases h
    · rename_i d' s' hd' hs'
      cases h
      exact ⟨_, _, .download hd' hs' he, List.append_assoc .., List.append_assoc ..⟩

/-- What encoding that succeeds has done. -/
theorem stages_effect {ss : List (Stage ν α)} {c c' : Encoder ν α} (h : c.stages arena plan ss = (.ok (), c')) :
    ∃ cs ds, Effect arena plan c.device.buffers (works ss) c'.device.buffers cs ds ∧
      c'.commands = c.commands ++ cs ∧ c'.downloads = c.downloads ++ ds := by
  induction ss generalizing c with
  | nil =>
    cases h
    exact ⟨[], [], .done _, by simp, by simp⟩
  | cons s ss ih =>
    rw [stages] at h
    generalize hs : c.stage arena plan s = r at h
    obtain ⟨r, c₁⟩ := r
    cases r with
    | error e => cases h
    | ok u =>
      obtain ⟨cs, ds, he, hc, hd⟩ := ih h
      obtain ⟨cs', ds', he', hc', hd'⟩ := stage_effect hs he
      exact ⟨cs', ds', by rwa [← works_append] at he', hc.trans hc', hd.trans hd'⟩

/-- A stage that has an effect can be encoded, unless a call is made to fail. -/
theorem stage_complete {s : Stage ν α} {ss : List (Stage ν α)} {c : Encoder ν α} {heap' : Heap α}
    {cs : List (Command ν)} {ds : List (Download ν)} (hf : c.device.faults = [])
    (he : Effect arena plan c.device.buffers (works [s] ++ ss) heap' cs ds) :
    ∃ c₁ cs₁ ds₁, c.stage arena plan s = (.ok (), c₁) ∧ c₁.device.faults = [] ∧
      Effect arena plan c₁.device.buffers ss heap' cs₁ ds₁ ∧ c₁.commands ++ cs₁ = c.commands ++ cs ∧
      c₁.downloads ++ ds₁ = c.downloads ++ ds := by
  have none (call : DeviceCall) (r : Raised) : (call, r) ∉ c.device.faults := by
    rw [hf]
    exact List.not_mem_nil
  cases s with
  | allocate k purpose => exact ⟨c, cs, ds, rfl, hf, he, rfl, rfl⟩
  | barrier => exact ⟨_, cs, ds, rfl, hf, he, rfl, rfl⟩
  | upload k data =>
    cases he with
    | upload hr hsize he =>
      dsimp only [stage]
      rw [hr]
      dsimp only
      rw [Device.writeBuffer_of_not_mem (none _) hsize]
      exact ⟨_, cs, ds, rfl, hf, he, rfl, rfl⟩
  | dispatch label pipeline b x y =>
    cases he with
    | dispatch hb he =>
      have none' (r : Raised) : (DeviceCall.createBindGroup, r) ∉ c.ensurePass.device.faults := by
        rw [ensurePass_faults]
        exact none _ r
      dsimp only [stage]
      rw [hb]
      dsimp only
      rw [Device.call_of_not_mem none' id]
      refine ⟨_, _, ds, rfl, (ensurePass_faults c).trans hf, by rwa [← ensurePass_buffers] at he, ?_,
        congrArg (· ++ ds) (ensurePass_downloads c)⟩
      rw [ensurePass_commands, List.append_assoc]
      rfl
  | download source destination bytes =>
    cases he with
    | download hd hs he =>
      dsimp only [stage]
      rw [hd, hs]
      exact ⟨_, _, _, rfl, hf, he, List.append_assoc .., List.append_assoc ..⟩

theorem stages_complete {ss : List (Stage ν α)} {c : Encoder ν α} {heap' : Heap α} {cs : List (Command ν)}
    {ds : List (Download ν)} (hf : c.device.faults = [])
    (he : Effect arena plan c.device.buffers (works ss) heap' cs ds) :
    ∃ c', c.stages arena plan ss = (.ok (), c') ∧ c'.device.buffers = heap' ∧ c'.commands = c.commands ++ cs ∧
      c'.downloads = c.downloads ++ ds := by
  induction ss generalizing c cs ds with
  | nil =>
    cases he
    exact ⟨c, rfl, rfl, by simp, by simp⟩
  | cons s ss ih =>
    rw [← List.singleton_append, works_append] at he
    obtain ⟨c₁, cs₁, ds₁, hs, hf₁, he₁, hcs₁, hds₁⟩ := stage_complete hf he
    obtain ⟨c', hc', hbuf, hcs, hds⟩ := ih hf₁ he₁
    rw [stages, hs]
    exact ⟨c', hc', hbuf, hcs.trans hcs₁, hds.trans hds₁⟩

variable [Measure ν] [Channel α] [Transfer α]

/-- Encoding and running stages changes nothing but buffers of slots they refer to. -/
theorem run_writes (device : Device ν α) (ss : List (Stage ν α)) :
    device.Steady (run arena plan device ss).2 ∧
      device.buffers.Writes (run arena plan device ss).2.buffers (touched arena ss) := by
  obtain ⟨hs, hb⟩ := device.call_id_steady .createEncoder
  unfold run
  split
  · rename_i heq
    rw [heq] at hs hb
    simp only at hb
    exact ⟨hs, by rw [hb]; exact .refl _ _⟩
  · rename_i device' heq
    rw [heq] at hs hb
    simp only at hs hb
    have hm := stages_moves arena plan { device := device' } ss
    split
    · rename_i heq
      rw [heq] at hm
      exact ⟨hs.trans hm.steady, hb ▸ hm.writes⟩
    · rename_i c heq
      rw [heq] at hm
      obtain ⟨hs', hw⟩ := submit_writes c.device c.commands
      have hw' := hw.mono fun t ht => (hm.targets t ht).resolve_left List.not_mem_nil
      split
      · rename_i heq
        rw [heq] at hs' hw'
        exact ⟨hs.trans (hm.steady.trans hs'), hb ▸ hm.writes.trans hw'⟩
      · rename_i heq
        rw [heq] at hs' hw'
        exact ⟨hs.trans (hm.steady.trans hs'), hb ▸ hm.writes.trans hw'⟩

/-- Running a plan that succeeds: the effect of its stages, then its commands. -/
theorem run_effect {device device' : Device ν α} {ss : List (Stage ν α)} {downloads : List (Download ν)}
    (h : run arena plan device ss = (.ok downloads, device')) :
    ∃ heap cs, Effect arena plan device.buffers (works ss) heap cs downloads ∧
      (Device.runCommands heap cs).1 = true ∧ device'.buffers = (Device.runCommands heap cs).2 := by
  unfold run at h
  split at h
  · cases h
  · rename_i heq
    rw [Device.call_id_ok heq] at h
    split at h
    · cases h
    · rename_i c hc
      obtain ⟨cs, ds, he, hcs, hds⟩ := stages_effect hc
      generalize hs : c.device.submit c.commands = r at h
      obtain ⟨r, d⟩ := r
      cases r with
      | error e => cases h
      | ok u =>
        obtain ⟨hok, hbuf⟩ := submit_ok hs
        cases h
        simp only [List.nil_append] at hcs hds
        rw [hcs] at hok hbuf
        exact ⟨_, cs, hds ▸ he, hok, hbuf⟩

theorem run_complete {device : Device ν α} {ss : List (Stage ν α)} {heap : Heap α} {cs : List (Command ν)}
    {ds : List (Download ν)} (hf : device.faults = []) (he : Effect arena plan device.buffers (works ss) heap cs ds)
    (hok : (Device.runCommands heap cs).1 = true) : ∃ device', run arena plan device ss = (.ok ds, device') := by
  have clear {d : Device ν α} (h : d.faults = []) (call : DeviceCall) (r : Raised) : (call, r) ∉ d.faults := by
    rw [h]
    exact List.not_mem_nil
  obtain ⟨c, hc, hbuf, hcs, hds⟩ := stages_complete (c := { device }) hf he
  have hfc : c.device.faults = [] := by
    have hm := stages_moves arena plan { device } ss
    rw [hc] at hm
    exact List.subset_nil.mp (hf ▸ hm.steady.faults)
  unfold run
  rw [Device.call_of_not_mem (clear hf _) id]
  dsimp only [id]
  rw [hc]
  dsimp only
  unfold Device.submit
  rw [Pool.takeFault_of_not_mem (clear hfc _)]
  dsimp only
  simp only [List.nil_append] at hcs hds
  rw [hbuf, hcs, hds]
  generalize Device.runCommands heap cs = r at hok
  obtain ⟨finished, heap'⟩ := r
  cases hok
  exact ⟨_, rfl⟩

end Engine.Encoder

end Strata
