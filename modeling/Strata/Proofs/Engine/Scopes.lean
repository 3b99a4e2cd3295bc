import Strata.Proofs.Engine.Queue
import Strata.Proofs.Engine.Works

/-!
# Error scopes

A submission is encoded between two scopes of its own, whatever fails meanwhile (`Scoped`), and nothing else opens
or closes a scope (`move_scopes`).
-/

namespace Strata

variable {ν α : Type}

/-- The calls that have to succeed for scopes to open and close, and for submissions to finish. -/
def Engine.scopeCalls : List DeviceCall := [.destroyBuffer, .pushScope, .popScope]

theorem Device.popScope_eq {d : Device ν α} (h : ∀ r, (DeviceCall.popScope, r) ∉ d.faults)
    {scope : ScopeFilter × Option String} {rest : List (ScopeFilter × Option String)}
    (hs : d.scopes = scope :: rest) : d.popScope = (.ok scope.2, { d with scopes := rest }) := by
  unfold popScope
  rw [Pool.takeFault_of_not_mem h]
  dsimp only
  rw [hs]

/-- An operation leaves it to the device to open and close scopes and to destroy buffers. -/
def Operation.LeavesScopes : Operation ν α → Prop
  | fault call _ => call ∉ Engine.scopeCalls
  | _ => True

def Move.LeavesScopes : Move ν α → Prop
  | call op => op.LeavesScopes
  | turn _ | fire => True

theorem Move.LeavesScopes.delivery {m : Move ν α} (h : m.LeavesScopes) : m.LeavesDelivery := by
  cases m with
  | call op =>
    cases op with
    | fault call raised => exact fun hc => h (List.mem_of_mem_take (i := 2) hc)
    | _ => trivial
  | turn | fire => trivial

namespace Engine

variable [Measure ν] [Channel α] [Stored α] [Transfer α] {e e' : Engine ν α}

/-- The stages of a plan are encoded on `inner`, between the scopes that were opened on `d` and are closed in the
reverse order: each captured what was injected for it, none is left open, and what was captured is not there any
more. -/
structure Scoped (arena : Arena ν) (plan : PlanId) (stages : List (Stage ν α)) (s : Encoded ν)
    (d outer inner encoded popped d' : Device ν α) : Prop where
  memoryOpens : d.pushScope .outOfMemory = (.ok (), outer)
  validationOpens : outer.pushScope .validation = (.ok (), inner)
  opened : inner.scopes =
    (.validation, d.injected.lookup .validation) :: (.outOfMemory, d.injected.lookup .outOfMemory) :: d.scopes
  encodes : Encoder.run arena plan inner stages = (s.downloads, encoded)
  kept : encoded.scopes = inner.scopes
  validationCloses : encoded.popScope = (.ok (d.injected.lookup .validation), popped)
  memoryCloses : popped.popScope = (.ok (d.injected.lookup .outOfMemory), d')
  validation : s.validation = .ok (d.injected.lookup .validation)
  memory : s.memory = .ok (d.injected.lookup .outOfMemory)
  closed : d'.scopes = d.scopes
  spent : d'.injected.lookup .validation = none ∧ d'.injected.lookup .outOfMemory = none

theorem ran_scoped {d : Device ν α} (h : ∀ x ∈ d.faults, x.1 ∉ scopeCalls) (token : SubmissionId) (plan : PlanId)
    (arena : Arena ν) (stages : List (Stage ν α)) : ∃ outer inner encoded popped : Device ν α,
      pushScopes d = (.ok (), inner) ∧
      Scoped arena plan stages (ran token plan arena inner stages).1 d outer inner encoded popped
        (ran token plan arena inner stages).2 := by
  have hspared (call : DeviceCall) (hc : call ∈ scopeCalls) {faults} (hf : faults ⊆ d.faults) :
      ∀ r, (call, r) ∉ faults :=
    fun r hr => h _ (hf hr) hc
  obtain ⟨outer, inner, houter, hinner, hopened, hscopes, hvalidation, hmemory, hfaults⟩ :=
    pushScopes_spec (hspared .pushScope (by decide) (List.Subset.refl _))
  have hsteady : inner.Steady (Encoder.run arena plan inner stages).2 :=
    And.left (Encoder.run_writes inner stages)
  generalize hrun : Encoder.run arena plan inner stages = r at hsteady
  obtain ⟨downloads, encoded⟩ := r
  -- no fault came up while encoding that was not scripted before
  have hpops : ∀ r, (DeviceCall.popScope, r) ∉ encoded.faults :=
    hspared .popScope (by decide) (hfaults ▸ hsteady.faults)
  let popped : Device ν α := { encoded with scopes := (.outOfMemory, d.injected.lookup .outOfMemory) :: d.scopes }
  have hfirst : encoded.popScope = (.ok (d.injected.lookup .validation), popped) :=
    Device.popScope_eq hpops (hsteady.scopes.trans hscopes)
  have hsecond : popped.popScope = (.ok (d.injected.lookup .outOfMemory), { encoded with scopes := d.scopes }) :=
    @Device.popScope_eq _ _ popped hpops _ _ rfl
  have hran : ran token plan arena inner stages = (⟨token, .ok (d.injected.lookup .validation),
      .ok (d.injected.lookup .outOfMemory), downloads⟩, { encoded with scopes := d.scopes }) := by
    unfold ran
    rw [hrun]
    dsimp only
    rw [hfirst]
    dsimp only
    rw [hsecond]
    rfl
  refine ⟨outer, inner, encoded, popped, hopened, ?_⟩
  rw [hran]
  exact {
    memoryOpens := houter
    validationOpens := hinner
    opened := hscopes
    encodes := hrun
    kept := hsteady.scopes
    validationCloses := hfirst
    memoryCloses := hsecond
    validation := rfl
    memory := rfl
    closed := rfl
    spent := ⟨hsteady.injected ▸ hvalidation, hsteady.injected ▸ hmemory⟩ }

/-! ## Who opens scopes -/

variable {spared : List DeviceCall} {R : Pool.Request ν → Prop} {plan : PlanId} {m : Move ν α} {t : SubmissionId}

omit [Channel α] [Stored α] [Transfer α] in
theorem Chore.scopes (h : e.Able spared) (hc : e.Chore e') : e'.pool.device.scopes = e.pool.device.scopes := by
  cases hc with
  | note | schedule | settle | addJob | setJob | addPlan | makeArray | cache => rfl
  | pool pool hu => exact (h.pool.uses_steady hu).scopes
  | device device hd => exact hd.scopes
  | compile key hopen => exact (e.cache.compile_compiles e.pool.device key).device.scopes

theorem Accepts.brackets {rec : PlanRecord ν α} {pool : Pool ν α} {device : Device ν α} (h : e.Able scopeCalls)
    (ha : e.Accepts plan rec pool device) : e.pool.device.Steady pool.device ∧
      ∃ outer encoded popped, Scoped pool.arena plan rec.plan.stages
        (ran e.token plan pool.arena device rec.plan.stages).1 pool.device outer device encoded popped
        (ran e.token plan pool.arena device rec.plan.stages).2 := by
  have hquiet := acquireAll_quiet h.pool.sound [] (rec.plan.stages.flatMap Stage.handles)
  rw [ha.acquired] at hquiet
  have hspared : ∀ x ∈ pool.device.faults, x.1 ∉ scopeCalls := fun x hx => h.pool.faults x (hquiet.device.faults hx)
  obtain ⟨outer, inner, encoded, popped, hopened, hscoped⟩ :=
      ran_scoped hspared e.token plan pool.arena rec.plan.stages
  obtain rfl : device = inner := congrArg Prod.snd (ha.opened.symm.trans hopened)
  exact ⟨hquiet.device, outer, encoded, popped, hscoped⟩

theorem submit_scopes (h : e.Able scopeCalls) (plan : PlanId) :
    (e.submit plan).2.pool.device.scopes = e.pool.device.scopes := by
  cases hr : (e.submit plan).1 with
  | error failure =>
    have hrefused : e.submit plan = (.error failure, (e.submit plan).2) := Prod.ext hr rfl
    obtain ⟨pool, -, hsteady, heq⟩ := submit_refused (h.mono (by decide)) hrefused
    rw [heq]
    exact hsteady.scopes
  | ok t =>
    obtain ⟨rec, pool, device, haccepts, -⟩ := accepts_of_ok hr
    obtain ⟨hsteady, outer, encoded, popped, hscoped⟩ := haccepts.brackets h
    rw [haccepts.submit]
    exact hscoped.closed.trans hsteady.scopes

theorem Deed.scopes (h : e.Able scopeCalls) (hd : Deed R e e') : e'.pool.device.scopes = e.pool.device.scopes := by
  cases hd with
  | act ha =>
    cases ha with
    | chore hc => exact hc.scopes h
    | submit plan => exact submit_scopes h plan
    | finish token =>
      unfold finish
      split
      · rfl
      · rename_i handles _
        exact (Pool.each_relinquish_spec h.pool.sound handles).1.device.scopes
    | request r hr =>
      by_cases hscript : ∃ faults, r = .script faults
      · obtain ⟨faults, rfl⟩ := hscript
        rfl
      · exact (r.perform_steady h.pool.sound fun faults hf => hscript ⟨faults, hf⟩).scopes
    | deliver | fill | addWait | await | tell | collect | discard | forget => rfl
  | phase | closeCache => rfl
  | destroyDevice => exact e.pool.device.destroy_steady.scopes

theorem Deeds.scopes (hR : ∀ r, R r → r.Spares scopeCalls) (h : e.Able scopeCalls) (hd : Deeds R e e') :
    e'.pool.device.scopes = e.pool.device.scopes := by
  induction hd with
  | refl => rfl
  | tail hd hlast ih => exact (hlast.scopes (Deeds.able hR h hd)).trans ih

/-- A move leaves the scopes as they are, and the calls able that open and close them. -/
theorem move_scopes (h : e.Able scopeCalls) (hm : m.LeavesScopes) :
    (e.move m).Able scopeCalls ∧ (e.move m).pool.device.scopes = e.pool.device.scopes := by
  obtain ⟨turns, -, hdeeds⟩ := move_deeds (R := Pool.Request.Spares scopeCalls) h.sorted m (fun _ => trivial)
    (fun op r _ hr => by cases op <;> cases hr <;> trivial) fun call raised hcall x hx => by
      subst hcall
      rcases List.mem_append.mp hx with hx | hx
      · exact h.pool.faults x hx
      · rw [List.mem_singleton.mp hx]
        exact hm
  have hable : ({ e with turns } : Engine ν α).Able scopeCalls := ⟨h.pool, h.sorted⟩
  have hsame := Deeds.scopes (fun _ hr => hr) hable hdeeds
  exact ⟨Deeds.able (fun _ hr => hr) hable hdeeds, hsame⟩

/-! ## What a submission encodes -/

/-- A move submits a plan, and `s` is what came of its encoding. -/
structure Encodes (e : Engine ν α) (m : Move ν α) (plan : PlanId) (s : Encoded ν) : Prop where
  submits : e.Submits m plan s.token
  brackets : ∃ rec pool outer inner encoded popped, e.plans[plan]? = some rec ∧
    acquireAll e.pool [] (rec.plan.stages.flatMap Stage.handles) = (.ok (), pool) ∧
    pool.device.scopes = e.pool.device.scopes ∧ pool.device.injected = e.pool.device.injected ∧
    Scoped pool.arena plan rec.plan.stages s pool.device outer inner encoded popped (e.move m).pool.device ∧
    (e.move m).session.pending = e.session.pending ++ [(s.token, rec.plan.stages.flatMap Stage.handles)]
  goes : ∃ delay, (delay, .scopesClosed s) ∈ (e.move m).turns

theorem Submits.brackets (h : e.Able scopeCalls) (hs : e.Submits m plan t) :
    ∃ s, s.token = t ∧ e.Encodes m plan s := by
  have hbegun (turns : List (Nat × Turn ν α)) {rec : PlanRecord ν α} {pool : Pool ν α} {device : Device ν α}
      (ha : Accepts { e with turns } plan rec pool device) (ht : t = e.token)
      (hpool : (e.move m).pool = (({ e with turns } : Engine ν α).submitting plan rec pool device).pool)
      (hpending : (e.move m).session.pending =
        (({ e with turns } : Engine ν α).submitting plan rec pool device).session.pending)
      (hturns : (({ e with turns } : Engine ν α).submitting plan rec pool device).turns ⊆ (e.move m).turns) :
      ∃ s, s.token = t ∧ e.Encodes m plan s := by
    have hable : ({ e with turns } : Engine ν α).Able scopeCalls := ⟨h.pool, h.sorted⟩
    obtain ⟨hsteady, outer, encoded, popped, hscoped⟩ := ha.brackets hable
    subst ht
    refine ⟨(ran e.token plan pool.arena device rec.plan.stages).1, rfl, hs,
      ⟨rec, pool, outer, device, encoded, popped,
      ha.record, ha.acquired, hsteady.scopes, hsteady.injected, ?_, hpending⟩, 2,
      hturns (List.mem_append_right _ (List.mem_singleton_self _))⟩
    rw [hpool]
    exact hscoped
  rcases id hs with ⟨rfl, hsubmit⟩ | ⟨job, hsubmit⟩
  · obtain ⟨hok, heq⟩ := submit_of_apply hsubmit
    obtain ⟨rec, pool, device, haccepts, ht⟩ := accepts_of_ok hok
    have hmove : e.move (.call (.submit plan)) = e.submitting plan rec pool device := by
      show (e.apply (.submit plan)).2 = _
      rw [heq, haccepts.submit]
    exact hbegun e.turns haccepts ht (by rw [hmove]) (by rw [hmove]) (by rw [hmove]; exact List.Subset.refl _)
  · obtain ⟨delay, rest, c, listeners, rec, pool, device, -, -, haccepts, ht, hmove⟩ := hsubmit.move_eq
    have hwaits := waitFor_bystands
      ({ (({ e with turns := rest } : Engine ν α).submitting plan rec pool device).setCall job
        { c with phase := .draining plan t } with listeners } : Engine ν α) job t
    refine hbegun rest haccepts ht (by rw [hmove, waitFor_pool]; rfl) ?_ ?_
    · rw [hmove, waitFor_session]
      split <;> rfl
    · obtain ⟨more, hmore, -⟩ := hwaits.turns
      rw [hmove, hmore]
      exact List.subset_append_left ..

end Engine

end Strata
