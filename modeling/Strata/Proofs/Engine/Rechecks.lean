import Strata.Proofs.Engine.Answers
import Strata.Proofs.Plan.Bindings
import Strata.Proofs.Plan.Checks

/-!
# Slots that go while pipelines are built

A stack is checked before its pipelines are built, and its slots are used when they are there. The destination and
the sources are looked up again, so a plan that is made names live slots, and a call whose slots have gone fails
(`plans_name_live`). Slots that nothing but uploads go to are not looked up again, and may have gone
(`upload_target_gone`).
-/

namespace Strata

variable {ν α : Type}

namespace Engine

variable [Measure ν] [Channel α] [Stored α] [Transfer α]

/-- When a call for a plan is answered with one, all slots of its stack are live, and so is every slot that the
stages name, but for those to which only uploads of the caller go. When the call goes on over an arena in which a
slot of its stack has gone, it fails for a slot that has. -/
theorem plans_name_live {start : Engine ν α} (hstart : start.Opened) (moves moves' : List (Move ν α))
    (stack : List (BlendDescriptor ν α)) (uploads : List (Upload α)) (m : Move ν α) :
    let e := start.run moves
    let before := (e.move (.call (.makePlan stack uploads))).run moves'
    (∀ id, before.MakesPlan m e.jobs.size id → ∃ rec, (before.move m).plans[id]? = some rec ∧
      (∀ d ∈ stack, before.pool.arena.contains d.source = true ∧ before.pool.arena.contains d.destination = true) ∧
      ∀ s ∈ rec.plan.stages, ∀ k, s.Names k → (before.move m).pool.arena.contains k = true ∨
        (∃ data, s = .upload k data ∧ ⟨k, data⟩ ∈ uploads) ∧ e.pool.arena.contains k = true ∧
          ∀ d ∈ stack, k ≠ d.source ∧ k ≠ d.destination) ∧
    ∀ p pipelines, before.jobs[e.jobs.size]? = some (.plan p) →
      before.Takes m (.planReady e.jobs.size (.ok pipelines)) →
      before.pool.arena.closing = none →
      (∃ d ∈ stack, before.pool.arena.contains d.source = false ∨
        before.pool.arena.contains d.destination = false) →
      ∃ k, (∃ d ∈ stack, k = d.source ∨ k = d.destination) ∧ before.pool.arena.contains k = false ∧
        (e.jobs.size, .error (.of (.staleHandle k))) ∈ (before.move m).settled := by
  intro e before
  constructor
  · intro id hanswers
    obtain ⟨draft, pipelines, rec, hcheck, -, hsound, -, hemit, hrec⟩ :=
      makePlan_answered hstart moves moves' stack uploads m id hanswers
    obtain ⟨base, r, hpassed⟩ := Draft.check_passed hcheck
    obtain ⟨target, htarget, _, _, _, -, hprovided⟩ := Draft.emit_drawn hsound hemit
    obtain ⟨grants, hgains, -⟩ := hprovided.gains
    have hneeds {k : Handle} (hk : k ∈ draft.needs) : before.pool.arena.contains k = true := by
      rcases List.mem_cons.mp hk with rfl | hk
      · exact Arena.contains_of_resolve htarget
      · obtain ⟨step, hs, rfl⟩ := List.mem_map.mp hk
        exact Draft.emit_sources hemit step hs
    refine ⟨rec, hrec, fun d hd => ⟨?_, ?_⟩, fun s hs k hk => ?_⟩
    · exact hneeds (hpassed.needs.mpr ⟨d, hd, .inl rfl⟩)
    · exact hneeds (hpassed.needs.mpr ⟨d, hd, .inr rfl⟩)
    · by_cases hlive : (before.move m).pool.arena.contains k = true
      · exact .inl hlive
      · obtain ⟨data, rfl, hu⟩ := (Draft.emit_live hsound hemit s hs k hk).resolve_left hlive
        rw [hpassed.carried] at hu
        obtain ⟨u, hu', -⟩ := hpassed.uploads _ hu
        refine .inr ⟨⟨data, rfl, hu⟩, Arena.contains_of_resolve hu', fun d hd => ?_⟩
        -- what is live as the plan is made stays so
        have hgone : k ∉ draft.needs := fun hk => hlive ((hgains.contains k).mpr (.inl (hneeds hk)))
        exact ⟨fun hk => hgone (hpassed.needs.mpr ⟨d, hd, .inl hk⟩), fun hk =>
          hgone (hpassed.needs.mpr ⟨d, hd, .inr hk⟩)⟩
  · intro p pipelines hjob htakes hopen hgone
    obtain ⟨D, h, hentry⟩ := makePlan_planned hstart moves moves' stack uploads
    obtain ⟨d, hd, -⟩ : Stands D e.jobs.size (.plan p) := h.prepares.jobs _ _ hjob
    obtain ⟨-, hcheck⟩ := hentry d hd
    obtain ⟨base, r, hpassed⟩ := Draft.check_passed hcheck
    obtain ⟨k, hk, hstale⟩ : ∃ k ∈ d.1.needs, before.pool.arena.contains k = false := by
      obtain ⟨b, hb, hgone | hgone⟩ := hgone
      · exact ⟨b.source, hpassed.needs.mpr ⟨b, hb, .inl rfl⟩, hgone⟩
      · exact ⟨b.destination, hpassed.needs.mpr ⟨b, hb, .inr rfl⟩, hgone⟩
    obtain ⟨k', hk', hstale', hemit⟩ := Draft.emit_stale h.able.pool.sound hopen hk hstale pipelines
    exact ⟨k', hpassed.needs.mp hk', hstale', plan_refused h hjob hd htakes (congrArg Prod.fst hemit)⟩

/-! ### A slot goes while a pipeline is built -/

namespace Gone

open Thrice (source destination start)

def extra : Handle := ⟨.number 2, .number 0⟩

def moves : List (Move Int Bool) := Thrice.moves ++ [.call (.allocate (.image .storage .float32 1 1) 16)]

def stack : List (BlendDescriptor Int Bool) := [⟨source, destination, "source-over", "srgb", true, none⟩]

def uploads : List (Upload Bool) := [⟨source, ⟨4, #[]⟩⟩, ⟨extra, ⟨4, #[]⟩⟩]

/-- A slot is released after the plan was asked for, and the pipeline arrives. -/
def after (k : Handle) : List (Move Int Bool) := .call (.release k) :: List.replicate 3 .fire

def before (k : Handle) : Engine Int Bool :=
  ((start.run moves).move (.call (.makePlan stack uploads))).run (after k)

def ready (e : Engine Int Bool) : Bool := match e.turns, (e.jobs[0]? : Option (Job Int Bool)) with
  | (delay, .planReady 0 (.ok _)) :: _, some (.plan _) => decide (delay ≤ 1)
  | _, _ => false

theorem takes_of_ready {e : Engine Int Bool} (h : ready e = true) :
    ∃ p pipelines, e.jobs[0]? = some (.plan p) ∧ e.Takes .fire (.planReady 0 (.ok pipelines)) := by
  unfold ready at h
  split at h
  · rename_i delay pipelines rest p hturns hjob
    exact ⟨p, pipelines, hjob, delay, rest, hturns, of_decide_eq_true h⟩
  · cases h

def fills (k : Handle) (rec : PlanRecord Int Bool) : Bool := rec.plan.stages.any fun
  | .upload handle _ => handle == k
  | _ => false

/-- Without the source no plan is made, and without the other slot one is, which fills it. -/
theorem before_spec : (ready (before source) = true ∧ (before source).pool.arena.closing.isNone = true ∧
      (before source).pool.arena.contains source = false) ∧
    ((before extra).settled.isEmpty = true ∧ ((before extra).move .fire).answersPlan 0 0 = true) ∧
    (((before extra).move .fire).plans[0]?.map (fills extra)) = some true ∧
      ((before extra).move .fire).pool.arena.contains extra = false := by decide +kernel

theorem makesPlan_extra : (before extra).MakesPlan .fire 0 0 :=
  makesPlan_of_first before_spec.2.1.1 before_spec.2.1.2

end Gone

open Gone in
theorem plans_name_live_released : Thrice.start.Opened ∧
    (∃ p pipelines, (before Thrice.source).jobs[0]? = some (.plan p) ∧
      (before Thrice.source).Takes .fire (.planReady 0 (.ok pipelines))) ∧
    (before Thrice.source).pool.arena.contains Thrice.source = false ∧
    (∃ k, (0, .error (.of (.staleHandle k))) ∈ ((before Thrice.source).move .fire).settled) ∧
    (before extra).MakesPlan .fire 0 0 ∧ ((before extra).pool.arena.contains Thrice.source = true) := by
  have hstart : Thrice.start.Opened := ⟨{ limits := .standard }, {}, .object [], rfl⟩
  obtain ⟨⟨hready, hopen, hgone⟩, -⟩ := before_spec
  obtain ⟨p, pipelines, hjob, htakes⟩ := takes_of_ready hready
  obtain ⟨k, -, -, hk⟩ := (plans_name_live hstart moves (after Thrice.source) stack uploads .fire).2 p
    pipelines hjob htakes (Option.isNone_iff_eq_none.mp hopen) ⟨_, List.mem_singleton_self _, .inl hgone⟩
  obtain ⟨rec, -, hlive, -⟩ := (plans_name_live hstart moves (after extra) stack uploads .fire).1 0 makesPlan_extra
  exact ⟨hstart, ⟨p, pipelines, hjob, htakes⟩, hgone, ⟨k, hk⟩, makesPlan_extra,
    (hlive _ (List.mem_singleton_self _)).1⟩

open Gone in
/-- A plan uploads to a slot that has gone. -/
theorem upload_target_gone : (before extra).MakesPlan .fire 0 0 ∧ ∃ rec : PlanRecord Int Bool,
    ((before extra).move .fire).plans[0]? = some rec ∧ (∃ s ∈ rec.plan.stages, s.Names extra) ∧
      ((before extra).move .fire).pool.arena.contains extra = false := by
  obtain ⟨-, -, hfills, hgone⟩ := before_spec
  obtain ⟨rec, hrec, hfill⟩ := Option.map_eq_some_iff.mp hfills
  obtain ⟨s, hs, hh⟩ := List.any_eq_true.mp hfill
  refine ⟨makesPlan_extra, rec, hrec, ⟨s, hs, ?_⟩, hgone⟩
  split at hh
  · exact List.mem_singleton.mpr (eq_of_beq hh).symm
  · cases hh

end Engine

end Strata
