import Strata.Proofs.Color.Bits
import Strata.Proofs.Engine.InFlight
import Strata.Proofs.Engine.Works

/-!
# Composite calls leave no slot behind

In any run, what a composite call allocates is live only while the call needs it, no other call needs it, and no
submission refers to it but those that the call made (`Kept`). Once the call has ended and these have finished, all
of it is free (`composites_leak_nothing`).
-/

namespace Strata.Engine

variable {ν α : Type} {e e' : Engine ν α} {j : JobId} {m : Move ν α} {k : Handle}

/-! ## Slots that are given up are free, or referred to -/

section
variable [Measure ν]

theorem Chore.swept (h : e.pool.arena.Swept) (hc : e.Chore e') : e'.pool.arena.Swept := by
  cases hc with
  | note | schedule | settle | addJob | setJob | addPlan | makeArray | device | compile | cache => exact h
  | pool pool hu =>
    show pool.arena.Swept
    induction hu with
    | refl => exact h
    | tail _ hu ih =>
      obtain ⟨r, -, rfl⟩ := hu
      exact r.perform_swept ih

theorem each_relinquish_swept {pool : Pool ν α} (h : pool.arena.Swept) (handles : List Handle) :
    (Attempt.each Pool.relinquish pool handles).2.arena.Swept :=
  Attempt.each_keeps (P := fun p : Pool ν α => p.arena.Swept) (fun _ hp k _ => Pool.relinquish_swept hp k) h

theorem acquireAll_swept {pool : Pool ν α} (h : pool.arena.Swept) (taken handles : List Handle) :
    (acquireAll pool taken handles).2.arena.Swept := by
  induction handles generalizing pool taken with
  | nil => exact h
  | cons k rest ih =>
    have hacquire := Pool.acquire_swept h k
    unfold acquireAll
    generalize pool.acquire k = r at hacquire
    obtain ⟨r, pool'⟩ := r
    cases r with
    | error failure =>
      show ((Attempt.each Pool.relinquish pool' taken.reverse).endWith
        (.error failure : Except Failure Unit)).2.arena.Swept
      rw [Attempt.endWith_snd]
      exact each_relinquish_swept hacquire _
    | ok ref => exact ih hacquire _

theorem finish_swept (h : e.pool.arena.Swept) (token : SubmissionId) : (e.finish token).2.pool.arena.Swept := by
  unfold finish
  split
  · exact h
  · exact each_relinquish_swept h _

variable [Channel α] [Stored α] [Transfer α]

theorem submit_swept (h : e.pool.arena.Swept) (plan : PlanId) : (e.submit plan).2.pool.arena.Swept := by
  have hacquire := acquireAll_swept h []
  rcases e.submit_cases plan with heq | ⟨rec, failure, pool, -, hpool, heq⟩ |
    ⟨rec, pool, device, turns, completion, -, -, hpool, -, heq⟩
  all_goals rw [heq]
  · exact h
  all_goals
    have hswept := hacquire (rec.plan.stages.flatMap Stage.handles)
    rw [hpool] at hswept
    exact hswept

variable {R : Pool.Request ν → Prop}

theorem Act.swept (h : e.pool.arena.Swept) (ha : Act R e e') : e'.pool.arena.Swept := by
  cases ha with
  | chore hc => exact hc.swept h
  | submit plan => exact submit_swept h plan
  | finish token => exact finish_swept h token
  | request r _ => exact r.perform_swept h
  | deliver | fill | addWait | await | tell | collect | discard | forget => exact h

theorem Deeds.swept (h : e.pool.arena.Swept) (hd : Deeds R e e') : e'.pool.arena.Swept := by
  induction hd with
  | refl => exact h
  | tail _ hd ih =>
    cases hd with
    | act ha => exact ha.swept ih
    | phase | closeCache | destroyDevice => exact ih

theorem move_swept (hs : e.Sorted) (h : e.pool.arena.Swept) (m : Move ν α) : (e.move m).pool.arena.Swept := by
  obtain ⟨turns, -, hdeeds⟩ := move_deeds (R := fun _ => True) hs m (fun _ => trivial) (fun _ _ _ _ => trivial)
    fun _ _ _ => trivial
  exact Deeds.swept (e := { e with turns }) h hdeeds

/-! ## What is submitted -/

theorem submit_pending (e : Engine ν α) (plan : PlanId) : ∀ x ∈ (e.submit plan).2.session.pending,
    x ∈ e.session.pending ∨ ∃ rec, e.plans[plan]? = some rec ∧ x.2 = rec.plan.stages.flatMap Stage.handles := by
  unfold submit
  split
  · exact fun _ => .inl
  · exact fun _ => .inl
  · rename_i rec _ hrec
    split
    · exact fun _ => .inl
    · dsimp only
      split
      · exact fun _ => .inl
      · rename_i pool _
        obtain ⟨device, hdevice, -⟩ := (e.begun plan rec pool).execute_eq e.token plan rec.plan
        have hpending : ∀ x ∈ ((e.begun plan rec pool).execute e.token plan rec.plan).2.session.pending,
            x ∈ e.session.pending ∨ ∃ rec, e.plans[plan]? = some rec ∧
              x.2 = rec.plan.stages.flatMap Stage.handles := by
          rw [hdevice]
          intro x hx
          refine (List.mem_append.mp hx).imp_right fun hx => ⟨rec, hrec, ?_⟩
          rw [List.mem_singleton.mp hx]
        unfold begun token at hpending
        split
        all_goals
          rename_i heq
          rw [heq] at hpending
          exact hpending

theorem planned_pending (hp : ∀ c, e.call? j = some c → e.Poised j c) : ∀ x ∈ (e.planned j).session.pending,
    x ∈ e.session.pending ∨ ∀ k ∈ x.2, e.Needs j k := by
  have hleave (e' : Engine ν α) (owned : List Handle) (result : Except Failure (Raster ν α)) :
      (e'.leave j owned result).session = e'.session := (leave_chores e' j owned result).session
  have hwait (e' : Engine ν α) (token : SubmissionId) : (e'.waitFor j token).session.pending =
      e'.session.pending := by
    rw [waitFor_session]
    split <;> rfl
  unfold planned
  split
  · rename_i c hc
    split
    · rw [hleave]
      exact fun _ => .inl
    · rename_i plan hphase
      have hplan : c.phase.plan? = some plan := by
        rw [hphase]
        rfl
      have hsubmit : ∀ x ∈ (e.submit plan).2.session.pending, x ∈ e.session.pending ∨ ∀ k ∈ x.2, e.Needs j k := by
        intro x hx
        refine (e.submit_pending plan x hx).imp_right fun ⟨rec, hrec, hx⟩ k hk => ⟨c, hc, ?_⟩
        obtain ⟨rec', hrec', hstages⟩ := (hp c hc).plan plan hplan
        rw [hrec] at hrec'
        cases hrec'
        rw [hx] at hk
        obtain ⟨s, hs, hk⟩ := List.mem_flatMap.mp hk
        rw [claims_some hplan, List.mem_append]
        unfold ownedBy
        rw [hrec]
        exact hstages s hs k hk
      split
      · rw [hleave]
        exact fun _ => .inl
      · split
        all_goals
          rename_i heq
          rw [heq] at hsubmit
        · rw [hleave]
          exact hsubmit
        · rw [hwait]
          split <;> exact hsubmit
    · exact fun _ => .inl
  · exact fun _ => .inl

/-- What is submitted is submitted by hand, or by a call over its own slots. -/
theorem move_pending (h : e.Tracked) (hp : ∀ i c, e.call? i = some c → e.Poised i c) (hm : m.Exclusive) :
    ∀ x ∈ (e.move m).session.pending, x ∈ e.session.pending ∨ (∃ plan, m = .call (.submit plan)) ∨
      ∃ i, e.Takes m (.planned i) ∧ ∀ k ∈ x.2, e.Needs i k := by
  intro x hx
  have hfollows := move_follows h hm
  rcases hfollows.pending x hx with hx | ⟨-, n, hn, hnum⟩
  · exact .inl hx
  · rcases move_next h.sorted m with hsame | ⟨-, hby⟩
    · -- No token was handed out.
      obtain ⟨n', hn', hnum'⟩ := hfollows.tracked.numbered x hx
      rw [hnum] at hnum'
      cases hnum'
      rw [hsame] at hn'
      exact absurd hn' (Nat.not_lt.mpr hn)
    · rcases hby with hhand | ⟨i, htakes⟩
      · exact .inr (.inl hhand)
      · rcases e.move_cases m with ⟨op, rfl⟩ | ⟨t, delay, rest, htakes', hperm, heq⟩ | ⟨hnone, -⟩
        · exact htakes.elim
        · obtain rfl : t = .planned i := htakes'.unique htakes
          let e₁ : Engine ν α := { e with turns := rest }
          have hpoised (c : CompositeCall ν α) (hc : e₁.call? i = some c) : e₁.Poised i c := by
            have hends := ends_take hperm i
            exact (hp i c hc).later hends.symm (fun _ rec hrec => ⟨rec, hrec, rfl⟩) (.refl _)
          have hx' : x ∈ (e₁.planned i).session.pending := by
            rw [heq] at hx
            exact hx
          exact (planned_pending hpoised x hx').imp_right fun hneeds => .inr ⟨i, htakes, hneeds⟩
        · exact absurd htakes (hnone _)

/-! ## What happened in a run -/

/-- At some move of a run, something was the case. -/
def Along (start : Engine ν α) (moves : List (Move ν α)) (P : Engine ν α → Move ν α → Prop) : Prop :=
  ∃ before m after, moves = before ++ m :: after ∧ P (start.run before) m

theorem along_append {start : Engine ν α} {moves : List (Move ν α)} {P : Engine ν α → Move ν α → Prop} :
    start.Along (moves ++ [m]) P ↔ start.Along moves P ∨ P (start.run moves) m := by
  constructor
  · rintro ⟨before, m', after, heq, hP⟩
    rcases List.eq_nil_or_concat after with rfl | ⟨rest, m'', rfl⟩
    · obtain ⟨rfl, hlast⟩ := List.append_inj' heq rfl
      obtain rfl := List.singleton_inj.mp hlast
      exact .inr hP
    · rw [List.concat_eq_append, ← List.cons_append, ← List.append_assoc] at heq
      obtain ⟨rfl, -⟩ := List.append_inj' heq rfl
      exact .inl ⟨before, m', rest, rfl, hP⟩
  · rintro (⟨before, m', after, rfl, hP⟩ | hP)
    · exact ⟨before, m', after ++ [m], by rw [List.append_assoc, List.cons_append], hP⟩
    · exact ⟨moves, m, [], rfl, hP⟩

/-- A composite call allocates a slot, and be it that it gives it up at once. -/
def Allocates (start : Engine ν α) (moves : List (Move ν α)) (j : JobId) (k : Handle) : Prop :=
  start.Along moves fun e m => e.WorksFor m j ∧ ¬e.pool.arena.Issued k ∧ (e.move m).pool.arena.Issued k

/-- A submission, with the slots that it refers to, is entered during a move. -/
def Enters (e : Engine ν α) (m : Move ν α) (x : SubmissionId × List Handle) : Prop :=
  x ∉ e.session.pending ∧ x ∈ (e.move m).session.pending

def Sends (start : Engine ν α) (moves : List (Move ν α)) (j : JobId) (x : SubmissionId × List Handle) : Prop :=
  start.Along moves fun e m => e.Takes m (.planned j) ∧ e.Enters m x

def SendsByHand (start : Engine ν α) (moves : List (Move ν α)) (x : SubmissionId × List Handle) : Prop :=
  start.Along moves fun e m => (∃ plan, m = .call (.submit plan)) ∧ e.Enters m x

/-- What a call has allocated is its own while it is live, and referred to only by what was sent for the call or by
hand. -/
structure Kept (start : Engine ν α) (moves : List (Move ν α)) (j : JobId) : Prop where
  tracked : (start.run moves).Tracked
  swept : (start.run moves).pool.arena.Swept
  tidy : (start.run moves).Tidy
  poised : ∀ i c, (start.run moves).call? i = some c → (start.run moves).Poised i c
  issued : ∀ k, start.Allocates moves j k → (start.run moves).pool.arena.Issued k
  needed : ∀ k, start.Allocates moves j k → (start.run moves).pool.arena.contains k = true →
    (start.run moves).Needs j k
  apart : ∀ k, start.Allocates moves j k → ∀ i, i ≠ j → ¬(start.run moves).Needs i k
  pending : ∀ x ∈ (start.run moves).session.pending, ∀ k ∈ x.2, start.Allocates moves j k →
    start.Sends moves j x ∨ start.SendsByHand moves x

section
variable {start : Engine ν α} {moves : List (Move ν α)}

theorem allocates_concat : start.Allocates (moves ++ [m]) j k ↔ start.Allocates moves j k ∨
    (start.run moves).WorksFor m j ∧ ¬(start.run moves).pool.arena.Issued k ∧
      ((start.run moves).move m).pool.arena.Issued k := along_append

theorem Allocates.before (h : start.Allocates (moves ++ [m]) j k) (hi : (start.run moves).pool.arena.Issued k) :
    start.Allocates moves j k :=
  (allocates_concat.mp h).resolve_right fun hnew => hnew.2.1 hi

namespace Kept

theorem works (h : start.Kept moves j) {i : JobId} (hi : (start.run moves).WorksFor m i) :
    (start.run moves).Works i ((start.run moves).move m) :=
  move_works h.tracked.able h.tidy (h.poised i) hi

theorem needs_iff (h : start.Kept moves j) {i : JobId} (hi : ¬(start.run moves).WorksFor m i) (k : Handle) :
    ((start.run moves).move m).Needs i k ↔ (start.run moves).Needs i k :=
  ((move_respects h.tidy m).skips hi).needs (h.poised i) k

theorem move_needed (h : start.Kept moves j) (hm : m.Exclusive) (hk : start.Allocates (moves ++ [m]) j k)
    (hlive : ((start.run moves).move m).pool.arena.contains k = true) : ((start.run moves).move m).Needs j k := by
  by_cases hj : (start.run moves).WorksFor m j
  · refine ((h.works hj).keeps k hlive).resolve_left fun ⟨hlive, hnot⟩ => ?_
    exact hnot (h.needed k (hk.before (Arena.issued_of_contains hlive)) hlive)
  · have hk := (allocates_concat.mp hk).resolve_right fun hk => hj hk.1
    rw [h.needs_iff hj]
    refine h.needed k hk ?_
    -- a handle that was dead stays dead
    by_contra hdead
    rw [Arena.not_contains_later (h.issued k hk)
      (move_follows h.tracked hm).later (Bool.eq_false_iff.mpr hdead)] at hlive
    cases hlive

theorem move_apart (h : start.Kept moves j) (hk : start.Allocates (moves ++ [m]) j k) {i : JobId} (hij : i ≠ j) :
    ¬((start.run moves).move m).Needs i k := by
  intro hn
  by_cases hi : (start.run moves).WorksFor m i
  · have hk := (allocates_concat.mp hk).resolve_right fun hk => hij (hi.unique hk.1)
    exact ((h.works hi).fresh k hn).elim (h.apart k hk i hij) fun hnew => hnew (h.issued k hk)
  · have hn := (h.needs_iff hi k).mp hn
    obtain ⟨c, hc, hclaim⟩ := hn
    exact h.apart k (hk.before ((h.poised i c hc).issued k hclaim)) i hij ⟨c, hc, hclaim⟩

theorem move_sent (h : start.Kept moves j) (hm : m.Exclusive) {x : SubmissionId × List Handle}
    (hx : x ∈ ((start.run moves).move m).session.pending) (hkx : k ∈ x.2)
    (hk : start.Allocates (moves ++ [m]) j k) :
    start.Sends (moves ++ [m]) j x ∨ start.SendsByHand (moves ++ [m]) x := by
  by_cases hpend : x ∈ (start.run moves).session.pending
  · have hold := hk.before (h.tracked.tallied.counts.issued k (mem_held hpend hkx))
    exact (h.pending x hpend k hkx hold).imp (fun h => along_append.mpr (.inl h)) fun h => along_append.mpr (.inl h)
  · rcases move_pending h.tracked h.poised hm x hx with hx' | hsubmit | ⟨i, htakes, hneeds⟩
    · exact absurd hx' hpend
    · exact .inr (along_append.mpr (.inr ⟨hsubmit, hpend, hx⟩))
    · obtain ⟨c, hc, hclaim⟩ := hneeds k hkx
      by_cases hij : i = j
      · subst hij
        exact .inl (along_append.mpr (.inr ⟨htakes, hpend, hx⟩))
      · exact absurd ⟨c, hc, hclaim⟩ (h.apart k (hk.before ((h.poised i c hc).issued k hclaim)) i hij)

theorem step (h : start.Kept moves j) (hm : m.Exclusive) : start.Kept (moves ++ [m]) j := by
  have hfollows := move_follows h.tracked hm
  have hrespects := move_respects h.tidy m
  constructor <;> rw [run_snoc]
  case tracked => exact hfollows.tracked
  case swept => exact move_swept h.tracked.sorted h.swept m
  case tidy => exact hrespects.tidy
  case poised =>
    intro i c hc
    by_cases hi : (start.run moves).WorksFor m i
    · exact (h.works hi).poised c hc
    · exact (hrespects.skips hi).poised (h.poised i) hfollows.later c hc
  case issued =>
    exact fun k hk => (allocates_concat.mp hk).elim (fun hk => (h.issued k hk).later hfollows.later)
      fun hk => hk.2.2
  case needed => exact fun k hk hlive => h.move_needed hm hk hlive
  case apart => exact fun k hk i hij => h.move_apart hk hij
  case pending => exact fun x hx k hkx hk => h.move_sent hm hx hkx hk

end Kept

end

theorem Opened.kept {start : Engine ν α} (hstart : start.Opened) (hd : start.pool.Destroys) (j : JobId) :
    start.Kept [] j := by
  have htracked := hstart.tracked hd
  have hnone (k : Handle) : ¬start.Allocates [] j k := by
    rintro ⟨before, m, after, heq, -⟩
    cases before <;> cases heq
  obtain ⟨device, o, config, rfl⟩ := hstart.eq
  refine ⟨htracked, fun i => ?_, ⟨fun i ⟨b, hb, _⟩ => absurd hb List.not_mem_nil, fun i _ => rfl⟩, fun i c hc => ?_,
    fun k hk => absurd hk (hnone k), fun k hk => absurd hk (hnone k), fun k hk => absurd hk (hnone k),
    fun x hx => absurd hx List.not_mem_nil⟩
  · exact Arena.isSpent_of_size_le (Nat.zero_le i)
  · cases hc

theorem run_kept {start : Engine ν α} (hstart : start.Opened) (hd : start.pool.Destroys) {moves : List (Move ν α)}
    (hm : ∀ m ∈ moves, m.Exclusive) (j : JobId) : start.Kept moves j := by
  induction moves using List.reverseRecOn with
  | nil => exact hstart.kept hd j
  | append_singleton moves m ih =>
    have hlast : m ∈ moves ++ [m] := List.mem_append_right _ (List.mem_singleton_self m)
    exact (ih fun m' hm' => hm m' (List.mem_append_left _ hm')).step (hm m hlast)

/-- What a call has allocated is free once the call does not need it, and nothing refers to it that is pending. -/
theorem Kept.freed {start : Engine ν α} {moves : List (Move ν α)} (h : start.Kept moves j)
    (hneeds : ¬(start.run moves).Needs j k) (hk : start.Allocates moves j k)
    (hunheld : k ∉ (start.run moves).session.pending.flatMap (·.2)) :
    (start.run moves).pool.arena.contains k = false ∧
      ∀ i, (start.run moves).pool.arena.handleAt i = k →
      ((start.run moves).pool.arena.slotAt i).occupancy = .free := by
  have hdead : (start.run moves).pool.arena.contains k = false :=
    Bool.eq_false_iff.mpr fun hlive => hneeds (h.needed k hk hlive)
  refine ⟨hdead, fun i hi => ?_⟩
  cases ho : ((start.run moves).pool.arena.slotAt i).occupancy with
  | free => rfl
  | live c =>
    rw [Arena.contains_iff.mpr ⟨i, hi.symm, Slot.isLive_iff.mpr ⟨c, ho⟩⟩] at hdead
    cases hdead
  | released c =>
    -- A slot that is given up waits for references, and nothing refers to this one.
    have hrefs : ((start.run moves).pool.arena.slotAt i).refs =
        ((start.run moves).session.pending.flatMap (·.2)).count
        ((start.run moves).pool.arena.handleAt i) := h.tracked.tallied.counts.refs i
    rw [hi, List.count_eq_zero.mpr hunheld] at hrefs
    unfold Slot.refs Slot.contents? at hrefs
    rw [ho] at hrefs
    exact absurd hrefs (h.swept.released ho)

/-- Once a call has ended, and the submissions that it made have finished, all that it allocated in any of its
attempts is free, and nothing refers to it; unless a plan over its slots was submitted by hand. What slots count is
what the submissions that are pending refer to. -/
theorem composites_leak_nothing {start : Engine ν α} (hstart : start.Opened) (hd : start.pool.Destroys)
    {moves : List (Move ν α)} (hm : ∀ m ∈ moves, m.Exclusive) {j : JobId} {result : Except Failure (JobValue ν α)}
    (hended : (j, result) ∈ (start.run moves).settled)
    (hfinished : ∀ x ∈ (start.run moves).session.pending, ¬start.Sends moves j x)
    (hhand : ∀ x ∈ (start.run moves).session.pending, start.SendsByHand moves x → ∀ k ∈ x.2,
      ¬start.Allocates moves j k) :
    let e := start.run moves
    (∀ k, start.Allocates moves j k → e.pool.arena.contains k = false ∧ k ∉ e.session.pending.flatMap (·.2) ∧
      ∀ i, e.pool.arena.handleAt i = k → (e.pool.arena.slotAt i).occupancy = .free) ∧
    ∀ i, (e.pool.arena.slotAt i).refs = (e.session.pending.flatMap (·.2)).count (e.pool.arena.handleAt i) := by
  intro e
  have hkept := run_kept hstart hd hm j
  refine ⟨fun k hk => ?_, hkept.tracked.tallied.counts.refs⟩
  have hneeds : ¬e.Needs j k := by
    rintro ⟨c, hc, hclaim⟩
    have hpoised := hkept.poised j c hc
    have hends : e.ends j ≠ 0 := by
      have hpos : 0 < e.settled.countP (·.1 == j) := List.countP_pos_iff.mpr ⟨_, hended, beq_self_eq_true j⟩
      unfold ends
      omega
    cases hover : c.phase.isOver with
    | true =>
      rw [hpoised.claims_nil hover] at hclaim
      cases hclaim
    | false =>
      rw [hpoised.ends, hover] at hends
      exact hends rfl
  have hunheld : k ∉ e.session.pending.flatMap (·.2) := by
    intro hheld
    obtain ⟨x, hx, hkx⟩ := List.mem_flatMap.mp hheld
    rcases hkept.pending x hx k hkx hk with hsent | hsent
    · exact hfinished x hx hsent
    · exact hhand x hx hsent k hkx hk
  obtain ⟨hdead, hfree⟩ := hkept.freed hneeds hk hunheld
  exact ⟨hdead, hunheld, hfree⟩

end

namespace Aborted

def layer : Value Bool :=
  .object [("buffer", .object [("width", .number true), ("height", .number true), ("format", .string "rgba32float"),
    ("data", .singles #[true, false, true, true])]), ("mode", .string "source-over"), ("space", .string "srgb")]

def start : Engine Int Bool :=
  { bare { limits := .standard } {} with
    pool := ⟨{ options := ({} : EngineOptions Int).arena "Session" }, { limits := .standard }⟩
    config := Config.standard.update {}
    supervised := true }

def call : Move Int Bool := .call (.composite (.array [layer]) (.object [("signal", .abortSignal 0)]) false)

/-- What follows the call: its plan is in flight when it is aborted, and runs to its end. -/
def rest : List (Move Int Bool) := List.replicate 6 .fire ++ .call (.abort 0 none) :: List.replicate 12 .fire

def moves : List (Move Int Bool) := .call .newSignal :: call :: rest

end Aborted

open Aborted in
theorem composites_leak_nothing_aborted :
    (start.Opened ∧ start.pool.Destroys ∧ ∀ m ∈ moves, m.Exclusive) ∧
    (∃ result, (0, result) ∈ (start.run moves).settled) ∧ (start.run moves).session.pending = [] ∧
    start.Allocates moves 0 ⟨.number 0, .number 0⟩ ∧
    ∀ k, start.Allocates moves 0 k → (start.run moves).pool.arena.contains k = false ∧
      ∀ i, (start.run moves).pool.arena.handleAt i = k →
      ((start.run moves).pool.arena.slotAt i).occupancy = .free := by
  have hstart : start.Opened := ⟨{ limits := .standard }, {}, .object [], rfl⟩
  have hd : start.pool.Destroys := fun r hr => absurd hr List.not_mem_nil
  have hm : ∀ m ∈ moves, m.Exclusive := by
    simp [moves, call, rest, Move.Exclusive, Operation.Exclusive]
  have hended : (start.run moves).settled.any (·.1 == 0) = true := by decide +kernel
  obtain ⟨⟨j, result⟩, hmem, hj⟩ := List.any_eq_true.mp hended
  obtain rfl : j = 0 := beq_iff_eq.mp hj
  have hpending : (start.run moves).session.pending = [] := by decide +kernel
  have hidle {P : SubmissionId × List Handle → Prop} : ∀ x ∈ (start.run moves).session.pending, P x := by
    rw [hpending]
    exact fun x hx => absurd hx List.not_mem_nil
  have hempty : (start.run [.call .newSignal]).pool.arena.slotAt 0 = .empty := by decide +kernel
  have hlive : ((start.run [.call .newSignal]).move call).pool.arena.contains ⟨.number 0, .number 0⟩ = true := by
    decide +kernel
  have hallocates : start.Allocates moves 0 ⟨.number 0, .number 0⟩ := by
    refine ⟨[.call .newSignal], call, rest, rfl, .inl ⟨⟨_, _, _, rfl⟩, by decide +kernel⟩, ?_,
      Arena.issued_of_contains hlive⟩
    rintro ⟨i, g, heq, hissued⟩
    cases heq
    rw [hempty] at hissued
    exact hissued.elim (Nat.not_lt_zero _) fun h => h.2 rfl
  obtain ⟨hfree, -⟩ := composites_leak_nothing hstart hd hm hmem hidle hidle
  exact ⟨⟨hstart, hd, hm⟩, ⟨result, hmem⟩, hpending, hallocates, fun k hk => ⟨(hfree k hk).1, (hfree k hk).2.2⟩⟩

end Strata.Engine
