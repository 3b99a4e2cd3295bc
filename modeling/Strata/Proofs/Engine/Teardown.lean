import Strata.Proofs.Color.Bits
import Strata.Proofs.Engine.Able

/-!
# The end of a session is final

Once a session has lost or destroyed its device (`Engine.Ended`), nothing more is asked of the device than to
destroy buffers (`Device.Fades`), whatever was under way resumes and whatever is asked. The session stays ended,
and refuses everything with the code of its end.
-/

namespace Strata

open Relation

variable {ν α : Type} {spared : List DeviceCall} {code : ErrorCode}

/-! ## The device -/

namespace Device

theorem Fades.spent {d d' : Device ν α} (h : d.Fades d')
    (hd : ∀ (id : BufferId) (x : Buffer α), d.buffers[id]? = some x → x.destroyed = true) (id : BufferId)
    (x : Buffer α) (hx : d'.buffers[id]? = some x) : x.destroyed = true := by
  obtain ⟨hlt, -⟩ := Array.getElem?_eq_some_iff.mp hx
  have hold := Array.getElem?_eq_getElem (h.size ▸ hlt)
  obtain ⟨x', hx', hdestroyed⟩ := h.destroyed id _ hold
  rw [hx] at hx'
  cases hx'
  exact hdestroyed (hd id _ hold)

theorem destroy_spent {d : Device ν α} (hdevice : ∀ r, (DeviceCall.destroyDevice, r) ∉ d.faults)
    (hbuffer : ∀ r, (DeviceCall.destroyBuffer, r) ∉ d.faults) (id : BufferId) (x : Buffer α)
    (hx : d.destroy.2.buffers[id]? = some x) : x.destroyed = true := by
  have hall (l : List BufferId) (d : Device ν α) (h : ∀ r, (DeviceCall.destroyBuffer, r) ∉ d.faults) :
      let d' := (Attempt.each destroyBuffer d l).2
      d.Fades d' ∧ ∀ id ∈ l, ∀ x : Buffer α, d'.buffers[id]? = some x → x.destroyed = true := by
    induction l generalizing d with
    | nil => exact ⟨.refl d, nofun⟩
    | cons i l ih =>
      let marked : Device ν α :=
        { d with buffers := d.buffers.modify i fun buffer => { buffer with destroyed := true } }
      have hstep : d.destroyBuffer i = (.ok (), marked) := call_of_not_mem h _
      have heach : Attempt.each destroyBuffer d (i :: l) = Attempt.each destroyBuffer marked l := by
        rw [Attempt.each, hstep]
        rfl
      have hfirst : d.Fades marked := by
        have hdestroy := Fades.destroyBuffer d i
        rwa [hstep] at hdestroy
      obtain ⟨hfades, hrest⟩ := ih marked h
      rw [heach]
      refine ⟨hfirst.trans hfades, fun id hid x hx => ?_⟩
      rcases List.mem_cons.mp hid with rfl | hmem
      · -- The buffer is marked first, and stays so.
        obtain ⟨hlt, -⟩ := Array.getElem?_eq_some_iff.mp hx
        have hmarked : id < marked.buffers.size := hfades.size ▸ hlt
        obtain ⟨x', hx', hdestroyed⟩ := hfades.destroyed id _ (Array.getElem?_eq_getElem hmarked)
        rw [hx] at hx'
        cases hx'
        exact hdestroyed (by simp [marked, Array.getElem_modify])
      · exact hrest id hmem x hx
  unfold destroy Attempt.andThen at hx
  rw [call_of_not_mem hdevice] at hx
  obtain ⟨hfades, hdone⟩ := hall (List.range d.buffers.size) { d with destroyed := true } hbuffer
  obtain ⟨hlt, -⟩ := Array.getElem?_eq_some_iff.mp hx
  exact hdone id (List.mem_range.mpr (hfades.size ▸ hlt)) x hx

end Device

/-! ## The pool -/

namespace Pool

/-- Nothing more is asked of the device than to destroy buffers, and the arena is as closed as it was. -/
structure Wanes (p p' : Pool ν α) : Prop where
  fades : p.device.Fades p'.device
  closing : p'.arena.closing = p.arena.closing

namespace Wanes

variable {p p' p'' : Pool ν α}

theorem refl (p : Pool ν α) : p.Wanes p := ⟨.refl _, rfl⟩

theorem trans (h : p.Wanes p') (h' : p'.Wanes p'') : p.Wanes p'' :=
  ⟨h.fades.trans h'.fades, h'.closing.trans h.closing⟩

theorem setArena (h : p.Wanes p') {arena : Arena ν} (ha : arena.closing = p'.arena.closing) :
    p.Wanes { p' with arena } := ⟨h.fades, ha.trans h.closing⟩

theorem endWith {β : Type} {a : Attempt Failure (Pool ν α) Unit} (h : p.Wanes a.2) (answer : Except Failure β) :
    p.Wanes (a.endWith answer).2 := by
  rw [Attempt.endWith_snd]
  exact h

theorem destroyBacking (p : Pool ν α) (i : Nat) : p.Wanes (p.destroyBacking i).2 := by
  unfold Pool.destroyBacking
  split
  · exact .refl p
  · rename_i backing _
    have hfades := Device.Fades.destroyBuffer p.device backing.buffer
    split
    all_goals
      rename_i heq
      rw [heq] at hfades
    · exact ⟨hfades, rfl⟩
    · exact ⟨hfades, Arena.closing_modifySlot ..⟩

theorem dropBacking (p : Pool ν α) (i : Nat) : p.Wanes (p.dropBacking i).2 := by
  unfold Pool.dropBacking
  exact Attempt.andThen_keeps (P := fun p' : Pool ν α => p.Wanes p') (destroyBacking p i) fun _ _ =>
    (destroyBacking p i).setArena rfl

theorem trim (p : Pool ν α) : p.Wanes p.trim.2 :=
  Attempt.each_keeps (P := fun p' : Pool ν α => p.Wanes p') (fun p' h i _ => h.trans (dropBacking p' i)) (.refl p)

theorem invalidateSlot (p : Pool ν α) (i : Nat) : p.Wanes (p.invalidateSlot i).2 := by
  unfold Pool.invalidateSlot
  exact Attempt.andThen_keeps (P := fun p' : Pool ν α => p.Wanes p') (destroyBacking p i) fun _ _ =>
    (destroyBacking p i).setArena rfl

theorem invalidate (p : Pool ν α) : p.Wanes p.invalidate.2 := by
  have hall : p.Wanes (Attempt.each Pool.invalidateSlot { p with arena := { p.arena with free := [] } }
      (List.range p.arena.slots.size)).2 :=
    Attempt.each_keeps (P := fun p' : Pool ν α => p.Wanes p') (fun p' h i _ => h.trans (invalidateSlot p' i))
      ((Wanes.refl p).setArena rfl)
  unfold Pool.invalidate
  exact Attempt.andThen_keeps (P := fun p' : Pool ν α => p.Wanes p') hall fun _ _ => hall.setArena rfl

theorem acquire (p : Pool ν α) (h : Handle) : p.Wanes (p.acquire h).2 := by
  unfold Pool.acquire
  split
  · exact .refl p
  · exact (Wanes.refl p).setArena (Arena.closing_modifySlot ..)

variable [Measure ν]

theorem reclaim (p : Pool ν α) (i : Nat) : p.Wanes (p.reclaim i).2 := by
  have hfreed : p.Wanes { p with arena := p.arena.modifySlot i fun slot =>
      { slot with generation := slot.generation + 1, occupancy := .free } } :=
    (Wanes.refl p).setArena (Arena.closing_modifySlot ..)
  unfold Pool.reclaim
  dsimp only
  split
  · have hdropped := hfreed.trans (dropBacking _ i)
    exact Attempt.andThen_keeps (P := fun p' : Pool ν α => p.Wanes p') hdropped fun _ _ => hdropped.setArena rfl
  · exact Attempt.andThen_keeps (P := fun p' : Pool ν α => p.Wanes p') hfreed fun _ _ => hfreed.setArena rfl

theorem reclaimSpent (p : Pool ν α) (i : Nat) : p.Wanes (p.reclaimSpent i).2 := by
  unfold Pool.reclaimSpent
  split
  · exact reclaim p i
  · exact .refl p

theorem relinquish (p : Pool ν α) (h : Handle) : p.Wanes (p.relinquish h).2 := by
  unfold Pool.relinquish
  split
  · exact .refl p
  · rename_i i _
    exact ((Wanes.refl p).setArena (Arena.closing_modifySlot ..)).trans (reclaimSpent _ i)

theorem release (p : Pool ν α) (h : Handle) : p.Wanes (p.release h).2 := by
  unfold Pool.release
  split
  · exact .refl p
  · rename_i i _ _
    exact ((Wanes.refl p).setArena (Arena.closing_modifySlot ..)).trans (reclaimSpent _ i)

end Wanes

theorem close_fades (p : Pool ν α) (closing : Closing) : p.device.Fades (p.close closing).2.device := by
  unfold close
  exact Attempt.andThen_keeps (P := fun p' : Pool ν α => p.device.Fades p'.device) (Wanes.invalidate p).fades
    fun _ _ => (Wanes.invalidate p).fades

theorem close_closing {p : Pool ν α} {closing : Closing} (h : (p.close closing).1 = .ok ()) :
    (p.close closing).2.arena.closing = some closing := by
  unfold close Attempt.andThen at *
  generalize p.invalidate = r at *
  obtain ⟨r, p'⟩ := r
  cases r with
  | error failure => cases h
  | ok u => rfl

/-- A pool that was closed with a code. No handle is live, and no buffer is left. -/
structure Shut (code : ErrorCode) (p : Pool ν α) : Prop where
  closed : ∃ closing, p.arena.closing = some closing ∧ closing.code = code
  stale : ∀ h, p.arena.contains h = false
  spent : ∀ (id : BufferId) (x : Buffer α), p.device.buffers[id]? = some x → x.destroyed = true

variable [Measure ν] {p p' : Pool ν α}

theorem Shut.allocate (h : p.Shut code) (format : SlotFormat ν) (size : ν) :
    ∃ failure : Failure, failure.code? = some code ∧ p.allocate format size = (.error failure, p) := by
  obtain ⟨closing, hc, hcode⟩ := h.closed
  refine ⟨closing.failure, congrArg some hcode, ?_⟩
  unfold Pool.allocate Arena.checkOpen
  rw [hc]

/-- Whatever is requested of such a pool but to close it. -/
theorem Shut.perform (h : p.Shut code) (ha : p.Able spared) (hs : .destroyBuffer ∈ spared) {r : Request ν}
    (hr : ∀ closing, r ≠ .close closing) : (r.perform p).2.Shut code ∧ p.device.Fades (r.perform p).2.device := by
  have hwanes : p.Wanes (r.perform p).2 := by
    cases r with
    | allocate format size =>
      obtain ⟨failure, -, heq⟩ := h.allocate format size
      show p.Wanes (p.allocate format size).2
      rw [heq]
      exact .refl p
    | release k => exact (Wanes.release p k).endWith _
    | acquire k => exact Wanes.acquire p k
    | relinquish k => exact (Wanes.relinquish p k).endWith _
    | invalidate => exact (Wanes.invalidate p).endWith _
    | trim => exact (Wanes.trim p).endWith _
    | close closing => exact absurd rfl (hr closing)
    | script faults => exact ⟨⟨rfl, fun _ => rfl, fun _ x hx => ⟨x, hx, id⟩, rfl, rfl, rfl⟩, rfl⟩
    | limit bytes => exact ⟨⟨rfl, fun _ => rfl, fun _ x hx => ⟨x, hx, id⟩, rfl, rfl, rfl⟩, rfl⟩
  refine ⟨⟨?_, fun k => ?_, hwanes.fades.spent h.spent⟩, hwanes.fades⟩
  · rw [hwanes.closing]
    exact h.closed
  · rw [Bool.eq_false_iff]
    intro hk
    rcases ((r.perform_spec ha.sound).live (ha.destroys hs) k).mp hk with ⟨hk, -⟩ | hreturns
    · rw [h.stale k] at hk
      cases hk
    · obtain ⟨format, size, rfl⟩ := Request.returns_allocate hreturns
      obtain ⟨failure, -, heq⟩ := h.allocate format size
      change (p.allocate format size).1.map some = .ok (some k) at hreturns
      rw [heq] at hreturns
      cases hreturns

theorem Shut.uses (h : p.Shut code) (ha : p.Able spared) (hs : .destroyBuffer ∈ spared) (hu : p.Uses p') :
    p'.Shut code ∧ p.device.Fades p'.device := by
  have hall : p'.Able spared ∧ p'.Shut code ∧ p.device.Fades p'.device := by
    induction hu with
    | refl => exact ⟨ha, h, .refl _⟩
    | tail _ hu ih =>
      obtain ⟨r, hr, rfl⟩ := hu
      obtain ⟨hable, hshut, hfades⟩ := ih
      obtain ⟨hshut', hfades'⟩ := hshut.perform hable hs (r := r) (by rintro closing rfl; cases hr)
      exact ⟨hable.perform (by cases r <;> trivial), hshut', hfades.trans hfades'⟩
  exact hall.2

end Pool

/-! ## The engine -/

def Phase.code? : Phase → Option ErrorCode
  | ready => none
  | lost => some .deviceLost
  | destroyed => some .validation

namespace Engine

/-- A session has ended, and what ends with it. -/
structure Ended (code : ErrorCode) (e : Engine ν α) : Prop where
  phase : e.session.phase.code? = some code
  pool : e.pool.Shut code
  cache : ∃ closing, e.cache.closing = some closing ∧ closing.code = code
  idle : e.session.pending = []

variable {e e' e'' : Engine ν α}

theorem Ended.not_ready (h : e.Ended code) : e.session.phase ≠ .ready := by
  intro hready
  have hphase := h.phase
  rw [hready] at hphase
  cases hphase

/-! ### What an ended session keeps -/

section
variable [Measure ν] {R : Pool.Request ν → Prop}

theorem Chore.ended (ha : e.Able spared) (hs : .destroyBuffer ∈ spared) (h : e.Ended code) (hc : e.Chore e') :
    e'.Ended code ∧ e.pool.device.Fades e'.pool.device := by
  cases hc with
  | note | schedule | settle | addJob | setJob | addPlan | makeArray =>
    exact ⟨⟨h.phase, h.pool, h.cache, h.idle⟩, .refl _⟩
  | pool pool hu =>
    obtain ⟨hshut, hfades⟩ := h.pool.uses ha.pool hs hu
    exact ⟨⟨h.phase, hshut, h.cache, h.idle⟩, hfades⟩
  | device device hd =>
    have hfades := Device.Fades.of_rests hd
    exact ⟨⟨h.phase, ⟨h.pool.closed, h.pool.stale, hfades.spent h.pool.spent⟩, h.cache, h.idle⟩, hfades⟩
  | compile key hopen =>
    obtain ⟨closing, hclosing, -⟩ := h.cache
    rw [hopen] at hclosing
    cases hclosing
  | cache cache hclosing howes => exact ⟨⟨h.phase, h.pool, hclosing ▸ h.cache, h.idle⟩, .refl _⟩

variable [Channel α] [Stored α] [Transfer α]

/-- Requests that an ended session may meet: none closes it again. -/
def Meets (spared : List DeviceCall) (r : Pool.Request ν) : Prop := r.Spares spared ∧ ∀ closing, r ≠ .close closing

theorem Act.ended (hs : .destroyBuffer ∈ spared) (ha : e.Able spared) (h : e.Ended code)
    (hact : Act (Meets spared) e e') : e'.Ended code ∧ e.pool.device.Fades e'.pool.device := by
  cases hact with
  | chore hc => exact hc.ended ha hs h
  | submit plan =>
    rcases e.submit_cases plan with heq | ⟨rec, failure, pool, hready, -, heq⟩ |
      ⟨rec, pool, device, turns, completion, hready, -, -, -, heq⟩
    · rw [heq]
      exact ⟨h, .refl _⟩
    · exact absurd hready h.not_ready
    · exact absurd hready h.not_ready
  | finish token =>
    unfold Engine.finish
    rw [h.idle]
    exact ⟨h, .refl _⟩
  | request r hr =>
    obtain ⟨hshut, hfades⟩ := h.pool.perform ha.pool hs hr.2
    exact ⟨⟨h.phase, hshut, h.cache, h.idle⟩, hfades⟩
  | deliver | fill | addWait | await | tell | collect | discard | forget =>
    exact ⟨⟨h.phase, h.pool, h.cache, h.idle⟩, .refl _⟩

theorem Acts.ended (hs : .destroyBuffer ∈ spared) (ha : e.Able spared) (h : e.Ended code)
    (hacts : Acts (Meets spared) e e') : e'.Ended code ∧ e.pool.device.Fades e'.pool.device := by
  have hall : e'.Able spared ∧ e'.Ended code ∧ e.pool.device.Fades e'.pool.device := by
    induction hacts with
    | refl => exact ⟨ha, h, .refl _⟩
    | tail _ hact ih =>
      obtain ⟨hable, hended, hfades⟩ := ih
      obtain ⟨hended', hfades'⟩ := hact.ended hs hable hended
      exact ⟨hact.able (fun _ hr => hr.1) hable, hended', hfades.trans hfades'⟩
  exact hall.2

end

/-! ### How a session ends -/

theorem answerAll_kept (answers : List (PipelineWaiter × Except Failure Pipeline)) (e : Engine ν α) :
    (e.answerAll answers).pool = e.pool ∧ (e.answerAll answers).session = e.session ∧
      (e.answerAll answers).cache = e.cache ∧ (e.answerAll answers).completion = e.completion := by
  unfold answerAll
  induction answers generalizing e with
  | nil => exact ⟨rfl, rfl, rfl, rfl⟩
  | cons x answers ih =>
    have hkept : (e.answer x.1 x.2).pool = e.pool ∧ (e.answer x.1 x.2).session = e.session ∧
        (e.answer x.1 x.2).cache = e.cache ∧ (e.answer x.1 x.2).completion = e.completion := by
      unfold answer
      split <;> exact ⟨rfl, rfl, rfl, rfl⟩
    obtain ⟨hp, hs, hc, hw⟩ := ih (e.answer x.1 x.2)
    exact ⟨hp.trans hkept.1, hs.trans hkept.2.1, hc.trans hkept.2.2.1, hw.trans hkept.2.2.2⟩

theorem wake_pool (e : Engine ν α) (token : SubmissionId) (woken : List (JobId × Outcome)) :
    (e.wake token woken).pool = e.pool := by
  unfold wake
  induction woken generalizing e with
  | nil => rfl
  | cons x woken ih => exact ih _

theorem discardUnawaited_kept (e : Engine ν α) :
    e.discardUnawaited.pool = e.pool ∧ e.discardUnawaited.session = { e.session with unawaited := [] } := by
  unfold discardUnawaited
  dsimp only
  refine List.foldlRecOn _ _ (motive := fun e' : Engine ν α => e'.pool = e.pool ∧
    { e'.session with unawaited := [] } = { e.session with unawaited := [] }) ⟨rfl, rfl⟩ fun e' h token _ => ?_
  refine ⟨(wake_pool ..).trans h.1, ?_⟩
  rw [wake_session]
  exact h.2

theorem closePipelines_kept (e : Engine ν α) (closing : Closing) :
    (e.closePipelines closing).pool = e.pool ∧ (e.closePipelines closing).session = e.session ∧
      (e.closePipelines closing).cache.closing = some closing ∧
      (e.closePipelines closing).completion = e.completion := by
  obtain ⟨hp, hs, hc, hw⟩ := answerAll_kept ((e.cache.close closing).1.map (·, .error closing.failure))
    { e with cache := (e.cache.close closing).2 }
  exact ⟨hp, hs, congrArg Cache.closing hc, hw⟩

theorem shutDown_completion [Measure ν] (e : Engine ν α) (closing : Closing) :
    (e.shutDown closing).2.completion = e.completion := by
  refine Attempt.andThen_keeps (P := fun e' : Engine ν α => e'.completion = e.completion) rfl fun _ _ => ?_
  exact (closePipelines_kept _ closing).2.2.2

/-- The calls that have to succeed for a session to end. -/
def teardownCalls : List DeviceCall := [.destroyBuffer, .destroyDevice]

theorem shutDown_spec (ha : e.Able teardownCalls) (closing : Closing) :
    (e.shutDown closing).2.session = e.session ∧ (e.shutDown closing).2.pool.Shut closing.code ∧
      (∃ c, (e.shutDown closing).2.cache.closing = some c ∧ c.code = closing.code) ∧
      e.pool.device.Fades (e.shutDown closing).2.pool.device := by
  obtain ⟨hleads, hok, hstale⟩ := Pool.close_spec ha.pool.sound closing
  have hclosed := hok (ha.pool.destroys (by simp [teardownCalls]))
  have hable := ha.pool.leads hleads
  obtain ⟨hp, hs, hc, -⟩ := closePipelines_kept { e with pool := (e.pool.close closing).2 } closing
  let e' := ({ e with pool := (e.pool.close closing).2 } : Engine ν α).closePipelines closing
  have heq : (e.shutDown closing).2 = e'.setDevice e'.pool.device.destroy.2 := by
    unfold shutDown Attempt.lift Attempt.andThen
    rw [hclosed]
  change e'.pool = _ at hp
  have hlast := Device.Fades.destroy e'.pool.device
  rw [heq]
  refine ⟨hs, ⟨⟨closing, ?_, rfl⟩, fun h => ?_, Device.destroy_spent ?_ ?_⟩, ⟨closing, hc, rfl⟩, ?_⟩
  · show e'.pool.arena.closing = _
    rw [hp]
    exact Pool.close_closing hclosed
  · show e'.pool.arena.contains h = false
    rw [hp]
    exact hstale hclosed h
  · rw [hp]
    exact fun r hr => hable.faults _ hr (by simp [teardownCalls])
  · rw [hp]
    exact fun r hr => hable.faults _ hr (by simp [teardownCalls])
  · rw [hp] at hlast
    show e.pool.device.Fades e'.pool.device.destroy.2
    rw [hp]
    exact (e.pool.close_fades closing).trans hlast

section
variable [Measure ν] [Channel α] [Stored α] [Transfer α]

/-- After a session has got its phase, it finishes what is pending, and everything is closed. -/
theorem teardown_spec (ha : e.Able teardownCalls) (closing : Closing)
    (hphase : e.session.phase.code? = some closing.code) (failure : Failure) (rest : Engine ν α → Engine ν α)
    (hrest : ∀ e : Engine ν α, (rest e).pool = e.pool ∧ (rest e).session.phase = e.session.phase ∧
      (rest e).session.pending = e.session.pending ∧ (e.Sorted → (rest e).Sorted)) :
    let e' := ((e.abandonPending failure).andThen fun _ e => (rest e).shutDown closing).2
    e'.Ended closing.code ∧ e'.session.phase = e.session.phase ∧
      (e.session.pending = [] → e.pool.device.Fades e'.pool.device) := by
  obtain ⟨hok, hidle⟩ := abandonPending_idle ha (by simp [teardownCalls]) failure
  have hacts := abandonPending_acts (R := fun _ => False) e failure
  have hable := hacts.able (fun _ => False.elim) ha
  have hsession := hacts.session
  have hnone : e.session.pending = [] → (e.abandonPending failure).2 = e := by
    intro hp
    unfold abandonPending
    rw [hp]
    rfl
  unfold Attempt.andThen
  generalize e.abandonPending failure = r at *
  obtain ⟨r, e₁⟩ := r
  cases hok
  obtain ⟨hp, hs, hpending, hsorted⟩ := hrest e₁
  have hable' : (rest e₁).Able teardownCalls := ⟨hp ▸ hable.pool, hsorted hable.sorted⟩
  obtain ⟨hsession', hshut, hcache, hfades⟩ := shutDown_spec hable' closing
  dsimp only at *
  have hphase' : ((rest e₁).shutDown closing).2.session.phase = e.session.phase := by
    rw [hsession', hs, hsession.1]
  refine ⟨⟨hphase' ▸ hphase, hshut, hcache, ?_⟩, hphase', fun hnil => ?_⟩
  · rw [hsession', hpending, hidle]
  · obtain rfl : e₁ = e := hnone hnil
    rw [hp] at hfades
    exact hfades

theorem destroy_spec (ha : e.Able teardownCalls) (h : e.session.phase ≠ .destroyed) :
    e.destroy.2.Ended .validation ∧ e.destroy.2.session.phase = .destroyed ∧
      (e.session.pending = [] → e.pool.device.Fades e.destroy.2.pool.device) := by
  unfold destroy
  rw [if_neg h]
  refine @teardown_spec _ _ { e with session := { e.session with phase := .destroyed } }
    _ _ _ _ ⟨ha.pool, ha.sorted⟩
    ⟨.validation, _⟩ rfl _ discardUnawaited fun e => ?_
  obtain ⟨hp, hs⟩ := discardUnawaited_kept e
  exact ⟨hp, by rw [hs], by rw [hs], (discardUnawaited_acts (R := fun _ => False) e).sorted⟩

theorem lossSeen_spec (ha : e.Able teardownCalls) (h : e.session.phase ≠ .destroyed) (reason message : String) :
    (e.lossSeen reason message).Ended .deviceLost ∧
      (e.session.pending = [] → e.pool.device.Fades (e.lossSeen reason message).pool.device) := by
  unfold lossSeen
  rw [if_neg h]
  have hspec := @teardown_spec _ _ { e.report (.deviceLost reason message) with
    session := { e.session with phase := .lost } } _ _ _ _ ⟨ha.pool, ha.sorted⟩
    ⟨.deviceLost, (Complaint.deviceLostBecause reason message).message⟩ rfl
      (.of (.deviceLostBecause reason message)) id
    fun e => ⟨rfl, rfl, rfl, id⟩
  exact ⟨hspec.1, hspec.2.2⟩

/-! ### Whatever is done to a session -/

/-- A session stays what it is, or ends; if it has ended, nothing more is asked of the device. -/
structure Fate (e e' : Engine ν α) : Prop where
  able : e'.Able teardownCalls
  supervised : e'.supervised = e.supervised
  ready : e.session.phase = .ready → e'.session.phase = .ready ∨ ∃ code, e'.Ended code
  ended : ∀ code, e.Ended code → (∃ code, e'.Ended code) ∧ e.pool.device.Fades e'.pool.device ∧
    (e.session.phase = .destroyed → e'.session.phase = .destroyed)

omit [Measure ν] [Channel α] [Stored α] [Transfer α] in
theorem Fate.refl (ha : e.Able teardownCalls) : e.Fate e :=
  ⟨ha, rfl, .inl, fun code h => ⟨⟨code, h⟩, .refl _, id⟩⟩

omit [Measure ν] [Channel α] [Stored α] [Transfer α] in
theorem Fate.trans (h : e.Fate e') (h' : e'.Fate e'') : e.Fate e'' where
  able := h'.able
  supervised := h'.supervised.trans h.supervised
  ready hr := by
    rcases h.ready hr with hr | ⟨code, hended⟩
    · exact h'.ready hr
    · exact .inr (h'.ended code hended).1
  ended code hended := by
    obtain ⟨⟨code', hended'⟩, hfades, hdestroyed⟩ := h.ended code hended
    obtain ⟨hended'', hfades', hdestroyed'⟩ := h'.ended code' hended'
    exact ⟨hended'', hfades.trans hfades', hdestroyed' ∘ hdestroyed⟩

theorem Acts.fate (ha : e.Able teardownCalls) (h : Acts (Meets teardownCalls) e e') : e.Fate e' where
  able := h.able (fun _ hr => hr.1) ha
  supervised := h.deeds.retains.supervised
  ready hr := .inl (h.session.1.trans hr)
  ended code hended := by
    obtain ⟨hended', hfades⟩ := h.ended (by simp [teardownCalls]) ha hended
    exact ⟨⟨code, hended'⟩, hfades, h.session.1.trans⟩

theorem destroy_fate (ha : e.Able teardownCalls) : e.Fate e.destroy.2 := by
  by_cases hd : e.session.phase = .destroyed
  · unfold destroy
    rw [if_pos hd]
    exact .refl ha
  · have hdeeds := destroy_deeds (R := Pool.Request.Spares teardownCalls) ha.sorted fun _ => trivial
    obtain ⟨hended, hphase, hfades⟩ := destroy_spec ha hd
    exact ⟨hdeeds.able (fun _ => id) ha, hdeeds.retains.supervised, fun _ => .inr ⟨_, hended⟩,
      fun code h => ⟨⟨_, hended⟩, hfades h.idle, fun _ => hphase⟩⟩

theorem lossSeen_fate (ha : e.Able teardownCalls) (reason message : String) :
    e.Fate (e.lossSeen reason message) := by
  by_cases hd : e.session.phase = .destroyed
  · unfold lossSeen
    rw [if_pos hd]
    exact .refl ha
  · have hdeeds := lossSeen_deeds (R := Pool.Request.Spares teardownCalls) ha.sorted (fun _ => trivial)
        reason message
    obtain ⟨hended, hfades⟩ := lossSeen_spec ha hd reason message
    exact ⟨hdeeds.able (fun _ => id) ha, hdeeds.retains.supervised, fun _ => .inr ⟨_, hended⟩,
      fun code h => ⟨⟨_, hended⟩, hfades h.idle, fun h => absurd h hd⟩⟩

theorem perform_fate (ha : e.Able teardownCalls) (t : Turn ν α) : e.Fate (e.perform t) := by
  cases hloss : t.isLoss with
  | false => exact (perform_acts ha.sorted hloss).fate ha
  | true =>
    cases t with
    | lossSeen reason message => exact lossSeen_fate ha reason message
    | _ => cases hloss

end

end Engine

/-! ### Moves -/

/-- An operation leaves it to the session to close its arena and its cache, and lets the device be destroyed. -/
def Operation.LeavesTeardown : Operation ν α → Prop
  | closeArena _ | closePipelines _ => False
  | fault call _ => call ∉ Engine.teardownCalls
  | _ => True

def Move.LeavesTeardown : Move ν α → Prop
  | call op => op.LeavesTeardown
  | turn _ | fire => True

namespace Engine

variable {e e' e'' : Engine ν α} [Measure ν] [Channel α] [Stored α] [Transfer α]

theorem apply_fate (ha : e.Able teardownCalls) {op : Operation ν α} (hop : op.LeavesTeardown) :
    e.Fate (e.apply op).2 := by
  by_cases hdestroy : op = .destroy
  · subst hdestroy
    unfold Engine.apply
    split
    · exact .refl ha
    · exact destroy_fate ha
  · refine (apply_acts (R := Meets teardownCalls) (fun closing h => ?_) hdestroy (fun r hr => ?_)
      fun call raised h => ?_).fate ha
    · subst h
      exact hop
    · cases op <;> cases hr
      all_goals first
        | exact hop.elim
        | exact ⟨trivial, fun _ h => by cases h⟩
    · subst h
      refine ⟨fun x hx => ?_, fun _ h => by cases h⟩
      rcases List.mem_append.mp hx with hx | hx
      · exact ha.pool.faults x hx
      · rw [List.mem_singleton.mp hx]
        exact hop

omit [Measure ν] [Channel α] [Stored α] [Transfer α] in
theorem setTurns_fate (ha : e.Able teardownCalls) (turns : List (Nat × Turn ν α)) : e.Fate { e with turns } :=
  ⟨⟨ha.pool, ha.sorted⟩, rfl, .inl, fun code h => ⟨⟨code, h.phase, h.pool, h.cache, h.idle⟩, .refl _, id⟩⟩

theorem move_fate (ha : e.Able teardownCalls) {m : Move ν α} (hm : m.LeavesTeardown) : e.Fate (e.move m) := by
  have htake (turns : List (Nat × Turn ν α)) (t : Turn ν α) : e.Fate (({ e with turns } : Engine ν α).perform t) :=
    (setTurns_fate ha turns).trans (perform_fate (setTurns_fate ha turns).able t)
  cases m with
  | call op => exact apply_fate ha hm
  | turn n =>
    unfold Engine.move
    dsimp only
    split
    · exact htake _ _
    · exact .refl ha
  | fire =>
    unfold Engine.move fire
    dsimp only
    split
    · exact .refl ha
    · rename_i delay t rest _
      split
      · exact htake rest t
      · have hput := (Act.schedule (R := Meets teardownCalls) { e with turns := rest } (delay - 1) t).acts
        exact (setTurns_fate ha rest).trans (hput.fate (setTurns_fate ha rest).able)

theorem run_fate {moves : List (Move ν α)} (ha : e.Able teardownCalls) (hm : ∀ m ∈ moves, m.LeavesTeardown) :
    e.Fate (e.run moves) := by
  induction moves generalizing e with
  | nil => exact .refl ha
  | cons m moves ih =>
    have hfirst := move_fate ha (hm m (List.mem_cons_self ..))
    exact hfirst.trans (ih hfirst.able fun m' hm' => hm m' (List.mem_cons_of_mem _ hm'))

/-! ### A call that is about to fail -/

/-- A composite call is about to fail, or has failed. -/
def Doomed (e : Engine ν α) (job : JobId) (failure : Failure) : Prop :=
  (∃ delay, (delay, .attemptEnded job (.error failure)) ∈ e.turns) ∧ (e.call? job).isSome ∨
    (job, .error failure) ∈ e.settled

variable {job : JobId} {failure : Failure}

omit [Measure ν] [Channel α] [Stored α] [Transfer α] in
theorem Doomed.retains (h : e.Doomed job failure) (hr : e.Retains e') : e'.Doomed job failure := by
  rcases h with ⟨⟨delay, hmem⟩, hcall⟩ | hmem
  · exact .inl ⟨⟨delay, hr.turns hmem⟩, hr.call job hcall⟩
  · exact .inr (hr.settled hmem)

theorem attemptEnded_final {c : CompositeCall ν α} (hc : e.call? job = some c)
    (hcode : failure.code? ≠ some .outOfMemory) :
    e.attemptEnded job (.error failure) = e.settle job (.error failure) := by
  unfold attemptEnded
  rw [hc]
  dsimp only
  rw [if_neg fun h => hcode h.1]

theorem Doomed.take (h : e.Doomed job failure) (hcode : failure.code? ≠ some .outOfMemory) (hs : e.Sorted)
    {turns : List (Nat × Turn ν α)} {t : Turn ν α} (hkept : ∀ x ∈ e.turns, x.2 ≠ t → x ∈ turns) :
    (({ e with turns } : Engine ν α).perform t).Doomed job failure := by
  have hretains : ({ e with turns } : Engine ν α).Retains (({ e with turns } : Engine ν α).perform t) :=
    (@perform_deeds _ _ _ _ _ _ (fun _ => True) { e with turns } hs t fun _ => trivial).retains
  rcases h with ⟨⟨delay, hmem⟩, hcall⟩ | hmem
  · by_cases ht : t = .attemptEnded job (.error failure)
    · subst ht
      obtain ⟨c, hc⟩ := Option.isSome_iff_exists.mp hcall
      have hends : ({ e with turns } : Engine ν α).perform (.attemptEnded job (.error failure)) = _ :=
        attemptEnded_final (c := c) hc hcode
      rw [hends]
      exact .inr (List.mem_append_right _ (List.mem_singleton_self _))
    · have hdue : ({ e with turns } : Engine ν α).Doomed job failure :=
        .inl ⟨⟨delay, hkept _ hmem fun heq => ht heq.symm⟩, hcall⟩
      exact hdue.retains hretains
  · exact .inr (hretains.settled hmem)

theorem Doomed.move (h : e.Doomed job failure) (hcode : failure.code? ≠ some .outOfMemory) (hs : e.Sorted)
    (m : Move ν α) : (e.move m).Doomed job failure := by
  cases m with
  | call op =>
    have hdeeds := apply_deeds (R := fun _ => True) hs op (fun _ => trivial) (fun _ _ => trivial)
        fun _ _ _ => trivial
    exact h.retains hdeeds.retains
  | turn n =>
    unfold Engine.move
    dsimp only
    split
    · rename_i delay t hn
      refine h.take hcode hs fun x hx hne => ?_
      obtain ⟨i, hi⟩ := List.mem_iff_getElem?.mp hx
      refine List.mem_eraseIdx_iff_getElem?.mpr ⟨i, ?_, hi⟩
      rintro rfl
      rw [hi] at hn
      cases hn
      exact hne rfl
    · exact h
  | fire =>
    unfold Engine.move fire
    dsimp only
    split
    · exact h
    · rename_i delay t rest heq
      have hkept (x : Nat × Turn ν α) (hx : x ∈ e.turns) : x = (delay, t) ∨ x ∈ rest :=
        List.mem_cons.mp (heq ▸ hx)
      split
      · exact h.take hcode hs fun x hx hne => (hkept x hx).resolve_left fun h => hne (congrArg Prod.snd h)
      · -- The turn at the head is put back.
        rcases h with ⟨⟨delay', hmem⟩, hcall⟩ | hmem
        · refine .inl ⟨?_, hcall⟩
          rcases hkept _ hmem with hhead | hrest
          · cases hhead
            exact ⟨_, List.mem_append_right _ (List.mem_singleton_self _)⟩
          · exact ⟨delay', List.mem_append_left _ hrest⟩
        · exact .inr hmem

theorem Doomed.run (h : e.Doomed job failure) (hcode : failure.code? ≠ some .outOfMemory) (hs : e.Sorted)
    (moves : List (Move ν α)) : (e.run moves).Doomed job failure := by
  induction moves generalizing e with
  | nil => exact h
  | cons m moves ih =>
    obtain ⟨turns, -, hdeeds⟩ := move_deeds (R := fun _ => True) hs m (fun _ => trivial) (fun _ _ _ _ => trivial)
      fun _ _ _ => trivial
    exact ih (h.move hcode hs m) (hdeeds.sorted (e := { e with turns }) hs)

/-! ### Refusals -/

/-- Everything that a session is asked for is refused with a code. A composite call that is well formed and not
aborted is taken up, and whatever happens then, it fails. -/
structure Refuses (code : ErrorCode) (e : Engine ν α) : Prop where
  allocate : ∀ format size, ∃ failure : Failure, failure.code? = some code ∧
    e.apply (.allocate format size) = (.error failure, e)
  lookUp : ∀ key, ∃ failure : Failure, failure.code? = some code ∧
    e.apply (.lookUp key) = (.ok (.started e.jobs.size), (e.addJob .lookup).2.settle e.jobs.size (.error failure))
  makePlan : ∀ stack uploads, ∃ failure : Failure, failure.code? = some code ∧
    e.apply (.makePlan stack uploads) =
      (.ok (.started e.jobs.size), (e.addJob .lookup).2.settle e.jobs.size (.error failure))
  submit : ∀ plan, ∃ failure : Failure, failure.code? = some code ∧ e.apply (.submit plan) = (.error failure, e)
  composite : ∀ layers options verifies ls o, parseLayers (ν := ν) layers = .ok ls → parseOptions options = .ok o →
    e.abortReason? o.signal = none → ∃ failure : Failure, failure.code? = some code ∧
      (e.apply (.composite layers options verifies)).1 = .ok (.started e.jobs.size) ∧
      ∀ moves, ((e.apply (.composite layers options verifies)).2.run moves).Doomed e.jobs.size failure

omit [Measure ν] [Channel α] [Stored α] [Transfer α] in
theorem Ended.checkUsable (h : e.Ended code) :
    ∃ failure : Failure, failure.code? = some code ∧ e.session.checkUsable = .error failure := by
  have hphase := h.phase
  unfold Session.checkUsable
  cases hp : e.session.phase with
  | ready => exact absurd hp h.not_ready
  | lost => exact ⟨_, by rw [hp] at hphase; exact hphase, rfl⟩
  | destroyed => exact ⟨_, by rw [hp] at hphase; exact hphase, rfl⟩

omit [Measure ν] [Channel α] [Stored α] [Transfer α] in
theorem addJob_setCall (e : Engine ν α) (c : CompositeCall ν α) :
    (e.addJob .lookup).2.setCall e.jobs.size c = (e.addJob (.composite c)).2 := by
  have hjobs : (e.jobs.push .lookup).setIfInBounds e.jobs.size (.composite c) = e.jobs.push (.composite c) := by
    ext i hi hi' <;> grind
  exact congrArg (fun jobs => { e with jobs }) hjobs

omit [Stored α] [Transfer α] in
theorem startAttempt_refused (h : e.session.checkUsable = .error failure) (c : CompositeCall ν α) :
    e.startAttempt job c = (e.setCall job { c with held := [], phase := .ended }).schedule 1
      (.attemptEnded job (.error failure)) := by
  unfold startAttempt
  rw [h]

omit [Channel α] [Stored α] [Transfer α] in
theorem beginPlanning_closed {closing : Closing} (h : e.pool.arena.closing = some closing)
    (stack : List (BlendDescriptor ν α)) (uploads : List (Upload α)) :
    e.beginPlanning job stack uploads = (.error closing.failure, e) := by
  have hcheck : Draft.check e.pool.arena e.capabilities e.cache.library stack uploads = .error closing.failure := by
    unfold Draft.check Arena.checkOpen
    rw [h]
    rfl
  unfold beginPlanning
  rw [hcheck]

theorem Ended.refuses (h : e.Ended code) (hcode : code ≠ .outOfMemory) (hs : e.Sorted)
    (hsupervised : e.supervised = true) : e.Refuses code where
  allocate format size := by
    obtain ⟨failure, hfailure, heq⟩ := h.pool.allocate format size
    refine ⟨failure, hfailure, ?_⟩
    unfold Engine.apply carryOut onPool
    simp [Operation.needsSession, heq, Except.map]
  lookUp key := by
    obtain ⟨closing, hclosing, hfailure⟩ := h.cache
    refine ⟨closing.failure, congrArg some hfailure, ?_⟩
    unfold Engine.apply carryOut replyJob lookupPipeline requestPipeline Cache.request
    simp [Operation.needsSession, addJob, hclosing, Except.map]
  makePlan stack uploads := by
    obtain ⟨closing, hclosing, hfailure⟩ := h.pool.closed
    refine ⟨closing.failure, congrArg some hfailure, ?_⟩
    have hbegin : (e.addJob .lookup).2.beginPlanning e.jobs.size stack uploads = _ :=
      beginPlanning_closed (e := (e.addJob .lookup).2) hclosing stack uploads
    unfold Engine.apply carryOut replyJob startPlan
    rw [show (e.addJob .lookup : JobId × Engine ν α) = (e.jobs.size, (e.addJob .lookup).2) from rfl]
    dsimp only
    rw [hbegin]
    rfl
  submit plan := by
    obtain ⟨failure, hfailure, heq⟩ := h.checkUsable
    refine ⟨failure, hfailure, ?_⟩
    unfold Engine.apply carryOut Engine.submit
    simp [hsupervised, heq, Except.map]
  composite layers options verifies ls o hls ho hsignal := by
    obtain ⟨failure, hfailure, heq⟩ := h.checkUsable
    let c : CompositeCall ν α := ⟨ls, o.outputFormat, o.signal, verifies, 0, [], .ended⟩
    have hbegin : (e.addJob .lookup).2.startAttempt e.jobs.size c = _ :=
      startAttempt_refused (e := (e.addJob .lookup).2) heq c
    have hstart : e.startComposite layers options verifies =
        (e.jobs.size, (e.addJob .lookup).2.startAttempt e.jobs.size c) := by
      unfold startComposite
      rw [hls, ho]
      dsimp only
      rw [show (e.addJob .lookup).2.abortReason? o.signal = none from hsignal]
      rfl
    have happly : e.apply (.composite layers options verifies) = (.ok (.started e.jobs.size),
        (e.addJob (.composite c)).2.schedule 1 (.attemptEnded e.jobs.size (.error failure))) := by
      have hcarry : e.carryOut (.composite layers options verifies) = _ := congrArg replyJob hstart
      unfold Engine.apply
      rw [hcarry, hbegin, addJob_setCall]
      simp [hsupervised, replyJob, c]
    refine ⟨failure, hfailure, congrArg Prod.fst happly, fun moves => ?_⟩
    -- the attempt is refused at once, and the call stays doomed in whatever run follows
    have hsorted := (apply_deeds (R := fun _ => True) hs (.composite layers options verifies) (fun _ => trivial)
      (fun _ _ => trivial) fun _ _ _ => trivial).sorted hs
    have hdoomed : (e.apply (.composite layers options verifies)).2.Doomed e.jobs.size failure := by
      rw [happly]
      refine .inl ⟨⟨1, List.mem_append_right _ (List.mem_singleton_self _)⟩, ?_⟩
      simp [Engine.call?, addJob, schedule]
    refine hdoomed.run (fun h => hcode ?_) hsorted moves
    exact Option.some.inj (hfailure.symm.trans h)

/-! ### The end -/

structure TornDown (e e' : Engine ν α) : Prop where
  device : e.pool.device.Fades e'.pool.device
  stale : ∀ h, e'.pool.arena.contains h = false
  spent : ∀ (id : BufferId) (x : Buffer α), e'.pool.device.buffers[id]? = some x → x.destroyed = true
  idle : e'.session.pending = []
  not_ready : e'.session.phase ≠ .ready
  destroyed : e.session.phase = .destroyed → e'.session.phase = .destroyed
  lost_refuses : e'.session.phase = .lost → e'.Refuses .deviceLost
  destroyed_refuses : e'.session.phase = .destroyed → e'.Refuses .validation

theorem Ended.tornDown (h : e.Ended code) (hs : e.supervised = true) (hfate : e.Fate e') : e.TornDown e' := by
  obtain ⟨⟨code', h'⟩, hfades, hdestroyed⟩ := hfate.ended code h
  have hrefuses (hcode : code' ≠ .outOfMemory) : e'.Refuses code' :=
    h'.refuses hcode hfate.able.sorted (hfate.supervised.trans hs)
  have hphase := h'.phase
  refine ⟨hfades, h'.pool.stale, h'.pool.spent, h'.idle, h'.not_ready, hdestroyed, fun hlost => ?_, fun hend => ?_⟩
  · rw [hlost] at hphase
    cases hphase
    exact hrefuses (by decide)
  · rw [hend] at hphase
    cases hphase
    exact hrefuses (by decide)

/-- While a session alone closes its arena and its pipelines, on a device that does as it is asked when buffers or
itself are to be destroyed, the session has ended once it is destroyed or the loss of its device is handled, and its
end is final: nothing more is asked of the device than to destroy buffers, all slots are stale and all buffers
destroyed, nothing is pending, and whatever is asked is refused with the code of the end. -/
theorem teardown_final {start : Engine ν α} (hstart : start.Opened)
    (hd : ∀ x ∈ start.pool.device.faults, x.1 ∉ teardownCalls)
    {moves : List (Move ν α)} (hm : ∀ m ∈ moves, m.LeavesTeardown) :
    let e := start.run moves
    (e.apply .destroy).2.session.phase = .destroyed ∧
    (∀ reason message, (e.perform (.lossSeen reason message)).session.phase ≠ .ready) ∧
    (e.session.phase ≠ .ready → ∀ more : List (Move ν α), (∀ m ∈ more, m.LeavesTeardown) →
      e.TornDown (e.run more)) := by
  intro e
  have hfate : start.Fate e := run_fate (hstart.able hd) hm
  have hfirst : start.supervised = true ∧ start.session.phase = .ready := by
    obtain ⟨device, o, config, rfl⟩ := hstart.eq
    exact ⟨rfl, rfl⟩
  have hsupervised : e.supervised = true := hfate.supervised.trans hfirst.1
  refine ⟨?_, fun reason message => ?_, fun hended more hmore => ?_⟩
  · have happly : e.apply .destroy = replyUnit e.destroy := by
      unfold Engine.apply
      simp [hsupervised, carryOut]
    rw [happly]
    by_cases hphase : e.session.phase = .destroyed
    · show e.destroy.2.session.phase = .destroyed
      unfold destroy
      rw [if_pos hphase]
      exact hphase
    · exact (destroy_spec hfate.able hphase).2.1
  · show (e.lossSeen reason message).session.phase ≠ .ready
    by_cases hphase : e.session.phase = .destroyed
    · unfold lossSeen
      rw [if_pos hphase, hphase]
      decide
    · exact (lossSeen_spec hfate.able hphase reason message).1.not_ready
  · obtain ⟨code, h⟩ := (hfate.ready hfirst.2).resolve_left hended
    exact h.tornDown hsupervised (run_fate hfate.able hmore)

/-- A submission is on its way when the device is lost, and goes on; later the session is destroyed. -/
theorem teardown_final_lost :
    let device : Device Int Bool := { limits := .standard }
    let h : Handle := ⟨.number 0, .number 0⟩
    let plan : Plan Int Bool := ⟨[.upload h ⟨0, #[]⟩], [], 1, 1, 0⟩
    let start : Engine Int Bool := { bare device {} with
      pool := ⟨{ options := ({} : EngineOptions Int).arena "Session" }, device⟩
      config := Config.standard.update {}
      supervised := true }
    let moves : List (Move Int Bool) := [.call (.allocate .params 32), .call (.takePlan plan), .call (.submit 0),
      .call (.lose "gone"), .turn 1]
    let more : List (Move Int Bool) := [.fire, .fire, .fire]
    let last : List (Move Int Bool) := more ++ [.call .destroy]
    (start.Opened ∧ (∀ x ∈ start.pool.device.faults, x.1 ∉ teardownCalls) ∧ (∀ m ∈ moves, m.LeavesTeardown) ∧
      (start.run moves).session.phase ≠ .ready ∧ (∀ m ∈ more, m.LeavesTeardown) ∧ ∀ m ∈ last, m.LeavesTeardown) ∧
    ((start.run moves).run more).Refuses .deviceLost ∧ ((start.run moves).run last).Refuses .validation := by
  intro device h plan start moves more last
  have hstart : start.Opened := ⟨device, {}, .object [], rfl⟩
  have hd : ∀ x ∈ start.pool.device.faults, x.1 ∉ teardownCalls := fun x hx => absurd hx List.not_mem_nil
  have hm : ∀ m ∈ moves, m.LeavesTeardown := by simp [moves, Move.LeavesTeardown, Operation.LeavesTeardown]
  have hmore : ∀ m ∈ more, m.LeavesTeardown := by simp [more, Move.LeavesTeardown]
  have hlast : ∀ m ∈ last, m.LeavesTeardown := by
    simp [last, more, Move.LeavesTeardown, Operation.LeavesTeardown]
  have hended : (start.run moves).session.phase ≠ .ready := by decide
  obtain ⟨-, -, hfinal⟩ := teardown_final hstart hd hm
  refine ⟨⟨hstart, hd, hm, hended, hmore, hlast⟩, ?_, ?_⟩
  · exact (hfinal hended more hmore).lost_refuses (by decide)
  · exact (hfinal hended last hlast).destroyed_refuses (by decide)

end Engine

end Strata
