import Mathlib.Data.List.Induction
import Mathlib.Data.List.Nodup
import Mathlib.Data.List.Perm.Basic
import Mathlib.Logic.Function.Basic
import Strata.Proofs.Engine.Delivery

/-!
# Either delivery serves

Waits are numbered in the order in which they are made, and a desk keeps who was woken and has not gone on yet, and
the answers given. Two desks that are asked the same, one over each delivery, need not be in step: those who were
woken go on at any time, and the deliveries do not wake them at the same moments. `Account` is what follows from the
requests alone. Each desk follows it: a submission stands as the account says unless somebody was woken for it, and
the answers given and due are those of the account. So all waits end alike (`deliveries_agree`).
-/

namespace Strata.Completion

/-- A completion, the waits made so far, those who were woken with their outcome, and the answers given. -/
structure Desk where
  completion : Completion Nat
  asked : Nat := 0
  woken : List (SubmissionId × Nat × Outcome) := []
  answers : List (Nat × Outcome) := []

/-- Something is asked, or one of those who were woken goes on. -/
inductive Event
  | ask (request : Request Unit)
  | resume (n : Nat)

namespace Desk

def start (p : Platform) : Desk := { completion := ofPlatform p }

/-- A submission has settled or not; those who waited for it are woken. -/
def wake (d : Desk) (id : SubmissionId) (r : List (Nat × Outcome) × Completion Nat) : Desk :=
  { d with completion := r.2, woken := d.woken ++ r.1.map (id, ·) }

def attend (d : Desk) (id : SubmissionId) : WaitReply × Completion Nat → Desk
  | (.now outcome, c) =>
    { d with completion := c, asked := d.asked + 1, answers := d.answers ++ [(d.asked, outcome)] }
  | (.later outcome, c) =>
    { d with completion := c, asked := d.asked + 1, woken := d.woken ++ [(id, d.asked, outcome)] }
  | (.suspended, c) => { d with completion := c, asked := d.asked + 1 }

def ask (d : Desk) : Request Unit → Desk
  | .watch id => { d with completion := d.completion.watch id }
  | .settle id outcome => d.wake id (d.completion.settle id (outcome.mapError Failure.asError))
  | .wait id _ => d.attend id (d.completion.wait id d.asked)
  | .abandon id failure => d.wake id (d.completion.abandon id failure)
  | .discard id => d.wake id (d.completion.discard id)

def resume (d : Desk) (n : Nat) : Desk :=
  match d.woken[n]? with
  | some (id, w, outcome) =>
    { d with
      completion := d.completion.collect id
      woken := d.woken.eraseIdx n
      answers := d.answers ++ [(w, outcome)] }
  | none => d

def step (d : Desk) : Event → Desk
  | .ask request => d.ask request
  | .resume n => d.resume n

def run (d : Desk) (events : List Event) : Desk := events.foldl step d

/-- All that were woken go on. -/
def drain (d : Desk) : Desk := d.run (List.replicate d.woken.length (.resume 0))

def answer? (d : Desk) (n : Nat) : Option Outcome := d.answers.lookup n

end Desk

namespace Event

def requests (events : List Event) : List (Request Unit) := events.filterMap fun
  | ask request => some request
  | resume _ => none

end Event

namespace Request

def watched? : Request Unit → Option SubmissionId
  | watch id => some id
  | _ => none

def waitsOn (id : SubmissionId) : Request Unit → Bool
  | wait x _ => x == id
  | _ => false

/-- Every submission is watched at most once, and waited for at most once after that. -/
def Proper (rs : List (Request Unit)) : Prop :=
  (rs.filterMap watched?).Nodup ∧
    ∀ id before after, rs = before ++ watch id :: after → after.countP (waitsOn id) ≤ 1

def Awaited (rs : List (Request Unit)) (id : SubmissionId) : Prop :=
  ∃ before after, rs = before ++ watch id :: after ∧ 0 < after.countP (waitsOn id)

variable {rs : List (Request Unit)} {r : Request Unit} {id : SubmissionId}

theorem Awaited.snoc (h : Awaited rs id) (r : Request Unit) : Awaited (rs ++ [r]) id := by
  obtain ⟨before, after, rfl, hpos⟩ := h
  refine ⟨before, after ++ [r], by simp, ?_⟩
  rw [List.countP_append]
  exact Nat.lt_of_lt_of_le hpos (Nat.le_add_right _ _)

theorem awaited_snoc (h : watch id ∈ rs) : Awaited (rs ++ [wait id ()]) id := by
  obtain ⟨before, after, rfl⟩ := List.append_of_mem h
  refine ⟨before, after ++ [wait id ()], by simp, ?_⟩
  rw [List.countP_append, List.countP_singleton]
  simp [waitsOn]

theorem Proper.of_snoc (h : Proper (rs ++ [r])) : Proper rs := by
  obtain ⟨hwatch, hwait⟩ := h
  rw [List.filterMap_append] at hwatch
  refine ⟨hwatch.of_append_left, fun id before after heq => ?_⟩
  have hle := hwait id before (after ++ [r]) (by rw [heq]; simp)
  rw [List.countP_append] at hle
  omega

theorem Proper.not_watched (h : Proper (rs ++ [watch id])) : watch id ∉ rs := by
  have hn := h.1
  rw [List.filterMap_append] at hn
  exact fun hmem => List.disjoint_of_nodup_append hn (List.mem_filterMap.mpr ⟨_, hmem, rfl⟩)
    (List.mem_singleton_self id)

theorem Proper.not_awaited (h : Proper (rs ++ [wait id ()])) : ¬Awaited rs id := by
  rintro ⟨before, after, rfl, hpos⟩
  have hle := h.2 id before (after ++ [wait id ()]) (by simp)
  rw [List.countP_append, List.countP_singleton] at hle
  simp only [waitsOn, BEq.rfl, if_true] at hle
  omega

theorem Awaited.watched (h : Awaited rs id) : watch id ∈ rs := by
  obtain ⟨before, after, rfl, -⟩ := h
  simp

end Request

/-! ## The account of the requests -/

/-- Where submissions stand and which waits are answered, going by the requests alone. -/
structure Account where
  status : SubmissionId → Status Nat := fun _ => .absent
  asked : Nat := 0
  answers : List (Nat × Outcome) := []

namespace Account

def put (a : Account) (id : SubmissionId) (s : Status Nat) : Account :=
  { a with status := Function.update a.status id s }

def settle (a : Account) (id : SubmissionId) (outcome : Outcome) : Account :=
  match a.status id with
  | .waiting [] => a.put id (.kept outcome)
  | .waiting ws => { a.put id .absent with answers := a.answers ++ ws.map (·, outcome) }
  | _ => a

def ask (a : Account) : Request Unit → Account
  | .watch id => a.put id (.waiting [])
  | .settle id outcome => a.settle id (outcome.mapError Failure.asError)
  | .wait id _ =>
    match a.status id with
    | .waiting ws => { a.put id (.waiting (ws ++ [a.asked])) with asked := a.asked + 1 }
    | .kept outcome => { a.put id .absent with asked := a.asked + 1, answers := a.answers ++ [(a.asked, outcome)] }
    | .absent =>
      { a with asked := a.asked + 1, answers := a.answers ++ [(a.asked, .error (unknownSubmission id))] }
  | .abandon id failure => a.settle id (.error failure)
  | .discard id => (a.settle id (.error (discardedSubmission id))).put id .absent

def of (rs : List (Request Unit)) : Account := rs.foldl ask {}

theorem of_snoc (rs : List (Request Unit)) (r : Request Unit) : of (rs ++ [r]) = (of rs).ask r := by
  simp [of]

@[simp] theorem put_self (a : Account) (id : SubmissionId) (s : Status Nat) : (a.put id s).status id = s :=
  Function.update_self ..

theorem put_of_ne (a : Account) {id x : SubmissionId} (s : Status Nat) (h : x ≠ id) :
    (a.put id s).status x = a.status x :=
  Function.update_of_ne h ..

/-- Waits are where they were made, and each is answered at most once. -/
structure Sound (rs : List (Request Unit)) (a : Account) : Prop where
  watched : ∀ id, a.status id ≠ .absent → .watch id ∈ rs
  joined : ∀ id w ws, a.status id = .waiting (w :: ws) → Request.Awaited rs id
  distinct : ∀ id ws, a.status id = .waiting ws → ws.Nodup
  apart : ∀ id id' ws ws', id ≠ id' → a.status id = .waiting ws → a.status id' = .waiting ws' → ws.Disjoint ws'
  due : ∀ id ws, a.status id = .waiting ws → ∀ w ∈ ws, w < a.asked ∧ w ∉ a.answers.map (·.1)
  below : ∀ w ∈ a.answers.map (·.1), w < a.asked
  once : (a.answers.map (·.1)).Nodup

variable {rs : List (Request Unit)} {a : Account} {id : SubmissionId} {outcome : Outcome}

theorem Sound.snoc (h : Sound rs a) (r : Request Unit) : Sound (rs ++ [r]) a :=
  { h with
    watched := fun id hid => List.mem_append_left _ (h.watched id hid)
    joined := fun id w ws hid => (h.joined id w ws hid).snoc r }

theorem Sound.put (h : Sound rs a) (id : SubmissionId) {s : Status Nat} (hs : ∀ ws, s ≠ .waiting ws)
    (hid : s ≠ .absent → .watch id ∈ rs) : Sound rs (a.put id s) := by
  have hother (x : SubmissionId) (ws : List Nat) (hx : (a.put id s).status x = .waiting ws) :
      a.status x = .waiting ws := by
    by_cases hxid : x = id
    · rw [hxid, put_self] at hx
      exact absurd hx (hs ws)
    · rwa [put_of_ne a s hxid] at hx
  refine
    { watched := fun x hx => ?_
      joined := fun x w ws hx => h.joined x w ws (hother x _ hx)
      distinct := fun x ws hx => h.distinct x ws (hother x ws hx)
      apart := fun x y ws ws' hne hx hy => h.apart x y ws ws' hne (hother x ws hx) (hother y ws' hy)
      due := fun x ws hx => h.due x ws (hother x ws hx)
      below := h.below
      once := h.once }
  by_cases hxid : x = id
  · subst hxid
    rw [put_self] at hx
    exact hid hx
  · rw [put_of_ne a s hxid] at hx
    exact h.watched x hx

theorem Sound.strike (h : Sound rs a) (id : SubmissionId) : Sound rs (a.put id .absent) :=
  h.put id nofun fun hne => absurd rfl hne

theorem Sound.settle (h : Sound rs a) (id : SubmissionId) (outcome : Outcome) : Sound rs (a.settle id outcome) := by
  unfold Account.settle
  split
  · rename_i hid
    exact h.put id nofun fun _ => h.watched id (by simp [hid])
  · rename_i ws _ hid
    have hput := h.strike id
    have hkeys : (a.answers ++ ws.map (·, outcome)).map (·.1) = a.answers.map (·.1) ++ ws := by
      simp [List.map_map, Function.comp_def]
    -- Those who waited for `id` wait for nothing else.
    have hgone (x : SubmissionId) (ws' : List Nat) (hx : (a.put id .absent).status x = .waiting ws') :
        ws.Disjoint ws' := by
      have hne : x ≠ id := by
        rintro rfl
        rw [put_self] at hx
        cases hx
      rw [put_of_ne a _ hne] at hx
      exact h.apart id x ws ws' hne.symm hid hx
    refine
      { watched := hput.watched
        joined := hput.joined
        distinct := hput.distinct
        apart := hput.apart
        due := fun x ws' hx w hw => ⟨(hput.due x ws' hx w hw).1, ?_⟩
        below := fun w hw => ?_
        once := ?_ }
    · rw [hkeys, List.mem_append]
      exact fun hmem => hmem.elim (hput.due x ws' hx w hw).2 fun hmem => hgone x ws' hx hmem hw
    · rw [hkeys, List.mem_append] at hw
      exact hw.elim (h.below w) fun hw => (h.due id ws hid w hw).1
    · rw [hkeys]
      exact h.once.append (h.distinct id ws hid) fun w hw hw' => (h.due id ws hid w hw').2 hw
  · exact h

theorem Sound.answer (h : Sound rs a) (outcome : Outcome) :
    Sound rs { a with asked := a.asked + 1, answers := a.answers ++ [(a.asked, outcome)] } := by
  refine { h with due := fun x ws hx w hw => ?_, below := fun w hw => ?_, once := ?_ }
  · obtain ⟨hlt, hnot⟩ := h.due x ws hx w hw
    refine ⟨Nat.lt_succ_of_lt hlt, ?_⟩
    rw [List.map_append, List.mem_append]
    exact fun hmem => hmem.elim hnot fun hmem => Nat.ne_of_lt hlt (List.mem_singleton.mp hmem)
  · rw [List.map_append, List.mem_append] at hw
    exact hw.elim (fun hw => Nat.lt_succ_of_lt (h.below w hw)) fun hw =>
      (List.mem_singleton.mp hw).symm ▸ Nat.lt_succ_self _
  · rw [List.map_append]
    refine h.once.append (List.nodup_singleton _) fun w hw hw' => ?_
    exact Nat.ne_of_lt (h.below w hw) (List.mem_singleton.mp hw')

theorem Sound.join {ws : List Nat} (h : Sound rs a) (hid : a.status id = .waiting ws) :
    Sound (rs ++ [.wait id ()]) { a.put id (.waiting (ws ++ [a.asked])) with asked := a.asked + 1 } := by
  -- Any list of those who wait is one of before, with the new one at its end if it is that of `id`.
  have hcases (x : SubmissionId) (ws' : List Nat)
      (hx : (a.put id (.waiting (ws ++ [a.asked]))).status x = .waiting ws') :
      x = id ∧ ws' = ws ++ [a.asked] ∨ x ≠ id ∧ a.status x = .waiting ws' := by
    by_cases hxid : x = id
    · rw [hxid, put_self] at hx
      exact .inl ⟨hxid, (Status.waiting.inj hx).symm⟩
    · rw [put_of_ne a _ hxid] at hx
      exact .inr ⟨hxid, hx⟩
  have hfresh (x : SubmissionId) (ws' : List Nat) (hx : a.status x = .waiting ws') : a.asked ∉ ws' :=
    fun hmem => Nat.lt_irrefl _ (h.due x ws' hx _ hmem).1
  have hapart (x : SubmissionId) (ws' : List Nat) (hne : x ≠ id) (hx : a.status x = .waiting ws') :
      (ws ++ [a.asked]).Disjoint ws' :=
    List.disjoint_append_left.mpr
      ⟨h.apart id x ws ws' hne.symm hid hx, List.singleton_disjoint.mpr (hfresh x ws' hx)⟩
  refine
    { watched := fun x hx => List.mem_append_left _ ?_
      joined := fun x w ws' hx => ?_
      distinct := fun x ws' hx => ?_
      apart := fun x y ws' ws'' hne hx hy => ?_
      due := fun x ws' hx w hw => ?_
      below := fun w hw => Nat.lt_succ_of_lt (h.below w hw)
      once := h.once }
  · by_cases hxid : x = id
    · exact hxid ▸ h.watched id (by simp [hid])
    · exact h.watched x (by rwa [put_of_ne a _ hxid] at hx)
  · rcases hcases x _ hx with ⟨rfl, -⟩ | ⟨-, hx⟩
    · exact Request.awaited_snoc (h.watched x (by simp [hid]))
    · exact (h.joined x w ws' hx).snoc _
  · rcases hcases x ws' hx with ⟨-, rfl⟩ | ⟨-, hx⟩
    · refine (h.distinct id ws hid).append (List.nodup_singleton _) fun w hw hw' => ?_
      exact hfresh id ws hid (List.mem_singleton.mp hw' ▸ hw)
    · exact h.distinct x ws' hx
  · rcases hcases x ws' hx with ⟨rfl, rfl⟩ | ⟨hxid, hx'⟩
    · rcases hcases y ws'' hy with ⟨rfl, -⟩ | ⟨hyid, hy'⟩
      · exact absurd rfl hne
      · exact hapart y ws'' hyid hy'
    · rcases hcases y ws'' hy with ⟨rfl, rfl⟩ | ⟨-, hy'⟩
      · exact fun w hw hw' => hapart x ws' hxid hx' hw' hw
      · exact h.apart x y ws' ws'' hne hx' hy'
  · rcases hcases x ws' hx with ⟨-, rfl⟩ | ⟨-, hx⟩
    · rcases List.mem_append.mp hw with hw | hw
      · obtain ⟨hlt, hnot⟩ := h.due id ws hid w hw
        exact ⟨Nat.lt_succ_of_lt hlt, hnot⟩
      · rw [List.mem_singleton.mp hw]
        exact ⟨Nat.lt_succ_self _, fun hmem => Nat.lt_irrefl _ (h.below _ hmem)⟩
    · obtain ⟨hlt, hnot⟩ := h.due x ws' hx w hw
      exact ⟨Nat.lt_succ_of_lt hlt, hnot⟩

/-- A submission that is watched anew is waited for by nobody. -/
theorem Sound.watch (h : Sound rs a) (id : SubmissionId) : Sound (rs ++ [.watch id]) (a.put id (.waiting [])) := by
  have hcases (x : SubmissionId) (ws : List Nat) (hx : (a.put id (.waiting [])).status x = .waiting ws) :
      ws = [] ∨ a.status x = .waiting ws := by
    by_cases hxid : x = id
    · rw [hxid, put_self] at hx
      exact .inl (Status.waiting.inj hx).symm
    · rw [put_of_ne a _ hxid] at hx
      exact .inr hx
  refine
    { watched := fun x hx => List.mem_append.mpr ?_
      joined := fun x w ws hx => ?_
      distinct := fun x ws hx => ?_
      apart := fun x y ws ws' hne hx hy => ?_
      due := fun x ws hx w hw => ?_
      below := h.below
      once := h.once }
  · by_cases hxid : x = id
    · exact .inr (by rw [hxid]; exact List.mem_singleton_self _)
    · exact .inl (h.watched x (by rwa [put_of_ne a _ hxid] at hx))
  · exact (h.joined x w ws ((hcases x _ hx).resolve_left nofun)).snoc _
  · rcases hcases x ws hx with rfl | hx
    · exact List.nodup_nil
    · exact h.distinct x ws hx
  · rcases hcases x ws hx with rfl | hx
    · exact List.disjoint_nil_left _
    · rcases hcases y ws' hy with rfl | hy
      · exact List.disjoint_nil_right _
      · exact h.apart x y ws ws' hne hx hy
  · rcases hcases x ws hx with rfl | hx
    · cases hw
    · exact h.due x ws hx w hw

theorem Sound.ask (h : Sound rs a) (r : Request Unit) : Sound (rs ++ [r]) (a.ask r) := by
  cases r with
  | watch id => exact h.watch id
  | settle id outcome => exact (h.settle id _).snoc _
  | abandon id failure => exact (h.settle id _).snoc _
  | discard id => exact ((h.settle id _).strike id).snoc _
  | wait id w =>
    unfold Account.ask
    dsimp only
    split
    · rename_i ws hid
      exact h.join hid
    · exact ((h.strike id).answer _).snoc _
    · exact (h.answer _).snoc _

theorem sound_of (rs : List (Request Unit)) : (of rs).Sound rs := by
  induction rs using List.reverseRecOn with
  | nil =>
    exact
      { watched := fun _ h => absurd rfl h
        joined := nofun
        distinct := nofun
        apart := nofun
        due := nofun
        below := nofun
        once := List.nodup_nil }
  | append_singleton rs r ih =>
    rw [of_snoc]
    exact ih.ask r

end Account

/-! ## What a desk is left with -/

variable {c : Completion Nat} {id x : SubmissionId} {ws : List Nat} {outcome : Outcome}

theorem wait_absent (h : c.status id = .absent) (w : Nat) :
    c.wait id w = (.now (.error (unknownSubmission id)), c) := by
  cases c with
  | reactor r =>
    unfold status at h
    dsimp only at h
    split at h
    · cases h
    · rename_i hmem
      split at h
      · cases h
      · rename_i hnone
        simp [wait, Reactor.wait, hnone, hmem]
  | deferrals d =>
    unfold status at h
    dsimp only at h
    split at h
    · cases h
    · cases h
    · rename_i hnone
      simp [wait, Deferrals.wait, hnone]

theorem not_open {s : Status Nat} (h : c.status id = s) (hs : ∀ ws, s ≠ .waiting ws) : ¬c.Open id :=
  fun ⟨ws, hws⟩ => hs ws (h.symm.trans hws)

/-- Nothing is left of a submission once those who were woken for it have gone on. -/
def Spent (c : Completion Nat) (id : SubmissionId) : Prop := ¬c.Open id ∧ (c.collect id).status id = .absent

theorem spent_of_absent (h : c.Sane) (hid : c.status id = .absent) : c.Spent id := by
  refine ⟨not_open hid nofun, ?_⟩
  rcases (collect_spec h id).2.1 with hc | hc
  · exact hc.trans hid
  · exact hc

theorem deferrals_collect (d : Deferrals Nat) (id : SubmissionId) :
    ((deferrals d).collect id).status id = .absent := by
  simp [status, collect, Deferrals.drop, lookup_filter_ne]

/-- A submission that somebody waits for is spent when it settles. -/
theorem settle_spent (h : c.Sane) (hid : c.status id = .waiting ws) (hws : ws ≠ []) (outcome : Outcome) :
    (c.settle id outcome).2.Spent id := by
  obtain ⟨hsane, -, hstatus, -⟩ := settle_spec h hid outcome
  cases c with
  | reactor r =>
    obtain ⟨hmem, heq⟩ := reactor_waiting hid
    have hlisten : ¬(r.listeners.filter (·.1 == id)).isEmpty := fun hempty =>
      hws (by rw [← heq, List.isEmpty_iff.mp hempty]; rfl)
    refine spent_of_absent hsane ?_
    simp [settle, Reactor.settle, hmem, hlisten, status, h.1.not_mem_erase, h.2.1 id hmem]
  | deferrals d =>
    refine ⟨?_, deferrals_collect _ id⟩
    rcases hstatus with hs | ⟨hs, -⟩
    · exact not_open hs (by simp)
    · exact not_open hs (by simp)

/-- A wait for an outcome that is kept is answered at once, or the outcome is spent when the wait goes on. -/
theorem wait_spent (h : c.Sane) (hid : c.status id = .kept outcome) (w : Nat) :
    (c.wait id w).1 = .now outcome ∧ (c.wait id w).2.status id = .absent ∨
      (c.wait id w).1 = .later outcome ∧ (c.wait id w).2.Spent id := by
  obtain ⟨-, hreply, -⟩ := wait_kept h hid w
  refine hreply.imp (fun hnow => hnow) fun ⟨hlater, hkept⟩ => ⟨hlater, not_open hkept nofun, ?_⟩
  cases c with
  | reactor r =>
    -- A reactor answers at once.
    unfold wait Reactor.wait at hlater
    dsimp only at hlater
    split at hlater
    · cases hlater
    · split at hlater <;> cases hlater
  | deferrals d => exact deferrals_collect _ id

/-! What completes submissions stays what it is. -/

theorem watch_platform (c : Completion Nat) (id : SubmissionId) : (c.watch id).platform = c.platform := by
  cases c <;> rfl

theorem settle_platform (c : Completion Nat) (id : SubmissionId) (outcome : Outcome) :
    (c.settle id outcome).2.platform = c.platform := by cases c <;> rfl

theorem wait_platform (c : Completion Nat) (id : SubmissionId) (w : Nat) :
    (c.wait id w).2.platform = c.platform := by
  cases c <;> rfl

theorem collect_platform (c : Completion Nat) (id : SubmissionId) : (c.collect id).platform = c.platform := by
  cases c <;> rfl

theorem discard_platform (c : Completion Nat) (id : SubmissionId) : (c.discard id).2.platform = c.platform := by
  cases c <;> rfl

theorem Spent.congr {c' : Completion Nat} (h : c.Spent x) (hp : c'.platform = c.platform)
    (hs : c'.status x = c.status x) : c'.Spent x := by
  refine ⟨fun ⟨ws, hws⟩ => h.1 ⟨ws, hs ▸ hws⟩, ?_⟩
  cases c' with
  | reactor r' =>
    cases c with
    | reactor r => exact hs.trans h.2
    | deferrals d => cases hp
  | deferrals d' => exact deferrals_collect d' x

theorem settle_other (h : c.Sane) (id : SubmissionId) (outcome : Outcome) (hx : x ≠ id) :
    (c.settle id outcome).2.status x = c.status x := by
  by_cases hopen : c.Open id
  · obtain ⟨ws, hws⟩ := hopen
    exact (settle_spec h hws outcome).2.2.2 x hx
  · rw [settle_closed hopen]

theorem discard_fst (c : Completion Nat) (id : SubmissionId) :
    (c.discard id).1 = (c.settle id (.error (discardedSubmission id))).1 := by
  cases c <;> rfl

/-! ## How many submissions a delivery holds -/

/-- Submissions that have not settled or whose outcome is there. -/
def keys : Completion Nat → List SubmissionId
  | reactor r => r.inFlight ++ r.retained.map (·.1)
  | deferrals d => d.entries.map (·.1)

/-- No submission has two outcomes. -/
def Distinct : Completion Nat → Prop
  | reactor r => (r.retained.map (·.1)).Nodup
  | deferrals d => (d.entries.map (·.1)).Nodup

theorem size_eq (c : Completion Nat) : c.size = c.keys.length := by
  cases c <;> simp [size, Reactor.size, Deferrals.size, keys]

theorem lookup_eq_none {β : Type} {l : List (SubmissionId × β)} : l.lookup id = none ↔ id ∉ l.map (·.1) := by
  rw [List.lookup_eq_none_iff]
  simp only [bne_iff_ne, List.mem_map, not_exists, not_and]
  exact ⟨fun h x hx heq => h x hx heq.symm, fun h x hx heq => h x hx heq.symm⟩

theorem mem_keys (c : Completion Nat) (id : SubmissionId) : id ∈ c.keys ↔ c.status id ≠ .absent := by
  cases c with
  | reactor r =>
    unfold keys status
    dsimp only
    rw [List.mem_append]
    split
    · rename_i hmem
      exact ⟨nofun, fun _ => .inl hmem⟩
    · rename_i hmem
      split
      · rename_i outcome hlookup
        refine ⟨nofun, fun _ => .inr (by_contra fun hnot => ?_)⟩
        rw [lookup_eq_none.mpr hnot] at hlookup
        cases hlookup
      · rename_i hlookup
        exact ⟨fun h => absurd h (not_or.mpr ⟨hmem, lookup_eq_none.mp hlookup⟩), fun h => absurd rfl h⟩
  | deferrals d =>
    unfold keys status
    dsimp only
    have hmem : id ∈ d.entries.map (·.1) ↔ d.entries.lookup id ≠ none := by rw [Ne, lookup_eq_none, not_not]
    rw [hmem]
    split <;> simp [*]

theorem keys_nodup (h : c.Sane) (hd : c.Distinct) : c.keys.Nodup := by
  cases c with
  | reactor r =>
    obtain ⟨hnodup, hnone, -⟩ := h
    exact hnodup.append hd fun id hid hid' => lookup_eq_none.mp (hnone id hid) hid'
  | deferrals d => exact hd

theorem nodup_filter {β : Type} {l : List (SubmissionId × β)} (h : (l.map (·.1)).Nodup) (id : SubmissionId) :
    ((l.filter (·.1 != id)).map (·.1)).Nodup := h.sublist (List.filter_sublist.map _)

theorem nodup_snoc {β : Type} {l : List (SubmissionId × β)} (h : (l.map (·.1)).Nodup) (id : SubmissionId) (b : β) :
    ((l.filter (·.1 != id) ++ [(id, b)]).map (·.1)).Nodup := by
  rw [List.map_append]
  refine (nodup_filter h id).append (List.nodup_singleton _) fun x hx hx' => ?_
  obtain ⟨y, hy, rfl⟩ := List.mem_map.mp hx
  exact (bne_iff_ne.mp (List.mem_filter.mp hy).2) (List.mem_singleton.mp hx')

theorem distinct_watch (h : c.Distinct) (id : SubmissionId) : (c.watch id).Distinct := by
  cases c with
  | reactor r =>
    unfold watch Reactor.watch
    dsimp only
    split <;> exact h
  | deferrals d => exact nodup_snoc h id _

theorem distinct_settle (h : c.Distinct) (id : SubmissionId) (outcome : Outcome) :
    (c.settle id outcome).2.Distinct := by
  cases c with
  | reactor r =>
    unfold settle Reactor.settle
    dsimp only
    split
    · split
      · exact nodup_snoc h id _
      · exact h
    · exact h
  | deferrals d =>
    unfold settle Deferrals.settle
    dsimp only
    split
    · exact nodup_snoc h id _
    · exact h

theorem distinct_wait (h : c.Distinct) (id : SubmissionId) (w : Nat) : (c.wait id w).2.Distinct := by
  cases c with
  | reactor r =>
    unfold wait Reactor.wait
    dsimp only
    split
    · exact nodup_filter h id
    · split <;> exact h
  | deferrals d =>
    unfold wait Deferrals.wait
    dsimp only
    split
    · exact h
    · exact h
    · exact nodup_snoc h id _

theorem distinct_collect (h : c.Distinct) (id : SubmissionId) : (c.collect id).Distinct := by
  cases c with
  | reactor r => exact h
  | deferrals d => exact nodup_filter h id

theorem distinct_discard (h : c.Distinct) (id : SubmissionId) : (c.discard id).2.Distinct := by
  have hs := distinct_settle h id (.error (discardedSubmission id))
  cases c with
  | reactor r => exact nodup_filter hs id
  | deferrals d => exact nodup_filter hs id

theorem size_congr {c' : Completion Nat} (h : c.Sane) (hd : c.Distinct) (h' : c'.Sane) (hd' : c'.Distinct)
    (hs : ∀ x, c.status x = c'.status x) : c.size = c'.size := by
  rw [size_eq, size_eq]
  refine List.Perm.length_eq ((List.perm_ext_iff_of_nodup (keys_nodup h hd) (keys_nodup h' hd')).mpr fun x => ?_)
  rw [mem_keys, mem_keys, hs]

/-! ## A desk follows its account -/

namespace Desk

variable {d : Desk} {rs : List (Request Unit)} {a : Account}

/-- Submissions stand as in the account, but for those that somebody was woken for: they are spent. -/
structure Follows (d : Desk) (rs : List (Request Unit)) (a : Account) : Prop where
  sane : d.completion.Sane
  distinct : d.completion.Distinct
  asked : d.asked = a.asked
  answers : (d.answers ++ d.woken.map (·.2)).Perm a.answers
  same : ∀ x, x ∉ d.woken.map (·.1) → d.completion.status x = a.status x
  settled : ∀ x ∈ d.woken.map (·.1), a.status x = .absent
  spent : ∀ x ∈ d.woken.map (·.1), d.completion.Spent x
  awaited : ∀ x ∈ d.woken.map (·.1), Request.Awaited rs x

theorem Follows.snoc (h : d.Follows rs a) (r : Request Unit) : d.Follows (rs ++ [r]) a :=
  { h with awaited := fun x hx => (h.awaited x hx).snoc r }

/-- A submission stands as in the account, or somebody was woken for it and it is spent, here and there. -/
def Tracks (d : Desk) (rs : List (Request Unit)) (a : Account) (x : SubmissionId) : Prop :=
  (x ∉ d.woken.map (·.1) ∧ d.completion.status x = a.status x) ∨
    (x ∈ d.woken.map (·.1) ∧ a.status x = .absent ∧ d.completion.Spent x ∧ Request.Awaited rs x)

theorem Follows.tracks (h : d.Follows rs a) (x : SubmissionId) : d.Tracks rs a x := by
  by_cases hx : x ∈ d.woken.map (·.1)
  · exact .inr ⟨hx, h.settled x hx, h.spent x hx, h.awaited x hx⟩
  · exact .inl ⟨hx, h.same x hx⟩

theorem Tracks.follows (h : ∀ x, d.Tracks rs a x) (hsane : d.completion.Sane) (hd : d.completion.Distinct)
    (hasked : d.asked = a.asked) (hanswers : (d.answers ++ d.woken.map (·.2)).Perm a.answers) : d.Follows rs a where
  sane := hsane
  distinct := hd
  asked := hasked
  answers := hanswers
  same x hx := ((h x).resolve_right fun hw => hx hw.1).2
  settled x hx := ((h x).resolve_left fun hs => hs.1 hx).2.1
  spent x hx := ((h x).resolve_left fun hs => hs.1 hx).2.2.1
  awaited x hx := ((h x).resolve_left fun hs => hs.1 hx).2.2.2

theorem Tracks.congr {d' : Desk} {a' : Account} {x : SubmissionId} (h : d.Tracks rs a x)
    (hp : d'.completion.platform = d.completion.platform) (hs : d'.completion.status x = d.completion.status x)
    (hw : x ∈ d'.woken.map (·.1) ↔ x ∈ d.woken.map (·.1)) (ha : a'.status x = a.status x) : d'.Tracks rs a' x := by
  unfold Tracks
  rw [hw, hs, ha]
  exact h.imp_right fun ⟨hx, habsent, hspent, hawaited⟩ => ⟨hx, habsent, hspent.congr hp hs, hawaited⟩

/-- Somebody is woken for a submission, which makes no difference to the others. -/
theorem mem_woken {news : List (Nat × Outcome)} {x : SubmissionId} (hx : x ≠ id) :
    x ∈ (d.woken ++ news.map (id, ·)).map (·.1) ↔ x ∈ d.woken.map (·.1) := by
  rw [List.map_append, List.mem_append]
  refine or_iff_left fun hmem => hx ?_
  simp only [List.map_map, List.mem_map, Function.comp_apply] at hmem
  obtain ⟨-, -, heq⟩ := hmem
  exact heq.symm

theorem Follows.settle (h : d.Follows rs a) (ha : a.Sound rs) (id : SubmissionId) (outcome : Outcome) :
    (d.wake id (d.completion.settle id outcome)).Follows rs (a.settle id outcome) := by
  by_cases hopen : d.completion.Open id
  · obtain ⟨ws, hws⟩ := hopen
    have hsilent : id ∉ d.woken.map (·.1) := fun hmem => (h.spent id hmem).1 ⟨ws, hws⟩
    have hstatus : a.status id = .waiting ws := (h.same id hsilent).symm.trans hws
    obtain ⟨hsane, hwoken, hsettled, hother⟩ := settle_spec h.sane hws outcome
    have hdistinct := distinct_settle h.distinct id outcome
    -- without a waiter the outcome is kept here as in the account; with one, the account has it answered at once
    cases ws with
    | nil =>
      have hkept := hsettled.resolve_right fun ⟨_, hne⟩ => hne rfl
      have heq : d.wake id (d.completion.settle id outcome) =
          { d with completion := (d.completion.settle id outcome).2 } := by simp [wake, hwoken]
      have ha' : a.settle id outcome = a.put id (.kept outcome) := by simp [Account.settle, hstatus]
      rw [heq, ha']
      refine Tracks.follows (fun x => ?_) hsane hdistinct h.asked h.answers
      by_cases hx : x = id
      · subst hx
        exact .inl ⟨hsilent, hkept.trans (Account.put_self ..).symm⟩
      · exact (h.tracks x).congr (settle_platform ..) (hother x hx) Iff.rfl (Account.put_of_ne a _ hx)
    | cons w ws =>
      have ha' : a.settle id outcome =
          { a.put id .absent with answers := a.answers ++ (w :: ws).map (·, outcome) } := by
        simp [Account.settle, hstatus]
      have heq : d.wake id (d.completion.settle id outcome) = { d with
          completion := (d.completion.settle id outcome).2
          woken := d.woken ++ ((w :: ws).map (·, outcome)).map (id, ·) } := by simp [wake, hwoken]
      rw [heq, ha']
      refine Tracks.follows (fun x => ?_) hsane hdistinct h.asked ?_
      · by_cases hx : x = id
        · subst hx
          have hspent := settle_spent h.sane hws (List.cons_ne_nil w ws) outcome
          exact .inr ⟨by simp, Account.put_self a x .absent, hspent, ha.joined x w ws hstatus⟩
        · exact (h.tracks x).congr (settle_platform ..) (hother x hx) (mem_woken hx) (Account.put_of_ne a _ hx)
      · simp only [List.map_append, List.map_map, Function.comp_def, ← List.append_assoc]
        exact h.answers.append_right _
  · -- Whoever was woken for `id` or will wait for it does not matter: it has settled for the account, too.
    have hkept : a.settle id outcome = a := by
      unfold Account.settle
      rcases h.tracks id with ⟨-, hsame⟩ | ⟨-, habsent, -⟩
      · split
        · rename_i heq
          exact absurd ⟨[], hsame.trans heq⟩ hopen
        · rename_i ws _ heq
          exact absurd ⟨ws, hsame.trans heq⟩ hopen
        · rfl
      · rw [habsent]
    have heq : d.wake id (d.completion.settle id outcome) = d := by simp [wake, settle_closed hopen]
    rw [heq, hkept]
    exact h

/-- The completion changes for one submission only, and forgets it. -/
theorem Follows.forget (h : d.Follows rs a) {c : Completion Nat} (hsane : c.Sane) (hd : c.Distinct)
    (hp : c.platform = d.completion.platform) (hid : c.status id = .absent)
    (hother : ∀ x ≠ id, c.status x = d.completion.status x) :
    ({ d with completion := c } : Desk).Follows rs (a.put id .absent) := by
  refine Tracks.follows (fun x => ?_) hsane hd h.asked h.answers
  by_cases hx : x = id
  · subst hx
    rcases h.tracks x with ⟨hsilent, -⟩ | ⟨hwoken, -, -, hawaited⟩
    · exact .inl ⟨hsilent, hid.trans (Account.put_self ..).symm⟩
    · exact .inr ⟨hwoken, Account.put_self a x .absent, spent_of_absent hsane hid, hawaited⟩
  · exact (h.tracks x).congr hp (hother x hx) Iff.rfl (Account.put_of_ne a _ hx)

theorem Follows.discard (h : d.Follows rs a) (ha : a.Sound rs) (id : SubmissionId) :
    (d.wake id (d.completion.discard id)).Follows rs
      ((a.settle id (.error (discardedSubmission id))).put id .absent) := by
  obtain ⟨hsane, habsent, hother, -⟩ := discard_spec h.sane id
  have hwake : d.wake id (d.completion.discard id) =
      { d.wake id (d.completion.settle id (.error (discardedSubmission id))) with
        completion := (d.completion.discard id).2 } := by
    unfold wake
    rw [discard_fst]
  rw [hwake]
  refine (h.settle ha id _).forget hsane (distinct_discard h.distinct id) ?_ habsent fun x hx => ?_
  · exact (discard_platform ..).trans (settle_platform ..).symm
  · exact (hother x hx).trans (settle_other h.sane id _ hx).symm

theorem Follows.watch (h : d.Follows rs a) (ha : a.Sound rs) (hid : .watch id ∉ rs) :
    (d.ask (.watch id)).Follows rs (a.put id (.waiting [])) := by
  have hsilent : id ∉ d.woken.map (·.1) := fun hmem => hid (h.awaited id hmem).watched
  have habsent : a.status id = .absent := by_contra fun hne => hid (ha.watched id hne)
  obtain ⟨hsane, hwaiting, hother⟩ := watch_spec h.sane ((h.same id hsilent).trans habsent)
  refine Tracks.follows (fun x => ?_) hsane (distinct_watch h.distinct id) h.asked h.answers
  by_cases hx : x = id
  · subst hx
    exact .inl ⟨hsilent, hwaiting.trans (Account.put_self ..).symm⟩
  · exact (h.tracks x).congr (watch_platform ..) (hother x hx) Iff.rfl (Account.put_of_ne a _ hx)

theorem ask_wait {reply : WaitReply} (h : (d.completion.wait id d.asked).1 = reply) :
    d.ask (.wait id ()) = d.attend id (reply, (d.completion.wait id d.asked).2) := by
  rw [← h]
  rfl

theorem Follows.answers_snoc (h : d.Follows rs a) (outcome : Outcome) :
    (d.answers ++ [(d.asked, outcome)] ++ d.woken.map (·.2)).Perm (a.answers ++ [(a.asked, outcome)]) := by
  have hlast : ([(d.asked, outcome)] ++ d.woken.map (·.2)).Perm (d.woken.map (·.2) ++ [(d.asked, outcome)]) :=
    List.perm_append_comm
  have hmoved := hlast.append_left d.answers
  rw [← List.append_assoc, ← List.append_assoc] at hmoved
  rw [← h.asked]
  exact hmoved.trans (h.answers.append_right _)

theorem Follows.wait_unknown (h : d.Follows rs a) (hid : d.completion.status id = .absent)
    (hsame : a.status id = .absent) :
    (d.ask (.wait id ())).Follows (rs ++ [.wait id ()]) (a.ask (.wait id ())) := by
  have hwait := wait_absent hid d.asked
  have hask : d.ask (.wait id ()) = { d with
      asked := d.asked + 1, answers := d.answers ++ [(d.asked, .error (unknownSubmission id))] } := by
    rw [ask_wait (congrArg Prod.fst hwait), hwait]
    rfl
  have haccount : a.ask (.wait id ()) = { a with
      asked := a.asked + 1, answers := a.answers ++ [(a.asked, .error (unknownSubmission id))] } := by
    simp [Account.ask, hsame]
  rw [hask, haccount]
  exact { h.snoc _ with asked := congrArg (· + 1) h.asked, answers := h.answers_snoc _ }

theorem Follows.wait_joins (h : d.Follows rs a) (hsilent : id ∉ d.woken.map (·.1)) {ws : List Nat}
    (hid : d.completion.status id = .waiting ws) (hsame : a.status id = .waiting ws) :
    (d.ask (.wait id ())).Follows (rs ++ [.wait id ()]) (a.ask (.wait id ())) := by
  obtain ⟨hsane, hreply, hwaiting, hother⟩ := wait_waiting h.sane hid d.asked
  have hask :
      d.ask (.wait id ()) = { d with completion := (d.completion.wait id d.asked).2, asked := d.asked + 1 } :=
    ask_wait hreply
  have haccount : a.ask (.wait id ()) = { a.put id (.waiting (ws ++ [a.asked])) with asked := a.asked + 1 } := by
    simp [Account.ask, hsame]
  rw [hask, haccount]
  refine Tracks.follows (fun x => ?_) hsane (distinct_wait h.distinct id _) (congrArg (· + 1) h.asked) h.answers
  by_cases hx : x = id
  · subst hx
    rw [← h.asked]
    exact .inl ⟨hsilent, hwaiting.trans (Account.put_self ..).symm⟩
  · exact ((h.snoc _).tracks x).congr (wait_platform ..) (hother x hx) Iff.rfl (Account.put_of_ne a _ hx)

/-- What is kept answers the first to wait, now or in a later turn, and is forgotten. -/
theorem Follows.wait_takes (h : d.Follows rs a) (ha : a.Sound rs) {outcome : Outcome}
    (hid : d.completion.status id = .kept outcome) (hsame : a.status id = .kept outcome) :
    (d.ask (.wait id ())).Follows (rs ++ [.wait id ()]) (a.ask (.wait id ())) := by
  obtain ⟨hsane, -, hother⟩ := wait_kept h.sane hid d.asked
  have hdistinct := distinct_wait h.distinct id d.asked
  have haccount : a.ask (.wait id ()) =
      { a.put id .absent with asked := a.asked + 1, answers := a.answers ++ [(a.asked, outcome)] } := by
    simp [Account.ask, hsame]
  rw [haccount]
  rcases wait_spent h.sane hid d.asked with ⟨hreply, habsent⟩ | ⟨hreply, hspent⟩
  · have hask : d.ask (.wait id ()) = { d with
        completion := (d.completion.wait id d.asked).2
        asked := d.asked + 1
        answers := d.answers ++ [(d.asked, outcome)] } := ask_wait hreply
    rw [hask]
    have hforget := (h.snoc (.wait id ())).forget hsane hdistinct (wait_platform ..) habsent hother
    exact { hforget with asked := congrArg (· + 1) h.asked, answers := h.answers_snoc outcome }
  · have hask : d.ask (.wait id ()) = { d with
        completion := (d.completion.wait id d.asked).2
        asked := d.asked + 1
        woken := d.woken ++ [(d.asked, outcome)].map (id, ·) } := ask_wait hreply
    rw [hask]
    refine Tracks.follows (fun x => ?_) hsane hdistinct (congrArg (· + 1) h.asked) ?_
    · by_cases hx : x = id
      · subst hx
        have hawaited := Request.awaited_snoc (ha.watched x (by simp [hsame]))
        exact .inr ⟨by simp, Account.put_self a x .absent, hspent, hawaited⟩
      · exact ((h.snoc _).tracks x).congr (wait_platform ..) (hother x hx) (mem_woken hx) (Account.put_of_ne a _ hx)
    · rw [List.map_append, ← List.append_assoc, ← h.asked]
      exact h.answers.append_right _

theorem Follows.wait (h : d.Follows rs a) (ha : a.Sound rs) (hid : ¬Request.Awaited rs id) :
    (d.ask (.wait id ())).Follows (rs ++ [.wait id ()]) (a.ask (.wait id ())) := by
  have hsilent : id ∉ d.woken.map (·.1) := fun hmem => hid (h.awaited id hmem)
  have hsame : d.completion.status id = a.status id := h.same id hsilent
  cases hstatus : a.status id with
  | absent => exact h.wait_unknown (hsame.trans hstatus) hstatus
  | waiting ws => exact h.wait_joins hsilent (hsame.trans hstatus) hstatus
  | kept outcome => exact h.wait_takes ha (hsame.trans hstatus) hstatus

theorem Follows.resume (h : d.Follows rs a) (n : Nat) : (d.resume n).Follows rs a := by
  unfold Desk.resume
  split
  · rename_i id w outcome hget
    obtain ⟨hlt, hget⟩ := List.getElem?_eq_some_iff.mp hget
    have hperm : ((id, w, outcome) :: d.woken.eraseIdx n).Perm d.woken := hget ▸ List.getElem_cons_eraseIdx_perm hlt
    have hkeys (x : SubmissionId) : x ∈ d.woken.map (·.1) ↔ x = id ∨ x ∈ (d.woken.eraseIdx n).map (·.1) := by
      rw [← (hperm.map _).mem_iff, List.map_cons, List.mem_cons]
    have hid : id ∈ d.woken.map (·.1) := (hkeys id).mpr (.inl rfl)
    obtain ⟨hsane, -, hother⟩ := collect_spec h.sane id
    have habsent := (h.spent id hid).2
    refine
      { sane := hsane
        distinct := distinct_collect h.distinct id
        asked := h.asked
        answers := ?_
        same := fun x hx => ?_
        settled := fun x hx => h.settled x ((hkeys x).mpr (.inr hx))
        spent := fun x hx => ?_
        awaited := fun x hx => h.awaited x ((hkeys x).mpr (.inr hx)) }
    · refine List.Perm.trans ?_ h.answers
      rw [List.append_assoc]
      exact (hperm.map (·.2)).append_left d.answers
    · by_cases hxid : x = id
      · rw [hxid, h.settled id hid]
        exact habsent
      · exact (hother x hxid).trans (h.same x fun hmem => ((hkeys x).mp hmem).elim hxid hx)
    · by_cases hxid : x = id
      · rw [hxid]
        exact spent_of_absent hsane habsent
      · refine (h.spent x ((hkeys x).mpr (.inr hx))).congr ?_ (hother x hxid)
        cases d.completion <;> rfl
  · exact h

theorem Follows.ask (h : d.Follows rs a) (ha : a.Sound rs) (r : Request Unit) (hp : Request.Proper (rs ++ [r])) :
    (d.ask r).Follows (rs ++ [r]) (a.ask r) := by
  cases r with
  | watch id => exact (h.watch ha hp.not_watched).snoc _
  | settle id outcome => exact (h.settle ha id _).snoc _
  | wait id w => exact h.wait ha hp.not_awaited
  | abandon id failure => exact (h.settle ha id _).snoc _
  | discard id => exact (h.discard ha id).snoc _

theorem requests_snoc (events : List Event) (e : Event) :
    Event.requests (events ++ [e]) = Event.requests events ++ Event.requests [e] := List.filterMap_append

theorem run_snoc (events : List Event) (e : Event) : d.run (events ++ [e]) = (d.run events).step e := by
  simp [run]

theorem follows_run (p : Platform) (events : List Event) (hp : Request.Proper (Event.requests events)) :
    ((start p).run events).Follows (Event.requests events) (.of (Event.requests events)) := by
  induction events using List.reverseRecOn with
  | nil =>
    exact
      { sane := sane_ofPlatform p
        distinct := by cases p <;> exact List.nodup_nil
        asked := rfl
        answers := List.Perm.refl _
        same := fun x _ => status_ofPlatform p x
        settled := nofun
        spent := nofun
        awaited := nofun }
  | append_singleton events e ih =>
    rw [requests_snoc] at hp ⊢
    rw [run_snoc]
    cases e with
    | ask r =>
      have hsnoc : Event.requests [.ask r] = [r] := rfl
      rw [hsnoc] at hp ⊢
      rw [Account.of_snoc]
      exact (ih hp.of_snoc).ask (Account.sound_of _) r hp
    | resume n =>
      have hnone : Event.requests [.resume n] = [] := rfl
      rw [hnone, List.append_nil] at hp ⊢
      exact (ih hp).resume n

/-! ## The end of all waits -/

theorem run_append (d : Desk) (events events' : List Event) :
    d.run (events ++ events') = (d.run events).run events' :=
  List.foldl_append

theorem requests_resumes (n : Nat) : Event.requests (List.replicate n (.resume 0)) = [] := by
  rw [Event.requests, List.filterMap_eq_nil_iff]
  intro e he
  rw [List.eq_of_mem_replicate he]

theorem drain_woken (d : Desk) : d.drain.woken = [] := by
  have hrun (n : Nat) : ∀ d : Desk, d.woken.length = n → (d.run (List.replicate n (.resume 0))).woken = [] := by
    induction n with
    | zero => exact fun d hd => List.eq_nil_of_length_eq_zero hd
    | succ n ih =>
      intro d hd
      obtain ⟨completion, asked, woken, answers⟩ := d
      cases woken with
      | nil => cases hd
      | cons w woken => exact ih _ (Nat.succ.inj hd)
  exact hrun _ d rfl

/-- When all have gone on, the answers are those of the account. -/
theorem drain_follows (p : Platform) (events : List Event) (hp : Request.Proper (Event.requests events)) :
    ((start p).run events).drain.Follows (Event.requests events) (.of (Event.requests events)) := by
  have hrequests : Event.requests (events ++ List.replicate ((start p).run events).woken.length (.resume 0)) =
      Event.requests events := by
    rw [Event.requests, List.filterMap_append]
    exact (congrArg _ (requests_resumes _)).trans (List.append_nil _)
  have h := follows_run p (events ++ List.replicate ((start p).run events).woken.length (.resume 0))
      (hrequests.symm ▸ hp)
  rwa [hrequests, run_append] at h

theorem lookup_of_mem {l : List (Nat × Outcome)} (hn : (l.map (·.1)).Nodup) {n : Nat} {outcome : Outcome}
    (h : (n, outcome) ∈ l) : l.lookup n = some outcome := by
  induction l with
  | nil => cases h
  | cons y l ih =>
    obtain ⟨k, o⟩ := y
    obtain ⟨hy, hn⟩ := List.nodup_cons.mp hn
    rcases List.mem_cons.mp h with heq | h
    · cases heq
      exact List.lookup_cons_self
    · have hne : n ≠ k := fun heq => hy (List.mem_map.mpr ⟨_, h, heq⟩)
      rw [List.lookup_cons, beq_eq_false_iff_ne.mpr hne]
      exact ih hn h

theorem lookup_perm {l l' : List (Nat × Outcome)} (h : l.Perm l') (hn : (l'.map (·.1)).Nodup) (n : Nat) :
    l.lookup n = l'.lookup n := by
  have hn' : (l.map (·.1)).Nodup := (h.map _).nodup_iff.mpr hn
  cases hl : l'.lookup n with
  | some outcome =>
    obtain ⟨l₁, l₂, rfl, -⟩ := List.lookup_eq_some_iff.mp hl
    exact lookup_of_mem hn' (h.mem_iff.mpr (by simp))
  | none =>
    rw [List.lookup_eq_none_iff] at hl ⊢
    exact fun y hy => hl y (h.mem_iff.mp hy)

theorem Follows.answer (h : d.Follows rs a) (ha : a.Sound rs) (hw : d.woken = []) (n : Nat) :
    d.answer? n = a.answers.lookup n := by
  refine lookup_perm ?_ ha.once n
  have hanswers := h.answers
  rwa [hw, List.map_nil, List.append_nil] at hanswers

theorem Follows.status (h : d.Follows rs a) (hw : d.woken = []) (x : SubmissionId) :
    d.completion.status x = a.status x :=
  h.same x (by rw [hw]; exact List.not_mem_nil)

/-- Both deliveries are asked the same, each submission being watched once and waited for at most once after that,
and those who were woken go on at any time. Then every wait ends alike, or is pending on both, and the deliveries
are of the same size when nobody is about to go on. -/
theorem deliveries_agree (native browser : List Event) (hsame : Event.requests native = Event.requests browser)
    (hp : Request.Proper (Event.requests native)) :
    let r := (start .native).run native
    let d := (start .browser).run browser
    (∀ n, r.drain.answer? n = d.drain.answer? n) ∧
      (r.woken = [] → d.woken = [] → r.completion.size = d.completion.size) := by
  intro r d
  have ha := Account.sound_of (Event.requests native)
  have hp' : Request.Proper (Event.requests browser) := hsame ▸ hp
  have hdrain := drain_follows .browser browser hp'
  have hd := follows_run .browser browser hp'
  have hr := follows_run .native native hp
  rw [← hsame] at hdrain hd
  constructor
  · intro n
    rw [(drain_follows .native native hp).answer ha (drain_woken _) n, hdrain.answer ha (drain_woken _) n]
  · intro hrw hdw
    exact size_congr hr.sane hr.distinct hd.sane hd.distinct fun x => (hr.status hrw x).trans (hd.status hdw x).symm

/-- A wait that is met before its submission settles, and one that comes after a failure. -/
theorem deliveries_agree_failed :
    let one : SubmissionId := .number 1
    let two : SubmissionId := .number 2
    let lost : Failure := .of .deviceLost
    let asked : List Event :=
      [.ask (.watch one), .ask (.watch two), .ask (.wait one ()), .ask (.settle one (.ok ())),
      .ask (.abandon two lost), .ask (.wait two ())]
    let r := (start .native).run (asked ++ [.resume 0])
    let d := (start .browser).run (asked ++ [.resume 1, .resume 0])
    r.answer? 0 = some (.ok ()) ∧ r.answer? 1 = some (.error lost) ∧
      ((∀ n, r.drain.answer? n = d.drain.answer? n) ∧
        (r.woken = [] → d.woken = [] → r.completion.size = d.completion.size)) ∧
      r.woken = [] ∧ d.woken = [] := by
  refine ⟨by decide, by
    decide, deliveries_agree _ _ rfl ⟨by decide, fun id before after heq => ?_⟩, by decide, by decide⟩
  -- Nobody waits for the same submission twice, before or after.
  have htotal := congrArg (List.countP (Request.waitsOn id)) heq
  simp only [List.countP_append, List.countP_cons] at htotal
  by_cases hone : id = .number 1
  · subst hone
    simp [Event.requests, Request.waitsOn] at htotal
    omega
  · by_cases htwo : id = .number 2
    · subst htwo
      simp [Event.requests, Request.waitsOn] at htotal
      omega
    · simp [Event.requests, Request.waitsOn, Ne.symm hone, Ne.symm htwo] at htotal
      omega

end Desk

end Strata.Completion
