import Mathlib.Data.List.TakeWhile
import Strata.Proofs.Engine.Interchange

/-!
# Which waits are refused

Any number of waits may be made for one submission, at any time. `Upright` is what holds of a desk all the same:
each wait is due one answer at most, and what it is due is the outcome of its submission, unless it is refused at
once. When a wait has been answered with the outcome, nothing is left of the submission, so all later waits are
refused (`refused_once_delivered`). Waits that are made before share the outcome (`outcome_delivered_twice`).
-/

namespace Strata.Completion

namespace Request

/-- The submission that a wait is for. -/
def awaited? : Request Unit → Option SubmissionId
  | wait id _ => some id
  | _ => none

/-- What the waits are for, in the order in which they are made. -/
def waits (rs : List (Request Unit)) : List SubmissionId := rs.filterMap awaited?

/-- What a request has a submission end with, if it is still in flight. -/
def ending? (id : SubmissionId) : Request Unit → Option Outcome
  | settle x outcome => if x = id then some (outcome.mapError Failure.asError) else none
  | abandon x failure => if x = id then some (.error failure) else none
  | discard x => if x = id then some (.error (discardedSubmission x)) else none
  | _ => none

/-- The outcome of a submission: the first that it is given once it is watched. -/
def outcome? (rs : List (Request Unit)) (id : SubmissionId) : Option Outcome :=
  (rs.dropWhile (·.watched? != some id)).findSome? (ending? id)

variable {rs : List (Request Unit)} {r : Request Unit} {id : SubmissionId} {outcome : Outcome}

theorem watched?_eq_some : r.watched? = some id ↔ r = .watch id := by
  cases r <;> simp [watched?]

theorem dropWhile_unwatched (h : .watch id ∉ rs) : rs.dropWhile (·.watched? != some id) = [] := by
  refine List.dropWhile_eq_nil_iff.mpr fun x hx => ?_
  rw [bne_iff_ne, ne_eq, watched?_eq_some]
  exact fun heq => h (heq ▸ hx)

theorem outcome?_of_not_watched (h : .watch id ∉ rs) : outcome? rs id = none := by
  unfold outcome?
  rw [dropWhile_unwatched h]
  rfl

theorem outcome?_snoc (h : .watch id ∈ rs) (r : Request Unit) :
    outcome? (rs ++ [r]) id = (outcome? rs id).or (ending? id r) := by
  unfold outcome?
  have hne : ¬(rs.dropWhile (·.watched? != some id)).isEmpty = true := by
    rw [List.isEmpty_iff, List.dropWhile_eq_nil_iff]
    intro hall
    exact bne_iff_ne.mp (hall _ h) rfl
  rw [List.dropWhile_append, if_neg hne, List.findSome?_append]
  simp

theorem outcome?_snoc_of_not_watched (h : .watch id ∉ rs) (r : Request Unit) : outcome? (rs ++ [r]) id = none := by
  unfold outcome?
  rw [List.dropWhile_append, dropWhile_unwatched h, List.isEmpty_nil, if_pos rfl, List.dropWhile_cons]
  split
  · rfl
  · rename_i hwatch
    rw [bne_iff_ne, not_not, watched?_eq_some] at hwatch
    subst hwatch
    rfl

theorem watched_of_outcome? (h : outcome? rs id = some outcome) : .watch id ∈ rs := by
  by_contra hnot
  rw [outcome?_of_not_watched hnot] at h
  cases h

theorem outcome?_mono (h : outcome? rs id = some outcome) (r : Request Unit) :
    outcome? (rs ++ [r]) id = some outcome := by
  rw [outcome?_snoc (watched_of_outcome? h), h, Option.some_or]

theorem outcome?_other (h : ending? id r = none) : outcome? (rs ++ [r]) id = outcome? rs id := by
  by_cases hmem : .watch id ∈ rs
  · rw [outcome?_snoc hmem, h, Option.or_none]
  · rw [outcome?_snoc_of_not_watched hmem, outcome?_of_not_watched hmem]

theorem waits_snoc (rs : List (Request Unit)) (r : Request Unit) :
    waits (rs ++ [r]) = waits rs ++ r.awaited?.toList := by
  unfold waits
  rw [List.filterMap_append]
  cases h : r.awaited? <;> simp [h]

theorem waits_mono {w : Nat} (h : (waits rs)[w]? = some id) (r : Request Unit) :
    (waits (rs ++ [r]))[w]? = some id := by
  rw [waits_snoc]
  exact List.getElem?_append_left (List.getElem?_eq_some_iff.mp h).1 ▸ h

/-- A request that gives one submission an end, and is no wait. -/
structure Ends (r : Request Unit) (id : SubmissionId) (outcome : Outcome) : Prop where
  ends : r.ending? id = some outcome
  others : ∀ x ≠ id, r.ending? x = none
  awaits : r.awaited? = none

namespace Ends

theorem waits (h : r.Ends id outcome) (rs : List (Request Unit)) :
    Request.waits (rs ++ [r]) = Request.waits rs := by
  rw [waits_snoc, h.awaits]
  exact List.append_nil _

theorem watched (h : r.Ends id outcome) {x : SubmissionId} (hx : .watch x ∈ rs ++ [r]) : .watch x ∈ rs := by
  refine (List.mem_append.mp hx).resolve_right fun hx => ?_
  have hends := h.ends
  rw [← List.mem_singleton.mp hx] at hends
  cases hends

theorem outcome?_of_ne (h : r.Ends id outcome) {x : SubmissionId} (hx : x ≠ id) :
    outcome? (rs ++ [r]) x = outcome? rs x := outcome?_other (h.others x hx)

theorem outcome?_ne_none (h : r.Ends id outcome) (hmem : .watch id ∈ rs) : outcome? (rs ++ [r]) id ≠ none := by
  rw [outcome?_snoc hmem, h.ends]
  cases outcome? rs id <;> exact nofun

theorem outcome?_first (h : r.Ends id outcome) (hmem : .watch id ∈ rs) (hnone : outcome? rs id = none) :
    outcome? (rs ++ [r]) id = some outcome := by
  rw [outcome?_snoc hmem, hnone, h.ends, Option.none_or]

end Ends

end Request

theorem Account.Sound.perm {rs : List (Request Unit)} {a : Account} (h : a.Sound rs)
    {answers : List (Nat × Outcome)} (hp : answers.Perm a.answers) : { a with answers := answers }.Sound rs :=
  have hkeys := hp.map (·.1)
  { h with
    due := fun id ws hid w hw =>
      ⟨(h.due id ws hid w hw).1, fun hmem => (h.due id ws hid w hw).2 (hkeys.mem_iff.mp hmem)⟩
    below := fun w hw => h.below w (hkeys.mem_iff.mp hw)
    once := hkeys.nodup_iff.mpr h.once }

namespace Desk

/-- The answers given, and those that are due to whoever was woken. -/
def due (d : Desk) : List (Nat × Outcome) := d.answers ++ d.woken.map (·.2)

/-- A desk as an account of its own. -/
def account (d : Desk) : Account := ⟨d.completion.status, d.asked, d.due⟩

/-- Each wait is due one answer: the outcome of its submission, unless it is refused. -/
structure Upright (d : Desk) (rs : List (Request Unit)) : Prop where
  sane : d.completion.Sane
  sound : d.account.Sound rs
  asked : d.asked = (Request.waits rs).length
  waiting : ∀ id ws, d.completion.status id = .waiting ws →
    Request.outcome? rs id = none ∧ ∀ w ∈ ws, (Request.waits rs)[w]? = some id
  kept : ∀ id outcome, d.completion.status id = .kept outcome → Request.outcome? rs id = some outcome
  gone : ∀ id, d.completion.status id = .absent → .watch id ∈ rs → Request.outcome? rs id ≠ none
  woken : ∀ id w outcome, (id, w, outcome) ∈ d.woken →
    d.completion.Spent id ∧ (Request.waits rs)[w]? = some id ∧ Request.outcome? rs id = some outcome
  answered : ∀ w outcome, (w, outcome) ∈ d.answers → ∃ id, (Request.waits rs)[w]? = some id ∧
    (outcome = .error (unknownSubmission id) ∨
      Request.outcome? rs id = some outcome ∧ d.completion.status id = .absent)
  met : ∀ w < d.asked, w ∈ d.due.map (·.1) ∨ ∃ id ws, d.completion.status id = .waiting ws ∧ w ∈ ws

variable {d : Desk} {rs : List (Request Unit)} {r : Request Unit} {id : SubmissionId} {outcome : Outcome}

theorem Upright.watched (h : d.Upright rs) (hid : d.completion.status id ≠ .absent) : .watch id ∈ rs :=
  h.sound.watched id hid

/-! ## What one event does -/

theorem Upright.watch (h : d.Upright rs) (hid : .watch id ∉ rs) :
    (d.ask (.watch id)).Upright (rs ++ [.watch id]) := by
  have habsent : d.completion.status id = .absent := by_contra fun hne => hid (h.watched hne)
  have hnone := Request.outcome?_of_not_watched hid
  obtain ⟨hsane, hself, hother⟩ := watch_spec h.sane habsent
  have houtcome (x : SubmissionId) : Request.outcome? (rs ++ [.watch id]) x = Request.outcome? rs x :=
    Request.outcome?_other rfl
  have hwaits : Request.waits (rs ++ [.watch id]) = Request.waits rs := by
    rw [Request.waits_snoc]
    exact List.append_nil _
  have haccount : (d.ask (.watch id)).account = d.account.put id (.waiting []) := by
    refine congrArg (Account.mk · d.asked d.due) (funext fun x => ?_)
    by_cases hx : x = id
    · rw [hx]
      exact hself.trans (Account.put_self d.account id _).symm
    · exact (hother x hx).trans (Account.put_of_ne d.account _ hx).symm
  have hplatform := watch_platform d.completion id
  -- What has an outcome is another submission.
  have hsettled (x : SubmissionId) (o : Outcome) (hx : Request.outcome? rs x = some o) :
      (d.completion.watch id).status x = d.completion.status x := by
    refine hother x ?_
    rintro rfl
    rw [hnone] at hx
    cases hx
  exact
    { sane := hsane
      sound := haccount ▸ h.sound.watch id
      asked := h.asked.trans (congrArg _ hwaits.symm)
      waiting := fun x ws hx => by
        rw [houtcome, hwaits]
        by_cases hxid : x = id
        · subst hxid
          rw [Status.waiting.inj (hx.symm.trans hself)]
          exact ⟨hnone, nofun⟩
        · exact h.waiting x ws ((hother x hxid).symm.trans hx)
      kept := fun x o hx => by
        rw [houtcome]
        refine h.kept x o ((hother x ?_).symm.trans hx)
        rintro rfl
        exact absurd (hx.symm.trans hself) nofun
      gone := fun x hx hmem => by
        rw [houtcome]
        have hxid : x ≠ id := by
          rintro rfl
          exact absurd (hx.symm.trans hself) nofun
        refine h.gone x ((hother x hxid).symm.trans hx) ((List.mem_append.mp hmem).resolve_right fun hmem => ?_)
        exact hxid (Request.watch.inj (List.mem_singleton.mp hmem))
      woken := fun x w o hx => by
        rw [houtcome, hwaits]
        obtain ⟨hspent, hw, ho⟩ := h.woken x w o hx
        exact ⟨hspent.congr hplatform (hsettled x o ho), hw, ho⟩
      answered := fun w o hw => by
        obtain ⟨x, hx, ho⟩ := h.answered w o hw
        refine ⟨x, hwaits ▸ hx, ho.imp_right fun ⟨ho, hgone⟩ => ⟨(houtcome x).trans ho, ?_⟩⟩
        exact (hsettled x o ho).trans hgone
      met := fun w hw => (h.met w hw).imp_right fun ⟨x, ws, hx, hmem⟩ => by
        refine ⟨x, ws, (hother x ?_).trans hx, hmem⟩
        rintro rfl
        rw [habsent] at hx
        cases hx }

/-- A submission is given an end: those who wait for it are woken with it, or it had ended already. -/
structure Closes (d : Desk) (id : SubmissionId) (outcome : Outcome) (p : List (Nat × Outcome) × Completion Nat) :
    Prop where
  sane : p.2.Sane
  platform : p.2.platform = d.completion.platform
  other : ∀ x ≠ id, p.2.status x = d.completion.status x
  opened : ∀ ws, d.completion.status id = .waiting ws → p.1 = ws.map (·, outcome) ∧
    (p.2.status id = .absent ∨ p.2.status id = .kept outcome) ∧ (ws ≠ [] → p.2.Spent id)
  closed : ¬d.completion.Open id → p.1 = [] ∧
    (p.2.status id = d.completion.status id ∨ p.2.status id = .absent)

theorem due_wake (d : Desk) (id : SubmissionId) (p : List (Nat × Outcome) × Completion Nat) :
    (d.wake id p).due = d.due ++ p.1 := by
  simp [due, wake, List.append_assoc, Function.comp_def]

namespace Closes

variable {p : List (Nat × Outcome) × Completion Nat}

/-- What becomes of the submission, whether it was in flight or not. -/
theorem status (hp : d.Closes id outcome p) (h : d.Upright rs) (hr : r.Ends id outcome) :
    (p.2.status id = .absent ∨ ∃ o, p.2.status id = .kept o ∧ Request.outcome? (rs ++ [r]) id = some o) ∧
      (.watch id ∈ rs ∨ p.2.status id = .absent) := by
  by_cases ho : d.completion.Open id
  · obtain ⟨ws, hws⟩ := ho
    have hmem : .watch id ∈ rs := h.watched (by rw [hws]; exact nofun)
    exact ⟨(hp.opened ws hws).2.1.imp_right fun hkept =>
      ⟨outcome, hkept, hr.outcome?_first hmem (h.waiting id ws hws).1⟩, .inl hmem⟩
  · rcases (hp.closed ho).2 with hsame | hgone
    · cases hs : d.completion.status id with
      | absent => exact ⟨.inl (hsame.trans hs), .inr (hsame.trans hs)⟩
      | waiting ws => exact absurd ⟨ws, hs⟩ ho
      | kept o =>
        exact ⟨.inr ⟨o, hsame.trans hs, Request.outcome?_mono (h.kept id o hs) r⟩,
          .inl (h.watched (by rw [hs]; exact nofun))⟩
    · exact ⟨.inl hgone, .inr hgone⟩

theorem not_waiting (hp : d.Closes id outcome p) (h : d.Upright rs) (hr : r.Ends id outcome) (ws : List Nat) :
    p.2.status id ≠ .waiting ws := by
  rcases (hp.status h hr).1 with hs | ⟨o, hs, -⟩ <;> (rw [hs]; exact nofun)

/-- Whoever is woken has waited for the submission, and is told its outcome. -/
theorem woken (hp : d.Closes id outcome p) (h : d.Upright rs) (hr : r.Ends id outcome) {w : Nat} {o : Outcome}
    (hw : (w, o) ∈ p.1) :
    p.2.Spent id ∧ (Request.waits rs)[w]? = some id ∧ Request.outcome? (rs ++ [r]) id = some o := by
  by_cases ho : d.completion.Open id
  · obtain ⟨ws, hws⟩ := ho
    obtain ⟨hfst, -, hspent⟩ := hp.opened ws hws
    obtain ⟨hnone, hwaits⟩ := h.waiting id ws hws
    rw [hfst] at hw
    obtain ⟨w', hw', heq⟩ := List.mem_map.mp hw
    cases heq
    exact ⟨hspent (List.ne_nil_of_mem hw'), hwaits w hw',
      hr.outcome?_first (h.watched (by rw [hws]; exact nofun)) hnone⟩
  · rw [(hp.closed ho).1] at hw
    cases hw

theorem spent (hp : d.Closes id outcome p) {x : SubmissionId} (hx : d.completion.Spent x) : p.2.Spent x := by
  by_cases hxid : x = id
  · subst hxid
    rcases (hp.closed hx.1).2 with hs | hs
    · exact hx.congr hp.platform hs
    · exact spent_of_absent hp.sane hs
  · exact hx.congr hp.platform (hp.other x hxid)

theorem absent (hp : d.Closes id outcome p) {x : SubmissionId} (hx : d.completion.status x = .absent) :
    p.2.status x = .absent := by
  by_cases hxid : x = id
  · subst hxid
    rcases (hp.closed (not_open hx fun _ h => by cases h)).2 with hs | hs
    · exact hs.trans hx
    · exact hs
  · exact (hp.other x hxid).trans hx

theorem sound (hp : d.Closes id outcome p) (h : d.Upright rs) (hr : r.Ends id outcome) :
    (d.wake id p).account.Sound (rs ++ [r]) := by
  have hfun : p.2.status = Function.update d.completion.status id (p.2.status id) :=
    (Function.update_eq_iff.mpr ⟨rfl, fun x hx => (hp.other x hx).symm⟩).symm
  refine Account.Sound.snoc ?_ r
  by_cases ho : d.completion.Open id
  · obtain ⟨ws, hws⟩ := ho
    have hput := (h.sound.settle id outcome).put id (hp.not_waiting h hr) fun _ =>
        h.watched (by rw [hws]; exact nofun)
    have haccount : (d.wake id p).account = (d.account.settle id outcome).put id (p.2.status id) := by
      unfold account Account.settle
      rw [due_wake, (hp.opened ws hws).1]
      cases ws with
      | nil => simp [Account.put, wake, ← hfun, hws]
      | cons w ws => simp [Account.put, wake, ← hfun, hws]
    exact haccount ▸ hput
  · have hput := h.sound.put id (hp.not_waiting h hr) fun hne => (hp.status h hr).2.resolve_right hne
    have haccount : (d.wake id p).account = d.account.put id (p.2.status id) := by
      unfold account
      rw [due_wake, (hp.closed ho).1, List.append_nil]
      exact congrArg (Account.mk · d.asked d.due) hfun
    exact haccount ▸ hput

end Closes

theorem Upright.conclude (h : d.Upright rs) (hr : r.Ends id outcome) {p : List (Nat × Outcome) × Completion Nat}
    (hp : d.Closes id outcome p) : (d.wake id p).Upright (rs ++ [r]) where
  sane := hp.sane
  sound := hp.sound h hr
  asked := h.asked.trans (congrArg _ (hr.waits rs).symm)
  waiting x ws hx := by
    have hxid : x ≠ id := by
      rintro rfl
      exact hp.not_waiting h hr ws hx
    rw [hr.outcome?_of_ne hxid, hr.waits]
    exact h.waiting x ws ((hp.other x hxid).symm.trans hx)
  -- what the submission itself is given is its outcome from now on; others keep theirs
  kept x o hx := by
    by_cases hxid : x = id
    · subst hxid
      rcases (hp.status h hr).1 with hs | ⟨o', hs, ho'⟩
      · exact absurd (hx.symm.trans hs) nofun
      · rw [Status.kept.inj (hx.symm.trans hs)]
        exact ho'
    · rw [hr.outcome?_of_ne hxid]
      exact h.kept x o ((hp.other x hxid).symm.trans hx)
  gone x hx hmem := by
    by_cases hxid : x = id
    · subst hxid
      exact hr.outcome?_ne_none (hr.watched hmem)
    · rw [hr.outcome?_of_ne hxid]
      exact h.gone x ((hp.other x hxid).symm.trans hx) (hr.watched hmem)
  woken x w o hx := by
    rw [hr.waits]
    rcases List.mem_append.mp hx with hx | hx
    · obtain ⟨hspent, hw, ho⟩ := h.woken x w o hx
      exact ⟨hp.spent hspent, hw, Request.outcome?_mono ho r⟩
    · obtain ⟨y, hy, heq⟩ := List.mem_map.mp hx
      cases heq
      exact hp.woken h hr hy
  answered w o hw := by
    obtain ⟨x, hx, ho⟩ := h.answered w o hw
    exact ⟨x, (hr.waits rs).symm ▸ hx, ho.imp_right fun ⟨ho, hgone⟩ =>
      ⟨Request.outcome?_mono ho r, hp.absent hgone⟩⟩
  met w hw := by
    rw [due_wake, List.map_append, List.mem_append]
    rcases h.met w hw with hdue | ⟨x, ws, hx, hmem⟩
    · exact .inl (.inl hdue)
    · by_cases hxid : x = id
      · subst hxid
        rw [(hp.opened ws hx).1]
        exact .inl (.inr (by simpa using hmem))
      · exact .inr ⟨x, ws, (hp.other x hxid).trans hx, hmem⟩

theorem Upright.settle (h : d.Upright rs) (hr : r.Ends id outcome) :
    (d.wake id (d.completion.settle id outcome)).Upright (rs ++ [r]) := by
  refine h.conclude hr ⟨?_, settle_platform _ id outcome, fun x hx => settle_other h.sane id outcome hx,
    fun ws hws => ?_, fun hclosed => ?_⟩
  · by_cases hopen : d.completion.Open id
    · obtain ⟨ws, hws⟩ := hopen
      exact (settle_spec h.sane hws outcome).1
    · rw [settle_closed hopen]
      exact h.sane
  · obtain ⟨-, hfst, hstatus, -⟩ := settle_spec h.sane hws outcome
    exact ⟨hfst, hstatus.symm.imp_left And.left, fun hne => settle_spent h.sane hws hne outcome⟩
  · rw [settle_closed hclosed]
    exact ⟨rfl, .inl rfl⟩

theorem Upright.discard (h : d.Upright rs) (id : SubmissionId) :
    (d.wake id (d.completion.discard id)).Upright (rs ++ [.discard id]) := by
  obtain ⟨hsane, habsent, hother, -⟩ := discard_spec h.sane id
  have hplatform := discard_platform d.completion id
  have hends : (Request.discard id).Ends id (.error (discardedSubmission id)) :=
    ⟨if_pos rfl, fun x hx => if_neg (Ne.symm hx), rfl⟩
  refine h.conclude hends ⟨hsane, hplatform, hother,
    fun ws hws => ⟨?_, .inl habsent, fun _ => spent_of_absent hsane habsent⟩, fun hclosed => ⟨?_, .inr habsent⟩⟩
  · rw [discard_fst]
    exact (settle_spec h.sane hws _).2.1
  · rw [discard_fst, settle_closed hclosed]

/-- A wait is met: it is answered, or it is woken and goes on later. -/
structure Meets (d : Desk) (rs : List (Request Unit)) (id : SubmissionId) (outcome : Outcome) (reply : WaitReply)
    (c : Completion Nat) : Prop where
  sane : c.Sane
  platform : c.platform = d.completion.platform
  other : ∀ x ≠ id, c.status x = d.completion.status x
  closed : ¬d.completion.Open id
  status : c.status id = d.completion.status id ∨ c.status id = .absent
  reply : reply = .now outcome ∧ (outcome = .error (unknownSubmission id) ∨
      Request.outcome? rs id = some outcome ∧ c.status id = .absent) ∨
    reply = .later outcome ∧ c.Spent id ∧ Request.outcome? rs id = some outcome

theorem Upright.waits_next (h : d.Upright rs) (id : SubmissionId) :
    (Request.waits (rs ++ [.wait id ()]))[d.asked]? = some id := by
  rw [Request.waits_snoc, h.asked]
  exact List.getElem?_concat_length

theorem Upright.asked_next (h : d.Upright rs) (id : SubmissionId) :
    d.asked + 1 = (Request.waits (rs ++ [.wait id ()])).length := by
  rw [Request.waits_snoc, List.length_append, h.asked]
  rfl

theorem outcome?_wait (id x : SubmissionId) : Request.outcome? (rs ++ [.wait id ()]) x = Request.outcome? rs x :=
  Request.outcome?_other rfl

theorem watched_of_wait {x : SubmissionId} (hx : .watch x ∈ rs ++ [.wait id ()]) : .watch x ∈ rs :=
  (List.mem_append.mp hx).resolve_right fun hx => nomatch List.mem_singleton.mp hx

namespace Meets

variable {reply : WaitReply} {c : Completion Nat}

theorem back (hm : d.Meets rs id outcome reply c) {x : SubmissionId} {s : Status Nat} (hx : c.status x = s)
    (hs : s ≠ .absent) : d.completion.status x = s := by
  by_cases hxid : x = id
  · subst hxid
    exact hm.status.elim (fun hsame => hsame.symm.trans hx) fun hgone => absurd (hx.symm.trans hgone) hs
  · exact (hm.other x hxid).symm.trans hx

theorem absent (hm : d.Meets rs id outcome reply c) {x : SubmissionId} (hx : d.completion.status x = .absent) :
    c.status x = .absent := by
  by_cases hxid : x = id
  · subst hxid
    exact hm.status.elim (fun hsame => hsame.trans hx) fun hs => hs
  · exact (hm.other x hxid).trans hx

theorem spent (hm : d.Meets rs id outcome reply c) {x : SubmissionId} (hx : d.completion.Spent x) : c.Spent x := by
  by_cases hxid : x = id
  · subst hxid
    exact hm.status.elim (hx.congr hm.platform) (spent_of_absent hm.sane)
  · exact hx.congr hm.platform (hm.other x hxid)

theorem fields (hm : d.Meets rs id outcome reply c) :
    (d.attend id (reply, c)).completion = c ∧ (d.attend id (reply, c)).asked = d.asked + 1 := by
  rcases hm.reply with ⟨rfl, -⟩ | ⟨rfl, -⟩ <;> exact ⟨rfl, rfl⟩

theorem due (hm : d.Meets rs id outcome reply c) :
    (d.attend id (reply, c)).due.Perm (d.due ++ [(d.asked, outcome)]) := by
  rcases hm.reply with ⟨rfl, -⟩ | ⟨rfl, -⟩
  · simp only [Desk.due, attend, List.append_assoc]
    exact List.perm_append_comm.append_left _
  · simp [Desk.due, attend]

theorem sound (hm : d.Meets rs id outcome reply c) (h : d.Upright rs) :
    (d.attend id (reply, c)).account.Sound (rs ++ [.wait id ()]) := by
  have hnot (ws : List Nat) : c.status id ≠ .waiting ws := fun hws => hm.closed ⟨ws, hm.back hws nofun⟩
  have hput := ((h.sound.put id hnot fun hne => h.watched (hm.back rfl hne ▸ hne)).answer outcome).perm hm.due
  refine Account.Sound.snoc ?_ _
  have hfun : Function.update d.completion.status id (c.status id) = c.status :=
    Function.update_eq_iff.mpr ⟨rfl, fun x hx => (hm.other x hx).symm⟩
  unfold account at hput ⊢
  rw [hm.fields.1, hm.fields.2, ← hfun]
  exact hput

/-- Whoever was woken before is not concerned; the wait itself is woken after its submission is spent. -/
theorem woken (hm : d.Meets rs id outcome reply c) (h : d.Upright rs) {x : SubmissionId} {w : Nat} {o : Outcome}
    (hx : (x, w, o) ∈ (d.attend id (reply, c)).woken) :
    c.Spent x ∧ (Request.waits (rs ++ [.wait id ()]))[w]? = some x ∧ Request.outcome? rs x = some o := by
  have hold (hx : (x, w, o) ∈ d.woken) :
      c.Spent x ∧ (Request.waits (rs ++ [.wait id ()]))[w]? = some x ∧ Request.outcome? rs x = some o := by
    obtain ⟨hspent, hw, ho⟩ := h.woken x w o hx
    exact ⟨hm.spent hspent, Request.waits_mono hw _, ho⟩
  rcases hm.reply with ⟨rfl, -⟩ | ⟨rfl, hspent, ho⟩
  · exact hold hx
  · rcases List.mem_append.mp hx with hx | hx
    · exact hold hx
    · cases List.mem_singleton.mp hx
      exact ⟨hspent, h.waits_next id, ho⟩

theorem answered (hm : d.Meets rs id outcome reply c) (h : d.Upright rs) {w : Nat} {o : Outcome}
    (hw : (w, o) ∈ (d.attend id (reply, c)).answers) : ∃ x, (Request.waits (rs ++ [.wait id ()]))[w]? = some x ∧
      (o = .error (unknownSubmission x) ∨ Request.outcome? rs x = some o ∧ c.status x = .absent) := by
  have hold (hw : (w, o) ∈ d.answers) : ∃ x, (Request.waits (rs ++ [.wait id ()]))[w]? = some x ∧
      (o = .error (unknownSubmission x) ∨ Request.outcome? rs x = some o ∧ c.status x = .absent) := by
    obtain ⟨x, hx, ho⟩ := h.answered w o hw
    exact ⟨x, Request.waits_mono hx _, ho.imp_right fun ⟨ho, hs⟩ => ⟨ho, hm.absent hs⟩⟩
  rcases hm.reply with ⟨rfl, ho⟩ | ⟨rfl, -⟩
  · rcases List.mem_append.mp hw with hw | hw
    · exact hold hw
    · cases List.mem_singleton.mp hw
      exact ⟨id, h.waits_next id, ho⟩
  · exact hold hw

end Meets

theorem Upright.meet (h : d.Upright rs) {reply : WaitReply} {c : Completion Nat}
    (hm : d.Meets rs id outcome reply c) : (d.attend id (reply, c)).Upright (rs ++ [.wait id ()]) where
  sane := by
    rw [hm.fields.1]
    exact hm.sane
  sound := hm.sound h
  asked := hm.fields.2.trans (h.asked_next id)
  waiting x ws hx := by
    obtain ⟨hnone, hmem⟩ := h.waiting x ws (hm.back (hm.fields.1 ▸ hx) nofun)
    exact ⟨(outcome?_wait id x).trans hnone, fun w hw => Request.waits_mono (hmem w hw) _⟩
  kept x o hx := (outcome?_wait id x).trans (h.kept x o (hm.back (hm.fields.1 ▸ hx) nofun))
  gone x hx hmem := by
    rw [hm.fields.1] at hx
    rw [outcome?_wait]
    cases hs : d.completion.status x with
    | absent => exact h.gone x hs (watched_of_wait hmem)
    | waiting ws =>
      -- Only the submission itself can have gone, and that was not in flight.
      have hxid : x = id := by_contra fun hxid => nomatch hs.symm.trans ((hm.other x hxid).symm.trans hx)
      exact absurd ⟨ws, hxid ▸ hs⟩ hm.closed
    | kept o =>
      rw [h.kept x o hs]
      exact nofun
  woken x w o hx := by
    rw [hm.fields.1, outcome?_wait]
    exact hm.woken h hx
  answered w o hw := by
    rw [hm.fields.1]
    simp only [outcome?_wait]
    exact hm.answered h hw
  met w hw := by
    rw [hm.fields.1, (hm.due.map (·.1)).mem_iff, List.map_append, List.mem_append]
    rcases Nat.lt_succ_iff_lt_or_eq.mp (hm.fields.2 ▸ hw) with hw | rfl
    · refine (h.met w hw).imp .inl fun ⟨x, ws, hx, hmem⟩ => ⟨x, ws, (hm.other x ?_).trans hx, hmem⟩
      rintro rfl
      exact hm.closed ⟨ws, hx⟩
    · exact .inl (.inr (List.mem_singleton_self _))

theorem Upright.join {ws : List Nat} (h : d.Upright rs) (hid : d.completion.status id = .waiting ws) :
    (d.ask (.wait id ())).Upright (rs ++ [.wait id ()]) := by
  have hplatform := wait_platform d.completion id d.asked
  obtain ⟨hsane, hreply, hself, hother⟩ := wait_waiting h.sane hid d.asked
  -- Whatever else is known of a submission is known of another one.
  have hne (x : SubmissionId) {s : Status Nat} (hx : (d.completion.wait id d.asked).2.status x = s)
      (hs : s ≠ .waiting (ws ++ [d.asked])) : x ≠ id := by
    rintro rfl
    exact hs (hx.symm.trans hself)
  have hsettled (x : SubmissionId) (o : Outcome) (hx : Request.outcome? rs x = some o) : x ≠ id := by
    rintro rfl
    rw [(h.waiting x ws hid).1] at hx
    cases hx
  show (d.attend id ((d.completion.wait id d.asked).1, (d.completion.wait id d.asked).2)).Upright _
  rw [hreply]
  have haccount : (d.attend id (.suspended, (d.completion.wait id d.asked).2)).account =
      { d.account.put id (.waiting (ws ++ [d.asked])) with asked := d.account.asked + 1 } := by
    refine congrArg (Account.mk · (d.asked + 1) d.due) (funext fun x => ?_)
    by_cases hx : x = id
    · rw [hx]
      exact hself.trans (Account.put_self d.account id _).symm
    · exact (hother x hx).trans (Account.put_of_ne d.account _ hx).symm
  refine
    { sane := hsane
      sound := haccount ▸ h.sound.join hid
      asked := h.asked_next id
      waiting := fun x ws' hx => ?_
      kept := fun x o hx => (outcome?_wait id x).trans (h.kept x o ((hother x (hne x hx nofun)).symm.trans hx))
      gone := fun x hx hmem => ?_
      woken := fun x w o hx => ?_
      answered := fun w o hw => ?_
      met := fun w hw => ?_ }
  · rw [outcome?_wait]
    by_cases hxid : x = id
    · subst hxid
      cases hx.symm.trans hself
      obtain ⟨hnone, hmem⟩ := h.waiting x ws hid
      refine ⟨hnone, fun w hw => ?_⟩
      rcases List.mem_append.mp hw with hw | hw
      · exact Request.waits_mono (hmem w hw) _
      · cases List.mem_singleton.mp hw
        exact h.waits_next x
    · obtain ⟨hnone, hmem⟩ := h.waiting x ws' ((hother x hxid).symm.trans hx)
      exact ⟨hnone, fun w hw => Request.waits_mono (hmem w hw) _⟩
  · rw [outcome?_wait]
    exact h.gone x ((hother x (hne x hx nofun)).symm.trans hx) (watched_of_wait hmem)
  · obtain ⟨hspent, hw, ho⟩ := h.woken x w o hx
    exact ⟨hspent.congr hplatform (hother x (hsettled x o ho)), Request.waits_mono hw _,
      (outcome?_wait id x).trans ho⟩
  · obtain ⟨x, hx, ho⟩ := h.answered w o hw
    exact ⟨x, Request.waits_mono hx _, ho.imp_right fun ⟨ho, hgone⟩ =>
      ⟨(outcome?_wait id x).trans ho, (hother x (hsettled x o ho)).trans hgone⟩⟩
  · rcases Nat.lt_succ_iff_lt_or_eq.mp hw with hw | rfl
    · refine (h.met w hw).imp_right fun ⟨x, ws', hx, hmem⟩ => ?_
      by_cases hxid : x = id
      · subst hxid
        cases hx.symm.trans hid
        exact ⟨x, _, hself, List.mem_append_left _ hmem⟩
      · exact ⟨x, ws', (hother x hxid).trans hx, hmem⟩
    · exact .inr ⟨id, _, hself, List.mem_append_right _ (List.mem_singleton_self _)⟩

theorem Upright.wait (h : d.Upright rs) (id : SubmissionId) :
    (d.ask (.wait id ())).Upright (rs ++ [.wait id ()]) := by
  cases hid : d.completion.status id with
  | absent =>
    show (d.attend id (d.completion.wait id d.asked)).Upright _
    rw [wait_absent hid]
    exact h.meet ⟨h.sane, rfl, fun _ _ => rfl, not_open hid nofun, .inl rfl, .inl ⟨rfl, .inl rfl⟩⟩
  | waiting ws => exact h.join hid
  | kept outcome =>
    have hplatform := wait_platform d.completion id d.asked
    obtain ⟨hsane, hreply, hother⟩ := wait_kept h.sane hid d.asked
    have ho := h.kept id outcome hid
    have hclosed := not_open hid (s := .kept outcome) nofun
    rcases wait_spent h.sane hid d.asked with ⟨hnow, habsent⟩ | ⟨hlater, hspent⟩
    · exact h.meet ⟨hsane, hplatform, hother, hclosed, .inr habsent, .inl ⟨hnow, .inr ⟨ho, habsent⟩⟩⟩
    · refine h.meet ⟨hsane, hplatform, hother, hclosed, ?_, .inr ⟨hlater, hspent, ho⟩⟩
      exact hreply.elim (fun hnow => .inr hnow.2) fun hkept => .inl (hkept.2.trans hid.symm)

theorem Upright.resume (h : d.Upright rs) (n : Nat) : (d.resume n).Upright rs := by
  unfold Desk.resume
  split
  · rename_i id w outcome hget
    obtain ⟨hlt, hget⟩ := List.getElem?_eq_some_iff.mp hget
    have hperm : ((id, w, outcome) :: d.woken.eraseIdx n).Perm d.woken := hget ▸ List.getElem_cons_eraseIdx_perm hlt
    obtain ⟨hspent, hw, ho⟩ := h.woken id w outcome (hperm.mem_iff.mp (List.mem_cons_self ..))
    obtain ⟨hsane, -, hother⟩ := collect_spec h.sane id
    have hplatform := collect_platform d.completion id
    have habsent := hspent.2
    have hback (x : SubmissionId) {s : Status Nat} (hx : (d.completion.collect id).status x = s)
        (hs : s ≠ .absent) :
        d.completion.status x = s := by
      refine (hother x ?_).symm.trans hx
      rintro rfl
      exact hs (hx.symm.trans habsent)
    have hdue : (d.answers ++ [(w, outcome)] ++ (d.woken.eraseIdx n).map (·.2)).Perm d.due := by
      rw [List.append_assoc]
      exact (hperm.map (·.2)).append_left d.answers
    have hsound : Account.Sound rs ⟨(d.completion.collect id).status, d.asked,
        d.answers ++ [(w, outcome)] ++ (d.woken.eraseIdx n).map (·.2)⟩ := by
      have hput := (h.sound.strike id).perm hdue
      -- the submission was spent before, so that striking it changes no status
      have hfun : Function.update d.completion.status id .absent = (d.completion.collect id).status :=
        Function.update_eq_iff.mpr ⟨habsent.symm, fun x hx => (hother x hx).symm⟩
      rw [← hfun]
      exact hput
    refine
      { sane := hsane
        sound := hsound
        asked := h.asked
        waiting := fun x ws hx => h.waiting x ws (hback x hx nofun)
        kept := fun x o hx => h.kept x o (hback x hx nofun)
        gone := fun x hx hmem => ?_
        woken := fun x w' o hx => ?_
        answered := fun w' o hw' => ?_
        met := fun w' hw' => ?_ }
    · by_cases hxid : x = id
      · rw [hxid, ho]
        exact nofun
      · exact h.gone x ((hother x hxid).symm.trans hx) hmem
    · obtain ⟨hspent', hw', ho'⟩ := h.woken x w' o (hperm.mem_iff.mp (List.mem_cons_of_mem _ hx))
      refine ⟨?_, hw', ho'⟩
      by_cases hxid : x = id
      · rw [hxid]
        exact spent_of_absent hsane habsent
      · exact hspent'.congr hplatform (hother x hxid)
    · rcases List.mem_append.mp hw' with hw' | hw'
      · obtain ⟨x, hx, ho'⟩ := h.answered w' o hw'
        refine ⟨x, hx, ho'.imp_right fun ⟨ho', hgone⟩ => ⟨ho', ?_⟩⟩
        by_cases hxid : x = id
        · exact hxid ▸ habsent
        · exact (hother x hxid).trans hgone
      · cases List.mem_singleton.mp hw'
        exact ⟨id, hw, .inr ⟨ho, habsent⟩⟩
    · refine (h.met w' hw').imp (fun hmem => ((hdue.map (·.1)).mem_iff).mpr hmem) fun ⟨x, ws, hx, hmem⟩ => ?_
      refine ⟨x, ws, (hother x ?_).trans hx, hmem⟩
      rintro rfl
      exact hspent.1 ⟨ws, hx⟩
  · exact h

/-! ## Runs -/

theorem Upright.ask (h : d.Upright rs) (r : Request Unit) (hr : ∀ id, r = .watch id → .watch id ∉ rs) :
    (d.ask r).Upright (rs ++ [r]) := by
  cases r with
  | watch id => exact h.watch (hr id rfl)
  | settle id outcome => exact h.settle ⟨if_pos rfl, fun x hx => if_neg (Ne.symm hx), rfl⟩
  | wait id w => exact h.wait id
  | abandon id failure => exact h.settle ⟨if_pos rfl, fun x hx => if_neg (Ne.symm hx), rfl⟩
  | discard id => exact h.discard id

theorem upright_start (p : Platform) : (start p).Upright [] := by
  have habsent (id : SubmissionId) {s : Status Nat} (hid : (start p).completion.status id = s) : s = .absent :=
    hid.symm.trans (status_ofPlatform p id)
  refine
    { sane := sane_ofPlatform p
      sound := ?_
      asked := rfl
      waiting := fun id ws hid => nomatch habsent id hid
      kept := fun id o hid => nomatch habsent id hid
      gone := fun id _ hmem => absurd hmem List.not_mem_nil
      woken := fun _ _ _ hmem => absurd hmem List.not_mem_nil
      answered := fun _ _ hmem => absurd hmem List.not_mem_nil
      met := fun w hw => absurd hw (Nat.not_lt_zero w) }
  have hstatus : (ofPlatform p : Completion Nat).status = fun _ => .absent := funext (status_ofPlatform p)
  show Account.Sound [] ⟨(ofPlatform p).status, 0, []⟩
  rw [hstatus]
  exact Account.sound_of []

/-- Every desk is upright, as long as no submission is watched twice. -/
theorem upright_run (p : Platform) (events : List Event)
    (hw : ((Event.requests events).filterMap Request.watched?).Nodup) :
    ((start p).run events).Upright (Event.requests events) := by
  induction events using List.reverseRecOn with
  | nil => exact upright_start p
  | append_singleton events e ih =>
    rw [requests_snoc] at hw ⊢
    rw [run_snoc]
    cases e with
    | ask r =>
      have hsnoc : Event.requests [.ask r] = [r] := rfl
      rw [hsnoc, List.filterMap_append] at hw
      refine (ih hw.of_append_left).ask r fun id hr hmem => ?_
      subst hr
      exact List.disjoint_of_nodup_append hw (List.mem_filterMap.mpr ⟨_, hmem, rfl⟩) (List.mem_singleton_self id)
    | resume n =>
      have hnone : Event.requests [.resume n] = [] := rfl
      rw [hnone, List.append_nil] at hw ⊢
      exact (ih hw).resume n

/-- What one event adds to the answers: those of waits that were woken, and that of a wait which is made. -/
theorem answers_step (d : Desk) (e : Event) {w : Nat} (h : (w, outcome) ∈ (d.step e).answers) :
    (w, outcome) ∈ d.answers ∨ (∃ id, (id, w, outcome) ∈ d.woken) ∨ w = d.asked := by
  cases e with
  | ask r =>
    cases r with
    | wait id u =>
      unfold step ask attend at h
      dsimp only at h
      split at h
      · rcases List.mem_append.mp h with h | h
        · exact .inl h
        · exact .inr (.inr (congrArg Prod.fst (List.mem_singleton.mp h)))
      · exact .inl h
      · exact .inl h
    | _ => exact .inl h
  | resume n =>
    unfold step resume at h
    dsimp only at h
    split at h
    · rename_i id w' o hget
      rcases List.mem_append.mp h with h | h
      · exact .inl h
      · cases List.mem_singleton.mp h
        exact .inr (.inl ⟨id, List.mem_of_getElem? hget⟩)
    · exact .inl h

theorem answers_mono (d : Desk) (events : List Event) {x : Nat × Outcome} (h : x ∈ d.answers) :
    x ∈ (d.run events).answers := by
  induction events generalizing d with
  | nil => exact h
  | cons e events ih =>
    refine ih (d.step e) ?_
    cases e with
    | ask r =>
      cases r with
      | wait id u =>
        unfold step ask attend
        dsimp only
        split
        · exact List.mem_append_left _ h
        · exact h
        · exact h
      | _ => exact h
    | resume n =>
      unfold step resume
      dsimp only
      split
      · exact List.mem_append_left _ h
      · exact h

theorem asked_step (d : Desk) (e : Event) : d.asked ≤ (d.step e).asked := by
  cases e with
  | ask r =>
    cases r with
    | wait id u =>
      unfold step ask attend
      dsimp only
      split <;> exact Nat.le_succ _
    | _ => exact Nat.le_refl _
  | resume n =>
    unfold step resume
    dsimp only
    split <;> exact Nat.le_refl _

/-- Once a wait has been answered with the outcome of a submission, a new wait for it is refused. -/
theorem Upright.refuses (h : d.Upright rs) {m : Nat} (hm : (Request.waits rs)[m]? = some id)
    (hanswer : (m, outcome) ∈ d.answers) (hne : outcome ≠ .error (unknownSubmission id)) :
    (d.ask (.wait id ())).answers = d.answers ++ [(d.asked, .error (unknownSubmission id))] := by
  obtain ⟨x, hx, ho⟩ := h.answered m outcome hanswer
  cases hm.symm.trans hx
  have habsent := (ho.resolve_left hne).2
  show (d.attend id (d.completion.wait id d.asked)).answers = _
  rw [wait_absent habsent]
  rfl

theorem nodup_watched {events events' : List Event}
    (hw : ((Event.requests (events ++ events')).filterMap Request.watched?).Nodup) :
    ((Event.requests events).filterMap Request.watched?).Nodup := by
  have hsplit : Event.requests (events ++ events') = Event.requests events ++ Event.requests events' :=
    List.filterMap_append
  rw [hsplit, List.filterMap_append] at hw
  exact hw.of_append_left

/-- A wait that was made is answered with nothing new but the outcome of its submission. -/
theorem answers_keep {w : Nat} {events events' : List Event}
    (hw : ((Event.requests (events ++ events')).filterMap Request.watched?).Nodup) (p : Platform)
    (hlt : w < ((start p).run events).asked) (hid : (Request.waits (Event.requests events))[w]? = some id)
    (hbase : ∀ o, (w, o) ∈ ((start p).run events).answers → Request.outcome? (Event.requests events) id = some o) :
    ∀ o, (w, o) ∈ ((start p).run (events ++ events')).answers →
      Request.outcome? (Event.requests (events ++ events')) id = some o := by
  induction events' generalizing events with
  | nil =>
    rw [List.append_nil]
    exact hbase
  | cons e events' ih =>
    rw [List.append_cons] at hw ⊢
    have hbefore := upright_run p events (nodup_watched (nodup_watched hw))
    have hrequests : Event.requests (events ++ [e]) = Event.requests events ∨
        ∃ r, Event.requests (events ++ [e]) = Event.requests events ++ [r] := by
      rw [requests_snoc]
      cases e with
      | ask r => exact .inr ⟨r, rfl⟩
      | resume n => exact .inl (List.append_nil _)
    have hmono (o : Outcome) (ho : Request.outcome? (Event.requests events) id = some o) :
        Request.outcome? (Event.requests (events ++ [e])) id = some o := by
      rcases hrequests with heq | ⟨r, heq⟩
      · rw [heq, ho]
      · rw [heq, Request.outcome?_mono ho]
    refine ih hw ?_ ?_ fun o ho => ?_
    · rw [run_snoc]
      exact Nat.lt_of_lt_of_le hlt (asked_step _ e)
    · rcases hrequests with heq | ⟨r, heq⟩
      · rw [heq, hid]
      · rw [heq, Request.waits_mono hid]
    · rw [run_snoc] at ho
      rcases answers_step _ e ho with ho | ⟨x, hx⟩ | rfl
      · exact hmono o (hbase o ho)
      · obtain ⟨-, hx, ho⟩ := hbefore.woken x w o hx
        cases hid.symm.trans hx
        exact hmono o ho
      · exact absurd hlt (Nat.lt_irrefl _)

theorem Upright.joins (h : d.Upright rs) (hwatch : .watch id ∈ rs) (hnone : Request.outcome? rs id = none) :
    (d.ask (.wait id ())).answers = d.answers := by
  cases hid : d.completion.status id with
  | absent => exact absurd hnone (h.gone id hid hwatch)
  | kept o => exact nomatch hnone.symm.trans (h.kept id o hid)
  | waiting ws =>
    obtain ⟨-, hreply, -⟩ := wait_waiting h.sane hid d.asked
    show (d.attend id ((d.completion.wait id d.asked).1, (d.completion.wait id d.asked).2)).answers = _
    rw [hreply]
    rfl

theorem delivered_in_flight (p : Platform) {before after : List Event}
    (hw : ((Event.requests (before ++ [.ask (.wait id ())] ++ after)).filterMap Request.watched?).Nodup)
    (hwatch : .watch id ∈ Event.requests before) (hnone : Request.outcome? (Event.requests before) id = none) :
    ∀ o, (((start p).run before).asked, o) ∈ ((start p).run (before ++ [.ask (.wait id ())] ++ after)).answers →
      Request.outcome? (Event.requests (before ++ [.ask (.wait id ())] ++ after)) id = some o := by
  have h := upright_run p before (nodup_watched (nodup_watched hw))
  refine answers_keep hw p ?_ ?_ fun o ho => ?_
  · rw [run_snoc]
    show _ < (((start p).run before).attend id _).asked
    unfold attend
    split <;> exact Nat.lt_succ_self _
  · rw [requests_snoc]
    show (Request.waits (Event.requests before ++ [.wait id ()]))[_]? = some id
    rw [Request.waits_snoc, h.asked]
    exact List.getElem?_concat_length
  · rw [run_snoc] at ho
    -- It is new, so nobody was answered under its number.
    have hmem : (((start p).run before).asked, o) ∈ ((start p).run before).answers := h.joins hwatch hnone ▸ ho
    have hlt := h.sound.below _ (List.mem_map.mpr ⟨_, List.mem_append_left _ hmem, rfl⟩)
    exact absurd hlt (Nat.lt_irrefl _)

/-! ## Which waits are refused -/

/-- Whatever is asked of a delivery, each submission being watched once at most: a wait has one answer at most,
which is the outcome of its submission or that there is no such submission, and when all who were woken have gone
on, a wait without an answer is for a submission in flight. Once a wait has been answered with the outcome, every
later wait is refused at once; no wait is refused that was made while the submission was in flight. -/
theorem refused_once_delivered (p : Platform) (events : List Event)
    (hw : ((Event.requests events).filterMap Request.watched?).Nodup) :
    let rs := Event.requests events
    let d := (start p).run events
    (d.answers.map (·.1)).Nodup ∧
    (∀ n outcome, (n, outcome) ∈ d.answers → ∃ id, (Request.waits rs)[n]? = some id ∧
      (outcome = .error (unknownSubmission id) ∨ Request.outcome? rs id = some outcome)) ∧
    (d.woken = [] → ∀ n id, (Request.waits rs)[n]? = some id →
      (∃ outcome, (n, outcome) ∈ d.answers) ∨ .watch id ∈ rs ∧ Request.outcome? rs id = none) ∧
    ∀ before after id, events = before ++ .ask (.wait id ()) :: after →
      let earlier := (start p).run before
      ((∃ m outcome, (Request.waits (Event.requests before))[m]? = some id ∧ (m, outcome) ∈ earlier.answers ∧
          outcome ≠ .error (unknownSubmission id)) →
        (earlier.asked, .error (unknownSubmission id)) ∈ d.answers) ∧
      (.watch id ∈ Event.requests before → Request.outcome? (Event.requests before) id = none →
        ∀ outcome, (earlier.asked, outcome) ∈ d.answers → Request.outcome? rs id = some outcome) := by
  intro rs d
  have h := upright_run p events hw
  have honce := h.sound.once
  refine ⟨?_, fun n o hn => ?_, fun hwoken n id hn => ?_, fun before after id heq => ?_⟩
  · have hdue : d.account.answers.map (·.1) = d.answers.map (·.1) ++ (d.woken.map (·.2)).map (·.1) :=
      List.map_append
    rw [hdue] at honce
    exact honce.of_append_left
  · obtain ⟨id, hid, ho⟩ := h.answered n o hn
    exact ⟨id, hid, ho.imp_right And.left⟩
  · have hlt : n < d.asked := h.asked ▸ (List.getElem?_eq_some_iff.mp hn).1
    rcases h.met n hlt with hmem | ⟨x, ws, hx, hmem⟩
    · have hdue : d.due = d.answers := by simp [due, hwoken]
      rw [hdue, List.mem_map] at hmem
      obtain ⟨⟨m, o⟩, hmem, rfl⟩ := hmem
      exact .inl ⟨o, hmem⟩
    · obtain ⟨hnone, hall⟩ := h.waiting x ws hx
      cases hn.symm.trans (hall n hmem)
      exact .inr ⟨h.watched (by rw [hx]; exact nofun), hnone⟩
  · have hearlier := upright_run p before (nodup_watched (heq ▸ hw))
    have hrun : d = (((start p).run before).ask (.wait id ())).run after := by
      show (start p).run events = _
      rw [heq, run_append]
      rfl
    refine ⟨fun ⟨m, o, hm, hanswer, hne⟩ => ?_, fun hwatch hnone o ho => ?_⟩
    · rw [hrun]
      refine answers_mono _ after ?_
      rw [hearlier.refuses hm hanswer hne]
      exact List.mem_append_right _ (List.mem_singleton_self _)
    · have hlist : events = before ++ [.ask (.wait id ())] ++ after := heq.trans (List.append_cons ..)
      have hkeep := delivered_in_flight p (hlist ▸ hw) hwatch hnone o
      rw [← hlist] at hkeep
      exact hkeep ho

/-- A wait that is answered with the outcome, and one that comes too late. -/
theorem refused_once_delivered_late :
    let one : SubmissionId := .number 1
    let events : List Event := [.ask (.watch one), .ask (.wait one ()), .ask (.settle one (.ok ())), .resume 0,
      .ask (.wait one ())]
    let rs := Event.requests events
    let d := (start .browser).run events
    (rs.filterMap Request.watched?).Nodup ∧ d.answers = [(0, .ok ()), (1, .error (unknownSubmission one))] ∧
      (1, .error (unknownSubmission one)) ∈ d.answers := by
  intro one events rs d
  refine ⟨by decide, by decide, ?_⟩
  have hlate := (refused_once_delivered .browser events (by decide)).2.2.2
  refine (hlate [.ask (.watch one), .ask (.wait one ()), .ask (.settle one (.ok ())), .resume 0] [] one rfl).1
    ⟨0, .ok (), by decide, by decide, nofun⟩

/-- Two waits that are made before a submission settles are both answered with its outcome, on either platform. -/
theorem outcome_delivered_twice :
    let one : SubmissionId := .number 1
    let events : List Event :=
      [.ask (.watch one), .ask (.wait one ()), .ask (.wait one ()), .ask (.settle one (.ok ())),
      .resume 0, .resume 0]
    ((Event.requests events).filterMap Request.watched?).Nodup ∧
      ((start .native).run events).answers = [(0, .ok ()), (1, .ok ())] ∧
      ((start .browser).run events).answers = [(0, .ok ()), (1, .ok ())] := by
  decide

end Desk

end Strata.Completion
