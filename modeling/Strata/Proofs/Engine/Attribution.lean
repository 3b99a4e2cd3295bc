import Strata.Proofs.Engine.Captures

/-!
# Who is told of an error

Over a run, error scopes are balanced, and what they capture is told of the submission that opened them and of no
other (`scopes_attributed`).
-/

namespace Strata.Engine

variable {ν α : Type} [Measure ν] {e e' start : Engine ν α} {B : Books ν α} {t : SubmissionId} {s : Encoded ν}

omit [Measure ν] in
theorem pending_iff_lookup : e.Pending t ↔ e.session.pending.lookup t ≠ none := by
  unfold Pending
  rw [ne_eq, List.lookup_eq_none_iff, List.mem_map, not_forall]
  simp only [not_forall, bne_iff_ne, ne_eq, not_not, exists_prop]
  exact exists_congr fun x => and_congr_right fun _ => eq_comm

theorem Life.carried_unique {hand : List (Turn ν α)} (h : e.Life B hand) {x y : Turn ν α} (hx : x ∈ e.due hand)
    (hy : y ∈ e.due hand) (hxt : x.carried? = some t) (hyt : y.carried? = some t) : x = y := by
  by_contra hne
  have hnodup : ((e.due hand).filterMap Turn.carried?).Nodup := (List.nodup_append.mp h.once).1
  have happart := List.pairwise_filterMap.mp hnodup
  have hsymm : Std.Symm fun x y : Turn ν α => ∀ a, x.carried? = some a → ∀ b, y.carried? = some b → a ≠ b :=
    ⟨fun x y hxy a ha b hb => (hxy b hb a ha).symm⟩
  exact happart.forall hx hy hne t hxt t hyt rfl

variable [Channel α] [Stored α] [Transfer α] {m : Move ν α} {plan : PlanId} {moves : List (Move ν α)}
  {worked : Outcome → Prop} {handles : List Handle}

/-- Once a plan is submitted, nothing tells of it but what was encoded. -/
theorem Encodes.attests (h : e.Encodes m plan s) (hlife : (e.move m).Life B []) :
    (e.move m).Attests s (fun _ => False) := by
  obtain ⟨delay, hgoes⟩ := h.goes
  have hdue : .scopesClosed s ∈ (e.move m).due [] := List.mem_map_of_mem hgoes
  refine ⟨fun x hx => ?_, fun s' hs' ht => ?_⟩
  · by_cases hcarried : x.2.carried? = some s.token
    · rw [hlife.carried_unique (List.mem_map_of_mem hx) hdue hcarried rfl]
      exact fun _ => rfl
    · exact Encoded.tells_of_carried hcarried
  · have hcarries : s.token ∈ ((e.move m).due []).filterMap Turn.carried? := List.mem_filterMap.mpr ⟨_, hdue, rfl⟩
    exact absurd rfl ((List.nodup_append.mp hlife.once).2.2 _ hcarries _ (ht ▸ List.mem_map_of_mem hs'))

/-! ## Along a run -/

theorem run_scopes (h : start.Able scopeCalls) (hm : ∀ m ∈ moves, m.LeavesScopes) :
    (start.run moves).Able scopeCalls ∧ (start.run moves).pool.device.scopes = start.pool.device.scopes := by
  induction moves generalizing start with
  | nil => exact ⟨h, rfl⟩
  | cons m moves ih =>
    obtain ⟨hable, hsame⟩ := move_scopes h (hm m (List.mem_cons_self ..))
    obtain ⟨hable', hsame'⟩ := ih hable fun m' hm' => hm m' (List.mem_cons_of_mem _ hm')
    exact ⟨hable', hsame'.trans hsame⟩

theorem run_ready (hs : start.Sorted) (h : (start.run moves).session.phase = .ready) :
    start.session.phase = .ready := by
  induction moves generalizing start with
  | nil => exact h
  | cons m moves ih =>
    obtain ⟨turns, -, hdeeds⟩ := move_deeds (R := fun _ => True) hs m (fun _ => trivial) (fun _ _ _ _ => trivial)
      fun _ _ _ => trivial
    exact hdeeds.ready (ih (hdeeds.sorted (e := { start with turns }) hs) h)

theorem move_settled (h : e.Life B []) (hm : m.LeavesDelivery) (ht : e.Settled t) : (e.move m).Settled t := by
  obtain ⟨B', hadds, h'⟩ := move_life h hm
  exact (h'.closed t).mp (hadds.books.closed t ((h.closed t).mpr ht))

theorem run_sustains (h : start.Life B []) (hm : ∀ m ∈ moves, m.LeavesDelivery) (hissued : start.Issued t)
    (ht : start.Sustains t ∨ start.Settled t) : (start.run moves).Sustains t ∨ (start.run moves).Settled t := by
  induction moves generalizing start B with
  | nil => exact ht
  | cons m moves ih =>
    have hdelivers := hm m (List.mem_cons_self ..)
    obtain ⟨B', -, h'⟩ := move_life h hdelivers
    have hissued' : (start.move m).Issued t := (run_ages h.able.sorted [m]).1.issued t hissued
    refine ih h' (fun m' hm' => hm m' (List.mem_cons_of_mem _ hm')) hissued' ?_
    rcases ht with ht | ht
    · exact (move_sustains h m ht).imp_right fun hclosed => ⟨hissued', hclosed⟩
    · exact .inr (move_settled h hdelivers ht)

theorem move_lookup (hs : e.Sorted) (hready : (e.move m).session.phase = .ready) (ht : e.token ≠ t)
    (hl : e.Pending t → e.session.pending.lookup t = some handles) (hp : (e.move m).Pending t) :
    (e.move m).session.pending.lookup t = some handles := by
  rw [pending_iff_lookup] at hl hp
  have hsame (h : (e.move m).session.pending.lookup t = e.session.pending.lookup t) :
      (e.move m).session.pending.lookup t = some handles := h.trans (hl (h ▸ hp))
  rcases move_pends hs m hready with heq | ⟨handles', heq⟩ | ⟨t', o, rest, -, heq⟩
  · exact hsame (congrArg (List.lookup t) heq)
  · refine hsame ?_
    rw [heq, List.lookup_append, List.lookup_cons, beq_eq_false_iff_ne.mpr (Ne.symm ht)]
    exact Option.or_none
  · have hpending := (finished_pends ({ e with turns := rest } : Engine ν α) t' o).1
    have hlookup : (e.move m).session.pending.lookup t = if t = t' then none else e.session.pending.lookup t := by
      rw [heq, hpending]
      exact Completion.lookup_filter_ne ..
    by_cases hne : t = t'
    · exact absurd (hlookup.trans (if_pos hne)) hp
    · exact hsame (hlookup.trans (if_neg hne))

/-- While the session is ready, a submission stops to be pending only by finishing, and gives all its references
back. -/
theorem move_finishes (h : e.Able scopeCalls) (hready : (e.move m).session.phase = .ready)
    (hl : e.session.pending.lookup t = some handles) (hp : ¬(e.move m).Pending t) :
    (∃ o, e.Takes m (.finished t o)) ∧ Attempt.each Pool.relinquish e.pool handles = (.ok (), (e.move m).pool) := by
  rw [pending_iff_lookup, not_not] at hp
  have hsame (h : (e.move m).session.pending.lookup t = e.session.pending.lookup t) : False := by
    cases hp.symm.trans (h.trans hl)
  rcases move_pends h.sorted m hready with heq | ⟨handles', heq⟩ | ⟨t', o, rest, htakes, heq⟩
  · exact (hsame (congrArg (List.lookup t) heq)).elim
  · refine (hsame ?_).elim
    rw [heq, List.lookup_append, hl]
    rfl
  · obtain ⟨hpending, hpool⟩ := finished_pends ({ e with turns := rest } : Engine ν α) t' o
    by_cases hne : t = t'
    · subst hne
      have hok := (Pool.each_relinquish_spec h.pool.sound handles).2 (h.pool.destroys (by decide))
      exact ⟨⟨o, htakes⟩, Prod.ext hok (by rw [heq]; exact (hpool handles hl).symm)⟩
    · refine (hsame ?_).elim
      rw [heq, hpending]
      exact (Completion.lookup_filter_ne ..).trans (if_neg hne)

/-- While the session is ready, all that is due stays right about a submission. -/
theorem run_attests {v w : Option String} (h : start.Life B []) (hm : ∀ m ∈ moves, m.LeavesDelivery)
    (hready : (start.run moves).session.phase = .ready) (hissued : start.Issued s.token) (hv : s.validation = .ok v)
    (hw : s.memory = .ok w) (hs : start.Attests s worked)
    (hl : start.Pending s.token → start.session.pending.lookup s.token = some handles) :
    (start.run moves).Attests s (fun q => worked q ∨
      ∃ before x after, moves = before ++ x :: after ∧ (start.run before).Takes x (.workDone s q)) ∧
    ((start.run moves).Pending s.token → (start.run moves).session.pending.lookup s.token = some handles) := by
  induction moves generalizing start B worked with
  | nil => exact ⟨hs.mono fun _ => .inl, hl⟩
  | cons m moves ih =>
    have hready' : (start.run [m]).session.phase = .ready :=
      run_ready (run_ages h.able.sorted [m]).2.2 hready
    obtain ⟨B', -, h'⟩ := move_life h (hm m (List.mem_cons_self ..))
    have htoken : start.token ≠ s.token := fun heq => h.fresh.1 (heq ▸ hissued)
    have hissued' : (start.move m).Issued s.token := (run_ages h.able.sorted [m]).1.issued _ hissued
    have hready'' : start.session.phase = .ready := run_ready h.able.sorted hready'
    have hs' : (start.move m).Attests s fun q => worked q ∨ start.Takes m (.workDone s q) :=
      hs.move (fun _ => .inl) (fun _ => .inr) hready'' htoken hv hw
    obtain ⟨hattests, hlookup⟩ := ih h' (fun m' hm' => hm m' (List.mem_cons_of_mem _ hm')) hready hissued' hs'
      (move_lookup h.able.sorted hready' htoken hl)
    refine ⟨hattests.mono fun q hq => ?_, hlookup⟩
    rcases hq with (hq | htakes) | ⟨before, x, after, heq, htakes⟩
    · exact .inl hq
    · exact .inr ⟨[], m, moves, rfl, htakes⟩
    · exact .inr ⟨m :: before, x, after, congrArg (m :: ·) heq, htakes⟩

/-! ## What a run shows -/

/-- What a run shows of its error scopes: `verdict` is what each submission comes to. -/
structure Attributed (start : Engine ν α) (moves : List (Move ν α)) (verdict : SubmissionId → Option Outcome) :
    Prop where
  /-- Nothing leaves a scope open, or closes one that it has not opened. -/
  balanced : ∀ before after, moves = before ++ after →
    (start.run before).pool.device.scopes = start.pool.device.scopes
  bracketed : ∀ before m after plan t, moves = before ++ m :: after → (start.run before).Submits m plan t →
    ∃ s, s.token = t ∧ (start.run before).Encodes m plan s
  told : ∀ before after, moves = before ++ after → ∀ t o, (start.run before).Told t o → verdict t = some o
  /-- What a scope has captured is told of the submission only that opened the scope. -/
  own : ∀ t f filter message, verdict t = some (.error f) → f.captured? = some (filter, message) →
    ∃ before m after plan s, moves = before ++ m :: after ∧ (start.run before).Encodes m plan s ∧ s.token = t ∧
      s.captured filter = .ok (some message)
  /-- Unless the session has ended by then, a submission that is pending no more comes to what its encoding and its
  scopes decide, and has given back all its references. -/
  decided : ∀ before m later x after plan s, moves = before ++ m :: (later ++ x :: after) →
    (start.run before).Encodes m plan s → (start.run (before ++ m :: later)).Pending s.token →
    ¬(start.run (before ++ m :: (later ++ [x]))).Pending s.token →
    (start.run (before ++ m :: (later ++ [x]))).session.phase = .ready →
    (∃ o, verdict s.token = some o ∧ s.Decides (fun q => ∃ b y a, later = b ++ y :: a ∧
      (start.run (before ++ m :: b)).Takes y (.workDone s q)) o) ∧
    ∀ rec, (start.run before).plans[plan]? = some rec →
      Attempt.each Pool.relinquish (start.run (before ++ m :: later)).pool (rec.plan.stages.flatMap Stage.handles) =
        (.ok (), (start.run (before ++ m :: (later ++ [x]))).pool)
  /-- A submission settles if the queue is run, once it is not held any more. -/
  settles : ∀ before m later after plan s, moves = before ++ m :: (later ++ after) →
    (start.run before).Encodes m plan s → ∃ n, ((start.run (before ++ m :: later)).fires n).Settled s.token ∨
      ((start.run (before ++ m :: later)).fires n).HoldsBack s.token ∧
        ((((start.run (before ++ m :: later)).fires n).apply .unhold).1 = .ok .done →
          ∃ k, ((((start.run (before ++ m :: later)).fires n).move (.call .unhold)).fires k).Settled s.token)

omit [Stored α] [Transfer α] in
theorem Opened.unissued (h : start.Opened) (t : SubmissionId) : ¬start.Issued t := by
  obtain ⟨device, o, config, rfl⟩ := h.eq
  rintro ⟨n, hn, hlt, -⟩
  exact Nat.not_lt_of_le hn hlt

omit [Measure ν] [Channel α] [Stored α] [Transfer α] in
theorem Takes.mem {x : Turn ν α} (h : e.Takes m x) : ∃ delay, (delay, x) ∈ e.turns := by
  cases m with
  | call => exact h.elim
  | turn n =>
    obtain ⟨delay, hn⟩ := h
    exact ⟨delay, List.mem_of_getElem? hn⟩
  | fire =>
    obtain ⟨delay, rest, heq, -⟩ := h
    exact ⟨delay, heq ▸ List.mem_cons_self ..⟩

/-- A submission stands as it was encoded, for as long as the session is ready. -/
theorem Encodes.stands (h : e.Life B []) (hs : e.Encodes m plan s) (hm : m.LeavesDelivery)
    (hmoves : ∀ m ∈ moves, m.LeavesDelivery) (hready : ((e.move m).run moves).session.phase = .ready) :
    ((e.move m).run moves).Attests s (fun q =>
      ∃ before x after, moves = before ++ x :: after ∧ ((e.move m).run before).Takes x (.workDone s q)) ∧
    ∀ rec, e.plans[plan]? = some rec → ((e.move m).run moves).Pending s.token →
      ((e.move m).run moves).session.pending.lookup s.token = some (rec.plan.stages.flatMap Stage.handles) := by
  obtain ⟨B', -, h'⟩ := move_life h hm
  obtain ⟨rec, pool, outer, inner, encoded, popped, hrec, -, -, -, hscoped, hpending⟩ := hs.brackets
  have hfresh : e.session.pending.lookup s.token = none := by
    have hidle := h.fresh.2.2.1
    rwa [← hs.submits.next.1, pending_iff_lookup, not_not] at hidle
  have hl : (e.move m).session.pending.lookup s.token = some (rec.plan.stages.flatMap Stage.handles) := by
    rw [hpending, List.lookup_append, hfresh]
    exact List.lookup_cons_self
  obtain ⟨hattests, hlookup⟩ := run_attests h' hmoves hready (hs.submits.issued h.first) hscoped.validation
    hscoped.memory (hs.attests h') fun _ => hl
  refine ⟨hattests.mono fun q hq => hq.resolve_left id, fun rec' hrec' => ?_⟩
  cases hrec.symm.trans hrec'
  exact hlookup

theorem run_split (start : Engine ν α) (before : List (Move ν α)) (m : Move ν α) (later : List (Move ν α)) :
    start.run (before ++ m :: later) = ((start.run before).move m).run later := run_append ..

namespace Chronicles

variable {before later after : List (Move ν α)} {x : Move ν α}

theorem encodes (h : start.Chronicles moves B) (heq : moves = before ++ m :: after)
    (hs : (start.run before).Encodes m plan s) : B.encoded s.token = some s := by
  obtain ⟨delay, hgoes⟩ := hs.goes
  have hdue : (delay, Turn.scopesClosed s) ∈ (start.run (before ++ [m])).turns := by
    rw [run_append]
    exact hgoes
  exact h.encoded (before ++ [m]) after (by rw [heq, List.append_assoc, List.singleton_append]) (.inl hdue)

theorem own (h : start.Chronicles moves B) (hend : start.Chronicle moves B) (hnone : ∀ t, ¬start.Issued t)
    (hable : ∀ before after, moves = before ++ after → (start.run before).Able scopeCalls) {f : Failure}
    {filter : ScopeFilter} {message : String} (hv : B.verdict t = some (.error f))
    (hf : f.captured? = some (filter, message)) :
    ∃ before m after plan s, moves = before ++ m :: after ∧ (start.run before).Encodes m plan s ∧ s.token = t ∧
      s.captured filter = .ok (some message) := by
  obtain ⟨hissued, -, -, howns⟩ := hend.life.verdicts t _ hv
  obtain ⟨s, hs, hcaptured⟩ := howns f filter message rfl hf
  obtain ⟨before, m, after, plan, heq, hsubmits⟩ := h.handed hnone moves [] (List.append_nil _).symm t hissued
  obtain ⟨s', rfl, hencodes⟩ := hsubmits.brackets (hable before _ heq)
  cases hs.symm.trans (h.encodes heq hencodes)
  exact ⟨before, m, after, plan, s, heq, hencodes, rfl, hcaptured⟩

theorem decided (h : start.Chronicles moves B) (hm : ∀ m ∈ moves, m.LeavesDelivery)
    (hable : ∀ before after, moves = before ++ after → (start.run before).Able scopeCalls)
    (heq : moves = before ++ m :: (later ++ x :: after)) (hs : (start.run before).Encodes m plan s)
    (hp : (start.run (before ++ m :: later)).Pending s.token)
    (hgone : ¬(start.run (before ++ m :: (later ++ [x]))).Pending s.token)
    (hready : (start.run (before ++ m :: (later ++ [x]))).session.phase = .ready) :
    (∃ o, B.verdict s.token = some o ∧ s.Decides (fun q => ∃ b y a, later = b ++ y :: a ∧
      (start.run (before ++ m :: b)).Takes y (.workDone s q)) o) ∧
    ∀ rec, (start.run before).plans[plan]? = some rec →
      Attempt.each Pool.relinquish (start.run (before ++ m :: later)).pool (rec.plan.stages.flatMap Stage.handles) =
        (.ok (), (start.run (before ++ m :: (later ++ [x]))).pool) := by
  have heq' : moves = (before ++ m :: later) ++ x :: after := by simp [heq]
  obtain ⟨B₀, -, h₀⟩ := h before _ heq
  have hable' := hable (before ++ m :: later) _ heq'
  have hmove : start.run (before ++ m :: (later ++ [x])) = (start.run (before ++ m :: later)).move x := by
    rw [show before ++ m :: (later ++ [x]) = (before ++ m :: later) ++ [x] by simp, run_append]
    rfl
  rw [hmove] at hgone hready ⊢
  have hready' : (start.run (before ++ m :: later)).session.phase = .ready :=
    @run_ready _ _ _ _ _ _ _ [x] hable'.sorted hready
  have hended := fun o => h.ended (before ++ m :: later) x after s.token o heq'
  simp only [run_split] at *
  obtain ⟨hattests, hlookup⟩ := hs.stands h₀.life (hm m (by simp [heq]))
      (fun m' h => hm m' (by simp [heq, h])) hready'
  obtain ⟨rec, pool, outer, inner, encoded, popped, hrec, -⟩ := hs.brackets
  obtain ⟨⟨o, htakes⟩, hback⟩ := move_finishes hable' hready (hlookup rec hrec hp) hgone
  obtain ⟨delay, hdue⟩ := htakes.mem
  refine ⟨⟨_, hended o htakes hp, ?_⟩, fun rec' hrec' => ?_⟩
  · have hdecides : s.Decides _ o := hattests.turns _ hdue rfl
    exact hdecides.asError
  · cases hrec.symm.trans hrec'
    exact hback

theorem settles (h : start.Chronicles moves B) (hm : ∀ m ∈ moves, m.LeavesDelivery)
    (heq : moves = before ++ m :: (later ++ after)) (hs : (start.run before).Encodes m plan s) :
    ∃ n, ((start.run (before ++ m :: later)).fires n).Settled s.token ∨
      ((start.run (before ++ m :: later)).fires n).HoldsBack s.token ∧
        ((((start.run (before ++ m :: later)).fires n).apply .unhold).1 = .ok .done →
          ∃ k, ((((start.run (before ++ m :: later)).fires n).move (.call .unhold)).fires k).Settled s.token) := by
  obtain ⟨B₀, -, h₀⟩ := h before _ heq
  obtain ⟨B₁, -, h₁⟩ := move_life h₀.life (hm m (by simp [heq]))
  obtain ⟨B₂, -, h₂⟩ := h (before ++ m :: later) after (by simp [heq])
  have hlife := h₂.life
  rw [run_split] at hlife ⊢
  obtain ⟨delay, hgoes⟩ := hs.goes
  have hway : ((start.run before).move m).Sustains s.token := .inr ⟨delay, _, hgoes, rfl⟩
  have hlater : ∀ m' ∈ later, m'.LeavesDelivery := fun m' h => hm m' (by simp [heq, h])
  rcases run_sustains h₁ hlater (hs.submits.issued h₀.life.first) (.inl hway) with hon | hsettled
  · obtain ⟨n, hn⟩ := hon.settles hlife
    refine ⟨n, hn.imp_right fun hholds => ⟨hholds, fun hok => ?_⟩⟩
    obtain ⟨B₃, h₃⟩ := fires_life hlife n
    exact hholds.settles h₃ hok
  · exact ⟨0, .inl hsettled⟩

end Chronicles

/-- Over any run of a session on a device that opens and closes scopes and destroys buffers as it is asked, whatever
else fails: every submission is encoded between a memory scope and a validation scope of its own, which are closed
in the reverse order; what they have captured is told of that submission only; and it settles, unless the session
has ended, with what failed while it was encoded, or else, when the queue is done, with what its memory scope or
else its validation scope has captured. -/
theorem scopes_attributed (hstart : start.Opened) (hd : ∀ x ∈ start.pool.device.faults, x.1 ∉ scopeCalls)
    (hm : ∀ m ∈ moves, m.LeavesScopes) : ∃ verdict, start.Attributed moves verdict := by
  have hdelivery : ∀ x ∈ start.pool.device.faults, x.1 ∉ deliveryCalls := fun x hx hc =>
    hd x hx (List.mem_of_mem_take (i := 2) hc)
  have hsupervised : start.supervised = true := by
    obtain ⟨device, o, config, rfl⟩ := hstart.eq
    rfl
  have hdelivers : ∀ m ∈ moves, m.LeavesDelivery := fun m h => (hm m h).delivery
  obtain ⟨B, hend, hparts⟩ := run_chronicles (hstart.chronicle hdelivery) hsupervised hdelivers
  have hscopes (before after : List (Move ν α)) (heq : moves = before ++ after) :=
    run_scopes (hstart.able hd) fun m h => hm m (heq ▸ List.mem_append_left after h)
  have hable := fun before after heq => (hscopes before after heq).1
  exact ⟨B.verdict, {
    balanced := fun before after heq => (hscopes before after heq).2
    bracketed := fun before m after plan t heq hs => hs.brackets (hable before _ heq)
    told := hparts.told
    own := fun t f filter message => hparts.own hend hstart.unissued hable
    decided := fun before m later x after plan s heq => hparts.decided hdelivers hable heq
    settles := fun before m later after plan s heq => hparts.settles hdelivers heq }⟩

end Strata.Engine

/-! ### Two scopes that capture, and an encoding that fails -/

namespace Strata.Engine

namespace Captured

open Waited

def injected : List (Move Int Bool) :=
  [.call (.allocate .params 32), .call (.takePlan uploading), .call (.inject .validation "invalid"),
    .call (.inject .outOfMemory "full")]

/-- Up to the turn with which the first submission finishes. -/
def ended : List (Move Int Bool) := injected ++ .call (.submit 0) :: List.replicate 4 .fire

def broken : List (Move Int Bool) :=
  ended ++ [.fire, .call (.takePlan uploading), .call (.fault .writeBuffer (.error (.plain "broken")))]

def moves : List (Move Int Bool) := broken ++ .call (.submit 1) :: (List.replicate 5 .fire ++ [.fire])

/-- Nothing fails but what is injected for the first submission. -/
def fills : Turn Int Bool → Bool
  | .scopesClosed s => s.downloads.isOk && s.memory.toOption == some (some "full")
  | .workDone _ q => q.isOk
  | _ => true

def breaks : Turn Int Bool → Bool
  | .scopesClosed s =>
    match s.downloads with
    | .error failure => failure == .host (.plain "broken")
    | .ok _ => false
  | _ => true

theorem fills_scopesClosed {s : Encoded Int} (h : fills (.scopesClosed s) = true) :
    s.downloads.isOk = true ∧ s.memory = .ok (some "full") := by
  obtain ⟨hok, hmemory⟩ := Bool.and_eq_true_iff.mp h
  refine ⟨hok, ?_⟩
  cases hm : s.memory with
  | error failure =>
    rw [hm] at hmemory
    cases hmemory
  | ok message =>
    rw [hm] at hmemory
    exact congrArg Except.ok (Option.some.inj (beq_iff_eq.mp hmemory))

theorem fills_workDone {s : Encoded Int} {q : Outcome} (h : fills (.workDone s q) = true) : q = .ok () := by
  cases q with
  | error failure => cases h
  | ok u => rfl

theorem breaks_scopesClosed {s : Encoded Int} (h : breaks (.scopesClosed s) = true) :
    s.downloads = .error (.host (.plain "broken")) := by
  unfold breaks at h
  cases hds : s.downloads with
  | error failure =>
    simp only [hds] at h
    exact congrArg Except.error (beq_iff_eq.mp h)
  | ok ds =>
    simp only [hds] at h
    cases h

end Captured

open Waited Captured in
/-- The memory scope comes before the validation scope, and an error of the encoding is classified. -/
theorem scopes_attributed_twice :
    (start.Opened ∧ (∀ x ∈ start.pool.device.faults, x.1 ∉ scopeCalls) ∧ ∀ m ∈ moves, m.LeavesScopes) ∧
    ∃ verdict, start.Attributed moves verdict ∧
      (∃ f, verdict (.number 1) = some (.error f) ∧ f.code? = some .outOfMemory ∧
        f.captured? = some (.outOfMemory, "full")) ∧
      verdict (.number 2) = some (.error (.engine .submissionFailed (some (.plain "broken")))) := by
  have hstart : start.Opened := ⟨{ limits := .standard }, {}, .object [], rfl⟩
  have hd : ∀ x ∈ start.pool.device.faults, x.1 ∉ scopeCalls := fun x hx => absurd hx List.not_mem_nil
  have hm : ∀ m ∈ moves, m.LeavesScopes := by
    simp [moves, broken, ended, injected, Move.LeavesScopes, Operation.LeavesScopes, scopeCalls]
  obtain ⟨verdict, hverdict⟩ := scopes_attributed hstart hd hm
  refine ⟨⟨hstart, hd, hm⟩, verdict, hverdict, ?_, ?_⟩
  · obtain ⟨s, htoken, hs⟩ := hverdict.bracketed injected (.call (.submit 0)) _ 0 (.number 1) rfl (.inl ⟨rfl, rfl⟩)
    obtain ⟨⟨o, hv, hdecides⟩, -⟩ := hverdict.decided injected (.call (.submit 0))
      (List.replicate 4 .fire) .fire _ 0 s rfl
      hs (by rw [htoken, Pending]; decide +kernel) (by rw [htoken, Pending]; decide +kernel) (by decide +kernel)
    have hclean : ∀ n < 5, (start.run (injected ++ .call (.submit 0) :: (List.replicate 4 .fire).take n)).turns.all
        (fun x => fills x.2) = true := by decide +kernel
    obtain ⟨delay, hgoes⟩ := hs.goes
    obtain ⟨hok, hmemory⟩ := fills_scopesClosed (List.all_eq_true.mp (hclean 0 (by decide)) _ hgoes)
    cases hds : s.downloads with
    | error f => rw [hds] at hok; cases hok
    | ok ds =>
      obtain ⟨q, ⟨b, y, a, hsplit, htakes⟩, -, hran⟩ := hdecides.worked ds hds
      obtain ⟨delay', hdue⟩ := htakes.mem
      have hb : (List.replicate 4 (Move.fire : Move Int Bool)).take b.length = b := hsplit ▸ List.take_left
      have hlength : b.length < 5 := Nat.lt_succ_of_le (hb ▸ List.length_take_le' ..)
      have hdone := List.all_eq_true.mp (hclean b.length hlength) _ (hb ▸ hdue)
      obtain ⟨f, rfl, hf⟩ := (hran (fills_workDone hdone)).1 "full" hmemory
      exact ⟨f, htoken ▸ hv, hf⟩
  · obtain ⟨s, htoken, hs⟩ := hverdict.bracketed broken (.call (.submit 1)) _ 1 (.number 2) rfl (.inl ⟨rfl, rfl⟩)
    obtain ⟨⟨o, hv, hdecides⟩, -⟩ := hverdict.decided broken (.call (.submit 1))
      (List.replicate 5 .fire) .fire [] 1 s rfl
      hs (by rw [htoken, Pending]; decide +kernel) (by rw [htoken, Pending]; decide +kernel) (by decide +kernel)
    have hbroken : (start.run (broken ++ [.call (.submit 1)])).turns.all (fun x => breaks x.2) = true := by
      decide +kernel
    obtain ⟨delay, hgoes⟩ := hs.goes
    have hbreaks := List.all_eq_true.mp hbroken _ hgoes
    rw [← htoken, hv, hdecides.failed _ (breaks_scopesClosed hbreaks)]
    rfl

end Strata.Engine
