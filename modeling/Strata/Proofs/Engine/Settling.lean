import Strata.Proofs.Engine.Bystanders
import Strata.Proofs.Engine.Sending

/-!
# How submissions settle

Over a run each submission has one outcome at most, whoever is told of it and whenever (`tokens_settle`): the
outcome is decided when the submission stops to be pending, and nothing that comes later changes it. The first wait
for a token is met with that outcome; every other wait is refused at once. Success is told only when each download
of the plan was read into its own target (`Delivers`).
-/

namespace Strata.Engine

variable {ν α : Type} [Measure ν] [Channel α] [Stored α] [Transfer α] {e : Engine ν α} {m : Move ν α}
  {t : SubmissionId} {plan : PlanId} {B : Books ν α}

/-! ## Tokens -/

theorem submit_of_apply (h : (e.apply (.submit plan)).1 = .ok (.token t)) :
    (e.submit plan).1 = .ok t ∧ (e.apply (.submit plan)).2 = (e.submit plan).2 := by
  unfold Engine.apply at h ⊢
  split at h
  · cases h
  · rename_i hs
    rw [if_neg hs]
    refine ⟨?_, rfl⟩
    have hcarry : (e.submit plan).1.map Answer.token = .ok (.token t) := h
    cases hr : (e.submit plan).1 with
    | error failure =>
      rw [hr] at hcarry
      cases hcarry
    | ok t' =>
      rw [hr] at hcarry
      cases hcarry
      rfl

theorem Submits.next (h : e.Submits m plan t) :
    t = e.token ∧ (e.move m).session.nextToken = e.session.nextToken + 1 := by
  rcases h with ⟨rfl, h⟩ | ⟨job, h⟩
  · obtain ⟨hok, heq⟩ := submit_of_apply h
    obtain ⟨rec, pool, device, haccepts, ht⟩ := accepts_of_ok hok
    refine ⟨ht, ?_⟩
    show (e.apply (.submit plan)).2.session.nextToken = _
    rw [heq, haccepts.submit]
    rfl
  · obtain ⟨delay, rest, c, listeners, rec, pool, device, -, -, -, ht, heq⟩ := h.move_eq
    refine ⟨ht, ?_⟩
    rw [heq, waitFor_next]
    rfl

theorem Submits.fresh (h : e.Submits m plan t) : ¬e.Issued t := by
  rw [h.next.1]
  rintro ⟨n, -, hlt, heq⟩
  cases heq
  exact Nat.lt_irrefl _ hlt

theorem Submits.issued (h : e.Submits m plan t) (hfirst : 1 ≤ e.session.nextToken) : (e.move m).Issued t := by
  obtain ⟨rfl, hnext⟩ := h.next
  exact ⟨e.session.nextToken, hfirst, hnext ▸ Nat.lt_succ_self _, rfl⟩

/-- A submission is under way once its plan is submitted, and knows what is to be read. -/
theorem Submits.encodes (h : e.Submits m plan t) : ∃ rec delay s, e.plans[plan]? = some rec ∧
    (delay, .scopesClosed s) ∈ (e.move m).turns ∧ s.token = t ∧ ∀ ds, s.downloads = .ok ds →
      ds.map (fun d => (d.target, d.bytes)) =
        (rec.plan.stages.filterMap Stage.download?).map fun x => (x.1.within plan, x.2) := by
  rcases h with ⟨rfl, h⟩ | ⟨job, h⟩
  · obtain ⟨hok, heq⟩ := submit_of_apply h
    obtain ⟨rec, pool, device, haccepts, rfl⟩ := accepts_of_ok hok
    refine ⟨rec, 2, (ran e.token plan pool.arena device rec.plan.stages).1, haccepts.record, ?_, rfl,
      fun ds => ran_downloads⟩
    show _ ∈ (e.apply (.submit plan)).2.turns
    rw [heq, haccepts.submit]
    exact List.mem_append_right _ (List.mem_singleton_self _)
  · obtain ⟨delay, rest, c, listeners, rec, pool, device, -, -, haccepts, rfl, heq⟩ := h.move_eq
    refine ⟨rec, 2, (ran e.token plan pool.arena device rec.plan.stages).1, haccepts.record, ?_, rfl,
      fun ds => ran_downloads⟩
    rw [heq]
    obtain ⟨more, hmore, -⟩ :=
      (waitFor_bystands
        ({ (({ e with turns := rest } : Engine ν α).submitting plan rec pool device).setCall job
          { c with phase := .draining plan e.token } with listeners } : Engine ν α) job e.token).turns
    rw [hmore]
    exact List.mem_append_left _ (List.mem_append_right _ (List.mem_singleton_self _))

theorem submit_of_next (h : e.Able deliveryCalls) (hn : (e.submit plan).2.session.nextToken ≠ e.session.nextToken) :
    (e.submit plan).1 = .ok e.token := by
  cases hr : (e.submit plan).1 with
  | error failure =>
    have hrefused : e.submit plan = (.error failure, (e.submit plan).2) := Prod.ext hr rfl
    obtain ⟨pool, -, -, heq⟩ := submit_refused h hrefused
    rw [heq] at hn
    exact absurd rfl hn
  | ok t =>
    obtain ⟨rec, pool, device, -, rfl⟩ := accepts_of_ok hr
    rfl

theorem submits_of_next (h : e.Able deliveryCalls) (hn : (e.move m).session.nextToken ≠ e.session.nextToken) :
    ∃ plan, e.Submits m plan e.token := by
  obtain ⟨-, hwho⟩ := (move_next h.sorted m).resolve_left hn
  rcases hwho with ⟨plan, rfl⟩ | ⟨job, htakes⟩
  · have hn : (e.apply (.submit plan)).2.session.nextToken ≠ e.session.nextToken := hn
    refine ⟨plan, .inl ⟨rfl, ?_⟩⟩
    unfold Engine.apply at hn ⊢
    split at hn
    · exact absurd rfl hn
    · rename_i hs
      rw [if_neg hs]
      show (e.submit plan).1.map Answer.token = _
      rw [submit_of_next h hn]
      rfl
  · obtain ⟨op, rfl⟩ | ⟨x, delay, rest, htakes', -, heq⟩ | ⟨hnone, -⟩ := e.move_cases m
    · exact htakes.elim
    · obtain rfl : x = .planned job := htakes'.unique htakes
      rw [heq] at hn
      have hn : (Engine.planned { e with turns := rest } job).session.nextToken ≠ e.session.nextToken := hn
      have hleave (e' : Engine ν α) (owned : List Handle) (result : Except Failure (Raster ν α)) :
          (e'.leave job owned result).session = e'.session := (leave_chores e' job owned result).session
      -- every way to go on but a submission leaves the session, and its tokens, as they are
      unfold planned at hn
      split at hn
      · rename_i c hc
        split at hn
        · rw [hleave] at hn
          exact absurd rfl hn
        · rename_i plan hphase
          split at hn
          · rw [hleave] at hn
            exact absurd rfl hn
          · rename_i habort
            have hrest : Able deliveryCalls ({ e with turns := rest } : Engine ν α) := ⟨h.pool, h.sorted⟩
            have hsame : (Engine.submit { e with turns := rest } plan).1 = .ok e.token := by
              refine submit_of_next hrest ?_
              split at hn
              all_goals
                rename_i heq
                rw [heq]
              · rw [hleave] at hn
                exact hn
              · rw [waitFor_next] at hn
                split at hn <;> exact hn
            obtain ⟨rec, pool, device, haccepts, -⟩ := accepts_of_ok hsame
            have haccepts' : e.Accepts plan rec pool device :=
              ⟨haccepts.ready, haccepts.record, haccepts.fresh, haccepts.acquired, haccepts.opened⟩
            exact ⟨plan, .inr ⟨job, htakes, c, hc, hphase, habort, congrArg Prod.fst haccepts'.submit⟩⟩
        · exact absurd rfl hn
      · exact absurd rfl hn
    · exact absurd htakes (hnone _)

/-! ## Waits -/

/-- A wait gets past the session, so that the completion meets it: one by hand, or that of a call for the submission
it has just made. -/
def Reaches (e : Engine ν α) (m : Move ν α) (t : SubmissionId) : Prop :=
  (m = .call (.wait t) ∧ e.session.phase ≠ .destroyed ∧ t ∈ e.session.unawaited) ∨ ∃ job plan,
    e.SubmitsFor m job plan t

/-- Nobody gets past the session with a token that was never issued. -/
theorem Reaches.issued (h : e.Life B []) (hr : e.Reaches m t) : e.Issued t ∨ ∃ plan, e.Submits m plan t := by
  rcases hr with ⟨-, -, hu⟩ | ⟨job, plan, hr⟩
  · exact .inl (h.issued_of_unawaited hu)
  · exact .inr ⟨plan, .inr ⟨job, hr⟩⟩

theorem Reaches.spent (h : e.Life B []) (hs : e.supervised = true) (hr : e.Reaches m t) :
    (e.move m).Issued t ∧ t ∉ (e.move m).session.unawaited := by
  rcases hr with ⟨rfl, hphase, hu⟩ | ⟨job, plan, hr⟩
  · have hmove : (e.move (.call (.wait t))).session =
        { e.session with unawaited := e.session.unawaited.erase t } := by
      show (e.apply (.wait t)).2.session = _
      unfold Engine.apply
      rw [hs]
      exact (waitFor_session ..).trans (if_neg hphase)
    unfold Issued
    rw [hmove]
    exact ⟨h.issued_of_unawaited hu, h.nodup.not_mem_erase⟩
  · have hsubmits : e.Submits m plan t := .inr ⟨job, hr⟩
    refine ⟨hsubmits.issued h.first, ?_⟩
    obtain ⟨delay, rest, c, listeners, rec, pool, device, -, -, haccepts, rfl, heq⟩ := hr.move_eq
    have hphase : e.session.phase ≠ .destroyed := by
      rw [show e.session.phase = .ready from haccepts.ready]
      decide
    have hsession : (e.move m).session.unawaited = (e.session.unawaited ++ [e.token]).erase e.token := by
      rw [heq, waitFor_session]
      exact congrArg Session.unawaited (if_neg hphase)
    rw [hsession, List.erase_append_right _ h.fresh.2.2.2]
    simpa using h.fresh.2.2.2

theorem move_wait (hs : e.supervised = true) (t : SubmissionId) :
    e.move (.call (.wait t)) = (e.addJob .wait).2.waitFor e.jobs.size t := by
  show (e.apply (.wait t)).2 = _
  unfold Engine.apply
  rw [hs]
  rfl

/-- A wait that the session does not let pass is refused, and the completion is not asked. -/
theorem refused (hs : e.supervised = true) (hr : ¬e.Reaches (.call (.wait t)) t) : ∃ failure : Failure,
    failure.code? = some .validation ∧ (e.move (.call (.wait t))).completion = e.completion ∧
      (e.move (.call (.wait t))).settled = e.settled ++ [(e.jobs.size, .error failure)] := by
  have hmove := move_wait hs t
  have hpass (failure : Failure) : (e.addJob .wait).2.pass e.jobs.size t (.error failure) =
      (e.addJob .wait).2.settle e.jobs.size (.error failure) := by
    unfold pass
    rw [show (e.addJob .wait).2.jobs[e.jobs.size]? = some .wait from Array.getElem?_push_size]
    rfl
  rw [hmove]
  unfold waitFor
  by_cases hd : e.session.phase = .destroyed
  · refine ⟨.of (.sessionDestroyed .validation), rfl, ?_⟩
    rw [if_pos (show (e.addJob .wait).2.session.phase = .destroyed from hd), hpass]
    exact ⟨rfl, rfl⟩
  · have hu : t ∉ e.session.unawaited := fun hu => hr (.inl ⟨rfl, hd, hu⟩)
    refine ⟨.of (.unknownToken t), rfl, ?_⟩
    rw [if_neg (show (e.addJob .wait).2.session.phase ≠ .destroyed from hd),
      if_pos (show t ∉ (e.addJob .wait).2.session.unawaited from hu), hpass]
    exact ⟨rfl, rfl⟩

/-! ## Books of a run -/

/-- One of the moves that come next reads a download into its array. -/
def FetchesIn (start : Engine ν α) (before moves : List (Move ν α)) (r : Reading ν α) : Prop :=
  ∃ between m after, moves = between ++ m :: after ∧ (start.run (before ++ between)).Fetches m r

theorem FetchesIn.append {start : Engine ν α} {before moves : List (Move ν α)} {r : Reading ν α}
    (h : start.FetchesIn before moves r) (more : List (Move ν α)) : start.FetchesIn before (moves ++ more) r := by
  obtain ⟨between, m, after, rfl, hf⟩ := h
  exact ⟨between, m, after ++ more, by rw [List.append_assoc, List.cons_append], hf⟩

/-- What the books say at the end of a run. -/
structure Chronicle (start : Engine ν α) (moves : List (Move ν α)) (B : Books ν α) : Prop where
  life : (start.run moves).Life B []
  ran : ∀ t, B.ran t → ∃ before m after, moves = before ++ m :: after ∧ (start.run before).Completes m t
  /-- What is newer was read by a later move. -/
  readings : ∀ newer r older, B.readings = newer ++ r :: older → ∃ before m after, moves = before ++ m :: after ∧
    (start.run before).Fetches m r ∧ ∀ r' ∈ newer, start.FetchesIn (before ++ [m]) after r'
  awaited : ∀ before t after, moves = before ++ .call (.wait t) :: after →
    B.awaited (start.run before).jobs.size = some t

omit [Channel α] [Stored α] [Transfer α] in
theorem Life.verdict_of_told (h : e.Life B []) {o : Outcome} (ht : e.Told t o) : B.verdict t = some o := by
  rcases ht with ht | ⟨delay, j, ht⟩
  · exact h.kept t o ht
  · have hallows : B.Allows e (.collected j t o) := h.allows _ (List.mem_map_of_mem ht)
    exact hallows.2.2.1

theorem wait_life (h : e.Life B []) (hs : e.supervised = true) (t : SubmissionId) :
    ∃ B', B.Keeps B' ∧ (e.move (.call (.wait t))).Life B' [] ∧ B'.awaited e.jobs.size = some t := by
  obtain ⟨hbooks, hlife, hheeds⟩ := h.addWait t
  have hmove := move_wait hs t
  exact ⟨B.await e.jobs.size t, ⟨hbooks, fun _ => .inl, .inl rfl⟩, hmove ▸ hlife.waitFor hheeds, if_pos rfl⟩

theorem Chronicle.step {start : Engine ν α} {moves : List (Move ν α)} (h : start.Chronicle moves B)
    (hs : (start.run moves).supervised = true) (hm : m.LeavesDelivery) :
    ∃ B', B.Extends B' ∧ start.Chronicle (moves ++ [m]) B' := by
  have hrun := start.run_snoc moves m
  -- books that also have the wait, if the move is one
  have hbooks : ∃ B', B.Adds B' ((start.run moves).Completes m) ((start.run moves).Fetches m) ∧
      ((start.run moves).move m).Life B' [] ∧
      ∀ t, m = .call (.wait t) → B'.awaited (start.run moves).jobs.size = some t := by
    by_cases hw : ∃ t, m = .call (.wait t)
    · obtain ⟨t, rfl⟩ := hw
      obtain ⟨B', hkeeps, hlife, hawaited⟩ := wait_life h.life hs t
      exact ⟨B', hkeeps.adds, hlife, fun t' ht => by cases ht; exact hawaited⟩
    · obtain ⟨B', hadds, hlife⟩ := move_life h.life hm
      exact ⟨B', hadds, hlife, fun t ht => absurd ⟨t, ht⟩ hw⟩
  obtain ⟨B', ⟨hext, hran, hreadings⟩, hlife, hawaited⟩ := hbooks
  refine ⟨B', hext, hrun ▸ hlife, fun t ht => ?_, fun newer r older heq => ?_, fun before t after heq => ?_⟩
  · rcases hran t ht with ht | hc
    · obtain ⟨before, m', after, rfl, hc⟩ := h.ran t ht
      exact ⟨before, m', after ++ [m], by rw [List.append_assoc, List.cons_append], hc⟩
    · exact ⟨moves, m, [], rfl, hc⟩
  · rcases hreadings with hsame | ⟨r₀, hr₀, hmore⟩
    · obtain ⟨before, m', after, rfl, hf, hnewer⟩ := h.readings newer r older (hsame ▸ heq)
      exact ⟨before, m', after ++ [m], by rw [List.append_assoc, List.cons_append], hf, fun r' hr' =>
        (hnewer r' hr').append [m]⟩
    · rw [hmore] at heq
      rcases List.cons_eq_append_iff.mp heq with ⟨rfl, hcons⟩ | ⟨newer', rfl, heq'⟩
      · cases hcons
        exact ⟨moves, m, [], rfl, hr₀, nofun⟩
      · obtain ⟨before, m', after, rfl, hf, hnewer⟩ := h.readings newer' r older heq'
        refine ⟨before, m', after ++ [m], by rw [List.append_assoc, List.cons_append], hf, fun r' hr' => ?_⟩
        rcases List.mem_cons.mp hr' with rfl | hr'
        · exact ⟨after, m, [], rfl, by rwa [List.append_assoc, List.singleton_append]⟩
        · exact (hnewer r' hr').append [m]
  · rcases List.eq_nil_or_concat after with rfl | ⟨after, m', rfl⟩
    · obtain ⟨rfl, hm⟩ := List.append_inj' heq rfl
      exact hawaited t (List.cons.inj hm).1
    · rw [List.concat_eq_append, ← List.cons_append, ← List.append_assoc] at heq
      obtain ⟨rfl, -⟩ := List.append_inj' heq rfl
      exact hext.awaited _ _ (h.awaited before t after rfl)

/-- Books of a whole run, which extend those of its parts. -/
def Chronicles (start : Engine ν α) (moves : List (Move ν α)) (B : Books ν α) : Prop :=
  ∀ before after, moves = before ++ after → ∃ B₀, B₀.Extends B ∧ start.Chronicle before B₀

theorem run_chronicles {start : Engine ν α} (h : start.Chronicle [] B) (hs : start.supervised = true)
    {moves : List (Move ν α)} (hm : ∀ m ∈ moves, m.LeavesDelivery) :
    ∃ B', start.Chronicle moves B' ∧ start.Chronicles moves B' := by
  induction moves using List.reverseRecOn with
  | nil =>
    refine ⟨B, h, fun before after heq => ?_⟩
    obtain ⟨rfl, -⟩ := List.append_eq_nil_iff.mp heq.symm
    exact ⟨B, .refl B, h⟩
  | append_singleton moves m ih =>
    obtain ⟨B', hend, hparts⟩ := ih fun m' hm' => hm m' (List.mem_append_left _ hm')
    have hsupervised := (run_ages h.life.able.sorted moves).2.1.trans hs
    obtain ⟨B'', hext, hstep⟩ := hend.step hsupervised (hm m (List.mem_append_right _ (List.mem_singleton_self _)))
    refine ⟨B'', hstep, fun before after heq => ?_⟩
    rcases List.eq_nil_or_concat after with rfl | ⟨after, m', rfl⟩
    · rw [List.append_nil] at heq
      exact ⟨B'', .refl B'', heq ▸ hstep⟩
    · rw [List.concat_eq_append, ← List.append_assoc] at heq
      obtain ⟨rfl, -⟩ := List.append_inj' heq rfl
      obtain ⟨B₀, hext', h₀⟩ := hparts before after rfl
      exact ⟨B₀, hext'.trans hext, h₀⟩

/-! ## What a run shows -/

/-- It was issued, and has settled. -/
def Settled (e : Engine ν α) (t : SubmissionId) : Prop := e.Issued t ∧ ¬e.completion.Open t

namespace Chronicles

variable {start : Engine ν α} {moves : List (Move ν α)}

theorem told (h : start.Chronicles moves B) (before after : List (Move ν α)) (heq : moves = before ++ after)
    (t : SubmissionId) (o : Outcome) (ht : (start.run before).Told t o) : B.verdict t = some o := by
  obtain ⟨B₀, hext, h₀⟩ := h before after heq
  exact hext.verdict t o (h₀.life.verdict_of_told ht)

/-- A turn that carries an encoded submission carries what the books say. -/
theorem encoded (h : start.Chronicles moves B) (before after : List (Move ν α)) (heq : moves = before ++ after)
    {delay : Nat} {s : Encoded ν} (hs : (delay, .scopesClosed s) ∈ (start.run before).turns ∨
      ∃ o, (delay, .workDone s o) ∈ (start.run before).turns) : B.encoded s.token = some s := by
  obtain ⟨B₀, hext, h₀⟩ := h before after heq
  refine hext.encoded _ _ ?_
  rcases hs with hs | ⟨o, hs⟩
  · exact h₀.life.allows _ (List.mem_map_of_mem hs)
  · have hallows : B₀.Allows (start.run before) (.workDone s o) := h₀.life.allows _ (List.mem_map_of_mem hs)
    exact hallows.1

theorem handed (h : start.Chronicles moves B) (hnone : ∀ t, ¬start.Issued t) (before after : List (Move ν α))
    (heq : moves = before ++ after) (t : SubmissionId) (ht : (start.run before).Issued t) :
    ∃ before' m after' plan, before = before' ++ m :: after' ∧ (start.run before').Submits m plan t := by
  induction before using List.reverseRecOn generalizing after with
  | nil => exact absurd ht (hnone t)
  | append_singleton before m ih =>
    have heq' : moves = before ++ m :: after := by rw [heq, List.append_assoc, List.singleton_append]
    obtain ⟨B₀, -, h₀⟩ := h before (m :: after) heq'
    have hearlier (ht : (start.run before).Issued t) : ∃ before' m' after' plan, before ++ [m] = before' ++
        m' :: after' ∧
        (start.run before').Submits m' plan t := by
      obtain ⟨before', m', after', plan, rfl, hs⟩ := ih (m :: after) heq' ht
      exact ⟨before', m', after' ++ [m], plan, by rw [List.append_assoc, List.cons_append], hs⟩
    rw [run_snoc] at ht
    obtain ⟨n, hn, hlt, rfl⟩ := ht
    by_cases hsame : ((start.run before).move m).session.nextToken = (start.run before).session.nextToken
    · exact hearlier ⟨n, hn, hsame ▸ hlt, rfl⟩
    · obtain ⟨plan, hs⟩ := submits_of_next h₀.life.able hsame
      rw [hs.next.2] at hlt
      rcases Nat.lt_succ_iff_lt_or_eq.mp hlt with hlt | rfl
      · exact hearlier ⟨n, hn, hlt, rfl⟩
      · exact ⟨before, m, [], plan, rfl, hs⟩

/-- What comes between two moves lets nothing come back. -/
theorem ages (h : start.Chronicles moves B) (before between after : List (Move ν α))
    (heq : moves = before ++ (between ++ after)) : (start.run before).Ages (start.run (before ++ between)) := by
  obtain ⟨B₀, -, h₀⟩ := h before _ heq
  rw [run_append]
  exact (run_ages h₀.life.able.sorted between).1

theorem distinct (h : start.Chronicles moves B) (before : List (Move ν α)) (m : Move ν α)
    (between : List (Move ν α)) (m' : Move ν α) (after : List (Move ν α)) (plan plan' : PlanId)
    (t t' : SubmissionId) (heq : moves = before ++ m :: (between ++ m' :: after))
    (hs : (start.run before).Submits m plan t)
    (hs' : (start.run (before ++ m :: between)).Submits m' plan' t') : t ≠ t' := by
  rintro rfl
  obtain ⟨B₀, -, h₀⟩ := h before _ heq
  have hages := h.ages (before ++ [m]) between (m' :: after) (by rw [heq, List.append_assoc, List.singleton_append])
  rw [run_snoc, List.append_assoc, List.singleton_append] at hages
  exact hs'.fresh (hages.issued t (hs.issued h₀.life.first))

theorem once (h : start.Chronicles moves B) (hs : start.supervised = true) (before : List (Move ν α)) (m : Move ν α)
    (between : List (Move ν α)) (m' : Move ν α) (after : List (Move ν α)) (t : SubmissionId)
    (heq : moves = before ++ m :: (between ++ m' :: after)) (hr : (start.run before).Reaches m t) :
    ((start.run before).Issued t ∨ ∃ plan, (start.run before).Submits m plan t) ∧
      ¬(start.run (before ++ m :: between)).Reaches m' t := by
  obtain ⟨B₀, -, h₀⟩ := h before _ heq
  obtain ⟨B₁, -, h₁⟩ := h [] moves rfl
  have hsupervised : (start.run before).supervised = true := (run_ages h₁.life.able.sorted before).2.1.trans hs
  obtain ⟨hissued, hspent⟩ := hr.spent h₀.life hsupervised
  have hages := h.ages (before ++ [m]) between (m' :: after) (by rw [heq, List.append_assoc, List.singleton_append])
  rw [run_snoc, List.append_assoc, List.singleton_append] at hages
  refine ⟨hr.issued h₀.life, ?_⟩
  rintro (⟨-, -, hu⟩ | ⟨job, plan, hr'⟩)
  · exact hspent (hages.unawaited t hissued hu)
  · have hsubmits : (start.run (before ++ m :: between)).Submits m' plan t := .inr ⟨job, hr'⟩
    exact hsubmits.fresh (hages.issued t hissued)

/-- What a call was answered that waited by hand. -/
theorem answered (h : start.Chronicle moves B) {before after : List (Move ν α)}
    (heq : moves = before ++ .call (.wait t) :: after) {r : Except Failure (JobValue ν α)}
    (hr : ((start.run before).jobs.size, r) ∈ (start.run moves).settled) : B.Answers t r := by
  have hawaited := h.awaited before t after heq
  rcases h.life.answered _ hr with ⟨job, hj, hw⟩ | ⟨-, t', ht', hanswers⟩
  · have hwait := h.life.awaited _ _ hawaited
    rw [show (start.run moves).jobs[(start.run before).jobs.size]? = some job from hj] at hwait
    cases hwait
    cases hw
  · rw [hawaited] at ht'
    cases ht'
    exact hanswers

theorem ended (h : start.Chronicles moves B) (before : List (Move ν α)) (m : Move ν α) (after : List (Move ν α))
    (t : SubmissionId) (o : Outcome) (heq : moves = before ++ m :: after)
    (htakes : (start.run before).Takes m (.finished t o)) (hp : (start.run before).Pending t) :
    B.verdict t = some (o.mapError Failure.asError) := by
  obtain ⟨B₀, -, h₀⟩ := h before _ heq
  obtain ⟨B₁, hext, h₁⟩ := h (before ++ [m]) after (by rw [heq, List.append_assoc, List.singleton_append])
  have hlife := h₁.life
  rw [run_snoc] at hlife
  rcases (start.run before).move_cases m with ⟨op, rfl⟩ | ⟨x, delay, rest, htakes', hperm, hmove⟩ | ⟨hnone, -⟩
  · exact htakes.elim
  · obtain rfl : x = .finished t o := htakes'.unique htakes
    have htaken := h₀.life.take hperm
    obtain ⟨pool, hpool, hfinish⟩ := finish_eq htaken.able t
    have hdone : ((start.run before).move m) = ({ ({ start.run before with turns := rest } : Engine ν α) with
        pool
        session := { (start.run before).session with
          pending := (start.run before).session.pending.filter (·.1 != t) } } : Engine ν α).schedule 3
            (.reported t o) := by
      rw [hmove]
      show Engine.finished _ t o = _
      unfold Engine.finished
      rw [hfinish]
    rw [hdone] at hlife
    have hallows := hlife.allows (.reported t o)
        (List.mem_map_of_mem (List.mem_append_right _ (List.mem_singleton_self _)))
    exact hext.verdict t _ (hallows.2 (h₀.life.pending t hp))
  · exact absurd htakes (hnone _)

theorem lost (h : start.Chronicles moves B) (before : List (Move ν α)) (m : Move ν α) (after : List (Move ν α))
    (reason message : String) (heq : moves = before ++ m :: after)
    (htakes : (start.run before).Takes m (.lossSeen reason message))
    (hphase : (start.run before).session.phase ≠ .destroyed) :
    ∃ failure : Failure, failure = .of (.deviceLostBecause reason message) ∧ failure.code? = some .deviceLost ∧
      (∀ t, (start.run before).Pending t → B.verdict t = some (.error failure) ∧
        (start.run (before ++ [m])).Told t (.error failure)) ∧
      ∀ t, ¬(start.run before).Pending t →
        (start.run (before ++ [m])).completion.status t = (start.run before).completion.status t := by
  obtain ⟨B₀, -, h₀⟩ := h before _ heq
  rcases (start.run before).move_cases m with ⟨op, rfl⟩ | ⟨x, delay, rest, htakes', hperm, hmove⟩ | ⟨hnone, -⟩
  · exact htakes.elim
  · obtain rfl : x = .lossSeen reason message := htakes'.unique htakes
    have htaken := (h₀.life.take hperm).drop (.inl rfl)
    have habandoned := (lossSeen_life htaken reason message).2 hphase
    have hrun : start.run (before ++ [m]) = Engine.lossSeen { start.run before with turns := rest }
        reason message :=
      (start.run_append before [m]).trans hmove
    rw [hrun]
    refine ⟨_, rfl, rfl, fun t hp => ?_, fun t hp => habandoned.other t hp⟩
    have htold := habandoned.told t hp hp
    exact ⟨h.told (before ++ [m]) after (by rw [heq, List.append_assoc, List.singleton_append]) t _ (hrun ▸ htold),
      htold⟩
  · exact absurd htakes (hnone _)

end Chronicles

theorem Opened.chronicle {start : Engine ν α} (h : start.Opened)
    (hd : ∀ x ∈ start.pool.device.faults, x.1 ∉ deliveryCalls) : start.Chronicle [] {} :=
  ⟨h.life hd, fun _ ht => ht.elim, fun newer r older heq => (by cases newer <;> cases heq),
    fun before _ after heq => by cases before <;> cases heq⟩

namespace Waited

def uploading : Plan Int Bool := ⟨[.upload ⟨.number 0, .number 0⟩ ⟨0, #[]⟩], [], 1, 1, 0⟩

def start : Engine Int Bool :=
  { bare { limits := .standard } {} with
    pool := ⟨{ options := ({} : EngineOptions Int).arena "Session" }, { limits := .standard }⟩
    config := Config.standard.update {}
    supervised := true }

def submitted : List (Move Int Bool) :=
  [.call (.allocate .params 32), .call (.takePlan uploading), .call (.submit 0)]

def wait : Move Int Bool := .call (.wait (.number 1))

def lost : List (Move Int Bool) := [.call (.lose "gone"), .turn 1]

def slot (i : Nat) : Handle := ⟨.number i, .number 0⟩

end Waited

end Strata.Engine
