import Strata.Proofs.Engine.Queue

/-!
# Every turn comes up

Turns are put at the end of the queue and fired at its head, so each is run in the end (`comes_up`). A submission
that has not settled has a turn that carries it or is held back, and each turn that carries it leaves one of lower
rank: fired long enough, the queue settles whatever is not held back (`Sustains.settles`).
-/

namespace Strata

variable {ν α : Type}

/-- How far a submission is from its outcome. -/
def Turn.rank : Turn ν α → Nat
  | scopesClosed s => 6 + (s.downloads.toOption.getD []).length
  | workDone s _ => 5 + (s.downloads.toOption.getD []).length
  | mapped _ ds _ => 4 + ds.length
  | rejected .. => 3
  | finished .. => 2
  | reported .. => 1
  | _ => 0

def Turn.mayHold : Turn ν α → Bool
  | scopesClosed _ => true
  | _ => false

theorem Turn.token_of_carried {x : Turn ν α} {t : SubmissionId} (hx : x.carried? = some t) : x.token? = some t := by
  cases x <;> first | exact hx | cases hx

namespace Engine

variable {e : Engine ν α} {t : SubmissionId}

/-! ## What carries a submission -/

/-- A submission has a turn that carries it, of less than some rank. -/
def Carries (e : Engine ν α) (t : SubmissionId) (rank : Nat) : Prop :=
  ∃ delay y, (delay, y) ∈ e.turns ∧ y.carried? = some t ∧ y.mayHold = false ∧ y.rank < rank

def HoldsBack (e : Engine ν α) (t : SubmissionId) : Prop :=
  ∃ s ∈ e.heldBack, s.token = t ∧ ∃ ds, s.downloads = .ok ds

theorem Carries.mono {rank rank' : Nat} (h : e.Carries t rank) (hle : rank ≤ rank') : e.Carries t rank' := by
  obtain ⟨delay, y, hmem, hy, hhold, hrank⟩ := h
  exact ⟨delay, y, hmem, hy, hhold, Nat.lt_of_lt_of_le hrank hle⟩

theorem Carries.schedule (e : Engine ν α) (delay : Nat) {y : Turn ν α} {rank : Nat} (hy : y.carried? = some t)
    (hhold : y.mayHold = false) (hrank : y.rank < rank) : (e.schedule delay y).Carries t rank :=
  ⟨delay, y, List.mem_append_right _ (List.mem_singleton_self _), hy, hhold, hrank⟩

theorem scopesClosed_carries (e : Engine ν α) (s : Encoded ν) :
    (e.scopesClosed s).HoldsBack s.token ∨
    (e.scopesClosed s).Carries s.token (Turn.scopesClosed (α := α) s).rank := by
  have hrank {n : Nat} (hn : n < 6) : n < (Turn.scopesClosed (α := α) s).rank :=
    Nat.lt_of_lt_of_le hn (Nat.le_add_right ..)
  unfold scopesClosed
  split
  · exact .inr (.schedule e 1 rfl rfl (hrank (n := 2) (by decide)))
  · exact .inr (.schedule e 1 rfl rfl (hrank (n := 2) (by decide)))
  · exact .inr (.schedule e 1 rfl rfl (hrank (n := 2) (by decide)))
  · exact .inr (.schedule e 1 rfl rfl (hrank (n := 3) (by decide)))
  · exact .inr (.schedule e 1 rfl rfl (hrank (n := 3) (by decide)))
  · rename_i ds _ _ hds
    split
    · exact .inr (.schedule _ 1 rfl rfl (Nat.add_lt_add_right (by decide) _))
    · dsimp only
      split
      · exact .inl ⟨s, List.mem_append_right _ (List.mem_singleton_self _), rfl, ds, hds⟩
      · exact .inr (.schedule _ 1 rfl rfl (Nat.add_lt_add_right (by decide) _))

theorem nextDownload_carries (e : Engine ν α) (t : SubmissionId) (ds : List (Download ν)) {rank : Nat}
    (hrank : 4 + ds.length < rank) : (e.nextDownload t ds).Carries t rank := by
  cases ds with
  | nil => exact .schedule e 2 rfl rfl (Nat.lt_trans (show 2 < 4 by decide) hrank)
  | cons d rest => exact .schedule _ 1 rfl rfl hrank

theorem workDone_carries (e : Engine ν α) (s : Encoded ν) (o : Outcome) :
    (e.workDone s o).Carries s.token (Turn.workDone (α := α) s o).rank := by
  have hrank : 3 < (Turn.workDone (α := α) s o).rank := Nat.lt_of_lt_of_le (by decide) (Nat.le_add_right ..)
  unfold workDone
  split
  · exact .schedule e 1 rfl rfl hrank
  · split
    · exact .schedule e 1 rfl rfl hrank
    · split
      · exact .schedule e 1 rfl rfl hrank
      · exact .schedule e 1 rfl rfl hrank
      · exact nextDownload_carries e _ _ (Nat.add_lt_add_right (by decide) _)

theorem reported_closed (hs : e.completion.Sane) (o : Outcome) : ¬(e.reported t o).completion.Open t := by
  rw [show (e.reported t o).completion = (e.completion.settle t (o.mapError Failure.asError)).2 from
    congrArg Engine.completion (wake_eq _ t _)]
  by_cases hopen : e.completion.Open t
  · obtain ⟨ws, hws⟩ := hopen
    obtain ⟨-, -, hstatus, -⟩ := Completion.settle_spec hs hws (o.mapError Failure.asError)
    rintro ⟨ws', hws'⟩
    rcases hstatus with hstatus | ⟨hstatus, -⟩ <;> cases hstatus.symm.trans hws'
  · rwa [Completion.settle_closed hopen]

variable [Measure ν]

theorem finished_carries (e : Engine ν α) (t : SubmissionId) (o : Outcome) : (e.finished t o).Carries t 2 := by
  unfold finished
  split
  · exact .schedule _ 3 rfl rfl (show 1 < 2 by decide)
  · exact .schedule _ 1 rfl rfl (show 1 < 2 by decide)

variable [Channel α] [Stored α]

theorem mapped_carries (e : Engine ν α) (t : SubmissionId) (ds : List (Download ν)) (o : Outcome) :
    (e.mapped t ds o).Carries t (Turn.mapped (α := α) t ds o).rank := by
  have hrank : 3 < (Turn.mapped (α := α) t ds o).rank := Nat.lt_of_lt_of_le (by decide) (Nat.le_add_right ..)
  unfold mapped
  split
  · exact .schedule e 1 rfl rfl hrank
  · exact .schedule e 2 rfl rfl (Nat.lt_trans (show 2 < 3 by decide) hrank)
  · rename_i d rest
    split
    · exact .schedule _ 1 rfl rfl hrank
    · dsimp only
      split
      · exact .schedule _ 1 rfl rfl hrank
      · split
        · exact .schedule _ 1 rfl rfl hrank
        · exact nextDownload_carries _ t rest (Nat.add_lt_add_left (Nat.lt_succ_self _) _)

variable [Transfer α]


/-- A turn that carries a submission leaves one that is nearer to its outcome, unless it settles it or holds it
back. -/
theorem perform_carries (hs : e.completion.Sane) {x : Turn ν α} (hx : x.carried? = some t) :
    ¬(e.perform x).completion.Open t ∨ x.mayHold = true ∧ (e.perform x).HoldsBack t ∨
    (e.perform x).Carries t x.rank := by
  cases x with
  | scopesClosed s =>
    cases hx
    exact .inr ((scopesClosed_carries e s).imp_left fun h => ⟨rfl, h⟩)
  | workDone s o =>
    cases hx
    exact .inr (.inr (workDone_carries e s o))
  | mapped t ds o =>
    cases hx
    exact .inr (.inr (mapped_carries e t ds o))
  | rejected t failure =>
    cases hx
    exact .inr (.inr (.schedule e 1 rfl rfl (show 2 < 3 by decide)))
  | finished t o =>
    cases hx
    exact .inr (.inr (finished_carries e t o))
  | reported t o =>
    cases hx
    exact .inl (reported_closed hs o)
  | buildUngated | buildEnded | pipelineArrived | planReady | planned | lossSeen | collected | drained | resumed
    | attemptEnded => cases hx

/-! ## The order of the queue -/

theorem planned_appends (e : Engine ν α) (job : JobId) : ∃ more, (e.planned job).turns = e.turns ++ more := by
  have hleave {e' : Engine ν α} (h : ∃ more, e'.turns = e.turns ++ more) (owned : List Handle)
      (result : Except Failure (Raster ν α)) : ∃ more, (e'.leave job owned result).turns = e.turns ++ more := by
    obtain ⟨more, hmore⟩ := h
    obtain ⟨more', hmore', -⟩ := (leave_puts e' job owned result).turns
    exact ⟨more ++ more', by rw [hmore', hmore, List.append_assoc]⟩
  have hkept : ∃ more, e.turns = e.turns ++ more := ⟨[], (List.append_nil _).symm⟩
  unfold planned
  split
  · split
    · exact hleave hkept _ _
    · rename_i plan _
      split
      · exact hleave hkept _ _
      · obtain ⟨more, hmore, -⟩ := (submit_bystands e plan).turns
        split
        all_goals
          rename_i heq
          rw [heq] at hmore
        · exact hleave ⟨more, hmore⟩ _ _
        · obtain ⟨more', hmore', -⟩ := (waitFor_bystands _ job _).turns
          refine ⟨more ++ more', ?_⟩
          rw [hmore', ← List.append_assoc, ← hmore]
          split <;> rfl
    · exact hkept
  · exact hkept

theorem perform_appends (e : Engine ν α) (x : Turn ν α) : ∃ more, (e.perform x).turns = e.turns ++ more := by
  have hstands {e' : Engine ν α} (h : e.Bystands e') : ∃ more, e'.turns = e.turns ++ more := by
    obtain ⟨more, hmore, -⟩ := h.turns
    exact ⟨more, hmore⟩
  have hputs (hx : x.relays = false) : ∃ more, (e.perform x).turns = e.turns ++ more := by
    obtain ⟨more, hmore, -⟩ := (perform_puts e hx).turns
    exact ⟨more, hmore⟩
  cases x with
  | planned job => exact planned_appends e job
  | scopesClosed s => exact hstands (scopesClosed_bystands e s)
  | workDone s o => exact hstands (workDone_bystands e s o)
  | mapped t ds o => exact hstands (mapped_bystands e t ds o)
  | rejected t failure => exact ⟨_, rfl⟩
  | finished t o => exact hstands (finished_bystands e t o)
  | collected job t o => exact hstands (collected_bystands e job t o)
  | drained job t o => exact hstands (drained_bystands e job t o)
  | buildUngated | buildEnded | pipelineArrived | planReady | reported | lossSeen | resumed | attemptEnded =>
    exact hputs rfl

def fires (e : Engine ν α) (n : Nat) : Engine ν α := e.run (List.replicate n .fire)

theorem fires_add (e : Engine ν α) (m n : Nat) : e.fires (m + n) = (e.fires m).fires n := by
  unfold fires
  rw [← List.replicate_append_replicate, run_append]

theorem fires_due {n delay : Nat} {x : Turn ν α} {rest : List (Nat × Turn ν α)}
    (hn : (e.fires n).turns = (delay, x) :: rest)
    (hdue : delay ≤ 1) : e.fires (n + 1) = ({ e.fires n with turns := rest } : Engine ν α).perform x := by
  rw [fires_add]
  show (e.fires n).fire = _
  simp [fire, hn, hdue]

theorem fire_appends {y : Nat × Turn ν α} {rest : List (Nat × Turn ν α)} (h : e.turns = y :: rest) :
    ∃ more, e.fire.turns = rest ++ more := by
  unfold fire
  rw [h]
  dsimp only
  split
  · exact perform_appends { e with turns := rest } y.2
  · exact ⟨_, rfl⟩

theorem comes_first {before after : List (Nat × Turn ν α)} {y : Nat × Turn ν α}
    (h : e.turns = before ++ y :: after) : ∃ n rest, (e.fires n).turns = y :: rest := by
  induction before generalizing e after with
  | nil => exact ⟨0, after, h⟩
  | cons z before ih =>
    obtain ⟨more, hmore⟩ := fire_appends h
    have hmore : e.fire.turns = before ++ y :: (after ++ more) := hmore.trans (List.append_assoc ..)
    obtain ⟨n, rest, hn⟩ := ih hmore
    exact ⟨n + 1, rest, hn⟩

/-- A turn that is put back comes to the head again, with less to wait for. -/
theorem comes_up {delay : Nat} {x : Turn ν α} (h : (delay, x) ∈ e.turns) :
    ∃ n delay' rest, (e.fires n).turns = (delay', x) :: rest ∧ delay' ≤ 1 := by
  induction delay generalizing e with
  | zero =>
    obtain ⟨before, after, heq⟩ := List.append_of_mem h
    obtain ⟨n, rest, hn⟩ := comes_first heq
    exact ⟨n, 0, rest, hn, Nat.zero_le 1⟩
  | succ delay ih =>
    obtain ⟨before, after, heq⟩ := List.append_of_mem h
    obtain ⟨n, rest, hn⟩ := comes_first heq
    by_cases hdue : delay + 1 ≤ 1
    · exact ⟨n, delay + 1, rest, hn, hdue⟩
    · have hback : (e.fires n).fire.turns = rest ++ [(delay, x)] := by
        simp [fire, hn, hdue, schedule]
      obtain ⟨n', delay', rest', hn', hdue'⟩ := ih (hback ▸ List.mem_append_right _ (List.mem_singleton_self _))
      refine ⟨n + (n' + 1), delay', rest', ?_, hdue'⟩
      rw [fires_add]
      exact hn'

theorem fires_life {B : Books ν α} (h : e.Life B []) (n : Nat) : ∃ B', (e.fires n).Life B' [] := by
  induction n generalizing e B with
  | zero => exact ⟨B, h⟩
  | succ n ih =>
    obtain ⟨B', -, hlife⟩ := move_life h (m := .fire) trivial
    exact ih hlife

/-! ## Settling -/

/-- A turn that carries a submission is run, and leaves one that is nearer to its outcome. -/
theorem carries_on {B : Books ν α} (h : e.Life B []) {delay : Nat} {y : Turn ν α} (hmem : (delay, y) ∈ e.turns)
    (hy : y.carried? = some t) : ∃ n B', (e.fires n).Life B' [] ∧
      ((e.fires n).Settled t ∨ y.mayHold = true ∧ (e.fires n).HoldsBack t ∨ (e.fires n).Carries t y.rank) := by
  obtain ⟨n, delay', rest, hn, hdue⟩ := comes_up hmem
  obtain ⟨B₀, h₀⟩ := fires_life h n
  obtain ⟨B', h'⟩ := fires_life h (n + 1)
  have hissued : e.Issued t := h.issued (List.mem_map_of_mem hmem) (Turn.token_of_carried hy)
  have hsane : ({ e.fires n with turns := rest } : Engine ν α).completion.Sane := h₀.sane
  have hnext := perform_carries hsane hy
  rw [← fires_due hn hdue] at hnext
  exact ⟨n + 1, B', h', hnext.imp_left fun hclosed => ⟨(run_ages h.able.sorted _).1.issued t hissued, hclosed⟩⟩

/-- A submission that has a turn past the point where it may be held back settles. -/
theorem Carries.settles {B : Books ν α} {rank : Nat} (h : e.Life B []) (hc : e.Carries t rank) :
    ∃ n, (e.fires n).Settled t := by
  induction rank generalizing e B with
  | zero =>
    obtain ⟨delay, y, -, -, -, hy⟩ := hc
    exact absurd hy (Nat.not_lt_zero _)
  | succ rank ih =>
    obtain ⟨delay, y, hmem, hy, hhold, hrank⟩ := hc
    obtain ⟨n, B', h', hsettled | ⟨hmay, -⟩ | hnext⟩ := carries_on h hmem hy
    · exact ⟨n, hsettled⟩
    · cases hhold.symm.trans hmay
    · obtain ⟨n', hn'⟩ := ih h' (hnext.mono (Nat.le_of_lt_succ hrank))
      exact ⟨n + n', by rw [fires_add]; exact hn'⟩

/-! ## What is held back -/

theorem perform_holds (e : Engine ν α) (x : Turn ν α) : e.heldBack ⊆ (e.perform x).heldBack := by
  have hput {P : Turn ν α → Prop} {e' : Engine ν α} (h : e.Puts P e') : e.heldBack ⊆ e'.heldBack :=
    h.heldBack ▸ List.Subset.refl _
  cases x with
  | planned job =>
    exact (planned_puts (P := fun _ => True) e job (fun _ _ => trivial) (fun _ _ => trivial)
      fun _ _ _ _ => trivial).heldBack ▸ List.Subset.refl _
  | scopesClosed s =>
    rcases (scopesClosed_puts e s).1 with hsame | hsame
    · exact fun x hx => hsame ▸ hx
    · exact fun x hx => hsame ▸ List.mem_append_left _ hx
  | workDone s o => exact hput (workDone_puts e s o)
  | mapped t ds o => exact hput (mapped_puts e t ds o)
  | rejected t failure => exact List.Subset.refl _
  | finished t o => exact hput (finished_puts e t o)
  | collected job t o =>
    exact hput (collected_puts (P := fun _ => True) e job t o fun _ _ => trivial)
  | drained job t o => exact (drained_puts e job t o).heldBack ▸ List.Subset.refl _
  | buildUngated | buildEnded | pipelineArrived | planReady | reported | lossSeen | resumed | attemptEnded =>
    exact hput (perform_puts e rfl)

theorem apply_holds (e : Engine ν α) {op : Operation ν α} (hop : op ≠ .unhold) :
    (e.apply op).2.heldBack = e.heldBack := by
  cases hrelays : op.relays with
  | false => exact (apply_puts e hrelays).heldBack
  | true =>
    unfold Engine.apply
    split
    · rfl
    · cases op with
      | submit plan => exact (submit_puts e plan).heldBack
      | newSignal => rfl
      | abort signal reason =>
        show (e.abort signal reason).heldBack = _
        unfold abort
        split
        · rfl
        · exact List.foldlRecOn (motive := fun e' : Engine ν α => e'.heldBack = e.heldBack) _ _ rfl
            fun e' h x _ => h
      | unhold => exact absurd rfl hop
      | _ => cases hrelays

omit [Measure ν] [Channel α] [Stored α] [Transfer α] in
theorem unhold_carries (e : Engine ν α) {s : Encoded ν} (hs : s ∈ e.heldBack) :
    (1, .workDone s (.ok ())) ∈ e.unhold.turns ∧ e.turns ⊆ e.unhold.turns ∧ e.unhold.heldBack = [] := by
  have hall (held : List (Encoded ν)) (e' : Engine ν α) :
      (held.foldl (fun e s => e.schedule 1 (.workDone s (.ok ()))) e').turns =
        e'.turns ++ held.map (fun s => (1, .workDone s (.ok ()))) ∧
      (held.foldl (fun e s => e.schedule 1 (.workDone s (.ok ()))) e').heldBack = e'.heldBack := by
    induction held generalizing e' with
    | nil => exact ⟨(List.append_nil _).symm, rfl⟩
    | cons s held ih =>
      obtain ⟨hturns, hheld⟩ := ih (e'.schedule 1 (.workDone s (.ok ())))
      exact ⟨hturns.trans (List.append_assoc ..), hheld⟩
  obtain ⟨hturns, hheld⟩ := hall e.heldBack
    { e with heldBack := [], pool := { e.pool with device := { e.pool.device with held := false } } }
  unfold unhold
  dsimp only
  rw [hturns]
  exact ⟨List.mem_append_right _ (List.mem_map_of_mem hs), List.subset_append_left .., hheld⟩

def Sustains (e : Engine ν α) (t : SubmissionId) : Prop :=
  e.HoldsBack t ∨ ∃ delay y, (delay, y) ∈ e.turns ∧ y.carried? = some t

theorem apply_sustains (hs : e.Sorted) (op : Operation ν α) (ht : e.Sustains t) : (e.apply op).2.Sustains t := by
  by_cases hop : op = .unhold
  · subst hop
    have hunheld {e' : Engine ν α} (ht : e'.Sustains t) : e'.unhold.Sustains t := by
      rcases ht with ⟨s, hs, htoken, -⟩ | ⟨delay, y, hmem, hy⟩
      · exact .inr ⟨1, _, (unhold_carries e' hs).1, congrArg some htoken⟩
      · obtain ⟨more, hmore, -⟩ := (unhold_bystands e').turns
        exact .inr ⟨delay, y, hmore ▸ List.mem_append_left _ hmem, hy⟩
    exact Attempt.andThen_keeps (P := fun e' : Engine ν α => e'.Sustains t) ht fun _ _ => hunheld ht
  · refine ht.imp (fun ⟨s, hs, htoken⟩ => ⟨s, (apply_holds e hop).symm ▸ hs, htoken⟩) fun ⟨delay, y, hmem, hy⟩ => ?_
    have hdeeds := apply_deeds (R := fun _ => True) hs op (fun _ => trivial) (fun _ _ => trivial)
        fun _ _ _ => trivial
    exact ⟨delay, y, hdeeds.retains.turns hmem, hy⟩

theorem move_sustains {B : Books ν α} (h : e.Life B []) (m : Move ν α) (ht : e.Sustains t) :
    (e.move m).Sustains t ∨ ¬(e.move m).completion.Open t := by
  rcases e.move_cases m with ⟨op, rfl⟩ | ⟨x, delay', rest, -, hperm, heq⟩ | ⟨-, turns, hperm, heq⟩
  · refine .inl (apply_sustains h.able.sorted op ht)
  · rw [heq]
    rcases ht with ⟨s, hs, htoken⟩ | ⟨delay, y, hmem, hy⟩
    · exact .inl (.inl ⟨s, perform_holds { e with turns := rest } x hs, htoken⟩)
    · rcases List.mem_cons.mp (hperm.subset hmem) with hsame | hrest
      · cases hsame
        have hsane : ({ e with turns := rest } : Engine ν α).completion.Sane := h.sane
        rcases perform_carries hsane hy with hclosed | ⟨-, hholds⟩ | ⟨delay, z, hz, hcarried, -, -⟩
        · exact .inr hclosed
        · exact .inl (.inl hholds)
        · exact .inl (.inr ⟨delay, z, hz, hcarried⟩)
      · obtain ⟨more, hmore⟩ := perform_appends { e with turns := rest } x
        exact .inl (.inr ⟨delay, y, hmore ▸ List.mem_append_left _ hrest, hy⟩)
  · rw [heq]
    rcases ht with ht | ⟨delay, y, hmem, hy⟩
    · exact .inl (.inl ht)
    · obtain ⟨⟨delay', z⟩, hz, hzy⟩ := List.mem_map.mp (hperm.symm.subset (List.mem_map_of_mem hmem))
      cases hzy
      exact .inl (.inr ⟨delay', y, hz, hy⟩)

/-- Fired long enough, the queue settles what is on its way, but for what is held back. -/
theorem Sustains.settles {B : Books ν α} (h : e.Life B []) (ht : e.Sustains t) :
    ∃ n, (e.fires n).Settled t ∨ (e.fires n).HoldsBack t := by
  rcases ht with ht | ⟨delay, y, hmem, hy⟩
  · exact ⟨0, .inr ht⟩
  · obtain ⟨n, B', h', hsettled | ⟨-, hholds⟩ | hnext⟩ := carries_on h hmem hy
    · exact ⟨n, .inl hsettled⟩
    · exact ⟨n, .inr hholds⟩
    · obtain ⟨n', hn'⟩ := hnext.settles h'
      exact ⟨n + n', .inl (by rw [fires_add]; exact hn')⟩

/-- What is held back settles once the queue goes on. -/
theorem HoldsBack.settles {B : Books ν α} (h : e.Life B []) (ht : e.HoldsBack t)
    (hok : (e.apply .unhold).1 = .ok .done) : ∃ n, ((e.move (.call .unhold)).fires n).Settled t := by
  obtain ⟨B', -, h'⟩ := move_life h (m := .call .unhold) trivial
  obtain ⟨s, hs, htoken, -⟩ := ht
  have hcarries : (e.move (.call .unhold)).Carries t ((Turn.workDone (α := α) s (.ok ())).rank + 1) := by
    have happly : e.apply .unhold = (e.onDeviceCall .unhold id).andThen fun _ e => e.unhold.replyDone := rfl
    have hmove : e.move (.call .unhold) = (e.apply .unhold).2 := rfl
    rw [hmove, happly]
    rw [happly] at hok
    unfold onDeviceCall at hok ⊢
    generalize e.pool.device.call .unhold id = r at hok ⊢
    obtain ⟨r, device⟩ := r
    cases r with
    | error raised => cases hok
    | ok u =>
      exact ⟨1, _, (unhold_carries (e.setDevice device) hs).1, congrArg some htoken, rfl, Nat.lt_succ_self _⟩
  exact hcarries.settles h'

end Engine

end Strata
