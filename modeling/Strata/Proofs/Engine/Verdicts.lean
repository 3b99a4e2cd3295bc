import Strata.Proofs.Engine.Books

/-!
# What submissions come to

A submission is carried from its scopes to the queue, through its downloads and to its outcome. It settles once,
with what was decided when it stopped to be pending (`Life.decide`), and those who wait are told of that.
-/

namespace Strata

variable {ν α : Type}

namespace Engine

variable {B B' : Books ν α} {e e' : Engine ν α} {hand hand' : List (Turn ν α)}

section
variable [Measure ν]

/-! ### On the way to an outcome -/

theorem Life.holdBack {s : Encoded ν} (h : e.Life B (.workDone s (.ok ()) :: hand)) :
    ({ e with heldBack := e.heldBack ++ [s] } : Engine ν α).Life B hand := by
  have hway : (({ e with heldBack := e.heldBack ++ [s] } : Engine ν α).underway hand).Perm
      (e.underway (.workDone s (.ok ()) :: hand)) := by
    unfold Engine.underway due
    rw [List.map_append, ← List.append_assoc]
    exact List.perm_append_comm
  exact { h.drop (.inl rfl) with
    able := ⟨h.able.pool, h.able.sorted⟩
    once := hway.nodup_iff.mpr h.once
    underway := fun t ht => h.underway t (hway.subset ht)
    held := fun s' hs' => by
      rcases List.mem_append.mp hs' with hs' | hs'
      · exact h.held s' hs'
      · rw [List.mem_singleton.mp hs']
        exact h.allows _ (List.mem_cons_self ..) }

theorem Life.release {s : Encoded ν} {rest : List (Encoded ν)} (h : e.Life B hand) (hs : e.heldBack = s :: rest) :
    ({ e with heldBack := rest } : Engine ν α).Life B (.workDone s (.ok ()) :: hand) := by
  have hway : (({ e with heldBack := rest } : Engine ν α).underway (.workDone s (.ok ()) :: hand)).Perm
      (e.underway hand) := by
    unfold Engine.underway due
    rw [hs]
    exact List.perm_middle.symm
  exact { h with
    able := ⟨h.able.pool, h.able.sorted⟩
    once := hway.nodup_iff.mpr h.once
    underway := fun t ht => h.underway t (hway.subset ht)
    coming := fun t ht => (h.coming t ht).imp_right fun ⟨o, ho⟩ => ⟨o, List.mem_cons_of_mem _ ho⟩
    allows := fun x hx => by
      rcases List.mem_cons.mp hx with rfl | hx
      · exact h.held s (hs ▸ List.mem_cons_self ..)
      · exact h.allows x hx
    held := fun s' hs' => h.held s' (hs ▸ List.mem_cons_of_mem _ hs') }

theorem Life.reject {x : Turn ν α} {t : SubmissionId} (h : e.Life B [x]) (hx : x.reports = false)
    (ht : x.carried? = some t) {failure : Failure} (hf : B.Owns t (.error failure)) :
    (e.reject t failure).Life B [] := by
  have hrejected : e.Life B [.rejected t failure] := h.carry hx ht.symm hf
  exact hrejected.schedule 1

omit [Measure ν] in
theorem captured?_classify (e : Engine ν α) (f : Failure) : (e.classify f).captured? = f.captured? := by
  unfold classify
  cases f with
  | engine complaint cause => rfl
  | bare | aborted =>
    dsimp only
    split <;> rfl
  | host error =>
    cases error with
    | coded => rfl
    | plain | range | malformed | mistyped =>
      dsimp only
      split <;> rfl

theorem scopesClosed_life {s : Encoded ν} (h : e.Life B [.scopesClosed s]) : (e.scopesClosed s).Life B [] := by
  have hs : B.encoded s.token = some s := h.allows _ (List.mem_cons_self ..)
  obtain ⟨-, -, hsilent⟩ := h.encoded _ s hs
  have howns {f : Failure} (hf : f.captured? = none) : B.Owns s.token (.error f) := .of_uncaptured (.error hf)
  have hfail {f : Failure} (hf : f.captured? = none) : (e.schedule 1 (.finished s.token (.error f))).Life B [] :=
    Life.schedule (x := .finished s.token (.error f)) (h.carry rfl rfl ⟨nofun, howns hf⟩) 1
  unfold scopesClosed
  split
  · rename_i f _ hv _
    exact hfail (hsilent.validation f hv)
  · rename_i f _ _ hm _
    exact hfail (hsilent.memory f hm)
  · rename_i f _ _ hds
    exact hfail ((e.captured?_classify f).trans (hsilent.downloads f hds))
  · rename_i f _ hv _
    exact h.reject rfl rfl (howns (hsilent.validation f hv))
  · rename_i f _ _ hm _
    exact h.reject rfl rfl (howns (hsilent.memory f hm))
  · rename_i v m ds hv hm hds
    have hrest := Device.Rests.takeFault e.pool.device .workDone
    have hgoes (device : Device ν α) (hd : e.pool.device.Rests device) {o : Outcome} (ho : Uncaptured o) :
        (e.setDevice device).Life B [.workDone s o] :=
      (h.setDevice hd).carry rfl rfl ⟨hs, ho, v, m, ds, hv, hm, hds⟩
    split
    all_goals
      rename_i heq
      rw [heq] at hrest
    · exact (hgoes _ hrest (.error (Failure.captured?_ofRaised _))).schedule 1
    · dsimp only
      split
      · exact (hgoes _ hrest (.ok ())).holdBack
      · exact (hgoes _ hrest (.ok ())).schedule 1

theorem nextDownload_life {x : Turn ν α} {t : SubmissionId} {rest : List (Download ν)} (h : e.Life B [x])
    (hx : x.reports = false) (ht : x.carried? = some t) (hr : B.Reads t rest) :
    (e.nextDownload t rest).Life B [] := by
  cases rest with
  | nil =>
    have hdone : e.Life B [.finished t (.ok ())] := h.carry hx ht.symm ⟨fun _ => hr, .of_uncaptured (.ok ())⟩
    exact hdone.schedule 2
  | cons d rest =>
    have hrest := Device.Rests.mapBuffer e.pool.device d.buffer
    unfold nextDownload
    dsimp only
    generalize e.pool.device.mapBuffer d.buffer = r at hrest
    obtain ⟨result, device⟩ := r
    have hmapped : (e.setDevice device).Life B [.mapped t (d :: rest) (result.mapError .ofRaised)] :=
      (h.setDevice hrest).carry hx ht.symm ⟨hr, .raised result⟩
    exact hmapped.schedule 1

end

end Engine

def Books.run (B : Books ν α) (t : SubmissionId) : Books ν α := { B with ran := fun x => x = t ∨ B.ran x }

theorem Books.extends_run (B : Books ν α) (t : SubmissionId) : B.Extends (B.run t) :=
  { Books.Extends.refl B with ran := fun _ h => .inr h }

def Books.read (B : Books ν α) (r : Reading ν α) : Books ν α := { B with readings := r :: B.readings }

theorem Books.extends_read (B : Books ν α) (r : Reading ν α) : B.Extends (B.read r) :=
  { Books.Extends.refl B with readings := List.suffix_cons .. }

/-- The first of the downloads that are left is read. -/
theorem Books.Reads.read {B : Books ν α} {t : SubmissionId} {d : Download ν} {rest : List (Download ν)}
    (h : B.Reads t (d :: rest)) {values : Array α} : (B.read ⟨t, d, values⟩).Reads t rest := by
  obtain ⟨hran, s, fetched, hs, hclean, hf⟩ := h
  refine ⟨hran, s, fetched ++ [d], hs, by simpa using hclean, fun x hx => ?_⟩
  rcases List.mem_append.mp hx with hx | hx
  · exact (hf x hx).imp fun _ => List.mem_cons_of_mem _
  · rw [List.mem_singleton.mp hx]
    exact ⟨values, List.mem_cons_self ..⟩

namespace Engine

variable {B B' : Books ν α} {e e' : Engine ν α} {hand hand' : List (Turn ν α)}

section
variable [Measure ν]

theorem Life.run (h : e.Life B hand) {t : SubmissionId} (ht : e.Issued t) : e.Life (B.run t) hand := by
  have hbooks := B.extends_run t
  have hallows {x : Turn ν α} (hx : B.Allows e x) : (B.run t).Allows e x := by
    cases x with
    | mapped => exact ⟨hx.1.extends hbooks, hx.2⟩
    | finished => exact Books.Fits.extends hx hbooks
    | _ => exact hx
  exact { h with
    ran := fun x hx => hx.elim (fun heq => heq ▸ ht) (h.ran x)
    allows := fun x hx => hallows (h.allows x hx)
    verdicts := fun x o hv => by
      obtain ⟨hi, hp, hfits⟩ := h.verdicts x o hv
      exact ⟨hi, hp, hfits.extends hbooks⟩ }

/-- A submission has run only if a ready session learns that the queue is done with it. -/
theorem workDone_life {s : Encoded ν} {o : Outcome} (h : e.Life B [.workDone s o]) :
    ∃ B', B.Adds B' (fun t => t = s.token ∧ o = .ok () ∧ e.session.phase = .ready) (fun _ => False) ∧
      (e.workDone s o).Life B' [] := by
  have hkeep {e' : Engine ν α} (h' : e'.Life B []) :
      ∃ B', B.Adds B' (fun t => t = s.token ∧ o = .ok () ∧ e.session.phase = .ready) (fun _ => False) ∧
        e'.Life B' [] :=
    ⟨B, (Books.Keeps.refl B).adds, h'⟩
  have hallows : B.Allows e (.workDone s o) := h.allows _ (List.mem_cons_self ..)
  obtain ⟨hs, ho, v, m, ds, hv, hm, hds⟩ := hallows
  -- What is captured is told in the name of the submission it was captured for.
  have howns {c : Complaint} (filter : ScopeFilter) {message : String}
      (hc : (Failure.of c).captured? = some (filter, message))
      (hcaptured : s.captured filter = .ok (some message)) : B.Owns s.token (.error (.of c)) :=
        fun f _ _ hf hf' => by
    cases hf
    cases hc.symm.trans hf'
    exact ⟨s, hs, hcaptured⟩
  unfold workDone
  split
  · exact hkeep (h.reject rfl rfl (.of_uncaptured ho))
  · split
    · exact hkeep (h.reject rfl rfl (.of_uncaptured (.error rfl)))
    · rename_i hready
      split
      · rename_i hmemory
        exact hkeep (h.reject rfl rfl (howns .outOfMemory rfl hmemory))
      · rename_i hvalidation _
        exact hkeep (h.reject rfl rfl (howns .validation rfl hvalidation))
      · rename_i hmemory hvalidation
        have hclean : s.Clean ds := by
          refine ⟨?_, ?_, hds⟩
          · cases v with
            | none => exact hv
            | some message => exact absurd hv (hvalidation message)
          · cases m with
            | none => exact hm
            | some message => exact absurd hm (hmemory message)
        refine ⟨B.run s.token, ⟨B.extends_run _, fun t ht => ?_, .inl rfl⟩, ?_⟩
        · exact ht.symm.imp_right fun ht => ⟨ht, rfl, not_not.mp hready⟩
        · rw [hds]
          have hissued := h.issued (List.mem_cons_self ..) (x := .workDone s _) rfl
          exact nextDownload_life (h.run hissued) rfl rfl ⟨.inl rfl, s, [], hs, hclean, nofun⟩

/-- A download that is mapped is read, and its array has room for what is read. -/
structure Copies [Channel α] [Stored α] (e : Engine ν α) (x : Turn ν α) (r : Reading ν α) : Prop where
  turn : ∃ rest, x = .mapped r.token (r.download :: rest) (.ok ())
  values : ∃ length, Measure.toLength? r.download.bytes = some length ∧ length % 4 = 0 ∧
    r.values = Array.ofFn (n := length / 4) fun i => (e.pool.device.buffers.block r.download.buffer).channelAt i
  room : r.values.size ≤ e.room r.download.target

/-- What is read is put into its array, and what else that array held may be gone. -/
theorem Life.fill (h : e.Life B hand) {r : Reading ν α} (hr : r.values.size ≤ e.room r.download.target) :
    (e.fill r.download.target r.values).Life (B.read r) hand := by
  have hbooks := B.extends_read r
  have hallows {x : Turn ν α} (hx : B.Allows e x) : (B.read r).Allows e x := by
    cases x with
    | mapped => exact ⟨hx.1.extends hbooks, hx.2⟩
    | finished => exact Books.Fits.extends hx hbooks
    | _ => exact hx
  exact { h with
    able := ⟨h.able.pool, h.able.sorted⟩
    allows := fun x hx => hallows (h.allows x hx)
    verdicts := fun x o hv => by
      obtain ⟨hi, hp, hfits⟩ := h.verdicts x o hv
      exact ⟨hi, hp, hfits.extends hbooks⟩
    fetched := fun newer r' older heq hother => by
      rcases List.cons_eq_append_iff.mp heq with ⟨rfl, hcons⟩ | ⟨newer', rfl, heq'⟩
      · cases hcons
        exact contents_fill e hr
      · unfold Fetched
        rw [contents_fill_of_ne e (hother r (List.mem_cons_self ..))]
        exact h.fetched newer' r' older heq' fun x hx => hother x (List.mem_cons_of_mem _ hx) }

section
variable [Channel α] [Stored α]

/-- Only what a turn maps is read by it. -/
theorem mapped_life {t : SubmissionId} {ds : List (Download ν)} {o : Outcome} (h : e.Life B [.mapped t ds o]) :
    ∃ B', B.Adds B' (fun _ => False) (e.Copies (.mapped t ds o)) ∧ (e.mapped t ds o).Life B' [] := by
  have hallows : B.Allows e (.mapped t ds o) := h.allows _ (List.mem_cons_self ..)
  obtain ⟨hreads, ho⟩ := hallows
  have hkeep {e' : Engine ν α} (h' : e'.Life B []) :
      ∃ B', B.Adds B' (fun _ => False) (e.Copies (.mapped t ds o)) ∧ e'.Life B' [] :=
    ⟨B, (Books.Keeps.refl B).adds, h'⟩
  have hraised {e' : Engine ν α} {B' : Books ν α} {x : Turn ν α} (h' : e'.Life B' [x]) (hx : x.reports = false)
      (hx' : x.carried? = some t) (raised : Raised) : (e'.reject t (.ofRaised raised)).Life B' [] :=
    h'.reject hx hx' (.of_uncaptured (.error (Failure.captured?_ofRaised raised)))
  unfold mapped
  split
  · exact hkeep (h.reject rfl rfl (.of_uncaptured ho))
  · exact hkeep (nextDownload_life h rfl rfl hreads)
  · rename_i d rest
    have hrange := Device.Rests.call e.pool.device .mappedRange (f := id) Device.Rests.refl
    split
    · rename_i heq
      rw [heq] at hrange
      exact hkeep (hraised (h.setDevice hrange) rfl rfl _)
    · rename_i device heq
      rw [heq] at hrange
      have hset : (e.setDevice device).Life B [.mapped t (d :: rest) (.ok ())] := h.setDevice hrange
      dsimp only
      split
      · exact hkeep (hraised hset rfl rfl _)
      · rename_i values hvalues
        obtain ⟨length, hlength, haligned, hroom, hread⟩ := readMapped_ok hvalues
        rw [show device.buffers = e.pool.device.buffers from hrange.buffers] at hread
        have hsize : values.size = length / 4 := hread ▸ Array.size_ofFn
        let r : Reading ν α := ⟨t, d, values⟩
        have hfill := hset.fill (r := r) (hsize ▸ hroom)
        have hadds : B.Adds (B.read r) (fun _ => False) (e.Copies (.mapped t (d :: rest) (.ok ()))) :=
          ⟨B.extends_read r,
            fun _ => .inl, .inr ⟨r, ⟨⟨rest, rfl⟩, ⟨length, hlength, haligned, hread⟩, hsize ▸ hroom⟩, rfl⟩⟩
        have hunmap := Device.Rests.call device .unmapBuffer (f := id) Device.Rests.refl
        have hset' (device' : Device ν α) (hd : device.Rests device') :
            (((e.setDevice device).fill d.target values).setDevice device').Life (B.read r)
              [.mapped t (d :: rest) (.ok ())] :=
          hfill.setDevice hd
        split
        all_goals
          rename_i heq
          rw [heq] at hunmap
          refine ⟨B.read r, hadds, ?_⟩
        · exact hraised (hset' _ hunmap) rfl rfl _
        · exact nextDownload_life (hset' _ hunmap) rfl rfl hreads.read

end

/-! ### Outcomes -/

theorem finish_eq (h : e.Able deliveryCalls) (t : SubmissionId) : ∃ pool, pool.Able deliveryCalls ∧
    e.finish t = (.ok (), { e with pool, session := { e.session with
      pending := e.session.pending.filter (·.1 != t) } }) := by
  obtain ⟨hok, hsession⟩ := finish_spec h (by simp [deliveryCalls]) t
  have hable := (finish_able h t).pool
  refine ⟨(e.finish t).2.pool, hable, Prod.ext hok ?_⟩
  unfold finish at hsession ⊢
  split
  · rename_i hnone
    rw [hnone] at hsession
    rw [← hsession]
  · rfl

omit [Measure ν] in
theorem mem_pending_filter {t x : SubmissionId} (pool : Pool ν α) : ({ e with pool, session := { e.session with
    pending := e.session.pending.filter (·.1 != t) } } : Engine ν α).Pending x ↔ e.Pending x ∧ x ≠ t := by
  simp [Pending]

omit [Measure ν] in
theorem wake_eq (e : Engine ν α) (t : SubmissionId) (woken : List (JobId × Outcome)) : e.wake t woken =
    { e with turns := e.turns ++ woken.map fun w => (e.completion.wakeTurns, .collected w.1 t w.2) } := by
  unfold wake
  induction woken generalizing e with
  | nil => simp
  | cons w woken ih =>
    refine (ih _).trans ?_
    simp [schedule]

end

end Engine

def Books.judge (B : Books ν α) (t : SubmissionId) (v : Outcome) : Books ν α :=
  { B with verdict := fun x => if x = t then some v else B.verdict x }

def Books.close (B : Books ν α) (t : SubmissionId) : Books ν α := { B with closed := fun x => x = t ∨ B.closed x }

theorem Books.extends_judge {B : Books ν α} {t : SubmissionId} {v : Outcome}
    (h : ∀ o, B.verdict t = some o → o = v) : B.Extends (B.judge t v) :=
  { Books.Extends.refl B with
    verdict := fun x o hx => by
      unfold judge
      dsimp only
      split
      · rename_i heq
        subst heq
        rw [h o hx]
      · exact hx }

theorem Books.verdict_judge {B : Books ν α} {t x : SubmissionId} {v o : Outcome}
    (h : (B.judge t v).verdict x = some o) : x = t ∧ o = v ∨ x ≠ t ∧ B.verdict x = some o := by
  unfold judge at h
  dsimp only at h
  split at h
  · exact .inl ⟨‹_›, (Option.some.inj h).symm⟩
  · exact .inr ⟨‹_›, h⟩

theorem Books.extends_close (B : Books ν α) (t : SubmissionId) : B.Extends (B.close t) :=
  { Books.Extends.refl B with closed := fun _ h => .inr h }

namespace Engine

variable {B B' : Books ν α} {e e' : Engine ν α} {hand hand' : List (Turn ν α)}

/-- An outcome of a submission is kept, or on its way to a call. -/
def Told (e : Engine ν α) (t : SubmissionId) (o : Outcome) : Prop :=
  e.completion.status t = .kept o ∨ ∃ delay j, (delay, .collected j t o) ∈ e.turns

/-- A submission has settled, and is pending no more. -/
def decided (e : Engine ν α) (pool : Pool ν α) (t : SubmissionId) (v : Outcome) : Engine ν α :=
  { e with
    pool
    session := { e.session with pending := e.session.pending.filter (·.1 != t) }
    completion := (e.completion.settle t v).2 }.wake t (e.completion.settle t v).1

section
variable [Measure ν] {t : SubmissionId} {v : Outcome} {ws : List JobId} {pool : Pool ν α}

namespace Decided

omit [Measure ν] in
theorem eq (hsane : e.completion.Sane) (hws : e.completion.status t = .waiting ws) : e.decided pool t v = { e with
    pool
    session := { e.session with pending := e.session.pending.filter (·.1 != t) }
    completion := (e.completion.settle t v).2
    turns := e.turns ++ ws.map fun j => ((e.completion.settle t v).2.wakeTurns, .collected j t v) } := by
  unfold decided
  rw [wake_eq, (Completion.settle_spec hsane hws v).2.1, List.map_map]
  rfl

omit [Measure ν] in
theorem opens (h : e.completion.Sane) (hopen : e.completion.Open t) (x : SubmissionId) :
    (e.completion.settle t v).2.Open x ↔ x ≠ t ∧ e.completion.Open x := by
  obtain ⟨ws, hws⟩ := hopen
  obtain ⟨-, -, hstatus, hother⟩ := Completion.settle_spec h hws v
  unfold Completion.Open
  by_cases hx : x = t
  · subst hx
    refine ⟨fun ⟨ws', hws'⟩ => ?_, fun ho => absurd rfl ho.1⟩
    rcases hstatus with hs | ⟨hs, -⟩
    · cases hs.symm.trans hws'
    · cases hs.symm.trans hws'
  · rw [hother x hx]
    exact ⟨fun ho => ⟨hx, ho⟩, fun ho => ho.2⟩

omit [Measure ν] in
theorem due (hsane : e.completion.Sane) (hws : e.completion.status t = .waiting ws) :
    (e.decided pool t v).due hand = e.due hand ++ ws.map fun j => .collected j t v := by
  rw [eq hsane hws]
  unfold Engine.due
  rw [List.map_append, List.map_map, List.append_assoc]
  rfl

omit [Measure ν] in
theorem underway (hsane : e.completion.Sane) (hws : e.completion.status t = .waiting ws) :
    (e.decided pool t v).underway hand = e.underway hand := by
  have hsilent : (ws.map fun j => (Turn.collected j t v : Turn ν α)).filterMap Turn.carried? = [] := by
    simp [Turn.carried?]
  unfold Engine.underway
  rw [due hsane hws, eq hsane hws, List.filterMap_append, hsilent, List.append_nil]

theorem onward (h : e.Life B hand) (hopen : e.completion.Open t) (hv : ∀ o, B.verdict t = some o → o = v) :
    e.Onward B ((B.judge t v).close t) (e.decided pool t v) := by
  have hopens := opens (v := v) h.sane hopen
  obtain ⟨ws, hws⟩ := hopen
  rw [eq h.sane hws]
  exact ⟨(Books.extends_judge hv).trans (Books.extends_close _ t),
    fun x _ hp => ((mem_pending_filter pool).mp hp).1, fun x _ ho => ((hopens x).mp ho).2, fun _ _ hu => hu,
    fun _ hj => hj, fun _ hj => hj⟩

theorem recorded (h : e.Life B hand) (hws : e.completion.status t = .waiting ws) :
    (e.decided pool t v).Recorded ((B.judge t v).close t) t := by
  obtain ⟨-, -, hstatus, -⟩ := Completion.settle_spec h.sane hws v
  have hclosed : ¬(e.completion.settle t v).2.Open t := fun ho => ((opens h.sane ⟨ws, hws⟩ t).mp ho).1 rfl
  have hissued := (h.recorded t).issued_of_open ⟨ws, hws⟩
  rw [eq h.sane hws]
  exact {
    known := .inr hissued
    pending := fun hp => absurd rfl ((mem_pending_filter pool).mp hp).2
    closed := iff_of_true (.inl rfl) ⟨hissued, hclosed⟩
    kept := fun o ho => by
      rcases hstatus with hs | ⟨hs, -⟩
      · cases hs.symm.trans ho
        exact if_pos rfl
      · cases hs.symm.trans ho
    offered := fun hu => by
      rcases hstatus with hs | ⟨-, hne⟩
      · exact .inr ⟨v, hs⟩
      · exact absurd ((h.recorded t).waiters_of_offered hu hws) hne
    waiters := fun ws' hws' => absurd ⟨ws', hws'⟩ hclosed }

omit [Measure ν] in
theorem untouched (hsane : e.completion.Sane) (hws : e.completion.status t = .waiting ws) {x : SubmissionId}
    (hx : x ≠ t) : e.Untouched B ((B.judge t v).close t) (e.decided pool t v) x := by
  obtain ⟨-, -, -, hother⟩ := Completion.settle_spec hsane hws v
  rw [eq hsane hws]
  exact ⟨hother x hx, Iff.rfl, fun hp => ((mem_pending_filter pool).mp hp).1, id, or_iff_right hx⟩

end Decided

/-- A submission settles with the outcome it comes to, and is pending no more. -/
theorem Life.decide (h : e.Life B hand) (hopen : e.completion.Open t) (hv : e.Pending t ∨ B.verdict t = some v)
    (hfits : B.Fits t v) (hpool : pool.Able deliveryCalls) :
    B.Extends ((B.judge t v).close t) ∧ (e.decided pool t v).Life ((B.judge t v).close t) hand := by
  have hjudged (o : Outcome) (ho : B.verdict t = some o) : o = v := by
    rcases hv with hp | hv
    · exact absurd hp (h.verdicts t o ho).2.1
    · exact Option.some.inj (ho.symm.trans hv)
  have honward : e.Onward B ((B.judge t v).close t) (e.decided pool t v) := Decided.onward h hopen hjudged
  have hopens := Decided.opens (v := v) h.sane hopen
  obtain ⟨ws, hws⟩ := hopen
  -- all that is said of one submission: the one that settles, and the others
  have hrecorded (x : SubmissionId) : (e.decided pool t v).Recorded ((B.judge t v).close t) x := by
    by_cases hx : x = t
    · subst hx
      exact Decided.recorded h hws
    · exact h.untouched honward (Decided.untouched h.sane hws hx)
  have hissued : e.Issued t := (h.recorded t).issued_of_open ⟨ws, hws⟩
  have hself : ((B.judge t v).close t).verdict t = some v := if_pos rfl
  have hdue : (e.decided pool t v).due hand = _ := Decided.due h.sane hws
  have hway : (e.decided pool t v).underway hand = _ := Decided.underway h.sane hws
  rw [Decided.eq h.sane hws] at honward hdue hway hrecorded ⊢
  refine ⟨honward.books, ?_⟩
  exact {
    able := ⟨hpool, h.able.sorted⟩
    sane := (Completion.settle_spec h.sane hws v).1
    first := h.first
    once := hway ▸ h.once
    underway := fun x hx => h.underway x (hway ▸ hx)
    known := fun x => (hrecorded x).known
    encoded := h.encoded
    ran := h.ran
    pending := fun x => (hrecorded x).pending
    coming := fun x hx => by
      obtain ⟨hne, hx⟩ := (hopens x).mp hx
      refine (h.coming x hx).imp (fun hp => (mem_pending_filter pool).mpr ⟨hp, hne⟩) fun ⟨o, ho⟩ => ⟨o, ?_⟩
      rw [hdue]
      exact List.mem_append_left _ ho
    closed := fun x => (hrecorded x).closed
    allows := fun x hx => by
      rw [hdue] at hx
      rcases List.mem_append.mp hx with hx | hx
      · exact h.onward_allows honward hx
      · -- Whoever waits is told, and nobody waits for what is still on offer.
        obtain ⟨j, hj, rfl⟩ := List.mem_map.mp hx
        refine ⟨fun ho => ((hopens t).mp ho).1 rfl, fun hu => ?_, hself, honward.heeds (h.waiters t ws hws j hj)⟩
        rw [(h.recorded t).waiters_of_offered hu hws] at hj
        cases hj
    held := h.held
    verdicts := fun x o hx => by
      rcases Books.verdict_judge hx with ⟨rfl, rfl⟩ | ⟨-, hx⟩
      · exact ⟨hissued, fun hp => ((mem_pending_filter pool).mp hp).2 rfl, hfits.extends honward.books⟩
      · obtain ⟨hi, hp, hr⟩ := h.verdicts x o hx
        exact ⟨hi, fun hp' => hp ((mem_pending_filter pool).mp hp').1, hr.extends honward.books⟩
    kept := fun x => (hrecorded x).kept
    nodup := h.nodup
    offered := fun x => (hrecorded x).offered
    waiters := fun x => (hrecorded x).waiters
    awaited := h.awaited
    answered := fun x hx => h.onward_answered honward hx
    fetched := h.fetched }

/-- Whoever waits is told, or the outcome is kept; other submissions stand as they did. -/
theorem Life.decide_told (h : e.Life B hand) (pool : Pool ν α) (hopen : e.completion.Open t) :
    (e.decided pool t v).Told t v ∧ (∀ x ≠ t, (e.decided pool t v).completion.status x = e.completion.status x) ∧
      e.turns ⊆ (e.decided pool t v).turns := by
  obtain ⟨ws, hws⟩ := hopen
  obtain ⟨-, -, hstatus, hother⟩ := Completion.settle_spec h.sane hws v
  rw [Decided.eq h.sane hws]
  refine ⟨?_, hother, List.subset_append_left ..⟩
  rcases hstatus with hs | ⟨-, hne⟩
  · exact .inl hs
  · obtain ⟨j, hj⟩ := List.exists_mem_of_ne_nil ws hne
    exact .inr ⟨_, j, List.mem_append_right _ (List.mem_map_of_mem hj)⟩

/-- A submission that is pending stops to be, and what it comes to is on its way. -/
theorem Life.finish {o : Outcome} (h : e.Life B (.finished t o :: hand)) (hp : e.Pending t)
    (hpool : pool.Able deliveryCalls) :
    B.Extends (B.judge t (o.mapError Failure.asError)) ∧ ({ e with
      pool
      session := { e.session with pending := e.session.pending.filter (·.1 != t) } } : Engine ν α).Life
        (B.judge t (o.mapError Failure.asError)) (.reported t o :: hand) := by
  have hbooks : B.Extends (B.judge t (o.mapError Failure.asError)) :=
    Books.extends_judge fun o' ho' => absurd hp (h.verdicts t o' ho').2.1
  have honward : e.Onward B (B.judge t (o.mapError Failure.asError)) { e with
      pool
      session := { e.session with pending := e.session.pending.filter (·.1 != t) } } :=
    ⟨hbooks, fun x _ hp => ((mem_pending_filter pool).mp hp).1, fun _ _ ho => ho, fun _ _ hu => hu,
      fun _ hj => hj, fun _ hj => hj⟩
  have hallows : B.Allows e (.finished t o) := h.allows _ (List.mem_cons_self ..)
  have hissued : e.Issued t := h.issued (List.mem_cons_self ..) (x := .finished t o) rfl
  exact ⟨hbooks, { h with
    able := ⟨hpool, h.able.sorted⟩
    pending := fun x hx => h.pending x ((mem_pending_filter pool).mp hx).1
    coming := fun x hx => by
      by_cases hne : x = t
      · subst hne
        exact .inr ⟨o, List.mem_cons_self ..⟩
      · refine (h.coming x hx).imp (fun hp => (mem_pending_filter pool).mpr ⟨hp, hne⟩) fun ⟨o', ho'⟩ => ⟨o', ?_⟩
        exact List.mem_cons_of_mem _ ((List.mem_cons.mp ho').resolve_left nofun)
    allows := fun x hx => by
      rcases List.mem_cons.mp hx with rfl | hx
      · exact ⟨fun hp => ((mem_pending_filter pool).mp hp).2 rfl, fun _ => if_pos rfl⟩
      · exact h.onward_allows honward (List.mem_cons_of_mem _ hx)
    held := fun s hs => h.held s hs
    verdicts := fun x o' hx => by
      rcases Books.verdict_judge hx with ⟨rfl, rfl⟩ | ⟨-, hx⟩
      · refine ⟨hissued, fun hp => ((mem_pending_filter pool).mp hp).2 rfl,
          Books.Fits.extends ⟨fun ho => hallows.1 ?_, hallows.2.asError⟩ honward.books⟩
        cases o with
        | ok u => rfl
        | error failure => cases ho
      · obtain ⟨hi, hp, hr⟩ := h.verdicts x o' hx
        exact ⟨hi, fun hp' => hp ((mem_pending_filter pool).mp hp').1, hr.extends honward.books⟩
    kept := fun x o' hx => hbooks.verdict x o' (h.kept x o' hx)
    waiters := fun x ws hx j hj => honward.heeds (h.waiters x ws hx j hj)
    answered := fun x hx => h.onward_answered honward hx }⟩

end

/-- The books of an engine go on to be right; no submission has run and nothing was read meanwhile. -/
def Goes [Measure ν] (B : Books ν α) (e : Engine ν α) : Prop := ∃ B', B.Keeps B' ∧ e.Life B' []

section
variable [Measure ν] {t : SubmissionId}

theorem Life.goes (h : e.Life B []) : e.Goes B := ⟨B, .refl B, h⟩

theorem finished_goes {o : Outcome} (h : e.Life B [.finished t o]) : (e.finished t o).Goes B := by
  obtain ⟨pool, hpool, heq⟩ := finish_eq h.able t
  unfold finished
  rw [heq]
  by_cases hp : e.Pending t
  · obtain ⟨hbooks, hlife⟩ := h.finish hp hpool
    exact ⟨_, ⟨hbooks, fun _ => .inl, .inl rfl⟩, hlife.schedule 3⟩
  · -- It was given up before: its turn goes on, but it has settled.
    have hclosed : ¬e.completion.Open t := by
      intro hopen
      obtain ⟨o', ho'⟩ := (h.coming t hopen).resolve_left hp
      have hdue : .reported t o' ∈ e.turns.map (·.2) := (List.mem_cons.mp ho').resolve_left nofun
      have hnodup : (t :: (e.turns.map (·.2)).filterMap Turn.carried? ++ e.heldBack.map (·.token)).Nodup := h.once
      refine (List.nodup_cons.mp hnodup).1 (List.mem_append_left _ ?_)
      exact List.mem_filterMap.mpr ⟨_, hdue, rfl⟩
    have hfilter : e.session.pending.filter (·.1 != t) = e.session.pending :=
      List.filter_eq_self.mpr fun x hx => bne_iff_ne.mpr fun heq => hp (heq ▸ List.mem_map_of_mem hx)
    have hreported : e.Life B [.reported t o] := h.carry rfl rfl ⟨hp, fun ho => absurd ho hclosed⟩
    let ended : Engine ν α := { e with pool, session := { e.session with
      pending := e.session.pending.filter (·.1 != t) } }
    have hlife : ended.Life B [.reported t o] :=
      hreported.beside ⟨hpool, h.able.sorted⟩ { Beside.refl e with pending := hfilter }
    exact (hlife.schedule 3).goes

theorem reported_goes {o : Outcome} (h : e.Life B [.reported t o]) : (e.reported t o).Goes B := by
  have hallows : B.Allows e (.reported t o) := h.allows _ (List.mem_cons_self ..)
  obtain ⟨hp, hverdict⟩ := hallows
  by_cases hopen : e.completion.Open t
  · have hv := hverdict hopen
    have hpool : e.decided e.pool t (o.mapError Failure.asError) = e.reported t o := by
      have hfilter : e.session.pending.filter (·.1 != t) = e.session.pending :=
        List.filter_eq_self.mpr fun x hx => bne_iff_ne.mpr fun heq => hp (heq ▸ List.mem_map_of_mem hx)
      unfold decided reported
      rw [hfilter]
    obtain ⟨hbooks, hlife⟩ := h.decide hopen (.inr hv) (h.verdicts t _ hv).2.2 h.able.pool
    rw [hpool] at hlife
    refine ⟨_, ⟨hbooks, fun _ => .inl, .inl rfl⟩, hlife.drop (.inr ⟨t, o, rfl, fun ho => ?_⟩)⟩
    exact ((hlife.closed t).mp (.inl rfl)).2 ho
  · have hsame : e.reported t o = e := by
      unfold reported
      rw [Completion.settle_closed hopen]
      rfl
    rw [hsame]
    exact (h.drop (.inr ⟨t, o, rfl, hopen⟩)).goes

/-! ### Waiting -/

theorem Life.settle (h : e.Life B hand) {j : JobId} {r : Except Failure (JobValue ν α)} (hj : B.Heeds e j t)
    (hr : B.Answers t r) : (e.settle j r).Life B hand :=
  { h with
    able := ⟨h.able.pool, h.able.sorted⟩
    answered := fun x hx => by
      rcases List.mem_append.mp hx with hx | hx
      · exact h.answered x hx
      · rw [List.mem_singleton.mp hx]
        exact hj.imp id fun hw => ⟨hw.1, t, hw.2, hr⟩ }

theorem Life.pass (h : e.Life B hand) {j : JobId} {o : Outcome} (hj : B.Heeds e j t)
    (ho : (∃ failure, o = .error failure ∧ failure.code? = some .validation) ∨ B.verdict t = some o) :
    (e.pass j t o).Life B hand := by
  unfold Engine.pass
  split
  · refine h.settle hj ?_
    rcases ho with ⟨failure, rfl, hcode⟩ | hv
    · exact .inl ⟨failure, rfl, hcode⟩
    · exact .inr ⟨o, hv, rfl⟩
  · split
    · exact h.chore (.schedule e 2 _ rfl)
    · exact h.chore (.schedule e 2 _ rfl)
  · exact h

/-- The completion forgets a submission that is not pending and that nobody will wait for. -/
theorem Life.strike (h : e.Life B hand) (hissued : e.Issued t) (hp : ¬e.Pending t) (hu : t ∉ e.session.unawaited)
    {c : Completion JobId} (hsane : c.Sane)
    (hself : c.status t = .absent ∨ c.status t = e.completion.status t ∧ ¬e.completion.Open t)
    (hother : ∀ x ≠ t, c.status x = e.completion.status x) :
    ({ e with completion := c } : Engine ν α).Life (B.close t) hand := by
  -- what is struck was not open, so nobody waits for it
  have hclosed : ¬c.Open t := by
    rintro ⟨ws, hws⟩
    rcases hself with hs | ⟨hs, hclosed⟩
    · cases hs.symm.trans hws
    · exact hclosed ⟨ws, hs.symm.trans hws⟩
  have hopen {x : SubmissionId} (ho : c.Open x) : x ≠ t ∧ e.completion.Open x := by
    have hne : x ≠ t := fun heq => hclosed (heq ▸ ho)
    unfold Completion.Open at ho ⊢
    exact ⟨hne, hother x hne ▸ ho⟩
  have honward : e.Onward B (B.close t) { e with completion := c } :=
    ⟨B.extends_close t, fun _ _ hp => hp, fun _ _ ho => (hopen ho).2, fun _ _ hu => hu,
      fun _ hj => hj, fun _ hj => hj⟩
  have hstruck : ({ e with completion := c } : Engine ν α).Recorded (B.close t) t := {
    known := .inr hissued
    pending := fun hp' => absurd hp' hp
    closed := iff_of_true (.inl rfl) ⟨hissued, hclosed⟩
    kept := fun o ho => by
      rcases hself with hs | ⟨hs, -⟩
      · cases hs.symm.trans ho
      · exact h.kept t o (hs.symm.trans ho)
    offered := fun hu' => absurd hu' hu
    waiters := fun ws hws => absurd ⟨ws, hws⟩ hclosed }
  have hrecorded (x : SubmissionId) : ({ e with completion := c } : Engine ν α).Recorded (B.close t) x := by
    by_cases hx : x = t
    · subst hx
      exact hstruck
    · exact h.untouched honward ⟨hother x hx, Iff.rfl, id, id, or_iff_right hx⟩
  exact { h with
    able := ⟨h.able.pool, h.able.sorted⟩
    sane := hsane
    known := fun x => (hrecorded x).known
    pending := fun x => (hrecorded x).pending
    coming := fun x hx => h.coming x (hopen hx).2
    closed := fun x => (hrecorded x).closed
    allows := fun x hx => h.onward_allows honward hx
    kept := fun x => (hrecorded x).kept
    offered := fun x => (hrecorded x).offered
    waiters := fun x => (hrecorded x).waiters }

theorem Life.forget (h : e.Life B hand) (hissued : e.Issued t) (hclosed : ¬e.completion.Open t)
    (hu : t ∉ e.session.unawaited) {c : Completion JobId} (hsane : c.Sane)
    (hself : c.status t = e.completion.status t ∨ c.status t = .absent)
    (hother : ∀ x ≠ t, c.status x = e.completion.status x) :
    ({ e with completion := c } : Engine ν α).Life B hand := by
  have hbooks : B.close t = B := by
    unfold Books.close
    congr
    funext x
    exact propext ⟨fun hx => hx.elim (fun heq => heq ▸ (h.closed t).mpr ⟨hissued, hclosed⟩) id, .inr⟩
  have hstruck := h.strike hissued (fun hp => hclosed (h.pending t hp)) hu hsane
    (hself.symm.imp_right fun hs => ⟨hs, hclosed⟩) hother
  rwa [hbooks] at hstruck

theorem Life.attend (h : e.Life B hand) (hs : e.completion.status t = .waiting []) (hu : t ∉ e.session.unawaited)
    {j : JobId} (hj : B.Heeds e j t) {c : Completion JobId} (hsane : c.Sane) (hself : c.status t = .waiting [j])
    (hother : ∀ x ≠ t, c.status x = e.completion.status x) :
    ({ e with completion := c } : Engine ν α).Life B hand := by
  have hopen {x : SubmissionId} (ho : c.Open x) : e.completion.Open x := by
    by_cases hx : x = t
    · exact hx ▸ ⟨_, hs⟩
    · unfold Completion.Open at ho ⊢
      exact hother x hx ▸ ho
  have hissued : e.Issued t := (h.recorded t).issued_of_open ⟨_, hs⟩
  have honward : e.Onward B B { e with completion := c } :=
    ⟨.refl B, fun _ _ hp => hp, fun _ _ ho => hopen ho, fun _ _ hu => hu, fun _ hj => hj,
      fun _ hj => hj⟩
  have hheard : ({ e with completion := c } : Engine ν α).Recorded B t := {
    known := .inr hissued
    pending := fun _ => ⟨_, hself⟩
    closed := iff_of_false (fun hc => ((h.closed t).mp hc).2 ⟨_, hs⟩) fun hc => hc.2 ⟨_, hself⟩
    kept := fun o ho => nomatch hself.symm.trans ho
    offered := fun hu' => absurd hu' hu
    waiters := fun ws hws k hk => by
      cases hself.symm.trans hws
      exact List.mem_singleton.mp hk ▸ hj }
  have hrecorded (x : SubmissionId) : ({ e with completion := c } : Engine ν α).Recorded B x := by
    by_cases hx : x = t
    · subst hx
      exact hheard
    · exact h.untouched honward ⟨hother x hx, Iff.rfl, id, id, Iff.rfl⟩
  exact { h with
    able := ⟨h.able.pool, h.able.sorted⟩
    sane := hsane
    known := fun x => (hrecorded x).known
    pending := fun x => (hrecorded x).pending
    coming := fun x hx => h.coming x (hopen hx)
    closed := fun x => (hrecorded x).closed
    allows := fun x hx => h.onward_allows honward hx
    kept := fun x => (hrecorded x).kept
    offered := fun x => (hrecorded x).offered
    waiters := fun x => (hrecorded x).waiters }

theorem collected_life {j : JobId} {o : Outcome} (h : e.Life B [.collected j t o]) :
    (e.collected j t o).Life B [] := by
  have hallows : B.Allows e (.collected j t o) := h.allows _ (List.mem_cons_self ..)
  obtain ⟨hclosed, hu, hv, hj⟩ := hallows
  obtain ⟨hsane, hself, hother⟩ := Completion.collect_spec h.sane t
  exact ((h.drop (.inl rfl)).forget (h.verdicts t o hv).1 hclosed hu hsane hself hother).pass hj (.inr hv)

/-- The first to wait for a submission is met by the completion, everybody else is refused. -/
theorem Life.waitFor (h : e.Life B []) {j : JobId} (hj : B.Heeds e j t) : (e.waitFor j t).Life B [] := by
  unfold Engine.waitFor
  split
  · exact h.pass hj (.inl ⟨_, rfl, rfl⟩)
  · split
    · exact h.pass hj (.inl ⟨_, rfl, rfl⟩)
    · rename_i hu
      rw [not_not] at hu
      have hgone : t ∉ e.session.unawaited.erase t := h.nodup.not_mem_erase
      have htaken : ({ e with session := { e.session with unawaited := e.session.unawaited.erase t } } : Engine ν
          α).Life B [] :=
        h.withdraw (h.nodup.erase t) List.erase_subset
      dsimp only
      rcases h.offered t hu with hs | ⟨o, hs⟩
      · obtain ⟨hsane, hreply, hself, hother⟩ := Completion.wait_waiting h.sane hs j
        have hwaits := htaken.attend hs hgone hj hsane hself hother
        generalize e.completion.wait t j = r at hreply hwaits
        obtain ⟨reply, completion⟩ := r
        cases hreply
        exact hwaits
      · obtain ⟨hsane, hreply, hother⟩ := Completion.wait_kept h.sane hs j
        have hclosed : ¬e.completion.Open t := fun ⟨_, hw⟩ => nomatch hs.symm.trans hw
        have hself : (e.completion.wait t j).2.status t = e.completion.status t ∨
            (e.completion.wait t j).2.status t = .absent :=
          hreply.elim (fun hr => .inr hr.2) fun hr => .inl (hr.2.trans hs.symm)
        have hforgets := htaken.forget (h.verdicts t o (h.kept t o hs)).1 hclosed hgone hsane hself hother
        have hkept : ¬(e.completion.wait t j).2.Open t := fun ⟨_, hw⟩ =>
          hself.elim (fun hs' => nomatch (hs'.trans hs).symm.trans hw) fun hs' => nomatch hs'.symm.trans hw
        generalize e.completion.wait t j = r at hreply hforgets hkept
        obtain ⟨reply, completion⟩ := r
        rcases hreply with ⟨hr, -⟩ | ⟨hr, -⟩
        · cases hr
          exact hforgets.pass hj (.inr (h.kept t o hs))
        · cases hr
          exact (hforgets.put (x := .collected j t o) rfl ⟨hkept, hgone, h.kept t o hs, hj⟩).schedule 1

end

end Engine

def Books.await (B : Books ν α) (j : JobId) (t : SubmissionId) : Books ν α :=
  { B with awaited := fun k => if k = j then some t else B.awaited k }

def Books.encode (B : Books ν α) (s : Encoded ν) : Books ν α :=
  { B with encoded := fun x => if x = s.token then some s else B.encoded x }

namespace Engine

variable {B B' : Books ν α} {e e' : Engine ν α} {hand hand' : List (Turn ν α)}

section
variable [Measure ν] {t : SubmissionId}

theorem Life.addWait (h : e.Life B hand) (t : SubmissionId) :
    B.Extends (B.await e.jobs.size t) ∧ (e.addJob .wait).2.Life (B.await e.jobs.size t) hand ∧
      (B.await e.jobs.size t).Heeds (e.addJob .wait).2 e.jobs.size t := by
  have hfresh (k : JobId) (x : SubmissionId) (hk : B.awaited k = some x) : k < e.jobs.size :=
    (Array.getElem?_eq_some_iff.mp (h.awaited k x hk)).1
  have hbooks : B.Extends (B.await e.jobs.size t) := { Books.Extends.refl B with
    awaited := fun k x hk => by
      have hne : k ≠ e.jobs.size := Nat.ne_of_lt (hfresh k x hk)
      exact (if_neg hne).trans hk }
  have hold {k : JobId} {job : Job ν α} (hk : e.jobs[k]? = some job) : (e.addJob .wait).2.jobs[k]? = some job := by
    obtain ⟨hlt, -⟩ := Array.getElem?_eq_some_iff.mp hk
    unfold Engine.addJob
    rwa [Array.getElem?_push_lt hlt, ← Array.getElem?_eq_getElem hlt]
  have hnew : (e.addJob .wait).2.jobs[e.jobs.size]? = some .wait := Array.getElem?_push_size
  have honward : e.Onward B (B.await e.jobs.size t) (e.addJob .wait).2 :=
    ⟨hbooks, fun _ _ hp => hp, fun _ _ ho => ho, fun _ _ hu => hu, fun _ hj => hj.addJob .wait,
      fun _ hj => hold hj⟩
  refine ⟨hbooks, ?_, .inr ⟨hnew, if_pos rfl⟩⟩
  exact { h with
    able := ⟨h.able.pool, fun j hj => (h.able.sorted j hj).addJob .wait⟩
    allows := fun x hx => h.onward_allows honward hx
    waiters := fun x ws hx j hj => honward.heeds (h.waiters x ws hx j hj)
    awaited := fun k x hk => by
      unfold Books.await at hk
      dsimp only at hk
      split at hk
      · rename_i heq
        rw [heq]
        exact hnew
      · exact hold (h.awaited k x hk)
    answered := fun x hx => h.onward_answered honward hx }

theorem startWait_goes (h : e.Life B []) (t : SubmissionId) : (e.startWait t).2.Goes B := by
  obtain ⟨hbooks, hlife, hheeds⟩ := h.addWait t
  exact ⟨_, ⟨hbooks, fun _ => .inl, .inl rfl⟩, hlife.waitFor hheeds⟩

end

end Engine

end Strata
