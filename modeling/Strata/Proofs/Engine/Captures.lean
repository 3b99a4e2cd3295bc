import Strata.Proofs.Engine.Firing
import Strata.Proofs.Engine.Scopes

/-!
# What a submission comes to by its scopes

While its session is ready, whatever is due for a submission tells of nothing but what was encoded for it
(`Attests`). So what its scopes have captured decides its outcome, and no other's (`scopes_attributed`): a failure
of the encoding comes first, then the memory scope, then the validation scope.
-/

namespace Strata

variable {ν α : Type}

/-- The error that a failure becomes while its session is not lost. -/
def Failure.classified : Failure → Failure
  | engine complaint cause => engine complaint cause
  | host (.coded code message) => host (.coded code message)
  | host (.range message) => engine .ranOutOfMemory (some (.range message))
  | host error => engine .submissionFailed (some error)
  | bare _ | aborted _ => engine .submissionFailed none

theorem Failure.asError_classified (f : Failure) : f.classified.asError = f.classified := by
  cases f with
  | host error => cases error <;> rfl
  | engine | bare | aborted => rfl

theorem Engine.classify_of_ready {e : Engine ν α} (h : e.session.phase = .ready) (f : Failure) :
    e.classify f = f.classified := by
  have hlost : ¬e.session.phase = .lost := fun hl => by cases h.symm.trans hl
  unfold Engine.classify
  cases f with
  | engine => rfl
  | bare | aborted => exact if_neg hlost
  | host error =>
    cases error with
    | coded => rfl
    | plain | range | malformed | mistyped => exact if_neg hlost

/-- What a submission may come to while its session is ready: `worked` says how the queue ended its work. -/
structure Encoded.Decides (s : Encoded ν) (worked : Outcome → Prop) (o : Outcome) : Prop where
  failed : ∀ f, s.downloads = .error f → o = .error f.classified
  worked : ∀ ds, s.downloads = .ok ds → ∃ q, worked q ∧ (∀ f, q = .error f → o = .error f.classified) ∧
    (q = .ok () →
      (∀ message, s.memory = .ok (some message) → ∃ f, o = .error f ∧ f.code? = some .outOfMemory ∧
        f.captured? = some (.outOfMemory, message)) ∧
      (s.memory = .ok none → ∀ message, s.validation = .ok (some message) → ∃ f, o = .error f ∧
        f.code? = some .validation ∧ f.captured? = some (.validation, message)))

namespace Encoded

variable {s : Encoded ν} {worked worked' : Outcome → Prop} {o : Outcome}

theorem Decides.mono (h : s.Decides worked o) (hw : ∀ q, worked q → worked' q) : s.Decides worked' o := by
  refine ⟨h.failed, fun ds hds => ?_⟩
  obtain ⟨q, hq, hrest⟩ := h.worked ds hds
  exact ⟨q, hw q hq, hrest⟩

theorem Decides.asError (h : s.Decides worked o) : s.Decides worked (o.mapError Failure.asError) := by
  have hclassified {f : Failure} (ho : o = .error f.classified) :
      o.mapError Failure.asError = .error f.classified := by
    rw [ho]
    exact congrArg _ f.asError_classified
  have hcaptured {code : ErrorCode} {captured : ScopeFilter × String}
      (ho : ∃ f, o = .error f ∧ f.code? = some code ∧ f.captured? = some captured) :
      ∃ f, o.mapError Failure.asError = .error f ∧ f.code? = some code ∧ f.captured? = some captured := by
    obtain ⟨f, rfl, hcode, hf⟩ := ho
    refine ⟨f.asError, rfl, ?_, f.captured?_asError.trans hf⟩
    cases f <;> exact hcode
  refine ⟨fun f hf => hclassified (h.failed f hf), fun ds hds => ?_⟩
  obtain ⟨q, hq, hfailed, hran⟩ := h.worked ds hds
  exact ⟨q, hq, fun f hf => hclassified (hfailed f hf), fun hok =>
    ⟨fun message hm => hcaptured ((hran hok).1 message hm),
    fun hm message hv => hcaptured ((hran hok).2 hm message hv)⟩⟩

/-- The queue has done its work, and nothing failed or was captured. -/
structure Completes (s : Encoded ν) (worked : Outcome → Prop) : Prop where
  downloads : ∃ ds, s.downloads = .ok ds
  worked : worked (.ok ())
  memory : s.memory = .ok none
  validation : s.validation = .ok none

/-- Reading back may come to anything. -/
theorem Completes.decides (h : s.Completes worked) (o : Outcome) : s.Decides worked o := by
  obtain ⟨ds, hds⟩ := h.downloads
  refine ⟨fun f hf => ?_, fun _ _ => ⟨.ok (), h.worked, fun f hf => ?_, fun _ => ⟨fun message hm => ?_,
    fun _ message hv => ?_⟩⟩⟩
  · cases hds.symm.trans hf
  · cases hf
  · cases h.memory.symm.trans hm
  · cases h.validation.symm.trans hv

/-- What a turn tells of a submission is right, if it is about that submission. -/
def Tells (s : Encoded ν) (worked : Outcome → Prop) : Turn ν α → Prop
  | .scopesClosed s' => s'.token = s.token → s' = s
  | .workDone s' _ => s'.token = s.token → s' = s ∧ ∃ ds, s.downloads = .ok ds
  | .mapped t _ _ => t = s.token → s.Completes worked
  | .rejected t f => t = s.token → s.Decides worked (.error f.classified)
  | .finished t o => t = s.token → s.Decides worked o
  | _ => True

theorem Tells.mono {x : Turn ν α} (h : s.Tells worked x) (hw : ∀ q, worked q → worked' q) : s.Tells worked' x := by
  cases x with
  | mapped => exact fun ht => { h ht with worked := hw _ (h ht).worked }
  | rejected | finished => exact fun ht => (h ht).mono hw
  | scopesClosed | workDone => exact h
  | _ => trivial

theorem tells_of_carried {x : Turn ν α} (hx : x.carried? ≠ some s.token) : s.Tells worked x := by
  cases x with
  | scopesClosed | workDone | mapped | rejected | finished => exact fun ht => absurd (congrArg some ht) hx
  | _ => trivial

theorem tells_of_plain {x : Turn ν α} (hx : x.plain = true) : s.Tells worked x := by
  cases x with
  | scopesClosed | workDone | mapped | rejected | finished => cases hx
  | _ => trivial

end Encoded

namespace Engine

/-- All that is due or held back is right about a submission. -/
structure Attests (e : Engine ν α) (s : Encoded ν) (worked : Outcome → Prop) : Prop where
  turns : ∀ x ∈ e.turns, s.Tells worked x.2
  held : ∀ s' ∈ e.heldBack, s'.token = s.token → s' = s ∧ ∃ ds, s.downloads = .ok ds

variable {e e' : Engine ν α} {s : Encoded ν} {worked worked' : Outcome → Prop}

namespace Attests

theorem mono (h : e.Attests s worked) (hw : ∀ q, worked q → worked' q) : e.Attests s worked' :=
  ⟨fun x hx => (h.turns x hx).mono hw, h.held⟩

theorem puts {P : Turn ν α → Prop} (h : e.Attests s worked) (hp : e.Puts P e') (hP : ∀ x, P x → s.Tells worked x) :
    e'.Attests s worked :=
  ⟨fun x hx => (hp.mem hx).elim (h.turns x) (hP x.2), hp.heldBack ▸ h.held⟩

theorem puts_others {t : SubmissionId} (h : e.Attests s worked) (hp : e.Puts (fun x => x.carried? = some t) e')
    (ht : t ≠ s.token) : e'.Attests s worked :=
  h.puts hp fun _ hx => Encoded.tells_of_carried fun hs => ht (Option.some.inj (hx.symm.trans hs))

theorem schedule (h : e.Attests s worked) (delay : Nat) {x : Turn ν α} (hx : s.Tells worked x) :
    (e.schedule delay x).Attests s worked :=
  h.puts (.schedule (P := s.Tells worked) e delay hx) fun _ => id

theorem setDevice (h : e.Attests s worked) (device : Device ν α) : (e.setDevice device).Attests s worked :=
  ⟨h.turns, h.held⟩

theorem listening (h : e.Attests s worked) (listeners : List (SignalId × JobId × SubmissionId)) :
    ({ e with listeners } : Engine ν α).Attests s worked := ⟨h.turns, h.held⟩

/-! ### What carries the submission -/

theorem scopesClosed (h : e.Attests s worked) (hready : e.session.phase = .ready) {v m : Option String}
    (hv : s.validation = .ok v) (hm : s.memory = .ok m) : (e.scopesClosed s).Attests s worked := by
  unfold Engine.scopesClosed
  split
  · rename_i hval _
    cases hv.symm.trans hval
  · rename_i hmem _
    cases hm.symm.trans hmem
  · rename_i f _ _ hds
    refine h.schedule 1 fun _ => ⟨fun f' hf' => ?_, fun ds hds' => ?_⟩
    · cases hds.symm.trans hf'
      rw [classify_of_ready hready]
    · cases hds.symm.trans hds'
  · rename_i hval _
    cases hv.symm.trans hval
  · rename_i hmem _
    cases hm.symm.trans hmem
  · rename_i ds _ _ hds
    split
    · exact (h.setDevice _).schedule 1 fun _ => ⟨rfl, ds, hds⟩
    · dsimp only
      split
      · refine ⟨h.turns, fun s' hs' => ?_⟩
        rcases List.mem_append.mp hs' with hs' | hs'
        · exact h.held s' hs'
        · rw [List.mem_singleton.mp hs']
          exact fun _ => ⟨rfl, ds, hds⟩
      · exact (h.setDevice _).schedule 1 fun _ => ⟨rfl, ds, hds⟩

theorem nextDownload (h : e.Attests s worked) (hc : s.Completes worked) (rest : List (Download ν)) :
    (e.nextDownload s.token rest).Attests s worked := by
  cases rest with
  | nil => exact h.schedule 2 fun _ => hc.decides _
  | cons d rest => exact (h.setDevice _).schedule 1 fun _ => hc

theorem workDone (h : e.Attests s worked) (hready : e.session.phase = .ready) {v m : Option String}
    (hv : s.validation = .ok v) (hm : s.memory = .ok m) (hds : ∃ ds, s.downloads = .ok ds) {q : Outcome}
    (hw : worked q) : (e.workDone s q).Attests s worked := by
  obtain ⟨ds, hds⟩ := hds
  have hfailed {o : Outcome} : ∀ f, s.downloads = .error f → o = .error f.classified := fun f hf => by
    cases hds.symm.trans hf
  have hran {o : Outcome} : ∀ f, (.ok () : Outcome) = .error f → o = .error f.classified := fun f hf => by cases hf
  unfold Engine.workDone
  split
  · rename_i f
    refine h.schedule 1 fun _ => ⟨hfailed, fun _ _ => ⟨.error f, hw, fun f' hf' => ?_, fun hq => by cases hq⟩⟩
    cases hf'
    rfl
  · rw [if_neg (not_not.mpr hready)]
    split
    · rename_i message hmessage
      refine h.schedule 1 fun _ => ⟨hfailed, fun _ _ => ⟨.ok (), hw, hran, fun _ => ⟨fun message' hm' => ?_,
        fun hnone => by cases hmessage.symm.trans hnone⟩⟩⟩
      cases hmessage.symm.trans hm'
      exact ⟨_, rfl, rfl, rfl⟩
    · rename_i message hmessage hmemory
      refine h.schedule 1 fun _ => ⟨hfailed, fun _ _ => ⟨.ok (), hw, hran, fun _ => ⟨fun message' hm' => ?_,
        fun _ message' hv' => ?_⟩⟩⟩
      · exact absurd hm' (hmemory message')
      · cases hmessage.symm.trans hv'
        exact ⟨_, rfl, rfl, rfl⟩
    · rename_i hmemory hvalidation
      refine h.nextDownload ⟨⟨ds, hds⟩, hw, ?_, ?_⟩ _
      · cases m with
        | none => exact hm
        | some message => exact absurd hm (hmemory message)
      · cases v with
        | none => exact hv
        | some message => exact absurd hv (hvalidation message)

section
variable [Measure ν]

theorem finished (h : e.Attests s worked) (t : SubmissionId) (o : Outcome) : (e.finished t o).Attests s worked := by
  have hfinish := h.puts (finish_puts e t) fun _ => Encoded.tells_of_plain
  unfold Engine.finished
  split
  all_goals
    rename_i heq
    rw [heq] at hfinish
    exact hfinish.schedule _ trivial

variable [Channel α] [Stored α]

theorem mapped (h : e.Attests s worked) (hc : s.Completes worked) (ds : List (Download ν)) (o : Outcome) :
    (e.mapped s.token ds o).Attests s worked := by
  unfold Engine.mapped
  split
  · exact h.schedule 1 fun _ => hc.decides _
  · exact h.nextDownload hc []
  · split
    · exact (h.setDevice _).schedule 1 fun _ => hc.decides _
    · dsimp only
      split
      · exact (h.setDevice _).schedule 1 fun _ => hc.decides _
      · have hfill (device device' : Device ν α) (a : HostArray) (values : Array α) :
            (((e.setDevice device).fill a values).setDevice device').Attests s worked := ⟨h.turns, h.held⟩
        split
        · exact (hfill _ _ _ _).schedule 1 fun _ => hc.decides _
        · exact (hfill _ _ _ _).nextDownload hc _

/-! ### Turns and operations -/

variable [Transfer α]

/-- A turn of a ready session is right about a submission that was right. -/
theorem perform (h : e.Attests s worked) {x : Turn ν α} (hx : s.Tells worked x)
    (hworked : ∀ q, x = .workDone s q → worked q) (hready : e.session.phase = .ready) (htoken : e.token ≠ s.token)
    {v m : Option String} (hv : s.validation = .ok v) (hm : s.memory = .ok m) : (e.perform x).Attests s worked := by
  have hgoes (c : CompositeCall ν α) (job : JobId) (t : SubmissionId) (o : Outcome) :
      s.Tells worked (if c.signal.isSome then .drained job t o else .resumed job t o : Turn ν α) := by
    split <;> trivial
  -- each turn that carries a submission is split by whether it is this one
  cases x with
  | scopesClosed s' =>
    by_cases ht : s'.token = s.token
    · obtain rfl := hx ht
      exact h.scopesClosed hready hv hm
    · obtain ⟨hheld, hp⟩ := scopesClosed_puts e s'
      refine ⟨fun y hy => ?_, fun s'' hs'' => ?_⟩
      · refine (hp.mem hy).elim (h.turns y) fun hy => Encoded.tells_of_carried fun hs => ht ?_
        exact Option.some.inj (hy.symm.trans hs)
      · rcases hheld with hheld | hheld
        · exact h.held s'' (hheld ▸ hs'')
        · rcases List.mem_append.mp (hheld ▸ hs'') with hs'' | hs''
          · exact h.held s'' hs''
          · rw [List.mem_singleton.mp hs'']
            exact fun ht' => absurd ht' ht
  | workDone s' q =>
    by_cases ht : s'.token = s.token
    · obtain ⟨rfl, hds⟩ := hx ht
      exact h.workDone hready hv hm hds (hworked q rfl)
    · exact h.puts_others (workDone_puts e s' q) ht
  | mapped t ds o =>
    by_cases ht : t = s.token
    · subst ht
      exact h.mapped (hx rfl) ds o
    · exact h.puts_others (mapped_puts e t ds o) ht
  | rejected t f =>
    refine h.schedule 1 fun ht => ?_
    rw [classify_of_ready hready]
    exact hx ht
  | finished t o => exact h.finished t o
  | planned job =>
    have hp := planned_puts (P := s.Tells worked) e job (fun _ => Encoded.tells_of_plain)
      (fun s' hs' ht => absurd (hs'.symm.trans ht) htoken) fun c _ t o => hgoes c job t o
    exact (h.listening _).puts hp fun _ => id
  | collected job t o =>
    exact h.puts (collected_puts (P := s.Tells worked) e job t o fun c _ => hgoes c job t o) fun _ => id
  | drained job t o =>
    refine (h.listening _).puts (drained_puts e job t o) fun y hy => ?_
    rw [hy.1]
    trivial
  | buildUngated | buildEnded | pipelineArrived | planReady | reported | lossSeen | resumed | attemptEnded =>
    exact h.puts (perform_puts e rfl) fun _ => Encoded.tells_of_plain

theorem apply (h : e.Attests s worked) (htoken : e.token ≠ s.token) (op : Operation ν α) :
    (e.apply op).2.Attests s worked := by
  cases hrelays : op.relays with
  | false => exact h.puts (apply_puts e hrelays) fun _ => Encoded.tells_of_plain
  | true =>
    unfold Engine.apply
    split
    · exact h
    · cases op with
      | submit plan =>
        exact h.puts (submit_puts e plan) fun x ⟨s', hx, hs'⟩ => hx ▸ fun ht => absurd (hs'.symm.trans ht) htoken
      | newSignal => exact ⟨h.turns, h.held⟩
      | abort signal reason =>
        show (e.abort signal reason).Attests s worked
        unfold abort
        split
        · exact h
        · exact List.foldlRecOn (motive := fun e' : Engine ν α => e'.Attests s worked) _ _ ⟨h.turns, h.held⟩
            fun e' h' _ _ => h'.schedule 1 trivial
      | unhold =>
        refine Attempt.andThen_keeps (P := fun e' : Engine ν α => e'.Attests s worked) ⟨h.turns, h.held⟩
          fun _ _ => ?_
        exact List.foldlRecOn (motive := fun e' : Engine ν α => e'.Attests s worked) _ _
          ⟨h.turns, fun s' hs' => absurd hs' List.not_mem_nil⟩ fun e' h' s' hs' => h'.schedule 1 (h.held s' hs')
      | _ => cases hrelays

theorem move (h : e.Attests s worked) {m : Move ν α} (hmono : ∀ q, worked q → worked' q)
    (hworked : ∀ q, e.Takes m (.workDone s q) → worked' q) (hready : e.session.phase = .ready)
    (htoken : e.token ≠ s.token) {v w : Option String} (hv : s.validation = .ok v) (hw : s.memory = .ok w) :
    (e.move m).Attests s worked' := by
  have h' := h.mono hmono
  rcases e.move_cases m with ⟨op, rfl⟩ | ⟨x, delay, rest, htakes, hperm, heq⟩ | ⟨-, turns, hperm, heq⟩
  · exact h'.apply htoken op
  · rw [heq]
    have hrest : ({ e with turns := rest } : Engine ν α).Attests s worked' :=
      ⟨fun y hy => h'.turns y (hperm.symm.subset (List.mem_cons_of_mem _ hy)), h'.held⟩
    have hx := h'.turns _ (hperm.symm.subset (List.mem_cons_self ..))
    exact hrest.perform hx (fun q hq => hworked q (hq ▸ htakes)) hready htoken hv hw
  · rw [heq]
    refine ⟨fun y hy => ?_, h'.held⟩
    obtain ⟨z, hz, hzy⟩ := List.mem_map.mp (hperm.subset (List.mem_map_of_mem hy))
    exact hzy ▸ h'.turns z hz

end

end Attests

end Engine

end Strata
