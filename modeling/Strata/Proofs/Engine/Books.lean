import Strata.Proofs.Engine.Able
import Strata.Proofs.Engine.Arrays
import Strata.Proofs.Engine.Delivery

/-!
# The life of a submission

`Books` say what is known of submissions and waits over a run, and what was read for their downloads; the engine
itself does not look at them. `Life` is what they have to do with an engine: each submission is carried by at most
one turn at a time, its outcome is decided once, when it stops to be pending, and nobody is told of anything else.
Nor is anybody told of what a scope captured that is not the submission's own. What was read for a download stands
in its target until something else is read into it (`Fetched`).
-/

namespace Strata

variable {ν α : Type}

/-- The submission that a turn carries towards its outcome. -/
def Turn.carried? : Turn ν α → Option SubmissionId
  | scopesClosed s | workDone s _ => some s.token
  | mapped token .. | rejected token _ | finished token _ | reported token _ => some token
  | _ => none

/-- The turn tells the outcome of a submission. -/
def Turn.reports : Turn ν α → Bool
  | reported .. => true
  | _ => false

/-- Nothing failed while a submission was encoded, its scopes captured nothing, and some downloads are to be read.
-/
def Encoded.Clean (s : Encoded ν) (downloads : List (Download ν)) : Prop :=
  s.validation = .ok none ∧ s.memory = .ok none ∧ s.downloads = .ok downloads

/-- What a failure says that a scope has captured. -/
def Failure.captured? : Failure → Option (ScopeFilter × String)
  | engine (.capturedValidation message) _ => some (.validation, message)
  | engine (.capturedOutOfMemory message) _ => some (.outOfMemory, message)
  | _ => none

/-- What failed, if anything, was not captured by a scope. -/
def Uncaptured {β : Type} (r : Except Failure β) : Prop := ∀ f, r = .error f → f.captured? = none

namespace Encoded

/-- What the scope captured in which a submission was encoded. -/
def captured (s : Encoded ν) : ScopeFilter → Except Failure (Option String)
  | .validation => s.validation
  | .outOfMemory => s.memory
  | .internal => .ok none

structure Uncaptured (s : Encoded ν) : Prop where
  validation : Strata.Uncaptured s.validation
  memory : Strata.Uncaptured s.memory
  downloads : Strata.Uncaptured s.downloads

end Encoded

/-- A download of a submission was read, and these are the channels that its buffer held. -/
structure Reading (ν α : Type) where
  token : SubmissionId
  download : Download ν
  values : Array α

structure Books (ν α : Type) where
  encoded : SubmissionId → Option (Encoded ν) := fun _ => none
  /-- The queue has run it. -/
  ran : SubmissionId → Prop := fun _ => False
  /-- What it comes to. -/
  verdict : SubmissionId → Option Outcome := fun _ => none
  /-- It has settled. -/
  closed : SubmissionId → Prop := fun _ => False
  /-- What is waited for by a call that does nothing else. -/
  awaited : JobId → Option SubmissionId := fun _ => none
  /-- What was read, the latest first. -/
  readings : List (Reading ν α) := []

namespace Books

/-- Nothing is ever struck out. -/
structure Extends (B B' : Books ν α) : Prop where
  encoded : ∀ t s, B.encoded t = some s → B'.encoded t = some s
  ran : ∀ t, B.ran t → B'.ran t
  verdict : ∀ t o, B.verdict t = some o → B'.verdict t = some o
  closed : ∀ t, B.closed t → B'.closed t
  awaited : ∀ j t, B.awaited j = some t → B'.awaited j = some t
  readings : B.readings <:+ B'.readings

variable {B B' B'' : Books ν α}

theorem Extends.refl (B : Books ν α) : B.Extends B :=
  ⟨fun _ _ h => h, fun _ h => h, fun _ _ h => h, fun _ h => h, fun _ _ h => h, List.suffix_refl _⟩

theorem Extends.trans (h : B.Extends B') (h' : B'.Extends B'') : B.Extends B'' where
  encoded t s := h'.encoded t s ∘ h.encoded t s
  ran t := h'.ran t ∘ h.ran t
  verdict t o := h'.verdict t o ∘ h.verdict t o
  closed t := h'.closed t ∘ h.closed t
  awaited j t := h'.awaited j t ∘ h.awaited j t
  readings := h.readings.trans h'.readings

/-- Nothing is struck out; what is added to the submissions that have run is among `ran`, and one thing at most was
read, which is as `read` says. -/
structure Adds (B B' : Books ν α) (ran : SubmissionId → Prop) (read : Reading ν α → Prop) : Prop where
  books : B.Extends B'
  ran : ∀ t, B'.ran t → B.ran t ∨ ran t
  readings : B'.readings = B.readings ∨ ∃ r, read r ∧ B'.readings = r :: B.readings

/-- Nothing is struck out, and nothing has run or was read meanwhile. -/
def Keeps (B B' : Books ν α) : Prop := B.Adds B' (fun _ => False) fun _ => False

theorem Keeps.refl (B : Books ν α) : B.Keeps B := ⟨.refl B, fun _ => .inl, .inl rfl⟩

theorem Keeps.adds (h : B.Keeps B') {ran : SubmissionId → Prop} {read : Reading ν α → Prop} : B.Adds B' ran read :=
  ⟨h.books, fun t ht => (h.ran t ht).imp_right False.elim, h.readings.imp_right fun ⟨_, hr, _⟩ => hr.elim⟩

theorem Keeps.trans (h : B.Keeps B') (h' : B'.Keeps B'') : B.Keeps B'' where
  books := h.books.trans h'.books
  ran t ht := (h'.ran t ht).elim (h.ran t) .inr
  readings := by
    rcases h'.readings with heq | ⟨_, hr, -⟩
    · exact heq ▸ h.readings
    · exact hr.elim

theorem Adds.mono {ran ran' : SubmissionId → Prop} {read read' : Reading ν α → Prop} (h : B.Adds B' ran read)
    (hran : ∀ t, ran t → ran' t) (hread : ∀ r, read r → read' r) : B.Adds B' ran' read' :=
  ⟨h.books, fun t ht => (h.ran t ht).imp_right (hran t), h.readings.imp_right
    fun ⟨r, hr, heq⟩ => ⟨r, hread r hr, heq⟩⟩

end Books

namespace Engine

/-- A token that was handed out. -/
def Issued (e : Engine ν α) (t : SubmissionId) : Prop := ∃ n, 1 ≤ n ∧ n < e.session.nextToken ∧ t = .number n

def Pending (e : Engine ν α) (t : SubmissionId) : Prop := t ∈ e.session.pending.map (·.1)

/-- Turns to run, those in hand included. -/
def due (e : Engine ν α) (hand : List (Turn ν α)) : List (Turn ν α) := hand ++ e.turns.map (·.2)

def underway (e : Engine ν α) (hand : List (Turn ν α)) : List SubmissionId :=
  (e.due hand).filterMap Turn.carried? ++ e.heldBack.map (·.token)

/-- The target of a download starts with what was read for it. -/
def Fetched (e : Engine ν α) (r : Reading ν α) : Prop := r.values.toList <+: (e.contents r.download.target).toList

end Engine

namespace Books

variable (B : Books ν α) (e : Engine ν α)

/-- A submission that was encoded well has run, and all of its downloads are read but some. -/
def Reads (t : SubmissionId) (rest : List (Download ν)) : Prop :=
  B.ran t ∧ ∃ s fetched, B.encoded t = some s ∧ s.Clean (fetched ++ rest) ∧
    ∀ d ∈ fetched, ∃ values, ⟨t, d, values⟩ ∈ B.readings

/-- An outcome of a submission says of scopes only what its own have captured. -/
def Owns (t : SubmissionId) (o : Outcome) : Prop :=
  ∀ f filter message, o = .error f → f.captured? = some (filter, message) →
    ∃ s, B.encoded t = some s ∧ s.captured filter = .ok (some message)

/-- What a submission may come to. -/
def Fits (t : SubmissionId) (o : Outcome) : Prop := (o = .ok () → B.Reads t []) ∧ B.Owns t o

/-- A call may be told of a submission: it does more than to wait, or waits for this one. -/
def Heeds (j : JobId) (t : SubmissionId) : Prop := e.Busy j ∨ e.jobs[j]? = some .wait ∧ B.awaited j = some t

/-- A wait was refused, or is answered with what the submission came to. -/
def Answers (t : SubmissionId) (r : Except Failure (JobValue ν α)) : Prop :=
  (∃ failure, r = .error failure ∧ failure.code? = some .validation) ∨
    ∃ o, B.verdict t = some o ∧ r = o.map fun _ => .nothing

/-- What a turn asserts about its submission. -/
def Allows : Turn ν α → Prop
  | .scopesClosed s => B.encoded s.token = some s
  | .workDone s o => B.encoded s.token = some s ∧ Uncaptured o ∧
      ∃ v m ds, s.validation = .ok v ∧ s.memory = .ok m ∧ s.downloads = .ok ds
  | .mapped t ds o => B.Reads t ds ∧ Uncaptured o
  | .rejected t f => B.Owns t (.error f)
  | .finished t o => B.Fits t o
  | .reported t o => ¬e.Pending t ∧ (e.completion.Open t → B.verdict t = some (o.mapError Failure.asError))
  | .collected j t o => ¬e.completion.Open t ∧ t ∉ e.session.unawaited ∧ B.verdict t = some o ∧ B.Heeds e j t
  | _ => True

end Books

theorem Failure.captured?_ofRaised (raised : Raised) : (ofRaised raised).captured? = none := by cases raised <;> rfl

theorem Failure.captured?_asError (f : Failure) : f.asError.captured? = f.captured? := by cases f <;> rfl

theorem Uncaptured.ok {β : Type} (x : β) : Uncaptured (.ok x) := fun _ hf => by cases hf

theorem Uncaptured.error {β : Type} {f : Failure} (h : f.captured? = none) :
    Uncaptured (.error f : Except Failure β) :=
  fun _ hf => Except.error.inj hf ▸ h

theorem Uncaptured.map {β γ : Type} {r : Except Failure β} (h : Uncaptured r) (f : β → γ) :
    Uncaptured (r.map f) := by
  cases r with
  | error failure => exact .error (h failure rfl)
  | ok x => exact .ok (f x)

theorem Uncaptured.bind {β γ : Type} {r : Except Failure β} (h : Uncaptured r) {f : β → Except Failure γ}
    (hf : ∀ x, Uncaptured (f x)) : Uncaptured (r >>= f) := by
  cases r with
  | error failure => exact .error (h failure rfl)
  | ok x => exact hf x

theorem Uncaptured.raised {β : Type} (r : Except Raised β) : Uncaptured (r.mapError .ofRaised) := by
  cases r with
  | error raised => exact .error (Failure.captured?_ofRaised raised)
  | ok x => exact .ok x

namespace Books

variable {B B' : Books ν α} {t : SubmissionId} {o : Outcome}

theorem Owns.extends (h : B.Owns t o) (hb : B.Extends B') : B'.Owns t o := fun f filter message hf hc =>
  (h f filter message hf hc).imp fun s hs => ⟨hb.encoded t s hs.1, hs.2⟩

theorem Reads.extends {rest : List (Download ν)} (h : B.Reads t rest) (hb : B.Extends B') : B'.Reads t rest := by
  obtain ⟨hran, s, fetched, hs, hclean, hf⟩ := h
  exact ⟨hb.ran t hran, s, fetched, hb.encoded t s hs, hclean, fun d hd =>
    (hf d hd).imp fun _ hr => hb.readings.subset hr⟩

theorem Fits.extends (h : B.Fits t o) (hb : B.Extends B') : B'.Fits t o :=
  ⟨fun ho => (h.1 ho).extends hb, h.2.extends hb⟩

theorem Owns.of_uncaptured (h : Uncaptured o) : B.Owns t o := fun f _ _ hf hc => by cases (h f hf).symm.trans hc

theorem Owns.of_same {f f' : Failure} (h : B.Owns t (.error f)) (hs : f'.captured? = f.captured?) :
    B.Owns t (.error f') := fun _ filter message hf hc => by
  cases hf
  exact h f filter message rfl (hs ▸ hc)

theorem Owns.asError (h : B.Owns t o) : B.Owns t (o.mapError Failure.asError) := by
  cases o with
  | ok => exact .of_uncaptured (.ok ())
  | error f => exact h.of_same f.captured?_asError

end Books

/-- The calls that have to succeed for submissions to be watched and finished. -/
def deliveryCalls : List DeviceCall := [.destroyBuffer, .pushScope]

namespace Engine

/-- The books are right about an engine. The turns in `hand` are about to run. -/
structure Life [Measure ν] (B : Books ν α) (hand : List (Turn ν α)) (e : Engine ν α) : Prop where
  able : e.Able deliveryCalls
  sane : e.completion.Sane
  first : 1 ≤ e.session.nextToken
  once : (e.underway hand).Nodup
  underway : ∀ t ∈ e.underway hand, e.Issued t
  known : ∀ t, e.completion.status t = .absent ∨ e.Issued t
  encoded : ∀ t s, B.encoded t = some s → e.Issued t ∧ s.token = t ∧ s.Uncaptured
  ran : ∀ t, B.ran t → e.Issued t
  pending : ∀ t, e.Pending t → e.completion.Open t
  coming : ∀ t, e.completion.Open t → e.Pending t ∨ ∃ o, .reported t o ∈ e.due hand
  closed : ∀ t, B.closed t ↔ e.Issued t ∧ ¬e.completion.Open t
  allows : ∀ x ∈ e.due hand, B.Allows e x
  held : ∀ s ∈ e.heldBack, B.Allows e (.workDone s (.ok ()))
  verdicts : ∀ t o, B.verdict t = some o → e.Issued t ∧ ¬e.Pending t ∧ B.Fits t o
  kept : ∀ t o, e.completion.status t = .kept o → B.verdict t = some o
  nodup : e.session.unawaited.Nodup
  offered : ∀ t ∈ e.session.unawaited, e.completion.status t = .waiting [] ∨ ∃ o, e.completion.status t = .kept o
  waiters : ∀ t ws, e.completion.status t = .waiting ws → ∀ j ∈ ws, B.Heeds e j t
  awaited : ∀ j t, B.awaited j = some t → e.jobs[j]? = some .wait
  answered : ∀ x ∈ e.settled, e.Busy x.1 ∨ e.jobs[x.1]? = some .wait ∧ ∃ t, B.awaited x.1 = some t ∧ B.Answers t x.2
  /-- What was read stands where it was put until something else is read into the same array. -/
  fetched : ∀ newer r older, B.readings = newer ++ r :: older →
    (∀ x ∈ newer, x.download.target ≠ r.download.target) → e.Fetched r

variable {B B' : Books ν α} {e e' : Engine ν α} {hand hand' : List (Turn ν α)}

/-! ### What stays true -/

/-- Whatever was issued before is not taken up again, and nothing that was known is lost. -/
structure Onward (e : Engine ν α) (B B' : Books ν α) (e' : Engine ν α) : Prop where
  books : B.Extends B'
  pending : ∀ t, e.Issued t → e'.Pending t → e.Pending t
  opened : ∀ t, e.Issued t → e'.completion.Open t → e.completion.Open t
  unawaited : ∀ t, e.Issued t → t ∈ e'.session.unawaited → t ∈ e.session.unawaited
  busy : ∀ j, e.Busy j → e'.Busy j
  wait : ∀ j : JobId, e.jobs[j]? = some .wait → e'.jobs[j]? = some .wait

/-- What the books and the completion say of one submission. -/
structure Recorded (e : Engine ν α) (B : Books ν α) (t : SubmissionId) : Prop where
  known : e.completion.status t = .absent ∨ e.Issued t
  pending : e.Pending t → e.completion.Open t
  closed : B.closed t ↔ e.Issued t ∧ ¬e.completion.Open t
  kept : ∀ o, e.completion.status t = .kept o → B.verdict t = some o
  offered : t ∈ e.session.unawaited → e.completion.status t = .waiting [] ∨ ∃ o, e.completion.status t = .kept o
  waiters : ∀ ws, e.completion.status t = .waiting ws → ∀ j ∈ ws, B.Heeds e j t

/-- Nothing happens to a submission itself. -/
structure Untouched (e : Engine ν α) (B B' : Books ν α) (e' : Engine ν α) (t : SubmissionId) : Prop where
  status : e'.completion.status t = e.completion.status t
  issued : e'.Issued t ↔ e.Issued t
  pending : e'.Pending t → e.Pending t
  unawaited : t ∈ e'.session.unawaited → t ∈ e.session.unawaited
  closed : B'.closed t ↔ B.closed t

namespace Onward

variable {t : SubmissionId}

theorem heeds (h : e.Onward B B' e') {j : JobId} (hj : B.Heeds e j t) : B'.Heeds e' j t :=
  hj.imp (h.busy j) fun hw => ⟨h.wait j hw.1, h.books.awaited j t hw.2⟩


theorem allows (h : e.Onward B B' e') {x : Turn ν α} (ht : ∀ t, x.token? = some t → e.Issued t)
    (hx : B.Allows e x) : B'.Allows e' x := by
  cases x with
  | scopesClosed s => exact h.books.encoded _ _ hx
  | workDone s o => exact ⟨h.books.encoded _ _ hx.1, hx.2⟩
  | mapped t ds o => exact ⟨hx.1.extends h.books, hx.2⟩
  | rejected t f => exact Books.Owns.extends hx h.books
  | finished t o => exact Books.Fits.extends hx h.books
  | reported t o =>
    have ht := ht t rfl
    exact ⟨fun hp => hx.1 (h.pending t ht hp), fun ho => h.books.verdict _ _ (hx.2 (h.opened t ht ho))⟩
  | collected j t o =>
    have ht := ht t rfl
    obtain ⟨hclosed, hun, hv, hj⟩ := hx
    exact ⟨fun ho => hclosed (h.opened t ht ho), fun hu => hun (h.unawaited t ht hu),
      h.books.verdict _ _ hv, h.heeds hj⟩
  | buildUngated | buildEnded | pipelineArrived | planReady | planned | lossSeen | drained | resumed
    | attemptEnded => trivial

theorem answers (h : e.Onward B B' e') {r : Except Failure (JobValue ν α)} (hr : B.Answers t r) : B'.Answers t r :=
  hr.imp_right fun ⟨o, hv, hr⟩ => ⟨o, h.books.verdict t o hv, hr⟩

end Onward

section
variable [Measure ν]

theorem Life.issued (h : e.Life B hand) {x : Turn ν α} (hx : x ∈ e.due hand) {t : SubmissionId}
    (ht : x.token? = some t) : e.Issued t := by
  cases x with
  | collected j t' o =>
    cases ht
    have hallows : B.Allows e (.collected j t o) := h.allows _ hx
    exact (h.verdicts t o hallows.2.2.1).1
  | scopesClosed | workDone | mapped | rejected | finished | reported =>
    exact h.underway t (List.mem_append_left _ (List.mem_filterMap.mpr ⟨_, hx, ht⟩))
  | buildUngated | buildEnded | pipelineArrived | planReady | planned | lossSeen | drained | resumed
    | attemptEnded => cases ht

theorem Life.onward_allows (h : e.Life B hand) (ho : e.Onward B B' e') {x : Turn ν α} (hx : x ∈ e.due hand) :
    B'.Allows e' x := ho.allows (fun _ => h.issued hx) (h.allows x hx)

theorem Life.onward_answered (h : e.Life B hand) (ho : e.Onward B B' e') {x : JobId × Except Failure (JobValue ν α)}
    (hx : x ∈ e.settled) :
    e'.Busy x.1 ∨ e'.jobs[x.1]? = some .wait ∧ ∃ t, B'.awaited x.1 = some t ∧ B'.Answers t x.2 :=
  (h.answered x hx).imp (ho.busy _) fun ⟨hw, t, ht, hr⟩ => ⟨ho.wait _ hw, t, ho.books.awaited _ _ ht, ho.answers hr⟩

/-! ### What submissions do not depend on -/

/-- Submissions stand as they did: only calls that do more than to wait may have ended or gone on. -/
structure Beside (e e' : Engine ν α) : Prop where
  turns : e'.turns = e.turns
  heldBack : e'.heldBack = e.heldBack
  completion : e'.completion = e.completion
  next : e'.session.nextToken = e.session.nextToken
  pending : e'.session.pending = e.session.pending
  unawaited : e'.session.unawaited = e.session.unawaited
  busy : ∀ j, e.Busy j → e'.Busy j
  wait : ∀ j : JobId, e.jobs[j]? = some .wait → e'.jobs[j]? = some .wait
  settled : ∀ x ∈ e'.settled, x ∈ e.settled ∨ e'.Busy x.1
  contents : ∀ a, (e.contents a).toList <+: (e'.contents a).toList

omit [Measure ν] in
theorem Beside.issued (h : e.Beside e') {t : SubmissionId} : e'.Issued t ↔ e.Issued t := by
  unfold Issued
  rw [h.next]

omit [Measure ν] in
theorem Beside.isPending (h : e.Beside e') {t : SubmissionId} : e'.Pending t ↔ e.Pending t := by
  unfold Pending
  rw [h.pending]

omit [Measure ν] in
theorem Beside.onward (h : e.Beside e') : e.Onward B B e' where
  books := .refl B
  pending _ _ := h.isPending.mp
  opened _ _ ht := h.completion ▸ ht
  unawaited _ _ ht := h.unawaited ▸ ht
  busy := h.busy
  wait := h.wait

theorem Life.beside (h : e.Life B hand) (hable : e'.Able deliveryCalls) (hb : e.Beside e') : e'.Life B hand := by
  have hdue : e'.due hand = e.due hand := by unfold due; rw [hb.turns]
  have hway : e'.underway hand = e.underway hand := by unfold Engine.underway; rw [hdue, hb.heldBack]
  have hc := hb.completion
  have ho : e.Onward B B e' := hb.onward
  exact {
    able := hable
    sane := hc ▸ h.sane
    first := hb.next ▸ h.first
    once := hway ▸ h.once
    underway := fun t ht => hb.issued.mpr (h.underway t (hway ▸ ht))
    known := fun t => by rw [hc, hb.issued]; exact h.known t
    encoded := fun t s hs => by rw [hb.issued]; exact h.encoded t s hs
    ran := fun t ht => hb.issued.mpr (h.ran t ht)
    pending := fun t ht => by rw [hc]; exact h.pending t (hb.isPending.mp ht)
    coming := fun t ht => by rw [hdue, hb.isPending]; exact h.coming t (hc ▸ ht)
    closed := fun t => by rw [hc, hb.issued]; exact h.closed t
    allows := fun x hx => h.onward_allows ho (hdue ▸ hx)
    held := fun s hs => h.held s (hb.heldBack ▸ hs)
    verdicts := fun t o hv => by
      obtain ⟨hi, hp, hr⟩ := h.verdicts t o hv
      exact ⟨hb.issued.mpr hi, fun hp' => hp (hb.isPending.mp hp'), hr.extends ho.books⟩
    kept := fun t o ht => h.kept t o (hc ▸ ht)
    nodup := hb.unawaited ▸ h.nodup
    offered := fun t ht => by rw [hc]; exact h.offered t (hb.unawaited ▸ ht)
    waiters := fun t ws ht j hj => ho.heeds (h.waiters t ws (hc ▸ ht) j hj)
    awaited := fun j t hj => hb.wait j (h.awaited j t hj)
    answered := fun x hx => by
      rcases hb.settled x hx with hx | hbusy
      · exact h.onward_answered ho hx
      · exact .inl hbusy
    fetched := fun newer r older heq hother => (h.fetched newer r older heq hother).trans (hb.contents _) }

/-! ### One submission among others -/

namespace Recorded

omit [Measure ν]
variable {t : SubmissionId}

theorem issued_of_open (h : e.Recorded B t) (ho : e.completion.Open t) : e.Issued t :=
  h.known.resolve_left fun ha => by
    obtain ⟨ws, hws⟩ := ho
    cases hws.symm.trans ha

/-- Nobody waits yet for what is still on offer. -/
theorem waiters_of_offered (h : e.Recorded B t) (hu : t ∈ e.session.unawaited) {ws : List JobId}
    (hws : e.completion.status t = .waiting ws) : ws = [] := by
  rcases h.offered hu with hs | ⟨o, hs⟩
  · cases hs.symm.trans hws
    rfl
  · cases hs.symm.trans hws

/-- What becomes of one submission leaves the others as they stand. -/
theorem untouched (h : e.Recorded B t) (hs : e.Untouched B B' e' t)
    (hverdict : ∀ o, B.verdict t = some o → B'.verdict t = some o)
    (hheeds : ∀ j, B.Heeds e j t → B'.Heeds e' j t) : e'.Recorded B' t := by
  have hopen : e'.completion.Open t ↔ e.completion.Open t := by
    unfold Completion.Open
    rw [hs.status]
  exact {
    known := by rw [hs.status, hs.issued]; exact h.known
    pending := fun hp => hopen.mpr (h.pending (hs.pending hp))
    closed := by rw [hs.closed, hs.issued, hopen]; exact h.closed
    kept := fun o ho => hverdict o (h.kept o (hs.status ▸ ho))
    offered := fun hu => by rw [hs.status]; exact h.offered (hs.unawaited hu)
    waiters := fun ws hws j hj => hheeds j (h.waiters ws (hs.status ▸ hws) j hj) }

end Recorded

theorem Life.recorded (h : e.Life B hand) (t : SubmissionId) : e.Recorded B t where
  known := h.known t
  pending := h.pending t
  closed := h.closed t
  kept := h.kept t
  offered := h.offered t
  waiters := h.waiters t

theorem Life.untouched (h : e.Life B hand) (ho : e.Onward B B' e') {t : SubmissionId} (hs : e.Untouched B B' e' t) :
    e'.Recorded B' t :=
  (h.recorded t).untouched hs (ho.books.verdict t) fun _ => ho.heeds

theorem Life.issued_of_unawaited (h : e.Life B hand) {t : SubmissionId} (hu : t ∈ e.session.unawaited) :
    e.Issued t := by
  rcases h.offered t hu with hs | ⟨o, ho⟩
  · exact (h.recorded t).issued_of_open ⟨[], hs⟩
  · exact (h.verdicts t o (h.kept t o ho)).1

theorem Life.withdraw (h : e.Life B hand) {unawaited : List SubmissionId} (hn : unawaited.Nodup)
    (hsub : unawaited ⊆ e.session.unawaited) :
    ({ e with session := { e.session with unawaited } } : Engine ν α).Life B hand := by
  have honward : e.Onward B B { e with session := { e.session with unawaited } } :=
    ⟨.refl B, fun _ _ hp => hp, fun _ _ ho => ho, fun _ _ hu => hsub hu, fun _ hj => hj, fun _ hj => hj⟩
  exact { h with
    able := ⟨h.able.pool, h.able.sorted⟩
    allows := fun x hx => h.onward_allows honward hx
    nodup := hn
    offered := fun x hx => h.offered x (hsub hx) }

/-! ### Turns in hand -/

theorem Life.reorder (h : e.Life B hand) {turns : List (Nat × Turn ν α)}
    (hp : (({ e with turns } : Engine ν α).due hand').Perm (e.due hand)) :
    ({ e with turns } : Engine ν α).Life B hand' := by
  have hway : (({ e with turns } : Engine ν α).underway hand').Perm (e.underway hand) :=
    (hp.filterMap _).append_right _
  exact { h with
    able := ⟨h.able.pool, h.able.sorted⟩
    once := hway.nodup_iff.mpr h.once
    underway := fun t ht => h.underway t (hway.subset ht)
    coming := fun t ht => (h.coming t ht).imp_right fun ⟨o, ho⟩ => ⟨o, hp.symm.subset ho⟩
    allows := fun x hx => h.allows x (hp.subset hx) }

theorem Life.take (h : e.Life B []) {delay : Nat} {x : Turn ν α} {rest : List (Nat × Turn ν α)}
    (hp : e.turns.Perm ((delay, x) :: rest)) : ({ e with turns := rest } : Engine ν α).Life B [x] :=
  h.reorder (hp.map Prod.snd).symm

theorem Life.schedule {x : Turn ν α} (h : e.Life B (x :: hand)) (delay : Nat) :
    (e.schedule delay x).Life B hand := by
  refine h.reorder ?_
  unfold due
  rw [List.map_append, ← List.append_assoc]
  exact List.perm_append_comm

theorem Life.drop {x : Turn ν α} (h : e.Life B (x :: hand))
    (hx : x.reports = false ∨ ∃ t o, x = .reported t o ∧ ¬e.completion.Open t) : e.Life B hand := by
  have hway : (e.underway hand).Sublist (e.underway (x :: hand)) :=
    List.Sublist.append_right (List.Sublist.filterMap _ (List.sublist_cons_self ..)) _
  exact { h with
    once := h.once.sublist hway
    underway := fun t ht => h.underway t (hway.subset ht)
    coming := fun t ht => (h.coming t ht).imp_right fun ⟨o, ho⟩ => by
      rcases List.mem_cons.mp ho with rfl | ho
      · rcases hx with hx | ⟨t', o', heq, hclosed⟩
        · cases hx
        · cases heq
          exact absurd ht hclosed
      · exact ⟨o, ho⟩
    allows := fun y hy => h.allows y (List.mem_cons_of_mem _ hy) }

theorem Life.put (h : e.Life B hand) {x : Turn ν α} (hx : x.carried? = none) (ha : B.Allows e x) :
    e.Life B (x :: hand) := by
  have hway : e.underway (x :: hand) = e.underway hand := by
    unfold Engine.underway due
    rw [List.cons_append, List.filterMap_cons_none hx]
  exact { h with
    once := hway ▸ h.once
    underway := fun t ht => h.underway t (hway ▸ ht)
    coming := fun t ht => (h.coming t ht).imp_right fun ⟨o, ho⟩ => ⟨o, List.mem_cons_of_mem _ ho⟩
    allows := fun y hy => by
      rcases List.mem_cons.mp hy with rfl | hy
      · exact ha
      · exact h.allows y hy }

/-- A submission goes from one turn to the next. -/
theorem Life.carry {x y : Turn ν α} (h : e.Life B (x :: hand)) (hx : x.reports = false)
    (hxy : y.carried? = x.carried?) (ha : B.Allows e y) : e.Life B (y :: hand) := by
  have hway : e.underway (y :: hand) = e.underway (x :: hand) := by
    unfold Engine.underway due
    rw [List.cons_append, List.cons_append, List.filterMap_cons, List.filterMap_cons, hxy]
  exact { h with
    once := hway ▸ h.once
    underway := fun t ht => h.underway t (hway ▸ ht)
    coming := fun t ht => (h.coming t ht).imp_right fun ⟨o, ho⟩ => by
      rcases List.mem_cons.mp ho with rfl | ho
      · cases hx
      · exact ⟨o, List.mem_cons_of_mem _ ho⟩
    allows := fun z hz => by
      rcases List.mem_cons.mp hz with rfl | hz
      · exact ha
      · exact h.allows z (List.mem_cons_of_mem _ hz) }

/-! ### What is done beside submissions -/

omit [Measure ν] in
theorem Beside.refl (e : Engine ν α) : e.Beside e :=
  ⟨rfl, rfl, rfl, rfl, rfl, rfl, fun _ h => h, fun _ h => h, fun _ h => .inl h, fun _ => List.prefix_refl _⟩

theorem Life.setPool (h : e.Life B hand) {pool : Pool ν α} (hp : pool.Able deliveryCalls) :
    ({ e with pool } : Engine ν α).Life B hand := h.beside ⟨hp, h.able.sorted⟩ { Beside.refl e with }

theorem Life.chore (h : e.Life B hand) (hc : e.Chore e') : e'.Life B hand := by
  have hable := hc.able h.able
  have hbusy (j : JobId) : e.Busy j → e'.Busy j := hc.busy
  have same (hb : e.Beside e') : e'.Life B hand := h.beside hable hb
  cases hc with
  | schedule delay turn hturn =>
    refine (h.put ?_ ?_).schedule delay
    · cases turn <;> first | rfl | cases hturn
    · cases turn <;> trivial
  | settle j result hj =>
    refine same { Beside.refl e with settled := fun x hx => ?_ }
    rcases List.mem_append.mp hx with hx | hx
    · exact .inl hx
    · rw [List.mem_singleton.mp hx]
      exact .inr hj
  | addJob job hjob =>
    refine same { Beside.refl e with busy := hbusy, wait := fun j hj => ?_, settled := fun _ hx => .inl hx }
    obtain ⟨hlt, -⟩ := Array.getElem?_eq_some_iff.mp hj
    unfold Engine.addJob
    rwa [Array.getElem?_push_lt hlt, ← Array.getElem?_eq_getElem hlt]
  | setJob j job hj hjob hkind =>
    refine same { Beside.refl e with busy := hbusy, wait := fun k hk => ?_, settled := fun _ hx => .inl hx }
    have hne : j ≠ k := by
      rintro rfl
      obtain ⟨old, hold, hw⟩ := hj
      rw [hk] at hold
      cases hold
      cases hw
    unfold Engine.setJob
    rwa [Array.getElem?_setIfInBounds_ne hne]
  | addPlan plan =>
    exact same { Beside.refl e with contents := fun a => contents_addPlan e plan a ▸ List.prefix_refl _ }
  | makeArray values => exact same { Beside.refl e with contents := fun a => contents_makeArray e values a }
  | note | pool | device | compile | cache => exact same { Beside.refl e with }

theorem Life.chores (h : e.Life B hand) (hc : e.Chores e') : e'.Life B hand := by
  induction hc with
  | refl => exact h
  | tail _ hc ih => exact ih.chore hc

theorem Life.setDevice (h : e.Life B hand) {device : Device ν α} (hd : e.pool.device.Rests device) :
    (e.setDevice device).Life B hand := h.chore (.device e device hd)

end

end Engine

end Strata
