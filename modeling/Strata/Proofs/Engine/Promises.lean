import Strata.Engine.Operation
import Strata.Proofs.Engine.Calls
import Strata.Proofs.Pipeline.Programs
import Strata.Proofs.Plan.Result

/-!
# What is promised to the calls under way

A ledger says what each composite call was asked for; the engine itself does not look at it. `Note` lists
what turns, held back submissions, kept outcomes and answers assert, and `Holds` says when that is true:
a pipeline on its way computes the program of its step, the downloads of a submission show the image of
the call that waits for it, an answer is the raster of its order. `Safe` is the rest of the invariant: the
pool is sound, and while the session is ready, no two calls share a slot and the plan of each carries its
stack out.
-/

namespace Strata

variable {α : Type}

/-- What a composite call was asked for. -/
structure Order (α : Type) where
  base : Layer Int α
  above : List (Layer Int α)
  outputFormat : Option PixelFormat

namespace Order

def layers (o : Order α) : List (Layer Int α) := o.base :: o.above

def width (o : Order α) : Int := o.base.raster.width

def height (o : Order α) : Int := o.base.raster.height

def count (o : Order α) : Nat := o.width.toNat * o.height.toNat

/-- Every layer lies on the canvas that the bottom layer defines. -/
def Fits (o : Order α) : Prop := Layer.AllFit o.width o.height true o.layers

section
variable [Channel α] [Stored α] [Transfer α]

def image (o : Order α) : Image α := Stack.image o.width o.height o.layers

/-- What the output of a plan is to be filled with. -/
def channels (o : Order α) : Array α := Array.ofFn (n := 4 * o.count) fun i => (o.image (i / 4)).channel (i % 4)

def raster (o : Order α) : Raster Int α := Stack.raster o.base o.layers o.outputFormat

theorem raster_eq (o : Order α) :
    o.raster = Raster.encode o.channels o.width o.height (o.outputFormat.getD o.base.raster.format) := rfl

end

end Order

abbrev Ledger (α : Type) := JobId → Option (Order α)

namespace Ledger

/-- More calls may be known later. -/
def Extends (G G' : Ledger α) : Prop := ∀ j o, G j = some o → G' j = some o

theorem Extends.refl (G : Ledger α) : G.Extends G := fun _ _ h => h

theorem Extends.trans {G G' G'' : Ledger α} (h : G.Extends G') (h' : G'.Extends G'') : G.Extends G'' :=
  fun j o ho => h' j o (h j o ho)

/-- What a request that waits for a pipeline has asked for. -/
def Expects (G : Ledger α) (text : String) : PipelineWaiter → Prop
  | .lookup _ => True
  | .step job index => ∃ o l, G job = some o ∧ o.layers[index]? = some l ∧ text = (l.key (index == 0)).text

theorem Extends.expects {G G' : Ledger α} (h : G.Extends G') (text : String) (w : PipelineWaiter)
    (hw : G.Expects text w) : G'.Expects text w := by
  cases w with
  | lookup job => trivial
  | step job index =>
    obtain ⟨o, l, ho, hl, ht⟩ := hw
    exact ⟨o, l, h job o ho, hl, ht⟩

end Ledger

/-! ## Notes -/

inductive Note (α : Type)
  /-- A pipeline is on its way to a step. -/
  | arrives (job : JobId) (index : Nat) (p : Pipeline)
  /-- All pipelines of a plan are there. -/
  | gathered (job : JobId) (ps : List Pipeline)
  | builds (serial : Nat) (key : PipelineKey)
  | built (serial : Nat) (a : Artifact)
  /-- A submission succeeds once some downloads are read. -/
  | promises (token : SubmissionId) (ds : List (Download Int))
  /-- A call comes to a raster. -/
  | yields (job : JobId) (r : Raster Int α)

/-- What an outcome asserts of its submission. -/
def Outcome.notes (token : SubmissionId) : Outcome → List (Note α)
  | .ok () => [.promises token []]
  | .error _ => []

def Encoded.notes (s : Encoded Int) : List (Note α) := [.promises s.token (s.downloads.toOption.getD [])]

def Turn.notes : Turn Int α → List (Note α)
  | .buildUngated serial key => [.builds serial key]
  | .buildEnded serial (.ok a) => [.built serial a]
  | .pipelineArrived job index (.ok p) => [.arrives job index p]
  | .planReady job (.ok ps) => [.gathered job ps]
  | .scopesClosed s =>
    match s.downloads with
    | .ok ds => [.promises s.token ds]
    | .error _ => []
  | .workDone s (.ok ()) => s.notes
  | .mapped token ds (.ok ()) => [.promises token ds]
  | .finished token outcome => Outcome.notes token outcome
  | .reported token outcome => Outcome.notes token outcome
  | .collected _ token outcome => Outcome.notes token outcome
  | .drained _ token outcome => Outcome.notes token outcome
  | .resumed _ token outcome => Outcome.notes token outcome
  | .attemptEnded job (.ok r) => [.yields job r]
  | _ => []

/-- Outcomes that are kept for somebody to collect. -/
def Completion.outcomes {W : Type} : Completion W → List (SubmissionId × Outcome)
  | reactor r => r.retained
  | deferrals d => d.entries.filterMap fun x => x.2.outcome.map (x.1, ·)

/-- Submissions that are observed or have an outcome that is kept. -/
def Completion.ids {W : Type} : Completion W → List SubmissionId
  | reactor r => r.inFlight ++ r.retained.map (·.1) ++ r.listeners.map (·.1)
  | deferrals d => d.entries.map (·.1)

/-- What a call that has ended asserts. -/
def JobValue.notes (job : JobId) : JobValue Int α → List (Note α)
  | .raster r => [.yields job r]
  | .verified device _ _ => [.yields job device]
  | _ => []

namespace Engine

def answerNotes (x : JobId × Except Failure (JobValue Int α)) : List (Note α) :=
  match x.2 with
  | .ok v => v.notes x.1
  | .error _ => []

def notes (e : Engine Int α) : List (Note α) :=
  e.turns.flatMap (·.2.notes) ++ e.heldBack.flatMap Encoded.notes ++
    e.gated.map (fun g => .builds g.2.1 g.2.2) ++
    e.completion.outcomes.flatMap (fun x => Outcome.notes x.1 x.2) ++ e.settled.flatMap answerNotes

/-- A token that was handed out. -/
def Old (e : Engine Int α) (token : SubmissionId) : Prop := ∃ n < e.session.nextToken, token = .number n

section
variable [Channel α] [Stored α] [Transfer α]

def Filled (e : Engine Int α) (o : Order α) (plan : PlanId) : Prop :=
  ∃ rec, e.plans[plan]? = some rec ∧ rec.output = o.channels

/-- A download is the whole image of an order, and while the session is ready, the destination's. -/
structure Shown (e : Engine Int α) (held : List Handle) (o : Order α) (d : Download Int) : Prop where
  bytes : d.bytes = workingBytes o.width o.height
  buffer : d.buffer < e.pool.device.buffers.size
  image : (e.pool.device.buffers.block d.buffer).Shows o.count o.image
  slot : e.session.phase = .ready → ∃ k, held.getLast? = some k ∧ e.pool.arena.bufferOf k = d.buffer

/-- A submission succeeds once the downloads are read: then the output of the call that waits for it is
filled. -/
structure Promises (G : Ledger α) (e : Engine Int α) (token : SubmissionId) (ds : List (Download Int)) : Prop where
  old : e.Old token
  covers : ∀ j c o plan, e.call? j = some c → G j = some o → c.phase = .draining plan token →
    e.Filled o plan ∨ ∃ d ∈ ds, d.target = .output plan
  shows : ∀ d ∈ ds, ∀ plan, d.target = .output plan → plan ∈ e.session.consumed ∧ ∀ j c o token',
    e.call? j = some c →
    G j = some o → c.phase = .draining plan token' → e.Shown c.held o d

def Holds (G : Ledger α) (e : Engine Int α) : Note α → Prop
  | .arrives job index p => ∃ o l, G job = some o ∧ o.layers[index]? = some l ∧
      p.artifact.program = l.program (index == 0)
  | .gathered job ps => e.session.phase = .ready →
      ∃ o, G job = some o ∧ ps.map (·.artifact.program) = Stack.programs true o.layers
  | .builds serial key => e.cache.Builds serial key
  | .built serial a => e.cache.Built serial a
  | .promises token ds => e.Promises G token ds
  | .yields job r => ∃ o, G job = some o ∧ o.Fits ∧ r = o.raster

/-- A plan in the making is that of an order over the slots of its call. -/
structure Drafted (arena : Arena Int) (o : Order α) (held : List Handle) (p : Planning Int α) : Prop where
  slots : ∃ sources destination, held = sources ++ [destination] ∧ sources.length = o.layers.length ∧
    p.draft = ⟨Draft.stackSteps o.width o.height true o.layers sources,
      List.zipWith Layer.upload o.layers sources, destination⟩ ∧
    Draft.Receives arena o.width o.height destination
  nodup : held.Nodup
  fit : o.Fits
  places : p.arrived.length = o.layers.length
  arrived : ∀ (i : Nat) q, p.arrived[i]? = some (some q) →
    ∃ l, o.layers[i]? = some l ∧ q.artifact.program = l.program (i == 0)

def Carried (e : Engine Int α) (o : Order α) (held : List Handle) (plan : PlanId) : Prop :=
  ∃ rec destination parts last, e.plans[plan]? = some rec ∧
    Stack.Carries o.width o.height o.layers held destination parts last rec.plan

/-- What a call relies on where it stands. -/
structure Staged (e : Engine Int α) (o : Order α) (c : CompositeCall Int α) : Prop where
  drafted : ∀ p, c.phase = .planning p → Drafted e.pool.arena o c.held p
  carried : ∀ plan, c.phase.plan? = some plan → e.Carried o c.held plan

/-- The calls of a ready session: their slots are live, none is shared, and each stands well. -/
structure Orderly (G : Ledger α) (e : Engine Int α) : Prop where
  live : ∀ j c, e.call? j = some c → ∀ k ∈ e.claims c, e.pool.arena.contains k = true
  apart : ∀ i j c d, i ≠ j → e.call? i = some c → e.call? j = some d → ∀ k ∈ e.claims c, k ∉ e.claims d
  staged : ∀ j c o, e.call? j = some c → G j = some o → e.Staged o c

structure Safe (G : Ledger α) (e : Engine Int α) : Prop where
  sound : e.pool.Sound
  intact : e.session.phase = .ready → e.pool.Intact
  right : e.cache.Right G.Expects
  lone : ∀ (j : Nat) p, e.jobs[j]? ≠ some (.plan p)
  known : ∀ j c, e.call? j = some c → ∃ o, G j = some o ∧ c.layers = o.layers ∧ c.outputFormat = o.outputFormat
  asked : ∀ j o, G j = some o → j < e.jobs.size ∧ Stack.Sane o.layers
  filled : ∀ (i : Nat) rec, e.plans[i]? = some rec → rec.filled.size ≤ rec.plan.outputLength
  spent : ∀ plan ∈ e.session.consumed, plan < e.plans.size
  watched : ∀ id ∈ e.completion.ids, e.Old id
  drains : ∀ j c o plan token, e.call? j = some c → G j = some o → c.phase = .draining plan token →
    e.Old token ∧ plan ∈ e.session.consumed ∧ o.Fits ∧
      ∃ rec, e.plans[plan]? = some rec ∧ rec.plan.outputLength = 4 * o.count
  orderly : e.session.phase = .ready → e.Orderly G

/-- What is reached keeps every promise, and makes none that does not hold. -/
structure Proceeds (G : Ledger α) (e e' : Engine Int α) : Prop where
  safe : e'.Safe G
  ready : e'.session.phase = .ready → e.session.phase = .ready
  keeps : ∀ n, e.Holds G n → e'.Holds G n
  notes : ∀ n ∈ e'.notes, n ∈ e.notes ∨ e'.Holds G n

variable {G : Ledger α} {e e' e'' : Engine Int α}

theorem Proceeds.refl (h : e.Safe G) : e.Proceeds G e := ⟨h, id, fun _ hn => hn, fun _ hn => .inl hn⟩

theorem Proceeds.trans (h : e.Proceeds G e') (h' : e'.Proceeds G e'') : e.Proceeds G e'' := by
  refine ⟨h'.safe, h.ready ∘ h'.ready, fun n hn => h'.keeps n (h.keeps n hn), fun n hn => ?_⟩
  rcases h'.notes n hn with hn | hn
  · rcases h.notes n hn with hn | hn
    · exact .inl hn
    · exact .inr (h'.keeps n hn)
  · exact .inr hn

end

end Engine

end Strata
