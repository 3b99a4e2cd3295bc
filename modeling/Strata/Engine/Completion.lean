import Strata.Failure

/-!
# Completion

Delivery of the outcome of a submission to whoever waits for it, once for each platform. A `Reactor`
delivers when the submission settles and keeps an outcome that nobody waits for yet; `Deferrals`
keep one deferred outcome for each submission, and forget it once a waiter has collected it. `W` is
whatever a waiter is remembered by.
-/

namespace Strata

inductive Platform
  | native
  | browser
deriving Repr, DecidableEq

namespace Platform

def name : Platform → String
  | native => "native"
  | browser => "browser"

def ofName? (s : String) : Option Platform := [native, browser].find? (·.name == s)

end Platform

/-- How a submission ended. -/
abbrev Outcome := Except Failure Unit

instance decidableEqExcept {ε β : Type} [DecidableEq ε] [DecidableEq β] : DecidableEq (Except ε β)
  | .ok x, .ok y => decidable_of_iff (x = y) (by simp)
  | .error x, .error y => decidable_of_iff (x = y) (by simp)
  | .ok _, .error _ => isFalse (by simp)
  | .error _, .ok _ => isFalse (by simp)

abbrev SubmissionId := Ident

def unknownSubmission (id : SubmissionId) : Failure := .host (.plain s!"Unknown submission {id.text}")

def discardedSubmission (id : SubmissionId) : Failure :=
  .host (.plain s!"Submission {id.text} was discarded")

/-- How a wait is met. -/
inductive WaitReply
  /-- With an outcome, or because there is no such submission. -/
  | now (outcome : Outcome)
  /-- In a later turn, with an outcome that is already there. -/
  | later (outcome : Outcome)
  | suspended
deriving DecidableEq

/-! ## Delivery to listeners -/

structure Reactor (W : Type) where
  /-- Submissions that have not settled. -/
  inFlight : List SubmissionId := []
  /-- Outcomes that nobody has collected. -/
  retained : List (SubmissionId × Outcome) := []
  listeners : List (SubmissionId × W) := []

namespace Reactor

variable {W : Type}

def watch (r : Reactor W) (id : SubmissionId) : Reactor W :=
  if id ∈ r.inFlight then r else { r with inFlight := r.inFlight ++ [id] }

/-- Settle a submission. Answers who is woken, with what. -/
def settle (r : Reactor W) (id : SubmissionId) (outcome : Outcome) : List (W × Outcome) × Reactor W :=
  if id ∈ r.inFlight then
    let r := { r with inFlight := r.inFlight.erase id }
    let woken := r.listeners.filter (·.1 == id)
    if woken.isEmpty then
      ([], { r with retained := r.retained.filter (·.1 != id) ++ [(id, outcome)] })
    else (woken.map (·.2, outcome), { r with listeners := r.listeners.filter (·.1 != id) })
  else ([], r)

def wait (r : Reactor W) (id : SubmissionId) (w : W) : WaitReply × Reactor W :=
  match r.retained.lookup id with
  | some outcome => (.now outcome, { r with retained := r.retained.filter (·.1 != id) })
  | none =>
    if id ∈ r.inFlight then (.suspended, { r with listeners := r.listeners ++ [(id, w)] })
    else (.now (.error (unknownSubmission id)), r)

def drop (r : Reactor W) (id : SubmissionId) : Reactor W :=
  { r with retained := r.retained.filter (·.1 != id) }

def size (r : Reactor W) : Nat := r.inFlight.length + r.retained.length

end Reactor

/-! ## Deferred outcomes -/

structure Deferral (W : Type) where
  outcome : Option Outcome := none
  waiters : List W := []

structure Deferrals (W : Type) where
  entries : List (SubmissionId × Deferral W) := []

namespace Deferrals

variable {W : Type}

def put (d : Deferrals W) (id : SubmissionId) (entry : Deferral W) : Deferrals W :=
  ⟨d.entries.filter (·.1 != id) ++ [(id, entry)]⟩

def watch (d : Deferrals W) (id : SubmissionId) : Deferrals W := d.put id {}

/-- Settle a submission. Answers who is woken, with what. -/
def settle (d : Deferrals W) (id : SubmissionId) (outcome : Outcome) : List (W × Outcome) × Deferrals W :=
  match d.entries.lookup id with
  | some ⟨none, waiters⟩ => (waiters.map (·, outcome), d.put id ⟨some outcome, []⟩)
  | _ => ([], d)

def wait (d : Deferrals W) (id : SubmissionId) (w : W) : WaitReply × Deferrals W :=
  match d.entries.lookup id with
  | none => (.now (.error (unknownSubmission id)), d)
  | some ⟨some outcome, _⟩ => (.later outcome, d)
  | some ⟨none, waiters⟩ => (.suspended, d.put id ⟨none, waiters ++ [w]⟩)

def drop (d : Deferrals W) (id : SubmissionId) : Deferrals W := ⟨d.entries.filter (·.1 != id)⟩

def size (d : Deferrals W) : Nat := d.entries.length

end Deferrals

/-! ## Either -/

/-- The delivery of a platform. -/
inductive Completion (W : Type)
  | reactor (r : Reactor W)
  | deferrals (d : Deferrals W)

namespace Completion

variable {W : Type}

def ofPlatform : Platform → Completion W
  | .native => reactor {}
  | .browser => deferrals {}

def platform : Completion W → Platform
  | reactor _ => .native
  | deferrals _ => .browser

def watch (c : Completion W) (id : SubmissionId) : Completion W :=
  match c with
  | reactor r => reactor (r.watch id)
  | deferrals d => deferrals (d.watch id)

def settle (c : Completion W) (id : SubmissionId) (outcome : Outcome) : List (W × Outcome) × Completion W :=
  match c with
  | reactor r =>
    let (woken, r) := r.settle id outcome
    (woken, reactor r)
  | deferrals d =>
    let (woken, d) := d.settle id outcome
    (woken, deferrals d)

/-- Wait for a submission. -/
def wait (c : Completion W) (id : SubmissionId) (w : W) : WaitReply × Completion W :=
  match c with
  | reactor r =>
    let (reply, r) := r.wait id w
    (reply, reactor r)
  | deferrals d =>
    let (reply, d) := d.wait id w
    (reply, deferrals d)

/-- A woken waiter takes its outcome. -/
def collect (c : Completion W) (id : SubmissionId) : Completion W :=
  match c with
  | reactor r => reactor r
  | deferrals d => deferrals (d.drop id)

/-- Those who were woken take their outcome. -/
def collectAll (r : List (W × Outcome) × Completion W) (id : SubmissionId) : List (W × Outcome) × Completion W :=
  (r.1, if r.1.isEmpty then r.2 else r.2.collect id)

def abandon (c : Completion W) (id : SubmissionId) (failure : Failure) : List (W × Outcome) × Completion W :=
  c.settle id (.error failure)

def discard (c : Completion W) (id : SubmissionId) : List (W × Outcome) × Completion W :=
  match c.settle id (.error (discardedSubmission id)) with
  | (woken, reactor r) => (woken, reactor (r.drop id))
  | (woken, deferrals d) => (woken, deferrals (d.drop id))

def size : Completion W → Nat
  | reactor r => r.size
  | deferrals d => d.size

/-- Turns that pass until a woken waiter goes on. -/
def wakeTurns : Completion W → Nat
  | reactor _ => 2
  | deferrals _ => 1

/-! ## Requests -/

/-- All that is asked of a completion from outside. -/
inductive Request (W : Type)
  | watch (id : SubmissionId)
  | settle (id : SubmissionId) (outcome : Outcome)
  | wait (id : SubmissionId) (waiter : W)
  | abandon (id : SubmissionId) (failure : Failure)
  | discard (id : SubmissionId)

/-- Meet a request, and let those who are woken take their outcome at once. Answers who they are. -/
def meet (c : Completion W) : Request W → List (W × Outcome) × Completion W
  | .watch id => ([], c.watch id)
  | .settle id outcome => collectAll (c.settle id outcome) id
  | .wait id waiter =>
    match c.wait id waiter with
    | (.now outcome, c) => ([(waiter, outcome)], c)
    | (.later outcome, c) => collectAll ([(waiter, outcome)], c) id
    | (.suspended, c) => ([], c)
  | .abandon id failure => collectAll (c.abandon id failure) id
  | .discard id => collectAll (c.discard id) id

end Completion

end Strata
