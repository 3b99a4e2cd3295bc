import Strata.Layer.Value

/-!
# Checking values

A check turns a value into what it stands for, or into every issue it has. Checks of the fields of an
object all run, so their issues add up in the order of the fields.
-/

namespace Strata

/-- The outcome of a check. -/
inductive Checked (β : Type)
  | ok (value : β)
  | failed (issues : List Issue)
deriving Repr, DecidableEq

namespace Checked

variable {β γ : Type}

def issues : Checked β → List Issue
  | ok _ => []
  | failed issues => issues

def problem (p : Problem) : Checked β := failed [⟨[], p⟩]

/-- The outcome, seen from the value that holds the checked one. -/
def within (step : PathStep) : Checked β → Checked β
  | ok value => ok value
  | failed issues => failed (issues.map (·.within step))

def map (f : β → γ) : Checked β → Checked γ
  | ok value => ok (f value)
  | failed issues => failed issues

/-- Both outcomes; issues add up. -/
def both (f : Checked (β → γ)) (x : Checked β) : Checked γ :=
  match f, x with
  | ok f, ok x => ok (f x)
  | f, x => failed (f.issues ++ x.issues)

/-- Every outcome, issues of each under its index from `i` on. -/
def all (i : Nat) : List (Checked β) → Checked (List β)
  | [] => ok []
  | c :: rest => ((c.within (.index i)).map List.cons).both (all (i + 1) rest)

end Checked

namespace Value

variable {α : Type} [Channel α]

/-- The problem of a value of another kind than expected. -/
def mismatch (v : Value α) (expected : ValueKind) : Problem :=
  match v.kind with
  | .undefined => .required
  | received => .wrongKind expected received

/-- A number that passes a list of tests; every failing one is reported. -/
def checkNumber (v : Value α) (tests : List ((α → Bool) × Problem)) : Checked α :=
  match v with
  | number x =>
    if Channel.isNaN x then .problem (v.mismatch .number)
    else
      match tests.filterMap fun (holds, problem) => if holds x then none else some ⟨[], problem⟩ with
      | [] => .ok x
      | issues => .failed issues
  | _ => .problem (v.mismatch .number)

def isIntegral : (α → Bool) × Problem := (fun x => (Channel.integer? x).isSome, .notIntegral)

def isPositive : (α → Bool) × Problem := (fun x => decide (0 < x), .notPositive)

def isAtLeast (n : Nat) : (α → Bool) × Problem := (fun x => decide (Channel.ofNat n ≤ x), .below n)

def isAtMost (n : Nat) : (α → Bool) × Problem := (fun x => decide (x ≤ Channel.ofNat n), .above n)

def integerOf (x : α) : Int := (Channel.integer? x).getD 0

def checkBoolean (v : Value α) : Checked Bool :=
  match v with
  | boolean b => .ok b
  | _ => .problem (v.mismatch .boolean)

def checkName {β : Type} (v : Value α) (choices : List String) (ofName? : String → Option β) : Checked β :=
  match v with
  | string s =>
    match ofName? s with
    | some choice => .ok choice
    | none => .problem (.unknownName choices s)
  | undefined => .problem .required
  | _ => .problem (.notAName choices v.kind)

def checkSignal (v : Value α) : Checked Nat :=
  match v with
  | abortSignal id => .ok id
  | _ => .problem .notAbortSignal

def optional {β : Type} (v : Value α) (check : Value α → Checked β) : Checked (Option β) :=
  if v.isUndefined then .ok none else (check v).map some

/-- A field of an object. -/
def checkField {β : Type} (v : Value α) (name : String) (check : Value α → Checked β) : Checked β :=
  (check (v.field name)).within (.field name)

/-- An object, whose fields are checked by `check`. -/
def checkObject {β : Type} (v : Value α) (check : Value α → Checked β) : Checked β :=
  match v.kind with
  | .object => check v
  | _ => .problem (v.mismatch .object)

end Value

end Strata
