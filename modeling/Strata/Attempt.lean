/-!
# Attempts

An operation that may fail answers a result and the state it leaves, also when it fails: what it did up
to the failure stays done.
-/

namespace Strata

/-- What an operation came to, and the state it leaves. -/
abbrev Attempt (ε σ β : Type) := Except ε β × σ

namespace Attempt

variable {ε σ τ ι β γ : Type}

/-- Go on with the result and the state, unless the attempt failed. -/
def andThen (a : Attempt ε σ β) (f : β → σ → Attempt ε σ γ) : Attempt ε σ γ :=
  match a with
  | (.ok v, s) => f v s
  | (.error e, s) => (.error e, s)

def each (step : σ → ι → Attempt ε σ Unit) (s : σ) : List ι → Attempt ε σ Unit
  | [] => (.ok (), s)
  | i :: rest => (step s i).andThen fun _ s => each step s rest

/-- The same attempt, on a state that holds the one it works on. -/
def lift (a : Attempt ε σ β) (put : σ → τ) : Attempt ε τ β := (a.1, put a.2)

/-- End with a result that is already known, unless the attempt failed. -/
def endWith (a : Attempt ε σ Unit) (result : Except ε β) : Attempt ε σ β :=
  match a with
  | (.ok (), s) => (result, s)
  | (.error e, s) => (.error e, s)

end Attempt

end Strata
