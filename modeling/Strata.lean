import Strata.Number.Text
import Strata.Color.Raster
import Strata.Failure
import Strata.Pipeline.ShaderText
import Strata.Plan.Draft
import Strata.Engine.Completion
import Strata.Layer.Basic
import Strata.Composite.Direct
import Strata.Composite.Comparison
import Strata.Engine.Open
import Strata.Engine.Operation
import Strata.Proofs.Memory.Holding
import Strata.Proofs.Memory.Handles
import Strata.Proofs.Pipeline.Requests
import Strata.Proofs.Device.Dispatches
import Strata.Proofs.Memory.Gains
import Strata.Proofs.Plan.Encoding
import Strata.Proofs.Plan.Layout
import Strata.Proofs.Plan.Sources
import Strata.Proofs.Plan.Stack
import Strata.Proofs.Plan.Passes
import Strata.Proofs.Plan.Result
import Strata.Proofs.Composite.Canvases
import Strata.Proofs.Composite.Agreement
import Strata.Proofs.Pipeline.Programs
import Strata.Proofs.Engine.Promises
import Strata.Proofs.Engine.Changes
import Strata.Proofs.Engine.Pipelines
import Strata.Proofs.Engine.Drafts
import Strata.Proofs.Engine.Attempts
import Strata.Proofs.Engine.Submissions
import Strata.Proofs.Engine.Runs
import Strata.Proofs.Engine.Turns
import Strata.Proofs.Engine.Gathering
import Strata.Proofs.Memory.Accounts
import Strata.Proofs.Engine.Acts
import Strata.Proofs.Memory.References
import Strata.Proofs.Engine.InFlight
import Strata.Proofs.Color.Bits
import Strata.Proofs.Engine.Teardown
import Strata.Proofs.Engine.Delivery
import Strata.Proofs.Engine.Tokens
import Strata.Proofs.Engine.Interchange
import Strata.Proofs.Pipeline.Flights
import Strata.Proofs.Engine.Plans
import Strata.Proofs.Engine.Settling
import Strata.Proofs.Memory.Swept
import Strata.Proofs.Engine.Leaks
import Strata.Proofs.Engine.Answers
import Strata.Proofs.Plan.Bindings
import Strata.Proofs.Plan.Checks
import Strata.Proofs.Plan.Hazards
import Strata.Proofs.Engine.Rechecks
import Strata.Proofs.Engine.Bounds
import Strata.Proofs.Memory.Classes
import Strata.Proofs.Engine.Capacities
import Strata.Proofs.Engine.Refusals
import Strata.Proofs.Engine.Rollback
import Strata.Proofs.Engine.Outright
import Strata.Proofs.Engine.Draining
import Strata.Proofs.Engine.Alone
import Strata.Proofs.Engine.Outcomes
import Strata.Proofs.Memory.Budgets
import Strata.Proofs.Color.Exact
import Strata.Proofs.Composite.Frames
import Strata.Proofs.Engine.Queue
import Strata.Proofs.Engine.Scopes
import Strata.Proofs.Engine.Firing
import Strata.Proofs.Engine.Captures
import Strata.Proofs.Engine.Attribution
import Strata.Proofs.Engine.Aborting
import Strata.Proofs.Engine.Concluding
import Strata.Proofs.Engine.Retries
import Strata.Proofs.Color.Laws
import Strata.Proofs.Composite.Flattening
import Strata.Proofs.Color.Rounding
import Strata.Proofs.Color.Floats
import Strata.Proofs.Composite.Differences
import Strata.Proofs.Composite.Storage
import Strata.Proofs.Layer.Grammar
import Strata.Proofs.Layer.Reports
import Strata.Proofs.Geometry.Containment
