import Drayage.Controller.Abort
import Drayage.Controller.Assembly
import Drayage.Controller.Config
import Drayage.Controller.Manager
import Drayage.Controller.Notice
import Drayage.Controller.Outage
import Drayage.Controller.Outcome
import Drayage.Controller.Program
import Drayage.Controller.Queue
import Drayage.Controller.Reconcile
import Drayage.Controller.Requeue
import Drayage.Controller.Schedule
import Drayage.Controller.Trigger
import Drayage.Controller.World
import Drayage.Credentials.Basic
import Drayage.Credentials.Database
import Drayage.Credentials.Url
import Drayage.Data.Dict
import Drayage.Engine.Basic
import Drayage.Engine.Builtin
import Drayage.Engine.Report
import Drayage.Engine.Runner
import Drayage.Engine.Sequential
import Drayage.Engine.Step
import Drayage.Ini.Document
import Drayage.Json.Access
import Drayage.Json.Basic
import Drayage.Json.Codec
import Drayage.Json.DecodeError
import Drayage.Json.Integer
import Drayage.Json.Printer
import Drayage.Json.Reader
import Drayage.Manifest.Basic
import Drayage.Manifest.Directory
import Drayage.Manifest.Loading
import Drayage.Number.Binary64
import Drayage.Number.Decimal
import Drayage.Number.Power
import Drayage.Number.Shortest
import Drayage.Pattern.Basic
import Drayage.Pattern.Bracket
import Drayage.Pattern.CharSet
import Drayage.Pattern.Escape
import Drayage.Pattern.Language
import Drayage.Pattern.Parser
import Drayage.Proofs.Controller.Aborting
import Drayage.Proofs.Controller.Account
import Drayage.Proofs.Controller.Admission
import Drayage.Proofs.Controller.Announcing
import Drayage.Proofs.Controller.Attribution
import Drayage.Proofs.Controller.Backoff
import Drayage.Proofs.Controller.Chronicle
import Drayage.Proofs.Controller.Conduct
import Drayage.Proofs.Controller.Course
import Drayage.Proofs.Controller.Crediting
import Drayage.Proofs.Controller.Deadline
import Drayage.Proofs.Controller.Demand
import Drayage.Proofs.Controller.Depot
import Drayage.Proofs.Controller.Dispatch
import Drayage.Proofs.Controller.Errand
import Drayage.Proofs.Controller.Exchange
import Drayage.Proofs.Controller.Failing
import Drayage.Proofs.Controller.Fallback
import Drayage.Proofs.Controller.Following
import Drayage.Proofs.Controller.Ledger
import Drayage.Proofs.Controller.Operating
import Drayage.Proofs.Controller.Queue
import Drayage.Proofs.Controller.Reconciling
import Drayage.Proofs.Controller.Refreshing
import Drayage.Proofs.Controller.Requeue
import Drayage.Proofs.Controller.Scheduling
import Drayage.Proofs.Controller.Shape
import Drayage.Proofs.Controller.Sharding
import Drayage.Proofs.Controller.Shortening
import Drayage.Proofs.Controller.Standing
import Drayage.Proofs.Controller.Starting
import Drayage.Proofs.Controller.Steadfast
import Drayage.Proofs.Controller.Stranding
import Drayage.Proofs.Controller.Tolerance
import Drayage.Proofs.Controller.Traffic
import Drayage.Proofs.Controller.Trigger
import Drayage.Proofs.Controller.Unfinished
import Drayage.Proofs.Controller.Vacating
import Drayage.Proofs.Controller.Visit
import Drayage.Proofs.Controller.Waiting
import Drayage.Proofs.Controller.Waking
import Drayage.Proofs.Credentials.Lookup
import Drayage.Proofs.Credentials.Refusal
import Drayage.Proofs.Credentials.Spelling
import Drayage.Proofs.Credentials.Widening
import Drayage.Proofs.Data.Latest
import Drayage.Proofs.Engine.Engaging
import Drayage.Proofs.Engine.Exhausting
import Drayage.Proofs.Engine.Naming
import Drayage.Proofs.Engine.Outputs
import Drayage.Proofs.Engine.Pausing
import Drayage.Proofs.Engine.Retrying
import Drayage.Proofs.Engine.Scripted
import Drayage.Proofs.Engine.Sequential
import Drayage.Proofs.Engine.Stepping
import Drayage.Proofs.Engine.Trail
import Drayage.Proofs.Engine.Trials
import Drayage.Proofs.Json.Codec
import Drayage.Proofs.Json.Fields
import Drayage.Proofs.Json.Printing
import Drayage.Proofs.Manifest.Loading
import Drayage.Proofs.Pattern.Literal
import Drayage.Proofs.Resource.Delivery
import Drayage.Proofs.Resource.Gathering
import Drayage.Proofs.Resource.Identifying
import Drayage.Proofs.Resource.Requesting
import Drayage.Proofs.Resource.Uid
import Drayage.Proofs.Resource.Wire
import Drayage.Proofs.Store.Evolution
import Drayage.Proofs.Store.Fitness
import Drayage.Proofs.Store.History
import Drayage.Proofs.Store.Identity
import Drayage.Proofs.Store.Lineage
import Drayage.Proofs.Store.Versions
import Drayage.Proofs.Store.Watching
import Drayage.Proofs.Text.Bytes
import Drayage.Proofs.Text.Cutting
import Drayage.Proofs.Time.Calendar
import Drayage.Proofs.Time.Rfc3339
import Drayage.Resource.Annotations
import Drayage.Resource.Collection
import Drayage.Resource.Delivery
import Drayage.Resource.Freight
import Drayage.Resource.Key
import Drayage.Resource.Metadata
import Drayage.Resource.Promotion
import Drayage.Resource.Stage
import Drayage.Resource.Uid
import Drayage.Service.Config
import Drayage.Service.Error
import Drayage.Settings.Environment
import Drayage.Settings.File
import Drayage.Settings.Scalar
import Drayage.Settings.Tree
import Drayage.Store.Basic
import Drayage.Store.Error
import Drayage.Store.Event
import Drayage.Store.Report
import Drayage.Text.Blank
import Drayage.Text.Boundary
import Drayage.Text.CaseIgnorable
import Drayage.Text.Cased
import Drayage.Text.DecimalDigit
import Drayage.Text.Extending
import Drayage.Text.Folding
import Drayage.Text.Lowercase
import Drayage.Text.Quoted
import Drayage.Text.Range
import Drayage.Text.Unprintable
import Drayage.Text.WordCharacter
import Drayage.Time.Calendar
import Drayage.Time.Instant
import Drayage.Time.Rfc3339
import Drayage.Time.Span
import Drayage.Toml.Document
import Drayage.Toml.Scalar
import Drayage.Toml.Table
import Drayage.Toml.Text
import Drayage.Workspace.Basic
import Drayage.Yaml.Cursor
import Drayage.Yaml.Node
import Drayage.Yaml.Scalar
import Drayage.Yaml.Token
import Drayage.Yaml.Value
