import EventScript.Severity
import EventScript.Table
import EventScript.Text.Number
import EventScript.Text.Utf8
import EventScript.Json.Printer
import EventScript.Json.Document
import EventScript.Game.State
import EventScript.Command.Action
import EventScript.Host.Stage
import EventScript.Program.Session
import EventScript.Command.Blob
import EventScript.Command.Params
import EventScript.Factory.Basic
import EventScript.Config.Environment
import EventScript.Config.EnvFile
import EventScript.Config.File
import EventScript.Player.CommandLine
import EventScript.Scheduler.Driver
import EventScript.Script
import EventScript.Main
import EventScript.Proofs.Program.Nesting
import EventScript.Proofs.Program.Scans
import EventScript.Proofs.Program.Enclosure
import EventScript.Proofs.Program.Branches
import EventScript.Proofs.Program.Validation
import EventScript.Proofs.Program.OpenBlocks
import EventScript.Proofs.Program.Defects
import EventScript.Proofs.Program.Thinning
import EventScript.Proofs.Program.Flow
import EventScript.Proofs.Session.Step
import EventScript.Proofs.Session.Reach
import EventScript.Proofs.Session.ControlStack
import EventScript.Proofs.Structured.Semantics
import EventScript.Proofs.Structured.Machine
import EventScript.Proofs.Structured.Focus
import EventScript.Proofs.Structured.Moves
import EventScript.Proofs.Structured.Watch
import EventScript.Proofs.Structured.Refinement
import EventScript.Proofs.Structured.Acceptance
import EventScript.Proofs.Blob.Action
import EventScript.Proofs.Command.Waiting
import EventScript.Proofs.Command.Failing
import EventScript.Proofs.Session.InFlight
import EventScript.Proofs.Session.Failures
import EventScript.Proofs.Scheduler.Reach
import EventScript.Proofs.Scheduler.Calls
import EventScript.Proofs.Scheduler.Lifecycle
import EventScript.Proofs.Host.Answers
import EventScript.Proofs.Command.Holding
import EventScript.Proofs.Session.Holding
import EventScript.Proofs.Scheduler.Prompts
import EventScript.Proofs.Factory.Stock
import EventScript.Proofs.Factory.Build
import EventScript.Proofs.Scheduler.Conservation
import EventScript.Proofs.Factory.Alike
import EventScript.Proofs.Scheduler.Alike
import EventScript.Proofs.Bench.Basic
import EventScript.Proofs.Bench.Transparency
import EventScript.Proofs.Player.Tally
import EventScript.Proofs.Player.Heard
import EventScript.Proofs.Player.Burst
import EventScript.Proofs.Player.Verdict
import EventScript.Proofs.Desk.Pauses
import EventScript.Proofs.Desk.Chronicle
import EventScript.Proofs.Desk.Limit
import EventScript.Proofs.Isolation.Schedule
import EventScript.Proofs.Session.LoopControl
import EventScript.Proofs.Session.Configuration
import EventScript.Proofs.Script.Fidelity
import EventScript.Proofs.Factory.Descriptions
import EventScript.Proofs.Command.Params
import EventScript.Proofs.Scheduler.Idle
import EventScript.Proofs.Session.Checks
import EventScript.Proofs.Session.Reports
import EventScript.Proofs.Command.Arithmetic
import EventScript.Proofs.Session.Delay
import EventScript.Proofs.Session.Unpresented
import EventScript.Proofs.Session.Forward
import EventScript.Proofs.Command.Lifecycle
