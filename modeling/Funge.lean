import Funge.Cell
import Funge.Vec
import Funge.Space.Occupancy
import Funge.Space.Basic
import Funge.Space.Travel
import Funge.Numeral
import Funge.Space.Text
import Funge.Stack
import Funge.StackStack
import Funge.Text.Printable
import Funge.Text.Quoted
import Funge.Moment
import Funge.Folder
import Funge.Host
import Funge.Settings
import Funge.Fingerprint.Instance
import Funge.Error
import Funge.Journal
import Funge.Instruction
import Funge.Instruction.Table
import Funge.Fingerprint.Basic
import Funge.Fingerprint.Standard
import Funge.Pointer.Basic
import Funge.Pointer.Motion
import Funge.Pointer.Loading
import Funge.World
import Funge.Semantics.Operand
import Funge.Semantics.Course
import Funge.Semantics.Path
import Funge.Semantics.Storage
import Funge.Semantics.Channel
import Funge.Semantics.Report
import Funge.Semantics.Extension
import Funge.Semantics.Lifecycle
import Funge.Execution
import Funge.Machine
import Funge.Document.Basic
import Funge.Document.Reader
import Funge.Document.Codec
import Funge.CommandLine
import Funge.Session
import Funge.Main
import Funge.Proofs.Vec
import Funge.Proofs.Occupancy
import Funge.Proofs.Layout
import Funge.Proofs.Playfield
import Funge.Proofs.Action
import Funge.Proofs.Dimensions
import Funge.Proofs.Soundness
import Funge.Proofs.Stack
import Funge.Proofs.Course
import Funge.Proofs.Loading
import Funge.Proofs.Reachable
import Funge.Proofs.Footprint
import Funge.Proofs.Scheduling
import Funge.Proofs.Atomicity
import Funge.Proofs.ActiveLoads
import Funge.Proofs.RoundTrip
import Funge.Proofs.Numerals
import Funge.Proofs.LinearDump
import Funge.Proofs.Rendering
import Funge.Proofs.Framing
import Funge.Proofs.Chronicle
import Funge.Proofs.References
import Funge.Proofs.Faults
import Funge.Proofs.Overflow
import Funge.Proofs.Transfers
import Funge.Proofs.Blocks
import Funge.Proofs.Line
import Funge.Proofs.Stepping
import Funge.Proofs.Search
import Funge.Proofs.Laps
import Funge.Proofs.Entry
import Funge.Proofs.Retrace
import Funge.Proofs.Mirrors
import Funge.Proofs.Misses
import Funge.Proofs.Grid
import Funge.Proofs.Literals
import Funge.Proofs.Quitting
import Funge.Proofs.Upkeep
import Funge.Proofs.Codes
import Funge.Proofs.Reports
import Funge.Proofs.Handprints
import Funge.Proofs.Comments
import Funge.Proofs.Parcels
import Funge.Proofs.Depth
import Funge.Proofs.Readings
import Funge.Proofs.Spelling
import Funge.Proofs.Formulas
