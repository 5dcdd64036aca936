import Rv64Codegen.Config
import Rv64Codegen.Constant.Plan
import Rv64Codegen.Constant.Sequence
import Rv64Codegen.Constant.Synthesis
import Rv64Codegen.DataPool
import Rv64Codegen.Error
import Rv64Codegen.Isa.Bytes
import Rv64Codegen.Isa.InPlace
import Rv64Codegen.Isa.Instruction
import Rv64Codegen.Isa.Machine
import Rv64Codegen.Isa.Opcode
import Rv64Codegen.Isa.PcRelative
import Rv64Codegen.Isa.Range
import Rv64Codegen.Isa.Register
import Rv64Codegen.Isa.Word
import Rv64Codegen.Isa.WordBuffer
import Rv64Codegen.Json.Codec
import Rv64Codegen.Json.Form
import Rv64Codegen.Json.IsaForms
import Rv64Codegen.Json.Parser
import Rv64Codegen.Json.Printer
import Rv64Codegen.Json.ProgramForms
import Rv64Codegen.Json.Standard
import Rv64Codegen.Json.Value
import Rv64Codegen.Notice
import Rv64Codegen.Output.Emitted
import Rv64Codegen.Output.Expansion
import Rv64Codegen.Output.Writer
import Rv64Codegen.Program.Descriptor
import Rv64Codegen.Program.Identifier
import Rv64Codegen.Program.Jump
import Rv64Codegen.Program.Layout
import Rv64Codegen.Program.Relocation
import Rv64Codegen.Proofs.Constant.Chunks
import Rv64Codegen.Proofs.Constant.Execution
import Rv64Codegen.Proofs.Constant.Length
import Rv64Codegen.Proofs.Constant.Readings
import Rv64Codegen.Proofs.Constant.Synthesis
import Rv64Codegen.Proofs.DataPool
import Rv64Codegen.Proofs.DataPool.Alignment
import Rv64Codegen.Proofs.DataPool.Integrity
import Rv64Codegen.Proofs.Isa.Decoding
import Rv64Codegen.Proofs.Isa.Encoding
import Rv64Codegen.Proofs.Isa.Execution
import Rv64Codegen.Proofs.Isa.Fields
import Rv64Codegen.Proofs.Isa.Frame
import Rv64Codegen.Proofs.Isa.Meaning
import Rv64Codegen.Proofs.Isa.Run
import Rv64Codegen.Proofs.Isa.Unambiguous
import Rv64Codegen.Proofs.Outcome
import Rv64Codegen.Proofs.Program.Offsets
import Rv64Codegen.Proofs.Program.Partition
import Rv64Codegen.Proofs.Program.Sizes
import Rv64Codegen.Proofs.Program.Width
import Rv64Codegen.Proofs.Program.WellFormed
import Rv64Codegen.Proofs.Relaxation.Visit
import Rv64Codegen.Proofs.Session.Changes
import Rv64Codegen.Relaxation.FixedPoint
import Rv64Codegen.Relaxation.Measure
import Rv64Codegen.Relaxation.Pass
import Rv64Codegen.Session.Basic
import Rv64Codegen.Session.Command
import Rv64Codegen.Session.Request
import Rv64Codegen.Text.Number
import Rv64Codegen.Proofs.Output.Writer
import Rv64Codegen.Proofs.Output.Jump
import Rv64Codegen.Proofs.Output.Landing
import Rv64Codegen.Proofs.Output.Values
import Rv64Codegen.Proofs.Relaxation.FixedPoint
import Rv64Codegen.Proofs.Simulation.Source
import Rv64Codegen.Proofs.Simulation.Tracking
import Rv64Codegen.Proofs.Simulation.Run
import Rv64Codegen.Proofs.Relaxation.Locations
import Rv64Codegen.Proofs.Relaxation.Reach
import Rv64Codegen.Proofs.Relaxation.Passes
import Rv64Codegen.Proofs.Output.Encodable
import Rv64Codegen.Proofs.Session.Readiness
import Rv64Codegen.Proofs.Session.Acceptance
import Rv64Codegen.Proofs.Relaxation.Choice
import Rv64Codegen.Proofs.Session.Regularity
import Rv64Codegen.Proofs.Relaxation.Margin
import Rv64Codegen.Proofs.Session.Convergence
import Rv64Codegen.Proofs.Session.Minimality
import Rv64Codegen.Proofs.Session.Refusals
import Rv64Codegen.Proofs.Session.Repetition
import Rv64Codegen.Proofs.Session.Delivery
import Rv64Codegen.Proofs.Program.Agreement
import Rv64Codegen.Proofs.Relaxation.Growth
import Rv64Codegen.Proofs.Relaxation.Agreement
import Rv64Codegen.Proofs.Output.Targets
import Rv64Codegen.Proofs.Output.Agreement
import Rv64Codegen.Proofs.Session.Monotonicity
import Rv64Codegen.Proofs.Session.PassBudget
import Rv64Codegen.Proofs.Session.PoolCalls
import Rv64Codegen.Proofs.Session.Alignment
import Rv64Codegen.Proofs.Session.Labels
import Rv64Codegen.Proofs.Session.Regrouping
import Rv64Codegen.Proofs.Json.Text
import Rv64Codegen.Proofs.Json.Forms
import Rv64Codegen.Proofs.Json.Layers
import Rv64Codegen.Proofs.Json.Standard
import Rv64Codegen.Proofs.Json.RoundTrip
import Rv64Codegen.Proofs.Relaxation.Bounds
import Rv64Codegen.Proofs.Session.Capacity
import Rv64Codegen.Proofs.Session.Relocations
import Rv64Codegen.Proofs.Session.Tables
