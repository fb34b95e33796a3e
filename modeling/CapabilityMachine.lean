import CapabilityMachine.Document.Datum
import CapabilityMachine.Document.Json
import CapabilityMachine.Document.Json.Magnitude
import CapabilityMachine.Document.Json.Number
import CapabilityMachine.Document.Json.Text
import CapabilityMachine.Document.MessagePack
import CapabilityMachine.Document.Representation
import CapabilityMachine.Host.Action
import CapabilityMachine.Host.Device
import CapabilityMachine.Host.IdTable
import CapabilityMachine.Host.Manifest
import CapabilityMachine.Host.Registry
import CapabilityMachine.Host.Script
import CapabilityMachine.Host.Signature
import CapabilityMachine.Host.World
import CapabilityMachine.Instruction.Basic
import CapabilityMachine.Instruction.Encoding
import CapabilityMachine.Instruction.Opcode
import CapabilityMachine.Integer
import CapabilityMachine.Machine.Basic
import CapabilityMachine.Machine.Memory
import CapabilityMachine.Machine.Operator
import CapabilityMachine.Machine.Run
import CapabilityMachine.Machine.Settings
import CapabilityMachine.Machine.Snapshot
import CapabilityMachine.Machine.Stack
import CapabilityMachine.Machine.Step
import CapabilityMachine.Machine.Termination
import CapabilityMachine.Machine.Trace
import CapabilityMachine.Program.AssembleError
import CapabilityMachine.Program.Assembler
import CapabilityMachine.Program.Basic
import CapabilityMachine.Program.Container
import CapabilityMachine.Program.Load
import CapabilityMachine.Program.LoadError
import CapabilityMachine.Program.StackHeight
import CapabilityMachine.Proofs.Host.Agreement
import CapabilityMachine.Proofs.Host.Clock
import CapabilityMachine.Proofs.Host.Gate
import CapabilityMachine.Proofs.Host.Isolation
import CapabilityMachine.Proofs.Host.Manifest
import CapabilityMachine.Proofs.Host.Offer
import CapabilityMachine.Proofs.Host.Recording
import CapabilityMachine.Proofs.Host.Registry
import CapabilityMachine.Proofs.Host.Selections
import CapabilityMachine.Proofs.Machine.Arithmetic
import CapabilityMachine.Proofs.Machine.Atomicity
import CapabilityMachine.Proofs.Machine.AuditLog
import CapabilityMachine.Proofs.Machine.Blame
import CapabilityMachine.Proofs.Machine.BoundedList
import CapabilityMachine.Proofs.Machine.Brackets
import CapabilityMachine.Proofs.Machine.Denial
import CapabilityMachine.Proofs.Machine.Drivers
import CapabilityMachine.Proofs.Machine.ForwardRuns
import CapabilityMachine.Proofs.Machine.Generations
import CapabilityMachine.Proofs.Machine.Indistinguishable
import CapabilityMachine.Proofs.Machine.Invariant
import CapabilityMachine.Proofs.Machine.Invocation
import CapabilityMachine.Proofs.Machine.Memory
import CapabilityMachine.Proofs.Machine.Operations
import CapabilityMachine.Proofs.Machine.Provenance
import CapabilityMachine.Proofs.Machine.Refusal
import CapabilityMachine.Proofs.Machine.RegionStack
import CapabilityMachine.Proofs.Machine.Regions
import CapabilityMachine.Proofs.Machine.Request
import CapabilityMachine.Proofs.Machine.Restamp
import CapabilityMachine.Proofs.Machine.Rule
import CapabilityMachine.Proofs.Machine.Stack
import CapabilityMachine.Proofs.Machine.StackEffect
import CapabilityMachine.Proofs.Machine.Strictness
import CapabilityMachine.Proofs.Machine.Transition
import CapabilityMachine.Proofs.Outcome
import CapabilityMachine.Proofs.Program.AssemblerHistory
import CapabilityMachine.Proofs.Program.Assembling
import CapabilityMachine.Proofs.Program.Canonical
import CapabilityMachine.Proofs.Program.Finishing
import CapabilityMachine.Proofs.Program.Grammar
import CapabilityMachine.Proofs.Program.Header
import CapabilityMachine.Proofs.Program.Listing
import CapabilityMachine.Proofs.Program.Loading
import CapabilityMachine.Proofs.Program.Patching
import CapabilityMachine.Proofs.Program.Truncation
import CapabilityMachine.Proofs.Random.Range
import CapabilityMachine.Proofs.Random.Uniform
import CapabilityMachine.Proofs.Session
import CapabilityMachine.Proofs.StackHeight.Paths
import CapabilityMachine.Proofs.StackHeight.Soundness
import CapabilityMachine.Proofs.StackHeight.Worklist
import CapabilityMachine.Random.ChaCha
import CapabilityMachine.Random.Uniform
import CapabilityMachine.RuntimeError
import CapabilityMachine.Text.BigEndian
import CapabilityMachine.Text.Numeral
import CapabilityMachine.Value
import CapabilityMachine.Proofs.Program.Misreading
import CapabilityMachine.Proofs.Program.ClampedTargets
import CapabilityMachine.Proofs.Text
import CapabilityMachine.Proofs.Program.Disassembly
import CapabilityMachine.Proofs.Document.JsonTokens
import CapabilityMachine.Proofs.Document.Json
import CapabilityMachine.Proofs.Document.MessagePack
import CapabilityMachine.Proofs.Document.Representation
