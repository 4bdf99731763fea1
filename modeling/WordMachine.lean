import WordMachine.Text.Numeral
import WordMachine.Text.CodeRanges
import WordMachine.Text.Invisible
import WordMachine.Text.Mark
import WordMachine.Text.Unassigned
import WordMachine.Text.Quoted
import WordMachine.Text.Record
import WordMachine.Value.Type
import WordMachine.Value.Decimal
import WordMachine.Value.Shortest
import WordMachine.Value.Binary
import WordMachine.Value.Cell
import WordMachine.Value.Operand
import WordMachine.Memory.Block
import WordMachine.Memory.Bytes
import WordMachine.Program.Opcode
import WordMachine.Fault
import WordMachine.Program.Instruction
import WordMachine.Program.ConstantPool
import WordMachine.Program.LineTable
import WordMachine.Program.Chunk
import WordMachine.Program.Assembler
import WordMachine.Program.Signature
import WordMachine.Program.Object
import WordMachine.Journal
import WordMachine.Memory.Tags
import WordMachine.Memory.Handles
import WordMachine.Memory.Pool
import WordMachine.Memory.OperandStack
import WordMachine.Execution.Operand
import WordMachine.Execution.External
import WordMachine.Execution.Frames
import WordMachine.Execution.Machine
import WordMachine.Execution.Tick
import WordMachine.Execution.FrameFlow
import WordMachine.Execution.Work
import WordMachine.Execution.Run
import WordMachine.Execution.Execute
import WordMachine.Host.Supply
import WordMachine.Host.VM
import WordMachine.Host.Session
import WordMachine.Host.Prelude
import WordMachine.Host.Benchmark
import WordMachine.Host.CommandLine
import WordMachine.Main
import WordMachine.Proofs.Effect
import WordMachine.Proofs.Handles
import WordMachine.Proofs.Memory
import WordMachine.Proofs.Script
import WordMachine.Proofs.InstructionScript
import WordMachine.Proofs.Bounds
import WordMachine.Proofs.Confinement
import WordMachine.Proofs.Adapter
import WordMachine.Proofs.Allocation
import WordMachine.Proofs.History
import WordMachine.Proofs.Image
import WordMachine.Proofs.ImageCall
import WordMachine.Proofs.Independence
import WordMachine.Proofs.NoDangling
import WordMachine.Proofs.Simulation
import WordMachine.Proofs.TypedExecution
import WordMachine.Proofs.Activation
import WordMachine.Proofs.BalancedCalls
import WordMachine.Proofs.Termination
import WordMachine.Proofs.FrameIsolation
import WordMachine.Proofs.References
import WordMachine.Proofs.Ledger
import WordMachine.Proofs.Leaks
import WordMachine.Proofs.Warnings
import WordMachine.Proofs.HandleMap
import WordMachine.Proofs.StaleHandles
import WordMachine.Proofs.Constants
import WordMachine.Proofs.TypedStack
import WordMachine.Proofs.Limits
import WordMachine.Proofs.Codec
import WordMachine.Proofs.Reuse
import WordMachine.Proofs.Recency
import WordMachine.Proofs.Lending
import WordMachine.Proofs.SourceLines
import WordMachine.Proofs.LineLog
import WordMachine.Proofs.Assembly
import WordMachine.Proofs.RefusedRequests
import WordMachine.Proofs.Normalization
import WordMachine.Proofs.Rounding
import WordMachine.Proofs.Alignment
import WordMachine.Proofs.WideWords
import WordMachine.Proofs.Accuracy
import WordMachine.Proofs.DecimalText
import WordMachine.Proofs.ArgumentLayout
import WordMachine.Proofs.FailedRuns
import WordMachine.Proofs.AdapterCalls
import WordMachine.Proofs.HostedCalls
import WordMachine.Proofs.LatestStores
