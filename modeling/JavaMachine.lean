import JavaMachine.Assembler.Class
import JavaMachine.Assembler.Code
import JavaMachine.Assembler.Pool
import JavaMachine.Builtin
import JavaMachine.Class.Basic
import JavaMachine.Class.Link
import JavaMachine.Class.MethodTable
import JavaMachine.Class.Subtype
import JavaMachine.ClassFile.Basic
import JavaMachine.ClassFile.Reader
import JavaMachine.ClassFile.Writer
import JavaMachine.CommandLine
import JavaMachine.Constant
import JavaMachine.Descriptor
import JavaMachine.Error
import JavaMachine.Frame
import JavaMachine.Host.Member
import JavaMachine.Host.Session
import JavaMachine.Host.Value
import JavaMachine.Instruction.Arithmetic
import JavaMachine.Instruction.Basic
import JavaMachine.Instruction.Call
import JavaMachine.Instruction.Control
import JavaMachine.Instruction.Execute
import JavaMachine.Instruction.Field
import JavaMachine.Instruction.Local
import JavaMachine.Instruction.Object
import JavaMachine.Launcher
import JavaMachine.Loader
import JavaMachine.Machine.Basic
import JavaMachine.Machine.Execution
import JavaMachine.Machine.Heap
import JavaMachine.Machine.Initialization
import JavaMachine.Main
import JavaMachine.ModifiedUtf8
import JavaMachine.Names
import JavaMachine.Native.Basic
import JavaMachine.Native.Object
import JavaMachine.Native.System
import JavaMachine.Native.Table
import JavaMachine.Native.Text
import JavaMachine.Number.Decimal
import JavaMachine.Number.FloatingPoint
import JavaMachine.Opcode
import JavaMachine.Proofs.Assembler.Code
import JavaMachine.Proofs.Assembler.Depth
import JavaMachine.Proofs.Assembler.Layout
import JavaMachine.Proofs.Assembler.Pool
import JavaMachine.Proofs.Assembler.RoundTrip
import JavaMachine.Proofs.Assembler.Transfer
import JavaMachine.Proofs.Class.Ancestry
import JavaMachine.Proofs.Class.Coherence
import JavaMachine.Proofs.Class.Definition
import JavaMachine.Proofs.Class.History
import JavaMachine.Proofs.Class.Layout
import JavaMachine.Proofs.Class.Loading
import JavaMachine.Proofs.Class.Lockstep
import JavaMachine.Proofs.Class.MethodLookup
import JavaMachine.Proofs.Class.Registry
import JavaMachine.Proofs.Class.Selection
import JavaMachine.Proofs.Class.Subtyping
import JavaMachine.Proofs.Class.Supply
import JavaMachine.Proofs.ClassFile.Inverse
import JavaMachine.Proofs.ClassFile.Pool
import JavaMachine.Proofs.ClassFile.Raw
import JavaMachine.Proofs.ClassFile.RoundTrip
import JavaMachine.Proofs.ClassFile.WellFormed
import JavaMachine.Proofs.Constant.InOrder
import JavaMachine.Proofs.Constant.Meaning
import JavaMachine.Proofs.Constant.Resolution
import JavaMachine.Proofs.Descriptor
import JavaMachine.Proofs.Except
import JavaMachine.Proofs.Execution.Agreement
import JavaMachine.Proofs.Execution.Call
import JavaMachine.Proofs.Execution.Chain
import JavaMachine.Proofs.Execution.Charted
import JavaMachine.Proofs.Execution.Course
import JavaMachine.Proofs.Execution.Decision
import JavaMachine.Proofs.Execution.Depth
import JavaMachine.Proofs.Execution.Elements
import JavaMachine.Proofs.Execution.Equivalence
import JavaMachine.Proofs.Execution.Nested
import JavaMachine.Proofs.Execution.Regime
import JavaMachine.Proofs.Execution.Sound
import JavaMachine.Proofs.Execution.Throwing
import JavaMachine.Proofs.Execution.Unwinding
import JavaMachine.Proofs.Execution.Watched
import JavaMachine.Proofs.Host.Access
import JavaMachine.Proofs.Host.Composed
import JavaMachine.Proofs.Host.Confined
import JavaMachine.Proofs.Host.Conversion
import JavaMachine.Proofs.Host.Initialization
import JavaMachine.Proofs.Host.Offered
import JavaMachine.Proofs.Host.Reached
import JavaMachine.Proofs.Host.Storage
import JavaMachine.Proofs.Instruction.Access
import JavaMachine.Proofs.Instruction.Compositional
import JavaMachine.Proofs.Instruction.Dispatch
import JavaMachine.Proofs.Instruction.Informed
import JavaMachine.Proofs.Instruction.Place
import JavaMachine.Proofs.Instruction.Range
import JavaMachine.Proofs.Machine.Compositional
import JavaMachine.Proofs.Machine.Guarded
import JavaMachine.Proofs.Machine.Informed
import JavaMachine.Proofs.Machine.Phases
import JavaMachine.Proofs.Machine.Provided
import JavaMachine.Proofs.Machine.Sound
import JavaMachine.Proofs.Native.Compositional
import JavaMachine.Proofs.Native.Informed
import JavaMachine.Proofs.Signature
import JavaMachine.Proofs.Value
import JavaMachine.Separated
import JavaMachine.Source.Archive
import JavaMachine.Source.Basic
import JavaMachine.Source.FileTree
import JavaMachine.Utf16
import JavaMachine.Value
import JavaMachine.Proofs.Host.Exchange
import JavaMachine.Proofs.Assembler.Pushes
import JavaMachine.Proofs.Class.FieldSearch
import JavaMachine.Proofs.Class.Inheritance
import JavaMachine.Proofs.Class.Numbers
import JavaMachine.Proofs.Host.Fields
import JavaMachine.Proofs.Host.Linking
import JavaMachine.Proofs.Host.Numbers
import JavaMachine.Proofs.Instruction.Defaults
import JavaMachine.Proofs.Host.Message
import JavaMachine.Proofs.Host.Copies
import JavaMachine.Proofs.Host.Discreet
import JavaMachine.Proofs.ModifiedUtf8
import JavaMachine.Proofs.ClassFile.Delimited
import JavaMachine.Proofs.Assembler.Requests
import JavaMachine.Proofs.Execution.Arguments
import JavaMachine.Proofs.Host.Calls
import JavaMachine.Proofs.Instruction.Calls
import JavaMachine.Proofs.Host.Arguments
import JavaMachine.Proofs.Class.Builtin
import JavaMachine.Proofs.Execution.Throwables
import JavaMachine.Proofs.Instruction.StackDepth
import JavaMachine.Proofs.Instruction.StackEffect
import JavaMachine.Proofs.Assembler.Locals
import JavaMachine.Proofs.Instruction.NestedArrays
import JavaMachine.Proofs.Native.ArrayCopy
import JavaMachine.Proofs.Instruction.Integers
import JavaMachine.Proofs.Frame
import JavaMachine.Proofs.Native.Text
import JavaMachine.Proofs.Host.Lookup
import JavaMachine.Proofs.Instruction.Blame
import JavaMachine.Proofs.Instruction.Room
import JavaMachine.Proofs.Instruction.Members
import JavaMachine.Proofs.Instruction.Still
import JavaMachine.Proofs.Execution.Turns
import JavaMachine.Proofs.Assembler.Stack
import JavaMachine.Proofs.Assembler.Effects
import JavaMachine.Proofs.Assembler.Conduct
import JavaMachine.Proofs.Assembler.Suffices
