import ClassLinker.Archive.Crc32
import ClassLinker.Archive.Huffman
import ClassLinker.Archive.Inflate
import ClassLinker.Archive.Zip
import ClassLinker.Builtin
import ClassLinker.Cbor.Item
import ClassLinker.Cbor.Read
import ClassLinker.ClassDecl
import ClassLinker.ClassFile.Basic
import ClassLinker.ClassFile.Pool
import ClassLinker.ClassFile.Read
import ClassLinker.ClassPath
import ClassLinker.Closure.Basic
import ClassLinker.Closure.Load
import ClassLinker.Closure.Overrides
import ClassLinker.Closure.Place
import ClassLinker.Closure.Require
import ClassLinker.Closure.Scan
import ClassLinker.Command.Arguments
import ClassLinker.Command.Basic
import ClassLinker.Command.Demand
import ClassLinker.Command.Link
import ClassLinker.Command.Report
import ClassLinker.Command.Run
import ClassLinker.Config
import ClassLinker.Descriptor.FieldType
import ClassLinker.Descriptor.MethodType
import ClassLinker.Descriptor.Primitive
import ClassLinker.Error
import ClassLinker.Files.Path
import ClassLinker.Files.Tree
import ClassLinker.FloatBits
import ClassLinker.Image.Basic
import ClassLinker.Image.Build
import ClassLinker.Image.BuildId
import ClassLinker.Image.Codec
import ClassLinker.Image.Constant
import ClassLinker.Image.Files
import ClassLinker.Image.Header
import ClassLinker.Image.Trace
import ClassLinker.InitOrder.Graph
import ClassLinker.InitOrder.Schedule
import ClassLinker.InitOrder.Startup
import ClassLinker.Instruction.Decode
import ClassLinker.Instruction.Opcode
import ClassLinker.Instruction.Relocate
import ClassLinker.Literal
import ClassLinker.LogLevel
import ClassLinker.Main
import ClassLinker.Member
import ClassLinker.Native
import ClassLinker.Numeric
import ClassLinker.Program
import ClassLinker.Proofs.Closure.Complete
import ClassLinker.Proofs.Closure.Dispatch
import ClassLinker.Proofs.Closure.Exact
import ClassLinker.Proofs.Closure.Load
import ClassLinker.Proofs.Closure.Overrides
import ClassLinker.Proofs.Closure.Reach
import ClassLinker.Proofs.Closure.Register
import ClassLinker.Proofs.Closure.Require
import ClassLinker.Proofs.Closure.Scan
import ClassLinker.Proofs.Closure.Uses
import ClassLinker.Proofs.Image.Build
import ClassLinker.Proofs.InitOrder.Order
import ClassLinker.Proofs.InitOrder.Schedule
import ClassLinker.Proofs.InitOrder.Startup
import ClassLinker.Proofs.InitOrder.Traverse
import ClassLinker.Proofs.Instruction.Calls
import ClassLinker.Proofs.Instruction.Decode
import ClassLinker.Proofs.Instruction.Relocate
import ClassLinker.Proofs.Instruction.Stream
import ClassLinker.Proofs.Program.Classes
import ClassLinker.Proofs.Program.Code
import ClassLinker.Proofs.Program.Link
import ClassLinker.Proofs.Program.Linkable
import ClassLinker.Proofs.Program.Resolve
import ClassLinker.Proofs.Program.Startup
import ClassLinker.Proofs.Registry.Compact
import ClassLinker.Proofs.Registry.Growth
import ClassLinker.Proofs.Registry.Layout
import ClassLinker.Proofs.Registry.Lookup
import ClassLinker.Proofs.Registry.Meaning
import ClassLinker.Proofs.Registry.Operations
import ClassLinker.Proofs.Registry.Placement
import ClassLinker.Proofs.Registry.Prune
import ClassLinker.Proofs.Registry.Reachable
import ClassLinker.Proofs.Registry.Relocate
import ClassLinker.Proofs.Registry.Resolve
import ClassLinker.Proofs.Registry.Survivors
import ClassLinker.Proofs.Registry.Tables
import ClassLinker.Proofs.Registry.WellFormed
import ClassLinker.Proofs.Step
import ClassLinker.Registry.Basic
import ClassLinker.Registry.Compact
import ClassLinker.Registry.Create
import ClassLinker.Registry.Keep
import ClassLinker.Registry.Kind
import ClassLinker.Registry.Layout
import ClassLinker.Registry.Lookup
import ClassLinker.Retrace
import ClassLinker.Seeds
import ClassLinker.Sha1
import ClassLinker.Source
import ClassLinker.Text.Basic
import ClassLinker.Text.Blank
import ClassLinker.Text.Lines
import ClassLinker.Text.Markup
import ClassLinker.Text.Number
import ClassLinker.Text.Printable
import ClassLinker.Text.Quoted
import ClassLinker.Text.Utf8
import ClassLinker.Toml.Basic
import ClassLinker.Toml.Moment
import ClassLinker.Toml.Number
import ClassLinker.Toml.Quoted
import ClassLinker.Toml.Read
import ClassLinker.Toml.Table
import ClassLinker.Proofs.Image.Closed
import ClassLinker.Proofs.Closure.Replay
import ClassLinker.Proofs.Registry.Weight
import ClassLinker.Proofs.Closure.Alike
import ClassLinker.Proofs.Closure.Inside
import ClassLinker.Proofs.Closure.Loadable
import ClassLinker.Proofs.Closure.Requirable
import ClassLinker.Proofs.Closure.Reliable
import ClassLinker.Proofs.Closure.Agree
import ClassLinker.Proofs.Program.Reseed
import ClassLinker.Proofs.InitOrder.Canonical
import ClassLinker.Proofs.InitOrder.Guided
import ClassLinker.Proofs.Program.Kept
import ClassLinker.Proofs.Program.SeedOrder
import ClassLinker.Proofs.Cbor.ReadBack
import ClassLinker.Proofs.Image.Codec
import ClassLinker.Proofs.Image.Buildable
import ClassLinker.Proofs.Program.Constants
import ClassLinker.Proofs.Image.Constants
import ClassLinker.Proofs.Closure.Orderly
import ClassLinker.Proofs.Closure.Steady
import ClassLinker.Proofs.Closure.Consistent
import ClassLinker.Proofs.Registry.Refused
import ClassLinker.Proofs.Registry.LaidOut
import ClassLinker.Proofs.Closure.Budget
import ClassLinker.Proofs.Closure.Spending
import ClassLinker.Proofs.Closure.Drain
import ClassLinker.Proofs.Closure.Termination
import ClassLinker.Proofs.Closure.Parallel
import ClassLinker.Proofs.Program.Asked
import ClassLinker.Proofs.InitOrder.Cycle
import ClassLinker.Proofs.ClassFile.Prompt
import ClassLinker.Proofs.ClassFile.Format
import ClassLinker.Proofs.ClassFile.ReadBack
import ClassLinker.Proofs.Text.Pieces
import ClassLinker.Proofs.Text.Printed
import ClassLinker.Proofs.Image.Trace
import ClassLinker.Proofs.Image.Ranges
import ClassLinker.Proofs.Registry.Ancestry
import ClassLinker.Proofs.Registry.FindMember
import ClassLinker.Proofs.Registry.Storage
import ClassLinker.Proofs.Closure.Along
import ClassLinker.Proofs.Closure.Supertypes
import ClassLinker.Proofs.Descriptor.Grammar
import ClassLinker.Proofs.ClassFile.Pool
import ClassLinker.Proofs.Registry.Listed
import ClassLinker.Proofs.Registry.LinkIds
import ClassLinker.Proofs.Closure.Accounted
import ClassLinker.Proofs.Closure.Arrays
import ClassLinker.Proofs.Closure.Place
import ClassLinker.Proofs.Registry.Stale
import ClassLinker.Proofs.Registry.Relink
import ClassLinker.Proofs.Registry.Forgets
import ClassLinker.Proofs.InitOrder.Fault
import ClassLinker.Proofs.Image.Natives
import ClassLinker.Proofs.Image.Header
import ClassLinker.Proofs.Retrace.Lookup
import ClassLinker.Proofs.Text.Words
import ClassLinker.Proofs.Seeds.Written
import ClassLinker.Proofs.Registry.Slots
import ClassLinker.Proofs.Registry.Fresh
