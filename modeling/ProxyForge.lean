import ProxyForge.Bytes.Basic
import ProxyForge.Bytes.Decoder
import ProxyForge.Bytes.Hex
import ProxyForge.Bytes.ModifiedUtf8
import ProxyForge.Checksum
import ProxyForge.ClassFile.Access
import ProxyForge.ClassFile.Class
import ProxyForge.ClassFile.Constant
import ProxyForge.ClassFile.Disassembly
import ProxyForge.ClassFile.Error
import ProxyForge.ClassFile.Frame
import ProxyForge.ClassFile.Instruction
import ProxyForge.ClassFile.Listing
import ProxyForge.ClassFile.Opcode
import ProxyForge.ClassFile.Pool
import ProxyForge.Code.Body
import ProxyForge.Code.ClassDraft
import ProxyForge.Code.Error
import ProxyForge.Code.Inference
import ProxyForge.Code.Layout
import ProxyForge.Code.Listing
import ProxyForge.Code.Op
import ProxyForge.Code.PoolBuilder
import ProxyForge.Code.SlotType
import ProxyForge.Code.TypeState
import ProxyForge.CommandLine.Argument
import ProxyForge.CommandLine.Command
import ProxyForge.CommandLine.Execution
import ProxyForge.CommandLine.Parsing
import ProxyForge.CommandLine.Word
import ProxyForge.Decimal.Binary
import ProxyForge.Decimal.Shortest
import ProxyForge.Decimal.Written
import ProxyForge.Files.Fault
import ProxyForge.Files.Path
import ProxyForge.Files.Tree
import ProxyForge.Json.Access
import ProxyForge.Json.Basic
import ProxyForge.Json.Decode
import ProxyForge.Json.Document
import ProxyForge.Json.Numeral
import ProxyForge.JvmType.Basic
import ProxyForge.JvmType.Descriptor
import ProxyForge.JvmType.SourceName
import ProxyForge.Main
import ProxyForge.Name
import ProxyForge.Proofs.Frame.Emission
import ProxyForge.Proofs.Frame.Replay
import ProxyForge.Proofs.Frame.RoundTrip
import ProxyForge.Proofs.Frame.Slots
import ProxyForge.Proofs.Frame.StackMap
import ProxyForge.Proofs.Inference.Completeness
import ProxyForge.Proofs.Inference.Effect
import ProxyForge.Proofs.Inference.Entry
import ProxyForge.Proofs.Inference.Fixpoint
import ProxyForge.Proofs.Inference.Flow
import ProxyForge.Proofs.Inference.Machine
import ProxyForge.Proofs.Inference.Merge
import ProxyForge.Proofs.Inference.Monotone
import ProxyForge.Proofs.Inference.Order
import ProxyForge.Proofs.Inference.Origin
import ProxyForge.Proofs.Inference.Paired
import ProxyForge.Proofs.Inference.Soundness
import ProxyForge.Proofs.Inference.Typing
import ProxyForge.Proofs.Inference.Visit
import ProxyForge.Proofs.Interning
import ProxyForge.Proofs.Layout.Decoding
import ProxyForge.Proofs.Layout.Encoding
import ProxyForge.Proofs.Layout.Labels
import ProxyForge.Proofs.Layout.Meaning
import ProxyForge.Proofs.Layout.Offsets
import ProxyForge.Proofs.Method
import ProxyForge.Proofs.Outcome
import ProxyForge.Proofs.Reading
import ProxyForge.Provider.Cache
import ProxyForge.Provider.Error
import ProxyForge.Provider.Introspection
import ProxyForge.Provider.Location
import ProxyForge.Provider.Request
import ProxyForge.Provider.Settings
import ProxyForge.Proxy.Artifact
import ProxyForge.Proxy.Bindings
import ProxyForge.Proxy.Boxing
import ProxyForge.Proxy.Dispatcher
import ProxyForge.Proxy.Error
import ProxyForge.Proxy.Forwarder
import ProxyForge.Proxy.Initializer
import ProxyForge.Proxy.Outline
import ProxyForge.Proxy.Plan
import ProxyForge.Proxy.Report
import ProxyForge.Signature
import ProxyForge.Surface.Basic
import ProxyForge.Surface.Json
import ProxyForge.Text.Blank
import ProxyForge.Text.Column
import ProxyForge.Text.Hex
import ProxyForge.Text.Letter
import ProxyForge.Text.Printable
import ProxyForge.Text.Quoted
import ProxyForge.Text.RangeTable
import ProxyForge.Text.Styled
import ProxyForge.Proofs.Plan.Reference
import ProxyForge.Proofs.ClassFile.Pool
import ProxyForge.Proofs.ClassFile.RoundTrip
import ProxyForge.Proofs.Draft.Attributes
import ProxyForge.Proofs.Draft.Members
import ProxyForge.Proofs.Draft.Session
import ProxyForge.Proofs.Descriptor
import ProxyForge.Proofs.Draft.Acceptance
import ProxyForge.Proofs.Inference.Straight
import ProxyForge.Proofs.Plan.Members
import ProxyForge.Proofs.Proxy.Acceptance
import ProxyForge.Proofs.Proxy.Assembly
import ProxyForge.Proofs.Proxy.Reaching
import ProxyForge.Proofs.Run.Heights
import ProxyForge.Proofs.Run.Blocks
import ProxyForge.Proofs.Proxy.Routing
import ProxyForge.Proofs.Proxy.Contents
import ProxyForge.Proofs.Requests
import ProxyForge.Proofs.Room
import ProxyForge.Proofs.Inference.Names
import ProxyForge.Proofs.Draft.Room
import ProxyForge.Proofs.Proxy.Modest
import ProxyForge.Proofs.ClassFile.Accepted
import ProxyForge.Proofs.Proxy.Intact
import ProxyForge.Proofs.Proxy.Duplicates
import ProxyForge.Proofs.ClassFile.Truncation
import ProxyForge.Proofs.Provider.History
import ProxyForge.Proofs.Provider.Coverage
import ProxyForge.Proofs.Surface
import ProxyForge.Proofs.Proxy.Delivery
import ProxyForge.Proofs.Proxy.Filling
import ProxyForge.Proofs.Proxy.Holding
import ProxyForge.Proofs.ClassFile.Spelling
import ProxyForge.Proofs.Frame.Table
import ProxyForge.Proofs.DescriptorGrammar
import ProxyForge.Proofs.Inference.Termination
import ProxyForge.Proofs.Plan.Merging
import ProxyForge.Proofs.Plan.Universals
import ProxyForge.Proofs.ClassFile.Disassembly
import ProxyForge.Proofs.ClassFile.Slots
import ProxyForge.Proofs.Provider.Recognition
import ProxyForge.Proofs.Proxy.Table
import ProxyForge.Proofs.Frame.Compaction
import ProxyForge.Proofs.Inference.Limits
import ProxyForge.Proofs.Proxy.Passing
import ProxyForge.Proofs.Provider.Numbering
