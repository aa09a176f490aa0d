import JvmClass.AccessFlags
import JvmClass.Attribute
import JvmClass.Attribute.Annotation
import JvmClass.Attribute.Reader
import JvmClass.Attribute.Writer
import JvmClass.Build.Body
import JvmClass.Build.ClassDraft
import JvmClass.Build.CodeDraft
import JvmClass.Build.Emit
import JvmClass.Build.Follower
import JvmClass.Build.MemberDraft
import JvmClass.Build.Model
import JvmClass.Build.Session
import JvmClass.Build.Transform
import JvmClass.Bytes.BigEndian
import JvmClass.Bytes.Cursor
import JvmClass.Bytes.Decoder
import JvmClass.Bytes.Scan
import JvmClass.Bytes.Writer
import JvmClass.Cbor
import JvmClass.ClassFile
import JvmClass.ClassFile.Input
import JvmClass.ClassFile.Layout
import JvmClass.Code.Cell
import JvmClass.Code.Element
import JvmClass.Code.Frame
import JvmClass.Code.Instruction
import JvmClass.Code.Label
import JvmClass.Code.Reader
import JvmClass.Code.StackTracker
import JvmClass.Command
import JvmClass.Command.Action
import JvmClass.Command.Arguments
import JvmClass.Command.Check
import JvmClass.Command.Inspect
import JvmClass.Command.Invocation
import JvmClass.Command.Remap
import JvmClass.Constant.Entry
import JvmClass.Constant.Lookup
import JvmClass.Constant.PoolBuilder
import JvmClass.Constant.Tag
import JvmClass.Data
import JvmClass.Decimal.Shortest
import JvmClass.Decimal.Spelling
import JvmClass.Descriptor
import JvmClass.Descriptor.Kind
import JvmClass.Descriptor.Method
import JvmClass.Error
import JvmClass.LineDiff
import JvmClass.LineDiff.Alignment
import JvmClass.Listing
import JvmClass.Main
import JvmClass.Manifest
import JvmClass.ModifiedUtf8
import JvmClass.Opcode
import JvmClass.Options
import JvmClass.Outline.Attribute
import JvmClass.Outline.ClassFile
import JvmClass.Outline.Code
import JvmClass.Outline.Constant
import JvmClass.Path
import JvmClass.Proofs.Attribute.Bare
import JvmClass.Proofs.Attribute.Copying
import JvmClass.Proofs.Attribute.Fits
import JvmClass.Proofs.Attribute.RoundTrip
import JvmClass.Proofs.Attribute.Safety
import JvmClass.Proofs.Attribute.Table
import JvmClass.Proofs.Attribute.Writing
import JvmClass.Proofs.Build.Blame
import JvmClass.Proofs.Build.Callers
import JvmClass.Proofs.Build.Envelopes
import JvmClass.Proofs.Build.Identity
import JvmClass.Proofs.Build.Kept
import JvmClass.Proofs.Build.Lays
import JvmClass.Proofs.Build.Library
import JvmClass.Proofs.Build.Nested
import JvmClass.Proofs.Build.Output
import JvmClass.Proofs.Build.Parts
import JvmClass.Proofs.Build.Reading
import JvmClass.Proofs.Build.Rebuild
import JvmClass.Proofs.Build.Rescan
import JvmClass.Proofs.Build.Sharing
import JvmClass.Proofs.Build.Walk
import JvmClass.Proofs.Bytes.Cursor
import JvmClass.Proofs.Bytes.Decoder
import JvmClass.Proofs.Bytes.Parses
import JvmClass.Proofs.Bytes.Proceeds
import JvmClass.Proofs.Bytes.Scan
import JvmClass.Proofs.Caller.Failing
import JvmClass.Proofs.Caller.Reading
import JvmClass.Proofs.Cbor
import JvmClass.Proofs.Chain.Composition
import JvmClass.Proofs.Chain.Delivery
import JvmClass.Proofs.Chain.Rewriter
import JvmClass.Proofs.ClassFile.Layout
import JvmClass.Proofs.ClassFile.Parse
import JvmClass.Proofs.ClassFile.Safety
import JvmClass.Proofs.Code.Boundaries
import JvmClass.Proofs.Code.Cells
import JvmClass.Proofs.Code.Closed
import JvmClass.Proofs.Code.Encoding
import JvmClass.Proofs.Code.Outline
import JvmClass.Proofs.Code.Reencoding
import JvmClass.Proofs.Code.Reframing
import JvmClass.Proofs.Code.RoundTrip
import JvmClass.Proofs.Code.Safety
import JvmClass.Proofs.Code.StackMaps
import JvmClass.Proofs.Code.Switches
import JvmClass.Proofs.Constant.Adoption
import JvmClass.Proofs.Constant.Bare
import JvmClass.Proofs.Constant.Blame
import JvmClass.Proofs.Constant.Builder
import JvmClass.Proofs.Constant.Complete
import JvmClass.Proofs.Constant.Ends
import JvmClass.Proofs.Constant.Growth
import JvmClass.Proofs.Constant.HashConsing
import JvmClass.Proofs.Constant.History
import JvmClass.Proofs.Constant.Holds
import JvmClass.Proofs.Constant.Interning
import JvmClass.Proofs.Constant.Linked
import JvmClass.Proofs.Constant.Lookup
import JvmClass.Proofs.Constant.Pool
import JvmClass.Proofs.Constant.References
import JvmClass.Proofs.Constant.Safety
import JvmClass.Proofs.Constant.Sharing
import JvmClass.Proofs.Constant.Written
import JvmClass.Proofs.Descriptor.Grammar
import JvmClass.Proofs.Descriptor.Layout
import JvmClass.Proofs.Files.Places
import JvmClass.Proofs.Files.Remapping
import JvmClass.Proofs.Locals.Allocation
import JvmClass.Proofs.Locals.Limits
import JvmClass.Proofs.Locals.Parameters
import JvmClass.Proofs.Locals.Relocation
import JvmClass.Proofs.Locals.Shifting
import JvmClass.Proofs.Options
import JvmClass.Proofs.Outcome
import JvmClass.Proofs.Renaming.Packages
import JvmClass.Proofs.Signature.Declarations
import JvmClass.Proofs.Signature.Erasure
import JvmClass.Proofs.Signature.Grammar
import JvmClass.Proofs.Signature.Hollow
import JvmClass.Proofs.Signature.Validity
import JvmClass.Proofs.Stack.Effect
import JvmClass.Proofs.Stack.Following
import JvmClass.Proofs.Stack.Soundness
import JvmClass.Proofs.Stack.Words
import JvmClass.Proofs.Summary
import JvmClass.Proofs.Text.Descriptors
import JvmClass.Proofs.Text.ModifiedUtf8
import JvmClass.Proofs.Text.Overlong
import JvmClass.Proofs.Text.Spelling
import JvmClass.Renaming
import JvmClass.Renaming.Attribute
import JvmClass.Renaming.Constant
import JvmClass.Renaming.Transform
import JvmClass.Script
import JvmClass.Script.Attribute
import JvmClass.Script.Code
import JvmClass.Script.Constant
import JvmClass.Script.Steps
import JvmClass.Script.Transform
import JvmClass.Signature
import JvmClass.Signature.Parser
import JvmClass.Summary
import JvmClass.Text
import JvmClass.Text.Printable
import JvmClass.Text.Quoted
import JvmClass.Text.Utf8
import JvmClass.Toml.Document
import JvmClass.Toml.Parser
import JvmClass.Toml.Quoted
import JvmClass.Toml.Scalar
import JvmClass.Traversal
import JvmClass.Workspace
