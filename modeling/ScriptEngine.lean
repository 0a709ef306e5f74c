import ScriptEngine.Blank
import ScriptEngine.Body
import ScriptEngine.BodyParser
import ScriptEngine.CallScope
import ScriptEngine.ClassTable
import ScriptEngine.Code
import ScriptEngine.Compiler
import ScriptEngine.DataType
import ScriptEngine.Engine
import ScriptEngine.Error
import ScriptEngine.Evaluation
import ScriptEngine.Exchange.Listing
import ScriptEngine.Exchange.State
import ScriptEngine.Exchange.Values
import ScriptEngine.Frame
import ScriptEngine.Gate
import ScriptEngine.Guard
import ScriptEngine.Heap
import ScriptEngine.Identity
import ScriptEngine.Invocation
import ScriptEngine.Json
import ScriptEngine.Json.Reader
import ScriptEngine.Lexer
import ScriptEngine.Literal
import ScriptEngine.Number.Binary64
import ScriptEngine.Number.Layout
import ScriptEngine.Number.Reading
import ScriptEngine.Number.Scaling
import ScriptEngine.Number.Shortest
import ScriptEngine.Overload
import ScriptEngine.ParamList
import ScriptEngine.Program
import ScriptEngine.PublicIndex
import ScriptEngine.Restoration
import ScriptEngine.Scope
import ScriptEngine.Signature
import ScriptEngine.Snapshot
import ScriptEngine.Snapshot.Frames
import ScriptEngine.Snapshot.Heaps
import ScriptEngine.Snapshot.Record
import ScriptEngine.Snapshot.Stacks
import ScriptEngine.Snapshot.Variables
import ScriptEngine.Span
import ScriptEngine.Stack
import ScriptEngine.Token
import ScriptEngine.TokenStream
import ScriptEngine.Value
import ScriptEngine.Variable
import ScriptEngine.World
import ScriptEngine.Proofs.Direct
import ScriptEngine.Proofs.Remainder
import ScriptEngine.Proofs.Effects
import ScriptEngine.Proofs.Agreement
import ScriptEngine.Proofs.Coherence
import ScriptEngine.Proofs.Following
import ScriptEngine.Proofs.Hosting
import ScriptEngine.Proofs.MutualExclusion
import ScriptEngine.Proofs.Rebinding
import ScriptEngine.Proofs.Transparency
import ScriptEngine.Proofs.Finishing
import ScriptEngine.Proofs.Rebuilding
import ScriptEngine.Proofs.RoundTrip
import ScriptEngine.Proofs.CallSites
import ScriptEngine.Proofs.Releasing
import ScriptEngine.Proofs.Naming
import ScriptEngine.Proofs.Fairness
import ScriptEngine.Proofs.LoadedIndexes
import ScriptEngine.Proofs.Ending
import ScriptEngine.Proofs.SinglePath
import ScriptEngine.Proofs.Conversions
import ScriptEngine.Proofs.Retaking
import ScriptEngine.Proofs.Contexts
import ScriptEngine.Proofs.SavedStacks
import ScriptEngine.Proofs.Soundness
import ScriptEngine.Proofs.Handles
import ScriptEngine.Proofs.BodyRegions
import ScriptEngine.Proofs.UniqueSignatures
import ScriptEngine.Proofs.StoredValues
import ScriptEngine.Proofs.FreeCalls
import ScriptEngine.Proofs.FailedCompiles
import ScriptEngine.Proofs.ErrorSpans
import ScriptEngine.Proofs.Accepting
import ScriptEngine.Proofs.Refusals
import ScriptEngine.Proofs.Hierarchy
import ScriptEngine.Proofs.Covering
import ScriptEngine.Proofs.Executing
import ScriptEngine.Proofs.Stranding
import ScriptEngine.Proofs.Unloading
import ScriptEngine.Proofs.Exactness
import ScriptEngine.Proofs.MethodProblems
import ScriptEngine.Proofs.Arguments
import ScriptEngine.Proofs.Members
import ScriptEngine.Proofs.Aborting
import ScriptEngine.Proofs.Attachments
import ScriptEngine.Proofs.Sharing
import ScriptEngine.Proofs.Waiting
import ScriptEngine.Proofs.Encapsulation
import ScriptEngine.Proofs.Regions
import ScriptEngine.Proofs.ParamTexts
import ScriptEngine.Proofs.Adjoining
import ScriptEngine.Proofs.Quoting
import ScriptEngine.Proofs.Reformatting
import ScriptEngine.Proofs.Shadowing
