import Forthline.Builtin
import Forthline.Dictionary
import Forthline.Display
import Forthline.Failure
import Forthline.Log
import Forthline.Machine
import Forthline.Machine.Execution
import Forthline.Machine.Task
import Forthline.Machine.Wire
import Forthline.Main
import Forthline.Memory
import Forthline.Number.Binary64
import Forthline.Number.Numeral
import Forthline.Number.Power
import Forthline.Number.Shortest
import Forthline.Port
import Forthline.Proofs.Accesses
import Forthline.Proofs.Addresses
import Forthline.Proofs.Ahead
import Forthline.Proofs.Aliases
import Forthline.Proofs.Allocation
import Forthline.Proofs.Atomicity
import Forthline.Proofs.Attachment
import Forthline.Proofs.Bytes
import Forthline.Proofs.Colours
import Forthline.Proofs.Contained
import Forthline.Proofs.CountedLoops
import Forthline.Proofs.Cursor
import Forthline.Proofs.Defining
import Forthline.Proofs.Detaching
import Forthline.Proofs.Division
import Forthline.Proofs.Equipment
import Forthline.Proofs.Evaluation
import Forthline.Proofs.Extent
import Forthline.Proofs.Fences
import Forthline.Proofs.Fetching
import Forthline.Proofs.Flight
import Forthline.Proofs.Frames
import Forthline.Proofs.Hearing
import Forthline.Proofs.HostNames
import Forthline.Proofs.Hosting
import Forthline.Proofs.Housing
import Forthline.Proofs.Interpreting
import Forthline.Proofs.Invariants
import Forthline.Proofs.Isolation
import Forthline.Proofs.Joining
import Forthline.Proofs.Keys
import Forthline.Proofs.Known
import Forthline.Proofs.Layout
import Forthline.Proofs.Legible
import Forthline.Proofs.Library
import Forthline.Proofs.LifeCycle
import Forthline.Proofs.Loading
import Forthline.Proofs.Logging
import Forthline.Proofs.Lookahead
import Forthline.Proofs.LoopFree
import Forthline.Proofs.Lowercase
import Forthline.Proofs.Naming
import Forthline.Proofs.Native
import Forthline.Proofs.Nesting
import Forthline.Proofs.Numerals
import Forthline.Proofs.Outcomes
import Forthline.Proofs.Packing
import Forthline.Proofs.Performing
import Forthline.Proofs.Permanence
import Forthline.Proofs.Persistence
import Forthline.Proofs.PortIndex
import Forthline.Proofs.Printing
import Forthline.Proofs.Program
import Forthline.Proofs.Provenance
import Forthline.Proofs.Reachable
import Forthline.Proofs.ReadOnly
import Forthline.Proofs.Reading
import Forthline.Proofs.Recovery
import Forthline.Proofs.Registration
import Forthline.Proofs.Rendering
import Forthline.Proofs.ResolvedView
import Forthline.Proofs.Results
import Forthline.Proofs.ReturnStack
import Forthline.Proofs.Scanning
import Forthline.Proofs.Spaces
import Forthline.Proofs.Sparing
import Forthline.Proofs.Spelling
import Forthline.Proofs.StackLines
import Forthline.Proofs.StandardWords
import Forthline.Proofs.Subscriptions
import Forthline.Proofs.Suspension
import Forthline.Proofs.Tables
import Forthline.Proofs.Territory
import Forthline.Proofs.Turns
import Forthline.Proofs.Updates
import Forthline.Proofs.Vocabulary
import Forthline.Proofs.Wrapping
import Forthline.Session
import Forthline.Session.Device
import Forthline.Session.Event
import Forthline.Shell
import Forthline.Shell.Arguments
import Forthline.Shell.Console
import Forthline.Shell.Path
import Forthline.Signature
import Forthline.Signature.OperatorName
import Forthline.Stack
import Forthline.Table
import Forthline.Text.Blank
import Forthline.Text.Casing
import Forthline.Text.Colour
import Forthline.Text.Digit
import Forthline.Text.Lines
import Forthline.Text.Lowercase
import Forthline.Text.Printable
import Forthline.Text.Quoted
import Forthline.Token
import Forthline.Token.Stream
import Forthline.Value
import Forthline.Value.Arithmetic
import Forthline.Value.Conversion
import Forthline.Word
import Forthline.Word.Structure
