import CommandLine.Command.Printer
import CommandLine.Command.Read
import CommandLine.Command.Shown
import CommandLine.Completion
import CommandLine.Resolver.Offset
import CommandLine.Value.Read
import CommandLine.Proofs.Footing
import CommandLine.Proofs.Moves
import CommandLine.Proofs.ValueMark
import CommandLine.Proofs.Tandem
import CommandLine.Proofs.Resolving
import CommandLine.Proofs.Strictness
import CommandLine.Proofs.TypedText
import CommandLine.Proofs.Secure
import CommandLine.Proofs.Nesting
import CommandLine.Proofs.Records
import CommandLine.Proofs.Safety
import CommandLine.Proofs.Watching
import CommandLine.Proofs.Depth
import CommandLine.Proofs.Foresight
import CommandLine.Proofs.Transparency
import CommandLine.Proofs.Edits
import CommandLine.Proofs.Faithful
import CommandLine.Proofs.Scenes
import CommandLine.Proofs.Sketches
import CommandLine.Proofs.ValueText
import CommandLine.Proofs.ArgumentText
import CommandLine.Proofs.ArgumentLine
import CommandLine.Proofs.Scanner
import CommandLine.Proofs.Quiet
import CommandLine.Proofs.Unfinished
import CommandLine.Proofs.AddressText
import CommandLine.Proofs.OperationText
import CommandLine.Proofs.Order
import CommandLine.Proofs.Offsets
import CommandLine.Proofs.CommandText
import CommandLine.Proofs.ClosedText
import CommandLine.Proofs.SpacedParts
import CommandLine.Proofs.SpacedOperation
import CommandLine.Proofs.ClosedValues
import CommandLine.Proofs.BuiltValues
import CommandLine.Proofs.ByteNumerals
import CommandLine.Proofs.WrittenValues
import CommandLine.Proofs.Growth
import CommandLine.Proofs.Continuation
import CommandLine.Proofs.Sheltered
import CommandLine.Proofs.Lockstep
import CommandLine.Proofs.Roominess
import CommandLine.Proofs.Allowance
import CommandLine.Proofs.Prefixes
import CommandLine.Proofs.Addresses
import CommandLine.Proofs.Heads
import CommandLine.Proofs.Leftovers
import CommandLine.Proofs.Patience
import CommandLine.Proofs.Closers
import CommandLine.Proofs.Tokenization
import CommandLine.Proofs.Unresolved
import CommandLine.Proofs.EscapedCharacters
import CommandLine.Proofs.WrittenArguments
import CommandLine.Proofs.ValueStarts
import CommandLine.Proofs.ValueErrors
import CommandLine.Proofs.ListMarks
import CommandLine.Proofs.ListSeparators
import CommandLine.Proofs.HeaderLists
import CommandLine.Proofs.Verbatim
import CommandLine.Proofs.ResolvedText
import CommandLine.Proofs.Turns
