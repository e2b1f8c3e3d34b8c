import Forthline.Text.Quoted

/-!
# Failures

Everything that can go wrong, as a cause with its data. The kind under which a cause is reported
and its message are functions of the cause.
-/

namespace Forthline

inductive Label where
  | native (name : String)
  | control (code : String)
  | definition (name : String)
  | plain (shown : String)
deriving DecidableEq, Repr

namespace Label

def describe : Label → String
  | native name => s!"native {name}"
  | control code => s!"control {code}"
  | definition name => s!"definition {name}"
  | plain shown => shown

def bracketed : Label → String
  | plain shown => shown
  | l => s!"<{l.describe}>"

def name? : Label → Option String
  | native name => some name
  | definition name => some name
  | _ => none

end Label

/-- Faults of operations on values. Operand types are given by name. -/
inductive ValueFault where
  | integerQuotientByZero
  | integerRemainderByZero
  | realQuotientByZero
  | remainderUndefined
  | operands (operation left right : String)
  | concatenation (right : String)
  | repetition (count : String)
  | repetitionCount
  | repetitionLength
  | exhausted
  | order (relation left right : String)
  | notReal (type : String)
  | integerSyntax (text : String)
  | integerType (type : String)
  | integerTooLong (digits : Nat)
  | integerUnwritable
  | realSyntax (text : String)
  | realType (type : String)
  | infiniteInteger
  | undefinedInteger
  | integerTooLarge
  | characterRange
  | characterWidth
deriving DecidableEq, Repr

/-- Faults of the machinery around the language: lists, listeners, levels and host objects. -/
inductive HostFault where
  | listIndex
  | listAssignment
  | indexWidth
  | lookahead
  | unknownLevel (name : String)
  | levelOrder
  | noListener
  | signInWidth
  | widthDigits
  | textIndex
  | uncallable (shown : String)
  | absentFunction
  | missingKey (shown : String)
  | noAttribute (owner name : String)
  | nesting
deriving DecidableEq, Repr

inductive SignatureFault where
  | variadic (operation : String)
  | noReturn (operation : String)
  | unannotated (operation : String) (parameters : List String)
  | forwardReference
  | unknownType (shown : String)
  | hostName (name : String)
deriving DecidableEq, Repr

inductive Imbalance where
  | strayElse
  | mismatched (code : String)
  | unclosed (form : String)
deriving DecidableEq, Repr

inductive Cause where
  | underflow (stack : String)
  | unnamedWord (word : Label)
  | unnamedRedefinition (target : Label)
  | missingName (code : String)
  | circular (name : String) (chain : List String)
  | alreadyDefined (name key : String)
  | unknownWord (name : String)
  | unknownEntry (name key : String)
  | unbalanced (definition : Option String) (imbalance : Imbalance)
  | unterminated (text : String) (column : Nat)
  | quoteAtEnd
  | unknownPort (device port : String)
  | readOnly (device port : String)
  | incompleteDevice (device : Option String)
  | deviceAttached (device : String)
  | invalidDeclaration (device : String)
  | deviceMissing (device : String)
  | unknownControl (code : String)
  | invalidAction (shown : String)
  | loneTilde
  | tildeForm
  | missingTarget (form : String)
  | addressKind (shown : String)
  | addressRange (address size cells : Int)
  | heapEnd (size address limit : Int)
  | lineInFlight
  | continuationSpent
  | signature (fault : SignatureFault)
  | value (fault : ValueFault)
  | host (fault : HostFault)
  | raised (kind message : String)
deriving DecidableEq, Repr

namespace ValueFault

def kind : ValueFault → String
  | integerQuotientByZero | integerRemainderByZero | realQuotientByZero => "ZeroDivisionError"
  | operands .. | concatenation _ | repetition _ | order .. | notReal _ | integerType _
  | realType _ => "TypeError"
  | remainderUndefined | integerSyntax _ | integerTooLong _ | integerUnwritable | realSyntax _
  | undefinedInteger | characterRange => "ValueError"
  | repetitionCount | repetitionLength | infiniteInteger | integerTooLarge
  | characterWidth => "OverflowError"
  | exhausted => "MemoryError"

def message : ValueFault → String
  | integerQuotientByZero => "integer division or modulo by zero"
  | integerRemainderByZero => "integer modulo by zero"
  | realQuotientByZero => "float division by zero"
  | remainderUndefined => "math domain error"
  | operands op l r => s!"unsupported operand type(s) for {op}: '{l}' and '{r}'"
  | concatenation r => s!"can only concatenate str (not \"{r}\") to str"
  | repetition c => s!"can't multiply sequence by non-int of type '{c}'"
  | repetitionCount => "cannot fit 'int' into an index-sized integer"
  | repetitionLength => "repeated string is too long"
  | exhausted => ""
  | order rel l r => s!"'{rel}' not supported between instances of '{l}' and '{r}'"
  | notReal t => s!"must be real number, not {t}"
  | integerSyntax t =>
    let shown := String.ofList ((Text.quote t).toList.take 200)
    s!"invalid literal for int() with base 10: {shown}"
  | integerType t =>
    s!"int() argument must be a string, a bytes-like object or a real number, not '{t}'"
  | integerTooLong n =>
    s!"Exceeds the limit (4300 digits) for integer string conversion: value has {n} digits; " ++
      "use sys.set_int_max_str_digits() to increase the limit"
  | integerUnwritable =>
    "Exceeds the limit (4300 digits) for integer string conversion; " ++
      "use sys.set_int_max_str_digits() to increase the limit"
  | realSyntax t =>
    let shown := Text.quote t
    s!"could not convert string to float: {shown}"
  | realType t => s!"float() argument must be a string or a real number, not '{t}'"
  | infiniteInteger => "cannot convert float infinity to integer"
  | undefinedInteger => "cannot convert float NaN to integer"
  | integerTooLarge => "int too large to convert to float"
  | characterRange => "chr() arg not in range(0x110000)"
  | characterWidth => "Python int too large to convert to C int"

end ValueFault

namespace HostFault

def kind : HostFault → String
  | listIndex | listAssignment | indexWidth | lookahead | textIndex => "IndexError"
  | unknownLevel _ | noListener | signInWidth | widthDigits => "ValueError"
  | levelOrder | uncallable _ | absentFunction => "TypeError"
  | missingKey _ => "KeyError"
  | noAttribute .. => "AttributeError"
  | nesting => "RecursionError"

def message : HostFault → String
  | listIndex => "list index out of range"
  | listAssignment => "list assignment index out of range"
  | indexWidth => "cannot fit 'int' into an index-sized integer"
  | lookahead => "deque index out of range"
  | unknownLevel name =>
    let shown := Text.quote name
    s!"Unknown level: {shown}"
  | levelOrder => "'>=' not supported between instances of 'int' and 'str'"
  | noListener => "list.remove(x): x not in list"
  | signInWidth => "Sign not allowed in string format specifier"
  | widthDigits => "Too many decimal digits in format string"
  | textIndex => "string index out of range"
  | uncallable shown => s!"{shown} is not a callable object"
  | absentFunction => "'NoneType' object is not callable"
  | missingKey shown => shown
  | noAttribute owner name => s!"'{owner}' object has no attribute '{name}'"
  | nesting => "maximum recursion depth exceeded"

end HostFault

namespace SignatureFault

def message : SignatureFault → String
  | variadic op => s!"Operation `{op}` cannot take variadic arguments."
  | noReturn op => s!"Operation `{op}` must declare a return annotation."
  | unannotated op names =>
    let listed := ", ".intercalate names
    s!"Operation `{op}` must annotate parameters: {listed}."
  | forwardReference => "Forward references and strings-as-types not supported."
  | unknownType shown => s!"Unknown type to normalize: {shown}"
  | hostName name => s!"Operator function `{name}` requires prefix `op_` by convention."

def token? : SignatureFault → Option String
  | variadic op | noReturn op | unannotated op _ | hostName op => some op
  | forwardReference | unknownType _ => none

end SignatureFault

namespace Imbalance

def message : Imbalance → String
  | strayElse => "`else` without matching `if`."
  | mismatched code => s!"`{code}` does not close the open structure."
  | unclosed name => s!"`{name}` is never closed."

end Imbalance

namespace Cause

inductive Family where
  | reading
  | naming
  | compiling
  | running
  | outside
deriving DecidableEq, Repr

def familyOfKind (kind : String) : Family :=
  if ["ForthParseError", "UnterminatedString"].contains kind then .reading
  else if ["DictionaryError", "EmptyName", "CircularDefinition", "DuplicateRedefinition",
      "WordNotFound"].contains kind then .naming
  else if ["CompileError", "UnbalancedControlStructure"].contains kind then .compiling
  else if ["ForthError", "StackUnderflow", "DeviceError", "InvalidPort", "ReadOnlyViolation",
      "InvalidDevice", "ForthRuntimeError", "UnknownControlCode", "InvalidAction",
      "InvalidAddress", "EngineSuspended", "ContinuationSpent",
      "WordSignatureError"].contains kind then .running
  else .outside

def kind : Cause → String
  | underflow _ => "StackUnderflow"
  | unnamedWord _ | unnamedRedefinition _ | missingName _ => "EmptyName"
  | circular .. => "CircularDefinition"
  | alreadyDefined .. => "DuplicateRedefinition"
  | unknownWord _ | unknownEntry .. => "WordNotFound"
  | unbalanced .. => "UnbalancedControlStructure"
  | unterminated .. => "UnterminatedString"
  | quoteAtEnd => "ForthParseError"
  | unknownPort .. => "InvalidPort"
  | readOnly .. => "ReadOnlyViolation"
  | incompleteDevice _ | deviceAttached _ | invalidDeclaration _ | deviceMissing _ =>
    "InvalidDevice"
  | unknownControl _ => "UnknownControlCode"
  | invalidAction _ | loneTilde | tildeForm | missingTarget _ => "InvalidAction"
  | addressKind _ | addressRange .. | heapEnd .. => "InvalidAddress"
  | lineInFlight => "EngineSuspended"
  | continuationSpent => "ContinuationSpent"
  | signature _ => "WordSignatureError"
  | value fault => fault.kind
  | host fault => fault.kind
  | raised kind _ => kind

def family : Cause → Family
  | unnamedWord _ | unnamedRedefinition _ | missingName _ | circular .. | alreadyDefined ..
  | unknownWord _ | unknownEntry .. => .naming
  | unbalanced .. => .compiling
  | unterminated .. | quoteAtEnd => .reading
  | value _ | host _ => .outside
  | raised kind _ => familyOfKind kind
  | _ => .running

/-- Whether a cause belongs to the language, and not to the values or the host below it. -/
def isOwn (c : Cause) : Bool := c.family != .outside

def message : Cause → String
  | underflow stack => s!"Stack underflow in {stack}"
  | unnamedWord _ => "Can't add a word without a name."
  | unnamedRedefinition _ => "Can't redefine a word without a name."
  | missingName code => s!"`{code}` must be followed by a name."
  | circular _ chain =>
    let key := chain.getLastD ""
    let path := " -> ".intercalate chain
    s!"Circular definition detected for word: {key} ({path})"
  | alreadyDefined _ key => s!"Can't redefine word that is already in dictionary: {key}"
  | unknownWord name => s!"Word `{name}` not found in dictionary."
  | unknownEntry _ key => s!"Word not found in dictionary: {key}"
  | unbalanced definition imbalance =>
    let place := match definition with
      | some name => if name.isEmpty then "" else s!" in `{name}`"
      | none => ""
    "Unbalanced control structure" ++ place ++ ": " ++ imbalance.message
  | unterminated _ column => s!"Unterminated string literal starting at column {column}."
  | quoteAtEnd => "Unexpected end of input after quote."
  | unknownPort device port => s!"Unknown port `{device}.{port}`."
  | readOnly device port => s!"Port `{device}.{port}` is read-only."
  | incompleteDevice _ => "Device must have namespace and ports defined."
  | deviceAttached device => s!"Device namespace `{device}` is already attached."
  | invalidDeclaration device => s!"Device `{device}` declares an invalid port."
  | deviceMissing device => s!"No device attached under `{device}`."
  | unknownControl code => s!"Unknown control code: {code}"
  | invalidAction shown => s!"Invalid action encountered during execution: {shown}"
  | loneTilde => "`~` must be followed by a redefinition."
  | tildeForm => "`~` must be followed by `Name is word` or `Name isNow word`."
  | missingTarget form => s!"`{form}` expects a target word."
  | addressKind shown => s!"Address `{shown}` is not an integer."
  | addressRange address size cells =>
    s!"Address {address} (+{size}) is outside memory of {cells} cells."
  | heapEnd size address limit =>
    s!"Cannot allot {size} cell(s) at {address}, the heap ends at {limit}."
  | lineInFlight => "A line is still in flight; wait for it before reading another one."
  | continuationSpent => "This continuation has already resumed its line."
  | signature fault => fault.message
  | value fault => fault.message
  | host fault => fault.message
  | raised kind text => if kind = "KeyError" then Text.quote text else text

def token? : Cause → Option String
  | missingName code => some code
  | circular name _ => some name
  | alreadyDefined name _ => some name
  | unknownWord name => some name
  | unknownEntry name _ => some name
  | unbalanced definition _ => definition
  | unterminated text _ => some text
  | quoteAtEnd => some "\""
  | unknownControl code => some code
  | loneTilde | tildeForm => some "~"
  | missingTarget form => some form
  | addressKind shown => some shown
  | addressRange address _ _ => some (toString address)
  | signature fault => fault.token?
  | _ => none

def word? : Cause → Option Label
  | unnamedWord word => some word
  | unnamedRedefinition target => some target
  | unknownControl code => some (.control code)
  | _ => none

def stack? : Cause → Option String
  | underflow stack => some stack
  | _ => none

def chain : Cause → List String
  | circular _ chain => chain
  | _ => []

def column? : Cause → Option Nat
  | unterminated _ column => some column
  | _ => none

def device? : Cause → Option String
  | unknownPort device _ | readOnly device _ => some device
  | deviceAttached device | invalidDeclaration device | deviceMissing device => some device
  | incompleteDevice device => device
  | _ => none

def port? : Cause → Option String
  | unknownPort _ port | readOnly _ port => some port
  | _ => none

end Cause

/-- A cause together with the word that was running. -/
structure Failure where
  cause : Cause
  running : Option Label := none
deriving DecidableEq, Repr

namespace Failure

def word? (f : Failure) : Option Label := f.cause.word?.or f.running

/-- Records the running word, unless the failure already has one or is not of the language. -/
def during (f : Failure) (word : Label) : Failure :=
  if f.cause.isOwn && f.word?.isNone then { f with running := some word } else f

def shown (f : Failure) : String :=
  if f.cause.message.isEmpty then f.cause.kind else f.cause.message

end Failure

end Forthline
