import Transducer.Label
import Transducer.Text.Quoted
/-!
# Errors

Every way in which building, checking, reading or writing can fail, by cause. The wording of a
cause stands in one function; `Error.message` is the full text and `Error.debugText` the form
shown inside other values. A `Fault` is a call outside its domain, which has no wording of its
own because no caller may rely on it.
-/
namespace Transducer

/-- Why a machine cannot be held in a packed format. -/
inductive Mismatch where
  /-- The machine lacks traits that the packing relies on. -/
  | traits (tag : String) (required : UInt64)
  /-- The entries of all states together do not fill states of equal size. -/
  | total (arcs finals states arity : Nat) (tag : String)
  /-- As `total`, when only the number of entries is known. -/
  | entries (entries states arity : Nat)
  /-- One state has more or fewer entries than every state must have. -/
  | state (state : StateId) (entries arity : Nat) (tag : String)
  /-- A position among the entries is too large for an offset. -/
  | offset (position bits : Nat)
  deriving DecidableEq, Repr

def Mismatch.message : Mismatch → String
  | traits tag required =>
    s!"{tag} compactor requires properties {Text.hexWord required.toNat}"
  | total arcs finals states arity tag =>
    s!"{arcs} arcs and {finals} final states do not fill {states} states of {arity} entries ({tag})"
  | entries count states arity => s!"{count} entries do not fill {states} states of {arity}"
  | state s count arity tag => s!"state {s.toInt} has {count} entries, {tag} expects {arity}"
  | offset index bits => s!"{index} compacts do not fit a {bits}-bit index"

/-- Why a sequence of packed elements, or a store, does not form the machine asked for. -/
inductive IllFormed where
  | remainder (elements arity : Nat)
  | arcBeforeState
  | target (state : Nat) (target : StateId) (states : Nat)
  | shape (storeStates : Nat) (storeStart : StateId) (states : Nat) (start : StateId)
  deriving DecidableEq, Repr

def IllFormed.message : IllFormed → String
  | remainder elements arity => s!"{elements} elements do not divide into states of {arity}"
  | arcBeforeState => "arc element precedes the first state marker"
  | target s next states => s!"arc from state {s} to {next.toInt} outside 0..{states}"
  | shape storeStates storeStart states start =>
    s!"store has {storeStates} states from {storeStart.toInt}, FST has {states} from {start.toInt}"

/-- Why bytes are not a file, or a value cannot be written to one. -/
inductive BadHeader where
  | negativeLength (length : Int32)
  | notText
  | longText (bytes : Nat)
  | arrayLength (length : Nat)
  | magic (source : String) (found : UInt32)
  | negativeCounts (source : String) (states arcs : Int64)
  | stateCount (states : Int)
  | arcCount (arcs : Int)
  | groupCount (states arity : Nat)
  | unsortedOffsets
  | firstOffset
  | version (source : String) (found oldest : Int32)
  | typeName (source found expected : String)
  | arcName (source found expected : String)
  | start (source : String) (start states : Int64)
  deriving DecidableEq, Repr

def BadHeader.message : BadHeader → String
  | negativeLength length => s!"negative string length {length.toInt}"
  | notText => "invalid UTF-8 string"
  | longText bytes => s!"string of {bytes} bytes"
  | arrayLength length => s!"array of {length} elements overflows"
  | magic source found => s!"{source}: bad magic number {Text.hexPadded 8 found.toNat}"
  | negativeCounts source states arcs =>
    s!"{source}: negative counts (states {states.toInt}, arcs {arcs.toInt})"
  | stateCount states => s!"{states} states"
  | arcCount arcs => s!"{arcs} arcs"
  | groupCount states arity => s!"{states} states of {arity}"
  | unsortedOffsets => "state offsets are not monotone"
  | firstOffset => "first state offset is not zero"
  | version source found oldest =>
    s!"{source}: file version {found.toInt} is older than {oldest.toInt}"
  | typeName source found expected =>
    s!"{source}: FST type {Text.quoted found} is not {Text.quoted expected}"
  | arcName source found expected =>
    s!"{source}: arc type {Text.quoted found} is not {Text.quoted expected}"
  | start source found states => s!"{source}: start {found.toInt} outside {states.toInt} states"

/-- Why bytes are not a symbol table. -/
inductive BadSymbols where
  | magic (found : Int32)
  | negativeCount (count : Int64)
  | duplicate (symbol : String) (key : Int64)
  deriving DecidableEq, Repr

def BadSymbols.message : BadSymbols → String
  | magic found => s!"bad magic number {found.toInt}"
  | negativeCount count => s!"negative symbol count {count.toInt}"
  | duplicate symbol key => s!"duplicate entry {Text.quoted symbol} -> {key.toInt}"

/-- Why a text is no weight, or a weight format is ambiguous. -/
inductive BadWeight where
  | blankSeparator
  | sameParentheses
  | separatorParenthesis
  | missingParentheses (text : String)
  | unbalancedParentheses (text : String)
  | unreadable (text : String)
  deriving DecidableEq, Repr

def BadWeight.message : BadWeight → String
  | blankSeparator => "weight separator must not be whitespace"
  | sameParentheses => "weight parentheses must be two distinct characters"
  | separatorParenthesis => "weight parentheses must differ from the separator"
  | missingParentheses text => s!"missing parentheses in {Text.quoted text}"
  | unbalancedParentheses text => s!"unbalanced parentheses in {Text.quoted text}"
  | unreadable text => s!"cannot parse {Text.quoted text}"

/-- A call outside the domain of an operation. -/
inductive Fault where
  | zeroAlignment
  | stateOutOfRange
  | regionPastEnd
  | tooManyPlaces
  deriving DecidableEq, Repr

inductive Error where
  | mismatch (cause : Mismatch)
  | illFormed (cause : IllFormed)
  /-- A borrowed array does not start at a multiple of its alignment. -/
  | misaligned (offset alignment : Nat)
  | shortRead (expected actual : Nat)
  | shortWrite
  | badHeader (cause : BadHeader)
  /-- The source of an operation is itself the result of a failure. -/
  | propagated
  | badSymbols (cause : BadSymbols)
  | badWeight (cause : BadWeight)
  /-- The outside world failed, in its own words. -/
  | io (message : String)
  | fault (cause : Fault)
  deriving DecidableEq, Repr

namespace Error

/-- The failure of opening a file that does not exist. -/
def missingFile : Error := io "No such file or directory (os error 2)"

/-- The name of the kind of error. -/
def kind : Error → String
  | mismatch _ => "IncompatibleCompactor"
  | illFormed _ => "IllFormedInput"
  | misaligned .. => "Alignment"
  | shortRead .. => "ShortRead"
  | shortWrite => "ShortWrite"
  | badHeader _ => "BadHeader"
  | propagated => "PropagatedError"
  | badSymbols _ => "InvalidSymbolTable"
  | badWeight _ => "InvalidWeight"
  | io _ => "Io"
  | fault _ => "Fault"

def misalignment (offset alignment : Nat) : String :=
  s!"offset {offset} is not aligned to {alignment} bytes"

/-- The full text of an error. -/
def message : Error → String
  | mismatch cause => "compactor incompatible with FST: " ++ cause.message
  | illFormed cause => "ill-formed input container: " ++ cause.message
  | misaligned offset alignment => "alignment failed: " ++ misalignment offset alignment
  | shortRead expected actual => s!"short read: expected {expected} bytes, got {actual}"
  | shortWrite => "short write"
  | badHeader cause => "bad header: " ++ cause.message
  | propagated => "source FST is in an error state"
  | badSymbols cause => "invalid symbol table: " ++ cause.message
  | badWeight cause => "invalid weight: " ++ cause.message
  | io message => message
  | fault .zeroAlignment => "alignment to a multiple of zero"
  | fault .stateOutOfRange => "state out of range"
  | fault .regionPastEnd => "region past the end"
  | fault .tooManyPlaces => "too many decimal places"

/-- The text of an error inside a larger value: its kind and, in quotes, its cause. -/
def debugText (e : Error) : String :=
  match e with
  | mismatch cause => s!"{e.kind}({Text.quoted cause.message})"
  | illFormed cause => s!"{e.kind}({Text.quoted cause.message})"
  | misaligned offset alignment => s!"{e.kind}({Text.quoted (misalignment offset alignment)})"
  | shortRead expected actual =>
    e.kind ++ " \x7b expected: " ++ toString expected ++ ", actual: " ++ toString actual ++ " \x7d"
  | badHeader cause => s!"{e.kind}({Text.quoted cause.message})"
  | badSymbols cause => s!"{e.kind}({Text.quoted cause.message})"
  | badWeight cause => s!"{e.kind}({Text.quoted cause.message})"
  | io message => s!"{e.kind}({Text.quoted message})"
  | shortWrite | propagated | fault _ => e.kind

end Error
end Transducer
