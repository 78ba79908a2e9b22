import WideRow.Error.Code
import WideRow.Text.Utf8

/-!
# Errors

An error is its cause. The wording of every cause is in `message`, the code in `code`. Two errors
carry another one inside: a malformed element carries what was wrong with it, and an invalid
configuration carries the parameter at fault; `causes` lists the chain.
-/

namespace WideRow

/-! ## Configuration -/

/-- Why connection parameters make no configuration. -/
inductive ConfigError where
  | missing (key : String)
  | invalid (key value reason : String)
  deriving DecidableEq, Repr

namespace ConfigError

def message : ConfigError → String
  | missing key => "missing connection parameter '" ++ key ++ "'"
  | invalid key value reason =>
    "invalid value '" ++ value ++ "' for connection parameter '" ++ key ++ "': " ++ reason

def code (_ : ConfigError) : ErrorCode :=
  .invalidConfig

end ConfigError

/-! ## Malformed values -/

/-- What is wrong with the bytes or the text of a value. -/
inductive Malformation where
  /-- A fixed-width value of another width. -/
  | width (expected actual : Nat)
  /-- An address is 4 or 16 bytes long. -/
  | addressWidth (actual : Nat)
  /-- A decimal has a scale and at least one byte after it. -/
  | decimalWidth (actual : Nat)
  | emptyValue
  | nonAscii
  | invalidUtf8 (fault : Text.Utf8.Fault)
  /-- The announced number of entries is below zero. -/
  | negativeSize (size : Int)
  /-- More entries are announced than the bytes could hold. -/
  | oversize (size available : Nat)
  /-- The bytes end inside the item that starts at `position`. -/
  | truncated (position length : Nat)
  | trailing (count : Nat)
  | excessFields (actual declared : Nat)
  | excessElements (actual declared : Nat)
  | dateOutOfRange (days : Int)
  | timeOutOfRange (nanoseconds : Int)
  | mixedSigns (months days nanoseconds : Int)
  /-- The bytes end before the named part of a duration. -/
  | missingPart (part : String)
  | partOutOfRange (part : String)
  | notInteger (text : String)
  | notDecimal (text : String)
  /-- Any other reason, in words. -/
  | other (reason : String)
  deriving DecidableEq, Repr

def Malformation.message : Malformation → String
  | width expected actual => s!"expected exactly {expected} bytes, got {actual}"
  | addressWidth actual => s!"expected 4 or 16 bytes, got {actual}"
  | decimalWidth actual => s!"expected at least 5 bytes, got {actual}"
  | emptyValue => "empty value"
  | nonAscii => "non-ASCII byte"
  | invalidUtf8 fault => "invalid UTF-8: " ++ fault.message
  | negativeSize size => s!"negative size {size}"
  | oversize size available => s!"size {size} exceeds the {available} bytes available"
  | truncated position length => s!"truncated at byte {position} of {length}"
  | trailing count => s!"{count} trailing bytes"
  | excessFields actual declared => s!"{actual} fields for a type with {declared}"
  | excessElements actual declared => s!"{actual} elements for a tuple of {declared}"
  | dateOutOfRange days => s!"{days} days is out of range"
  | timeOutOfRange nanoseconds => s!"{nanoseconds} ns is outside a day"
  | mixedSigns months days nanoseconds =>
    s!"components must share a sign: {months} months, {days} days, {nanoseconds} ns"
  | missingPart part => "truncated " ++ part
  | partOutOfRange part => part ++ " out of range"
  | notInteger text => "invalid integer '" ++ text ++ "'"
  | notDecimal text => "invalid decimal '" ++ text ++ "'"
  | other reason => reason

/-! ## All errors -/

inductive ClientError where
  /-- A type name or number that no type has. -/
  | unknownType (name : String)
  | noSuchColumn (name : String)
  /-- A 1-based position outside `1..=count`. -/
  | columnIndexOutOfRange (index : Int) (count : Nat)
  /-- A value of the named type is malformed. -/
  | decode (typeName : String) (malformation : Malformation)
  /-- One element of a collection is malformed, for the reason that `cause` gives. -/
  | element (typeName : String) (index : Nat) (cause : ClientError)
  /-- The type cannot hold a value of this kind. -/
  | encode (typeName valueKind : String)
  /-- The accessor does not read columns of this type. -/
  | typeMismatch (column declared requested : String)
  | invalidScale (stored requested : Int)
  | noCurrentRow
  | cursorClosed
  | featureNotSupported (feature : String)
  | invalidFetchDirection (code : Int)
  | invalidFetchSize (size : Int)
  | connectionFailed (reason : String)
  | connectionClosed
  | queryFailed (reason : String)
  | invalidConfig (cause : ConfigError)
  | internal (reason : String)
  deriving DecidableEq, Repr

/-- What an operation answers: a value or an error. -/
abbrev Result (α : Type) := Except ClientError α

namespace ClientError

def message : ClientError → String
  | unknownType name => "unknown type: " ++ name
  | noSuchColumn name => "no such column '" ++ name ++ "'"
  | columnIndexOutOfRange index count =>
    s!"column index {index} out of range, expected 1..={count}"
  | decode typeName malformation =>
    "cannot decode " ++ typeName ++ ": " ++ malformation.message
  | element typeName index _ =>
    "cannot decode " ++ typeName ++ s!": element {index} is malformed"
  | encode typeName valueKind => "cannot encode " ++ valueKind ++ " as " ++ typeName
  | typeMismatch column declared requested =>
    "cannot read " ++ declared ++ " column '" ++ column ++ "' as " ++ requested
  | invalidScale stored requested =>
    s!"cannot rescale decimal from scale {stored} to {requested} exactly"
  | noCurrentRow => "cursor is not positioned on a row"
  | cursorClosed => "cursor is closed"
  | featureNotSupported feature => "operation not supported: " ++ feature
  | invalidFetchDirection code => s!"illegal fetch direction {code}"
  | invalidFetchSize size => s!"fetch size must be non-negative, got {size}"
  | connectionFailed reason => "connection failed: " ++ reason
  | connectionClosed => "connection closed"
  | queryFailed reason => "query failed: " ++ reason
  | invalidConfig cause => "invalid configuration: " ++ cause.message
  | internal reason => "internal error: " ++ reason

def code : ClientError → ErrorCode
  | unknownType _ => .unknownType
  | noSuchColumn _ => .noSuchColumn
  | columnIndexOutOfRange .. => .columnIndexOutOfRange
  | decode .. | element .. => .decode
  | encode .. => .invalidArgument
  | typeMismatch .. => .typeMismatch
  | invalidScale .. => .invalidScale
  | noCurrentRow => .noCurrentRow
  | cursorClosed => .cursorClosed
  | featureNotSupported _ => .notSupported
  | invalidFetchDirection _ | invalidFetchSize _ => .invalidFetch
  | connectionFailed _ => .connectionFailed
  | connectionClosed => .connectionClosed
  | queryFailed _ => .queryFailed
  | invalidConfig _ => .invalidConfig
  | internal _ => .internal

/-- The messages of the errors inside, outermost first. -/
def causes : ClientError → List String
  | element _ _ cause => cause.message :: cause.causes
  | invalidConfig cause => [cause.message]
  | _ => []

/-- The error for a 1-based position past `count`. A position that exceeds 64 bits with a sign is
reported as the greatest one that does not. -/
def outOfRange (position count : Nat) : ClientError :=
  columnIndexOutOfRange (min position 9223372036854775807 : Nat) count

/-- Whether malformed bytes or text caused the error. -/
def isDecode : ClientError → Bool
  | decode .. | element .. => true
  | _ => false

/-- Whether the same call could succeed later. No error here goes away by itself. -/
def isRetryable (_ : ClientError) : Bool :=
  false

end ClientError

end WideRow
