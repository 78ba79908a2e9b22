/-!
# Error codes

Every error has a code. A code has a number, whose high byte names its category, and a five
character SQL state for tools that sort errors by it.
-/

namespace WideRow

inductive ErrorCode where
  | unknown
  | internal
  | notSupported
  | invalidArgument
  | unknownType
  | decode
  | invalidScale
  | typeMismatch
  | noSuchColumn
  | columnIndexOutOfRange
  | noCurrentRow
  | cursorClosed
  | invalidFetch
  | connectionFailed
  | connectionClosed
  | queryFailed
  | invalidConfig
  deriving DecidableEq, Repr

namespace ErrorCode

/-- Every code, in the order of the numbers. -/
def all : List ErrorCode :=
  [unknown, internal, notSupported, invalidArgument, unknownType, decode, invalidScale,
    typeMismatch, noSuchColumn, columnIndexOutOfRange, noCurrentRow, cursorClosed, invalidFetch,
    connectionFailed, connectionClosed, queryFailed, invalidConfig]

def number : ErrorCode → UInt16
  | unknown => 0x0000
  | internal => 0x0001
  | notSupported => 0x0002
  | invalidArgument => 0x0003
  | unknownType => 0x0100
  | decode => 0x0101
  | invalidScale => 0x0102
  | typeMismatch => 0x0103
  | noSuchColumn => 0x0200
  | columnIndexOutOfRange => 0x0201
  | noCurrentRow => 0x0300
  | cursorClosed => 0x0301
  | invalidFetch => 0x0302
  | connectionFailed => 0x0400
  | connectionClosed => 0x0401
  | queryFailed => 0x0402
  | invalidConfig => 0x0403

def name : ErrorCode → String
  | unknown => "Unknown"
  | internal => "Internal"
  | notSupported => "NotSupported"
  | invalidArgument => "InvalidArgument"
  | unknownType => "UnknownType"
  | decode => "Decode"
  | invalidScale => "InvalidScale"
  | typeMismatch => "TypeMismatch"
  | noSuchColumn => "NoSuchColumn"
  | columnIndexOutOfRange => "ColumnIndexOutOfRange"
  | noCurrentRow => "NoCurrentRow"
  | cursorClosed => "CursorClosed"
  | invalidFetch => "InvalidFetch"
  | connectionFailed => "ConnectionFailed"
  | connectionClosed => "ConnectionClosed"
  | queryFailed => "QueryFailed"
  | invalidConfig => "InvalidConfig"

/-- The category that the high byte of the number stands for. -/
def category (code : ErrorCode) : String :=
  match code.number.toNat / 256 with
  | 0 => "General"
  | 1 => "Type"
  | 2 => "Column"
  | 3 => "Cursor"
  | 4 => "Session"
  | _ => "Unknown"

def sqlState : ErrorCode → String
  | unknown | internal => "HY000"
  | notSupported => "0A000"
  | invalidArgument => "HY009"
  | unknownType => "HY004"
  | decode => "22018"
  | invalidScale => "22003"
  | typeMismatch => "22005"
  | noSuchColumn => "42S22"
  | columnIndexOutOfRange => "07009"
  | noCurrentRow => "24000"
  | cursorClosed => "HY010"
  | invalidFetch => "HY024"
  | connectionFailed => "08001"
  | connectionClosed => "08003"
  | queryFailed => "42000"
  | invalidConfig => "HY024"

end ErrorCode

end WideRow
