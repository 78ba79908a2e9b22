import WideRow.Config.Setting

/-!
# Cursor options

A statement hands its cursor hints about fetching and the kind of cursor that it wants. Directions
and kinds have the numbers that tabular clients know.
-/

namespace WideRow

inductive FetchDirection where
  | forward
  | reverse
  | unknown
  deriving DecidableEq, Repr

namespace FetchDirection

def code : FetchDirection → Int32
  | forward => 1000
  | reverse => 1001
  | unknown => 1002

def ofCode? (code : Int) : Option FetchDirection :=
  [forward, reverse, unknown].find? (·.code.toInt == code)

def name : FetchDirection → String
  | forward => "forward"
  | reverse => "reverse"
  | unknown => "unknown"

end FetchDirection

inductive CursorType where
  | forwardOnly
  | scrollInsensitive
  | scrollSensitive
  deriving DecidableEq, Repr

namespace CursorType

def all : List CursorType :=
  [forwardOnly, scrollInsensitive, scrollSensitive]

def code : CursorType → Int32
  | forwardOnly => 1003
  | scrollInsensitive => 1004
  | scrollSensitive => 1005

def name : CursorType → String
  | forwardOnly => "forward_only"
  | scrollInsensitive => "scroll_insensitive"
  | scrollSensitive => "scroll_sensitive"

def ofName? (name : String) : Option CursorType :=
  all.find? (·.name == name)

end CursorType

structure CursorOptions where
  fetchSize : Int32
  fetchDirection : FetchDirection
  cursorType : CursorType
  /-- The catalog that metadata reports. -/
  catalog : Option String
  deriving DecidableEq, Repr

namespace CursorOptions

def defaultFetchSize : Int32 := 100

def default : CursorOptions where
  fetchSize := defaultFetchSize
  fetchDirection := .forward
  cursorType := .forwardOnly
  catalog := none

def withFetchSize (o : CursorOptions) (size : Int32) : CursorOptions :=
  { o with fetchSize := size }

def withFetchDirection (o : CursorOptions) (direction : FetchDirection) : CursorOptions :=
  { o with fetchDirection := direction }

def withCursorType (o : CursorOptions) (type : CursorType) : CursorOptions :=
  { o with cursorType := type }

def withCatalog (o : CursorOptions) (catalog : String) : CursorOptions :=
  { o with catalog := some catalog }

def settings (o : CursorOptions) : Settings :=
  [("fetch_size", .number o.fetchSize.toInt), ("fetch_direction", .text o.fetchDirection.name),
    ("cursor_type", .text o.cursorType.name), ("catalog", .ofText? o.catalog)]

end CursorOptions

end WideRow
