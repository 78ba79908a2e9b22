/-!
# Settings

What a configuration, a descriptor or a column shows of itself: a list of named settings, each
absent or of a simple kind.
-/

namespace WideRow

inductive Setting where
  | absent
  | flag (value : Bool)
  | number (value : Int)
  | text (value : String)
  | texts (values : List String)
  /-- Texts by name. -/
  | entries (entries : List (String × String))
  deriving DecidableEq, Repr

abbrev Settings := List (String × Setting)

def Setting.ofText? : Option String → Setting
  | some s => text s
  | none => absent

def Setting.ofNumber? : Option Int → Setting
  | some n => number n
  | none => absent

end WideRow
