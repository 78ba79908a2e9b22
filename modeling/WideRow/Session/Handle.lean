import WideRow.Config.Session

/-!
# Session handles

A handle stands for one open session and counts the references to it. The count starts at zero.
The release that takes it from 1 does not go to 0 but to the mark of a disposed handle, which stays:
a disposed handle takes no reference and gives none back.
-/

namespace WideRow

structure Handle where
  /-- The parameters under which the handle is shared. -/
  key : Params
  config : SessionConfig
  refs : Int32
  deriving DecidableEq

namespace Handle

def disposedRefs : Int32 := -1

def fresh (key : Params) (config : SessionConfig) : Handle :=
  ⟨key, config, 0⟩

def isDisposed (h : Handle) : Bool :=
  h.refs < 0

/-- Takes a reference, and tells whether that was possible. -/
def acquire (h : Handle) : Bool × Handle :=
  if h.isDisposed then (false, h) else (true, ⟨h.key, h.config, h.refs + 1⟩)

/-- Gives a reference back, if there is one, and tells whether this disposed the handle. -/
def release (h : Handle) : Bool × Handle :=
  if h.refs ≤ 0 then (false, h)
  else if h.refs = 1 then (true, ⟨h.key, h.config, disposedRefs⟩)
  else (false, ⟨h.key, h.config, h.refs - 1⟩)

def describe (h : Handle) : String :=
  "SessionHandle \x7b key: " ++ h.key.describe ++ ", refs: " ++ toString h.refs.toInt ++ " \x7d"

end Handle

end WideRow
