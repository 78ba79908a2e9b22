import WideRow.Proofs.Delivery

/-! # What a client may ask of a cursor -/

namespace WideRow

/-! ## Requests -/

/-- What a client may ask without touching any row. -/
inductive Query where
  | position
  | rowNumber
  | isBeforeFirst
  | isAfterLast
  | isFirst
  | isClosed
  | wasNull
  | fetchDirection
  | fetchSize
  | cursorType

inductive Request : Type 1 where
  | call (call : Call)
  | query (query : Query)
  | close

/-- Whether a request looks ahead of the current row. -/
def Request.looksAhead : Request → Bool
  | .call .isLast => true
  | _ => false

/-- Whether a request leaves the rows alone. -/
def Request.IsQuiet : Request → Prop
  | .call .next | .call .isLast | .close => False
  | _ => True

theorem Request.kinds (request : Request) :
    request = .call .next ∨ request = .call .isLast ∨ request = .close ∨ request.IsQuiet := by
  cases request with
  | query query => simp [IsQuiet]
  | close => simp
  | call call => cases call <;> simp [IsQuiet]

/-! ## Replies -/

def Call.Reply : Call → Type
  | .next | .isLast | .moveTo _ => Result Bool
  | @Call.get α _ _ => Result α
  | .findColumn _ => Result Nat
  | .metadata => Metadata
  | .setFetchDirection _ | .setFetchSize _ => Result Unit

def Query.Reply : Query → Type
  | .position => Position
  | .rowNumber => Nat
  | .isBeforeFirst | .isAfterLast | .isFirst | .isClosed | .wasNull => Bool
  | .fetchDirection => FetchDirection
  | .fetchSize => Int32
  | .cursorType => CursorType

def Request.Reply : Request → Type
  | .call c => c.Reply
  | .query q => q.Reply
  | .close => Unit

namespace Cursor

def answer (c : Cursor) : (query : Query) → query.Reply
  | .position => c.position
  | .rowNumber => c.rowNumber
  | .isBeforeFirst => c.isBeforeFirst
  | .isAfterLast => c.isAfterLast
  | .isFirst => c.isFirst
  | .isClosed => c.isClosed
  | .wasNull => c.wasNull
  | .fetchDirection => c.options.fetchDirection
  | .fetchSize => c.options.fetchSize
  | .cursorType => c.options.cursorType

/-- The reply to a request, and the cursor that it leaves. -/
def serve (c : Cursor) : (request : Request) → request.Reply × Cursor
  | .call .next => c.next
  | .call .isLast => c.isLast
  | .call (.get column read) => c.get column read
  | .call (.findColumn name) => (c.findColumn name, c)
  | .call .metadata => (c.metadata, c)
  | .call (.moveTo move) => (c.moveTo move, c)
  | .call (.setFetchDirection direction) => c.setFetchDirection direction
  | .call (.setFetchSize size) => c.setFetchSize size
  | .query q => (c.answer q, c)
  | .close => ((), c.close)

/-- The cursor that requests leave, one after the other. -/
def run (c : Cursor) (requests : List Request) : Cursor :=
  requests.foldl (fun c request => (c.serve request).2) c

/-- The requests with the replies to them. -/
def replies (c : Cursor) : List Request → List (Σ request : Request, request.Reply)
  | [] => []
  | request :: requests => ⟨request, (c.serve request).1⟩ :: (c.serve request).2.replies requests

theorem run_cons (c : Cursor) (request : Request) (requests : List Request) :
    c.run (request :: requests) = (c.serve request).2.run requests := rfl

theorem state_serve (c : Cursor) {request : Request} (h : request.IsQuiet) :
    (c.serve request).2.state = c.state := by
  cases request with
  | query query => rfl
  | close => exact h.elim
  | call call =>
    cases call with
    | next => exact h.elim
    | isLast => exact h.elim
    | get column read => exact state_get c column read
    | setFetchDirection direction => exact state_setFetchDirection c direction
    | setFetchSize size => exact state_setFetchSize c size
    | findColumn name => rfl
    | metadata => rfl
    | moveTo move => rfl

end Cursor

end WideRow
