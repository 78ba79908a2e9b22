import WideRow.Bytes
import WideRow.Config.Params
import WideRow.Config.Session
import WideRow.Config.Setting
import WideRow.Cursor.Basic
import WideRow.Cursor.Metadata
import WideRow.Cursor.Options
import WideRow.Cursor.Record
import WideRow.Error.Basic
import WideRow.Error.Code
import WideRow.Number.Binary
import WideRow.Number.Decimal
import WideRow.Number.Limbs
import WideRow.Number.Shortest
import WideRow.Number.Varint
import WideRow.Proofs.Access
import WideRow.Proofs.Accessors
import WideRow.Proofs.Account
import WideRow.Proofs.Building
import WideRow.Proofs.Bytes
import WideRow.Proofs.Coherence
import WideRow.Proofs.Collection
import WideRow.Proofs.CollectionGrammar
import WideRow.Proofs.CustomText
import WideRow.Proofs.DecimalText
import WideRow.Proofs.Delivery
import WideRow.Proofs.Digest
import WideRow.Proofs.Entries
import WideRow.Proofs.FailedCalls
import WideRow.Proofs.FailedOpening
import WideRow.Proofs.FirstFault
import WideRow.Proofs.Fits
import WideRow.Proofs.Framing
import WideRow.Proofs.Holding
import WideRow.Proofs.Items
import WideRow.Proofs.Ledger
import WideRow.Proofs.Lifecycle
import WideRow.Proofs.Lookup
import WideRow.Proofs.Numeral
import WideRow.Proofs.Overflow
import WideRow.Proofs.OwnFault
import WideRow.Proofs.PoolSteps
import WideRow.Proofs.Prospect
import WideRow.Proofs.Pulls
import WideRow.Proofs.Quiet
import WideRow.Proofs.Readable
import WideRow.Proofs.Record
import WideRow.Proofs.Refusal
import WideRow.Proofs.Requests
import WideRow.Proofs.Result
import WideRow.Proofs.Rewrite
import WideRow.Proofs.Roster
import WideRow.Proofs.RoundTrip
import WideRow.Proofs.Rounds
import WideRow.Proofs.Scalar
import WideRow.Proofs.Served
import WideRow.Proofs.Sessions
import WideRow.Proofs.Sharing
import WideRow.Proofs.Slots
import WideRow.Proofs.Span
import WideRow.Proofs.Spelling
import WideRow.Proofs.Tallies
import WideRow.Proofs.TypeGrammar
import WideRow.Proofs.TypeRendering
import WideRow.Proofs.TypeToken
import WideRow.Proofs.Utf8
import WideRow.Proofs.Varint
import WideRow.Proofs.Vint
import WideRow.Proofs.WireGrammar
import WideRow.Row.Basic
import WideRow.Row.Cell
import WideRow.Row.Column
import WideRow.Row.Page
import WideRow.Row.Source
import WideRow.Schema.ColumnType
import WideRow.Schema.Kind
import WideRow.Schema.Registry
import WideRow.Schema.TypeName
import WideRow.Session.Backend
import WideRow.Session.Cache
import WideRow.Session.Handle
import WideRow.Session.Pool
import WideRow.Session.Script
import WideRow.Session.Slots
import WideRow.Text.Character
import WideRow.Text.Numeral
import WideRow.Text.Quoted
import WideRow.Text.Unseen
import WideRow.Text.Utf8
import WideRow.Time.Calendar
import WideRow.Time.Duration
import WideRow.Time.Instant
import WideRow.Value.Address
import WideRow.Value.Basic
import WideRow.Value.Collection
import WideRow.Value.Digest
import WideRow.Value.Structure
import WideRow.Value.Text
import WideRow.Wire.CustomText
import WideRow.Wire.Decode
import WideRow.Wire.Encode
import WideRow.Wire.Framing
import WideRow.Wire.Scalar
import WideRow.Wire.Vint
import WideRow.Proofs.Assembly
import WideRow.Proofs.Password
import WideRow.Proofs.Rescaling
import WideRow.Proofs.IntegerText
import WideRow.Proofs.BoundedNumeral
import WideRow.Proofs.DecimalGrammar
import WideRow.Proofs.DurationGrammar
import WideRow.Proofs.Limbs
import WideRow.Proofs.Narrowing
import WideRow.Proofs.NormalForm
import WideRow.Proofs.DurationText
import WideRow.Proofs.Quoting
import WideRow.Proofs.CellText
import WideRow.Proofs.LenientRead
import WideRow.Proofs.Totality
import WideRow.Proofs.OwnEntry
import WideRow.Proofs.ColumnReferences
import WideRow.Proofs.ContactPoints
import WideRow.Proofs.WordSpacing
import WideRow.Proofs.Acceptance
import WideRow.Proofs.DecimalLength
import WideRow.Proofs.Descriptions
import WideRow.Proofs.PrefixCode
import WideRow.Proofs.WordArithmetic
import WideRow.Proofs.RepeatedRounding
import WideRow.Proofs.RefCount
