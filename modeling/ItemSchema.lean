import ItemSchema.Attribute
import ItemSchema.Codec.Decoding
import ItemSchema.Codec.Encoding
import ItemSchema.Error
import ItemSchema.Exchange
import ItemSchema.Expression.Alias
import ItemSchema.Expression.Comparison
import ItemSchema.Expression.Condition
import ItemSchema.Expression.Draft
import ItemSchema.Expression.Legality
import ItemSchema.Expression.Operator
import ItemSchema.Expression.Printer
import ItemSchema.Expression.Statement
import ItemSchema.Expression.Update
import ItemSchema.Instant
import ItemSchema.Instant.Calendar
import ItemSchema.Instant.Printer
import ItemSchema.Instant.Reader
import ItemSchema.Json
import ItemSchema.Json.Parser
import ItemSchema.Json.Printer
import ItemSchema.Json.Reading
import ItemSchema.Json.Token
import ItemSchema.Numeral.Binary64
import ItemSchema.Numeral.Decimal
import ItemSchema.Numeral.Decimal.Reader
import ItemSchema.Numeral.Digits
import ItemSchema.Numeral.Int128
import ItemSchema.Numeral.StoreNumber
import ItemSchema.Path
import ItemSchema.Path.Reader
import ItemSchema.Proofs.Codec.Encoding
import ItemSchema.Proofs.Codec.Locality
import ItemSchema.Proofs.Codec.NormalForm
import ItemSchema.Proofs.Codec.Rereading
import ItemSchema.Proofs.Codec.RoundTrip
import ItemSchema.Proofs.Except
import ItemSchema.Proofs.Expression.Alias
import ItemSchema.Proofs.Expression.Clause
import ItemSchema.Proofs.Expression.Lookup
import ItemSchema.Proofs.Expression.Meaning
import ItemSchema.Proofs.Expression.Mention
import ItemSchema.Proofs.Expression.Reader
import ItemSchema.Proofs.Expression.Reading
import ItemSchema.Proofs.Expression.Run
import ItemSchema.Proofs.Expression.Source
import ItemSchema.Proofs.Expression.Spelling
import ItemSchema.Proofs.Expression.Token
import ItemSchema.Proofs.Expression.Tree
import ItemSchema.Proofs.Instant.Calendar
import ItemSchema.Proofs.Instant.Order
import ItemSchema.Proofs.Instant.Text
import ItemSchema.Proofs.Numeral.Decimal
import ItemSchema.Proofs.Numeral.Digits
import ItemSchema.Proofs.Numeral.Int128
import ItemSchema.Proofs.Record
import ItemSchema.Proofs.Request.Alias
import ItemSchema.Proofs.Request.Source
import ItemSchema.Proofs.Schema.Resolution
import ItemSchema.Proofs.Schema.WellFormed
import ItemSchema.Proofs.Table.Entity
import ItemSchema.Proofs.Value
import ItemSchema.Record
import ItemSchema.Request
import ItemSchema.Request.Get
import ItemSchema.Request.Option
import ItemSchema.Request.Printer
import ItemSchema.Request.Reader
import ItemSchema.Request.Search
import ItemSchema.Request.Update
import ItemSchema.Request.Write
import ItemSchema.Response
import ItemSchema.Response.Printer
import ItemSchema.Response.Reader
import ItemSchema.Schema
import ItemSchema.Schema.Printer
import ItemSchema.Schema.Reader
import ItemSchema.Schema.Resolution
import ItemSchema.Schema.Validation
import ItemSchema.Schema.View
import ItemSchema.Spelling
import ItemSchema.Table
import ItemSchema.Table.Config
import ItemSchema.Text.Base64
import ItemSchema.Text.Blank
import ItemSchema.Text.DecimalDigit
import ItemSchema.Text.Invisible
import ItemSchema.Text.Quoted
import ItemSchema.Text.Split
import ItemSchema.Value
import ItemSchema.Value.Json
import ItemSchema.Wire
import ItemSchema.Wire.Printer
import ItemSchema.Wire.Reader
import ItemSchema.Proofs.Request.Operand
import ItemSchema.Proofs.Expression.Renaming
import ItemSchema.Proofs.Expression.Count
import ItemSchema.Proofs.Expression.Numbering
import ItemSchema.Proofs.Expression.Allocation
import ItemSchema.Proofs.Expression.Building
import ItemSchema.Proofs.Request.Calls
import ItemSchema.Proofs.Request.Keys
import ItemSchema.Proofs.Request.Pending
import ItemSchema.Proofs.Request.Latest
import ItemSchema.Proofs.Request.Outcome
import ItemSchema.Proofs.Exchange
import ItemSchema.Proofs.Schema.Descent
import ItemSchema.Proofs.Codec.Lenience
import ItemSchema.Proofs.Schema.View
import ItemSchema.Proofs.Schema.Walk
import ItemSchema.Proofs.Json.Depth
import ItemSchema.Proofs.Json.Parser
import ItemSchema.Proofs.Text.Base64
import ItemSchema.Proofs.Text.Bytes
import ItemSchema.Proofs.Numeral.Order
import ItemSchema.Proofs.Wire.Order
import ItemSchema.Proofs.Json.Reading
import ItemSchema.Proofs.Wire.Json
import ItemSchema.Proofs.Wire.Text
import ItemSchema.Proofs.Codec.Conformance
import ItemSchema.Proofs.Codec.PartialItem
import ItemSchema.Proofs.Codec.Failure
import ItemSchema.Proofs.Codec.Filling
import ItemSchema.Proofs.Codec.FirstFault
import ItemSchema.Proofs.Request.Items
import ItemSchema.Proofs.Path.Grammar
import ItemSchema.Proofs.Path.Text
import ItemSchema.Proofs.Expression.UpdateReading
import ItemSchema.Proofs.Request.Change
import ItemSchema.Proofs.Table.PrimaryKey
import ItemSchema.Proofs.Request.Address
import ItemSchema.Proofs.Numeral.Rounding
import ItemSchema.Proofs.Numeral.Places
import ItemSchema.Proofs.Numeral.Literal
import ItemSchema.Proofs.Numeral.Exactness
import ItemSchema.Proofs.Codec.Number
import ItemSchema.Proofs.Codec.Clock
import ItemSchema.Proofs.Codec.Clock
import ItemSchema.Proofs.Codec.Date
import ItemSchema.Proofs.Codec.DateOrder
import ItemSchema.Proofs.Codec.Distinct
import ItemSchema.Proofs.Codec.Set
import ItemSchema.Proofs.Schema.Text
import ItemSchema.Proofs.Schema.Tree
import ItemSchema.Proofs.Codec.Untyped
import ItemSchema.Proofs.Codec.WritingBack
import ItemSchema.Proofs.Paging
import ItemSchema.Proofs.Projection
import ItemSchema.Proofs.Expression.Legality
import ItemSchema.Proofs.Expression.Evaluation
import ItemSchema.Proofs.Request.Guard
import ItemSchema.Proofs.Request.Removal
import ItemSchema.Proofs.Json.Number
import ItemSchema.Proofs.Value.Json
import ItemSchema.Proofs.Codec.Document
import ItemSchema.Proofs.Codec.Clock
