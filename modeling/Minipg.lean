import Minipg.Hooks.Pairing
import Minipg.Js.Calendar
import Minipg.Js.Float
import Minipg.Js.Rounding
import Minipg.Json.Bigints
import Minipg.Json.Buffer
import Minipg.Json.Keys
import Minipg.Json.Text
import Minipg.Lib.Related
import Minipg.Lib.Repeats
import Minipg.Sigv4.Agreement
import Minipg.Streams.Backpressure
import Minipg.Url.Redaction
import Minipg.Wkb.Encoding
import Minipg.Auth.Mutual
import Minipg.Decode.Agreement
import Minipg.Decode.BigEndian
import Minipg.Decode.BinaryArrays
import Minipg.Decode.Dispatch
import Minipg.Decode.Entries
import Minipg.Decode.Floats
import Minipg.Decode.Instants
import Minipg.Decode.MapperKeys
import Minipg.Decode.Milliseconds
import Minipg.Decode.Numerals
import Minipg.Decode.Numeric
import Minipg.Decode.Places
import Minipg.Decode.Reuse
import Minipg.Decode.Scan
import Minipg.Decode.ServerTexts
import Minipg.Decode.Standard
import Minipg.Decode.Timestamps
import Minipg.Encode.Arrays
import Minipg.Encode.Copy
import Minipg.Encode.CopyBinary
import Minipg.Encode.Identity
import Minipg.Encode.Nulls
import Minipg.Encode.Refinement
import Minipg.Wire.Exact
import Minipg.Wire.Framing
import Minipg.Wire.Parser
import Minipg.Bulk.Cache
import Minipg.Bulk.Delivery
import Minipg.Connection.Contract
import Minipg.Connection.Copying
import Minipg.Connection.Dialing
import Minipg.Connection.Dispatch
import Minipg.Connection.Retry
import Minipg.Connection.Rewind
import Minipg.Names.Session
import Minipg.Pool.Handover
import Minipg.Pool.Parked
import Minipg.Pool.Probes
import Minipg.Transactions.Nested
import Minipg.Transactions.Truth
import Minipg.Http.Elision
import Minipg.Http.Polyfill
import Minipg.Http.Splitting
import Minipg.Neon.Agreement
import Minipg.Neon.Closing
import Minipg.Neon.Raw
import Minipg.Neon.Scanning
import Minipg.Shaped.Positional
import Minipg.Aurora.Arrays
import Minipg.Aurora.Longs
import Minipg.Aurora.Transactions
import Minipg.Cursor.Lease
import Minipg.Cursor.Reading
import Minipg.Cursor.Serving
import Minipg.Replication.Batches
import Minipg.Replication.Flushed
import Minipg.Replication.Messages
import Minipg.Replication.Queue
import Minipg.Replication.Restart
import Minipg.Replication.Sync
import Minipg.Replication.Tuples
import Minipg.Replication.Updates
import Minipg.Cdc.Baseline
import Minipg.Cdc.Handling
import Minipg.Cdc.Recreate
