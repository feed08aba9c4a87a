import DocClient.Argument
import DocClient.Blob.Chunks
import DocClient.Blob.File
import DocClient.Blob.Store
import DocClient.Bson.Basic
import DocClient.Bson.Equality
import DocClient.Bson.Extended
import DocClient.Bson.Marked
import DocClient.Bson.Text
import DocClient.Bson.Written
import DocClient.Codec.Decode
import DocClient.Codec.Encode
import DocClient.Codec.Fields
import DocClient.Codec.Visit
import DocClient.Collation
import DocClient.Collection.Basic
import DocClient.Collection.Bulk
import DocClient.Collection.Indexes
import DocClient.Collection.Write
import DocClient.Conversion
import DocClient.Destination
import DocClient.Digest.Md5
import DocClient.Error
import DocClient.Example.Records
import DocClient.Fields
import DocClient.Index.Key
import DocClient.Index.Model
import DocClient.Notation.Bson
import DocClient.Notation.Tree
import DocClient.Notation.Value
import DocClient.Number.DecimalFloat
import DocClient.Number.Double
import DocClient.Number.DoubleText
import DocClient.Number.Reading
import DocClient.Number.Shortest
import DocClient.ObjectId
import DocClient.Query.Basic
import DocClient.Query.Change
import DocClient.Query.Iter
import DocClient.Query.Pipeline
import DocClient.Session.Address
import DocClient.Session.Basic
import DocClient.Session.Database
import DocClient.Session.Dial
import DocClient.Session.Safety
import DocClient.Text.Hex
import DocClient.Text.Quoted
import DocClient.Text.Unprintable
import DocClient.Time.Basic
import DocClient.Time.Civil
import DocClient.Time.Coercion
import DocClient.Time.Rfc3339
import DocClient.Update
import DocClient.Value.Basic
import DocClient.Value.Build
import DocClient.Value.Equality
import DocClient.Value.Text
import DocClient.Version
import DocClient.Wire.Command
import DocClient.Wire.Cursor
import DocClient.Wire.Playback
import DocClient.Wire.Program
import DocClient.Wire.Reply
import DocClient.Proofs.Wire.Request
import DocClient.Proofs.Collection.Command
import DocClient.Proofs.Collection.Insert
import DocClient.Proofs.Collection.Upkeep
import DocClient.Proofs.Blob.Content
import DocClient.Proofs.Blob.Documents
import DocClient.Proofs.Blob.Attempt
import DocClient.Proofs.Blob.History
import DocClient.Proofs.Blob.Progress
import DocClient.Proofs.Blob.Retention
import DocClient.Proofs.Blob.Ownership
import DocClient.Proofs.Blob.Holdings
import DocClient.Proofs.Blob.Retry
import DocClient.Proofs.Blob.Reading
import DocClient.Proofs.Conversion
import DocClient.Proofs.Wire.Cursor
import DocClient.Proofs.Blob.Loading
import DocClient.Proofs.Blob.Opening
import DocClient.Proofs.Blob.RoundTrip
import DocClient.Proofs.NormalForm
import DocClient.Proofs.OrderedForm
import DocClient.Proofs.Query.Iteration
import DocClient.Proofs.Query.Modification
import DocClient.Proofs.Collection.Batches
import DocClient.Proofs.Wire.Sending
import DocClient.Proofs.Collection.Carrying
import DocClient.Proofs.Collection.Filters
import DocClient.Proofs.Refusal
import DocClient.Proofs.Operation
import DocClient.Proofs.Targeting
import DocClient.Proofs.Collection.Server
import DocClient.Proofs.Collection.Tally
import DocClient.Proofs.Collection.Transparency
import DocClient.Proofs.Collection.Failures
import DocClient.Proofs.Codec.Marked
import DocClient.Proofs.Codec.Records
import DocClient.Proofs.Codec.OrderedFields
import DocClient.Proofs.Query.Listing
import DocClient.Proofs.Destination
import DocClient.Proofs.Query.Race
import DocClient.Proofs.Blob.Truncation
import DocClient.Proofs.Blob.Removing
import DocClient.Proofs.Blob.Orphans
import DocClient.Proofs.Codec.Lists
import DocClient.Proofs.Codec.Direct
import DocClient.Proofs.Session.CommandOrder
import DocClient.Proofs.Blob.Echoes
import DocClient.Proofs.Blob.Identifiers
import DocClient.Proofs.Codec.Times
import DocClient.Proofs.Arguments
import DocClient.Proofs.Query.Settings
import DocClient.Proofs.Collection.Updates
import DocClient.Proofs.Query.Draining
import DocClient.Proofs.Query.Finding
import DocClient.Proofs.Collection.Identifying
import DocClient.Proofs.Query.Requests
import DocClient.Proofs.Query.Counting
import DocClient.Proofs.Blob.Interruption
import DocClient.Proofs.Blob.Poisoning
import DocClient.Proofs.Index.Spelling
import DocClient.Proofs.Codec.Slots
import DocClient.Proofs.Text.Hex
import DocClient.Proofs.ObjectId
import DocClient.Proofs.FailureTexts
import DocClient.Proofs.Session.Address
import DocClient.Proofs.Collection.Addressing
import DocClient.Proofs.Blob.Filling
import DocClient.Proofs.Blob.Chunking
import DocClient.Proofs.Collection.Partition
import DocClient.Proofs.Blob.Payload
import DocClient.Proofs.Session.VersionOrder
