import SchemaLog.Field
import SchemaLog.Document
import SchemaLog.Command
import SchemaLog.Schema
import SchemaLog.Replay
import SchemaLog.History
import SchemaLog.Diff
import SchemaLog.Identifier
import SchemaLog.Json
import SchemaLog.Json.Reader
import SchemaLog.Json.Writer
import SchemaLog.Json.RoundTrip
import SchemaLog.Format.Schema
import SchemaLog.Script
import SchemaLog.Settings
import SchemaLog.Artifact
import SchemaLog.Upcast.Collection
import SchemaLog.Upcast.Record
import SchemaLog.Disk
import SchemaLog.Regeneration
import SchemaLog.Diagnostics
import SchemaLog.Proofs.Plans
import SchemaLog.Proofs.Records
import SchemaLog.Proofs.Validity
import SchemaLog.Proofs.Sessions
import SchemaLog.Proofs.Restamping
import SchemaLog.Proofs.Independence
import SchemaLog.Proofs.Compatibility
import SchemaLog.Proofs.Exports
import SchemaLog.Proofs.Directories
import SchemaLog.Proofs.Hashing
import SchemaLog.Proofs.Layout
import SchemaLog.Proofs.Policies
import SchemaLog.Proofs.Repetition
import SchemaLog.Proofs.Collisions
import SchemaLog.Proofs.Conventions
import SchemaLog.Proofs.Places
import SchemaLog.Proofs.Outputs
import SchemaLog.Proofs.Schedule
import SchemaLog.Proofs.Successors
import SchemaLog.Json.Token.Joining
import SchemaLog.Proofs.Hindrances
import SchemaLog.Proofs.Wrapping
import SchemaLog.Proofs.Reversal
import SchemaLog.Proofs.Inversion
import SchemaLog.Proofs.Remarks
