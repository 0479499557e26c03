import CeStorage.Lib.Sections
import CeStorage.Index.Lemmas
import CeStorage.Rollback
import CeStorage.Complete
import CeStorage.Uploads
import CeStorage.Index.List
import CeStorage.Store.Edits
import CeStorage.Contents
import CeStorage.Lock
import CeStorage.Locked
import CeStorage.Handles
import CeStorage.WriteOnce
import CeStorage.Lib.Ghost
import CeStorage.Store.Cached
import CeStorage.Reads
import CeStorage.Gateway.Handlers
import CeStorage.Index.Apart
import CeStorage.Store.Apart
import CeStorage.Store.Records
import CeStorage.Gateway.Checks
import CeStorage.Gateway.Serving
import CeStorage.Gateway.Contain
import CeStorage.Gateway.Control
import CeStorage.Ranged
import CeStorage.Lib.Order
import CeStorage.Index.Pages
import CeStorage.Index.Versions
import CeStorage.Durable
import CeStorage.Index.Ids
import CeStorage.Index.Invariant
import CeStorage.Gateway.Caps
import CeStorage.Gateway.Revoked
import CeStorage.Gateway.Writes
import CeStorage.Gateway.ReadVerbs
import CeStorage.Store.Sealed
import CeStorage.Gateway.BulkDelete
import CeStorage.Conditions
import CeStorage.Sweep
import CeStorage.UploadOptions
import CeStorage.Store.Save
import CeStorage.Replicated.Leases
import CeStorage.Replicated.Lost
import CeStorage.Replicated.Serves
import CeStorage.Gateway.PartList
import CeStorage.RangeSyntax
import CeStorage.Gateway.ListDocument
import CeStorage.Persisted
import CeStorage.SchemaTag
import CeStorage.Acquire
import CeStorage.Replicated.Maintain
import CeStorage.RangeSafe
import CeStorage.Crashes
import CeStorage.IfMatch
import CeStorage.InFlight
import CeStorage.Resume
import CeStorage.CliAlone
import CeStorage.Lib.Rely
import CeStorage.Gateway.Integrity
import CeStorage.ShelvedCalls
import CeStorage.Reloaded
import CeStorage.SealedRuns
import CeStorage.Gateway.Minted
import CeStorage.Gateway.Browse
