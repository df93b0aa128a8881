import Misty.Vault.Convergence
import Misty.Vault.NoLoss
import Misty.Vault.Capacity
import Misty.Vault.Clock
import Misty.Vault.Deleted
import Misty.Vault.Counter
import Misty.Vault.Transaction
import Misty.Vault.Sync
import Misty.Crypto.Envelope
import Misty.Vault.Operation
import Misty.Vault.Effect
import Misty.Vault.Draft
import Misty.Vault.Failure
import Misty.Lib.Calls
import Misty.Server.Routes
import Misty.Server.Feed
import Misty.Server.Versions
import Misty.Server.Sweep
import Misty.Server.Relay
import Misty.Server.Revoked
import Misty.Server.Binding
import Misty.Sync.Claimed
import Misty.Sync.Conflict
import Misty.Sync.Overwrite
import Misty.Sync.Refused
import Misty.Sync.Rejected
import Misty.Sync.Replay
import Misty.Vault.SameSite
import Misty.Vault.Skipped
import Misty.Vault.Seen
import Misty.Vault.Usage
import Misty.Vault.Payload
import Misty.Vault.Rewrap
import Misty.Vault.Room
import Misty.Sync.Updates
import Misty.Sync.Time
import Misty.Sync.Pull
import Misty.Sync.Signing
import Misty.Crypto.Handover
import Misty.Crypto.Compact
import Misty.Crypto.Words
import Misty.Facade.Deadline
import Misty.Server.Rotation
import Misty.Server.Quota
import Misty.Crypto.Repair
import Misty.Otp.RoundTrip
import Misty.Otp.Strict
import Misty.Otp.Resync
import Misty.Server.Spelling
import Misty.Vault.SortBytes
import Misty.Crypto.Padding
import Misty.Importers.Protobuf
import Misty.Importers.Csv
import Misty.Importers.RawRows
import Misty.Importers.Collect
import Misty.Crypto.Backup
import Misty.Importers.Fields
import Misty.Importers.Generic
import Misty.Importers.Lines
import Misty.Importers.Migration
import Misty.Importers.Otpauth
import Misty.Lib.TokenBucket
import Misty.Server.Doubles
import Misty.Server.RateLimit
import Misty.Sync.Agreed
import Misty.Facade.Holding
import Misty.Facade.Update
