import ZwayServer.Proc.Basic
import ZwayServer.Proc.Logic
import ZwayServer.Proc.Threads
import ZwayServer.Proc.Stdio
import ZwayServer.Proc.Exceptions
import ZwayServer.Bson
import ZwayServer.Op
import ZwayServer.DB
import ZwayServer.Session
import ZwayServer.Quiet
import ZwayServer.Spec
import ZwayServer.Effects
import ZwayServer.System
import ZwayServer.Footprint
import ZwayServer.Invariants
import ZwayServer.Authenticity
import ZwayServer.Delivery
import ZwayServer.NoLogin
import ZwayServer.Store
import ZwayServer.Removal
import ZwayServer.Storing
import ZwayServer.Answers
import ZwayServer.AddCodes
import ZwayServer.Connection
import ZwayServer.Framing
import ZwayServer.BodyReads
import ZwayServer.Interleaving
import ZwayServer.Duties
import ZwayServer.Notification
import ZwayServer.Registry
import ZwayServer.Accounts
import ZwayServer.Password
import ZwayServer.Payload
import ZwayServer.Access
import ZwayServer.Creation
import ZwayServer.Pending
import ZwayServer.Relay
import ZwayServer.Presence
import ZwayServer.SendQueue
import ZwayServer.Pool
import ZwayServer.AcceptLoop
import ZwayServer.Pausing
import ZwayServer.Push
import ZwayServer.FileBuffer
import ZwayServer.BufferMap
import ZwayServer.FailedWrites
import ZwayServer.Reloading
import ZwayServer.FileHandles
import ZwayServer.Eviction
import ZwayServer.Crash
import ZwayServer.Sockets
import ZwayServer.Proc.TwoRuns
import ZwayServer.Reuse
import ZwayServer.Names
import ZwayServer.OneAnswer
import ZwayServer.Keyed
import ZwayServer.Inbox
import ZwayServer.Scan
import ZwayServer.Announcement
import ZwayServer.Proc.Locks
import ZwayServer.LockOrder
import ZwayServer.Serial
import ZwayServer.Provenance
import ZwayServer.Proc.Ledger
import ZwayServer.History
import ZwayServer.Arrival
import ZwayServer.Tokens
import ZwayServer.Refusals
import ZwayServer.Json
import ZwayServer.FcmSender
import ZwayServer.Replies
import ZwayServer.Secrets
import ZwayServer.Proc.Licence
import ZwayServer.Restarts
import ZwayServer.Consent
