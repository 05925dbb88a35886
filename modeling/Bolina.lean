import Bolina.Framework.BigEndian
import Bolina.Framework.FixedBytes
import Bolina.Framework.GuardedRun
import Bolina.Framework.Lockstep
import Bolina.Framework.SlidingWindow
import Bolina.Codec.Codec
import Bolina.State.Intent
import Bolina.State.IntentLife
import Bolina.Framework.RecordLog
import Bolina.Framework.KeyedFold
import Bolina.State.Ledger
import Bolina.State.LedgerRun
import Bolina.State.LedgerAppend
import Bolina.State.LedgerRestart
import Bolina.State.LedgerTorn
import Bolina.State.LedgerPermanence
import Bolina.State.LedgerTombstone
import Bolina.Transport.Session
import Bolina.Transport.ReplayWindow
import Bolina.Transport.SessionReplay
import Bolina.Transport.Verify
import Bolina.Transport.GrantChecks
import Bolina.Transport.GrantVerdict
import Bolina.Transport.Resolver
import Bolina.Transport.Dispatch
import Bolina.Transport.DispatchStep
import Bolina.Transport.Atomic
import Bolina.Transport.RevokedApprover
import Bolina.Transport.Binding
import Bolina.Transport.RoleGate
import Bolina.Transport.Separation
import Bolina.Transport.DispatchRun
import Bolina.Transport.OneEffect
import Bolina.Transport.FirstReceipt
import Bolina.Transport.SenderRecords
import Bolina.Control.ControlApi
import Bolina.Control.PostIntent
import Bolina.Daemon.Daemon
import Bolina.Daemon.Ledgered
import Bolina.Daemon.SpentOnce
import Bolina.Control.HttpAdmission
import Bolina.State.IntentStale
import Bolina.State.IntentRun
import Bolina.Daemon.PendingTimeout
import Bolina.Daemon.BoundCerts
import Bolina.Evidence.Causal
import Bolina.Daemon.Endpoint
import Bolina.Daemon.Envelopes
import Bolina.Transport.Traffic
import Bolina.Daemon.Slots
import Bolina.Daemon.BoundSession
import Bolina.Daemon.Establishment
import Bolina.Daemon.IdleSweep
import Bolina.Codec.Framing
import Bolina.Codec.Formats
import Bolina.Codec.CertFormat
import Bolina.Transport.SignedInput
import Bolina.Transport.CertAccepted
import Bolina.Daemon.Service
import Bolina.Daemon.RejectAccounting
import Bolina.Daemon.InitiationReplay
import Bolina.Daemon.RenewedCert
import Bolina.State.PruneCrash
import Bolina.State.Processes
import Bolina.State.SingleWriter
import Bolina.Codec.CheckedCodec
import Bolina.Transport.CheckedNoise
import Bolina.Transport.CheckedSession
import Bolina.Transport.CheckedVerify
import Bolina.Transport.CheckedDispatch
import Bolina.Daemon.CheckedEndpoint
import Bolina.Daemon.NoPanic
import Bolina.Evidence.LedgerTables
import Bolina.Evidence.Revocations
import Bolina.Ca.Ca
import Bolina.Ca.CaIssue
import Bolina.Ca.CaRevoke
import Bolina.Relay.RelayWire
import Bolina.Control.HttpParse
import Bolina.Transport.Token
import Bolina.Control.RouteHttp
import Bolina.Control.EventCursor
import Bolina.Control.AuthGate
import Bolina.Control.Connection
import Bolina.Control.Fragments
import Bolina.Control.Clients
import Bolina.Daemon.TokenBoot
import Bolina.Evidence.ReplaySpec
import Bolina.Transport.WindowWidth
import Bolina.Transport.Nonces
import Bolina.Transport.WrongResponse
import Bolina.State.LedgerReplay
import Bolina.State.LedgerErrors
import Bolina.State.LedgerCaps
import Bolina.Transport.PrunedGrant
import Bolina.Transport.Expiry
import Bolina.Framework.PathPrefix
import Bolina.Transport.Scope
import Bolina.Control.IntentStatus
import Bolina.Transport.ResolverSet
import Bolina.Transport.CanonicalGrammar
import Bolina.Framework.SelfDelimiting
import Bolina.Transport.ResolverBytes
import Bolina.Control.ApiIds
import Bolina.Framework.ByteOffsets
import Bolina.Daemon.CheckedPost
import Bolina.Framework.Reachability
import Bolina.Transport.Dag
import Bolina.Transport.DagInsert
import Bolina.Transport.DagRun
import Bolina.Transport.Historical
import Bolina.Evidence.ForgedSpan
import Bolina.Framework.Collector
import Bolina.Framework.Slots
import Bolina.Transport.Reassembly
import Bolina.Transport.ReassemblyState
import Bolina.Transport.ReassemblySafe
import Bolina.Transport.ReassemblyDelivery
import Bolina.Framework.RecentRing
import Bolina.Transport.RateWindow
import Bolina.Transport.RateTable
import Bolina.Transport.SyncResponse
import Bolina.Transport.WalkQueue
import Bolina.Transport.RelayStore
import Bolina.Transport.RelayStoreState
import Bolina.Transport.RelayFates
import Bolina.Transport.RelayConservation
import Bolina.Transport.RelayOrder
import Bolina.Relay.RelayTable
import Bolina.Relay.RelayForward
import Bolina.Control.ParseFinal
import Bolina.Control.HeadLines
import Bolina.Control.HeaderGuards
import Bolina.Control.LengthReaders
import Bolina.Control.ConnectionBound
import Bolina.Control.CheckedHttp
import Bolina.Control.CheckedRoute
import Bolina.Control.EventDelivery
import Bolina.Transport.Cookie
import Bolina.Daemon.KeyFiles
import Bolina.Daemon.CorruptLedger
import Bolina.Control.MetricsText
import Bolina.Daemon.MetricsRun
import Bolina.Framework.BoundedSet
import Bolina.Transport.Listener
import Bolina.Transport.SymmetricPair
import Bolina.Framework.PartialRun
import Bolina.Framework.DrainQueue
import Bolina.Framework.Breaks
import Bolina.Daemon.Deeds
import Bolina.Daemon.RunLoop
import Bolina.Daemon.Provenance
import Bolina.Daemon.EvidenceRun
import Bolina.Daemon.Channels
import Bolina.Client.Session
import Bolina.Client.Messages
import Bolina.Client.Campaign
import Bolina.Client.Http
import Bolina.Client.Reply
import Bolina.Client.Observe
