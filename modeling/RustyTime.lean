import RustyTime.Api.Control
import RustyTime.Clock.Linux
import RustyTime.Clock.Refclock
import RustyTime.Core.Client
import RustyTime.Core.ClientTable
import RustyTime.Core.Config
import RustyTime.Core.Discipline
import RustyTime.Core.Filter
import RustyTime.Core.Index
import RustyTime.Core.Ntp
import RustyTime.Core.Select
import RustyTime.Core.Text
import RustyTime.Core.Vclock
import RustyTime.Daemon.Control
import RustyTime.Daemon.Establish
import RustyTime.Daemon.Exchange
import RustyTime.Daemon.Gateway
import RustyTime.Daemon.KeServer
import RustyTime.Daemon.MasterKeys
import RustyTime.Daemon.Merge
import RustyTime.Daemon.NtsSession
import RustyTime.Daemon.Query
import RustyTime.Daemon.SealedStore
import RustyTime.Daemon.Server
import RustyTime.Daemon.Store
import RustyTime.Daemon.Sync
import RustyTime.Infra.Bytes
import RustyTime.Infra.Calendar
import RustyTime.Infra.Chain
import RustyTime.Infra.Cursor
import RustyTime.Infra.Era
import RustyTime.Infra.Ieee
import RustyTime.Infra.Iter
import RustyTime.Infra.Json
import RustyTime.Infra.LeastSquares
import RustyTime.Infra.Lines
import RustyTime.Infra.Mask
import RustyTime.Infra.Piecewise
import RustyTime.Infra.Probe
import RustyTime.Infra.Program
import RustyTime.Infra.Queue
import RustyTime.Infra.Quorum
import RustyTime.Infra.Rank
import RustyTime.Infra.Recency
import RustyTime.Infra.Run
import RustyTime.Infra.Scan
import RustyTime.Infra.Slice
import RustyTime.Infra.Slots
import RustyTime.Infra.Sweep
import RustyTime.Infra.Tlv
import RustyTime.Infra.TokenBucket
import RustyTime.Infra.Wallet
import RustyTime.Nts.Aead
import RustyTime.Nts.Cookie
import RustyTime.Nts.Dates
import RustyTime.Nts.Ef
import RustyTime.Nts.Indexed
import RustyTime.Nts.Ke
import RustyTime.Nts.Records
import RustyTime.Nts.Tls
import RustyTime.Nts.Writers
import RustyTime.Properties.Amplification
import RustyTime.Properties.Authenticator
import RustyTime.Properties.Bounds
import RustyTime.Properties.Ceiling
import RustyTime.Properties.CertDates
import RustyTime.Properties.Certificate
import RustyTime.Properties.Client
import RustyTime.Properties.ClientDrain
import RustyTime.Properties.ClientHandles
import RustyTime.Properties.ClientLedger
import RustyTime.Properties.ClientLru
import RustyTime.Properties.ClientRate
import RustyTime.Properties.ClientRefusal
import RustyTime.Properties.ClientSession
import RustyTime.Properties.ClientTable
import RustyTime.Properties.Config
import RustyTime.Properties.Control
import RustyTime.Properties.ControlJson
import RustyTime.Properties.Cookie
import RustyTime.Properties.CookieStore
import RustyTime.Properties.Dates
import RustyTime.Properties.DeadSources
import RustyTime.Properties.Discipline
import RustyTime.Properties.Ef
import RustyTime.Properties.Era
import RustyTime.Properties.Exchange
import RustyTime.Properties.Filter
import RustyTime.Properties.Gateway
import RustyTime.Properties.Guard
import RustyTime.Properties.Haul
import RustyTime.Properties.Index
import RustyTime.Properties.IndexMap
import RustyTime.Properties.KeAgree
import RustyTime.Properties.KeCritical
import RustyTime.Properties.KeResponse
import RustyTime.Properties.Linux
import RustyTime.Properties.Majority
import RustyTime.Properties.MasterKeys
import RustyTime.Properties.Measure
import RustyTime.Properties.Merge
import RustyTime.Properties.Ntp
import RustyTime.Properties.NtsAnswer
import RustyTime.Properties.NtsPair
import RustyTime.Properties.NtsRecovery
import RustyTime.Properties.NtsSession
import RustyTime.Properties.Optimal
import RustyTime.Properties.Page
import RustyTime.Properties.Plant
import RustyTime.Properties.Preload
import RustyTime.Properties.Present
import RustyTime.Properties.Query
import RustyTime.Properties.Records
import RustyTime.Properties.Refclock
import RustyTime.Properties.Regression
import RustyTime.Properties.Resist
import RustyTime.Properties.Rotation
import RustyTime.Properties.SealedStore
import RustyTime.Properties.Select
import RustyTime.Properties.Server
import RustyTime.Properties.Serving
import RustyTime.Properties.Slew
import RustyTime.Properties.SpikeTrim
import RustyTime.Properties.StepSelection
import RustyTime.Properties.Store
import RustyTime.Properties.StoredCookies
import RustyTime.Properties.SyncClock
import RustyTime.Properties.SyncViews
import RustyTime.Properties.Text
import RustyTime.Properties.Ties
import RustyTime.Properties.TimeClient
import RustyTime.Properties.Trailer
import RustyTime.Properties.Truncation
import RustyTime.Properties.UniqueId
import RustyTime.Properties.Vclock
import RustyTime.Properties.WeightCache
import RustyTime.Properties.Writers
import RustyTime.Spec.Certificate
import RustyTime.Spec.ClientLedger
import RustyTime.Spec.ClientRun
import RustyTime.Spec.Config
import RustyTime.Spec.Control
import RustyTime.Spec.CookieStore
import RustyTime.Spec.Discipline
import RustyTime.Spec.Gateway
import RustyTime.Spec.IndexMap
import RustyTime.Spec.Measure
import RustyTime.Spec.Merge
import RustyTime.Spec.NtsPair
import RustyTime.Spec.Page
import RustyTime.Spec.Plant
import RustyTime.Spec.Query
import RustyTime.Spec.Refclock
import RustyTime.Spec.SealedStore
import RustyTime.Spec.Selection
import RustyTime.Spec.Serving
import RustyTime.Spec.Store
import RustyTime.Spec.Sync
import RustyTime.Wasm.TimeClient
