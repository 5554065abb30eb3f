import EasyHaProxy.Lib.Dict
import EasyHaProxy.Lib.Program
import EasyHaProxy.Lib.Chain
import EasyHaProxy.Lib.Json
import EasyHaProxy.Lib.Text
import EasyHaProxy.Lib.Validate
import EasyHaProxy.Lib.Regex
import EasyHaProxy.Lib.Python
import EasyHaProxy.Guardd.Basic
import EasyHaProxy.Guardd.Database
import EasyHaProxy.Guardd.Strikes
import EasyHaProxy.Guardd.StrikeLimit
import EasyHaProxy.Guardd.Paths
import EasyHaProxy.Guardd.Detection
import EasyHaProxy.Guardd.Scoring
import EasyHaProxy.Guardd.Queue
import EasyHaProxy.Guardd.World
import EasyHaProxy.Guardd.Enforcer
import EasyHaProxy.Guardd.Engine
import EasyHaProxy.Guardd.Spec
import EasyHaProxy.Guardd.Quiet
import EasyHaProxy.Guardd.ManualBans
import EasyHaProxy.Guardd.Enforcement
import EasyHaProxy.Guardd.Poll
import EasyHaProxy.Guardd.Ownership
import EasyHaProxy.Guardd.Requests
import EasyHaProxy.Guardd.System
import EasyHaProxy.Guardd.Freshness
import EasyHaProxy.Guardd.Schedule
import EasyHaProxy.Guardd.SignIn
import EasyHaProxy.Guardd.Unban
import EasyHaProxy.Guardd.Digests
import EasyHaProxy.Lib.Machine
import EasyHaProxy.Lib.History
import EasyHaProxy.Guardd.AccessLog
import EasyHaProxy.Guardd.LineParser
import EasyHaProxy.Guardd.HostileLines
import EasyHaProxy.Lib.Window
import EasyHaProxy.Guardd.LiveBuffer
import EasyHaProxy.Guardd.LivePages
import EasyHaProxy.Lib.Descending
import EasyHaProxy.Guardd.RequestSearch
import EasyHaProxy.Guardd.RequestAgents
import EasyHaProxy.Alertd.Basic
import EasyHaProxy.Alertd.Engine
import EasyHaProxy.Alertd.Spec
import EasyHaProxy.Alertd.Storm
import EasyHaProxy.Alertd.Lifecycle
import EasyHaProxy.Alertd.Mute
import EasyHaProxy.Lib.Table
import EasyHaProxy.Lib.Rollup
import EasyHaProxy.Lib.Double
import EasyHaProxy.Metricsd.Basic
import EasyHaProxy.Metricsd.Database
import EasyHaProxy.Metricsd.Availability
import EasyHaProxy.Metricsd.Storage
import EasyHaProxy.Metricsd.Collector
import EasyHaProxy.Metricsd.Spec
import EasyHaProxy.Metricsd.Pause
import EasyHaProxy.Metricsd.Hours
import EasyHaProxy.Metricsd.Counters
import EasyHaProxy.Metricsd.Traffic
import EasyHaProxy.Controld.Basic
import EasyHaProxy.Controld.Transaction
import EasyHaProxy.Controld.Spec
import EasyHaProxy.Controld.Rollback
import EasyHaProxy.Controld.Begin
import EasyHaProxy.Controld.Operations
import EasyHaProxy.Controld.System
import EasyHaProxy.Controld.History
import EasyHaProxy.Controld.Versions
import EasyHaProxy.Installer.UpdateScope
import EasyHaProxy.Installer.UpdatePlan
import EasyHaProxy.Lib.Rules
import EasyHaProxy.Haproxy.Sites
import EasyHaProxy.Haproxy.Language
import EasyHaProxy.Haproxy.Frontend
import EasyHaProxy.Haproxy.Inventory
import EasyHaProxy.Lib.Base64
import EasyHaProxy.Panel.AdminAccess
import EasyHaProxy.Panel.Generation
import EasyHaProxy.Lib.Pieces
import EasyHaProxy.Panel.RuleEditor
import EasyHaProxy.Panel.RuleSessions
import EasyHaProxy.Lib.Retention
import EasyHaProxy.Backupd.Retention
import EasyHaProxy.Backupd.Destinations
import EasyHaProxy.Backupd.Schedule
import EasyHaProxy.Backupd.Buckets
import EasyHaProxy.Panel.AppliedState
import EasyHaProxy.Panel.GuardedSaves
import EasyHaProxy.Lib.Swap
import EasyHaProxy.Lib.Document
import EasyHaProxy.Lib.Locked
import EasyHaProxy.Panel.Restore
import EasyHaProxy.Panel.SaveSessions
import EasyHaProxy.Lib.Attempts
import EasyHaProxy.Certs.Deliver
import EasyHaProxy.Backupd.Outcomes
import EasyHaProxy.Geoip.Transactions
import EasyHaProxy.Geoip.Networks
import EasyHaProxy.Lib.Script
import EasyHaProxy.Geoip.Update
import EasyHaProxy.Geoip.Scripts
import EasyHaProxy.Geoip.Loaded
import EasyHaProxy.Guardd.HardFloor
import EasyHaProxy.Guardd.QueueRuns
import EasyHaProxy.Lib.Capped
import EasyHaProxy.Guardd.Score
import EasyHaProxy.Guardd.MoreEvidence
import EasyHaProxy.Guardd.Sweep
import EasyHaProxy.Lib.Lines
import EasyHaProxy.Guardd.LogCursor
import EasyHaProxy.Lib.Lowered
import EasyHaProxy.Guardd.Signatures
import EasyHaProxy.Guardd.Canonical
import EasyHaProxy.Guardd.SignatureMatch
import EasyHaProxy.Guardd.Observations
import EasyHaProxy.Guardd.ObservationRestart
import EasyHaProxy.Guardd.BanDetail
import EasyHaProxy.Guardd.Followed
import EasyHaProxy.Guardd.OwnBans
import EasyHaProxy.Guardd.OwnBanRuns
import EasyHaProxy.Alertd.Portal
import EasyHaProxy.Lib.Saved
import EasyHaProxy.Alertd.Settings
import EasyHaProxy.Alertd.Saves
import EasyHaProxy.Alertd.Client
import EasyHaProxy.Metricsd.Timeline
import EasyHaProxy.Metricsd.Reported
import EasyHaProxy.Lib.Words
import EasyHaProxy.Controld.ControlPlane
import EasyHaProxy.Controld.ProtectedHosts
import EasyHaProxy.Lib.Slots
import EasyHaProxy.Metricsd.Charts
import EasyHaProxy.Lib.Tally
import EasyHaProxy.Metricsd.Components
import EasyHaProxy.Installer.AutoInstall
import EasyHaProxy.Installer.InstallNights
import EasyHaProxy.Lib.Netfilter
import EasyHaProxy.Lib.Yaml
import EasyHaProxy.Udp.Forwards
import EasyHaProxy.Udp.Rules
import EasyHaProxy.Udp.Packets
import EasyHaProxy.Lib.Decimal
import EasyHaProxy.Udp.Saves
import EasyHaProxy.Udp.Agreement
import EasyHaProxy.Panel.Reconcile
import EasyHaProxy.Lib.Keyed
import EasyHaProxy.Panel.ConfigDiff
import EasyHaProxy.Panel.HistoryCompare
import EasyHaProxy.Installer.DomainMigration
import EasyHaProxy.Panel.SiteIdentity
import EasyHaProxy.Installer.PlanSignature
import EasyHaProxy.Backupd.RetentionPolicy
import EasyHaProxy.Backupd.SavedSettings
import EasyHaProxy.Backupd.RefusedSaves
import EasyHaProxy.Backupd.Passphrase
import EasyHaProxy.Lib.Utf8
import EasyHaProxy.Backupd.JobLogs
import EasyHaProxy.Certs.CoveredTargets
import EasyHaProxy.Panel.HstsEditor
import EasyHaProxy.Lib.Ini
import EasyHaProxy.Certs.RenewalPauses
import EasyHaProxy.Lib.Nested
import EasyHaProxy.Panel.ChangeLog
import EasyHaProxy.Lib.Fields
import EasyHaProxy.Lib.ReadWrite
import EasyHaProxy.Backupd.Bookkeeping
import EasyHaProxy.Certs.DeliveryEdits
import EasyHaProxy.Guardd.LiveMemory
import EasyHaProxy.Lib.Backward
import EasyHaProxy.Controld.LogTail
import EasyHaProxy.Lib.Recency
import EasyHaProxy.Guardd.TrustedRates
import EasyHaProxy.Guardd.RateEpisodes
import EasyHaProxy.Lib.RegexSearch
import EasyHaProxy.Panel.RuntimeDrift
import EasyHaProxy.Certs.DnsProfiles
import EasyHaProxy.Certs.PartialSaves
import EasyHaProxy.Authelia.Users
import EasyHaProxy.Authelia.UserRuns
import EasyHaProxy.Haproxy.Gates
import EasyHaProxy.Haproxy.Accounting
import EasyHaProxy.Haproxy.ForwardAuth
import EasyHaProxy.Haproxy.Boundary
import EasyHaProxy.Lib.LastUsed
import EasyHaProxy.Guardd.Enumeration
