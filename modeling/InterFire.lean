import InterFire.Library.FiniteMap
import InterFire.Library.Ipv4
import InterFire.Library.Run
import InterFire.Dns
import InterFire.Process
import InterFire.Rules
import InterFire.Prompts
import InterFire.Statistics
import InterFire.Consent
import InterFire.Observe
import InterFire.Verdicts
import InterFire.Address
import InterFire.Library.LockOrder
import InterFire.Library.Nftables
import InterFire.Locks
import InterFire.Traffic
import InterFire.Concurrency
import InterFire.Failure
import InterFire.QueueService
import InterFire.StateDirectory
import InterFire.StopScript
import InterFire.Attribution
import InterFire.Authority
import InterFire.LastingAnswers
import InterFire.PromptClients
import InterFire.PromptSystem
import InterFire.RepeatedAnswers
import InterFire.RulesThreads
import InterFire.ShownPrompts
import InterFire.Startup
import InterFire.StatusHonesty
import InterFire.AuditClients
import InterFire.AuditLog
import InterFire.AuditStreams
import InterFire.ClientRequests
import InterFire.FrameSize
import InterFire.Library.KeyValue
import InterFire.OneLine
import InterFire.Reconnects
import InterFire.StatusFrames
import InterFire.UnescapedLists
import InterFire.AtomicSaves
import InterFire.DnsNotes
import InterFire.DurablePreferences
import InterFire.Evictions
import InterFire.MachineTraffic
import InterFire.PromptRuns
import InterFire.TableStatus
import InterFire.RuleIds
import InterFire.PromptFates
import InterFire.PromptMemory
import InterFire.HostnameCase
import InterFire.StatsAccounting
import InterFire.Sinks
import InterFire.CanonicalRequests
import InterFire.AuditBytes
import InterFire.EventSelection
import InterFire.BoundedMaps
import InterFire.Packets
import InterFire.ProcMetrics
import InterFire.TerminalRange
import InterFire.Library.Channel
import InterFire.Library.OnceCell
import InterFire.Library.Permissions
import InterFire.Pipeline
import InterFire.PipelineConsent
import InterFire.AuditFailures
import InterFire.KillSwitch
import InterFire.TerminalCommands
import InterFire.TerminalSession
import InterFire.DesktopTray
import InterFire.DesktopShell
import InterFire.OperatorSocket
