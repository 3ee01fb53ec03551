import NonoCedarPdp.EndpointGuard
import NonoCedarPdp.AmbiguityVerdict
import NonoCedarPdp.EngineVerdict
import NonoCedarPdp.ApproveContract
import NonoCedarPdp.AuditLines
import NonoCedarPdp.AuditRotation
import NonoCedarPdp.SharedAuditLog
import NonoCedarPdp.WatcherRun
import NonoCedarPdp.Debounce
import NonoCedarPdp.TrailAttribution
import NonoCedarPdp.RejectedAgent
import NonoCedarPdp.WatchStartup
import NonoCedarPdp.IsolationSoundness
import NonoCedarPdp.LinkedPolicies
import NonoCedarPdp.StatePaths
import NonoCedarPdp.PrivateKey
import NonoCedarPdp.PolicyLoading
import NonoCedarPdp.ContentHash
import NonoCedarPdp.OfflineCheck
import NonoCedarPdp.GitPack
import NonoCedarPdp.ArgsLint
import NonoCedarPdp.ArgvTailLint
import NonoCedarPdp.LanguageLints
import NonoCedarPdp.Noninterference
import NonoCedarPdp.Lib.JsonReader
import NonoCedarPdp.Lib.PlainText
import NonoCedarPdp.TrailText
import NonoCedarPdp.AncestorWalk
import NonoCedarPdp.PercentCode
import NonoCedarPdp.EntitySpelling
import NonoCedarPdp.RefusedTarget
import NonoCedarPdp.WatcherSettling
import NonoCedarPdp.TrailReading
import NonoCedarPdp.AuditSeal
import NonoCedarPdp.ContentIdentity
import NonoCedarPdp.SchemaConformance
import NonoCedarPdp.ShippedDeployment
import NonoCedarPdp.Subcommands
import NonoCedarPdp.HostedTrail
import NonoCedarPdp.Listening
