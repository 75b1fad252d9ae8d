import Dockhand.Alerts.Codec
import Dockhand.Alerts.Episodes
import Dockhand.Alerts.Secrecy
import Dockhand.Api.ClientIP
import Dockhand.Api.Fleet
import Dockhand.Api.Origin
import Dockhand.Auth.Limiter
import Dockhand.Auth.Requests
import Dockhand.Auth.Sessions
import Dockhand.Auth.SignIn
import Dockhand.Data.Grouping
import Dockhand.Data.MergeBy
import Dockhand.Data.StableSort
import Dockhand.DeployCheck.Interpolate
import Dockhand.DeployCheck.Suggestions
import Dockhand.DockerOps.ImageMerge
import Dockhand.DockerOps.ImageRefs
import Dockhand.DockerOps.Logs
import Dockhand.DockerOps.Mounts
import Dockhand.DockerOps.PortRows
import Dockhand.DockerOps.Rollback
import Dockhand.DockerOps.RunFlags
import Dockhand.DockerOps.RunPreview
import Dockhand.DockerOps.RunRequest
import Dockhand.GitDeploy.EnvFile
import Dockhand.GitDeploy.Overlap
import Dockhand.GitDeploy.Prune
import Dockhand.GitDeploy.RepoSync
import Dockhand.GitDeploy.StackNames
import Dockhand.GitDeploy.Webhook
import Dockhand.Github.Paging
import Dockhand.Go.Dict
import Dockhand.Go.Json
import Dockhand.Go.Reencode
import Dockhand.Go.Regexp
import Dockhand.Go.Strconv
import Dockhand.Go.Strings
import Dockhand.Hosts.CustomShell
import Dockhand.Hosts.CustomSsh
import Dockhand.Hosts.Helpers
import Dockhand.Hosts.HostKey
import Dockhand.Hosts.Leaks
import Dockhand.Hosts.Lines
import Dockhand.Impact.Completeness
import Dockhand.Jobs.Persistence
import Dockhand.Jobs.Record
import Dockhand.Machines.Facts
import Dockhand.Machines.Firewall
import Dockhand.Machines.Fixes
import Dockhand.Machines.ListeningPorts
import Dockhand.Machines.Lockout
import Dockhand.Machines.PatchImpact
import Dockhand.Machines.Reboots
import Dockhand.Mcp.Authorization
import Dockhand.Mcp.Framing
import Dockhand.Mcp.OAuth
import Dockhand.Monitor.Commands
import Dockhand.Monitor.Crashes
import Dockhand.Monitor.HostDown
import Dockhand.Monitor.Inspects
import Dockhand.Monitor.References
import Dockhand.Monitor.Streams
import Dockhand.Monitor.Updates
import Dockhand.Registry.Browse
import Dockhand.Registry.Challenge
import Dockhand.Registry.Credentials
import Dockhand.Registry.DockerConfig
import Dockhand.Registry.Revocation
import Dockhand.Settings.Atomicity
import Dockhand.Settings.Coherence
import Dockhand.Settings.ReadOnly
import Dockhand.Stacks.Compose
import Dockhand.Stacks.Listing
import Dockhand.Stacks.Validate
import Dockhand.System.AutoUpdate
import Dockhand.System.GitSource
import Dockhand.System.VersionOrder
import Dockhand.System.WindowTimes
import Dockhand.Transition.Exec
import Dockhand.Transition.Pool
import Dockhand.Transition.Prog
import Dockhand.Transition.Since
import Dockhand.Transition.Workers
import Dockhand.Uptime.Expect
import Dockhand.Uptime.Incidents
import Dockhand.Uptime.Paused
import Dockhand.Uptime.Windows
