import Marie.Session.Replay
import Marie.Session.SnapshotCommits
import Marie.Session.TerminalStatus
import Marie.Session.HitlRoundTrip
import Marie.Session.EarlyResume
import Marie.Session.Reducers
import Marie.Session.FanIn
import Marie.Session.FanInOrder
import Marie.Session.FanInOnce
import Marie.Session.ChannelReplay
import Marie.Session.WaitingFrames
import Marie.Session.Quiescence
import Marie.Lib.LinkedForest
import Marie.Session.Actions
import Marie.Session.Closing
import Marie.Session.Controller
import Marie.Session.Executables
import Marie.Session.FirstRuns
import Marie.Session.FrameCache
import Marie.Session.FrameRoots
import Marie.Session.LostRuns
import Marie.Lib.Transcript
import Marie.Lease.Exclusion
import Marie.Lease.Overflow
import Marie.Lease.SnapshotBytes
import Marie.Lease.Replicas
import Marie.Lease.LogStore
import Marie.Lease.Client
import Marie.Secret.Membership
import Marie.Secret.Rotation
import Marie.Secret.Vault
import Marie.Secret.Domains
import Marie.Session.GraphRuns
import Marie.Session.Suspensions
import Marie.Session.StartMarks
import Marie.Session.StartThreads
import Marie.Catalog.Backends
import Marie.Model.Secrets
import Marie.Worker.Supervision
import Marie.Worker.Endings
import Marie.Rpc.Correlation
import Marie.Rpc.Replies
import Marie.Rpc.Addresses
import Marie.Annuary.Reflection
import Marie.Events.Delivery
import Marie.Events.Subscriptions
import Marie.Gateway.Isolation
import Marie.Persistency.InodeRuns
import Marie.Session.LogEvents
import Marie.Secret.Backends
import Marie.Session.JoinSources
import Marie.Session.SpecMerge
import Marie.Session.TrackedReads
import Marie.Session.InitialChannels
import Marie.Session.FrameRemoval
import Marie.Session.FrameDeletion
import Marie.Session.StoresAgree
import Marie.Hitl.Replies
import Marie.Rpc.Tracking
import Marie.Annuary.Rendezvous
import Marie.IdText
import Marie.Secret.Decryption
import Marie.Persistency.Alias
import Marie.Persistency.VarFiles
import Marie.Persistency.VarPaths
import Marie.Cli.TextArguments
import Marie.Cli.Tokens
import Marie.Cli.Literals
import Marie.Cli.EditedSpecs
import Marie.Persistency.InodeIsolation
import Marie.Persistency.FileRuns
import Marie.Cli.ReplRuns
import Marie.Cli.LiveSession
import Marie.Cli.TypedAnswers
