import Manus.Lib.Dialogue
import Manus.Lib.Dict
import Manus.Lib.Double
import Manus.Lib.Except
import Manus.Lib.Returns
import Manus.Lib.Prog
import Manus.Lib.System
import Manus.Lib.Reads
import Manus.Lib.Stable
import Manus.Lib.Steps
import Manus.Lib.Words
import Manus.Lib.Base64
import Manus.Lib.Walk
import Manus.Lib.Worklist
import Manus.Lib.PathSearch
import Manus.Lib.Unite
import Manus.Lib.Topological
import Manus.Lib.Dataflow
import Manus.Lib.SkipSum
import Manus.Lib.Mask
import Manus.Lib.JsonNumber
import Manus.Lib.IpAddress
import Manus.Lib.Pieces
import Manus.Lib.Regex
import Manus.Canvas.Graph
import Manus.Canvas.Resolution
import Manus.Canvas.Disabled
import Manus.Canvas.FanOutTopology
import Manus.Canvas.ChildBranch
import Manus.Canvas.Layers
import Manus.Context.Lossless
import Manus.Context.ObjectPath
import Manus.Context.ObjectReadBack
import Manus.Context.ObjectReads
import Manus.Context.FanIn
import Manus.Context.Convergence
import Manus.Runner.Phases
import Manus.Runner.Settled
import Manus.Runner.Transparency
import Manus.Runner.ChildFailure
import Manus.Runner.AnySchedule
import Manus.Runner.Keeps
import Manus.Runs.Repository
import Manus.Runs.Lifecycle
import Manus.Runs.Worker
import Manus.Runs.Keeps
import Manus.Runs.StatusMachine
import Manus.Runs.Boundaries
import Manus.Runs.AtMostOnce
import Manus.Runs.History
import Manus.Runs.Forest
import Manus.Runs.Sweep
import Manus.Runs.ApproveAll
import Manus.Runs.Batches
import Manus.Runs.Redelivery
import Manus.Runs.NodeStatus
import Manus.Validation.CapabilityFlow
import Manus.Validation.CapabilityContract
import Manus.Validation.CapabilityGraph
import Manus.Validation.CanvasWalk
import Manus.Validation.CanvasAgreement
import Manus.Validation.Soundness
import Manus.Secrets.Redaction
import Manus.Secrets.Patterns
import Manus.Secrets.Redactor
import Manus.Secrets.Relocation
import Manus.Inventory.Failures
import Manus.Inventory.Preview
import Manus.Inventory.Reading
import Manus.Inventory.Tree
import Manus.Inventory.Narrowing
import Manus.Inventory.OneSnapshot
import Manus.Workflows.Save
import Manus.Schedules.OneTrigger
import Manus.ChangeRequests.Deploy
import Manus.ChangeRequests.FinalStatus
import Manus.Children.DeviceLines
import Manus.Children.StartWorkflow
import Manus.Children.Accounted
import Manus.Attributes.Defaults
import Manus.Attributes.Filling
import Manus.Attributes.NothingLost
import Manus.Netmiko.OneUser
import Manus.Git.Exclusive
import Manus.Assistant.OneRun
import Manus.Assistant.CommandPolicy
import Manus.Releases.Pinned
import Manus.Agent.AtMostOnce
import Manus.Agent.Slots
import Manus.Agent.Inputs
import Manus.Expression.Functions
import Manus.Expression.Parser
import Manus.Expression.Lookup
import Manus.Expression.Resolvers
import Manus.Expression.Writing
import Manus.Expression.ReadBack
import Manus.Expression.WrittenDevice
import Manus.Expression.Evaluator
import Manus.Expression.Crashes
import Manus.Expression.Questions
import Manus.Expression.Routing
import Manus.Expression.SplitBack
import Manus.Expression.SplitAccepted
import Manus.Expression.Rounds
import Manus.Expression.Batched
import Manus.Rbac.Escalation
import Manus.Rbac.LastAdmin
import Manus.Schedules.CronForm
import Manus.Nautobot.SealedSecrets
import Manus.Nautobot.FreeAddresses
import Manus.Nautobot.HandedOut
import Manus.Nautobot.DistinctAddresses
import Manus.Lib.Places
import Manus.Runs.OutputCap
import Manus.Runs.OutputSlots
import Manus.Runs.OutputFits
import Manus.Runs.CappedOutput
import Manus.Workflows.RunInputs
import Manus.Workflows.ReplayedInputs
import Manus.Lib.CodePoints
import Manus.Secrets.PassphraseCipher
import Manus.Secrets.PassphraseTokens
import Manus.Lib.JsonRead
import Manus.Assistant.RunToken
import Manus.Assistant.RunTokenVerified
import Manus.Nautobot.InterfaceUpdate
import Manus.Nautobot.InterfaceStrips
import Manus.Nautobot.InterfaceFrees
import Manus.Nautobot.UpdateStrips
import Manus.Lib.Shares
import Manus.Editor.Groups
import Manus.Editor.GroupViews
import Manus.Editor.GroupMembers
import Manus.Attributes.Refilling
import Manus.Secrets.ScrubbedRuns
import Manus.Nautobot.RemovalSafe
import Manus.Deploy.ReplaceReported
import Manus.Netmiko.DeployLeaves
import Manus.Aci.ComparedOnce
import Manus.Store.LeftBehind
import Manus.Store.ExportHeld
import Manus.Nautobot.ContextPathFilled
import Manus.Nautobot.StackSplit
import Manus.Secrets.SecretsApart
import Manus.Lib.SlidingWindow
import Manus.Auth.WithinLimit
import Manus.Aci.LeafDecides
import Manus.Rbac.InTurn
