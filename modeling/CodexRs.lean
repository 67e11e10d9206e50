import CodexRs.ApplyPatch.StreamText
import CodexRs.ApplyPatch.PreviewAgree
import CodexRs.CodexApi.ToolCallStream
import CodexRs.CodexApi.ChatMessages
import CodexRs.AppServerTransport.TrackerRuns
import CodexRs.AppServerTransport.SegmentLoss
import CodexRs.AppServerTransport.SegmentOrder
import CodexRs.AppServerTransport.OutboundOrder
import CodexRs.Protocol.PermissionsOrder
import CodexRs.Sandboxing.GrantedPermissions
import CodexRs.Core.Normalize
import CodexRs.Core.RolledBackTurn
import CodexRs.ExecServer.OrderedEvents
import CodexRs.ExecServer.ProcessEvents
import CodexRs.ExecServer.Shutdown
import CodexRs.ExecServer.SessionRuns
import CodexRs.ExecServer.Disconnect
import CodexRs.NetworkProxy.Constrained
import CodexRs.NetworkProxy.Records
import CodexRs.NetworkProxy.ManagedAllowlist
import CodexRs.AppServerProtocol.RollbackAgree
import CodexRs.Core.ExecPolicy
import CodexRs.Config.Constraint
import CodexRs.Core.AgentDropped
import CodexRs.CodexMcp.QualifiedNames
import CodexRs.Tui.TextAreaRuns
import CodexRs.Tui.FastInputRuns
import CodexRs.AppServer.RequestDrains
import CodexRs.AppServer.ThreadReports
import CodexRs.LinuxSandbox.MountsWithin
import CodexRs.Core.ProcessIdentity
import CodexRs.Core.TurnEnds
import CodexRs.Core.PendingInput
import CodexRs.ApplyPatch.UpdateLaws
import CodexRs.CodexApi.ToolGroups
import CodexRs.ExecPolicy.Overlay
import CodexRs.ExecPolicy.NetworkRules
import CodexRs.Protocol.FullAccess
import CodexRs.Core.AgentNicknames
import CodexRs.AppServer.ThreadGuards
import CodexRs.State.Stage1Jobs
import CodexRs.Utils.Readiness
import CodexRs.AppServer.ThreadSubscriptions
