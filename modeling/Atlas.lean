import Atlas.Governance.Chain
import Atlas.Execution.Workers
import Atlas.Orchestration.Turn
import Atlas.Orchestration.Summary
import Atlas.Orchestration.HeuristicPlan
import Atlas.Knowledge.Namespaces
import Atlas.Knowledge.Rollback
import Atlas.Persistence.HybridQuery
import Atlas.Persistence.BackfillSteps
import Atlas.Interface.ApproveStream
import Atlas.Execution.ProviderOnce
import Atlas.Interface.OAuthRoutes
import Atlas.Persistence.HashicorpVault
import Atlas.Persistence.AuditTrip
import Atlas.Persistence.GraphWrites
import Atlas.Persistence.PolicyTable
import Atlas.Interface.Approval
import Atlas.Interface.StreamLifecycle
import Atlas.EgressRoutes
import Atlas.Integrations.SlackUser
import Atlas.Knowledge.Extraction
import Atlas.Knowledge.Chunking
import Atlas.Persistence.FusionOrder
import Atlas.Persistence.KeywordQuery
import Atlas.DnsPinning
import Atlas.ResourceScope
import Atlas.SchemaScope
import Atlas.Integrations.RefreshRuns
import Atlas.Interface.GateResume
import Atlas.Interface.RateLimit
import Atlas.Interface.CallbackErrors
import Atlas.Persistence.HasExecuted
import Atlas.Governance.MemoryLog
import Atlas.Orchestration.CrashedRuns
import Atlas.Interface.ServiceTurns
import Atlas.Interface.PrivateIngests
import Atlas.Orchestration.Restarts
import Atlas.Interface.ProviderPosts
import Atlas.Interface.OAuthRuns
import Atlas.Orchestration.NarratorBuild
