import Orchestraitor.Audit.Export
import Orchestraitor.Audit.Refinement
import Orchestraitor.Board.Cache
import Orchestraitor.Board.MoveLeases
import Orchestraitor.Board.MoveRuns
import Orchestraitor.Board.QueryReads
import Orchestraitor.Campaign.LoopDrain
import Orchestraitor.Campaign.LoopRetry
import Orchestraitor.Campaign.TaskIds
import Orchestraitor.Config.Precedence
import Orchestraitor.Context.Incremental
import Orchestraitor.Daemon.Breaker
import Orchestraitor.Daemon.CasRuns
import Orchestraitor.Daemon.EventStore
import Orchestraitor.Daemon.Monitor
import Orchestraitor.Daemon.Supervision
import Orchestraitor.Delivery.ReviewReference
import Orchestraitor.Delivery.RunnerLadder
import Orchestraitor.Delivery.RunnerProgress
import Orchestraitor.Delivery.RunnerRetry
import Orchestraitor.Delivery.RunnerSafety
import Orchestraitor.Ingress.Feed
import Orchestraitor.Ingress.IntakeCrash
import Orchestraitor.Lifecycle.Recovery
import Orchestraitor.Mcp.RedactSpans
import Orchestraitor.Provider.Streaming
import Orchestraitor.Tool.Trust
import Orchestraitor.Worker.Caps
import Orchestraitor.Worker.Paths
import Orchestraitor.Worker.PollTime
import Orchestraitor.Worker.QuoteArgv
import Orchestraitor.Worker.SecretShape
import Orchestraitor.Worker.ThinkSwitch
import Orchestraitor.Worker.ThoughtLog
import Orchestraitor.Workspace.Deliver
