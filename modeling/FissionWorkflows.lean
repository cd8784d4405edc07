import FissionWorkflows.Types
import FissionWorkflows.Controller.Eval
import FissionWorkflows.Controller.ExecTask
import FissionWorkflows.Controller.System
import FissionWorkflows.Controller.SingleFlight
import FissionWorkflows.Controller.OwnInvocation
import FissionWorkflows.Controller.Sensors
import FissionWorkflows.Controller.Outputs
import FissionWorkflows.Controller.Runs
import FissionWorkflows.Controller.EvalRun
import FissionWorkflows.MapReduce.GoStrings
import FissionWorkflows.MapReduce.Handlers
import FissionWorkflows.MapReduce.Grouping
import FissionWorkflows.MapReduce.Pipeline
import FissionWorkflows.MapReduce.Entries
import FissionWorkflows.FnEnv.Fission
import FissionWorkflows.Bundle.App
