import LatticeAgent.Go

/-! # The shared model of tasks

The parts of the SDK's `model` package that the agent's task code reads and writes. -/

namespace LatticeAgent

/-- `model.Task`: a leased piece of work. -/
structure Task where
  id : String
  leaseID : String
  interpreter : String := ""
  script : String := ""
  timeoutSec : Int := 0
  outputLimit : Int := 0
deriving DecidableEq, Repr

/-- `model.TaskResult`: the outcome of one leased task. -/
structure TaskResult where
  taskID : String
  leaseID : String
  nodeID : String := ""
  exitCode : Int := 0
  stdout : String := ""
  stderr : String := ""
  error : String := ""
  startedAt : Time := 0
  finishedAt : Time := 0
deriving DecidableEq, Repr

end LatticeAgent
