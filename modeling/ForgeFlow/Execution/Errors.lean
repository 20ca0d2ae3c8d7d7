import ForgeFlow.Execution.Run

/-!
# The messages of errors

What the errors of the workflow and execution packages print. The engine stores
such a message with every task it cancels, so an error of the engine is its
message here.
-/

namespace ForgeFlow.Execution

open ForgeFlow.Base ForgeFlow.Workflow

/-- A message with quoted identifiers set between pieces of text. -/
def describe (pieces : List (String × GoString)) (last : String := "") : GoString :=
  pieces.flatMap (fun piece => ascii piece.1 ++ quote piece.2) ++ ascii last

def identifierRule : String :=
  " is invalid: identifiers must be non-empty and contain no whitespace or control characters"

end ForgeFlow.Execution

namespace ForgeFlow.Workflow

open ForgeFlow.Base ForgeFlow.Execution

def ValidationError.text (e : ValidationError) : GoString :=
  match e.code with
  | .invalidWorkflowID => describe [("workflow ID ", e.workflowID)] identifierRule
  | .emptyWorkflow => describe [("workflow ", e.workflowID)] " must contain at least one task"
  | .invalidTaskID =>
    describe [("workflow ", e.workflowID), (" has invalid task ID ", e.taskID)]
      ": identifiers must be non-empty and contain no whitespace or control characters"
  | .invalidTaskName =>
    describe [("task ", e.taskID), (" in workflow ", e.workflowID)] " must have a non-empty name"
  | .duplicateTaskID =>
    describe [("workflow ", e.workflowID), (" contains duplicate task ID ", e.taskID)]
  | .invalidDependencyID =>
    describe [("task ", e.taskID), (" in workflow ", e.workflowID),
      (" has invalid dependency ID ", e.dependencyID)]
  | .missingDependency =>
    describe [("task ", e.taskID), (" in workflow ", e.workflowID),
      (" depends on undefined task ", e.dependencyID)]
  | .selfDependency =>
    describe [("task ", e.taskID), (" in workflow ", e.workflowID)] " depends on itself"
  | .duplicateDependency =>
    describe [("task ", e.taskID), (" in workflow ", e.workflowID),
      (" repeats dependency ", e.dependencyID)]
  | .cycle => describe [("workflow ", e.workflowID)] " contains a dependency cycle"
  | .unknownCompletedTask =>
    describe [("completed task ", e.taskID), (" is not defined in workflow ", e.workflowID)]
  | .invalidRetryPolicy =>
    describe [("task ", e.taskID), (" in workflow ", e.workflowID)]
      " has an invalid retry policy: " ++ e.reason

end ForgeFlow.Workflow

namespace ForgeFlow.Execution

open ForgeFlow.Base ForgeFlow.Workflow

def RunError.text : RunError → GoString
  | .invalidRunID runID => describe [("run ID ", runID)] identifierRule
  | .invalidDefinition cause => cause.text
  | .unknownTaskRun runID taskID =>
    describe [("task ", taskID), (" is not part of workflow run ", runID)]
  | .taskTransition runID taskID source target =>
    describe [("task ", taskID), (" in run ", runID), (" cannot transition from ", source.text),
      (" to ", target.text)]
  | .workflowTransition runID source target =>
    describe [("workflow run ", runID), (" cannot transition from ", source.text),
      (" to ", target.text)]
  | .invalidArgument text => text
  | .snapshotValidation runID reason =>
    describe [("invalid snapshot for workflow run ", runID)] ": " ++ reason

def persistenceError (operation : String) (runID : RunID) (cause : GoString) : GoString :=
  if runID = [] then
    describe [("persistence operation ", ascii operation)] " failed: " ++ cause
  else
    describe [("persistence operation ", ascii operation), (" failed for workflow run ", runID)]
      ": " ++ cause

def brokerOperationError (operation : String) (runID : RunID) (messageID : GoString)
    (cause : GoString) : GoString :=
  if messageID = [] then
    describe [("broker operation ", ascii operation), (" failed for workflow run ", runID)]
      ": " ++ cause
  else
    describe [("broker operation ", ascii operation), (" failed for message ", messageID),
      (" in workflow run ", runID)] ": " ++ cause

def taskExecutionError (runID : RunID) (taskID : TaskID) (cause : GoString) : GoString :=
  describe [("task ", taskID), (" in workflow run ", runID)] " failed: " ++ cause

def runCanceledError (runID : RunID) (cause : GoString) : GoString :=
  describe [("workflow run ", runID)] " canceled: " ++ cause

def unknownHandlerError (taskID : TaskID) (handlerName : HandlerName) : GoString :=
  describe [("task ", taskID), (" references unregistered handler ", handlerName)]

def runNotFoundError (runID : RunID) : GoString :=
  describe [("workflow run ", runID)] " was not found"

def workflowNotFoundError (workflowID : WorkflowID) : GoString :=
  describe [("workflow definition ", workflowID)] " was not found"

/-- What `errors.Join` prints: the messages that are there, one a line. -/
def joinErrors (errs : List (Option GoString)) : GoString :=
  (errs.filterMap id).intersperse (ascii "\n") |>.flatten

end ForgeFlow.Execution
