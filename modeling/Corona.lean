import Corona.Basic
import Corona.Ledger
import Corona.Lib.Program
import Corona.Lib.Machine
import Corona.Lib.Invariant
import Corona.Lib.Scheduler
import Corona.Lib.Lifecycle
import Corona.Contexts.Machine
import Corona.Contexts.Invariant
import Corona.Contexts.Scheduler
import Corona.Work
import Corona.Contexts.Completion
import Corona.Lib.Completion
import Corona.Contexts.Discipline
import Corona.Contexts.Outcome
import Corona.Lib.Outcome
import Corona.Outcomes
import Corona.Versions
import Corona.Lib.Stream
import Corona.Lib.Producer
import Corona.Lib.Calls
import Corona.Contexts.Lifecycle
import Corona.Nesting
