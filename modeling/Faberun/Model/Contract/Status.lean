/-! # Node statuses

`NodeStatus` of `contract/index.mjs`, the three classifications of `engine/prompts.mjs`, and the error a
node snapshot carries.
-/

namespace Faberun

inductive NodeStatus where
  | pending
  | running
  | done
  | noOp
  | blocked
  | failed
  | exhausted
  | stalled
  | canceled
  deriving DecidableEq, Repr

namespace NodeStatus

/-- `TERMINAL`: the work is over and needs nothing more from the controller. -/
def terminal : NodeStatus → Bool
  | .done | .noOp | .canceled => true
  | _ => false

/-- `PARKED`: stopped without succeeding. -/
def parked : NodeStatus → Bool
  | .blocked | .failed | .exhausted | .stalled => true
  | _ => false

/-- `SETTLED`: every status a node never leaves on its own. -/
def settled (status : NodeStatus) : Bool := status.terminal || status.parked

/-- The unsettled statuses are the two a running controller works on. -/
theorem settled_eq_false_iff {status : NodeStatus} :
    status.settled = false ↔ status = .pending ∨ status = .running := by
  cases status <;> decide

end NodeStatus

structure NodeError where
  code : String
  message : String
  deriving DecidableEq, Repr

/-- A node stopped as `blocked` with this error code. -/
def blockedWith (code : String) (status : NodeStatus) (error : Option NodeError) : Bool :=
  decide (status = .blocked) && error.any fun error => decide (error.code = code)

end Faberun
