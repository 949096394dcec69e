import TensorGraph.Graph.Order

/-! A diagnostic report on a graph: order and layout errors, and warnings about single tensors. -/

namespace TensorGraph

/-- A defect that keeps a graph from being run. Operations and tensors are named by position. -/
inductive PlanError
  | scheduleOrder (violation : OrderViolation)
  | groupLayout (group : Nat) (member : OperationId) (position : Nat)
  deriving DecidableEq, Repr

inductive PlanWarning
  | deviceTensor (tensor : Nat)
  | isolatedTensor (tensor : Nat)
  | deadOutput (producer tensor : Nat)
  deriving DecidableEq, Repr

namespace PlanError

def message (graph : Graph) : PlanError → String
  | .scheduleOrder violation =>
      let consumer := graph.operationId violation.consumer
      let tensor := graph.tensorId violation.tensor
      let producer := graph.operationId violation.producer
      s!"Operation {consumer} reads tensor {tensor} before operation {producer} writes it"
  | .groupLayout group member position =>
      s!"Group {graph.operationId group} expects member {member} at position {position}"

def operation? : PlanError → Option Nat
  | .scheduleOrder violation => some violation.consumer
  | .groupLayout group _ _ => some group

def tensor? : PlanError → Option Nat
  | .scheduleOrder violation => some violation.tensor
  | .groupLayout _ _ _ => none

end PlanError

namespace PlanWarning

def message (graph : Graph) : PlanWarning → String
  | .deviceTensor tensor => s!"Tensor {graph.tensorId tensor} is marked as device storage"
  | .isolatedTensor tensor => s!"Tensor {graph.tensorId tensor} is neither produced nor consumed"
  | .deadOutput producer tensor =>
      let operation := graph.operationId producer
      s!"Tensor {graph.tensorId tensor} written by operation {operation} is never read"

def operation? : PlanWarning → Option Nat
  | .deadOutput producer _ => some producer
  | _ => none

def tensor? : PlanWarning → Option Nat
  | .deviceTensor tensor | .isolatedTensor tensor | .deadOutput _ tensor => some tensor

end PlanWarning

structure Report where
  checks : Nat
  errors : List PlanError
  warnings : List PlanWarning
  deriving DecidableEq

namespace Report

def isValid (report : Report) : Bool := report.errors.isEmpty

def hasIssues (report : Report) : Bool := !report.errors.isEmpty || !report.warnings.isEmpty

def summary (report : Report) : String :=
  let errors := report.errors.length
  let warnings := report.warnings.length
  s!"Validation: {errors} errors, {warnings} warnings ({report.checks} checks)"

end Report

namespace Graph

def memberInPlace (graph : Graph) (marker : Nat) (member : OperationId) (position : Nat) : Bool :=
  (graph.operations[position]?.any fun node => node.operation.id = member) &&
    match graph.slots[position]? with
    | some (.member header _) => header = marker
    | _ => false

def layoutErrors (graph : Graph) : List PlanError :=
  graph.operations.zipIdx.flatMap fun entry =>
    (entry.1.operation.members?.getD []).zipIdx.filterMap fun member =>
      let position := entry.2 + 1 + member.2
      if graph.memberInPlace entry.2 member.1 position then none
      else some (.groupLayout entry.2 member.1 position)

def usageWarnings (tensor : Nat) (node : TensorNode) : List PlanWarning :=
  (if node.tensor.storage = .device then [.deviceTensor tensor] else []) ++
    match node.producer, node.consumers with
    | none, [] => [.isolatedTensor tensor]
    | some producer, [] => [.deadOutput producer tensor]
    | _, _ => []

def report (graph : Graph) : Report where
  checks := 3
  errors := graph.orderViolations.map PlanError.scheduleOrder ++ graph.layoutErrors
  warnings := graph.tensors.zipIdx.flatMap fun entry => usageWarnings entry.2 entry.1

end Graph

end TensorGraph
