import Veryfront.Lib.OrdMap

/-!
# Namespaced workflow definitions

A definition that runs inside another one is namespaced: the ids of its steps, the steps of its
composites included, are prefixed, unless they carry the prefix already. Its output selector still
reads the ids that it declares, so it is handed the context under those. A workflow that is called by
name, and a list of steps that is computed from the context, are left out.
-/

namespace Veryfront.Workflow.Dsl

open Veryfront.Lib

/-- The code units of an id. -/
abbrev StepId := List UInt16

abbrev Context (α : Type) := OrdMap StepId α

def literal (s : String) : StepId := s.toList.map fun c => c.toNat.toUInt16

variable {α ρ : Type}

/-! ## Definitions -/

mutual

inductive WorkflowNode (α ρ : Type)
  | mk (id : StepId) (config : WorkflowNodeConfig α ρ) (dependsOn : Option (List StepId))

/-- `leaf` is every kind of node that has no steps of its own. -/
inductive WorkflowNodeConfig (α ρ : Type)
  | parallel (nodes : List (WorkflowNode α ρ))
  | branch (thenNodes : List (WorkflowNode α ρ)) (elseNodes : Option (List (WorkflowNode α ρ)))
  | loop (steps : List (WorkflowNode α ρ))
  | subWorkflow (workflow : WorkflowDefinition α ρ)
  | leaf

/-- With the selector of the output, and the view of the context that an earlier namespacing has left. -/
inductive WorkflowDefinition (α ρ : Type)
  | mk (steps : List (WorkflowNode α ρ)) (output : Option (Context α → ρ)) (view : Option (Context α → Context α))

end

namespace WorkflowDefinition

def steps : WorkflowDefinition α ρ → List (WorkflowNode α ρ)
  | .mk steps _ _ => steps

def output : WorkflowDefinition α ρ → Option (Context α → ρ)
  | .mk _ output _ => output

def view : WorkflowDefinition α ρ → Option (Context α → Context α)
  | .mk _ _ view => view

end WorkflowDefinition

/-! ## Keys -/

def isKept (kept : List StepId) (key : StepId) : Bool :=
  kept.any fun id => key = id || (id ++ literal "/").isPrefixOf key

def rebaseKey (fromPrefix toPrefix : StepId) (kept : List StepId) (key : StepId) : StepId :=
  if fromPrefix.isPrefixOf key && !isKept kept key then toPrefix ++ key.drop fromPrefix.length else key

def rebaseContextKeys (fromPrefix toPrefix : StepId) (kept : List StepId) (context : Context α) : Context α :=
  context.mapKeys (rebaseKey fromPrefix toPrefix kept)

/-! ## Ids -/

def rebaseId (oldPrefix newPrefix id : StepId) : StepId :=
  if newPrefix ≠ [] ∧ newPrefix.isPrefixOf id then id
  else if oldPrefix ≠ [] ∧ oldPrefix.isPrefixOf id then newPrefix ++ id.drop oldPrefix.length
  else newPrefix ++ id

mutual

/-- `kept` collects the ids that stay as they are. -/
def rebaseWorkflowNode (oldPrefix newPrefix : StepId) (kept : List StepId) :
    WorkflowNode α ρ → WorkflowNode α ρ × List StepId
  | .mk id config dependsOn =>
    let newId := rebaseId oldPrefix newPrefix id
    let kept := if newId = id then kept ++ [id] else kept
    let (config, kept) := rebaseCompositeDescendants id newId oldPrefix newPrefix kept config
    (.mk newId config (dependsOn.map fun ids => ids.map (rebaseId oldPrefix newPrefix)), kept)

def rebaseWorkflowNodes (oldPrefix newPrefix : StepId) (kept : List StepId) :
    List (WorkflowNode α ρ) → List (WorkflowNode α ρ) × List StepId
  | [] => ([], kept)
  | node :: nodes =>
    let (node, kept) := rebaseWorkflowNode oldPrefix newPrefix kept node
    let (nodes, kept) := rebaseWorkflowNodes oldPrefix newPrefix kept nodes
    (node :: nodes, kept)

def rebaseCompositeDescendants (oldId newId oldPrefix newPrefix : StepId) (kept : List StepId) :
    WorkflowNodeConfig α ρ → WorkflowNodeConfig α ρ × List StepId
  | .parallel nodes =>
    let (nodes, kept) := rebaseWorkflowNodes (oldId ++ literal "/") (newId ++ literal "/") kept nodes
    (.parallel nodes, kept)
  | .branch thenNodes none =>
    let (thenNodes, kept) := rebaseWorkflowNodes (oldId ++ literal "/then/") (newId ++ literal "/then/") kept thenNodes
    (.branch thenNodes none, kept)
  | .branch thenNodes (some elseNodes) =>
    let (thenNodes, kept) := rebaseWorkflowNodes (oldId ++ literal "/then/") (newId ++ literal "/then/") kept thenNodes
    let (elseNodes, kept) := rebaseWorkflowNodes (oldId ++ literal "/else/") (newId ++ literal "/else/") kept elseNodes
    (.branch thenNodes (some elseNodes), kept)
  | .loop steps =>
    let (steps, kept) := rebaseWorkflowNodes (oldId ++ literal "/") (newId ++ literal "/") kept steps
    (.loop steps, kept)
  | .subWorkflow workflow => (.subWorkflow (rebaseWorkflowDefinition oldPrefix newPrefix workflow), kept)
  | .leaf => (.leaf, kept)

def rebaseWorkflowDefinition (oldPrefix newPrefix : StepId) : WorkflowDefinition α ρ → WorkflowDefinition α ρ
  | .mk steps output view =>
    let (steps, kept) := rebaseWorkflowNodes oldPrefix newPrefix [] steps
    let rebased := rebaseContextKeys newPrefix oldPrefix kept
    .mk steps (output.map fun output context => output (rebased context))
      (some fun context => (view.map fun view => view (rebased context)).getD (rebased context))

end

theorem rebaseWorkflowNodes_cons (oldPrefix newPrefix : StepId) (kept : List StepId) (node : WorkflowNode α ρ)
    (nodes : List (WorkflowNode α ρ)) :
    rebaseWorkflowNodes oldPrefix newPrefix kept (node :: nodes) =
      let first := rebaseWorkflowNode oldPrefix newPrefix kept node
      let rest := rebaseWorkflowNodes oldPrefix newPrefix first.2 nodes
      (first.1 :: rest.1, rest.2) := rfl

theorem rebaseCompositeDescendants_branch (oldId newId oldPrefix newPrefix : StepId) (kept : List StepId)
    (thenNodes elseNodes : List (WorkflowNode α ρ)) :
    rebaseCompositeDescendants oldId newId oldPrefix newPrefix kept (.branch thenNodes (some elseNodes)) =
      let first := rebaseWorkflowNodes (oldId ++ literal "/then/") (newId ++ literal "/then/") kept thenNodes
      let rest := rebaseWorkflowNodes (oldId ++ literal "/else/") (newId ++ literal "/else/") first.2 elseNodes
      (.branch first.1 (some rest.1), rest.2) := rfl

def namespaceWorkflowDefinition (newPrefix : StepId) (definition : WorkflowDefinition α ρ) : WorkflowDefinition α ρ :=
  rebaseWorkflowDefinition [] newPrefix definition

def workflowOutputValidationContext (definition : WorkflowDefinition α ρ) (context : Context α) : Context α :=
  (definition.view.map fun view => view context).getD context

end Veryfront.Workflow.Dsl
