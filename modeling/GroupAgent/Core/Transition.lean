import GroupAgent.Core.Error
import GroupAgent.Lib.Canonical
import GroupAgent.Lib.Effect

/-!
# Compiled transitions

Model of `CompiledTransition`, `RouteDecision` and `resolve_into` (`transition.rs:10-24`, 26-29,
43-111) of `crates/group-agent-core/src`.

* A transition is generic in the type `ι` its targets are named by: an index in a flattened graph
  (`NodeIndex` in the source), an identifier among the declarations of a builder
  (`StateGraph.transition`).
* A router is consulted through `Routers`: what it answers may depend on anything its monad `m`
  carries. So the same `resolveInto` serves the runtime, whose monad is that of a run, and
  statements about one answer.
* The whitelist of a conditional transition is an insertion-ordered map (`IndexMap`). It is a list
  of pairs whose keys `Compile` has checked.
* A conditional fan-out rejects an empty answer, then a target off the list, then a repeated one,
  in the order of the answer. `END` has no index and adds nothing.
* `resolveInto` returns the targets it appends to the caller's list; on an error nothing has been
  appended. `Resolving` has the method with its list, and that the two agree.

Out of scope: `remap`, which is in `Resolving`.
-/

namespace GroupAgent.Core

open GroupAgent.Lib

/-- The one outgoing transition of a compiled item. -/
inductive CompiledTransition (ρ ι : Type) where
  | fixed (target : Option ι)
  | staticFanOut (targets : List ι)
  | conditional (router : ρ) (allowedTargets : List (NodeId × Option ι))
  | conditionalFanOut (router : ρ) (allowedTargets : List (NodeId × Option ι))

/-- The targets a conditional transition selected. -/
inductive RouteDecision where
  | single (target : NodePath)
  | multiple (targets : List NodePath)
  deriving DecidableEq, Repr

/-- How the routers of a graph are called on the current state. -/
structure Routers (m : Type → Type) (ρ : Type) where
  route : ρ → m (Except SourceError NodeId)
  fanOut : ρ → m (Except SourceError (List NodeId))

namespace CompiledTransition

variable {ρ ι κ : Type}

/-- Look up every selected identifier: no repeats, and none outside the whitelist. -/
def selectAll (allowedTargets : List (NodeId × Option ι)) :
    List NodeId → List NodeId → Except TransitionError (List (Option ι × NodeId))
  | _, [] => .ok []
  | seen, targetId :: selected =>
    if targetId ∈ seen then .error (.duplicateTarget targetId)
    else
      match allowedTargets.lookup targetId with
      | none => .error (.invalidTarget targetId)
      | some target => do
        let resolved ← selectAll allowedTargets (targetId :: seen) selected
        pure ((target, targetId) :: resolved)

/-- Executable targets in the order of their keys, then `END`: the sort by `(0, index)` for a target
and `(1, usize::MAX)` for `END`. -/
def endLast (key : ι → Nat) (resolved : List (Option ι × NodeId)) : List (Option ι × NodeId) :=
  sortByKey (fun target => target.1.elim 0 key) (resolved.filter fun target => target.1.isSome) ++
    resolved.filter fun target => target.1.isNone

section Resolve

variable {m : Type → Type} [Monad m]

/-- The path reported for a selected target. -/
def targetPath (pathAt : ι → m NodePath) (graphPath : GraphPath) (target : Option ι)
    (targetId : NodeId) : m NodePath :=
  match target with
  | some index => pathAt index
  | none => pure ⟨graphPath, targetId⟩

/-- Resolve a transition: the targets to append, and the decision of a router if one was asked. -/
def resolveInto (routers : Routers m ρ) (key : ι → Nat) (pathAt : ι → m NodePath)
    (t : CompiledTransition ρ ι) (graphPath : GraphPath) :
    m (Except TransitionError (List ι × Option RouteDecision)) :=
  match t with
  | .fixed target => pure (.ok (target.toList, none))
  | .staticFanOut targets => pure (.ok (targets, none))
  | .conditional router allowedTargets => do
    match ← routers.route router with
    | .error source => pure (.error (.router source))
    | .ok targetId =>
      match allowedTargets.lookup targetId with
      | none => pure (.error (.invalidTarget targetId))
      | some target => do
        let path ← targetPath pathAt graphPath target targetId
        pure (.ok (target.toList, some (.single path)))
  | .conditionalFanOut router allowedTargets => do
    match ← routers.fanOut router with
    | .error source => pure (.error (.router source))
    | .ok [] => pure (.error .emptyTargets)
    | .ok (targetId :: selected) =>
      match selectAll allowedTargets [] (targetId :: selected) with
      | .error error => pure (.error error)
      | .ok resolved => do
        let resolved := endLast key resolved
        let paths ← resolved.mapM fun (target, targetId) =>
          targetPath pathAt graphPath target targetId
        pure (.ok (resolved.filterMap Prod.fst, some (.multiple paths)))

end Resolve

/-- Rename every target. -/
def map (f : ι → κ) : CompiledTransition ρ ι → CompiledTransition ρ κ
  | .fixed target => .fixed (target.map f)
  | .staticFanOut targets => .staticFanOut (targets.map f)
  | .conditional router allowed =>
    .conditional router (allowed.map fun (nodeId, target) => (nodeId, target.map f))
  | .conditionalFanOut router allowed =>
    .conditionalFanOut router (allowed.map fun (nodeId, target) => (nodeId, target.map f))

end CompiledTransition

end GroupAgent.Core
