import R4Recovery.Manifest
import R4Recovery.Precedence
/-!
# UpdatePlan — the order in which the packages of an update are installed

`planOrder` of `system_update_batch.zig`: the components name what a package provides, the requirements what it needs from
another package, and the packages are emitted one at a time when nothing they need is left.
-/
namespace R4
namespace UpdateBatch

open Manifest

def maxPackages : Nat := 16

structure PlanComponent where
  packageIndex : Nat
  kind : ComponentKind
  name : Bytes
  target : Bytes
  version : Bytes
  deriving DecidableEq

structure PlanRequirement where
  packageIndex : Nat
  kind : ComponentKind
  name : Bytes
  target : Bytes
  version : Bytes
  currentSatisfied : Bool := false
  deriving DecidableEq

structure PlanPackage where
  priority : Priority := .normal
  deriving DecidableEq

inductive PlanError where
  | tooManyPackages | invalidReference | duplicateComponent | unresolvedRequirement | dependencyCycle
  deriving DecidableEq, Repr

/-- One name of a kind, or one target. -/
def PlanComponent.clashes (component prior : PlanComponent) : Bool :=
  (component.kind == prior.kind && eqlIgnoreCase component.name prior.name) || targetEquals component.target prior.target

def PlanComponent.provides (component : PlanComponent) (requirement : PlanRequirement) : Bool :=
  !(component.kind != requirement.kind || !eqlIgnoreCase component.name requirement.name ||
    !targetEquals component.target requirement.target ||
    decide ((compareVersions component.version requirement.version).getD (-1) < 0))

def checkComponents (count : Nat) : List PlanComponent → List PlanComponent → Except PlanError Unit
  | _, [] => .ok ()
  | prior, component :: rest =>
    if count ≤ component.packageIndex then .error .invalidReference
    else if prior.any (fun p => component.clashes p) then .error .duplicateComponent
    else checkComponents count (prior ++ [component]) rest

/-- The edges go from the provider to the consumer. -/
structure Graph where
  edges : Nat → Nat → Bool := fun _ _ => false
  indegree : Nat → Int := fun _ => 0

def Graph.link (g : Graph) (provider consumer : Nat) : Graph :=
  if provider = consumer ∨ g.edges provider consumer = true then g
  else
    { edges := fun i j => g.edges i j || decide (i = provider ∧ j = consumer)
      indegree := Function.update g.indegree consumer (g.indegree consumer + 1) }

def linkRequirements (count : Nat) (components : List PlanComponent) : List PlanRequirement → Graph → Except PlanError Graph
  | [], g => .ok g
  | requirement :: rest, g =>
    if count ≤ requirement.packageIndex then .error .invalidReference
    else if requirement.currentSatisfied then linkRequirements count components rest g
    else
      match components.find? (fun component => component.provides requirement) with
      | none => .error .unresolvedRequirement
      | some component =>
        linkRequirements count components rest (g.link component.packageIndex requirement.packageIndex)

structure Emission where
  indegree : Nat → Int
  emitted : Nat → Bool := fun _ => false
  out : List Nat := []

def isFoundation (packages : List PlanPackage) (index : Nat) : Bool := (packages.getD index {}).priority == .foundation

/-- One turn of the search for the next package. -/
def choose (packages : List PlanPackage) (s : Emission) (selected : Option Nat) (index : Nat) : Option Nat :=
  if s.emitted index = true ∨ s.indegree index ≠ 0 then selected
  else
    match selected with
    | none => some index
    | some best => if isFoundation packages index && !isFoundation packages best then some index else some best

def select (packages : List PlanPackage) (s : Emission) : Option Nat :=
  (List.range packages.length).foldl (choose packages s) none

def Emission.emit (s : Emission) (count : Nat) (edges : Nat → Nat → Bool) (next : Nat) : Emission :=
  { out := s.out ++ [next]
    emitted := Function.update s.emitted next true
    indegree := fun consumer =>
      if consumer < count ∧ edges next consumer = true then s.indegree consumer - 1 else s.indegree consumer }

def emitAll (packages : List PlanPackage) (edges : Nat → Nat → Bool) : Nat → Emission → Except PlanError (List Nat)
  | 0, s => .ok s.out
  | left + 1, s =>
    match select packages s with
    | none => .error .dependencyCycle
    | some next => emitAll packages edges left (s.emit packages.length edges next)

/-- `planOrder` into a buffer of `room` bytes. -/
def planOrder (packages : List PlanPackage) (components : List PlanComponent) (requirements : List PlanRequirement)
    (room : Nat) : Except PlanError (List Nat) :=
  if packages.length = 0 ∨ maxPackages < packages.length ∨ room < packages.length then .error .tooManyPackages
  else
    match checkComponents packages.length [] components with
    | .error e => .error e
    | .ok () =>
      match linkRequirements packages.length components requirements {} with
      | .error e => .error e
      | .ok g => emitAll packages g.edges packages.length { indegree := g.indegree }

end UpdateBatch
end R4
