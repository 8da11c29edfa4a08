import Mathlib.Data.List.AList
import MediaCenterSync.Lib.UnionFind
import MediaCenterSync.SyncManager.Sources

/-!
# The match graph

Which items a matched pair puts together, transitively: a union-find over identifiers, fed with
pages of pairs, with an index of its components that is computed when somebody asks and dropped when
more pairs come.  Identifiers are compared and sorted, and nothing else.

`root` follows the parents, here for as many turns as there are identifiers and one more.
-/

namespace MediaCenterSync.Grouping

open SyncManager (SyncState)

structure MatchPair (α : Type*) where
  localItemId : α
  remoteItemId : α
  state : SyncState

structure MatchGraph (α : Type*) [DecidableEq α] where
  parent : AList fun _ : α => α
  otherCut : List α
  components : Option (AList fun _ : α => List α)

namespace MatchGraph

variable {α : Type*}

section

variable [DecidableEq α]

/-- Where an identifier points; one that is not there points at itself. -/
def up (parent : AList fun _ : α => α) (id : α) : α := (parent.lookup id).getD id

def root (g : MatchGraph α) (id : α) : α := UnionFind.root (up g.parent) g.parent.keys id

def ensure (g : MatchGraph α) (id : α) : MatchGraph α :=
  if id ∈ g.parent then g else { g with parent := g.parent.insert id id }

def union (g : MatchGraph α) (left right : α) : MatchGraph α :=
  let g := (g.ensure left).ensure right
  let leftRoot := g.root left
  let rightRoot := g.root right
  { g with
    parent := if leftRoot ≠ rightRoot then g.parent.insert leftRoot rightRoot else g.parent
    components := none }

/-- The body of the loop of `absorb`. -/
def absorbPair (g : MatchGraph α) (pair : MatchPair α) : MatchGraph α :=
  let g := g.union pair.localItemId pair.remoteItemId
  if pair.state = .CONFLICT then
    { g with otherCut := g.otherCut ++ [pair.localItemId, pair.remoteItemId] }
  else g

/-- Fold more edges in, so the graph can be built a page at a time. -/
def absorb (g : MatchGraph α) (pairs : List (MatchPair α)) : MatchGraph α :=
  pairs.foldl absorbPair { g with components := none }

/-- `new MatchGraph(pairs)` -/
def create (pairs : List (MatchPair α)) : MatchGraph α := absorb ⟨∅, [], none⟩ pairs

/-- Whether the group holds another version of the work this copy is one version of. -/
def besideAnotherCut (g : MatchGraph α) (id : α) : Bool := id ∈ g.otherCut

end

section

variable [LinearOrder α]

/-- The body of the loop of `_index`. -/
def addToIndex (g : MatchGraph α) (index : AList fun _ : α => List α) (id : α) :
    AList fun _ : α => List α :=
  index.insert (g.root id) ((index.lookup (g.root id)).getD [] ++ [id])

def computeIndex (g : MatchGraph α) : AList fun _ : α => List α :=
  (g.parent.keys.insertionSort (· ≤ ·)).foldl g.addToIndex ∅

/-- `_index`: the components, and the graph that remembers them. -/
def index (g : MatchGraph α) : (AList fun _ : α => List α) × MatchGraph α :=
  match g.components with
  | some components => (components, g)
  | none => (g.computeIndex, { g with components := some g.computeIndex })

/-- Every item an applied match put with this one, itself included, sorted. -/
def members (g : MatchGraph α) (id : α) : List α × MatchGraph α :=
  let (index, g) := g.index
  ((index.lookup (g.root id)).getD [id], g)

inductive Operation (α : Type*) where
  | absorb (pairs : List (MatchPair α))
  | members (id : α)
  | root (id : α)
  | besideAnotherCut (id : α)

def apply (g : MatchGraph α) : Operation α → MatchGraph α
  | .absorb pairs => g.absorb pairs
  | .members id => (g.members id).2
  | .root _ | .besideAnotherCut _ => g

def Operation.pairs : Operation α → List (MatchPair α)
  | .absorb pairs => pairs
  | _ => []

end

end MatchGraph

end MediaCenterSync.Grouping
