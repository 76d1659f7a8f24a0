import Manus.Validation.CapabilityFlow

/-! # Capability flow on the canvas

The canvas computes for itself what the devices at an outcome of a step are sure to
carry, from the fields that it stored with each node. Guarantees are kept under one key
made from the id of the node and the name of the outcome.
-/

namespace Manus

/-- A node of the canvas with the fields that were copied from its step. -/
structure ProjectedCanvasNode extends CanvasNode where
  produces : Option (List Capability) := none
  producesParsed : Option (List String) := none
  consumes : Option (List Capability) := none
  outcomes : Option (List String) := none

/-- `edge.sourceHandle ?? "success"`. -/
def CanvasEdge.canvasHandle (e : CanvasEdge) : String := e.sourceHandle.getD "success"

namespace CapabilityGraph

/-- What `trim` strips off a string. -/
def isJsSpace (c : Char) : Bool :=
  let n := c.toNat
  (9 ≤ n && n ≤ 13) || n == 32 || n == 0xa0 || n == 0x1680 || (0x2000 ≤ n && n ≤ 0x200a) ||
    n == 0x2028 || n == 0x2029 || n == 0x202f || n == 0x205f || n == 0x3000 || n == 0xfeff

/-- `FAILURE_CLASS_OUTCOMES` -/
def failureClassOutcomes : List String := ["failure", "fail", "error"]

def isFailureClassOutcome (name : String) : Bool :=
  let chars := (name.toList.dropWhile isJsSpace).reverse.dropWhile isJsSpace
  failureClassOutcomes.any fun word => chars.reverse.map Char.toLower == word.toList

/-- `applyStep` -/
def applyStep (input : CapabilityState) (node : ProjectedCanvasNode) : CapabilityState :=
  ⟨(input.capabilities ∪ (node.produces.getD []).toFinset) \ (node.consumes.getD []).toFinset,
    input.parsedKeys ∪ (node.producesParsed.getD []).toFinset⟩

def outcomeKey (nodeId handle : String) : String := nodeId ++ ":" ++ handle

/-- `getOutcomeProvides` -/
def getOutcomeProvides (provides : Dict CapabilityState) (nodeId handle : String) :
    CapabilityState :=
  (provides.get? (outcomeKey nodeId handle)).getD emptyCapabilityState

section Order

/-- One dependent has a parent less; it joins the queue when the count is zero. -/
def releaseNext (s : (String → ℤ) × List String) (dep : String) : (String → ℤ) × List String :=
  let next := s.1 dep - 1
  (Function.update s.1 dep next, if next = 0 then s.2 ++ [dep] else s.2)

/-- The loop over the queue: fuel, counts of parents, queue, order so far. -/
def orderLoop (dependents : String → List String) :
    ℕ → (String → ℤ) → List String → List String → List String
  | 0, _, _, order => order
  | _ + 1, _, [], order => order
  | fuel + 1, inDegree, nodeId :: queue, order =>
    let s := (dependents nodeId).foldl releaseNext (inDegree, queue)
    orderLoop dependents fuel s.1 s.2 (order ++ [nodeId])

variable (nodes : List ProjectedCanvasNode) (edges : List CanvasEdge)

/-- How many edges end in a node; other ids count as zero. -/
def inDegree (nodeId : String) : ℤ :=
  if nodeId ∈ nodes.map (·.id) then edges.countP fun e => e.target == nodeId else 0

/-- The ids in dependency order. An id joins the queue at most once for each node and each edge. -/
def canvasOrder : List String :=
  orderLoop (dependentsOf edges) (nodes.length + edges.length) (inDegree nodes edges)
    ((nodes.map (·.id)).filter fun nodeId => inDegree nodes edges nodeId = 0) []

end Order

section Provides

variable (edges : List CanvasEdge)

def canvasInput (provides : Dict CapabilityState) (nodeId : String) : CapabilityState :=
  intersectCapabilityStates <| (edges.filter fun e => e.target == nodeId).map fun e =>
    getOutcomeProvides provides e.source e.canvasHandle

/-- The handles under which the state of a node without outcomes is kept. -/
def outgoingHandles (nodeId : String) : List String :=
  match (edges.filter fun e => e.source == nodeId).map CanvasEdge.canvasHandle with
  | [] => ["success"]
  | handles => handles

/-- Keep what the devices at the outcomes of one node carry. -/
def visitCanvasNode (provides : Dict CapabilityState) (node : ProjectedCanvasNode) :
    Dict CapabilityState :=
  let input := canvasInput edges provides node.id
  let output := applyStep input node
  match node.outcomes.getD [] with
  | [] => (outgoingHandles edges node.id).foldl
      (fun provides handle => provides.insert (outcomeKey node.id handle) output) provides
  | outcomes => outcomes.foldl
      (fun provides name => provides.insert (outcomeKey node.id name)
        (if isFailureClassOutcome name then input else output)) provides

/-- `computeOutcomeProvides` -/
def computeOutcomeProvides (nodes : List ProjectedCanvasNode) : Dict CapabilityState :=
  let nodesById := Dict.ofPairs (nodes.map fun node => (node.id, node))
  ((canvasOrder nodes edges).filterMap nodesById.get?).foldl (visitCanvasNode edges) ∅

end Provides

end CapabilityGraph

end Manus
