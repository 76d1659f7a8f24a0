import Manus.Canvas.Basic
import Manus.Lib.Double

/-! # Groups on the canvas of the editor

The canvas is one flat graph, and a group is a list of members. What is shown is derived from the
two: the root view, where each group is one node with a port for every edge that crosses its
boundary, and a view of the inside of each group.
-/

namespace Manus.Editor

structure Point where
  x : Double
  y : Double
  deriving DecidableEq

inductive NodeType where
  | workflowNode
  | labelNode
  | backgroundNode
  | funnelNode
  | groupNode
  deriving DecidableEq

structure StepData where
  title : String
  requires : Option (List String) := none
  requiresParsed : Option (List String) := none
  produces : Option (List String) := none
  producesParsed : Option (List String) := none
  deriving DecidableEq

/-- `PersistedCanvasNode` -/
structure CanvasNode where
  id : String
  type : NodeType := .workflowNode
  position : Point
  parentId : Option String := none
  data : StepData
  deriving DecidableEq

/-- `WorkflowCanvasEdge`, as it is stored. -/
structure CanvasEdge where
  id : String
  source : String
  sourceHandle : Option String
  target : String
  targetHandle : Option String
  deriving DecidableEq

structure CanvasGroup where
  id : String
  isContainer : Option Bool := none
  title : String
  nodeIds : List String
  position : Point
  parentId : Option String := none
  selected : Option Bool := none
  incomeHandleSide : Option String := none
  outcomeHandleSide : Option String := none
  deriving DecidableEq

structure Canvas where
  nodes : List CanvasNode
  edges : List CanvasEdge
  groups : List CanvasGroup

def toAbsolutePosition (relative parent : Point) : Point :=
  ⟨relative.x.add parent.x, relative.y.add parent.y⟩

section Ports

structure GroupPort where
  edgeId : String
  innerNodeId : String
  innerHandle : String
  outerNodeId : String
  deriving DecidableEq

def inputPort (members : List String) (edge : CanvasEdge) : Option GroupPort :=
  if edge.source ∉ members ∧ edge.target ∈ members then
    some ⟨edge.id, edge.target, edge.targetHandle.getD "input", edge.source⟩
  else none

def outputPort (members : List String) (edge : CanvasEdge) : Option GroupPort :=
  if edge.source ∈ members ∧ edge.target ∉ members then
    some ⟨edge.id, edge.source, edge.sourceHandle.getD "success", edge.target⟩
  else none

structure GroupPorts where
  inputs : List GroupPort
  outputs : List GroupPort

def deriveGroupPorts (nodeIds : List String) (edges : List CanvasEdge) : GroupPorts where
  inputs := edges.filterMap (inputPort nodeIds)
  outputs := edges.filterMap (outputPort nodeIds)

end Ports

section Projection

def groupNodeId (groupId : String) : String := "__group__" ++ groupId

def groupEdgeId (realEdgeId : String) : String := "__group-edge__" ++ realEdgeId

/-- `in:` and the id of the edge. -/
def inputHandle (edgeId : String) : String := "in:" ++ edgeId

/-- `out:` and the id of the edge. -/
def outputHandle (edgeId : String) : String := "out:" ++ edgeId

structure GroupPortView where
  handleId : String
  edgeId : String
  label : String

structure GroupNode where
  id : String
  position : Point
  parentId : Option String
  selected : Option Bool
  title : String
  memberCount : ℕ
  groupId : String
  requires : List String
  requiresParsed : List String
  produces : List String
  producesParsed : List String
  inputPorts : List GroupPortView
  outputPorts : List GroupPortView
  incomeHandleSide : Option String
  outcomeHandleSide : Option String

/-- A step, marked when it owns a boundary port of the group in view, or a whole group. -/
inductive ProjectedNode where
  | step (node : CanvasNode) (isGroupEntryPoint : Bool) (groupExitHandles : Option (List String))
  | group (node : GroupNode)

def ProjectedNode.type : ProjectedNode → NodeType
  | .step node _ _ => node.type
  | .group _ => .groupNode

/-- An edge in a view; `realEdgeId` is set when one of its ends is a port of a group. -/
structure ProjectedEdge extends CanvasEdge where
  realEdgeId : Option String := none

structure ProjectedCanvas where
  nodes : List ProjectedNode
  edges : List ProjectedEdge
  groupNodeIds : List (String × String)

def portLabel (port : GroupPort) (allNodes : List CanvasNode) (withHandle : Bool) : String :=
  let title := ((allNodes.find? fun n => n.id = port.innerNodeId).map fun n => n.data.title).getD
    port.innerNodeId
  if withHandle then s!"{title} · {port.innerHandle}" else title

/-- The nodes that own the ports; of two nodes with one id the last. -/
def portNodes (ports : List GroupPort) (allNodes : List CanvasNode) : List CanvasNode :=
  ports.filterMap fun p => allNodes.reverse.find? fun n => n.id = p.innerNodeId

def synthesizeGroupNode (group : CanvasGroup) (allNodes : List CanvasNode)
    (allEdges : List CanvasEdge) : GroupNode :=
  let ports := deriveGroupPorts group.nodeIds allEdges
  let inputNodes := portNodes ports.inputs allNodes
  let outputNodes := portNodes ports.outputs allNodes
  { id := groupNodeId group.id
    position := group.position
    -- A parent that is not there is left out.
    parentId := group.parentId.filter fun id =>
      allNodes.any fun n => n.id = id && n.type = .backgroundNode
    selected := group.selected
    title := group.title
    memberCount := group.nodeIds.length
    groupId := group.id
    requires := inputNodes.flatMap fun n => n.data.requires.getD []
    requiresParsed := inputNodes.flatMap fun n => n.data.requiresParsed.getD []
    produces := outputNodes.flatMap fun n => n.data.produces.getD []
    producesParsed := outputNodes.flatMap fun n => n.data.producesParsed.getD []
    inputPorts := ports.inputs.map fun p =>
      ⟨inputHandle p.edgeId, p.edgeId, portLabel p allNodes false⟩
    outputPorts := ports.outputs.map fun p =>
      ⟨outputHandle p.edgeId, p.edgeId, portLabel p allNodes true⟩
    incomeHandleSide := group.incomeHandleSide
    outcomeHandleSide := group.outcomeHandleSide }

/-- A step of the group in view, marked when an edge crosses the boundary at it. -/
def markStep (ports : GroupPorts) (node : CanvasNode) : ProjectedNode :=
  let exits := ports.outputs.filter fun p => p.innerNodeId = node.id
  .step node (ports.inputs.any fun p => p.innerNodeId = node.id)
    (if exits = [] then none else some (exits.map GroupPort.innerHandle))

def groupView (c : Canvas) (group : CanvasGroup) : ProjectedCanvas where
  nodes := (c.nodes.filter fun n => n.id ∈ group.nodeIds).map
    (markStep (deriveGroupPorts group.nodeIds c.edges))
  edges := (c.edges.filter fun e => e.source ∈ group.nodeIds && e.target ∈ group.nodeIds).map
    fun e => { e with }
  groupNodeIds := []

/-- `groupIdByNodeId`: of two groups that list the node, the last. -/
def groupIdOf (groups : List CanvasGroup) (nodeId : String) : Option String :=
  (groups.reverse.find? fun g => nodeId ∈ g.nodeIds).map CanvasGroup.id

/-- An edge of the root view, unless it is inside of one group. -/
def projectEdge (groups : List CanvasGroup) (edge : CanvasEdge) : Option ProjectedEdge :=
  let toOutput (groupId : String) (e : ProjectedEdge) : ProjectedEdge :=
    { e with
      id := groupEdgeId edge.id
      source := groupNodeId groupId
      sourceHandle := some (outputHandle edge.id)
      realEdgeId := some edge.id }
  let toInput (groupId : String) (e : ProjectedEdge) : ProjectedEdge :=
    { e with
      id := groupEdgeId edge.id
      target := groupNodeId groupId
      targetHandle := some (inputHandle edge.id)
      realEdgeId := some edge.id }
  match given (groupIdOf groups edge.source), given (groupIdOf groups edge.target) with
  | some sourceGroupId, some targetGroupId =>
    if sourceGroupId = targetGroupId then none
    else some (toOutput sourceGroupId (toInput targetGroupId { edge with }))
  | none, some targetGroupId => some (toInput targetGroupId { edge with })
  | some sourceGroupId, none => some (toOutput sourceGroupId { edge with })
  | none, none => some { edge with }

/-- Backgrounds come first, for their children. -/
def sortNodesForContainment (nodes : List ProjectedNode) : List ProjectedNode :=
  let rank (n : ProjectedNode) : ℕ := if n.type = .backgroundNode then 0 else 1
  nodes.mergeSort fun a b => rank a ≤ rank b

def rootView (c : Canvas) : ProjectedCanvas where
  nodes := sortNodesForContainment
    (((c.nodes.filter fun n => !c.groups.any fun g => n.id ∈ g.nodeIds).map fun n =>
      .step n false none) ++
    c.groups.map fun g => .group (synthesizeGroupNode g c.nodes c.edges))
  edges := c.edges.filterMap (projectEdge c.groups)
  groupNodeIds := c.groups.map fun g => (groupNodeId g.id, g.id)

def projectCanvasView (c : Canvas) (activeGroupId : Option String) : ProjectedCanvas :=
  match activeGroupId with
  | none => rootView c
  | some groupId =>
    match c.groups.find? fun g => g.id = groupId with
    | none => ⟨[], [], []⟩
    | some group => groupView c group

end Projection

section Membership

/-- Groups made from a selection are dissolved below two members. -/
def groupSurvivesMembership (group : CanvasGroup) : Bool :=
  group.isContainer = some true || 2 ≤ group.nodeIds.length

def CanvasGroup.without (group : CanvasGroup) (ids : List String) : CanvasGroup :=
  { group with nodeIds := group.nodeIds.filter (· ∉ ids) }

def removeNodesFromGroups (groups : List CanvasGroup) (nodeIds : List String)
    (keepGroupId : Option String) : List CanvasGroup :=
  (groups.map fun g => g.without nodeIds).filter fun g =>
    some g.id = keepGroupId || groupSurvivesMembership g

def addNodesToGroup (groups : List CanvasGroup) (allNodes : List CanvasNode) (groupId : String)
    (nodeIds : List String) : Except String (List CanvasGroup) :=
  if ¬ groups.any fun g => g.id = groupId then .error "The target group no longer exists."
  else if allNodes.any fun n => n.id ∈ nodeIds && (given n.parentId).isSome then
    .error "Steps inside a background can't be added to a group yet."
  else
    let stripped := removeNodesFromGroups
      (groups.map fun g => if g.id = groupId then g.without nodeIds else g) nodeIds (some groupId)
    .ok (stripped.map fun g =>
      if g.id = groupId then { g with nodeIds := g.nodeIds ++ nodeIds } else g)

def ungroupNode (groups : List CanvasGroup) (groupIdToRemove : String) : List CanvasGroup :=
  groups.filter fun group => group.id ≠ groupIdToRemove

/-- Where a node that is removed stood. -/
def removedPosition (c : Canvas) (nodeIds : List String) (id : String) : Point :=
  ((c.nodes.reverse.find? fun n => n.id = id && n.id ∈ nodeIds).map CanvasNode.position).getD
    ⟨.round 0, .round 0⟩

/-- The children of a background that is removed stay where they are. -/
def detachNode (c : Canvas) (nodeIds : List String) (n : CanvasNode) : CanvasNode :=
  match given n.parentId with
  | some parentId =>
    if parentId ∈ nodeIds ∧ n.id ∉ nodeIds then
      { n with
        parentId := none
        position := toAbsolutePosition n.position (removedPosition c nodeIds parentId) }
    else n
  | none => n

def detachGroup (c : Canvas) (nodeIds : List String) (group : CanvasGroup) : CanvasGroup :=
  match group.parentId with
  | some parentId =>
    if parentId ∈ nodeIds then
      { group with
        parentId := none
        position := toAbsolutePosition group.position (removedPosition c nodeIds parentId) }
    else group
  | none => group

def removeRealNodes (c : Canvas) (nodeIds : List String) : Canvas where
  nodes := (c.nodes.map (detachNode c nodeIds)).filter fun n => n.id ∉ nodeIds
  edges := c.edges.filter fun e => e.source ∉ nodeIds && e.target ∉ nodeIds
  groups := (c.groups.map fun group => (detachGroup c nodeIds group).without nodeIds).filter
    groupSurvivesMembership

def repairOrphanGroups (allNodes : List CanvasNode) (groups : List CanvasGroup) :
    List CanvasGroup :=
  (groups.map fun group => { group with
    nodeIds := group.nodeIds.filter fun id => allNodes.any fun n => n.id = id
    parentId := group.parentId.filter fun id => allNodes.any fun n => n.id = id }).filter
      groupSurvivesMembership

end Membership

end Manus.Editor
