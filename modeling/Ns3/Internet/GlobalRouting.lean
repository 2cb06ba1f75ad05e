import Ns3.Lib.Walk
import Ns3.Internet.GlobalRouteLinks
import Mathlib.Data.List.Sort
import Mathlib.Data.List.Destutter

/-!
# The shortest path calculation of global routing

The link-state database, the vertices, the candidate queue and the routes that `SPFCalculate` installs in the router at
the root (`internet/model/global-route-manager-impl.cc`, `candidate-queue.cc`, `ipv4-global-routing.cc`), with the
shortcut of `CheckForStubNode`.

A vertex is known by its id: there is one at most for each LSA in the tree and among the candidates. An interface is the
32 bits of an `int32_t`. Nothing comes out (`none`) where an assertion fails or a null pointer is followed, and where a
loop has not ended after the given number of rounds.
-/

namespace Ns3

/-- What a link record describes. -/
inductive LinkType where
  | unknown
  | pointToPoint
  | transitNetwork
  | stubNetwork
  | virtualLink
  deriving DecidableEq

/-- `GlobalRoutingLinkRecord`, with its type and its metric. -/
structure TypedLinkRecord extends GlobalRoutingLinkRecord where
  linkType : LinkType
  metric : UInt16

/-- `GlobalRoutingLSA::LSType`, those of which there are LSAs. -/
inductive LSType where
  | routerLSA
  | networkLSA
  | asExternalLSAs
  deriving DecidableEq

/-- `GlobalRoutingLSA`. Its status belongs to a calculation. -/
structure GlobalRoutingLSA where
  lsType : LSType
  linkStateId : Ipv4Address
  /-- `m_advertisingRtr`. -/
  advertisingRouter : Ipv4Address
  linkRecords : List TypedLinkRecord
  /-- `m_networkLSANetworkMask`. -/
  networkMask : BitVec 32
  attachedRouters : List Ipv4Address

namespace GlobalRoutingLSA

/-- The link records that a loop up to `GetNLinkRecords` comes to. -/
def links (lsa : GlobalRoutingLSA) : List TypedLinkRecord :=
  lsa.linkRecords.take (lsa.linkRecords.length % 2 ^ 32)

end GlobalRoutingLSA

/-- `GlobalRouteManagerLSDB`: `m_database` is in the order of its keys, and each LSA is under its link state id. -/
structure GlobalRouteManagerLSDB where
  database : List GlobalRoutingLSA
  extdatabase : List GlobalRoutingLSA
  ordered : database.Pairwise fun a b => a.linkStateId.address < b.linkStateId.address
  /-- `Insert` keeps the AS-external LSAs apart. -/
  separate : ∀ lsa ∈ database, lsa.lsType ≠ .asExternalLSAs

namespace GlobalRouteManagerLSDB

/-- The advertisement with the link state identifier. -/
def getLSA (db : GlobalRouteManagerLSDB) (addr : Ipv4Address) : Option GlobalRoutingLSA :=
  db.database.find? fun lsa => lsa.linkStateId = addr

/-- The advertisement with a transit network of the address. -/
def getLSAByLinkData (db : GlobalRouteManagerLSDB) (addr : Ipv4Address) : Option GlobalRoutingLSA :=
  db.database.find? fun lsa => lsa.links.any fun l => l.linkType = .transitNetwork ∧ l.linkData = addr

end GlobalRouteManagerLSDB

/-- A route to a host or network. -/
structure Ipv4RoutingTableEntry where
  dest : Ipv4Address
  destNetworkMask : BitVec 32
  gateway : Ipv4Address
  interface : UInt32
  deriving DecidableEq

/-- The routes that the computation installs. -/
structure Ipv4GlobalRouting where
  hostRoutes : List Ipv4RoutingTableEntry
  networkRoutes : List Ipv4RoutingTableEntry
  asExternalRoutes : List Ipv4RoutingTableEntry
  deriving DecidableEq

namespace Ipv4GlobalRouting

/-- No routes. -/
def empty : Ipv4GlobalRouting := ⟨[], [], []⟩

variable (t : Ipv4GlobalRouting)

/-- All routes. -/
def routes : List Ipv4RoutingTableEntry := t.hostRoutes ++ t.networkRoutes ++ t.asExternalRoutes

/-- `AddHostRouteTo`, for several routes. -/
def addHostRoutes (l : List Ipv4RoutingTableEntry) : Ipv4GlobalRouting :=
  { t with hostRoutes := t.hostRoutes ++ l }

/-- `AddNetworkRouteTo`, for several routes. -/
def addNetworkRoutes (l : List Ipv4RoutingTableEntry) : Ipv4GlobalRouting :=
  { t with networkRoutes := t.networkRoutes ++ l }

/-- `AddASExternalRouteTo`, for several routes. -/
def addASExternalRoutes (l : List Ipv4RoutingTableEntry) : Ipv4GlobalRouting :=
  { t with asExternalRoutes := t.asExternalRoutes ++ l }

/-- `mask.IsMatch (dest, entry)`, and the route leaves by an interface that is asked for. -/
def isMatch (out : UInt32 → Bool) (dest : Ipv4Address) (r : Ipv4RoutingTableEntry) : Bool :=
  dest.combineMask r.destNetworkMask = r.dest.combineMask r.destNetworkMask ∧ out r.interface

/-- `allRoutes` of `LookupGlobal`, one of which is chosen: the first one, or any one with random ECMP routing. `out` are
the interfaces of the device `oif`, or all. -/
def lookupGlobal (out : UInt32 → Bool) (dest : Ipv4Address) : List Ipv4RoutingTableEntry :=
  match t.hostRoutes.filter fun r => r.dest = dest ∧ out r.interface with
  | [] =>
    match t.networkRoutes.filter (isMatch out dest) with
    | [] => (t.asExternalRoutes.find? (isMatch out dest)).toList
    | routes => routes
  | routes => routes

end Ipv4GlobalRouting

namespace GlobalRouteManagerImpl

/-- How far the search has come with an advertisement. -/
inductive SPFStatus where
  | notExplored
  | candidate
  | inSPFTree

/-- `SPFVertex`, in a calculation. The children are in the state of the calculation. -/
structure Vertex where
  lsa : GlobalRoutingLSA
  distanceFromRoot : UInt32
  parents : List Ipv4Address
  ecmpRootExits : List (Ipv4Address × UInt32)

namespace Vertex

/-- `SPFVertex (lsa)`. -/
def new (lsa : GlobalRoutingLSA) : Vertex := ⟨lsa, 0xffffffff, [], []⟩

/-- The identifier of its advertisement. -/
def vertexId (v : Vertex) : Ipv4Address := v.lsa.linkStateId

/-- The vertex is a `VertexRouter`. -/
def IsRouter (v : Vertex) : Prop := v.lsa.lsType = .routerLSA
deriving Decidable

/-- The vertex as the search for links takes it. -/
def toSPFVertex (v : Vertex) : SPFVertex :=
  ⟨v.vertexId, v.lsa.linkRecords.map TypedLinkRecord.toGlobalRoutingLinkRecord, v.ecmpRootExits⟩

/-- `GetRootExitDirection ()`. -/
def getRootExitDirection (v : Vertex) : Option (Ipv4Address × UInt32) :=
  if v.ecmpRootExits.length ≤ 1 then v.ecmpRootExits.head? else none

/-- The order of `NodeExit_t`. -/
def exitLE (a b : Ipv4Address × UInt32) : Bool :=
  a.1.address < b.1.address ∨ a.1 = b.1 ∧ a.2.toInt32 ≤ b.2.toInt32

/-- `sort ()` and `unique ()`. -/
def sortUnique {α : Type} [DecidableEq α] (le : α → α → Bool) (l : List α) : List α :=
  (l.insertionSort fun a b => le a b).destutter (· ≠ ·)

/-- `MergeRootExitDirections` and `MergeParent`. The parents are in the order of their addresses in memory. -/
def merge (pointer : Ipv4Address → ℕ) (cw w : Vertex) : Vertex :=
  { cw with
    ecmpRootExits := sortUnique exitLE (cw.ecmpRootExits ++ w.ecmpRootExits)
    parents := sortUnique (fun a b => pointer a ≤ pointer b) (cw.parents ++ w.parents) }

/-- The vertex is reached from `v`, at a distance and with the exits from the root. -/
def reached (w : Vertex) (exits : List (Ipv4Address × UInt32)) (distance : UInt32) (v : Vertex) : Vertex :=
  { w with ecmpRootExits := exits, distanceFromRoot := distance, parents := [v.vertexId] }

end Vertex

namespace CandidateQueue

/-- The nearer vertex first, then networks before routers. -/
def compareSPFVertex (v1 v2 : Vertex) : Bool :=
  v1.distanceFromRoot < v2.distanceFromRoot ∨
    v1.distanceFromRoot = v2.distanceFromRoot ∧ ¬ v1.IsRouter ∧ v2.IsRouter

/-- `Push`: before the first vertex that comes behind the new one. -/
def push (vNew : Vertex) (l : List Vertex) : List Vertex :=
  l.orderedInsert (fun a b => compareSPFVertex a b) vNew

/-- The vertex with the identifier. -/
def find (addr : Ipv4Address) (l : List Vertex) : Option Vertex := l.find? fun v => v.vertexId = addr

/-- The candidates in order. -/
def reorder (l : List Vertex) : List Vertex := l.insertionSort fun a b => compareSPFVertex b a = false

/-- A candidate changes in its place. -/
def replace (cw : Vertex) (l : List Vertex) : List Vertex :=
  l.map fun v => if v.vertexId = cw.vertexId then cw else v

end CandidateQueue

/-- A calculation, with what it has installed. -/
structure Calculation where
  /-- `m_status` of the LSAs. -/
  status : Ipv4Address → SPFStatus
  candidates : List Vertex
  /-- The vertices of the shortest-path tree, in the order in which they come into it. -/
  tree : List Vertex
  /-- `m_children` of the vertices. -/
  children : Ipv4Address → List Ipv4Address
  /-- The routing table of the router at the root. -/
  table : Ipv4GlobalRouting

/-- The addresses of the interfaces of the router at the root, of which a calculation reads the local ones. -/
abbrev Interfaces := List (List Ipv4InterfaceAddress)

/-- `GetInterfaceForPrefix`, from interface `i` on. -/
def getInterfaceForPrefix (a : Ipv4Address) (mask : BitVec 32) : UInt32 → Interfaces → UInt32
  | _, [] => 0xffffffff
  | i, addresses :: rest =>
    if addresses.any fun x => x.localAddress.combineMask mask = a.combineMask mask then i
    else getInterfaceForPrefix a mask (i + 1) rest

/-- The interface with an address of the network. -/
def findOutgoingInterfaceId (interfaces : Interfaces) (a : Ipv4Address) (amask : BitVec 32) : UInt32 :=
  getInterfaceForPrefix a amask 0 interfaces

/-- The routes for the exits of a vertex whose outgoing interface is not negative. -/
def exitRoutes (v : Vertex) (dest : Ipv4Address) (mask : BitVec 32) : List Ipv4RoutingTableEntry :=
  (v.ecmpRootExits.filter fun exit => 0 ≤ exit.2.toInt32).map fun exit => ⟨dest, mask, exit.1, exit.2⟩

/-- `SPFIntraAddRouter`: a host route for each point-to-point link. -/
def spfIntraAddRouter (v : Vertex) (t : Ipv4GlobalRouting) : Ipv4GlobalRouting :=
  t.addHostRoutes <| (v.lsa.links.filter fun lr => lr.linkType = .pointToPoint).flatMap fun lr =>
    exitRoutes v lr.linkData 0xffffffff

/-- Routes to the network of the vertex, by its exits. -/
def spfIntraAddTransit (v : Vertex) (t : Ipv4GlobalRouting) : Ipv4GlobalRouting :=
  t.addNetworkRoutes (exitRoutes v (v.vertexId.combineMask v.lsa.networkMask) v.lsa.networkMask)

/-- `SPFIntraAddStub`, with the id of `m_spfroot`. -/
def spfIntraAddStub (root : Ipv4Address) (l : TypedLinkRecord) (v : Vertex) (t : Ipv4GlobalRouting) :
    Ipv4GlobalRouting :=
  if v.vertexId = root then t
  else t.addNetworkRoutes (exitRoutes v (l.linkId.combineMask l.linkData.address) l.linkData.address)

/-- Routes to an external network, by the exits of its router. -/
def spfAddASExternal (root : Ipv4Address) (extlsa : GlobalRoutingLSA) (v : Vertex) (t : Ipv4GlobalRouting) :
    Ipv4GlobalRouting :=
  if v.vertexId = root then t
  else t.addASExternalRoutes (exitRoutes v (extlsa.linkStateId.combineMask extlsa.networkMask) extlsa.networkMask)

/-- What `SPFProcessStubs` does at a vertex. -/
def processStubs (root : Ipv4Address) (v : Vertex) (t : Ipv4GlobalRouting) : Ipv4GlobalRouting :=
  if v.IsRouter then
    (v.lsa.links.filter fun l => l.linkType = .stubNetwork).foldl (fun t l => spfIntraAddStub root l v t) t
  else t

/-- What `ProcessASExternals` does at a vertex. -/
def processASExternal (root : Ipv4Address) (extlsa : GlobalRoutingLSA) (v : Vertex) (t : Ipv4GlobalRouting) :
    Ipv4GlobalRouting :=
  if v.IsRouter ∧ v.vertexId = extlsa.advertisingRouter then spfAddASExternal root extlsa v t else t

section

variable (db : GlobalRouteManagerLSDB) (interfaces : Interfaces) (pointer : Ipv4Address → ℕ) (rounds : ℕ)
  (root : Ipv4Address)

/-- `SPFNexthopCalculation`: what becomes of `w`. `l` is null for a network. -/
def spfNexthopCalculation (v w : Vertex) (l : Option TypedLinkRecord) (distance : UInt32) : Option Vertex :=
  if v.vertexId = root then
    if w.IsRouter then do
      let l ← l
      let linkRemote ← spfGetNextLink w.toSPFVertex v.toSPFVertex none
      let outIf := findOutgoingInterfaceId interfaces l.linkData 0xffffffff
      some (w.reached [(linkRemote.1.linkData, outIf)] distance v)
    else
      let outIf := findOutgoingInterfaceId interfaces w.vertexId w.lsa.networkMask
      some (w.reached [(.any, outIf)] distance v)
  else if ¬ v.IsRouter then
    if v.parents.head? = some root then
      if ¬ w.IsRouter then none
      else
        match spfGetNextLink w.toSPFVertex v.toSPFVertex none with
        | none => some (w.reached w.ecmpRootExits distance v)
        | some _ => do
          let exit ← v.getRootExitDirection
          let w' ← nexthopLoop v.toSPFVertex exit.2 rounds none w.toSPFVertex
          some (w.reached w'.ecmpRootExits distance v)
    else do
      let exit ← v.getRootExitDirection
      some (w.reached [exit] distance v)
  else some (w.reached v.ecmpRootExits distance v)

variable (v : Vertex)

/-- A round of the loop of `SPFNext`, behind the look up of `w_lsa`. -/
def spfExamine (l : Option TypedLinkRecord) (wLsa : GlobalRoutingLSA) (distance : UInt32)
    (s : Calculation) : Option Calculation :=
  match s.status wLsa.linkStateId with
  | .inSPFTree => some s
  | .notExplored => do
    let w ← spfNexthopCalculation interfaces rounds root v (.new wLsa) l distance
    some { s with
      status := Function.update s.status wLsa.linkStateId .candidate
      candidates := CandidateQueue.push w s.candidates }
  | .candidate => do
    let cw ← CandidateQueue.find wLsa.linkStateId s.candidates
    if cw.distanceFromRoot < distance then some s
    else if cw.distanceFromRoot = distance then do
      let w ← spfNexthopCalculation interfaces rounds root v (.new wLsa) l distance
      some { s with candidates := CandidateQueue.replace (cw.merge pointer w) s.candidates }
    else do
      let cw ← spfNexthopCalculation interfaces rounds root v cw l distance
      some { s with candidates := CandidateQueue.reorder (CandidateQueue.replace cw s.candidates) }

/-- A round of the loop of `SPFNext` over the link records of a router. -/
def spfNextLink (s : Calculation) (l : TypedLinkRecord) : Option Calculation :=
  match l.linkType with
  | .stubNetwork => some s
  | .pointToPoint | .transitNetwork => do
    let wLsa ← db.getLSA l.linkId
    spfExamine interfaces pointer rounds root v (some l) wLsa (v.distanceFromRoot + l.metric.toUInt32) s
  | _ => none

/-- A round of the loop of `SPFNext` over the attached routers of a network. -/
def spfNextRouter (s : Calculation) (addr : Ipv4Address) : Option Calculation :=
  match db.getLSAByLinkData addr with
  | none => some s
  | some wLsa => spfExamine interfaces pointer rounds root v none wLsa v.distanceFromRoot s

/-- The neighbours of a vertex become candidates. -/
def spfNext (s : Calculation) : Option Calculation :=
  if v.IsRouter then v.lsa.links.foldlM (spfNextLink db interfaces pointer rounds root v) s
  else v.lsa.attachedRouters.foldlM (spfNextRouter db interfaces pointer rounds root v) s

/-- The first candidate comes into the tree: `SPFVertexAddParent`, and `SPFIntraAddRouter` or `SPFIntraAddTransit`. -/
def pop (rest : List Vertex) (s : Calculation) : Calculation where
  status := Function.update s.status v.vertexId .inSPFTree
  candidates := rest
  tree := s.tree ++ [v]
  children := v.parents.foldl (fun c p => Function.update c p (c p ++ [v.vertexId])) s.children
  table := if v.IsRouter then spfIntraAddRouter v s.table else spfIntraAddTransit v s.table

@[simp] theorem status_pop (rest : List Vertex) (s : Calculation) :
    (pop v rest s).status = Function.update s.status v.vertexId .inSPFTree := rfl

@[simp] theorem tree_pop (rest : List Vertex) (s : Calculation) : (pop v rest s).tree = s.tree ++ [v] := rfl

@[simp] theorem candidates_pop (rest : List Vertex) (s : Calculation) : (pop v rest s).candidates = rest := rfl

/-- The loop of `SPFCalculate`, for a number of rounds. -/
def spfLoop : ℕ → Vertex → Calculation → Option Calculation
  | 0, _, _ => none
  | n + 1, v, s => do
    let s ← spfNext db interfaces pointer rounds root v s
    match s.candidates with
    | [] => some s
    | v :: rest => spfLoop n v (pop v rest s)

/-- The walks of `SPFProcessStubs` and of `ProcessASExternals` from the root, with `m_vertexProcessed` as marks. Before
each one nothing is marked. -/
def processTree (s : Calculation) (process : Vertex → Ipv4GlobalRouting → Ipv4GlobalRouting) (t : Ipv4GlobalRouting) :
    Option Ipv4GlobalRouting :=
  (Lib.markedWalk (fun id t => (CandidateQueue.find id s.tree).map fun v => process v t) s.children rounds root
    (t, fun _ => false)).map Prod.fst

/-- The vertex of the root. -/
def spfroot (rlsa : GlobalRoutingLSA) : Vertex := { Vertex.new rlsa with distanceFromRoot := 0 }

/-- The root in the tree, and nothing else. -/
def start (rlsa : GlobalRoutingLSA) : Calculation where
  status := Function.update (fun _ => .notExplored) rlsa.linkStateId .inSPFTree
  candidates := []
  tree := [spfroot rlsa]
  children := fun _ => []
  table := .empty

/-- `SPFCalculate` behind the shortcut: the routing table of the root, for a number of rounds of each loop. -/
def spfCalculateAll : Option Ipv4GlobalRouting := do
  let rlsa ← db.getLSA root
  let s ← spfLoop db interfaces pointer rounds root rounds (spfroot rlsa) (start rlsa)
  let t ← processTree rounds root s (processStubs root) s.table
  db.extdatabase.foldlM (fun t extlsa => processTree rounds root s (processASExternal root extlsa) t) t

/-- The links of type 1 or 2. -/
def transitLinks (lsa : GlobalRoutingLSA) : List TypedLinkRecord :=
  lsa.links.filter fun l => l.linkType = .transitNetwork ∨ l.linkType = .pointToPoint

/-- `CheckForStubNode`: what it returns, and the default route if it installs one. -/
def checkForStubNode : Option (Bool × Option Ipv4RoutingTableEntry) := do
  let rlsa ← db.getLSA root
  match transitLinks rlsa with
  | [] => some (true, none)
  | [transitLink] =>
    if transitLink.linkType = .transitNetwork then some (false, none)
    else do
      let wLsa ← db.getLSA transitLink.linkId
      match wLsa.links.find? fun lr => lr.linkType = .pointToPoint ∧ lr.linkId = rlsa.linkStateId with
      | none => some (false, none)
      | some lr =>
        some (true, some ⟨.any, 0, lr.linkData, findOutgoingInterfaceId interfaces transitLink.linkData 0xffffffff⟩)
  | _ => some (false, none)

/-- `SPFCalculate`: the routing table of the root. -/
def spfCalculate : Option Ipv4GlobalRouting := do
  let stub ← checkForStubNode db interfaces root
  if stub.1 then some (Ipv4GlobalRouting.empty.addNetworkRoutes stub.2.toList)
  else spfCalculateAll db interfaces pointer rounds root

end

end GlobalRouteManagerImpl

end Ns3
