import TptRfc.Lib.Exec
import TptRfc.Lib.ShortestPath
import TptRfc.Ospf.Lsa

/-!
# OSPF: the intra-area shortest-path-first calculation

`Spf::calculate`: hash maps for tentative distances and next hops, a set of settled nodes, and a
binary heap of candidates with lazy deletion.
-/

namespace TptRfc.Ospf

open Lib

inductive Node where
  | router (id : Ip4)
  | network (id : Ip4)
  deriving DecidableEq

def Node.lt : Node → Node → Bool
  | router a, router b => beNat a.bytes < beNat b.bytes
  | router _, network _ => true
  | network _, router _ => false
  | network a, network b => beNat a.bytes < beNat b.bytes

def Node.routerId? : Node → Option Ip4
  | router r => some r
  | network _ => none

structure Route where
  destination : Ip4
  nextHop : Ip4
  cost : UInt32

structure StubRoute where
  network : Ip4
  mask : Ip4
  nextHop : Ip4
  cost : UInt32

inductive OspfError where
  | spfRootMissing (root : Ip4)

structure RoutingTable where
  routerRoutes : AList fun _ : Ip4 => Route
  stubRoutes : List StubRoute
  treeOrder : List Ip4

namespace RoutingTable

def routeTo (t : RoutingTable) (router : Ip4) : Option Route := t.routerRoutes.lookup router

def nextHop (t : RoutingTable) (router : Ip4) : Option Ip4 := (t.routeTo router).map Route.nextHop

def costTo (t : RoutingTable) (router : Ip4) : Option UInt32 := (t.routeTo router).map Route.cost

end RoutingTable

structure Candidate where
  cost : UInt32
  kind : UInt8
  node : Node
  deriving DecidableEq

def Candidate.lt (a b : Candidate) : Bool :=
  b.cost < a.cost || (a.cost == b.cost &&
    (b.kind < a.kind || (a.kind == b.kind && a.node.lt b.node)))

def popMax : List Candidate → Option (Candidate × List Candidate)
  | [] => none
  | c :: cs =>
    let top := cs.foldl (fun m e => if m.lt e then e else m) c
    some (top, (c :: cs).erase top)

structure SpfState where
  dist : AList fun _ : Node => UInt32
  nextHop : AList fun _ : Node => Ip4
  inTree : Finset Node
  treeOrder : List Ip4
  stubRoutes : List StubRoute
  heap : List Candidate

def u32Max : UInt32 := 0xFFFFFFFF

namespace SpfState

def initial (root : Ip4) : SpfState where
  dist := AList.insert (Node.router root) 0 ∅
  nextHop := AList.insert (Node.router root) root ∅
  inTree := ∅
  treeOrder := []
  stubRoutes := []
  heap := [⟨0, 0, .router root⟩]

def offer (s : SpfState) (v : Node) (cost : UInt32) (kind : UInt8) (nh : Option Ip4) :
    Option SpfState :=
  if v ∉ s.inTree ∧ cost < (s.dist.lookup v).getD u32Max then
    nh.map fun nh =>
      { s with
        dist := s.dist.insert v cost
        nextHop := s.nextHop.insert v nh
        heap := ⟨cost, kind, v⟩ :: s.heap }
  else some s

def visitLink (root r : Ip4) (d : UInt32) (s : SpfState) (link : RouterLink) : Option SpfState :=
  let linkCost := d + link.metric.toUInt32
  if link.linkType = 1 then
    -- point-to-point: the neighbor is a router
    s.offer (.router link.linkId) linkCost 0
      (if r = root then some link.linkId else s.nextHop.lookup (.router r))
  else if link.linkType = 2 then
    -- transit: the link points to a broadcast network
    s.offer (.network link.linkId) linkCost 1 (s.nextHop.lookup (.router r))
  else if link.linkType = 3 then
    -- stub: a leaf network route
    (s.nextHop.lookup (.router r)).map fun nh =>
      { s with stubRoutes := s.stubRoutes ++ [⟨link.linkId, link.linkData, nh, linkCost⟩] }
  else some s

def visitAttached (n : Ip4) (d : UInt32) (s : SpfState) (ar : Ip4) : Option SpfState :=
  s.offer (.router ar) d 0 (s.nextHop.lookup (.network n))

end SpfState

structure Spf where
  root : Option Ip4
  routers : AList fun _ : Ip4 => RouterLsa
  networks : AList fun _ : Ip4 => NetworkLsa

namespace Spf

def new (root : Ip4) : Spf := ⟨some root, ∅, ∅⟩

def addRouterLsa (spf : Spf) (lsa : RouterLsa) : Spf :=
  { spf with routers := spf.routers.insert lsa.header.advertisingRouter lsa }

def addNetworkLsa (spf : Spf) (lsa : NetworkLsa) : Spf :=
  { spf with networks := spf.networks.insert lsa.header.linkStateId lsa }

def visit (spf : Spf) (root : Ip4) (d : UInt32) (node : Node) (s : SpfState) : Option SpfState :=
  match node with
  | .router r =>
    let s := { s with inTree := insert node s.inTree, treeOrder := s.treeOrder ++ [r] }
    match spf.routers.lookup r with
    | none => some s
    | some rl => rl.links.foldlM (SpfState.visitLink root r d) s
  | .network n =>
    let s := { s with inTree := insert node s.inTree }
    match spf.networks.lookup n with
    | none => some s
    | some nl => nl.attachedRouters.foldlM (SpfState.visitAttached n d) s

def loop (spf : Spf) (root : Ip4) : ℕ → SpfState → Option SpfState
  | 0, s => some s
  | fuel + 1, s =>
    match popMax s.heap with
    | none => some s
    | some (c, heap) =>
      if c.node ∈ s.inTree then loop spf root fuel { s with heap := heap }
      else do
        let s ← spf.visit root c.cost c.node { s with heap := heap }
        loop spf root fuel s

/-! ## The graph -/

def linkEdge (link : RouterLink) : Option (Node × ℕ) :=
  if link.linkType = 1 then some (.router link.linkId, link.metric.toNat)
  else if link.linkType = 2 then some (.network link.linkId, link.metric.toNat)
  else none

def edges (spf : Spf) : Node → List (Node × ℕ)
  | .router r =>
    match spf.routers.lookup r with
    | none => []
    | some rl => rl.links.filterMap linkEdge
  | .network n =>
    match spf.networks.lookup n with
    | none => []
    | some nl => nl.attachedRouters.map fun ar => (.router ar, 0)

def nodes (spf : Spf) : List Node :=
  spf.routers.keys.map Node.router ++ spf.networks.keys.map Node.network

def edgeCount (spf : Spf) : ℕ := (spf.nodes.map fun x => (spf.edges x).length).sum

/-! ## The result -/

def addRoute (s : SpfState) (routes : AList fun _ : Ip4 => Route)
    (entry : Sigma fun _ : Node => Ip4) : AList fun _ : Ip4 => Route :=
  match entry.1 with
  | .router r => routes.insert r ⟨r, entry.2, (s.dist.lookup (.router r)).getD 0⟩
  | .network _ => routes

def routerRoutes (s : SpfState) : AList fun _ : Ip4 => Route :=
  s.nextHop.entries.foldl (addRoute s) ∅

def calculate (spf : Spf) : Except (Fault OspfError) RoutingTable :=
  match spf.root with
  | none => .error (.error (.spfRootMissing ⟨0, 0, 0, 0⟩))
  | some root =>
    if root ∉ spf.routers then .error (.error (.spfRootMissing root))
    else
      match spf.loop root (1 + spf.edgeCount) (SpfState.initial root) with
      | none => .error .panic
      | some s => .ok ⟨routerRoutes s, s.stubRoutes, s.treeOrder⟩

end Spf

end TptRfc.Ospf
