import TptRfc.Ospf.Spf

/-!
# OSPF: the calculation finds shortest paths

`Refines` relates the variables of `calculate` to a search of `Lib.ShortestPath`: distances and next
hops are read off the labels, the heap is the queue.
-/

namespace TptRfc.Ospf

open Lib List

/-! ## The heap -/

theorem Candidate.cost_le_of_lt {a b : Candidate} (h : a.lt b = true) : b.cost ≤ a.cost := by
  simp only [Candidate.lt, Bool.or_eq_true, decide_eq_true_eq, Bool.and_eq_true, beq_iff_eq] at h
  rcases h with h | ⟨h, -⟩
  · exact UInt32.le_of_lt h
  · exact h ▸ UInt32.le_refl _

theorem Candidate.cost_le_of_not_lt {a b : Candidate} (h : a.lt b = false) : a.cost ≤ b.cost := by
  simp only [Candidate.lt, Bool.or_eq_false_iff, decide_eq_false_iff_not] at h
  exact UInt32.not_lt.mp h.1

theorem foldl_max_spec (cs : List Candidate) :
    ∀ c, let top := cs.foldl (fun m e => if m.lt e then e else m) c
      top ∈ c :: cs ∧ ∀ e ∈ c :: cs, top.cost ≤ e.cost := by
  induction cs with
  | nil =>
    intro c
    refine ⟨mem_cons_self, ?_⟩
    intro e he
    rw [mem_singleton.mp he]
    exact UInt32.le_refl _
  | cons e cs ih =>
    intro c
    simp only [foldl_cons]
    obtain ⟨hmem, hle⟩ := ih (if c.lt e then e else c)
    cases hlt : c.lt e with
    | true =>
      rw [hlt] at hmem hle
      refine ⟨mem_cons_of_mem _ hmem, ?_⟩
      intro e' he'
      rcases mem_cons.mp he' with rfl | he'
      · exact UInt32.le_trans (hle e mem_cons_self) (Candidate.cost_le_of_lt hlt)
      · exact hle e' he'
    | false =>
      rw [hlt] at hmem hle
      refine ⟨?_, ?_⟩
      · rcases mem_cons.mp hmem with h | h
        · rw [h]
          exact mem_cons_self
        · exact mem_cons_of_mem _ (mem_cons_of_mem _ h)
      · intro e' he'
        rcases mem_cons.mp he' with rfl | he'
        · exact hle _ mem_cons_self
        · rcases mem_cons.mp he' with rfl | he'
          · exact UInt32.le_trans (hle _ mem_cons_self)
              (Candidate.cost_le_of_not_lt hlt)
          · exact hle e' (mem_cons_of_mem _ he')

variable {heap : List Candidate} {l : Label Node} {u v : Node} {spf : Spf}

theorem popMax_spec {rest : List Candidate} {c : Candidate} (h : popMax heap = some (c, rest)) :
    heap.Perm (c :: rest) ∧ ∀ e ∈ rest, c.cost ≤ e.cost := by
  cases heap with
  | nil => cases h
  | cons c₀ cs =>
    obtain ⟨hmem, hle⟩ := foldl_max_spec cs c₀
    simp only [popMax, Option.some.injEq, Prod.mk.injEq] at h
    obtain ⟨rfl, rfl⟩ := h
    exact ⟨perm_cons_erase hmem, fun e he => hle e (mem_of_mem_erase he)⟩

/-! ## Next hops are read off paths -/

def Node.hop (root : Ip4) : Node → Ip4
  | router r => r
  | network _ => root

def firstHop (root : Ip4) : List Node → Ip4
  | _ :: v :: _ => v.hop root
  | _ => root

theorem firstHop_append {root : Ip4} {p q : List Node} (h : 2 ≤ p.length) :
    firstHop root (p ++ q) = firstHop root p := by
  match p, h with
  | _ :: _ :: _, _ => rfl

theorem two_le_length_path {edges : Node → List (Node × ℕ)} {root : Node}
    {a : Search Node} (h : Search.Inv edges root u [] a)
    (hl : a.label v = some l) (hv : v ≠ root) : 2 ≤ l.path.length := by
  rcases h.extends_settled v l hl with hroot | ⟨x, -, lx, w, hlx, -, rfl⟩
  · exact absurd hroot hv
  · have := length_pos_iff.mpr (h.path _ x lx rfl hlx).ne_nil
    simp only [length_append, length_singleton]
    omega

/-! ## The refinement -/

structure Refines (root : Ip4) (s : SpfState) (a : Search Node) : Prop where
  dist : ∀ v, s.dist.lookup v = (a.label v).map fun l => UInt32.ofNat l.cost
  small : ∀ v l, a.label v = some l → l.cost < 2 ^ 32 - 1
  nextHop : ∀ v, s.nextHop.lookup v = (a.label v).map fun l => firstHop root l.path
  inTree : ∀ v, v ∈ s.inTree ↔ v ∈ a.settled
  treeOrder : s.treeOrder = a.settled.filterMap Node.routerId?
  heap : s.heap.map (fun c => (c.cost.toNat, c.node)) = a.queue

variable {root : Ip4} {s : SpfState} {a : Search Node}

theorem refines_initial (root : Ip4) :
    Refines root (SpfState.initial root) (Search.start (.router root)) := by
  constructor
  case dist | nextHop =>
    intro v
    simp only [SpfState.initial]
    by_cases hv : v = .router root
    · subst hv
      rw [AList.lookup_insert, Search.label_start_self]
      rfl
    · rw [AList.lookup_insert_ne hv, Search.label_start_of_ne hv]
      rfl
  case small =>
    intro v l hl
    rw [(Search.of_label_start hl).2]
    norm_num
  case inTree => simp [SpfState.initial, Search.start]
  case treeOrder | heap => rfl

theorem Refines.improves_iff (h : Refines root s a) (l : Label Node) (v : Node) (w : ℕ)
    (hsmall : l.cost + w < 2 ^ 32 - 1) :
    (v ∉ s.inTree ∧ UInt32.ofNat (l.cost + w) < (s.dist.lookup v).getD u32Max) ↔
      a.Improves l (v, w) := by
  have hcost : (UInt32.ofNat (l.cost + w)).toNat = l.cost + w := by
    rw [UInt32.toNat_ofNat', Nat.mod_eq_of_lt (by omega)]
  rw [h.inTree, h.dist, Search.Improves]
  refine and_congr_right fun _ => ?_
  cases hl : a.label v with
  | none =>
    simp only [Option.map_none, Option.getD_none, reduceCtorEq, false_implies, implies_true,
      iff_true]
    rw [UInt32.lt_iff_toNat_lt, hcost]
    exact hsmall
  | some lv =>
    have hlv := h.small v lv hl
    have hlv' : (UInt32.ofNat lv.cost).toNat = lv.cost := by
      rw [UInt32.toNat_ofNat', Nat.mod_eq_of_lt (by omega)]
    simp only [Option.map_some, Option.getD_some, Option.some.injEq]
    rw [UInt32.lt_iff_toNat_lt, hcost, hlv']
    constructor
    · rintro hlt l' rfl
      exact hlt
    · intro hlt
      exact hlt lv rfl

theorem Refines.offer (h : Refines root s a) {w : ℕ} (kind : UInt8) {nh : Option Ip4}
    (hsmall : l.cost + w < 2 ^ 32 - 1) (hnh : nh = some (firstHop root (l.path ++ [v]))) :
    ∃ s', s.offer v (UInt32.ofNat (l.cost + w)) kind nh = some s' ∧
      Refines root s' (a.relax l (v, w)) := by
  have hiff := h.improves_iff l v w hsmall
  subst hnh
  by_cases hi : a.Improves l (v, w)
  · rw [SpfState.offer, if_pos (hiff.mpr hi), Search.relax, if_pos hi]
    refine ⟨_, rfl, ?_⟩
    have hlabel : ∀ x, x ≠ v → (a.take l (v, w)).label x = a.label x :=
      fun x hx => Search.label_take_of_ne hx
    have hself : (a.take l (v, w)).label v = some ⟨l.cost + w, l.path ++ [v]⟩ :=
      Search.label_take_self (e := (v, w))
    constructor
    · intro x
      by_cases hx : x = v
      · subst hx
        rw [AList.lookup_insert, hself, Option.map_some]
      · rw [AList.lookup_insert_ne hx, hlabel x hx, h.dist]
    · intro x lx hlx
      by_cases hx : x = v
      · subst hx
        rw [hself] at hlx
        cases hlx
        exact hsmall
      · rw [hlabel x hx] at hlx
        exact h.small x lx hlx
    · intro x
      by_cases hx : x = v
      · subst hx
        rw [AList.lookup_insert, hself, Option.map_some]
      · rw [AList.lookup_insert_ne hx, hlabel x hx, h.nextHop]
    · exact h.inTree
    · exact h.treeOrder
    · simp only [Search.take, map_cons, h.heap]
      rw [UInt32.toNat_ofNat', Nat.mod_eq_of_lt (by omega)]
  · rw [SpfState.offer, if_neg (fun hc => hi (hiff.mp hc)), Search.relax, if_neg hi]
    exact ⟨s, rfl, h⟩

/-! ## Visiting a node -/

def PathOf (root : Ip4) (u : Node) (l : Label Node) : Prop :=
  (u = .router root ∧ l.path = [.router root]) ∨ (u ≠ .router root ∧ 2 ≤ l.path.length)

theorem pathOf_of_inv {edges : Node → List (Node × ℕ)}
    (h : Search.Inv edges (.router root) u [] a) (hl : a.label v = some l) : PathOf root v l := by
  by_cases hv : v = .router root
  · subst hv
    rw [h.root_label] at hl
    cases hl
    exact Or.inl ⟨rfl, rfl⟩
  · exact Or.inr ⟨hv, two_le_length_path h hl hv⟩

theorem PathOf.firstHop_eq (h : PathOf root u l) (hv : u ≠ .router root ∨ ∃ n, v = .network n) :
    firstHop root (l.path ++ [v]) = firstHop root l.path := by
  rcases h with ⟨hu, hpath⟩ | ⟨-, hlen⟩
  · rcases hv with hne | ⟨n, rfl⟩
    · exact absurd hu hne
    · rw [hpath]
      rfl
  · exact firstHop_append hlen

theorem Refines.lookup_nextHop (h : Refines root s a)
    (hu : Search.Visiting u l a) : s.nextHop.lookup u = some (firstHop root l.path) := by
  rw [h.nextHop, hu.label, Option.map_some]

theorem ofNat_add_metric (n : ℕ) (m : UInt16) :
    UInt32.ofNat n + m.toUInt32 = UInt32.ofNat (n + m.toNat) := by
  rw [UInt32.ofNat_add]
  congr 1
  apply UInt32.toNat_inj.mp
  have := m.toNat_lt
  rw [UInt16.toNat_toUInt32, UInt32.toNat_ofNat', Nat.mod_eq_of_lt (by omega)]

theorem Refines.visitLink (h : Refines root s a) {r : Ip4}
    (hu : Search.Visiting (.router r) l a) (hpath : PathOf root (.router r) l)
    (link : RouterLink) (hsmall : l.cost + link.metric.toNat < 2 ^ 32 - 1) :
    ∃ s', s.visitLink root r (UInt32.ofNat l.cost) link = some s' ∧
      Refines root s' ((Spf.linkEdge link).elim a (a.relax l)) := by
  have hhop := h.lookup_nextHop hu
  simp only [SpfState.visitLink, Spf.linkEdge, ofNat_add_metric]
  split_ifs with h1 hr h2 h3
  · -- a point-to-point link of the root itself
    refine h.offer _ hsmall ?_
    rcases hpath with ⟨-, hp⟩ | ⟨hne, -⟩
    · rw [hp]
      rfl
    · exact absurd (congrArg Node.router hr) hne
  · refine h.offer _ hsmall ?_
    rw [hhop, hpath.firstHop_eq (Or.inl fun heq => hr (Node.router.inj heq))]
  · refine h.offer _ hsmall ?_
    rw [hhop, hpath.firstHop_eq (Or.inr ⟨_, rfl⟩)]
  · rw [hhop]
    exact ⟨_, rfl, ⟨h.dist, h.small, h.nextHop, h.inTree, h.treeOrder, h.heap⟩⟩
  · exact ⟨s, rfl, h⟩

theorem Refines.visitLinks {r : Ip4} (hpath : PathOf root (.router r) l) :
    ∀ (links : List RouterLink) {s : SpfState} {a : Search Node}, Refines root s a →
      Search.Visiting (.router r) l a →
      (∀ link ∈ links, l.cost + link.metric.toNat < 2 ^ 32 - 1) →
      ∃ s', links.foldlM (SpfState.visitLink root r (UInt32.ofNat l.cost)) s = some s' ∧
        Refines root s' (a.expand l (links.filterMap Spf.linkEdge)) := by
  intro links
  induction links with
  | nil => intro s a h _ _; exact ⟨s, rfl, h⟩
  | cons link links ih =>
    intro s a h hu hsmall
    obtain ⟨s₁, hs₁, h₁⟩ := h.visitLink hu hpath link (hsmall link mem_cons_self)
    have hu₁ : Search.Visiting (.router r) l ((Spf.linkEdge link).elim a (a.relax l)) := by
      cases Spf.linkEdge link with
      | none => exact hu
      | some e => exact hu.relax
    obtain ⟨s₂, hs₂, h₂⟩ := ih h₁ hu₁ fun k hk => hsmall k (mem_cons_of_mem _ hk)
    refine ⟨s₂, ?_, ?_⟩
    · rw [foldlM_cons, hs₁]
      exact hs₂
    · cases hedge : Spf.linkEdge link with
      | none =>
        rw [hedge] at h₂
        rwa [filterMap_cons_none hedge]
      | some e =>
        rw [hedge] at h₂
        rwa [filterMap_cons_some hedge]

theorem Refines.visitAttached {n : Ip4}
    (hpath : PathOf root (.network n) l) (hsmall : l.cost < 2 ^ 32 - 1) :
    ∀ (attached : List Ip4) {s : SpfState} {a : Search Node}, Refines root s a →
      Search.Visiting (.network n) l a →
      ∃ s', attached.foldlM (SpfState.visitAttached n (UInt32.ofNat l.cost)) s = some s' ∧
        Refines root s' (a.expand l (attached.map fun ar => (Node.router ar, 0))) := by
  intro attached
  induction attached with
  | nil => intro s a h _; exact ⟨s, rfl, h⟩
  | cons ar attached ih =>
    intro s a h hu
    have hnh : s.nextHop.lookup (.network n) = some (firstHop root (l.path ++ [.router ar])) := by
      rw [h.lookup_nextHop hu, hpath.firstHop_eq (Or.inl (by simp))]
    obtain ⟨s₁, hs₁, h₁⟩ := h.offer (w := 0) 0 hsmall hnh
    obtain ⟨s₂, hs₂, h₂⟩ := ih h₁ hu.relax
    refine ⟨s₂, ?_, h₂⟩
    rw [foldlM_cons, SpfState.visitAttached]
    rw [show s.offer (.router ar) (UInt32.ofNat l.cost) 0 _ = some s₁ from hs₁]
    exact hs₂

theorem Refines.settle (h : Refines root s a) (u : Node) (heap : List Candidate) :
    Refines root
      { s with
        inTree := insert u s.inTree
        treeOrder := s.treeOrder ++ u.routerId?.toList
        heap := heap }
      (a.settle u (heap.map fun c => (c.cost.toNat, c.node))) where
  dist := h.dist
  small := h.small
  nextHop := h.nextHop
  inTree := by
    intro v
    simp only [Finset.mem_insert, Search.settle, mem_append, mem_singleton, h.inTree]
    tauto
  treeOrder := by
    simp only [Search.settle, filterMap_append, h.treeOrder]
    cases u <;> rfl
  heap := rfl

theorem Refines.visit (spf : Spf) (h : Refines root s a) (hpath : PathOf root u l)
    (hu : Search.Visiting u l (a.settle u (heap.map fun c => (c.cost.toNat, c.node))))
    (hsmall : l.cost < 2 ^ 32 - 1)
    (hedges : ∀ r rl, u = .router r → spf.routers.lookup r = some rl →
      ∀ link ∈ rl.links, l.cost + link.metric.toNat < 2 ^ 32 - 1) :
    ∃ s', spf.visit root (UInt32.ofNat l.cost) u { s with heap := heap } = some s' ∧
      Refines root s'
        ((a.settle u (heap.map fun c => (c.cost.toNat, c.node))).expand l (spf.edges u)) := by
  have hsettle := h.settle u heap
  cases u with
  | router r =>
    simp only [Spf.visit, Spf.edges]
    cases hlsa : spf.routers.lookup r with
    | none => exact ⟨_, rfl, hsettle⟩
    | some rl => exact Refines.visitLinks hpath rl.links hsettle hu (hedges r rl rfl hlsa)
  | network n =>
    simp only [Spf.visit, Spf.edges]
    have hsettle' : Refines root { s with inTree := insert (.network n) s.inTree, heap := heap }
        (a.settle (.network n) (heap.map fun c => (c.cost.toNat, c.node))) := by
      have := hsettle
      simp only [Node.routerId?, Option.toList_none, append_nil] at this
      exact this
    cases hlsa : spf.networks.lookup n with
    | none => exact ⟨_, rfl, hsettle'⟩
    | some nl => exact Refines.visitAttached hpath hsmall nl.attachedRouters hsettle' hu

/-! ## Bounds -/

namespace Spf

def metricBound (spf : Spf) : Node → ℕ
  | .router r => if r ∈ spf.routers then 65535 else 0
  | .network _ => 0

theorem nodup_nodes (spf : Spf) : spf.nodes.Nodup := by
  rw [nodes, nodup_append]
  refine ⟨spf.routers.nodupKeys.map fun _ _ h => Node.router.inj h,
    spf.networks.nodupKeys.map fun _ _ h => Node.network.inj h, ?_⟩
  intro x hx y hy hxy
  obtain ⟨r, -, rfl⟩ := mem_map.mp hx
  obtain ⟨n, -, rfl⟩ := mem_map.mp hy
  cases hxy

theorem le_metricBound (spf : Spf) (x v : Node) (w : ℕ) (h : (v, w) ∈ spf.edges x) :
    w ≤ spf.metricBound x := by
  cases x with
  | router r =>
    simp only [edges] at h
    cases hlsa : spf.routers.lookup r with
    | none => simp [hlsa] at h
    | some rl =>
      rw [hlsa] at h
      have hmem : r ∈ spf.routers := AList.lookup_isSome.mp (by rw [hlsa]; rfl)
      obtain ⟨link, -, hlink⟩ := mem_filterMap.mp h
      have hw : w = link.metric.toNat := by
        simp only [linkEdge] at hlink
        split_ifs at hlink
        · exact (congrArg Prod.snd (Option.some.inj hlink)).symm
        · exact (congrArg Prod.snd (Option.some.inj hlink)).symm
      have := link.metric.toNat_lt
      simp only [metricBound, if_pos hmem]
      omega
  | network n =>
    simp only [edges] at h
    cases hlsa : spf.networks.lookup n with
    | none => simp [hlsa] at h
    | some nl =>
      rw [hlsa] at h
      obtain ⟨ar, -, har⟩ := mem_map.mp h
      exact (congrArg Prod.snd har).ge

theorem mem_nodes_of_metricBound (spf : Spf) (x : Node) (h : spf.metricBound x ≠ 0) :
    x ∈ spf.nodes.toFinset := by
  rw [mem_toFinset, nodes]
  cases x with
  | router r =>
    by_cases hr : r ∈ spf.routers
    · exact mem_append_left _ (mem_map_of_mem (AList.mem_keys.mp hr))
    · simp [metricBound, hr] at h
  | network n => simp [metricBound] at h

theorem mem_nodes_of_edges (spf : Spf) (x : Node) (h : spf.edges x ≠ []) :
    x ∈ spf.nodes.toFinset := by
  rw [mem_toFinset, nodes]
  cases x with
  | router r =>
    cases hlsa : spf.routers.lookup r with
    | none => simp [edges, hlsa] at h
    | some rl =>
      have hmem : r ∈ spf.routers := AList.lookup_isSome.mp (by rw [hlsa]; rfl)
      exact mem_append_left _ (mem_map_of_mem (AList.mem_keys.mp hmem))
  | network n =>
    cases hlsa : spf.networks.lookup n with
    | none => simp [edges, hlsa] at h
    | some nl =>
      have hmem : n ∈ spf.networks := AList.lookup_isSome.mp (by rw [hlsa]; rfl)
      exact mem_append_right _ (mem_map_of_mem (AList.mem_keys.mp hmem))

theorem sum_metricBound_le (spf : Spf) :
    ∑ x ∈ spf.nodes.toFinset, spf.metricBound x ≤ 65535 * spf.routers.keys.length := by
  rw [sum_toFinset spf.metricBound spf.nodup_nodes, nodes, map_append, sum_append, map_map, map_map]
  have hnet : (spf.networks.keys.map (spf.metricBound ∘ Node.network)).sum = 0 := by
    simp [Function.comp_def, metricBound]
  have hrouter : (spf.routers.keys.map (spf.metricBound ∘ Node.router)).sum ≤
      (spf.routers.keys.map (spf.metricBound ∘ Node.router)).length • 65535 := by
    apply sum_le_card_nsmul
    intro w hw
    obtain ⟨r, -, rfl⟩ := mem_map.mp hw
    simp only [Function.comp_apply, metricBound]
    split_ifs <;> omega
  rw [length_map, smul_eq_mul] at hrouter
  omega

/-- **No cost overflows.**  With fewer than `2^16` Router-LSAs the cost of an edge
out of the next node to be visited is below `u32::MAX`. -/
theorem cost_bound {spf : Spf} (hfew : spf.routers.keys.length < 2 ^ 16) {n : ℕ}
    (hrun : Search.Run spf.edges (Search.start (.router root)) n a) {x : Node}
    {l : Label Node} (hnew : x ∉ a.settled) (hl : a.label x = some l) :
    l.cost + spf.metricBound x < 2 ^ 32 - 1 := by
  have hle := hrun.cost_add_le spf.le_metricBound spf.mem_nodes_of_metricBound hnew hl
  have hsum := spf.sum_metricBound_le
  have : 65535 * spf.routers.keys.length ≤ 65535 * 65535 := Nat.mul_le_mul_left _ (by omega)
  omega

end Spf

/-! ## The loop -/

theorem Refines.iterate (h : Refines root s a) (hfew : spf.routers.keys.length < 2 ^ 16) {n : ℕ}
    (hrun : Search.Run spf.edges (Search.start (.router root)) n a) {c : Candidate}
    (hpop : popMax s.heap = some (c, heap)) :
    (c.node ∈ s.inTree ∧ ∃ a', Search.Step spf.edges a a' ∧
      Refines root { s with heap := heap } a') ∨
    (c.node ∉ s.inTree ∧ ∃ s' a', spf.visit root c.cost c.node { s with heap := heap } = some s' ∧
      Search.Step spf.edges a a' ∧ Refines root s' a') := by
  obtain ⟨hperm, hmin⟩ := popMax_spec hpop
  have hqueue : a.queue.Perm ((c.cost.toNat, c.node) ::
      heap.map fun c => (c.cost.toNat, c.node)) := by
    rw [← h.heap]
    exact hperm.map _
  by_cases hold : c.node ∈ s.inTree
  · left
    refine ⟨hold, _, Search.Step.skip hqueue ((h.inTree _).mp hold), ?_⟩
    exact ⟨h.dist, h.small, h.nextHop, h.inTree, h.treeOrder, rfl⟩
  · right
    refine ⟨hold, ?_⟩
    have hinv := hrun.inv
    have hnew : c.node ∉ a.settled := fun hmem => hold ((h.inTree _).mpr hmem)
    have hmin' : ∀ e ∈ heap.map (fun c => (c.cost.toNat, c.node)), c.cost.toNat ≤ e.1 := by
      intro e he
      obtain ⟨c', hc', rfl⟩ := mem_map.mp he
      exact UInt32.le_iff_toNat_le.mp (hmin c' hc')
    obtain ⟨l, hl, -⟩ := hinv.queue_label _ _ (hqueue.mem_iff.mpr mem_cons_self)
    have hcost : c.cost = UInt32.ofNat l.cost := by
      rw [hinv.cost_eq_of_pop hqueue hmin' hnew hl, UInt32.ofNat_toNat]
    have hbound := Spf.cost_bound hfew hrun hnew hl
    have hedges : ∀ r rl, c.node = .router r → spf.routers.lookup r = some rl →
        ∀ link ∈ rl.links, l.cost + link.metric.toNat < 2 ^ 32 - 1 := by
      intro r rl hr hlsa link _
      have hmem : r ∈ spf.routers := AList.lookup_isSome.mp (by rw [hlsa]; rfl)
      rw [hr] at hbound
      simp only [Spf.metricBound, if_pos hmem] at hbound
      have := link.metric.toNat_lt
      omega
    obtain ⟨s', hs', h'⟩ := h.visit spf (pathOf_of_inv hinv hl)
      (hinv.visiting hqueue hmin' hnew hl) (by omega) hedges
    rw [hcost]
    exact ⟨s', _, hs', Search.Step.visit hqueue hmin' hnew hl, h'⟩

theorem Refines.loop (hfew : spf.routers.keys.length < 2 ^ 16) :
    ∀ (fuel : ℕ) {s : SpfState} {a : Search Node} {n : ℕ}, Refines root s a →
      Search.Run spf.edges (Search.start (.router root)) n a →
      ∃ s' a' m, spf.loop root fuel s = some s' ∧ Refines root s' a' ∧
        Search.Run spf.edges (Search.start (.router root)) m a' ∧
        (a'.queue = [] ∨ m = n + fuel) := by
  intro fuel
  induction fuel with
  | zero => intro s a n h hrun; exact ⟨s, a, n, rfl, h, hrun, Or.inr rfl⟩
  | succ fuel ih =>
    intro s a n h hrun
    cases hpop : popMax s.heap with
    | none =>
      refine ⟨s, a, n, by rw [Spf.loop, hpop], h, hrun, Or.inl ?_⟩
      rw [← h.heap]
      cases hheap : s.heap with
      | nil => rfl
      | cons c cs => rw [hheap] at hpop; cases hpop
    | some top =>
      obtain ⟨c, heap⟩ := top
      simp only [Spf.loop, hpop]
      rcases h.iterate hfew hrun hpop with
        ⟨hold, a', hstep, h'⟩ | ⟨hnew, s', a', hvisit, hstep, h'⟩
      · rw [if_pos hold]
        obtain ⟨s₂, a₂, m, hs₂, h₂, hrun₂, hend⟩ := ih h' (hrun.snoc hstep)
        exact ⟨s₂, a₂, m, hs₂, h₂, hrun₂, hend.imp_right fun hm => by omega⟩
      · rw [if_neg hnew, hvisit]
        obtain ⟨s₂, a₂, m, hs₂, h₂, hrun₂, hend⟩ := ih h' (hrun.snoc hstep)
        exact ⟨s₂, a₂, m, hs₂, h₂, hrun₂, hend.imp_right fun hm => by omega⟩

theorem Spf.calculate_spec (hroot : spf.root = some root)
    (hmem : root ∈ spf.routers) (hfew : spf.routers.keys.length < 2 ^ 16) :
    ∃ s a, spf.calculate = .ok ⟨routerRoutes s, s.stubRoutes, s.treeOrder⟩ ∧
      Refines root s a ∧ Search.Inv spf.edges (.router root) (.router root) [] a ∧
      a.queue = [] := by
  obtain ⟨s, a, m, hloop, hrefines, hrun, hend⟩ :=
    Refines.loop hfew (1 + spf.edgeCount) (refines_initial root) Search.Run.nil
  refine ⟨s, a, ?_, hrefines, hrun.inv, ?_⟩
  · simp only [calculate, hroot, hloop, hmem, not_true_eq_false, if_false]
  · rcases hend with hend | hend
    · exact hend
    · have hlen := hrun.length_queue spf.mem_nodes_of_edges
      rw [sum_toFinset _ spf.nodup_nodes, ← edgeCount] at hlen
      exact length_eq_zero_iff.mp (by omega)

/-! ## The routing table -/

namespace Spf

theorem lookup_foldl_addRoute (s : SpfState) (r : Ip4) :
    ∀ (entries : List (Sigma fun _ : Node => Ip4)) (routes : AList fun _ : Ip4 => Route),
      entries.NodupKeys →
      (entries.foldl (addRoute s) routes).lookup r =
        ((entries.dlookup (.router r)).map fun nh =>
          ⟨r, nh, (s.dist.lookup (.router r)).getD 0⟩).or (routes.lookup r) := by
  intro entries
  induction entries with
  | nil => intro routes _; rfl
  | cons entry entries ih =>
    intro routes hnodup
    obtain ⟨node, nh⟩ := entry
    obtain ⟨hfresh, hnodup⟩ := nodupKeys_cons.mp hnodup
    rw [foldl_cons, ih _ hnodup]
    by_cases hnode : node = .router r
    · subst hnode
      have hnone : entries.dlookup (.router r) = none := dlookup_eq_none.mpr hfresh
      rw [hnone, dlookup_cons_eq]
      exact AList.lookup_insert _
    · rw [dlookup_cons_ne _ _ (Ne.symm hnode)]
      congr 1
      cases node with
      | router r' => exact AList.lookup_insert_ne fun heq => hnode (by rw [heq])
      | network n => rfl

theorem lookup_routerRoutes (s : SpfState) (r : Ip4) :
    (routerRoutes s).lookup r = (s.nextHop.lookup (.router r)).map fun nh =>
      ⟨r, nh, (s.dist.lookup (.router r)).getD 0⟩ := by
  rw [routerRoutes, lookup_foldl_addRoute s r _ _ s.nextHop.nodupKeys]
  exact Option.or_none

theorem routeTo_table (h : Refines root s a) (r : Ip4) :
    (RoutingTable.mk (routerRoutes s) s.stubRoutes s.treeOrder).routeTo r =
      (a.label (.router r)).map fun l => ⟨r, firstHop root l.path, UInt32.ofNat l.cost⟩ := by
  rw [RoutingTable.routeTo, lookup_routerRoutes, h.nextHop, h.dist]
  cases a.label (.router r) <;> rfl

theorem costTo_table (h : Refines root s a) (r : Ip4) :
    (RoutingTable.mk (routerRoutes s) s.stubRoutes s.treeOrder).costTo r =
      (a.label (.router r)).map fun l => UInt32.ofNat l.cost := by
  rw [RoutingTable.costTo, routeTo_table h, Option.map_map]
  rfl

theorem nextHop_table (h : Refines root s a) (r : Ip4) :
    (RoutingTable.mk (routerRoutes s) s.stubRoutes s.treeOrder).nextHop r =
      (a.label (.router r)).map fun l => firstHop root l.path := by
  rw [RoutingTable.nextHop, routeTo_table h, Option.map_map]
  rfl

variable {l : Label Node}

theorem toNat_cost (h : Refines root s a) {v : Node}
    (hl : a.label v = some l) : (UInt32.ofNat l.cost).toNat = l.cost := by
  have := h.small v l hl
  rw [UInt32.toNat_ofNat', Nat.mod_eq_of_lt (by omega)]

def IsShortest (spf : Spf) (root r : Ip4) (c : ℕ) : Prop :=
  IsLeast {c | ∃ p, Path spf.edges (.router root) (.router r) p c} c

/-- **Costs are shortest paths.**  The calculation succeeds; the cost of a router
is the least cost of a path to it, and a router without a cost has no path; the
tree order lists each reachable router once, in order of cost. -/
theorem calculate_shortest (spf : Spf) (root : Ip4) (hroot : spf.root = some root)
    (hmem : root ∈ spf.routers) (hfew : spf.routers.keys.length < 2 ^ 16) :
    ∃ table, spf.calculate = .ok table ∧
      (∀ r c, table.costTo r = some c ↔ spf.IsShortest root r c.toNat) ∧
      (∀ r, table.costTo r = none ↔ ¬ ∃ p c, Path spf.edges (.router root) (.router r) p c) ∧
      table.treeOrder.Nodup ∧
      (∀ r, r ∈ table.treeOrder ↔ ∃ p c, Path spf.edges (.router root) (.router r) p c) ∧
      table.treeOrder.Pairwise fun r q =>
        ∀ c d, table.costTo r = some c → table.costTo q = some d → c ≤ d := by
  obtain ⟨s, a, hcalc, href, hinv, hdone⟩ := calculate_spec hroot hmem hfew
  have hcost := costTo_table href
  have hlabel : ∀ v, (∃ p c, Path spf.edges (.router root) v p c) ↔ ∃ l, a.label v = some l := by
    intro v
    constructor
    · rintro ⟨p, c, hpath⟩
      obtain ⟨l, hl, -⟩ := hinv.cost_le hdone hpath
      exact ⟨l, hl⟩
    · rintro ⟨l, hl⟩
      exact ⟨l.path, l.cost, hinv.path _ v l rfl hl⟩
  refine ⟨_, hcalc, ?_, ?_, ?_, ?_, ?_⟩
  · intro r c
    rw [hcost]
    constructor
    · intro hc
      obtain ⟨l, hl, rfl⟩ := Option.map_eq_some_iff.mp hc
      rw [toNat_cost href hl]
      exact hinv.label_isLeast hdone hl
    · rintro ⟨⟨p, hpath⟩, hleast⟩
      obtain ⟨l, hl⟩ := (hlabel _).mp ⟨p, _, hpath⟩
      have heq := (hinv.label_isLeast hdone hl).unique ⟨⟨p, hpath⟩, hleast⟩
      rw [hl, Option.map_some, heq, UInt32.ofNat_toNat]
  · intro r
    rw [hcost, Option.map_eq_none_iff, hlabel]
    cases a.label (.router r) <;> simp
  · rw [href.treeOrder]
    refine hinv.nodup.filterMap ?_
    intro x y r hx hy
    cases x <;> cases y <;> simp_all [Node.routerId?]
  · intro r
    rw [href.treeOrder, hlabel, mem_filterMap]
    constructor
    · rintro ⟨x, hx, hr⟩
      cases x with
      | router r' =>
        cases hr
        exact hinv.settled_label _ hx
      | network n => cases hr
    · rintro ⟨l, hl⟩
      exact ⟨.router r, hinv.settled_of_label hdone hl, rfl⟩
  · simp only [hcost]
    rw [href.treeOrder, pairwise_filterMap]
    refine hinv.sorted.imp ?_
    intro x y hle r hr q hq c d hc hd
    cases x with
    | network n => cases hr
    | router r' =>
      cases y with
      | network n => cases hq
      | router q' =>
        cases hr
        cases hq
        obtain ⟨lr, hlr, rfl⟩ := Option.map_eq_some_iff.mp hc
        obtain ⟨lq, hlq, rfl⟩ := Option.map_eq_some_iff.mp hd
        rw [UInt32.le_iff_toNat_le, toNat_cost href hlr, toNat_cost href hlq]
        exact hle lr lq hlr hlq

def broadcastArea : Spf :=
  let header (advertising : Ip4) (lsaType : UInt16) (id : Ip4) : LsaHeader :=
    { version := .v2, age := 0, options := 2, lsaType := lsaType, linkStateId := id,
      advertisingRouter := advertising, sequenceNumber := 0x80000001, checksum := 0,
      length := 0 }
  let router (id : Ip4) (links : List RouterLink) : RouterLsa :=
    { header := header id 1 ⟨0, 0, 0, 0⟩, v := false, e := false, b := false, links := links }
  (new ⟨10, 0, 0, 1⟩)
    |>.addRouterLsa (router ⟨10, 0, 0, 1⟩ [⟨2, ⟨10, 1, 1, 1⟩, ⟨10, 1, 1, 1⟩, 5⟩])
    |>.addRouterLsa (router ⟨10, 0, 0, 2⟩ [⟨2, ⟨10, 1, 1, 1⟩, ⟨10, 1, 1, 2⟩, 5⟩,
      ⟨1, ⟨10, 0, 0, 3⟩, ⟨10, 2, 0, 1⟩, 7⟩])
    |>.addNetworkLsa
      { header := header ⟨10, 0, 0, 1⟩ 2 ⟨10, 1, 1, 1⟩
        networkMask := ⟨255, 255, 255, 0⟩
        attachedRouters := [⟨10, 0, 0, 1⟩, ⟨10, 0, 0, 2⟩] }

theorem calculate_shortest_broadcastArea : ∃ table, broadcastArea.calculate = .ok table ∧
      (∀ r c, table.costTo r = some c ↔
        broadcastArea.IsShortest ⟨10, 0, 0, 1⟩ r c.toNat) := by
  obtain ⟨table, hcalc, hcost, -⟩ :=
    calculate_shortest broadcastArea ⟨10, 0, 0, 1⟩ rfl (by decide) (by decide)
  exact ⟨table, hcalc, hcost⟩

/-! ## Next hops -/

theorem path_cons {spf : Spf} (hinv : Search.Inv spf.edges (.router root) (.router root) [] a)
    {v : Node} (hl : a.label v = some l) (hv : v ≠ .router root) :
    ∃ x rest, l.path = .router root :: x :: rest := by
  have hlen := two_le_length_path hinv hl hv
  have hhead := (hinv.path _ v l rfl hl).head?
  match hp : l.path with
  | [] => rw [hp] at hlen; simp at hlen
  | [_] => rw [hp] at hlen; simp at hlen
  | y :: x :: rest =>
    rw [hp] at hhead
    cases hhead
    exact ⟨x, rest, rfl⟩

def treePath (a : Search Node) (x : Node) : List Node := ((a.label x).map Label.path).getD []

theorem treePath_eq {x : Node} (hl : a.label x = some l) : treePath a x = l.path := by
  rw [treePath, hl]
  rfl

/-- A path never comes back to the root. -/
theorem ne_root_of_path {spf : Spf}
    (hinv : Search.Inv spf.edges (.router root) (.router root) [] a) {x : Node}
    {rest : List Node} {v : Node} (hl : a.label v = some l)
    (hp : l.path = .router root :: x :: rest) : x ≠ .router root := by
  have hroot : ∀ {v l y q}, a.label v = some l → l.path = .router root :: y :: q →
      v ≠ .router root := by
    rintro v l y q hl hp rfl
    rw [hinv.root_label] at hl
    cases hl
    cases hp
  -- from the far end of the path, along the settled node that a label extends
  induction rest using List.reverseRecOn generalizing v l with
  | nil =>
    rcases hinv.extends_settled v l hl with rfl | ⟨y, -, ly, w, hly, -, rfl⟩
    · exact absurd rfl (hroot hl hp)
    · change ly.path ++ [v] = [.router root] ++ [x] at hp
      cases (append_inj' hp rfl).2
      exact hroot hl hp
  | append_singleton rest z ih =>
    rcases hinv.extends_settled v l hl with rfl | ⟨y, -, ly, w, hly, -, rfl⟩
    · exact absurd rfl (hroot hl hp)
    · change ly.path ++ [v] = .router root :: x :: rest ++ [z] at hp
      exact ih hly (append_inj' hp rfl).1

/-- `h` is the first router behind the root on a shortest path to `r`. -/
def IsFirstHop (spf : Spf) (root r h : Ip4) : Prop :=
  ∃ p c, Path spf.edges (.router root) (.router r) p c ∧ spf.IsShortest root r c ∧
    (p.tail.filterMap Node.routerId?).head? = some h

/-- **Next hops follow a shortest-path tree.**  There is a tree of shortest paths to
all reachable routers such that the next hop of a router is the first router behind
the root on its path when the path leaves the root over a point-to-point link, and
the root's own Router Id when it leaves over a transit link: it is a first hop
other than the root in the first case only.  A router inherits the next hop of
every router on its path. -/
theorem calculate_nextHop (spf : Spf) (root : Ip4) (hroot : spf.root = some root)
    (hmem : root ∈ spf.routers) (hfew : spf.routers.keys.length < 2 ^ 16) :
    ∃ table, spf.calculate = .ok table ∧ ∃ path : Node → List Node,
      ∀ r, (∃ p c, Path spf.edges (.router root) (.router r) p c) →
        ∃ c, table.costTo r = some c ∧
        (Path spf.edges (.router root) (.router r) (path (.router r)) c.toNat ∧
          spf.IsShortest root r c.toNat) ∧
        (∀ x ∈ path (.router r), path x <+: path (.router r)) ∧
        (r ≠ root → ∃ v rest, path (.router r) = .router root :: v :: rest ∧
          table.nextHop r = some (v.hop root) ∧
          ((∃ h, table.nextHop r = some h ∧ h ≠ root ∧ spf.IsFirstHop root r h) ↔
            ∃ q, v = .router q)) ∧
        (∀ q, q ≠ root → .router q ∈ path (.router r) → table.nextHop r = table.nextHop q) := by
  obtain ⟨s, a, hcalc, href, hinv, hdone⟩ := calculate_spec hroot hmem hfew
  refine ⟨_, hcalc, treePath a, ?_⟩
  rintro r ⟨p, c, hpath⟩
  obtain ⟨l, hl, -⟩ := hinv.cost_le hdone hpath
  have hhop := nextHop_table href
  have htree := hinv.path _ _ l rfl hl
  have hleast := hinv.label_isLeast hdone hl
  refine ⟨UInt32.ofNat l.cost, by rw [costTo_table href, hl]; rfl, ?_⟩
  rw [toNat_cost href hl, treePath_eq hl]
  refine ⟨⟨htree, hleast⟩, ?_, ?_, ?_⟩
  · intro x hx
    obtain ⟨lx, hlx, hpre⟩ := hinv.tree _ _ l rfl hl x hx
    rwa [treePath_eq hlx]
  · intro hr
    obtain ⟨v, rest, hp⟩ := path_cons hinv hl fun heq => hr (Node.router.inj heq)
    have hnext : (RoutingTable.mk (routerRoutes s) s.stubRoutes s.treeOrder).nextHop r =
        some (v.hop root) := by
      rw [hhop, hl, Option.map_some, hp]
      rfl
    refine ⟨v, rest, hp, hnext, ?_, ?_⟩
    · rintro ⟨h, hh, hne, -⟩
      rw [hnext] at hh
      cases hh
      cases v with
      | router q => exact ⟨q, rfl⟩
      | network n => exact absurd rfl hne
    · rintro ⟨q, rfl⟩
      refine ⟨q, hnext, fun heq => ne_root_of_path hinv hl hp (by rw [heq]), ?_⟩
      exact ⟨l.path, l.cost, htree, hleast, by rw [hp]; rfl⟩
  · intro q hq hmemq
    obtain ⟨lq, hlq, hpre⟩ := hinv.tree _ _ l rfl hl _ hmemq
    have hlen := two_le_length_path hinv hlq fun heq => hq (Node.router.inj heq)
    obtain ⟨tail, htail⟩ := hpre
    rw [hhop, hhop, hl, hlq, Option.map_some, Option.map_some, ← htail, firstHop_append hlen]

/-- The same area calculated at the router that is not the designated one. -/
def memberArea : Spf := { broadcastArea with root := some ⟨10, 0, 0, 2⟩ }

theorem calculate_nextHop_memberArea :
    ∃ table, memberArea.calculate = .ok table ∧
      (∃ v : Node, table.nextHop ⟨10, 0, 0, 1⟩ = some (v.hop ⟨10, 0, 0, 2⟩)) := by
  obtain ⟨table, hcalc, path, hpath⟩ :=
    calculate_nextHop memberArea ⟨10, 0, 0, 2⟩ rfl (by decide) (by decide)
  have hroute : Path memberArea.edges (.router ⟨10, 0, 0, 2⟩) (.router ⟨10, 0, 0, 1⟩)
      ([.router ⟨10, 0, 0, 2⟩] ++ [.network ⟨10, 1, 1, 1⟩] ++ [.router ⟨10, 0, 0, 1⟩])
      (0 + 5 + 0) :=
    .snoc (.snoc .root (by decide)) (by decide)
  obtain ⟨-, -, -, -, hnext, -⟩ := hpath _ ⟨_, _, hroute⟩
  obtain ⟨v, -, -, hv, -⟩ := hnext (by decide)
  exact ⟨table, hcalc, v, hv⟩

/-- The next hop toward the designated router of the root's own network is the root
itself; the one over the point-to-point link is its far end. -/
theorem nextHop_memberArea :
    memberArea.calculate.toOption.map (fun t =>
        (t.costTo ⟨10, 0, 0, 1⟩, t.nextHop ⟨10, 0, 0, 1⟩,
          t.costTo ⟨10, 0, 0, 3⟩, t.nextHop ⟨10, 0, 0, 3⟩)) =
      some (some 5, some ⟨10, 0, 0, 2⟩, some 7, some ⟨10, 0, 0, 3⟩) := by
  decide

end Spf

end TptRfc.Ospf
