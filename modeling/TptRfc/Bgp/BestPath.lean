import TptRfc.Bgp.Rib

/-!
# BGP: does the best path depend on the order of arrival?

Two runs that leave the same announcements standing list the same routes, but in different orders.
-/

namespace TptRfc.Bgp

open Lib List

namespace Rib

def Leaves (ops : List Op) (pfx : Prefix) (routes : List Route) : Prop :=
  ∀ r, survivors pfx ops r.source = some r ↔ r ∈ routes

theorem perm_listed {decision : DecisionProcess} {ops : List Op} {pfx : Prefix}
    {routes : List Route} (hleaves : Leaves ops pfx routes) (hnodup : routes.Nodup) :
    ((run decision ops).listed pfx).Perm routes := by
  have hlisted := ((InStep.run decision ops).distinct pfx).of_map
  refine (perm_ext_iff_of_nodup hlisted hnodup).mpr fun r => ?_
  rw [mem_listed_iff, hleaves r]

theorem listed_run_insert (decision : DecisionProcess) {pfx : Prefix} (routes : List Route)
    (hpfx : ∀ r ∈ routes, r.routePrefix = pfx) (hdistinct : (routes.map Route.source).Nodup) :
    (run decision (routes.map Op.insert)).listed pfx = routes := by
  induction routes using reverseRecOn with
  | nil => simp [run, new, listed]
  | append_singleton routes r ih =>
    rw [map_append, nodup_append] at hdistinct
    have hrec := ih (fun x hx => hpfx x (mem_append_left _ hx)) hdistinct.1
    rw [map_append, map_singleton, run_concat]
    change (Rib.insert _ r).listed pfx = _
    rw [listed_insert, if_pos (hpfx r (by simp)).symm, hrec, upsert_of_fresh]
    intro x hx
    exact hdistinct.2.2 _ (mem_map_of_mem hx) _ (by simp)

/-- **Order independence of best-path selection.**  For routes of distinct peers, all
runs that leave them standing select the same route exactly when there is no route, or
one that is preferred over every other. -/
theorem best_order_independent_iff {pfx : Prefix} {routes : List Route}
    (hpfx : ∀ r ∈ routes, r.routePrefix = pfx)
    (hpeers : (routes.map fun r => r.source.peer).Nodup) :
    (∀ ops₁ ops₂, Leaves ops₁ pfx routes → Leaves ops₂ pfx routes →
      (run defaultDecision ops₁).best pfx = (run defaultDecision ops₂).best pfx) ↔
    routes = [] ∨ ∃ w ∈ routes, ∀ r ∈ routes, r ≠ w →
      DefaultDecision.compare (some r) w = .gt := by
  have hsources : (routes.map Route.source).Nodup := by
    refine Nodup.of_map RouteSource.peer ?_
    rwa [map_map]
  have hnodup := hsources.of_map
  have hbest : ∀ ops, (run defaultDecision ops).best pfx =
      heldAfter id Preferred ((run defaultDecision ops).listed pfx) := fun ops => by
    rw [(InStep.run defaultDecision ops).best, decision_run, selectBest_eq_heldAfter]
  by_cases hempty : routes = []
  · refine iff_of_true ?_ (.inl hempty)
    intro ops₁ ops₂ h₁ h₂
    have hnil : ∀ ops, Leaves ops pfx routes → (run defaultDecision ops).listed pfx = [] :=
      fun ops h => (hempty ▸ perm_listed h hnodup).eq_nil
    rw [hbest, hbest, hnil ops₁ h₁, hnil ops₂ h₂]
  · have hiff := held_agree_perm_iff Preferred.asymm hnodup hempty
    constructor
    · intro hagree
      refine .inr (hiff.mp ?_)
      -- the two orders are those of two runs that only insert
      have horder : ∀ xs : List Route, xs.Perm routes →
          Leaves (xs.map Op.insert) pfx routes ∧
            (run defaultDecision (xs.map Op.insert)).listed pfx = xs := by
        intro xs hxs
        have hlisted := listed_run_insert defaultDecision xs
          (fun r hr => hpfx r (hxs.mem_iff.mp hr)) ((hxs.map _).nodup_iff.mpr hsources)
        refine ⟨fun r => ?_, hlisted⟩
        rw [← mem_listed_iff defaultDecision, hlisted, hxs.mem_iff]
      intro xs ys hxs hys
      have h := hagree _ _ (horder xs hxs).1 (horder ys hys).1
      rwa [hbest, hbest, (horder xs hxs).2, (horder ys hys).2] at h
    · rintro (h | h) ops₁ ops₂ h₁ h₂
      · exact absurd h hempty
      · rw [hbest, hbest]
        exact hiff.mpr h _ _ (perm_listed h₁ hnodup) (perm_listed h₂ hnodup)

/-- Two routes of two neighbours: the one from the lower peer is preferred over the other. -/
theorem best_order_independent_sample :
    DefaultDecision.compare (some (sampleRoute 2 200 5)) (sampleRoute 1 100 0) = .gt ∧
      ∀ ops₁ ops₂, Leaves ops₁ samplePrefix [sampleRoute 1 100 0, sampleRoute 2 200 5] →
        Leaves ops₂ samplePrefix [sampleRoute 1 100 0, sampleRoute 2 200 5] →
        (run defaultDecision ops₁).best samplePrefix =
          (run defaultDecision ops₂).best samplePrefix :=
  ⟨by decide +kernel, (best_order_independent_iff (by decide +kernel) (by decide +kernel)).mpr
    (.inr ⟨sampleRoute 1 100 0, by decide +kernel, by decide +kernel⟩)⟩

/-- Three routes that beat each other in a circle: by peer, by peer, and by MULTI_EXIT_DISC. -/
theorem best_depends_on_order :
    let a := sampleRoute 1 100 10
    let b := sampleRoute 2 200 0
    let c := sampleRoute 3 100 5
    (run defaultDecision [.insert a, .insert b, .insert c]).best samplePrefix = some c ∧
      (run defaultDecision [.insert b, .insert c, .insert a]).best samplePrefix = some a := by
  decide +kernel

end Rib

end TptRfc.Bgp
