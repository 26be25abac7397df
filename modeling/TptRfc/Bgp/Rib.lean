import TptRfc.Bgp.Decision

/-!
# BGP: the routing information base

`Rib` keeps two maps in step: all routes received, per prefix (Adj-RIB-In), and the selected route
per prefix (Loc-RIB).
-/

namespace TptRfc.Bgp

open Lib List Function

structure Policy where
  apply : Route → Route × Bool

structure Rib where
  adj : AList fun _ : Prefix => List Route
  loc : AList fun _ : Prefix => Route
  decision : DecisionProcess

namespace Rib

def new (decision : DecisionProcess) : Rib := ⟨∅, ∅, decision⟩

def recompute (rib : Rib) (pfx : Prefix) : Rib :=
  match selectBest rib.decision ((rib.adj.lookup pfx).getD []) with
  | some b => { rib with loc := rib.loc.insert pfx b }
  | none => { rib with loc := rib.loc.erase pfx }

def upsert (route : Route) : List Route → List Route
  | [] => [route]
  | r :: rs =>
    if r.source.peer = route.source.peer ∧ r.source.isIbgp = route.source.isIbgp then
      route :: rs
    else r :: upsert route rs

def insert (rib : Rib) (route : Route) : Rib :=
  let entry := (rib.adj.lookup route.routePrefix).getD []
  { rib with adj := rib.adj.insert route.routePrefix (upsert route entry) }.recompute
    route.routePrefix

def best (rib : Rib) (pfx : Prefix) : Option Route := rib.loc.lookup pfx

def dropPeer (rib : Rib) (pfx : Prefix) (peer : FixedBytes 4) : Rib :=
  match rib.adj.lookup pfx with
  | none => rib
  | some entry =>
    let kept := entry.filter fun r => r.source.peer ≠ peer
    if kept = [] then { rib with adj := rib.adj.erase pfx }
    else { rib with adj := rib.adj.insert pfx kept }

def withdraw (rib : Rib) (pfx : Prefix) (peer : FixedBytes 4) : Bool × Rib :=
  let dropped := rib.dropPeer pfx peer
  let before := (dropped.best pfx).map fun r => r.source.peer
  let after := dropped.recompute pfx
  (before ≠ (after.best pfx).map (fun r => r.source.peer) || before.isSome, after)

def insertWithPolicy (rib : Rib) (route : Route) (policy : Policy) : Bool × Rib :=
  let (route, accepted) := policy.apply route
  if accepted then (true, rib.insert route) else (false, rib)

def listed (rib : Rib) (pfx : Prefix) : List Route := (rib.adj.lookup pfx).getD []

end Rib

/-! ## Runs -/

inductive Op where
  | insert (route : Route)
  | withdraw (pfx : Prefix) (peer : FixedBytes 4)

inductive Call where
  | insert (route : Route)
  | insertWithPolicy (route : Route) (policy : Policy)
  | withdraw (pfx : Prefix) (peer : FixedBytes 4)

def Call.op : Call → Option Op
  | insert route => some (.insert route)
  | insertWithPolicy route policy =>
    if (policy.apply route).2 then some (.insert (policy.apply route).1) else none
  | withdraw pfx peer => some (.withdraw pfx peer)

namespace Rib

def apply (rib : Rib) : Op → Rib
  | .insert route => rib.insert route
  | .withdraw pfx peer => (rib.withdraw pfx peer).2

def run (decision : DecisionProcess) (ops : List Op) : Rib := ops.foldl apply (new decision)

def call (rib : Rib) : Call → Rib
  | .insert route => rib.insert route
  | .insertWithPolicy route policy => (rib.insertWithPolicy route policy).2
  | .withdraw pfx peer => (rib.withdraw pfx peer).2

def runCalls (decision : DecisionProcess) (calls : List Call) : Rib :=
  calls.foldl call (new decision)

theorem runCalls_eq (decision : DecisionProcess) (calls : List Call) :
    runCalls decision calls = run decision (calls.filterMap Call.op) := by
  unfold runCalls run
  generalize new decision = rib
  induction calls generalizing rib with
  | nil => rfl
  | cons c calls ih =>
    rw [foldl_cons, ih, filterMap_cons]
    cases c with
    | insert route => rfl
    | withdraw pfx peer => rfl
    | insertWithPolicy route policy =>
      simp only [call, insertWithPolicy, Call.op]
      by_cases haccept : (policy.apply route).2
      · simp only [haccept, if_true, foldl_cons]
        rfl
      · simp only [haccept, if_false, Bool.false_eq_true]

/-! ## What the operations do to the two maps -/

section Maps

variable (rib : Rib) (route : Route) (pfx q : Prefix) (peer : FixedBytes 4)

@[simp] theorem listed_recompute : (rib.recompute pfx).listed q = rib.listed q := by
  unfold recompute
  split <;> rfl

@[simp] theorem decision_recompute : (rib.recompute pfx).decision = rib.decision := by
  unfold recompute
  split <;> rfl

@[simp] theorem adj_recompute : (rib.recompute pfx).adj = rib.adj := by
  unfold recompute
  split <;> rfl

theorem best_recompute : (rib.recompute pfx).best q =
    if q = pfx then selectBest rib.decision (rib.listed pfx) else rib.best q := by
  unfold recompute best
  change AList.lookup q (match selectBest rib.decision (rib.listed pfx) with
    | some b => { rib with loc := rib.loc.insert pfx b }
    | none => { rib with loc := rib.loc.erase pfx } : Rib).loc = _
  cases selectBest rib.decision (rib.listed pfx) with
  | none | some b =>
    by_cases h : q = pfx
    · subst h; simp
    · simp [h]

@[simp] theorem decision_insert : (rib.insert route).decision = rib.decision := by
  simp [insert]

theorem listed_insert : (rib.insert route).listed q =
    if q = route.routePrefix then upsert route (rib.listed q) else rib.listed q := by
  simp only [insert, listed]
  by_cases h : q = route.routePrefix
  · subst h; simp
  · simp [h]

theorem best_insert : (rib.insert route).best q =
    if q = route.routePrefix then selectBest rib.decision (upsert route (rib.listed q))
    else rib.best q := by
  simp only [insert, best_recompute, listed]
  by_cases h : q = route.routePrefix
  · subst h; simp
  · simp only [if_neg h]
    rfl

@[simp] theorem decision_dropPeer : (rib.dropPeer pfx peer).decision = rib.decision := by
  unfold dropPeer
  split
  · rfl
  · dsimp only
    split <;> rfl

@[simp] theorem best_dropPeer : (rib.dropPeer pfx peer).best q = rib.best q := by
  unfold dropPeer
  split
  · rfl
  · dsimp only
    split <;> rfl

theorem listed_dropPeer : (rib.dropPeer pfx peer).listed q =
    if q = pfx then (rib.listed pfx).filter fun r => r.source.peer ≠ peer else rib.listed q := by
  unfold dropPeer listed
  cases hentry : rib.adj.lookup pfx with
  | none =>
    by_cases h : q = pfx
    · subst h; simp [hentry]
    · simp [h]
  | some entry =>
    by_cases hkept : (entry.filter fun r => r.source.peer ≠ peer) = []
    · simp only [if_pos hkept]
      by_cases h : q = pfx
      · subst h; simpa using hkept.symm
      · simp [h]
    · simp only [if_neg hkept]
      by_cases h : q = pfx
      · subst h; simp
      · simp [h]

theorem lookup_dropPeer_ne_nil (h : rib.adj.lookup q ≠ some []) :
    (rib.dropPeer pfx peer).adj.lookup q ≠ some [] := by
  unfold dropPeer
  split
  · exact h
  · rename_i entry _
    dsimp only
    by_cases hkept : (entry.filter fun r => r.source.peer ≠ peer) = []
    · rw [if_pos hkept]
      by_cases hq : q = pfx
      · subst hq; simp
      · simpa [hq] using h
    · rw [if_neg hkept]
      by_cases hq : q = pfx
      · subst hq; simpa using hkept
      · simpa [hq] using h

theorem listed_withdraw : (rib.withdraw pfx peer).2.listed q =
    if q = pfx then (rib.listed pfx).filter fun r => r.source.peer ≠ peer else rib.listed q := by
  simp only [withdraw, listed_recompute, listed_dropPeer]

theorem best_withdraw : (rib.withdraw pfx peer).2.best q =
    if q = pfx then
      selectBest rib.decision ((rib.listed pfx).filter fun r => r.source.peer ≠ peer)
    else rib.best q := by
  simp only [withdraw, best_recompute, decision_dropPeer, listed_dropPeer, if_true, best_dropPeer]

end Maps

/-! ## The two maps are in step -/

section Upsert

variable {route r : Route} {routes : List Route}

theorem mem_upsert_iff (hdistinct : (routes.map Route.source).Nodup) :
    r ∈ upsert route routes ↔ r = route ∨ (r ∈ routes ∧ r.source ≠ route.source) := by
  induction routes with
  | nil => simp [upsert]
  | cons x routes ih =>
    rw [map_cons, nodup_cons] at hdistinct
    obtain ⟨hfresh, htail⟩ := hdistinct
    simp only [upsert, source_eq_iff]
    by_cases hx : x.source = route.source
    · rw [if_pos hx, mem_cons, mem_cons]
      constructor
      · rintro (rfl | hr)
        · exact .inl rfl
        · refine .inr ⟨.inr hr, ?_⟩
          intro hsame
          exact hfresh (mem_map.mpr ⟨r, hr, hsame.trans hx.symm⟩)
      · rintro (rfl | ⟨rfl | hr, hne⟩)
        · exact .inl rfl
        · exact absurd hx hne
        · exact .inr hr
    · have hkept : r = x ∧ r.source ≠ route.source ↔ r = x :=
        and_iff_left_of_imp fun h => h ▸ hx
      rw [if_neg hx, mem_cons, ih htail, mem_cons, or_and_right, hkept, or_left_comm]

theorem nodup_upsert (hdistinct : (routes.map Route.source).Nodup) :
    ((upsert route routes).map Route.source).Nodup := by
  induction routes with
  | nil => simp [upsert]
  | cons x routes ih =>
    have hall := hdistinct
    rw [map_cons, nodup_cons] at hdistinct
    obtain ⟨hfresh, htail⟩ := hdistinct
    simp only [upsert, source_eq_iff]
    by_cases hx : x.source = route.source
    · rw [if_pos hx, map_cons, ← hx, ← map_cons]
      exact hall
    · rw [if_neg hx, map_cons, nodup_cons]
      refine ⟨?_, ih htail⟩
      intro hmem
      obtain ⟨y, hy, hsame⟩ := mem_map.mp hmem
      rcases (mem_upsert_iff htail).mp hy with rfl | ⟨hin, -⟩
      · exact hx hsame.symm
      · exact hfresh (mem_map.mpr ⟨y, hin, hsame⟩)

theorem upsert_of_fresh (hfresh : ∀ x ∈ routes, x.source ≠ route.source) :
    upsert route routes = routes ++ [route] := by
  induction routes with
  | nil => rfl
  | cons x routes ih =>
    simp only [upsert, source_eq_iff]
    rw [if_neg (hfresh x mem_cons_self), ih fun y hy => hfresh y (mem_cons_of_mem _ hy)]
    rfl

end Upsert

structure InStep (rib : Rib) : Prop where
  best : ∀ pfx, rib.best pfx = selectBest rib.decision (rib.listed pfx)
  distinct : ∀ pfx, ((rib.listed pfx).map Route.source).Nodup
  present : ∀ pfx, rib.adj.lookup pfx ≠ some []

theorem InStep.new (decision : DecisionProcess) : InStep (new decision) :=
  ⟨fun _ => rfl, fun _ => nodup_nil, fun _ => by simp [Rib.new]⟩

theorem InStep.insert {rib : Rib} (h : InStep rib) (route : Route) :
    InStep (rib.insert route) where
  best pfx := by
    rw [best_insert, listed_insert, decision_insert]
    split
    · rfl
    · exact h.best pfx
  distinct pfx := by
    rw [listed_insert]
    split
    · exact nodup_upsert (h.distinct pfx)
    · exact h.distinct pfx
  present pfx := by
    simp only [Rib.insert, adj_recompute]
    by_cases hpfx : pfx = route.routePrefix
    · subst hpfx
      rw [AList.lookup_insert, Ne, Option.some_inj]
      intro hnil
      have hmem : route ∈ upsert route (rib.listed route.routePrefix) :=
        (mem_upsert_iff (h.distinct _)).mpr (.inl rfl)
      exact ne_nil_of_mem hmem hnil
    · rw [AList.lookup_insert_ne hpfx]
      exact h.present pfx

theorem InStep.withdraw {rib : Rib} (h : InStep rib) (pfx : Prefix) (peer : FixedBytes 4) :
    InStep (rib.withdraw pfx peer).2 where
  best q := by
    rw [best_withdraw, listed_withdraw]
    have hdecision : (rib.withdraw pfx peer).2.decision = rib.decision := by simp [Rib.withdraw]
    rw [hdecision]
    split
    · rfl
    · exact h.best q
  distinct q := by
    rw [listed_withdraw]
    split
    · exact (h.distinct pfx).sublist (filter_sublist.map _)
    · exact h.distinct q
  present q := by
    simp only [Rib.withdraw, adj_recompute]
    exact lookup_dropPeer_ne_nil _ _ _ _ (h.present q)

theorem InStep.run (decision : DecisionProcess) (ops : List Op) : InStep (run decision ops) := by
  unfold Rib.run
  induction ops using reverseRecOn with
  | nil => exact .new decision
  | append_singleton ops op ih =>
    rw [foldl_append]
    cases op with
    | insert route => exact ih.insert route
    | withdraw pfx peer => exact ih.withdraw pfx peer

theorem decision_run (decision : DecisionProcess) (ops : List Op) :
    (run decision ops).decision = decision := by
  unfold Rib.run
  induction ops using reverseRecOn with
  | nil => rfl
  | append_singleton ops op ih =>
    rw [foldl_append]
    cases op with
    | insert route => exact (decision_insert _ route).trans ih
    | withdraw pfx peer =>
      change ((Rib.withdraw _ pfx peer).2).decision = _
      simpa [Rib.withdraw] using ih

/-! ## What the lists are for -/

end Rib

def Op.announce (pfx : Prefix) (standing : RouteSource → Option Route) :
    Op → RouteSource → Option Route
  | insert route =>
    if route.routePrefix = pfx then Function.update standing route.source (some route)
    else standing
  | withdraw q peer =>
    if q = pfx then fun source => if source.peer = peer then none else standing source
    else standing

def survivors (pfx : Prefix) (ops : List Op) : RouteSource → Option Route :=
  ops.foldl (Op.announce pfx) fun _ => none

namespace Rib

theorem survivors_concat (pfx : Prefix) (ops : List Op) (op : Op) :
    survivors pfx (ops ++ [op]) = op.announce pfx (survivors pfx ops) := by
  simp [survivors]

theorem run_concat (decision : DecisionProcess) (ops : List Op) (op : Op) :
    run decision (ops ++ [op]) = (run decision ops).apply op := by
  simp [run]

theorem mem_listed_iff (decision : DecisionProcess) (ops : List Op) (pfx : Prefix) (r : Route) :
    r ∈ (run decision ops).listed pfx ↔ survivors pfx ops r.source = some r := by
  induction ops using reverseRecOn generalizing r with
  | nil => simp [run, new, listed, survivors]
  | append_singleton ops op ih =>
    rw [run_concat, survivors_concat]
    cases op with
    | insert route =>
      simp only [apply, listed_insert, Op.announce]
      by_cases hpfx : route.routePrefix = pfx
      · subst hpfx
        rw [if_pos rfl, if_pos rfl, mem_upsert_iff ((InStep.run decision ops).distinct _), ih]
        by_cases hsource : r.source = route.source
        · rw [hsource, update_self, Option.some_inj]
          simp [eq_comm]
        · rw [update_of_ne hsource]
          constructor
          · rintro (rfl | ⟨h, -⟩)
            · exact absurd rfl hsource
            · exact h
          · exact fun h => .inr ⟨h, hsource⟩
      · rw [if_neg hpfx, if_neg fun h => hpfx h.symm, ih]
    | withdraw q peer =>
      simp only [apply, listed_withdraw, Op.announce]
      by_cases hpfx : q = pfx
      · subst hpfx
        rw [if_pos rfl, if_pos rfl, mem_filter, ih]
        by_cases hpeer : r.source.peer = peer
        · simp [hpeer]
        · simp [hpeer]
      · rw [if_neg hpfx, if_neg fun h => hpfx h.symm, ih]

theorem survivors_withdrawn {pfx : Prefix} {peer : FixedBytes 4} {source : RouteSource}
    (hsource : source.peer = peer) (before after : List Op)
    (hquiet : ∀ op ∈ after, ∀ route, op = .insert route → route.routePrefix = pfx →
      route.source.peer ≠ peer) :
    survivors pfx (before ++ .withdraw pfx peer :: after) source = none := by
  induction after using reverseRecOn with
  | nil =>
    rw [survivors_concat, Op.announce, if_pos rfl]
    exact if_pos hsource
  | append_singleton after op ih =>
    have hrec := ih fun op' hop' => hquiet op' (mem_append_left _ hop')
    rw [← cons_append, ← append_assoc, survivors_concat]
    cases op with
    | insert route =>
      simp only [Op.announce]
      split
      · rename_i hpfx
        have hne := hquiet _ (by simp) route rfl hpfx
        rw [update_of_ne, hrec]
        rintro rfl
        exact hne hsource
      · exact hrec
    | withdraw q peer' =>
      simp only [Op.announce]
      split
      · dsimp only
        rw [hrec, ite_self]
      · exact hrec

/-! ## What holds of every run -/

theorem isSome_selectBest_iff (routes : List Route) :
    (selectBest defaultDecision routes).isSome ↔ routes ≠ [] := by
  rw [selectBest_eq_heldAfter]
  constructor
  · rintro hsome rfl
    simp at hsome
  · intro hne
    obtain ⟨b, hb⟩ := exists_heldAfter id Preferred hne
    rw [hb]
    rfl

section SelectBest

variable {routes : List Route} {asn : Option Asn} {best : Route}

theorem not_preferred_selectBest (hasn : ∀ x ∈ routes, x.asPath.firstAsn = asn)
    (hbest : selectBest defaultDecision routes = some best) : ∀ x ∈ routes, ¬ Preferred x best := by
  rw [selectBest_eq_heldAfter] at hbest
  refine not_beats_heldAfter (f := id) Preferred.asymm ?_ hbest
  intro x hx y hy z hz hxy hyz
  exact hxy.trans hyz ((hasn x hx).trans (hasn y hy).symm) ((hasn y hy).trans (hasn z hz).symm)

theorem mem_of_selectBest (hbest : selectBest defaultDecision routes = some best) :
    best ∈ routes := by
  rw [selectBest_eq_heldAfter] at hbest
  exact mem_of_heldAfter id Preferred hbest

/-- Routes of distinct sources are not tied, so the best one stays so among fewer. -/
theorem selectBest_filter {p : Route → Bool} (hdistinct : (routes.map Route.source).Nodup)
    (hasn : ∀ x ∈ routes, x.asPath.firstAsn = asn)
    (hbest : selectBest defaultDecision routes = some best) (hp : p best = true) :
    selectBest defaultDecision (routes.filter p) = some best := by
  have hmem := mem_of_selectBest hbest
  have hkept := mem_filter.mpr ⟨hmem, hp⟩
  obtain ⟨b, hb⟩ := Option.isSome_iff_exists.mp
    ((isSome_selectBest_iff _).mpr (ne_nil_of_mem hkept))
  have hb' := mem_of_mem_filter (mem_of_selectBest hb)
  have hle : ¬ Preferred b best := not_preferred_selectBest hasn hbest b hb'
  have hge : ¬ Preferred best b :=
    not_preferred_selectBest (fun x hx => hasn x (mem_of_mem_filter hx)) hb best hkept
  rw [hb, inj_on_of_nodup_map hdistinct hb' hmem (source_eq_of_compare ?_)]
  unfold Preferred at hle hge
  rw [compare_swap] at hle
  cases h : DefaultDecision.compare (some b) best <;> simp_all

end SelectBest

/-- The selected route is selected again without those of the peer. -/
def Stays (rib : Rib) (pfx : Prefix) (peer : FixedBytes 4) : Prop :=
  ∃ r, rib.best pfx = some r ∧ selectBest defaultDecision
    ((rib.listed pfx).filter fun x => x.source.peer ≠ peer) = some r

section Withdraw

variable {rib : Rib} (h : InStep rib) (hdecision : rib.decision = defaultDecision)
include h hdecision

theorem listed_eq_nil {pfx : Prefix} (hnone : rib.best pfx = none) : rib.listed pfx = [] := by
  by_contra hne
  have := (isSome_selectBest_iff _).mpr hne
  rw [← hdecision, ← h.best, hnone] at this
  cases this

theorem withdraw_fst (pfx : Prefix) (peer : FixedBytes 4) :
    (rib.withdraw pfx peer).1 = (rib.best pfx).isSome := by
  have hafter := best_withdraw rib pfx pfx peer
  rw [if_pos rfl, hdecision] at hafter
  simp only [withdraw, best_dropPeer] at hafter ⊢
  cases hbefore : rib.best pfx with
  | some b => simp
  | none =>
    rw [hafter, listed_eq_nil h hdecision hbefore]
    rfl

theorem withdraw_exact_iff (pfx : Prefix) (peer : FixedBytes 4) :
    ((rib.withdraw pfx peer).1 = true ↔ (rib.withdraw pfx peer).2.best pfx ≠ rib.best pfx) ↔
      ¬ rib.Stays pfx peer := by
  rw [withdraw_fst h hdecision, best_withdraw, if_pos rfl, hdecision, Stays]
  cases hr : rib.best pfx with
  | some r => simp [Ne]
  | none => simp [listed_eq_nil h hdecision hr, selectBest]

end Withdraw

/-- **The invariant of a RIB over every run.**  The last parts are the exact extent to which
`withdraw` reports a change: unless the selected route stays, which it does, if the routes come
from one neighbouring AS, exactly if it is of another peer. -/
theorem runCalls_invariant (calls : List Call) :
    let rib := runCalls defaultDecision calls
    (∀ pfx, (rib.best pfx).isSome ↔ ∃ routes, rib.adj.lookup pfx = some routes ∧ routes ≠ []) ∧
    (∀ pfx r, rib.best pfx = some r → r ∈ rib.listed pfx) ∧
    (∀ pfx, ((rib.listed pfx).map fun r => (r.source.peer, r.source.isIbgp)).Nodup) ∧
    (∀ before after pfx peer, calls = before ++ .withdraw pfx peer :: after →
      (∀ c ∈ after, ∀ route, c.op = some (.insert route) → route.routePrefix = pfx →
        route.source.peer ≠ peer) →
      ∀ r ∈ rib.listed pfx, r.source.peer ≠ peer) ∧
    (∀ pfx asn r, (∀ x ∈ rib.listed pfx, x.asPath.firstAsn = asn) → rib.best pfx = some r →
      ∀ x ∈ rib.listed pfx, DefaultDecision.compare (some r) x ≠ .gt) ∧
    (∀ pfx peer,
      ((rib.withdraw pfx peer).1 = true ↔ (rib.withdraw pfx peer).2.best pfx ≠ rib.best pfx) ↔
      ¬ rib.Stays pfx peer) ∧
    (∀ pfx peer asn, (∀ x ∈ rib.listed pfx, x.asPath.firstAsn = asn) →
      (rib.Stays pfx peer ↔ ∃ r, rib.best pfx = some r ∧ r.source.peer ≠ peer)) := by
  intro rib
  have hrib : rib = run defaultDecision (calls.filterMap Call.op) := runCalls_eq _ calls
  have hstep : InStep rib := hrib ▸ InStep.run defaultDecision _
  have hdecision : rib.decision = defaultDecision := hrib ▸ decision_run defaultDecision _
  have hbest : ∀ pfx, rib.best pfx = selectBest defaultDecision (rib.listed pfx) := fun pfx => by
    rw [hstep.best, hdecision]
  refine ⟨?_, ?_, ?_, ?_, ?_, withdraw_exact_iff hstep hdecision, ?_⟩
  · intro pfx
    rw [hbest, isSome_selectBest_iff, listed]
    cases rib.adj.lookup pfx with
    | none => simp
    | some routes => simp
  · intro pfx r hr
    rw [hbest] at hr
    exact mem_of_selectBest hr
  · intro pfx
    have hinj : Injective fun s : RouteSource => (s.peer, s.isIbgp) := by
      rintro ⟨peer, isIbgp⟩ ⟨peer', isIbgp'⟩ h
      simpa using h
    have hmap := (hstep.distinct pfx).map hinj
    rwa [map_map] at hmap
  · intro before after pfx peer hcalls hquiet r hr hpeer
    have hops : calls.filterMap Call.op =
        before.filterMap Call.op ++ .withdraw pfx peer :: after.filterMap Call.op := by
      rw [hcalls, filterMap_append, filterMap_cons]
      rfl
    rw [hrib, mem_listed_iff, hops, survivors_withdrawn hpeer] at hr
    · cases hr
    · intro op hop route hroute
      obtain ⟨c, hc, hcop⟩ := mem_filterMap.mp hop
      exact hquiet c hc route (hroute ▸ hcop)
  · intro pfx asn r hasn hr x hx
    rw [hbest] at hr
    exact not_preferred_selectBest hasn hr x hx
  · intro pfx peer asn hasn
    refine exists_congr fun r => and_congr_right fun hr => ⟨fun h => ?_, fun hpeer => ?_⟩
    · exact of_decide_eq_true (mem_filter.mp (mem_of_selectBest h)).2
    · exact selectBest_filter (hstep.distinct pfx) hasn (hbest pfx ▸ hr) (decide_eq_true hpeer)

def samplePrefix : Prefix := .v4 ⟨⟨10 :: List.replicate 3 0, rfl⟩, 8⟩

def sampleRoute (peer asn : UInt8) (med : UInt32) : Route :=
  { routePrefix := samplePrefix
    origin := some .igp
    asPath := ⟨[⟨.sequence, [⟨asn.toUInt32⟩]⟩]⟩
    nextHop := none
    med := some med
    localPref := none
    aggregator := none
    communities := []
    source := ⟨⟨[10, 0, 0, peer], rfl⟩, false⟩ }

/-- Withdrawing a peer that never announced the prefix is reported as a change. -/
theorem withdraw_reports_no_change :
    let rib := runCalls defaultDecision [.insert (sampleRoute 1 100 0)]
    let peer : FixedBytes 4 := ⟨[10, 0, 0, 2], rfl⟩
    (rib.withdraw samplePrefix peer).1 = true ∧
      (rib.withdraw samplePrefix peer).2.best samplePrefix = rib.best samplePrefix := by
  decide +kernel

end Rib

end TptRfc.Bgp
