import TptRfc.Bgp.Attributes
import TptRfc.Lib.Champion

/-!
# BGP: the decision process

`DefaultDecision` compares two routes criterion by criterion, and the selected route of a prefix is
a left fold of that comparison over its routes.
-/

namespace TptRfc.Bgp

open Lib

structure RouteSource where
  peer : FixedBytes 4
  isIbgp : Bool
  deriving DecidableEq

structure Route where
  routePrefix : Prefix
  origin : Option Origin
  asPath : AsPath
  nextHop : Option NextHop
  med : Option UInt32
  localPref : Option UInt32
  aggregator : Option Aggregator
  communities : List UInt32
  source : RouteSource
  deriving DecidableEq

structure DecisionProcess where
  compare : Option Route → Route → Ordering

def DefaultDecision.compare (currentBest : Option Route) (candidate : Route) : Ordering :=
  match currentBest with
  | none => .gt
  | some cur =>
    -- (a) highest LOCAL_PREF
    let lpCur := cur.localPref.getD 0
    let lpCan := candidate.localPref.getD 0
    if lpCur ≠ lpCan then (Ord.compare lpCur lpCan).swap
    else
      -- (b) shortest AS_PATH, in segments
      let apCur := cur.asPath.pathLength
      let apCan := candidate.asPath.pathLength
      if apCur ≠ apCan then Ord.compare apCur apCan
      else
        -- (c) lowest ORIGIN
        let oCur := (cur.origin.map Origin.toU8).getD 3
        let oCan := (candidate.origin.map Origin.toU8).getD 3
        if oCur ≠ oCan then Ord.compare oCur oCan
        else
          -- (d) lowest MULTI_EXIT_DISC, among routes from the same neighbouring AS
          let mCur := cur.med.getD 0
          let mCan := candidate.med.getD 0
          if cur.asPath.firstAsn = candidate.asPath.firstAsn ∧ mCur ≠ mCan then
            Ord.compare mCur mCan
          -- (e) eBGP over iBGP
          else if cur.source.isIbgp ≠ candidate.source.isIbgp then
            if candidate.source.isIbgp then .lt else .gt
          -- (f)/(g) lowest identifier of the advertising speaker
          else Ord.compare cur.source.peer.val candidate.source.peer.val

def defaultDecision : DecisionProcess := ⟨DefaultDecision.compare⟩

def selectBest (decision : DecisionProcess) (routes : List Route) : Option Route :=
  routes.foldl
    (fun best r => if decision.compare best r = .gt then some r else best) none

/-! ## The comparison as a chain of criteria -/

section Chain

variable {α : Type} [Ord α] [Std.LawfulEqOrd α] [DecidableEq α]

theorem ite_ne_compare (x y : α) (rest : Ordering) :
    (if x ≠ y then compare x y else rest) = (compare x y).then rest := by
  by_cases h : x = y
  · subst h
    rw [if_neg (not_not_intro rfl), Std.ReflOrd.compare_self]
    rfl
  · rw [if_pos h]
    cases hc : compare x y with
    | lt => rfl
    | gt => rfl
    | eq => exact absurd (Std.LawfulEqOrd.eq_of_compare hc) h

theorem ite_ne_compare_swap [Std.TransOrd α] (x y : α) (rest : Ordering) :
    (if x ≠ y then (compare x y).swap else rest) = (compare y x).then rest := by
  rw [← ite_ne_compare y x rest, ← Std.OrientedOrd.eq_swap]
  simp only [ne_comm]

end Chain

theorem ite_ne_ibgp (cur can : Bool) (rest : Ordering) :
    (if cur ≠ can then (if can then Ordering.lt else Ordering.gt) else rest) =
      (compare cur can).then rest := by
  cases cur <;> cases can <;> rfl

def criteria (sameNeighbour : Bool) : Route → Route → Ordering :=
  compareLex (fun cur can => compare (can.localPref.getD 0) (cur.localPref.getD 0))
    (compareLex (compareOn fun r => r.asPath.pathLength)
      (compareLex (compareOn fun r => (r.origin.map Origin.toU8).getD 3)
        (compareLex (compareOn fun r => if sameNeighbour then r.med.getD 0 else 0)
          (compareLex (compareOn fun r => r.source.isIbgp)
            (compareOn fun r => r.source.peer.val)))))

instance (sameNeighbour : Bool) : Std.TransCmp (criteria sameNeighbour) := by
  have : Std.TransCmp fun cur can : Route =>
      compare (can.localPref.getD 0) (cur.localPref.getD 0) :=
    @Std.TransCmp.opposite Route (compareOn fun r => r.localPref.getD 0) _
  unfold criteria
  infer_instance

theorem compare_some (cur can : Route) : DefaultDecision.compare (some cur) can =
      criteria (cur.asPath.firstAsn = can.asPath.firstAsn) cur can := by
  simp only [DefaultDecision.compare, ite_ne_ibgp, ite_ne_compare_swap, ite_ne_compare]
  by_cases hasn : cur.asPath.firstAsn = can.asPath.firstAsn
  · simp only [hasn, true_and, ite_ne_compare, decide_true]
    rfl
  · simp only [hasn, false_and, if_false, decide_false]
    rfl

theorem compare_swap (a b : Route) :
    DefaultDecision.compare (some a) b = (DefaultDecision.compare (some b) a).swap := by
  rw [compare_some, compare_some, @Std.OrientedCmp.eq_swap _ (criteria _)]
  simp only [eq_comm]

theorem source_eq_iff (a b : RouteSource) : a.peer = b.peer ∧ a.isIbgp = b.isIbgp ↔ a = b := by
  cases a
  cases b
  simp

theorem source_eq_of_compare {a b : Route} (h : DefaultDecision.compare (some a) b = .eq) :
    a.source = b.source := by
  simp only [compare_some, criteria, compareLex_eq_eq, compareOn, Std.compare_eq_iff_eq] at h
  obtain ⟨-, -, -, -, hibgp, hpeer⟩ := h
  exact (source_eq_iff _ _).mp ⟨Subtype.ext hpeer, hibgp⟩

/-! ## Preference -/

def Preferred (a b : Route) : Prop := DefaultDecision.compare (some b) a = .gt

instance : DecidableRel Preferred := fun a b => by
  unfold Preferred
  infer_instance

theorem Preferred.asymm (a b : Route) (h : Preferred a b) : ¬ Preferred b a := by
  unfold Preferred at h ⊢
  rw [compare_swap, h]
  decide

theorem Preferred.trans {a b c : Route} (hab : Preferred a b) (hbc : Preferred b c)
    (hb : a.asPath.firstAsn = b.asPath.firstAsn) (hc : b.asPath.firstAsn = c.asPath.firstAsn) :
    Preferred a c := by
  unfold Preferred at *
  rw [compare_some] at *
  simp only [hb, hc, decide_true] at *
  exact Std.TransCmp.gt_trans hbc hab

theorem selectBest_eq_heldAfter (routes : List Route) :
    selectBest defaultDecision routes = heldAfter id Preferred routes := by
  unfold selectBest heldAfter
  congr 1
  funext best r
  cases best with
  | none => rfl
  | some b => rfl

/-! ## The length of an AS path -/

end TptRfc.Bgp
