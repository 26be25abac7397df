import TptRfc.Bgp.Wire

/-!
# BGP: the peer state machine

`onEvent` takes an event and returns the actions that the caller has to perform.
-/

namespace TptRfc.Bgp

open Lib List

inductive FsmState where
  | idle
  | connect
  | active
  | openSent
  | openConfirm
  | established
  deriving DecidableEq

inductive FsmEvent where
  | manualStart
  | manualStop
  | tcpConnectionValid
  | tcpConnectionFailed
  | tcpConnectionOpened
  | tcpClose
  | bgpOpenValid (remote : FixedBytes 4)
  | bgpOpenInvalid (n : Notification)
  | notificationReceived (n : Notification)
  | keepaliveReceived
  | holdTimerExpired
  | keepaliveTimerExpired
  | delayOpenTimerExpired
  | idleHoldTimerExpired
  deriving DecidableEq

inductive FsmAction where
  | initiateTcpConnection
  | releaseTcpConnection
  | sendOpen
  | sendKeepalive
  | sendNotification (n : Notification)
  | startConnectRetryTimer
  | startHoldTimer
  | startKeepaliveTimer
  | startDelayOpenTimer
  | startIdleHoldTimer
  deriving DecidableEq

structure Fsm where
  state : FsmState
  localBgpId : FixedBytes 4
  remoteBgpId : Option (FixedBytes 4)

namespace Fsm

def new (localBgpId : FixedBytes 4) : Fsm := ⟨.idle, localBgpId, none⟩

def cease : Notification := ⟨6, 0, []⟩

def transition (f : Fsm) (event : FsmEvent) : List FsmAction × FsmState × Option (FixedBytes 4) :=
  let start := [.initiateTcpConnection, .startConnectRetryTimer, .startDelayOpenTimer]
  let release := [.releaseTcpConnection, .startIdleHoldTimer]
  let stay (actions : List FsmAction) := (actions, f.state, f.remoteBgpId)
  let go (next : FsmState) (actions : List FsmAction) := (actions, next, f.remoteBgpId)
  match f.state, event with
  | .idle, .manualStart | .idle, .idleHoldTimerExpired => go .connect start
  | .connect, .manualStop | .active, .manualStop => go .idle release
  | .connect, .tcpConnectionValid | .connect, .tcpConnectionOpened
  | .connect, .delayOpenTimerExpired | .active, .tcpConnectionValid
  | .active, .tcpConnectionOpened | .active, .delayOpenTimerExpired =>
    go .openSent [.sendOpen, .startHoldTimer]
  | .connect, .tcpConnectionFailed => go .idle [.startConnectRetryTimer, .startIdleHoldTimer]
  | .connect, .bgpOpenInvalid n => go .idle (.sendNotification n :: release)
  | .active, .tcpConnectionFailed => go .connect start
  | .openSent, .manualStop | .openConfirm, .manualStop | .established, .manualStop
  | .established, .tcpClose | .established, .holdTimerExpired | .established, .bgpOpenInvalid _
  | .established, .notificationReceived _ => go .idle (.sendNotification cease :: release)
  | .openSent, .tcpConnectionValid | .openSent, .tcpConnectionOpened =>
    match f.remoteBgpId with
    | some remote =>
      if f.localBgpId.val ≤ remote.val then stay [.releaseTcpConnection] else go .idle release
    | none => stay [.sendOpen]
  | .openSent, .bgpOpenValid remote =>
    ([.sendKeepalive, .startKeepaliveTimer], .openConfirm, some remote)
  | .openSent, .bgpOpenInvalid n | .openConfirm, .bgpOpenInvalid n =>
    go .idle (.sendNotification n :: release)
  | .openSent, .notificationReceived _ | .openConfirm, .tcpClose | .openConfirm, .holdTimerExpired
  | .openConfirm, .notificationReceived _ => go .idle release
  | .openSent, .holdTimerExpired => go .idle (.sendNotification ⟨4, 0, []⟩ :: release)
  | .openSent, .tcpClose => go .idle [.startIdleHoldTimer]
  | .openConfirm, .tcpConnectionValid | .openConfirm, .tcpConnectionOpened =>
    match f.remoteBgpId with
    | some remote =>
      if f.localBgpId.val ≤ remote.val then stay [.releaseTcpConnection]
      else go .idle (.sendNotification cease :: release)
    | none => stay []
  | .openConfirm, .keepaliveReceived | .established, .keepaliveReceived =>
    go .established [.startHoldTimer]
  | .established, .keepaliveTimerExpired => stay [.sendKeepalive, .startKeepaliveTimer]
  | _, _ => stay []

def onEvent (f : Fsm) (event : FsmEvent) : List FsmAction × Fsm :=
  let (actions, next, remote) := f.transition event
  (actions, { f with state := next, remoteBgpId := if next = .idle then none else remote })

inductive Steps (f : Fsm) (event : FsmEvent) : List FsmAction → Fsm → Prop
  | idle {actions : List FsmAction} (h : f.state ∈ [.openSent, .openConfirm, .established] →
      event ≠ .tcpClose → .releaseTcpConnection ∈ actions) :
    Steps f event actions { f with state := .idle, remoteBgpId := none }
  | opening {actions : List FsmAction} {next : FsmState}
      (hstate : f.state ∈ [.idle, .connect, .active]) (hnext : next ∈ [.connect, .active]) :
    Steps f event actions { f with state := next }
  | openSent {actions : List FsmAction}
      (h : f.state ∈ [.connect, .active] ∧ .sendOpen ∈ actions ∨ f.state = .openSent) :
    Steps f event actions { f with state := .openSent }
  | openValid {actions : List FsmAction} (remote : FixedBytes 4) (hstate : f.state = .openSent)
      (hevent : event = .bgpOpenValid remote) :
    Steps f event actions { f with state := .openConfirm, remoteBgpId := some remote }
  | keepalive {actions : List FsmAction} (hstate : f.state = .openConfirm)
      (hevent : event = .keepaliveReceived) :
    Steps f event actions { f with state := .established }
  | unchanged {actions : List FsmAction} (hstate : f.state ∈ [.openConfirm, .established]) :
    Steps f event actions f

theorem steps_onEvent (f : Fsm) (event : FsmEvent) :
    Steps f event (f.onEvent event).1 (f.onEvent event).2 := by
  obtain ⟨state, localBgpId, remoteBgpId⟩ := f
  cases state with
  | idle =>
    cases event with
    | manualStart | idleHoldTimerExpired => exact .opening (by simp) (by simp)
    | _ => exact .idle (by simp)
  | connect =>
    cases event with
    | manualStop | tcpConnectionFailed | bgpOpenInvalid => exact .idle (by simp)
    | tcpConnectionValid | tcpConnectionOpened | delayOpenTimerExpired =>
      exact .openSent (.inl ⟨by simp, mem_cons_self⟩)
    | _ => exact .opening (by simp) (by simp)
  | active =>
    cases event with
    | manualStop => exact .idle (by simp)
    | tcpConnectionValid | tcpConnectionOpened | delayOpenTimerExpired =>
      exact .openSent (.inl ⟨by simp, mem_cons_self⟩)
    | _ => exact .opening (by simp) (by simp)
  | openSent =>
    cases event with
    | manualStop | bgpOpenInvalid | holdTimerExpired =>
      exact .idle fun _ _ => mem_cons_of_mem _ mem_cons_self
    | notificationReceived => exact .idle fun _ _ => mem_cons_self
    | tcpClose => exact .idle fun _ h => absurd rfl h
    | bgpOpenValid remote => exact .openValid remote rfl rfl
    | tcpConnectionValid | tcpConnectionOpened =>
      cases remoteBgpId with
      | none => exact .openSent (.inr rfl)
      | some remote =>
        by_cases h : localBgpId.val ≤ remote.val
        · simp only [onEvent, transition, if_pos h]
          exact .openSent (.inr rfl)
        · simp only [onEvent, transition, if_neg h]
          exact .idle fun _ _ => mem_cons_self
    | _ => exact .openSent (.inr rfl)
  | openConfirm =>
    cases event with
    | manualStop | bgpOpenInvalid => exact .idle fun _ _ => mem_cons_of_mem _ mem_cons_self
    | tcpClose | holdTimerExpired | notificationReceived => exact .idle fun _ _ => mem_cons_self
    | keepaliveReceived => exact .keepalive rfl rfl
    | tcpConnectionValid | tcpConnectionOpened =>
      cases remoteBgpId with
      | none => exact .unchanged (by simp)
      | some remote =>
        by_cases h : localBgpId.val ≤ remote.val
        · simp only [onEvent, transition, if_pos h]
          exact .unchanged (by simp)
        · simp only [onEvent, transition, if_neg h]
          exact .idle fun _ _ => mem_cons_of_mem _ mem_cons_self
    | _ => exact .unchanged (by simp)
  | established =>
    cases event with
    | manualStop | tcpClose | holdTimerExpired | bgpOpenInvalid | notificationReceived =>
      exact .idle fun _ _ => mem_cons_of_mem _ mem_cons_self
    | _ => exact .unchanged (by simp)

/-! ## Runs -/

def runFrom (f : Fsm) (events : List FsmEvent) : Fsm := events.foldl (fun f e => (f.onEvent e).2) f

def sinceIdle (f : Fsm) (log : List (FsmEvent × List FsmAction)) :
    List FsmEvent → List (FsmEvent × List FsmAction)
  | [] => log
  | e :: events =>
    let (actions, f') := f.onEvent e
    sinceIdle f' (if f'.state = .idle then [] else log ++ [(e, actions)]) events

def Opened (log : List (FsmEvent × List FsmAction)) : Prop :=
  ∃ e actions remote actions', FsmAction.sendOpen ∈ actions ∧
    [(e, actions), (.bgpOpenValid remote, actions')] <+ log

structure Inv (f : Fsm) (log : List (FsmEvent × List FsmAction)) : Prop where
  remote : f.remoteBgpId.isSome ↔ f.state = .openConfirm ∨ f.state = .established
  sent : f.state = .openSent → ∃ entry ∈ log, FsmAction.sendOpen ∈ entry.2
  opened : f.state = .openConfirm ∨ f.state = .established → Opened log

variable {f f' : Fsm} {log : List (FsmEvent × List FsmAction)} {e : FsmEvent}
  {actions : List FsmAction}

theorem Opened.append (h : Opened log) (more : List (FsmEvent × List FsmAction)) :
    Opened (log ++ more) := by
  obtain ⟨e, actions, remote, actions', hsent, hsub⟩ := h
  exact ⟨e, actions, remote, actions', hsent, hsub.trans (sublist_append_left _ _)⟩

theorem Inv.step (h : Inv f log) (hstep : Steps f e actions f') :
    Inv f' (if f'.state = .idle then [] else log ++ [(e, actions)]) := by
  have hnone : ∀ {state}, f.state = state → state ≠ .openConfirm → state ≠ .established →
      f.remoteBgpId = none := by
    rintro _ rfl hconfirm hestablished
    exact Option.not_isSome_iff_eq_none.mp fun hsome =>
      (h.remote.mp hsome).elim hconfirm hestablished
  cases hstep with
  | idle => exact ⟨by simp, by simp, by simp⟩
  | opening hstate hnext =>
    have hremote : f.remoteBgpId = none := by
      simp only [mem_cons, not_mem_nil, or_false] at hstate
      rcases hstate with hs | hs | hs <;> exact hnone hs (by simp) (by simp)
    simp only [mem_cons, not_mem_nil, or_false] at hnext
    rcases hnext with rfl | rfl <;> exact ⟨by simp [hremote], by simp, by simp⟩
  | openSent hsent =>
    refine ⟨?_, fun _ => ?_, by simp⟩
    · have hremote : f.remoteBgpId = none := by
        rcases hsent with ⟨hs, -⟩ | hs
        · simp only [mem_cons, not_mem_nil, or_false] at hs
          rcases hs with hs | hs <;> exact hnone hs (by simp) (by simp)
        · exact hnone hs (by simp) (by simp)
      simp [hremote]
    · rcases hsent with ⟨-, hsent⟩ | hs
      · exact ⟨(e, actions), by simp, hsent⟩
      · obtain ⟨entry, hentry, hsent⟩ := h.sent hs
        exact ⟨entry, by simp [hentry], hsent⟩
  | openValid remote hstate hevent =>
    refine ⟨by simp, by simp, fun _ => ?_⟩
    obtain ⟨⟨e₁, actions₁⟩, hentry, hsent⟩ := h.sent hstate
    refine ⟨e₁, actions₁, remote, actions, hsent, ?_⟩
    rw [if_neg (by simp), ← hevent]
    exact (singleton_sublist.mpr hentry).append_right [(e, actions)]
  | keepalive hstate _ =>
    have hsome := h.remote.mpr (.inl hstate)
    refine ⟨by simp [hsome], by simp, fun _ => ?_⟩
    exact (h.opened (.inl hstate)).append _
  | unchanged hstate =>
    simp only [mem_cons, not_mem_nil, or_false] at hstate
    rw [if_neg (by rcases hstate with hs | hs <;> rw [hs] <;> simp)]
    refine ⟨h.remote, ?_, fun hs => (h.opened hs).append _⟩
    rcases hstate with hs | hs <;> simp [hs]

theorem Inv.run (h : Inv f log) (events : List FsmEvent) :
    Inv (runFrom f events) (sinceIdle f log events) := by
  induction events generalizing f log with
  | nil => exact h
  | cons e events ih => exact ih (h.step (steps_onEvent f e))

/-- **The invariant of a run.**  The identifier of the peer is known exactly in the last two
states; the session is established only by a KEEPALIVE, after an OPEN was sent and another
accepted since the machine was idle; and a session that ends releases its connection, if that
is not closed. -/
theorem run_invariant (localBgpId : FixedBytes 4) (events : List FsmEvent) (e : FsmEvent) :
    let f := runFrom (new localBgpId) events
    (f.remoteBgpId.isSome ↔ f.state = .openConfirm ∨ f.state = .established) ∧
      (f.state ≠ .established → (f.onEvent e).2.state = .established →
        e = .keepaliveReceived ∧ Opened (sinceIdle (new localBgpId) [] events)) ∧
      (f.state ∈ [.openSent, .openConfirm, .established] → (f.onEvent e).2.state = .idle →
        e ≠ .tcpClose → .releaseTcpConnection ∈ (f.onEvent e).1) := by
  have hnew : Inv (new localBgpId) [] := ⟨by simp [new], by simp [new], by simp [new]⟩
  have hinv := hnew.run events
  intro f
  have hsteps := steps_onEvent f e
  generalize (f.onEvent e).1 = actions, (f.onEvent e).2 = f' at hsteps ⊢
  refine ⟨hinv.remote, fun hbefore hafter => ?_, fun hbefore hafter hclose => ?_⟩
  · cases hsteps with
    | idle | openSent | openValid => cases hafter
    | opening _ hnext => cases hafter; simp at hnext
    | keepalive hstate hevent => exact ⟨hevent, hinv.opened (.inl hstate)⟩
    | unchanged => exact absurd hafter hbefore
  · cases hsteps with
    | idle h => exact h hbefore hclose
    | opening _ hnext => cases hafter; simp at hnext
    | openSent | openValid | keepalive => cases hafter
    | unchanged => rw [hafter] at hbefore; simp at hbefore

end Fsm

end TptRfc.Bgp
