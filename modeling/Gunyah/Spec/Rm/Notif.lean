import Gunyah.Impl.Rm.Notif
import Gunyah.Spec.Rm.Series

/-!
# The way of a notification

The RM sends notifications, the receive task gets their messages in that order
and queues a work item for each notification that is complete, and the work
items, which call the notifier chain, run in any order. The history says what
the RM has sent (`sent`), what the chain has been called with (`called`),
whether every work item so far was the one queued first (`inOrder`), and
whether every allocation of the receive task has succeeded (`noFail`).
-/

namespace GH.Spec.Rm

open GH.Impl GH.Impl.Rm

/-- The call of the notifier chain for a series that is received as it was sent. -/
def seriesNotification (x : List Byte × List (List Byte)) : Option Notification :=
  (ghRmValidateNotif (rpcHdr x.1).msgId (seriesPayload (x.1 :: x.2))).map ((rpcHdr x.1).msgId, ·)

/-- The driver, with the notifications that were sent to it and the ones that its listeners were called with. -/
structure NotifState where
  core : Core
  /-- The messages on the way to the receive task. -/
  rxq : List (List Byte)
  sent : List (List Byte × List (List Byte))
  called : List Notification
  inOrder : Bool
  noFail : Bool

/-- Nothing has been sent. -/
def NotifState.init : NotifState := ⟨Core.init, [], [], [], true, true⟩

/-- The calls of the chain that the queued work items are going to make. -/
def NotifState.queued (s : NotifState) : List Notification :=
  s.core.works.filterMap fun a => (s.core.heap a).bind Connection.notification

/-- What the RM, the receive task and the worker do. -/
inductive NotifAct where
  /-- The RM sends a notification. -/
  | notif (start : List Byte) (conts : List (List Byte))
  /-- The receive task gets the next message. -/
  | recv (env : RecvEnv)
  /-- A work item runs. -/
  | work (a : Addr)

/-- A notification that the RM may send: a series of the protocol, with a payload
of the right size. -/
def IsNotification (start : List Byte) (conts : List (List Byte)) : Prop :=
  WellFormed start conts ∧ (rpcHdr start).type = GH_RM_RPC_TYPE_NOTIF ∧ seriesNotification (start, conts) ≠ none

instance (start : List Byte) (conts : List (List Byte)) : Decidable (IsNotification start conts) :=
  inferInstanceAs (Decidable (_ ∧ _ ∧ _))

/-- One such step, `none` where it is not enabled. -/
def notifStep (s : NotifState) : NotifAct → Option NotifState
  | .notif start conts =>
    if IsNotification start conts then
      some { s with rxq := s.rxq ++ start :: conts, sent := s.sent ++ [(start, conts)] }
    else none
  | .recv env =>
    match s.rxq with
    | m :: rest =>
      (step s.core (.recv m env)).map fun core =>
        { s with core := core, rxq := rest,
                 noFail := s.noFail && env.connection && env.payload && env.work }
    | [] => none
  | .work a =>
    (step s.core (.notifWork a)).map fun core =>
      { s with core := core
               called := s.called ++ ((s.core.heap a).bind Connection.notification).toList
               inOrder := s.inOrder && s.core.works.head? == some a }

/-- The chain is called in the order in which the RM sent the notifications. -/
def CalledInOrder (s : NotifState) : Prop := s.called.Sublist (s.sent.filterMap seriesNotification)

/-- Each notification's work item, if it got one, calls the chain for it, once; in
the order in which they were sent, if the work items run in the order in which
they were queued. -/
structure CalledOnce (s : NotifState) : Prop where
  once : ∃ done, done.Sublist (s.sent.filterMap seriesNotification) ∧ (s.called ++ s.queued).Perm done
  order : s.inOrder = true → (s.called ++ s.queued).Sublist (s.sent.filterMap seriesNotification)
  all : s.noFail = true → s.rxq = [] → (s.called ++ s.queued).Perm (s.sent.filterMap seriesNotification)

end GH.Spec.Rm
