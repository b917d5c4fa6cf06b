import Gunyah.Impl.Vm.Life
import Gunyah.Framework.Run

/-!
# The life of a VM

The stages that the RM takes a VM through, and which requests it can be asked for in
each (`Book.allows`): the image is configured, authenticated and initialized in this order, and the
VM is started once the RM has said that it is ready; it is reset while it still runs only if
it could not be stopped; and the RM is asked to take the VMID back last. The log of a VM is `InTurn` if each
request in it is for the last VMID that was allocated, and allowed where it is made.

What this takes of the rest of the world is `Book.fair`: the RM says that the VM is ready, that it
has exited or that it is reset once, when it is; and user space does not load a VM again
that has been started.
-/

namespace GH.Spec.Life

open GH.Impl.Rm GH.Impl.Life

/-- How far the RM has taken a VM. -/
inductive Stage where
  /-- There is no VMID. -/
  | unknown
  | loaded
  | configured
  | authed
  | inited
  | ready
  | running
  | exited
  | resetting
  | reset
  /-- The RM has been asked to take the VMID back. -/
  | gone
  deriving DecidableEq, Repr

/-- What the log tells of the last VMID. -/
structure Book where
  stage : Stage := .unknown
  vmid : VmId := 0
  /-- A request to stop the VM has failed. -/
  refused : Bool := false
  deriving DecidableEq, Repr

/-- The stage after a request that succeeds. -/
def Stage.next (s : Stage) : Req → Stage
  | .configImage => .configured
  | .authImage => .authed
  | .vmInit => .inited
  | .vmStart => .running
  | .vmReset => .resetting
  | .allocVmid | .populateHypRes | .vmStop | .unpopulateHypRes | .deallocVmid => s

/-- The book after an event. -/
def Book.after (b : Book) : Event → Book
  | .ask .allocVmid vmid ok => if ok then ⟨.loaded, vmid, false⟩ else b
  | .ask .deallocVmid _ _ => { b with stage := .gone }
  | .ask .vmStop _ ok => if ok then b else { b with refused := true }
  | .ask r _ ok => if ok then { b with stage := b.stage.next r } else b
  | .said .ready _ => { b with stage := .ready }
  | .said .exited _ => { b with stage := .exited }
  | .said .reset _ => { b with stage := .reset }

/-- The book of a log. -/
def book (log : List Event) : Book := log.foldl Book.after {}

/-- The driver has done what it can to stop the VM. -/
def Book.stopTried (b : Book) : Prop := b.refused = true ∨ b.vmid = 0

instance (b : Book) : Decidable b.stopTried := inferInstanceAs (Decidable (_ ∨ _))

/-- The request can be made at this stage. -/
def Book.allows (b : Book) : Req → Prop
  | .allocVmid => True
  | .configImage => b.stage = .loaded
  | .authImage => b.stage = .configured
  | .vmInit => b.stage = .authed
  | .populateHypRes | .vmStart => b.stage = .ready
  | .vmStop => b.stage = .running ∨ b.stage = .exited
  | .unpopulateHypRes => b.stage = .ready ∨ b.stage = .exited ∨ b.stage = .running ∧ b.stopTried
  | .vmReset =>
    b.stage ∈ [.configured, .authed, .ready, .exited] ∨ b.stage = .running ∧ b.stopTried
  | .deallocVmid => b.stage ∉ [.unknown, .inited, .resetting, .gone]

/-- A request is made in turn. -/
def Book.inTurn (b : Book) : Event → Prop
  | .ask .allocVmid _ _ => b.stage ∉ [.resetting, .reset, .gone]
  | .ask r vmid _ => vmid = b.vmid ∧ b.allows r
  | .said .. => True

/-- Every event of the log comes in turn, from a book on. -/
def InTurn : Book → List Event → Prop
  | _, [] => True
  | b, e :: log => b.inTurn e ∧ InTurn (b.after e) log

/-- The stage in which the RM says this. -/
def saidAt : Said → Stage
  | .ready => .inited
  | .exited => .running
  | .reset => .resetting

/-- The event is one that the rest of the world brings about where it is. -/
def Book.fair (b : Book) : Event → Prop
  | .ask .allocVmid _ true => b.stage ∈ [.unknown, .loaded, .configured, .authed, .ready]
  | .ask .. => True
  | .said x vmid => vmid = b.vmid ∧ b.stage = saidAt x

instance (b : Book) (e : Event) : Decidable (b.fair e) := by
  unfold Book.fair
  split <;> infer_instance

/-- What a step adds to the log is fair. -/
def Fair {n : Nat} (s : VmLife n) (_ : Act n) (t : VmLife n) : Prop :=
  ∀ e ∈ t.log.drop s.log.length, (book s.log).fair e

instance {n : Nat} (s : VmLife n) (a : Act n) (t : VmLife n) : Decidable (Fair s a t) :=
  inferInstanceAs (Decidable (∀ e ∈ _, _))

/-- The VMIDs that were allocated. -/
def allocated (log : List Event) : List VmId :=
  log.filterMap fun
    | .ask .allocVmid vmid true => some vmid
    | _ => none

/-- The VMIDs that the RM was asked to take back, whatever it has answered. -/
def returned (log : List Event) : List VmId :=
  log.filterMap fun
    | .ask .deallocVmid vmid _ => some vmid
    | _ => none

end GH.Spec.Life
