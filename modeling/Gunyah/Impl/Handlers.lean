import Gunyah.Impl.IrqLend
import Gunyah.Impl.Vm.Main

/-!
# The handlers of the notifier chain

The handlers that `gh_rm_core.c`, `gh_mem_notifier.c`, `hvc_gunyah.c` and
`gh_guest_pops.c` register; those of `gh_irq_lend.c` and `gh_main.c` are in
`Impl.IrqLend` and `Impl.Vm.Main`. Each is called for every notification. What
the functions that they call answer is an input.
-/

namespace GH.Impl.Handlers

open GH.Impl.Rm GH.Impl.Irq GH.Impl.Main

/-! ## The status of VMs -/

/-- What the functions that `gh_vm_status_nb_handler` calls answer:
`gh_rm_get_vm_id_info`, `gh_rm_get_vm_name` and `gh_rm_get_vminfo`, which gives
the name in `vm_info`. -/
structure StatusNbEnv where
  vmIdInfo : VmId → Int
  vmName : VmId → Except Int VmName
  vminfo : VmName → Except Int (Option Addr)

/-- `gh_vm_status_nb_handler`, which returns `NOTIFY_DONE`: its call of
`gh_rm_populate_hyp_res`, if it makes one. -/
def ghVmStatusNbHandler (env : StatusNbEnv) (cmd : BitVec 32) : ReadM (Option (VmId × Option Addr)) := do
  let vmStatus ← readU8 4
  if cmd ≠ GH_RM_NOTIF_VM_STATUS then pure none
  else
    -- every status is printed with the VMID
    let vmid ← readU16 0
    if vmStatus = GH_RM_VM_STATUS_READY then
      if env.vmIdInfo vmid < 0 then pure none
      else
        match env.vmName vmid with
        | .error _ => pure none
        | .ok vmName =>
          match env.vminfo vmName with
          | .error _ => pure (some (vmid, none))
          | .ok name => pure (some (vmid, name))
    else pure none

/-! ## Memory -/

/-- `GH_MEM_NOTIFIER_TAG_MAX`. -/
abbrev GH_MEM_NOTIFIER_TAG_MAX : Nat := 7

/-- `mem_notifier_entries`: the handler and the data of each tag. -/
abbrev MemNotifierEntries := Fin GH_MEM_NOTIFIER_TAG_MAX → Option Addr × Addr

/-- `gh_mem_notifier_get_tag`. -/
def ghMemNotifierGetTag (action : BitVec 32) : ReadM (BitVec 32) :=
  if action = GH_RM_NOTIF_MEM_SHARED then readU32 16
  else if action = GH_RM_NOTIF_MEM_RELEASED then readU32 8
  else readU32 8

/-- `gh_mem_notifier_call`: what it returns, and the handler that it calls with the
data. -/
def ghMemNotifierCall (entries : MemNotifierEntries) (action : BitVec 32) : ReadM (Int × Option (Addr × Addr)) :=
  if action ≠ GH_RM_NOTIF_MEM_SHARED ∧ action ≠ GH_RM_NOTIF_MEM_RELEASED ∧ action ≠ GH_RM_NOTIF_MEM_ACCEPTED then
    pure (NOTIFY_DONE, none)
  else do
    let tag ← ghMemNotifierGetTag action
    if h : tag.toNat < GH_MEM_NOTIFIER_TAG_MAX then
      let (handler, data) := entries ⟨tag.toNat, h⟩
      pure (NOTIFY_OK, handler.map (·, data))
    else pure (NOTIFY_DONE, none)

/-! ## The console -/

/-- `gh_hvc_notify_console_chars`: what it returns, and the bytes that are put into
the `get_fifo` of a VM, which has room for `room` bytes. -/
def ghHvcNotifyConsoleChars (getVmName : VmId → Except Int VmName) (room : VmName → Nat) (cmd : BitVec 32) :
    ReadM (Int × Option (VmName × List Byte)) :=
  if cmd ≠ GH_RM_NOTIF_VM_CONSOLE_CHARS then pure (NOTIFY_DONE, none)
  else do
    let vmid ← readU16 0
    match getVmName vmid with
    | .error _ => pure (NOTIFY_OK, none)
    | .ok vmName =>
      let numBytes ← readU16 2
      let bytes ← readBytes 4 (min numBytes.toNat (room vmName))
      pure (NOTIFY_OK, some (vmName, bytes))

/-! ## Shutdown -/

/-- The reasons to stop a VM. -/
def GH_VM_STOP_SHUTDOWN : BitVec 32 := 0
def GH_VM_STOP_RESTART : BitVec 32 := 1
def GH_VM_STOP_CRASH : BitVec 32 := 2

/-- What a guest does when it is to stop. -/
inductive PopsAct where
  /-- It presses the power key, for so many milliseconds. -/
  | power (ms : Nat)
  | crash
  deriving DecidableEq, Repr

/-- `gh_guest_pops_vm_shutdown`, which returns 0. -/
def ghGuestPopsVmShutdown : ReadM (Option PopsAct) := do
  let stopReason ← readU32 0
  if stopReason = GH_VM_STOP_SHUTDOWN then pure (some (.power 1000))
  else if stopReason = GH_VM_STOP_CRASH then pure (some .crash)
  else if stopReason = GH_VM_STOP_RESTART then pure (some (.power 500))
  else pure none

/-- `gh_guest_pops_rm_notifer_fn`, which returns 0 (`NOTIFY_DONE`). -/
def ghGuestPopsRmNotiferFn (cmd : BitVec 32) : ReadM (Option PopsAct) :=
  if cmd = GH_RM_NOTIF_VM_SHUTDOWN then ghGuestPopsVmShutdown else pure none

end GH.Impl.Handlers
