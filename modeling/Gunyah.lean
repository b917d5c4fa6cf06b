import Gunyah.Proof.Rm.Receive
import Gunyah.Proof.Rm.Fragments
import Gunyah.Proof.Rm.Rpc
import Gunyah.Proof.Rm.Tx
import Gunyah.Proof.Rm.Iface
import Gunyah.Proof.Rm.VmTable
import Gunyah.Proof.Msgq.Queue
import Gunyah.Proof.Msgq.Restart
import Gunyah.Proof.Proxy.Slots
import Gunyah.Proof.Virtio.Events
import Gunyah.Proof.Virtio.Drain
import Gunyah.Proof.Virtio.Refs
import Gunyah.Proof.Vm.Load
import Gunyah.Proof.Vm.Unload
import Gunyah.Proof.HypRes.Restore
import Gunyah.Proof.Rm.Callers
import Gunyah.Proof.Rm.Notif
import Gunyah.Proof.IrqLend
import Gunyah.Proof.Handlers
import Gunyah.Proof.Vm.Start
import Gunyah.Proof.Vm.Files
import Gunyah.Proof.Proxy.Sleep
import Gunyah.Proof.DblClient
import Gunyah.Impl.Hvc
import Gunyah.Framework.Relay
import Gunyah.Proof.Hvc
import Gunyah.Impl.Rm.MemReq
import Gunyah.Framework.Decode
import Gunyah.Proof.Rm.MemReq
import Gunyah.Impl.Rm.Accept
import Gunyah.Proof.Rm.Room
import Gunyah.Proof.Rm.Lookup
import Gunyah.Spec.Rm.Share
import Gunyah.Proof.Rm.Share
import Gunyah.Impl.Vm.Shmem
import Gunyah.Spec.Vm.Shmem
import Gunyah.Proof.Vm.Shmem
import Gunyah.Framework.Driven
import Gunyah.Spec.Rm.Accept
import Gunyah.Proof.Rm.Accept
import Gunyah.Proof.Rm.Gather
import Gunyah.Impl.Rm.Payloads
import Gunyah.Spec.Rm.Payloads
import Gunyah.Proof.Rm.Payloads
import Gunyah.Spec.Rm.Stale
import Gunyah.Proof.Rm.Stale
import Gunyah.Impl.Vm.Provide
import Gunyah.Spec.Vm.Provide
import Gunyah.Proof.Vm.Provide
import Gunyah.Impl.Vm.Vcpus
import Gunyah.Spec.Vm.Vcpus
import Gunyah.Proof.Vm.Vcpus
import Gunyah.Proof.HypRes.Report
import Gunyah.Proof.HypRes.Puts
import Gunyah.Impl.Rm.Replies
import Gunyah.Spec.Rm.Replies
import Gunyah.Proof.Rm.Replies
import Gunyah.Impl.Rm.IdInfo
import Gunyah.Spec.Rm.IdInfo
import Gunyah.Proof.Rm.IdInfo
import Gunyah.Impl.IrqApi
import Gunyah.Proof.IrqApi
import Gunyah.Proof.IrqHeld
import Gunyah.Proof.DblIrq
import Gunyah.Impl.Proxy.Watchdog
import Gunyah.Proof.Proxy.Watchdog
import Gunyah.Impl.Virtio.Share
import Gunyah.Proof.Virtio.Share
import Gunyah.Proof.Virtio.ShareFlag
import Gunyah.Impl.Virtio.Config
import Gunyah.Proof.Virtio.Config
import Gunyah.Proof.Vm.Metadata
import Gunyah.Impl.HypUdmabuf
import Gunyah.Spec.HypUdmabuf
import Gunyah.Proof.HypUdmabuf.Create
import Gunyah.Proof.HypUdmabuf.Mmap
import Gunyah.Proof.HypUdmabuf.Ownership
import Gunyah.Proof.Vm.MetadataLog
import Gunyah.Impl.Virq
import Gunyah.Spec.Virq
import Gunyah.Impl.GvmDump.Ctx
import Gunyah.Impl.GvmDump.Text
import Gunyah.Proof.Virq
import Gunyah.Proof.GvmDump.Text
import Gunyah.Proof.GvmDump.Ctx
import Gunyah.Impl.MemNotifier
import Gunyah.Proof.MemNotifier
import Gunyah.Impl.Vm.Wait
import Gunyah.Proof.Vm.Wait
import Gunyah.Impl.Vm.SuspIrq
import Gunyah.Proof.Vm.SuspIrq
import Gunyah.Impl.Rm.Calls
import Gunyah.Spec.Rm.Api
import Gunyah.Proof.Rm.Wire
import Gunyah.Proof.Rm.Api
import Gunyah.Impl.Vm.Life
import Gunyah.Spec.Vm.Life
import Gunyah.Proof.Vm.Life
import Gunyah.Framework.Frames
import Gunyah.Proof.Rm.Listen
import Gunyah.Proof.Rm.Lost
