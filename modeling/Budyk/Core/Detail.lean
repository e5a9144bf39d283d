import Budyk.Core.Sample

/-! What a tick has of each CPU, disk, interface, mount and process: the lists of `budyk_detail_c` in `core/sample_c.h`.
A name is its bytes before the NUL. -/

namespace Budyk

structure CoreUse where
  totalPercent : Double
  userPercent : Double
  systemPercent : Double
  iowaitPercent : Double
  irqPercent : Double
  stealPercent : Double
  idlePercent : Double
  id : UInt32

structure DiskDev where
  name : List UInt8
  readBytesPerSec : UInt64
  writeBytesPerSec : UInt64
  readsPerSec : Double
  writesPerSec : Double
  busyPercent : Double

structure Iface where
  name : List UInt8
  rxBytesPerSec : UInt64
  txBytesPerSec : UInt64
  rxPacketsPerSec : Double
  txPacketsPerSec : Double
  rxErrorsPerSec : Double
  txErrorsPerSec : Double
  rxDropsPerSec : Double
  up : UInt8

structure Mount where
  mount : List UInt8
  type : List UInt8
  device : List UInt8
  totalBytes : UInt64
  usedBytes : UInt64
  availBytes : UInt64
  usedPercent : Double
  inodesTotal : UInt64
  inodesUsed : UInt64
  inodesUsedPercent : Double

structure ListedProcess where
  pid : Int
  name : List UInt8
  state : UInt8
  threads : UInt32
  cpuPercent : Double
  rssBytes : UInt64

structure Detail where
  collected : UInt32
  baseline : UInt32
  cores : List CoreUse
  disks : List DiskDev
  ifaces : List Iface
  mounts : List Mount
  procs : List ListedProcess

end Budyk
