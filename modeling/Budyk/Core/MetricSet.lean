import Budyk.Core.Sample
import Budyk.Lib.Mask

/-! What a level reads, from `core/metric_set.h`: the groups of a sample and the lists of its detail, as bits. -/

namespace Budyk
open Lib

/-- `enum MetricGroup`, in the order of its bits. -/
inductive MetricGroup
  | cpu | mem | swap | load | disk | net | proc | entropy | self | thermal | fileWatch | uptime | tcp | udp | fs
  | clock | icmp
  deriving DecidableEq, Repr

def MetricGroup.bit : MetricGroup → UInt32
  | cpu => kGroupCpu
  | mem => kGroupMem
  | swap => kGroupSwap
  | load => kGroupLoad
  | disk => kGroupDisk
  | net => kGroupNet
  | proc => kGroupProc
  | entropy => kGroupEntropy
  | self => kGroupSelf
  | thermal => kGroupThermal
  | fileWatch => kGroupFileWatch
  | uptime => kGroupUptime
  | tcp => kGroupTcp
  | udp => kGroupUdp
  | fs => kGroupFs
  | clock => kGroupClock
  | icmp => kGroupIcmp

abbrev kDetailCores : UInt32 := (1 : UInt32) <<< 0
abbrev kDetailDisks : UInt32 := (1 : UInt32) <<< 1
abbrev kDetailInterfaces : UInt32 := (1 : UInt32) <<< 2
abbrev kDetailMounts : UInt32 := (1 : UInt32) <<< 3
abbrev kDetailProcesses : UInt32 := (1 : UInt32) <<< 4

abbrev kDetailAll : UInt32 := ((1 : UInt32) <<< 5) - 1

inductive MetricDetail
  | cores | disks | interfaces | mounts | processes
  deriving DecidableEq, Repr

def MetricDetail.bit : MetricDetail → UInt32
  | cores => kDetailCores
  | disks => kDetailDisks
  | interfaces => kDetailInterfaces
  | mounts => kDetailMounts
  | processes => kDetailProcesses

abbrev kGroupsMinimal : UInt32 := kGroupCpu ||| kGroupMem ||| kGroupSwap ||| kGroupLoad ||| kGroupUptime

abbrev kGroupsSelectable : UInt32 := kGroupsAll &&& ~~~kGroupFileWatch

structure MetricSet where
  groups : UInt32 := kGroupsSelectable
  detail : UInt32 := kDetailAll
  deriving DecidableEq

theorem MetricGroup.isBit (g : MetricGroup) : IsBit g.bit := by
  cases g with
  | cpu => exact ⟨0, by decide, rfl⟩
  | mem => exact ⟨1, by decide, rfl⟩
  | swap => exact ⟨2, by decide, rfl⟩
  | load => exact ⟨3, by decide, rfl⟩
  | disk => exact ⟨4, by decide, rfl⟩
  | net => exact ⟨5, by decide, rfl⟩
  | proc => exact ⟨6, by decide, rfl⟩
  | entropy => exact ⟨7, by decide, rfl⟩
  | self => exact ⟨8, by decide, rfl⟩
  | thermal => exact ⟨9, by decide, rfl⟩
  | fileWatch => exact ⟨10, by decide, rfl⟩
  | uptime => exact ⟨11, by decide, rfl⟩
  | tcp => exact ⟨12, by decide, rfl⟩
  | udp => exact ⟨13, by decide, rfl⟩
  | fs => exact ⟨14, by decide, rfl⟩
  | clock => exact ⟨15, by decide, rfl⟩
  | icmp => exact ⟨16, by decide, rfl⟩

theorem MetricDetail.isBit (l : MetricDetail) : IsBit l.bit := by
  cases l with
  | cores => exact ⟨0, by decide, rfl⟩
  | disks => exact ⟨1, by decide, rfl⟩
  | interfaces => exact ⟨2, by decide, rfl⟩
  | mounts => exact ⟨3, by decide, rfl⟩
  | processes => exact ⟨4, by decide, rfl⟩

theorem hasGroup_or {bit : UInt32} (single : IsBit bit) (a b : UInt32) :
    hasGroup (a ||| b) bit = (hasGroup a bit || hasGroup b bit) := meets_or single a b

theorem hasGroup_and {bit : UInt32} (single : IsBit bit) (a b : UInt32) :
    hasGroup (a &&& b) bit = (hasGroup a bit && hasGroup b bit) := meets_and single a b

theorem hasGroup_not {bit : UInt32} (single : IsBit bit) (a : UInt32) :
    hasGroup (~~~a) bit = !hasGroup a bit := meets_not single a

theorem hasGroup_union (m a b : UInt32) : hasGroup m (a ||| b) = (hasGroup m a || hasGroup m b) := meets_union m a b

theorem hasGroup_zero (bit : UInt32) : hasGroup 0 bit = false := by
  simp [hasGroup]

end Budyk
