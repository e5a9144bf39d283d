import Budyk.Storage.TierInit

/-! What starting is for: every ring raised, each by an object made for it, or none left open. -/

namespace Budyk.Spec
open Storage

structure Ring where
  leaf : Leaf
  tier : UInt8
  maxMb : Int

def levelRing (spec : RingSpec) : Ring := ⟨.level spec.name, kCustomRingTier, spec.maxMb⟩

def tier1Ring (args : StartArgs) : Ring := ⟨.tier1, 1, args.tier1MaxMb⟩
def tier2Ring (args : StartArgs) : Ring := ⟨.tier2, 2, args.tier2MaxMb⟩
def tier3Ring (args : StartArgs) : Ring := ⟨.tier3, 3, args.tier3MaxMb⟩

/-- The rings of a manager, in the order they are raised in. -/
def ringsOf (args : StartArgs) : List Ring :=
  tier1Ring args :: tier2Ring args :: tier3Ring args :: args.custom.map levelRing

/-- The objects of the rings, and what they leave; none where one of the rings fails. -/
def raiseAll (dir : String) (io : Nat → RingIo) : (k : Nat) → Startup → List Ring → Option (List RingObject × Startup)
  | _, s, [] => some ([], s)
  | k, s, ring :: rings =>
      match s.raise .new dir ring.leaf ring.tier ring.maxMb (io k) with
      | .up o s => (raiseAll dir io (k + 1) s rings).map fun raised => (o :: raised.1, raised.2)
      | _ => none

/-- A failed start leaves nothing of itself. -/
structure Undone (rc : Int) (m : Manager) : Prop where
  error : rc < 0
  tier1 : m.tier1.opened = none
  tier2 : m.tier2.opened = none
  tier3 : m.tier3.opened = none
  custom : m.custom = []
  descriptors : m.descriptors = 0
  notReady : m.ready = false

/-- The same with the reads of `o`, whose ring's count goes on. -/
def credit (o r : RingObject) : RingObject := { r with reads := o.reads + r.reads }

/-- The manager `started`, had its objects been those of `m`. -/
def countOn (m started : Manager) : Manager :=
  { started with
    tier1 := credit m.tier1 started.tier1
    tier2 := credit m.tier2 started.tier2
    tier3 := credit m.tier3 started.tier3 }

/-- Where a new manager would start, this one does, and is then the same. -/
def StartsAsNew (m : Manager) : Prop :=
  ∀ files args io, ((Manager.new files).init args io).1 = 0 →
    { m with files := files }.init args io = (Manager.new files).init args io

end Budyk.Spec
