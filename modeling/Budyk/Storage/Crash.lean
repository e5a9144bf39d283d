import Budyk.Storage.RingCheck

/-! Appends cut short by a crash. A crash keeps the file as the steps of `append` left it and
loses the two counters; the next start reopens the ring and recovers it, as one between two
appends does. -/

namespace Budyk.Storage

structure FittingRecord (tier : UInt8) where
  bytes : Record
  size : bytes.length = recordSizeForSample
  sample : Sample
  decodes : decodeRecord bytes = some sample
  fits : levelFitsRing tier sample.level = true

def FittingRecord.encode (tier : UInt8) (s : Sample) (valid : ValidLevel s.level)
    (fits : levelFitsRing tier s.level = true) : FittingRecord tier :=
  ⟨recordEncode s, recordEncode_length s, stored s, decodeRecord_recordEncode s valid, fits⟩

/-- The step boundary of `append` at which the process dies. -/
inductive CrashPoint where
  | beforePwrite
  | torn (left : TornRecord)
  | afterPwrite
  | afterWriteIdx

inductive Episode (tier : UInt8) where
  | append (record : FittingRecord tier)
  | crash (record : FittingRecord tier) (point : CrashPoint) (clock : Nat)
  | restart (clock : Nat)

namespace RingFile

def appendUntil (r : RingFile) (record : Record) : CrashPoint → RingFile
  | .beforePwrite => r.raiseBegun
  | .torn left => r.raiseBegun.putSlot left.bytes
  | .afterPwrite => r.raiseBegun.putSlot record
  | .afterWriteIdx => (r.raiseBegun.putSlot record).putWriteIdx

def episode {tier : UInt8} (r : RingFile) : Episode tier → RingFile
  | .append record => (r.append record.bytes .written).2
  | .crash record point clock => (recover clock (r.appendUntil record.bytes point).reopen).1
  | .restart clock => (recover clock r.reopen).1

def pwrites {tier : UInt8} (r : RingFile) : Episode tier → List (Nat × Option Sample)
  | .append record => [(r.slot, some record.sample)]
  | .crash record point _ => match point with
      | .beforePwrite => []
      | .torn _ => [(r.slot, none)]
      | .afterPwrite => [(r.slot, some record.sample)]
      | .afterWriteIdx => [(r.slot, some record.sample)]
  | .restart _ => []

def appendAll {tier : UInt8} (r : RingFile) (records : List (FittingRecord tier)) : RingFile :=
  records.foldl (fun r record => (r.append record.bytes .written).2) r

def history {tier : UInt8} (r : RingFile) : List (Episode tier) → RingFile × List (Nat × Option Sample)
  | [] => (r, [])
  | e :: es => let rest := (r.episode e).history es
               (rest.1, r.pwrites e ++ rest.2)

end RingFile

/-- The records whose `pwrite` completed and whose slot no later `pwrite` went to, with their
slots, in write order. -/
def survivors (pwrites : List (Nat × Option Sample)) : List (Nat × Sample) :=
  pwrites.foldl (fun kept w =>
    kept.filter (fun k => k.1 ≠ w.1) ++ w.2.toList.map fun s => (w.1, s)) []

def completed (pwrites : List (Nat × Option Sample)) : List Sample := pwrites.filterMap Prod.snd

/-- Timestamps strictly increase from `last` on, and no record is stamped after the clock at the
start that follows it. -/
def WellTimed {tier : UInt8} (last : Nat) : List (Episode tier) → Prop
  | [] => True
  | .append record :: es => last < record.sample.ts ∧ WellTimed record.sample.ts es
  | .crash record _ clock :: es =>
      last < record.sample.ts ∧ record.sample.ts ≤ clock ∧ WellTimed record.sample.ts es
  | .restart clock :: es => last ≤ clock ∧ WellTimed last es

end Budyk.Storage
