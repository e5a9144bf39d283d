import Budyk.Storage.Convert
import Budyk.Proof.Versions
import Budyk.Proof.Opening
import Budyk.Proof.Reader

/-! `convert_ring` refines the old ring: its newest records, in order, under this version's layout. -/

namespace Budyk.Proof
open Lib Storage

def Yields {α : Type} (P : α → Prop) (p : Cursor α) : Prop :=
  ∀ bytes a rest, p bytes = .ok (a, rest) → P a

namespace Yields
variable {α β : Type} {P : β → Prop}

theorem pure {b : β} (holds : P b) : Yields P (Pure.pure b : Cursor β) := by
  intro bytes a rest returned
  cases returned
  exact holds

theorem throw (e : DecodeError) : Yields P (MonadExcept.throw e : Cursor β) := by
  intro bytes a rest returned
  cases returned

theorem bind {Q : α → Prop} {p : Cursor α} {f : α → Cursor β} (first : Yields Q p)
    (later : ∀ a, Q a → Yields P (f a)) : Yields P (p >>= f) := by
  intro bytes b rest returned
  rw [Cursor.bind_apply] at returned
  cases read : p bytes with
  | error e => simp [read] at returned
  | ok result =>
      rw [read] at returned
      exact later result.1 (first bytes result.1 result.2 read) result.2 b rest returned

theorem skip {p : Cursor α} {f : α → Cursor β} (later : ∀ a, Yields P (f a)) : Yields P (p >>= f) :=
  bind (Q := fun _ => True) (fun _ _ _ _ => trivial) fun a _ => later a

theorem ite {c : Prop} [Decidable c] {p q : Cursor β} (yes : Yields P p) (no : Yields P q) :
    Yields P (if c then p else q) := by
  by_cases h : c
  · rwa [if_pos h]
  · rwa [if_neg h]

end Yields

def KeepsBaseline (decode : Sample → Cursor Sample) : Prop :=
  ∀ out, Yields (fun s : Sample => s.baseline = out.baseline) (decode out)

theorem KeepsBaseline.bind {decode next : Sample → Cursor Sample} (keeps : KeepsBaseline decode)
    (later : KeepsBaseline next) : KeepsBaseline fun out => decode out >>= next := by
  intro out
  refine (keeps out).bind fun s same => ?_
  intro bytes t rest returned
  exact (later s bytes t rest returned).trans same

/-- A ring that has not wrapped, of exactly these records. -/
structure Copy (r : RingFile) (log : List Sample) : Prop where
  quiet : r.Quiescent
  widx_eq : r.widx = log.length
  room : log.length ≤ r.capacity
  holds : ∀ i s, log[i]? = some s → r.sampleAt i = some s
  blank : ∀ i, log.length ≤ i → i < r.capacity → r.sampleAt i = none

namespace Copy
variable {r : RingFile} {log : List Sample}

theorem create (tier : UInt8) (capacity : Nat) (pos : 0 < capacity) :
    Copy (RingFile.create tier capacity pos) [] where
  quiet := RingFile.create_quiescent tier capacity pos
  widx_eq := rfl
  room := Nat.zero_le _
  holds := fun _ _ read => by cases read
  blank := fun _ _ _ => decodeRecord_zero

theorem reopen (copy : Copy r log) : Copy r.reopen log where
  quiet := r.reopen_quiescent
  widx_eq := copy.quiet.writeIdx_eq.trans copy.widx_eq
  room := copy.room
  holds := copy.holds
  blank := copy.blank

theorem write (copy : Copy r log) (free : log.length < r.capacity) {s : Sample}
    (again : decodeRecord (recordEncode s) = some s) :
    Copy (r.append (recordEncode s) .written).2 (log ++ [s]) := by
  have size := recordEncode_length s
  have appended := r.append_written size
  have cap : (r.append (recordEncode s) .written).2.capacity = r.capacity := by rw [appended]
  have slots : (r.append (recordEncode s) .written).2.slots =
      Function.update r.slots (log.length % r.capacity) (recordEncode s) := by
    rw [appended, RingFile.slot, copy.widx_eq]
  have reads := sampleAt_update slots cap
  have length : (log ++ [s]).length = log.length + 1 := by simp
  refine ⟨r.append_written_quiescent size, ?_, by rw [length, cap]; exact free, ?_, ?_⟩
  · rw [appended, length, ← copy.widx_eq]
  · intro i t entry
    rw [reads]
    have bound := (List.getElem?_eq_some_iff.mp entry).1
    rcases Nat.lt_or_ge i log.length with before | after
    · rw [if_neg (mod_ne_of_lt before (by omega)), ← copy.holds i t]
      rwa [List.getElem?_append_left before] at entry
    · obtain rfl : i = log.length := by omega
      rw [List.getElem?_concat_length] at entry
      cases entry
      rw [if_pos rfl, again]
  · intro i low high
    rw [cap] at high
    rw [length] at low
    rw [reads, if_neg (mod_ne_of_lt (by omega) (by omega)).symm]
    exact copy.blank i (by omega) high

theorem oldest (copy : Copy r log) : r.oldest = 0 ∧ r.count = log.length := by
  have room := copy.room
  have count : r.count = log.length := by
    rw [RingFile.count, copy.widx_eq]
    exact Nat.min_eq_left room
  exact ⟨by rw [RingFile.oldest, count, copy.widx_eq, Nat.sub_self], count⟩

theorem live (copy : Copy r log) {i : Nat} {s : Sample} (live : r.Live i s) : log[i]? = some s := by
  obtain ⟨-, high, read⟩ := live
  rw [copy.widx_eq] at high
  have held := copy.holds i log[i] (List.getElem?_eq_getElem high)
  rw [read] at held
  rw [List.getElem?_eq_getElem high, held]

theorem liveSamples (copy : Copy r log) : r.liveSamples = log := by
  obtain ⟨oldest, count⟩ := copy.oldest
  rw [RingFile.liveSamples, oldest, count, ← List.range_eq_range']
  have each : ∀ i ∈ List.range log.length, r.sampleAt i = some (log.getD i 0) := by
    intro i member
    have entry := List.getElem?_eq_getElem (List.mem_range.mp member)
    rw [copy.holds i _ entry, List.getD_eq_getElem?_getD, entry, Option.getD_some]
  rw [List.filterMap_congr each]
  change (List.range log.length).filterMap (some ∘ fun i => log.getD i 0) = log
  rw [List.filterMap_eq_map]
  apply List.ext_getElem (by simp)
  intro i _ bound
  simp [bound]

end Copy

/-! ## Copying -/

def healthyIo (clock : Nat) : ConvertIo :=
  ⟨clock, none, none, none, fun _ => .written, none, none, none⟩

theorem readFitting_eq {r : RingFile} {i : Nat} {s : Sample} (read : r.sampleAt i = some s)
    (fits : levelFitsRing r.tier s.level = true) : r.readFitting i = some s := by
  have held : (r.readAt (i % r.capacity)).bind decodeRecord = some s := by
    rw [r.readAt_mod]
    exact read
  rw [RingFile.readFitting]
  rw [r.readAt_mod] at held ⊢
  rw [Option.bind_some] at held
  simp [held, fits]

theorem newestIndexedTs_eq {r : RingFile} {s : Sample} (some : 0 < r.count)
    (read : r.readFitting (r.widx - 1) = .some s) : r.newestIndexedTs = s.ts := by
  obtain ⟨count, more⟩ : ∃ count, r.count = count + 1 := ⟨r.count - 1, by omega⟩
  rw [RingFile.newestIndexedTs, more, List.range_succ_eq_map, List.findSome?_cons, Nat.sub_zero, read]
  rfl

end Budyk.Proof
