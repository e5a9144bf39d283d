import Mathlib
import Budyk.Collector.Counted
import Budyk.Lib.Along
import Budyk.Lib.Circular

/-! The devices' totals: what each device moved between two reads, whatever order either lists it in. -/

namespace Budyk.Proof
open Lib Collector

def names (devices : List Counted) : Finset (List UInt8) := (devices.map Counted.name).toFinset

def deviceOf (devices : List Counted) (name : List UInt8) : Option Counted := devices.find? fun d => d.name = name

/-- The counter's increase, 0 where it went back, for a device that both reads list. -/
def deviceMoved (counter : Counted → UInt64) (before now : List Counted) (name : List UInt8) : Nat :=
  match deviceOf before name, deviceOf now name with
  | some p, some c => (counter c).toNat - (counter p).toNat
  | _, _ => 0

def moved (counter : Counted → UInt64) (before now : List Counted) : Nat :=
  ∑ name ∈ names before ∩ names now, deviceMoved counter before now name

/-- What a device has moved over a sequence of reads. -/
def traffic (counter : Counted → UInt64) (name : List UInt8) : List (List Counted) → Nat
  | before :: now :: rest => deviceMoved counter before now name + traffic counter name (now :: rest)
  | _ => 0

structure Listed (devices : List Counted) : Prop where
  distinct : (devices.map Counted.name).Nodup
  few : devices.length ≤ BUDYK_MAX_COUNTED

theorem deviceOf_eq_some {devices : List Counted} (distinct : (devices.map Counted.name).Nodup) {name : List UInt8}
    {d : Counted} : deviceOf devices name = some d ↔ d ∈ devices ∧ d.name = name := by
  constructor
  · intro found
    exact ⟨List.mem_of_find?_eq_some found, by simpa using List.find?_some found⟩
  · rintro ⟨held, rfl⟩
    cases found : deviceOf devices d.name with
    | none => exact absurd (decide_eq_true rfl) (List.find?_eq_none.mp found d held)
    | some other =>
        have same : other.name = d.name := by simpa using List.find?_some found
        rw [List.inj_on_of_nodup_map distinct (List.mem_of_find?_eq_some found) held same]

theorem deviceOf_isSome {devices : List Counted} {name : List UInt8} :
    (deviceOf devices name).isSome = true ↔ name ∈ names devices := by
  simp [deviceOf, names, List.find?_isSome]

theorem deviceOf_none {devices : List Counted} {name : List UInt8} :
    deviceOf devices name = none ↔ name ∉ names devices := by
  rw [← deviceOf_isSome, Bool.not_eq_true, Option.isSome_eq_false_iff, Option.isNone_iff_eq_none]

theorem names_perm {devices other : List Counted} (perm : devices.Perm other) : names devices = names other :=
  List.toFinset_eq_of_perm _ _ (perm.map _)

theorem deviceOf_perm {devices other : List Counted} (distinct : (devices.map Counted.name).Nodup)
    (perm : devices.Perm other) : deviceOf devices = deviceOf other := by
  funext name
  apply Option.ext
  intro d
  rw [deviceOf_eq_some distinct, deviceOf_eq_some ((perm.map _).nodup_iff.mp distinct), perm.mem_iff]

theorem moved_perm {counter : Counted → UInt64} {before now before' now' : List Counted}
    (distinct : (before'.map Counted.name).Nodup) (distinctNow : (now'.map Counted.name).Nodup) (perm : before'.Perm before)
    (permNow : now'.Perm now) : moved counter before' now' = moved counter before now := by
  unfold moved deviceMoved
  rw [names_perm perm, names_perm permNow, deviceOf_perm distinct perm, deviceOf_perm distinctNow permNow]

theorem deviceMoved_zero {counter : Counted → UInt64} {before now : List Counted} {name : List UInt8}
    (absent : name ∉ names before ∩ names now) : deviceMoved counter before now name = 0 := by
  rw [Finset.mem_inter, not_and_or, ← deviceOf_none, ← deviceOf_none] at absent
  unfold deviceMoved
  rcases absent with none | none
  · rw [none]
  · rw [none]
    cases deviceOf before name <;> rfl

theorem moved_eq_sum {counter : Counted → UInt64} {before now : List Counted} {all : Finset (List UInt8)}
    (within : names before ∩ names now ⊆ all) :
    moved counter before now = ∑ name ∈ all, deviceMoved counter before now name :=
  Finset.sum_subset within fun _ _ absent => deviceMoved_zero absent

theorem moved_eq_list {counter : Counted → UInt64} {before now : List Counted} (distinct : (now.map Counted.name).Nodup) :
    moved counter before now = (now.map fun d => deviceMoved counter before now d.name).sum := by
  rw [moved_eq_sum Finset.inter_subset_right, names, List.sum_toFinset _ distinct, List.map_map]
  rfl

/-! ## One call -/

/-- The cursor leaves the search a whole round before the 32 bits are out. -/
def CursorFits (pos : UInt32) (nprev : Nat) : Prop := pos.toNat + nprev ≤ 2 ^ 32

theorem countedIndex_eq {nprev k : Nat} {pos : UInt32} (few : nprev ≤ BUDYK_MAX_COUNTED) (fits : CursorFits pos nprev)
    (small : k < nprev) : countedIndex nprev pos k = (pos.toNat + k) % nprev := by
  have bound : nprev ≤ 1024 := few
  have round : pos.toNat + nprev ≤ 2 ^ 32 := fits
  rw [countedIndex, UInt32.toNat_mod, UInt32.toNat_add, UInt32.toNat_ofNat', UInt32.toNat_ofNat',
    Nat.mod_eq_of_lt (show k < 2 ^ 32 by omega), Nat.mod_eq_of_lt (show nprev < 2 ^ 32 by omega),
    Nat.mod_eq_of_lt (show pos.toNat + k < 2 ^ 32 by omega)]

section Call
variable {prev : List Counted} {pos : UInt32} {name : List UInt8}

theorem found_held {i : Nat} {p : Counted} (found : findCounted prev pos name = some (i, p)) :
    i < prev.length ∧ p ∈ prev ∧ p.name = name := by
  obtain ⟨k, -, here⟩ := List.exists_of_findSome?_eq_some found
  dsimp only at here
  split at here
  next q placed =>
    split at here
    next same =>
      cases here
      exact ⟨(List.getElem?_eq_some_iff.mp placed).1, List.mem_of_getElem? placed, same⟩
    next => cases here
  next => cases here

theorem findCounted_none (absent : deviceOf prev name = none) : findCounted prev pos name = none := by
  cases found : findCounted prev pos name with
  | none => rfl
  | some place =>
      obtain ⟨-, held, same⟩ := found_held found
      exact absurd (decide_eq_true same) (List.find?_eq_none.mp absent place.2 held)

theorem findCounted_some (listed : Listed prev) (fits : CursorFits pos prev.length) {p : Counted}
    (there : deviceOf prev name = some p) : ∃ i < prev.length, findCounted prev pos name = some (i, p) := by
  obtain ⟨held, named⟩ := (deviceOf_eq_some listed.distinct).mp there
  cases found : findCounted prev pos name with
  | none =>
      -- The round passes every place, that of the device among them.
      obtain ⟨j, inside, here⟩ := List.mem_iff_getElem.mp held
      obtain ⟨placed, late, soon, lands⟩ := exists_mod_eq pos.toNat inside
      obtain ⟨k, rfl⟩ := Nat.exists_eq_add_of_le late
      have missed := List.findSome?_eq_none_iff.mp found k (List.mem_range.mpr (by omega))
      dsimp only at missed
      rw [countedIndex_eq listed.few fits (by omega), lands, List.getElem?_eq_getElem inside, here] at missed
      dsimp only at missed
      rw [if_pos named] at missed
      cases missed
  | some place =>
      obtain ⟨inside, other, same⟩ := found_held found
      have unique := (deviceOf_eq_some listed.distinct).mpr ⟨other, same⟩
      rw [there, Option.some.injEq] at unique
      exact ⟨place.1, inside, by rw [unique]⟩

def gained (counter : Counted → UInt64) (prev : List Counted) (device : Counted) : Nat :=
  match deviceOf prev device.name with
  | some p => (counter device).toNat - (counter p).toNat
  | none => 0

theorem add_increase (total now before : UInt64) :
    (if now ≥ before then total + (now - before) else total).toNat =
      (total.toNat + (now.toNat - before.toNat)) % 2 ^ 64 := by
  split
  next grown => rw [UInt64.toNat_add, UInt64.toNat_sub_of_le _ _ grown]
  next fell =>
    have less : now.toNat < before.toNat := UInt64.lt_iff_toNat_lt.mp (UInt64.not_le.mp fell)
    rw [Nat.sub_eq_zero_of_le (Nat.le_of_lt less), Nat.add_zero, Nat.mod_eq_of_lt total.toNat_lt]

theorem countedAdd_adds (listed : Listed prev) {read : CountedRead} (fits : CursorFits read.pos prev.length)
    (device : Counted) :
    CursorFits (countedAdd prev read device).pos prev.length ∧
      (countedAdd prev read device).movedA.toNat = (read.movedA.toNat + gained Counted.a prev device) % 2 ^ 64 ∧
      (countedAdd prev read device).movedB.toNat = (read.movedB.toNat + gained Counted.b prev device) % 2 ^ 64 ∧
      (countedAdd prev read device).next =
        if read.next.length < BUDYK_MAX_COUNTED then read.next ++ [{ device with name := device.name.take 31 }]
        else read.next := by
  unfold countedAdd gained
  cases there : deviceOf prev device.name with
  | none =>
      rw [findCounted_none there]
      exact ⟨fits, (Nat.mod_eq_of_lt read.movedA.toNat_lt).symm, (Nat.mod_eq_of_lt read.movedB.toNat_lt).symm, rfl⟩
  | some p =>
      obtain ⟨i, inside, found⟩ := findCounted_some listed fits there
      rw [found]
      refine ⟨?_, add_increase _ _ _, add_increase _ _ _, rfl⟩
      have bound : prev.length ≤ 1024 := listed.few
      show (UInt32.ofNat i + 1).toNat + prev.length ≤ 2 ^ 32
      rw [UInt32.toNat_add, UInt32.toNat_ofNat', Nat.mod_eq_of_lt (show i < 2 ^ 32 by omega)]
      have small := Nat.mod_le (i + (1 : UInt32).toNat) (2 ^ 32)
      have one : (1 : UInt32).toNat = 1 := rfl
      omega

end Call

/-! ## A read -/

theorem read_adds {prev : List Counted} (listed : Listed prev) (devices : List Counted) {read : CountedRead}
    (fits : CursorFits read.pos prev.length) (room : read.next.length + devices.length ≤ BUDYK_MAX_COUNTED)
    (short : ∀ d ∈ devices, d.name.length ≤ 31) :
    (devices.foldl (countedAdd prev) read).movedA.toNat =
        (read.movedA.toNat + (devices.map (gained Counted.a prev)).sum) % 2 ^ 64 ∧
      (devices.foldl (countedAdd prev) read).movedB.toNat =
        (read.movedB.toNat + (devices.map (gained Counted.b prev)).sum) % 2 ^ 64 ∧
      (devices.foldl (countedAdd prev) read).next = read.next ++ devices := by
  induction devices generalizing read with
  | nil =>
      refine ⟨?_, ?_, (List.append_nil _).symm⟩
      · exact (Nat.mod_eq_of_lt read.movedA.toNat_lt).symm
      · exact (Nat.mod_eq_of_lt read.movedB.toNat_lt).symm
  | cons d devices ih =>
      obtain ⟨fits', addedA, addedB, kept⟩ := countedAdd_adds listed fits d
      rw [List.length_cons] at room
      have whole : ({ d with name := d.name.take 31 } : Counted) = d := by
        rw [List.take_of_length_le (short d List.mem_cons_self)]
      rw [if_pos (by omega), whole] at kept
      have room' : (countedAdd prev read d).next.length + devices.length ≤ BUDYK_MAX_COUNTED := by
        rw [kept, List.length_append, List.length_singleton]
        omega
      obtain ⟨laterA, laterB, list⟩ := ih fits' room' fun other held => short other (List.mem_cons_of_mem d held)
      rw [List.foldl_cons, laterA, laterB, list, addedA, addedB, kept, List.map_cons, List.map_cons, List.sum_cons,
        List.sum_cons, List.append_assoc, List.singleton_append, Nat.mod_add_mod, Nat.mod_add_mod, Nat.add_assoc, Nat.add_assoc]
      exact ⟨rfl, rfl, rfl⟩

theorem sum_since {counter : Counted → UInt64} {before now : List Counted} (distinct : (now.map Counted.name).Nodup) :
    (now.map (gained counter before)).sum = moved counter before now := by
  rw [moved_eq_list distinct]
  congr 1
  apply List.map_congr_left
  intro d held
  rw [gained, deviceMoved, (deviceOf_eq_some distinct).mpr ⟨held, rfl⟩]
  cases deviceOf before d.name <;> rfl

theorem read_totals {prev now prev' now' : List Counted} (listed : Listed prev) (listedNow : Listed now)
    (short : ∀ d ∈ now, d.name.length ≤ 31) (order : prev'.Perm prev) (orderNow : now'.Perm now) {pos : UInt32}
    (fits : CursorFits pos prev.length) (movedA movedB : UInt64) :
    let read := now'.foldl (countedAdd prev') ⟨pos, [], movedA, movedB⟩
    read.movedA.toNat = (movedA.toNat + moved Counted.a prev now) % 2 ^ 64 ∧
      read.movedB.toNat = (movedB.toNat + moved Counted.b prev now) % 2 ^ 64 ∧ read.next = now' := by
  have distinct : (prev'.map Counted.name).Nodup := (order.map _).nodup_iff.mpr listed.distinct
  have distinctNow : (now'.map Counted.name).Nodup := (orderNow.map _).nodup_iff.mpr listedNow.distinct
  have same := order.length_eq
  have few : prev'.length ≤ BUDYK_MAX_COUNTED := by
    rw [same]
    exact listed.few
  have room : now'.length ≤ BUDYK_MAX_COUNTED := by
    rw [orderNow.length_eq]
    exact listedNow.few
  rw [← same] at fits
  obtain ⟨addedA, addedB, next⟩ := @read_adds _ ⟨distinct, few⟩ now' ⟨pos, [], movedA, movedB⟩ fits
    (by simpa using room) fun d held => short d (orderNow.mem_iff.mp held)
  rw [sum_since distinctNow, moved_perm distinct distinctNow order orderNow] at addedA addedB
  exact ⟨addedA, addedB, next⟩

/-! ## A run of reads -/

/-- What the disk collector is given: devices that the totals can follow. -/
def Followed (tick : DiskTick) : Prop :=
  ∀ devices ∈ tick.devices, Listed devices ∧ ∀ d ∈ devices, d.name.length ≤ 31

def reads (ticks : List DiskTick) : List (List Counted) := ticks.filterMap DiskTick.devices

/-- The counter's total in the order of the reads. -/
def movedBy (total : CountedRead → UInt64) (ctx : DiskCtx) (tick : DiskTick) : List Nat :=
  match tick.devices with
  | none => []
  | some devices => [(total (countedRead ctx.dev devices)).toNat]

section Run
variable {rateU64 : UInt64 → UInt64 → UInt64}

def diskStep (rateU64 : UInt64 → UInt64 → UInt64) (ctx : DiskCtx) (tick : DiskTick) : DiskCtx := (collectDisk rateU64 ctx tick).2

theorem countedRead_totals {prev now : List Counted} (listed : Listed prev) (listedNow : Listed now)
    (short : ∀ d ∈ now, d.name.length ≤ 31) :
    (countedRead prev now).movedA.toNat = moved Counted.a prev now % 2 ^ 64 ∧
      (countedRead prev now).movedB.toNat = moved Counted.b prev now % 2 ^ 64 ∧ (countedRead prev now).next = now := by
  have start : CursorFits 0 prev.length := by
    have few : prev.length ≤ 1024 := listed.few
    show 0 + prev.length ≤ 2 ^ 32
    omega
  have totals := read_totals listed listedNow short (List.Perm.refl _) (List.Perm.refl _) start 0 0
  simpa [countedRead] using totals

theorem run_totals {all : Finset (List UInt8)} (ticks : List DiskTick) {ctx : DiskCtx} (listed : Listed ctx.dev)
    (followed : ∀ tick ∈ ticks, Followed tick) (within : ∀ read ∈ reads ticks, names read ⊆ all) :
    (reports (diskStep rateU64) (movedBy CountedRead.movedA) ctx ticks).sum % 2 ^ 64 =
        (∑ name ∈ all, traffic Counted.a name (ctx.dev :: reads ticks)) % 2 ^ 64 ∧
      (reports (diskStep rateU64) (movedBy CountedRead.movedB) ctx ticks).sum % 2 ^ 64 =
        (∑ name ∈ all, traffic Counted.b name (ctx.dev :: reads ticks)) % 2 ^ 64 := by
  induction ticks generalizing ctx with
  | nil => simp [reports, reads, traffic]
  | cons tick ticks ih =>
      have later := fun other held => followed other (List.mem_cons_of_mem tick held)
      cases opened : tick.devices with
      | none =>
          have same : reads (tick :: ticks) = reads ticks := List.filterMap_cons_none opened
          have stays : diskStep rateU64 ctx tick = ctx := by rw [diskStep, collectDisk, opened]
          rw [same] at within ⊢
          rw [reports, reports, movedBy, movedBy, opened, stays]
          exact ih listed later within
      | some devices =>
          have same : reads (tick :: ticks) = devices :: reads ticks := List.filterMap_cons_some opened
          obtain ⟨listedNow, short⟩ := followed tick List.mem_cons_self devices opened
          obtain ⟨totalA, totalB, next⟩ := countedRead_totals listed listedNow short
          have dev : (diskStep rateU64 ctx tick).dev = devices := by rw [diskStep, collectDisk, opened]; exact next
          rw [same] at within ⊢
          have here : names ctx.dev ∩ names devices ⊆ all :=
            Finset.inter_subset_right.trans (within devices List.mem_cons_self)
          have listedNext : Listed (diskStep rateU64 ctx tick).dev := dev ▸ listedNow
          obtain ⟨restA, restB⟩ := ih listedNext later fun read held => within read (List.mem_cons_of_mem devices held)
          rw [dev] at restA restB
          simp only [reports, movedBy, opened, List.singleton_append, List.sum_cons, traffic, Finset.sum_add_distrib]
          rw [totalA, totalB, ← moved_eq_sum here, ← moved_eq_sum here]
          rw [Nat.mod_add_mod, Nat.mod_add_mod, Nat.add_mod, restA, ← Nat.add_mod, Nat.add_mod (moved Counted.b _ _), restB,
            ← Nat.add_mod]
          exact ⟨rfl, rfl⟩

theorem names_within {all : List (List Counted)} {read : List Counted} (held : read ∈ all) : names read ⊆ names all.flatten := by
  intro name listed
  simp only [names, List.mem_toFinset, List.mem_map, List.mem_flatten] at *
  obtain ⟨d, there, rfl⟩ := listed
  exact ⟨d, ⟨read, held, there⟩, rfl⟩

theorem device_totals {prev now prev' now' : List Counted} (listed : Listed prev) (listedNow : Listed now)
    (short : ∀ d ∈ now, d.name.length ≤ 31) (order : prev'.Perm prev) (orderNow : now'.Perm now) {pos : UInt32}
    (fits : CursorFits pos prev.length) (movedA movedB : UInt64) {ctx : DiskCtx} (followedCtx : Listed ctx.dev)
    {ticks : List DiskTick} (followed : ∀ tick ∈ ticks, Followed tick) :
    (let read := now'.foldl (countedAdd prev') ⟨pos, [], movedA, movedB⟩
     read.movedA.toNat = (movedA.toNat + moved Counted.a prev now) % 2 ^ 64 ∧
       read.movedB.toNat = (movedB.toNat + moved Counted.b prev now) % 2 ^ 64 ∧ read.next = now') ∧
    let all := names (reads ticks).flatten
    (reports (diskStep rateU64) (movedBy CountedRead.movedA) ctx ticks).sum % 2 ^ 64 =
        (∑ name ∈ all, traffic Counted.a name (ctx.dev :: reads ticks)) % 2 ^ 64 ∧
      (reports (diskStep rateU64) (movedBy CountedRead.movedB) ctx ticks).sum % 2 ^ 64 =
        (∑ name ∈ all, traffic Counted.b name (ctx.dev :: reads ticks)) % 2 ^ 64 :=
  ⟨read_totals listed listedNow short order orderNow fits movedA movedB,
    run_totals ticks followedCtx followed fun _ => names_within⟩

end Run

def counted (name : Nat) (a : UInt64) : Counted := ⟨[UInt8.ofNat name], a, a⟩

theorem listed_two (a b : UInt64) : Listed [counted 97 a, counted 98 b] := ⟨by simp [counted], show 2 ≤ 1024 by decide⟩

def twoDisks : DiskCtx := ⟨[counted 97 1, counted 98 2], 5, true⟩

/-- On the second of the three ticks the list can not be opened. -/
def diskTicks : List DiskTick :=
  [⟨10, some [counted 97 5, counted 98 7]⟩, ⟨20, none⟩, ⟨30, some [counted 97 9, counted 98 8]⟩]

theorem device_totals_swapped :
    (let read := [counted 98 7, counted 97 5].foldl (countedAdd [counted 98 2, counted 97 1]) ⟨2, [], 0, 0⟩
     read.movedA.toNat =
         (0 + moved Counted.a [counted 97 1, counted 98 2] [counted 97 5, counted 98 7]) % 2 ^ 64 ∧
       read.movedB.toNat =
         (0 + moved Counted.b [counted 97 1, counted 98 2] [counted 97 5, counted 98 7]) % 2 ^ 64 ∧
       read.next = [counted 98 7, counted 97 5]) ∧
    (reports (diskStep fun moved _ => moved) (movedBy CountedRead.movedA) twoDisks diskTicks).sum % 2 ^ 64 =
      (∑ name ∈ names (reads diskTicks).flatten, traffic Counted.a name (twoDisks.dev :: reads diskTicks)) % 2 ^ 64 ∧
    (reports (diskStep fun moved _ => moved) (movedBy CountedRead.movedB) twoDisks diskTicks).sum % 2 ^ 64 =
      (∑ name ∈ names (reads diskTicks).flatten, traffic Counted.b name (twoDisks.dev :: reads diskTicks)) % 2 ^ 64 := by
  have followed : ∀ tick ∈ diskTicks, Followed tick := by
    intro tick held devices opened
    obtain rfl | rfl | rfl := by simpa [diskTicks] using held
    · cases Option.mem_some.mp opened
      exact ⟨listed_two 5 7, by decide⟩
    · cases opened
    · cases Option.mem_some.mp opened
      exact ⟨listed_two 9 8, by decide⟩
  have fits : CursorFits 2 2 := by
    show (2 : UInt32).toNat + 2 ≤ 2 ^ 32
    decide
  exact @device_totals (fun moved _ => moved) _ _ _ _ (listed_two 1 2) (listed_two 5 7) (by decide) (List.Perm.swap _ _ _)
    (List.Perm.swap _ _ _) _ fits 0 0 twoDisks (listed_two 1 2) _ followed

/-- A cursor near the end of its 32 bits misses the second of three devices, and counters that move by more than 64 bits
together are added up modulo that. -/
theorem cursor_misses :
    (let prev := [counted 97 0, counted 98 0, counted 99 0]
     moved Counted.a prev [counted 98 5] = 5 ∧ ([counted 98 5].foldl (countedAdd prev) ⟨0xFFFFFFFE, [], 0, 0⟩).movedA = 0) ∧
    (let prev := [counted 97 0, counted 98 0]
     let now := [counted 97 (2 ^ 63), counted 98 (2 ^ 63)]
     moved Counted.a prev now = 2 ^ 64 ∧ (now.foldl (countedAdd prev) ⟨0, [], 0, 0⟩).movedA = 0) := by
  decide +kernel

end Budyk.Proof
