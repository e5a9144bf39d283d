import Budyk.Spec.Readings
import Mathlib.Tactic.Linarith

namespace Budyk.Proof
open Lib Daemon Spec

section Wanted
variable (set : MetricSet)

theorem hasGroup_ite {c : Prop} [Decidable c] {bit : UInt32} (single : IsBit bit) (a b : UInt32) :
    hasGroup (if c then a ||| b else a) bit = (hasGroup a bit || (decide c && hasGroup b bit)) := by
  by_cases taken : c
  · simp [taken, hasGroup_or single]
  · simp [taken]

theorem minimal_bit (g : MetricGroup) : hasGroup kGroupsMinimal g.bit = decide (g ∈ minimal) := by
  cases g <;> rfl

theorem netstat_bit (g : MetricGroup) : hasGroup kNetstat g.bit = decide (g ∈ netstat) := by
  cases g <;> rfl

theorem group_bit (g : MetricGroup) (l : MetricDetail) : hasGroup (group l).bit g.bit = decide (group l = g) := by
  cases l <;> cases g <;> rfl

theorem netstat_alone {g : MetricGroup} (read : g ∈ netstat) : g ∉ minimal ∧ ∀ l, group l ≠ g := by
  constructor
  · revert read
    cases g <;> decide
  · rintro l rfl
    revert read
    cases l <;> decide

theorem lists_bit (l : MetricDetail) : hasGroup (lists set) l.bit = hasGroup set.detail l.bit := by
  have named : hasGroup kDetailAll l.bit = true := by cases l <;> rfl
  rw [lists, hasGroup_and l.isBit, named, Bool.and_true]

theorem named_bit (g : MetricGroup) : hasGroup (named set) g.bit ↔
    g ∈ minimal ∨ hasGroup set.groups g.bit ∨ ∃ l, hasGroup set.detail l.bit ∧ group l = g := by
  have list (want : UInt32) (l : MetricDetail) :
      hasGroup (if hasGroup (lists set) l.bit then want ||| (group l).bit else want) g.bit ↔
        hasGroup want g.bit ∨ hasGroup set.detail l.bit ∧ group l = g := by
    rw [hasGroup_ite g.isBit, lists_bit, group_bit, Bool.or_eq_true, Bool.and_eq_true, decide_eq_true_iff,
      decide_eq_true_iff]
  have chain : hasGroup (named set) g.bit ↔ ((((hasGroup set.groups g.bit ∨ g ∈ minimal) ∨
      hasGroup set.detail MetricDetail.disks.bit ∧ group .disks = g) ∨
      hasGroup set.detail MetricDetail.interfaces.bit ∧ group .interfaces = g) ∨
      hasGroup set.detail MetricDetail.mounts.bit ∧ group .mounts = g) ∨
      hasGroup set.detail MetricDetail.processes.bit ∧ group .processes = g := by
    apply (list _ .processes).trans (or_congr_left _)
    apply (list _ .mounts).trans (or_congr_left _)
    apply (list _ .interfaces).trans (or_congr_left _)
    apply (list _ .disks).trans (or_congr_left _)
    rw [hasGroup_or g.isBit, minimal_bit, Bool.or_eq_true, decide_eq_true_iff]
  rw [chain]
  constructor
  · rintro (((((held | held) | asked) | asked) | asked) | asked)
    · exact .inr (.inl held)
    · exact .inl held
    all_goals exact .inr (.inr ⟨_, asked⟩)
  · rintro (held | held | ⟨l, asked⟩)
    · exact .inl (.inl (.inl (.inl (.inr held))))
    · exact .inl (.inl (.inl (.inl (.inl held))))
    · cases l with
      | cores =>
          have cpu : g ∈ minimal := by simp [← asked.2, group, minimal]
          exact .inl (.inl (.inl (.inl (.inr cpu))))
      | disks => exact .inl (.inl (.inl (.inr asked)))
      | interfaces => exact .inl (.inl (.inr asked))
      | mounts => exact .inl (.inr asked)
      | processes => exact .inr asked

theorem want_wanted (g : MetricGroup) : hasGroup (want set) g.bit ↔ Wanted set g := by
  have plain (h : MetricGroup) (read : h ∈ netstat) : hasGroup (named set) h.bit ↔ hasGroup set.groups h.bit := by
    rw [named_bit]
    simp [netstat_alone read]
  have netstats : hasGroup (named set) kNetstat ↔ ∃ h ∈ netstat, hasGroup set.groups h.bit := by
    rw [hasGroup_union, hasGroup_union, Bool.or_eq_true, Bool.or_eq_true]
    have := plain .tcp (by decide)
    have := plain .udp (by decide)
    have := plain .icmp (by decide)
    simp_all [netstat, MetricGroup.bit, or_assoc]
  rw [want, hasGroup_ite g.isBit, Bool.or_eq_true, Bool.and_eq_true, decide_eq_true_iff, netstats, named_bit,
    netstat_bit, decide_eq_true_iff, Wanted, or_assoc, or_assoc, and_comm]

end Wanted

section Calls
variable {F : Type} (ctx : CollectContext) (set : MetricSet)

theorem run_failed {bit : UInt32} (single : IsBit bit) (st : Collecting F) (call : Call F) :
    hasGroup (st.run ctx set call).failed bit =
      (hasGroup st.failed bit || (call.made (want set) && decide (call.collector.rc < 0) && hasGroup call.groups bit)) := by
  unfold Collecting.run
  by_cases made : call.made (want set) <;> by_cases good : call.collector.rc ≥ 0
  · simp [made, good, Int.not_lt.mpr good]
  · simp [made, good, hasGroup_or single, Int.not_le.mp good]
  · simp [made]
  · simp [made]

theorem calls_failed {bit : UInt32} (single : IsBit bit) (calls : List (Call F)) (st : Collecting F) :
    hasGroup (calls.foldl (Collecting.run ctx set) st).failed bit = (hasGroup st.failed bit ||
      calls.any fun call => call.made (want set) && decide (call.collector.rc < 0) && hasGroup call.groups bit) := by
  induction calls generalizing st with
  | nil => simp
  | cons call rest ih => rw [List.foldl_cons, ih, run_failed ctx set single, List.any_cons, Bool.or_assoc]

theorem wanted_netstat {g : MetricGroup} (read : g ∈ netstat) :
    Wanted set g ↔ ∃ h ∈ netstat, hasGroup set.groups h.bit := by
  constructor
  · rintro (plain | held | ⟨l, -, same⟩ | ⟨-, held⟩)
    · exact absurd plain (netstat_alone read).1
    · exact ⟨g, read, held⟩
    · exact absurd same ((netstat_alone read).2 l)
    · exact held
  · intro held
    exact .inr (.inr (.inr ⟨read, held⟩))

theorem failed_bit [Zero F] (k : Collectors F) (g : MetricGroup) :
    hasGroup (collect ctx set k).failed g.bit ↔ Wanted set g ∧ Failed k g := by
  have netstats {h : MetricGroup} (read : h ∈ netstat) : hasGroup (want set) kGroupTcp ↔ Wanted set h :=
    (want_wanted set .tcp).trans ((wanted_netstat set (by decide)).trans (wanted_netstat set read).symm)
  rw [collect, calls_failed ctx set g.isBit, hasGroup_zero, Bool.false_or]
  cases g <;> simp +decide only [Collectors.calls, List.any_cons, List.any_nil, MetricGroup.bit, Call.made,
    Bool.or_eq_true, Bool.and_eq_true, Option.all_none, Option.all_some, decide_eq_true_iff, and_true, true_and,
    and_false, or_false, false_or]
  case cpu | mem | swap | load | uptime => exact (and_iff_right (.inl (by decide))).symm
  case disk => exact and_congr_left' (want_wanted set .disk)
  case net => exact and_congr_left' (want_wanted set .net)
  case proc => exact and_congr_left' (want_wanted set .proc)
  case entropy => exact and_congr_left' (want_wanted set .entropy)
  case self => exact and_congr_left' (want_wanted set .self)
  case thermal => exact and_congr_left' (want_wanted set .thermal)
  case fileWatch => exact (iff_of_eq (and_false _)).symm
  case tcp | udp | icmp => exact and_congr_left' (netstats (by decide))
  case fs => exact and_congr_left' (want_wanted set .fs)
  case clock => exact and_congr_left' (want_wanted set .clock)

end Calls

theorem shown_bit {bit : UInt32} (single : IsBit bit) (stepped : Bool) (rates last read : UInt32) :
    hasGroup (shown stepped rates last read) bit =
      (hasGroup read bit && (!hasGroup rates bit || (hasGroup last bit && !stepped))) := by
  unfold shown
  cases stepped <;> simp only [hasGroup_and single, hasGroup_not single, Bool.false_eq_true, if_false, if_true] <;>
    cases hasGroup read bit <;> cases hasGroup rates bit <;> cases hasGroup last bit <;> rfl

section Clock
variable {F : Type} {ctx : CollectContext} {t : CollectTick F}

theorem toNat_since (a b : UInt64) : (if a > b then a - b else 0).toNat = a.toNat - b.toNat := by
  split <;> rename_i later
  · exact UInt64.toNat_sub_of_le a b (UInt64.le_of_lt later)
  · rw [gt_iff_lt, UInt64.lt_iff_toNat_lt, Nat.not_lt] at later
    rw [Nat.sub_eq_zero_of_le later]
    rfl

theorem toNat_apart (a b : UInt64) :
    (if a > b then a - b else b - a).toNat = (a.toNat - b.toNat) + (b.toNat - a.toNat) := by
  split <;> rename_i larger
  · have := UInt64.lt_iff_toNat_lt.mp larger
    rw [UInt64.toNat_sub_of_le a b (UInt64.le_of_lt larger)]
    omega
  · rw [gt_iff_lt, UInt64.not_lt] at larger
    have := UInt64.le_iff_toNat_le.mp larger
    rw [UInt64.toNat_sub_of_le b a larger]
    omega

theorem clockStepped_iff {p : CollectTick F} (wallNs : ctx.lastWallNs = p.sample.timestampNanos)
    (monoNs : ctx.lastMonoNs = p.mono) :
    clockStepped ctx t.sample.timestampNanos t.mono = false ↔ ClockCheck p t := by
  have word (a : UInt64) : a ≠ 0 ↔ a.toNat ≠ 0 := not_congr UInt64.toNat_inj.symm
  have second (a : UInt64) : a > 1000000000 ↔ 1000000000 < a.toNat := UInt64.lt_iff_toNat_lt
  unfold clockStepped ClockCheck ClocksAgree wall Spec.mono
  rw [wallNs, monoNs, abs_le]
  simp only [Bool.and_eq_true, bne_iff_ne, word, decide_eq_true_iff]
  by_cases known : ((t.mono.toNat ≠ 0 ∧ p.sample.timestampNanos.toNat ≠ 0) ∧ p.mono.toNat ≠ 0) ∧ t.mono > p.mono
  · have later := UInt64.lt_iff_toNat_lt.mp known.2
    rw [if_pos known, Bool.or_eq_false_iff, beq_eq_false_iff_ne, word, decide_eq_false_iff_not, second,
      toNat_apart, toNat_since, UInt64.toNat_sub_of_le _ _ (UInt64.le_of_lt known.2)]
    omega
  · rw [if_neg known]
    rw [gt_iff_lt, UInt64.lt_iff_toNat_lt] at known
    constructor
    · intro _
      omega
    · intro _
      rfl

def Remembers (ctx : CollectContext) : Option (CollectTick F) → Prop
  | none => ctx.lastGroups = 0 ∧ ctx.lastDetail = 0
  | some p => (∀ g : MetricGroup, hasGroup ctx.lastGroups g.bit ↔ Reads p g) ∧
      (∀ l : MetricDetail, hasGroup ctx.lastDetail l.bit ↔ ReadsList p l) ∧
      ctx.lastWallNs = p.sample.timestampNanos ∧ ctx.lastMonoNs = p.mono

variable {p : Option (CollectTick F)} (keeps : Remembers ctx p)
include keeps

theorem Remembers.group (g : MetricGroup) : hasGroup ctx.lastGroups g.bit ↔ ∃ last, p = some last ∧ Reads last g := by
  cases p with
  | none => simp [keeps.1, hasGroup_zero]
  | some last => simp [keeps.1]

theorem Remembers.list (l : MetricDetail) : hasGroup ctx.lastDetail l.bit ↔ ∃ last, p = some last ∧ ReadsList last l := by
  cases p with
  | none => simp [keeps.2, hasGroup_zero]
  | some last => simp [keeps.2.1]

theorem Remembers.shown_rate {bit read last rates : UInt32} {Now : Prop} {Was : CollectTick F → Prop} (single : IsBit bit)
    (rate : hasGroup rates bit = true) (now : hasGroup read bit ↔ Now)
    (was : hasGroup last bit ↔ ∃ last, p = some last ∧ Was last) :
    hasGroup (shown (clockStepped ctx t.sample.timestampNanos t.mono) rates last read) bit ↔
      Now ∧ ∃ last, p = some last ∧ Was last ∧ ClockCheck last t := by
  rw [shown_bit single, rate, Bool.and_eq_true, now, Bool.not_true, Bool.false_or, Bool.and_eq_true, was,
    Bool.not_eq_true']
  apply and_congr_right
  intro _
  constructor
  · rintro ⟨⟨q, rfl, held⟩, unstepped⟩
    exact ⟨q, rfl, held, (clockStepped_iff keeps.2.2.1 keeps.2.2.2).mp unstepped⟩
  · rintro ⟨q, rfl, held, agrees⟩
    exact ⟨⟨q, rfl, held⟩, (clockStepped_iff keeps.2.2.1 keeps.2.2.2).mpr agrees⟩

end Clock

section Tick
variable {F : Type} [Zero F] (ctx : CollectContext) (t : CollectTick F)

def readGroups : UInt32 := want t.set &&& ~~~(collect ctx t.set t.collectors).failed

def readLists : UInt32 := lists t.set &&& ~~~failedLists (collect ctx t.set t.collectors).failed

theorem readGroups_bit (g : MetricGroup) : hasGroup (readGroups ctx t) g.bit ↔ Reads t g := by
  rw [readGroups, hasGroup_and g.isBit, hasGroup_not g.isBit, Bool.and_eq_true, Bool.not_eq_true', want_wanted,
    ← Bool.not_eq_true, failed_bit, Reads]
  tauto

theorem failedLists_bit (failed : UInt32) (l : MetricDetail) :
    hasGroup (failedLists failed) l.bit = hasGroup failed (group l).bit := by
  unfold failedLists
  have first : (if hasGroup failed kGroupCpu then kDetailCores else 0) =
      if hasGroup failed kGroupCpu then 0 ||| kDetailCores else 0 := by simp
  rw [first]
  rw [hasGroup_ite l.isBit, hasGroup_ite l.isBit, hasGroup_ite l.isBit, hasGroup_ite l.isBit, hasGroup_ite l.isBit,
    hasGroup_zero]
  rw [Bool.eq_iff_iff]
  cases l <;> simp +decide only [MetricDetail.bit, group, MetricGroup.bit, Bool.or_eq_true, Bool.and_eq_true,
    decide_eq_true_iff, and_true, and_false, or_false, false_or]

theorem readLists_bit (l : MetricDetail) : hasGroup (readLists ctx t) l.bit ↔ ReadsList t l := by
  rw [readLists, hasGroup_and l.isBit, hasGroup_not l.isBit, Bool.and_eq_true, Bool.not_eq_true', failedLists_bit,
    ← Bool.not_eq_true, failed_bit, lists_bit, ReadsList]
  apply and_congr_right
  intro asked
  have wanted : Wanted t.set (group l) := .inr (.inr (.inl ⟨l, asked, rfl⟩))
  rw [and_iff_right wanted]

theorem clearGroups_zero (s : SampleOf F) (groups : UInt32) (g : MetricGroup) (cleared : hasGroup groups g.bit) :
    GroupZero (clearGroups s groups) g := by
  cases g <;> exact if_pos cleared

theorem collected_keeps : Remembers (ctx.collected t).ctx (some t) := by
  refine ⟨?_, ?_, rfl, rfl⟩
  · intro g
    exact readGroups_bit _ t g
  · intro l
    exact readLists_bit _ t l

theorem after_keeps (before : List (ServeTick F)) : Remembers (CollectContext.after before) (previous before) := by
  induction before using List.reverseRecOn with
  | nil => exact ⟨rfl, rfl⟩
  | append_singleton before tick _ =>
      rw [CollectContext.after, List.foldl_append, List.foldl_cons, List.foldl_nil, previous, List.getLast?_concat]
      cases tick with
      | collect t => exact collected_keeps _ t
      | idle => exact ⟨rfl, rfl⟩

theorem rate_bit (g : MetricGroup) : hasGroup kRateGroups g.bit = decide (g ∈ rates) := by
  cases g <;> rfl

theorem rateList_bit (l : MetricDetail) : hasGroup kRateLists l.bit = decide (l ∈ rateLists) := by
  cases l <;> rfl

theorem shown_other {bit rates : UInt32} (single : IsBit bit) (other : hasGroup rates bit = false) (stepped : Bool)
    (last read : UInt32) : hasGroup (shown stepped rates last read) bit = hasGroup read bit := by
  rw [shown_bit single, other, Bool.not_false, Bool.true_or, Bool.and_true]

def haveGroups : UInt32 :=
  shown (clockStepped ctx t.sample.timestampNanos t.mono) kRateGroups ctx.lastGroups
    (readGroups { ctx with monoNowNs := t.mono } t)

def haveLists : UInt32 :=
  shown (clockStepped ctx t.sample.timestampNanos t.mono) kRateLists ctx.lastDetail
    (readLists { ctx with monoNowNs := t.mono } t)

theorem collected_groups : (ctx.collected t).s.groups = kGroupsAll &&& haveGroups ctx t :=
  and_not_and_not kGroupsAll (haveGroups ctx t)

theorem collected_group (g : MetricGroup) : hasGroup (ctx.collected t).s.groups g.bit = hasGroup (haveGroups ctx t) g.bit := by
  have known : hasGroup kGroupsAll g.bit = true := by cases g <;> rfl
  rw [collected_groups, hasGroup_and g.isBit, known, Bool.true_and]

theorem shown_union {bit : UInt32} (single : IsBit bit) (stepped : Bool) (rates last read : UInt32) :
    hasGroup (shown stepped rates last read ||| read &&& ~~~shown stepped rates last read) bit = hasGroup read bit := by
  rw [hasGroup_or single, hasGroup_and single, hasGroup_not single, shown_bit single]
  cases hasGroup read bit <;> cases hasGroup rates bit <;> cases hasGroup last bit <;> cases stepped <;> rfl

theorem groupsAll_bit {bit : UInt32} (single : IsBit bit) (known : hasGroup kGroupsAll bit) :
    ∃ g : MetricGroup, g.bit = bit := by
  obtain ⟨i, less, value⟩ := single
  obtain rfl : bit = ⟨BitVec.twoPow 32 i⟩ := UInt32.toBitVec_inj.mp value
  have named : ∀ i < 32, hasGroup kGroupsAll ⟨BitVec.twoPow 32 i⟩ →
      ∃ g ∈ ([.cpu, .mem, .swap, .load, .disk, .net, .proc, .entropy, .self, .thermal, .fileWatch, .uptime, .tcp, .udp,
        .fs, .clock, .icmp] : List MetricGroup), g.bit = ⟨BitVec.twoPow 32 i⟩ := by
    decide
  obtain ⟨g, -, same⟩ := named i less known
  exact ⟨g, same⟩

theorem detailAll_bit {bit : UInt32} (single : IsBit bit) (known : hasGroup kDetailAll bit) :
    ∃ l : MetricDetail, l.bit = bit := by
  obtain ⟨i, less, value⟩ := single
  obtain rfl : bit = ⟨BitVec.twoPow 32 i⟩ := UInt32.toBitVec_inj.mp value
  have named : ∀ i < 32, hasGroup kDetailAll ⟨BitVec.twoPow 32 i⟩ →
      ∃ l ∈ ([.cores, .disks, .interfaces, .mounts, .processes] : List MetricDetail), l.bit = ⟨BitVec.twoPow 32 i⟩ := by
    decide
  obtain ⟨l, -, same⟩ := named i less known
  exact ⟨l, same⟩

theorem collected_union (g : MetricGroup) :
    hasGroup ((ctx.collected t).s.groups ||| (ctx.collected t).s.baseline) g.bit ↔ Reads t g := by
  rw [hasGroup_or g.isBit, collected_group, ← hasGroup_or g.isBit, ← readGroups_bit { ctx with monoNowNs := t.mono }]
  exact Eq.congr_left (shown_union g.isBit _ _ _ _)

theorem collected_unionList (l : MetricDetail) :
    hasGroup ((ctx.collected t).ctx.detail.collected ||| (ctx.collected t).ctx.detail.baseline) l.bit ↔ ReadsList t l := by
  rw [← readLists_bit { ctx with monoNowNs := t.mono }]
  exact Eq.congr_left (shown_union l.isBit _ _ _ _)

theorem readLists_known {bit : UInt32} (single : IsBit bit) (read : hasGroup (readLists ctx t) bit) :
    hasGroup kDetailAll bit := by
  rw [readLists, lists, hasGroup_and single, hasGroup_and single, Bool.and_eq_true, Bool.and_eq_true] at read
  exact read.1.2

theorem collected_shows {p : Option (CollectTick F)} (keeps : Remembers ctx p) :
    ShowsReadings p t (ctx.collected t).s (ctx.collected t).ctx.detail where
  rate g rate := by
    rw [collected_group]
    exact keeps.shown_rate g.isBit (by rw [rate_bit, decide_eq_true rate]) (readGroups_bit _ t g) (keeps.group g)
  other g other := by
    rw [collected_group, haveGroups, shown_other g.isBit (by rw [rate_bit, decide_eq_false other]), readGroups_bit]
  disjoint := by
    rw [collected_groups]
    exact and_and_not_disjoint _ _ _
  union := collected_union ctx t
  mask bit single := by
    rw [hasGroup_and single, Bool.and_eq_true]
    constructor
    · rintro ⟨held, known⟩
      obtain ⟨g, rfl⟩ := groupsAll_bit single known
      exact ⟨g, rfl, (collected_union ctx t g).mp held⟩
    · rintro ⟨g, rfl, read⟩
      have known : hasGroup kGroupsAll g.bit = true := by cases g <;> rfl
      exact ⟨(collected_union ctx t g).mpr read, known⟩
  within := by
    rw [collected_groups]
    rw [UInt32.and_comm kGroupsAll, UInt32.and_assoc, UInt32.and_not_self, UInt32.and_zero]
  zero g lacks := by
    rw [collected_group, Bool.not_eq_true] at lacks
    have known : hasGroup kGroupsAll g.bit = true := by cases g <;> rfl
    have cleared : hasGroup (kGroupsAll &&& ~~~haveGroups ctx t) g.bit = true := by
      rw [hasGroup_and g.isBit, hasGroup_not g.isBit, known, lacks]
      rfl
    exact clearGroups_zero _ _ g cleared
  rateList l rate :=
    keeps.shown_rate l.isBit (by rw [rateList_bit, decide_eq_true rate]) (readLists_bit _ t l) (keeps.list l)
  otherList l other := by
    change hasGroup (haveLists ctx t) l.bit ↔ _
    rw [haveLists, shown_other l.isBit (by rw [rateList_bit, decide_eq_false other]), readLists_bit]
  disjointList := by
    have disjoint := and_and_not_disjoint (haveLists ctx t) (haveLists ctx t) (readLists { ctx with monoNowNs := t.mono } t)
    rw [UInt32.and_self] at disjoint
    exact disjoint
  unionList := collected_unionList ctx t
  maskList bit single := by
    constructor
    · intro held
      have read : hasGroup (readLists { ctx with monoNowNs := t.mono } t) bit = true :=
        (shown_union single _ _ _ _).symm.trans held
      obtain ⟨l, rfl⟩ := detailAll_bit single (readLists_known _ t single read)
      exact ⟨l, rfl, (collected_unionList ctx t l).mp held⟩
    · rintro ⟨l, rfl, read⟩
      exact (collected_unionList ctx t l).mpr read
  empty l lacks := by
    cases l <;> exact if_neg lacks

end Tick

/-- Every tick shows a rate against the tick right before it, and nothing that was not read. -/
theorem readings_shown {F : Type} [Zero F] (before : List (ServeTick F)) (t : CollectTick F) :
    ShowsReadings (previous before) t ((CollectContext.after before).collected t).s
      ((CollectContext.after before).collected t).ctx.detail :=
  collected_shows _ t (after_keeps before)

def readingTick (wall mono : UInt64) : CollectTick Double :=
  let reads : Collector Double := ⟨0, id, id⟩
  { sample := mkSample Level.L1 wall
    mono
    set := {}
    collectors :=
      { cpu := reads, memory := reads, uptime := reads, load := reads, disk := reads, diskNdev := 0, network := reads
        netNdev := 0, proc := reads, entropy := reads, self := reads, thermal := reads, netstat := reads, fs := reads
        clock := reads } }

/-- A wall clock at zero passes for none: the minute it then jumps is not seen. -/
theorem rate_shown_from_zero_wall : ¬∀ (before : List (ServeTick Double)) (t : CollectTick Double), ∀ g ∈ rates,
    hasGroup ((CollectContext.after before).collected t).s.groups g.bit ↔ Reads t g ∧ ∃ last,
      previous before = some last ∧ Reads last g ∧
        (Spec.mono last ≠ 0 → Spec.mono t ≠ 0 → Spec.mono last < Spec.mono t → ClocksAgree last t) := by
  intro all
  have shown := all [.collect (readingTick 0 1)] (readingTick 60000000000 1000000001) .cpu (by decide)
  obtain ⟨-, last, same, -, agree⟩ := shown.mp (by decide)
  obtain rfl : readingTick 0 1 = last := Option.some.inj same
  have close := (agree (by decide) (by decide) (by decide)).2
  exact absurd close (by decide)

end Budyk.Proof
