import Budyk.Storage.Codec

/-! The record codec over its nine layouts: what each one's record decodes to, and that no buffer
makes the decoder read past its end. -/

namespace Budyk.Proof
open Lib Storage

/-- Given `n` bytes the decoder does not read past them, and leaves what follows. -/
def Reads {α : Type} (n : Nat) (p : Cursor α) : Prop :=
  ∀ bytes : List UInt8, n ≤ bytes.length → p bytes ≠ .error .overread ∧
    ∀ a rest, p bytes = .ok (a, rest) → rest.length + n = bytes.length

namespace Reads
variable {α β : Type}

theorem pure (a : α) : Reads 0 (Pure.pure a) := by
  intro bytes _
  refine ⟨by rw [Cursor.pure_apply]; simp, ?_⟩
  intro b rest returned
  cases returned
  rfl

theorem throw (code : Int) (n : Nat) : Reads n (throw (.rc code) : Cursor α) := by
  intro bytes _
  have thrown : (MonadExcept.throw (.rc code) : Cursor α) bytes = .error (.rc code) := rfl
  rw [thrown]
  exact ⟨by simp, by simp⟩

theorem take (n : Nat) : Reads n (Budyk.take n) := by
  intro bytes long
  rw [Budyk.take, if_neg (Nat.not_lt.mpr long)]
  refine ⟨by simp, ?_⟩
  intro a rest returned
  cases returned
  rw [List.length_drop, Nat.sub_add_cancel long]

theorem and_then {n : Nat} {p : Cursor α} {f : α → Cursor β} (first : Reads n p) {bytes : List UInt8}
    (long : n ≤ bytes.length)
    (later : ∀ a rest, rest.length + n = bytes.length → f a rest ≠ .error .overread) :
    (p >>= f) bytes ≠ .error .overread := by
  obtain ⟨inside, left⟩ := first bytes long
  rw [Cursor.bind_apply]
  cases read : p bytes with
  | error e => simpa [read] using inside
  | ok result =>
      obtain ⟨a, rest⟩ := result
      exact later a rest (left a rest read)

theorem bind {n m : Nat} {p : Cursor α} {f : α → Cursor β} (first : Reads n p)
    (later : ∀ a, Reads m (f a)) : Reads (n + m) (p >>= f) := by
  intro bytes long
  refine ⟨first.and_then (by omega) fun a rest size => (later a rest (by omega)).1, ?_⟩
  intro b rest' returned
  rw [Cursor.bind_apply] at returned
  cases read : p bytes with
  | error e => simp [read] at returned
  | ok result =>
      obtain ⟨a, rest⟩ := result
      rw [read] at returned
      have size := (first bytes (by omega)).2 a rest read
      have size' := (later a rest (by omega)).2 b rest' returned
      omega

theorem step {n m : Nat} {p : Cursor α} {f : α → Cursor β} (first : Reads m p) (fits : m ≤ n)
    (later : ∀ a, Reads (n - m) (f a)) : Reads n (p >>= f) := by
  rw [← Nat.add_sub_cancel' fits]
  exact first.bind later

theorem ite {n m : Nat} {c : Prop} [Decidable c] {p q : Cursor α} (yes : Reads n p) (no : Reads m q) :
    Reads (if c then n else m) (if c then p else q) := by
  by_cases h : c
  · rwa [if_pos h, if_pos h]
  · rwa [if_neg h, if_neg h]

theorem guard {n : Nat} {c : Prop} [Decidable c] {code : Int} {p : Cursor α} (passed : Reads n p) :
    Reads n (if c then MonadExcept.throw (.rc code) else p) := by
  simpa using ite (c := c) (throw code n) passed

end Reads

theorem getU8_reads : Reads 1 getU8 := (Reads.take 1).bind fun _ => Reads.pure _
theorem getU32_reads : Reads 4 getU32 := (Reads.take 4).bind fun _ => Reads.pure _
theorem getU64_reads : Reads 8 getU64 := (Reads.take 8).bind fun _ => Reads.pure _
theorem getF64_reads : Reads 8 getF64 := getU64_reads.bind fun _ => Reads.pure _
theorem getBool_reads : Reads 1 getBool := getU8_reads.bind fun _ => Reads.pure _
theorem skip_reads (n : Nat) : Reads n (skip n) := (Reads.take n).bind fun _ => Reads.pure _

theorem decodeV1_reads (out : Sample) : Reads 112 (decodeV1 out) := by
  unfold decodeV1
  refine getU64_reads.step (by decide) fun _ => getU8_reads.step (by decide) fun _ => ?_
  refine Reads.guard ?_
  repeat' with_reducible first
    | exact Reads.pure _
    | refine getF64_reads.step (by decide) fun _ => ?_
    | refine getU64_reads.step (by decide) fun _ => ?_
    | refine getU32_reads.step (by decide) fun _ => ?_
    | refine (skip_reads _).step (by decide) fun _ => ?_

theorem decodeLater_reads (out : Sample) :
    Reads 48 (decodeV2 out) ∧ Reads 8 (decodeV3 out) ∧ Reads 8 (decodeV4 out) ∧ Reads 32 (decodeV5 out) ∧
      Reads 16 (decodeV6 out) ∧ Reads 16 (decodeV7 out) ∧ Reads 72 (decodeV8Cpu out) ∧
      Reads 104 (decodeV8Net out) ∧ Reads 56 (decodeV8Fs out) ∧ Reads 40 (decodeV9 out) := by
  unfold decodeV2 decodeV3 decodeV4 decodeV5 decodeV6 decodeV7 decodeV8Cpu decodeV8Net decodeV8Fs decodeV9
  refine ⟨?_, ?_, ?_, ?_, ?_, ?_, ?_, ?_, ?_, ?_⟩
  all_goals
    repeat' with_reducible first
      | exact Reads.pure _
      | refine getF64_reads.step (by decide) fun _ => ?_
      | refine getU64_reads.step (by decide) fun _ => ?_
      | refine getU32_reads.step (by decide) fun _ => ?_
      | refine getBool_reads.step (by decide) fun _ => ?_
      | refine (skip_reads _).step (by decide) fun _ => ?_

theorem decodeV8_reads (out : Sample) : Reads 232 (decodeV8 out) := by
  obtain ⟨-, -, -, -, -, -, cpu, -, -, -⟩ := decodeLater_reads out
  refine cpu.step (by decide) fun out => ?_
  obtain ⟨-, -, -, -, -, -, -, net, -, -⟩ := decodeLater_reads out
  refine net.step (by decide) fun out => ?_
  obtain ⟨-, -, -, -, -, -, -, -, fs, -⟩ := decodeLater_reads out
  exact fs

theorem sinceVersion_reads {n : Nat} {first : UInt32} {decode : Sample → Cursor Sample}
    {reset : Sample → Sample} (reads : ∀ out, Reads n (decode out)) (version : UInt32) (out : Sample) :
    Reads (if version ≥ first then n else 0) (sinceVersion first decode reset version out) :=
  Reads.ite (reads out) (Reads.pure _)

def bodySize (version : UInt32) : Nat :=
  4 + (112 + ((if version ≥ 2 then 48 else 0) + ((if version ≥ 3 then 8 else 0) +
    ((if version ≥ 4 then 8 else 0) + ((if version ≥ 5 then 32 else 0) + ((if version ≥ 6 then 16 else 0) +
      ((if version ≥ 7 then 16 else 0) + if version < 8 then 0 else 232 + if version < 9 then 0 else 40)))))))

theorem decodeBody_reads (version : UInt32) (out : Sample) :
    Reads (bodySize version) (decodeBody version out) := by
  unfold decodeBody bodySize
  refine getU32_reads.bind fun _ => (decodeV1_reads out).bind fun out => ?_
  refine (sinceVersion_reads (fun out => (decodeLater_reads out).1) version out).bind fun out => ?_
  refine (sinceVersion_reads (fun out => (decodeLater_reads out).2.1) version out).bind fun out => ?_
  refine (sinceVersion_reads (fun out => (decodeLater_reads out).2.2.1) version out).bind fun out => ?_
  refine (sinceVersion_reads (fun out => (decodeLater_reads out).2.2.2.1) version out).bind fun out => ?_
  refine (sinceVersion_reads (fun out => (decodeLater_reads out).2.2.2.2.1) version out).bind fun out => ?_
  refine (sinceVersion_reads (fun out => (decodeLater_reads out).2.2.2.2.2.1) version out).bind fun out => ?_
  refine Reads.ite (Reads.pure _) ((decodeV8_reads _).bind fun out => ?_)
  exact Reads.ite (Reads.pure _) (decodeLater_reads out).2.2.2.2.2.2.2.2.2

theorem version_cases {version : UInt32} (low : 1 ≤ version) (high : version ≤ 9) :
    version = 1 ∨ version = 2 ∨ version = 3 ∨ version = 4 ∨ version = 5 ∨ version = 6 ∨ version = 7 ∨
      version = 8 ∨ version = 9 := by
  have low' : 1 ≤ version.toNat := UInt32.le_iff_toNat_le.mp low
  have high' : version.toNat ≤ 9 := UInt32.le_iff_toNat_le.mp high
  simp only [← UInt32.toNat_inj]
  change version.toNat = 1 ∨ version.toNat = 2 ∨ version.toNat = 3 ∨ version.toNat = 4 ∨
    version.toNat = 5 ∨ version.toNat = 6 ∨ version.toNat = 7 ∨ version.toNat = 8 ∨ version.toNat = 9
  omega

theorem minSize_eq {version : UInt32} (low : 1 ≤ version) (high : version ≤ 9) :
    kMinSize.getD version.toNat 0 = 12 + bodySize version := by
  rcases version_cases low high with rfl | rfl | rfl | rfl | rfl | rfl | rfl | rfl | rfl <;> rfl

theorem sampleDecode_ne_overread (payload : List UInt8) (out : Sample) :
    sampleDecode payload out ≠ .error .overread := by
  unfold sampleDecode
  by_cases short : payload.length < kEncodedSizeV1
  · rw [if_pos short]
    simp
  rw [if_neg short]
  by_cases magic : payload.take 8 ≠ kMagic
  · rw [if_pos magic]
    simp
  rw [if_neg magic]
  have long : 128 ≤ payload.length := Nat.not_lt.mp short
  have inside : decodeVersioned payload.length out payload ≠ .error .overread := by
    refine (skip_reads 8).and_then (by omega) fun _ rest left => ?_
    refine getU32_reads.and_then (by omega) fun version rest' left' => ?_
    by_cases known : (version < 1 || version > 9) = true
    · rw [if_pos known]
      exact ((Reads.throw _ 0) rest' (Nat.zero_le _)).1
    rw [if_neg known]
    by_cases enough : payload.length < kMinSize.getD version.toNat 0
    · rw [if_pos enough]
      exact ((Reads.throw _ 0) rest' (Nat.zero_le _)).1
    rw [if_neg enough]
    simp only [Bool.or_eq_true, decide_eq_true_eq, not_or, gt_iff_lt, UInt32.not_lt] at known
    rw [minSize_eq known.1 known.2] at enough
    exact (decodeBody_reads version out rest' (by omega)).1
  cases read : decodeVersioned payload.length out payload with
  | error e => simpa [read, Except.map] using inside
  | ok result => simp [Except.map]

theorem recordDecode_ne_overread (buf : Record) (out : Sample) :
    recordDecode buf out ≠ .error .overread := by
  by_cases short : buf.length ≤ kRecordHeaderSize
  · rw [recordDecode, if_pos short]
    simp
  rw [recordDecode_of_long (Nat.not_le.mp short)]
  by_cases differs : crcComputed buf ≠ crcStored buf
  · rw [if_pos differs]
    simp
  rw [if_neg differs]
  cases read : sampleDecode (buf.drop kRecordHeaderSize) out with
  | error e =>
      cases e with
      | overread => exact absurd read (sampleDecode_ne_overread _ _)
      | rc code => simp
  | ok out =>
      simp only [applyFraming]
      split <;> simp

/-! ## Records of an older version -/

def groupSince : List (UInt32 × UInt32) :=
  [(kGroupCpu, 1), (kGroupMem, 1), (kGroupSwap, 1), (kGroupLoad, 1), (kGroupUptime, 1), (kGroupDisk, 2),
    (kGroupNet, 2), (kGroupProc, 3), (kGroupEntropy, 4), (kGroupSelf, 5), (kGroupThermal, 6),
    (kGroupFileWatch, 7)]

/-- The groups that a version's records have, from before the mask was stored. -/
def groupsOf (version : UInt32) : UInt32 :=
  ((groupSince.filter fun g => g.2 ≤ version).map Prod.fst).foldl (· ||| ·) 0

def restrictTo (version : UInt32) (s : Sample) : Sample :=
  { s with
    cpu := if 8 ≤ version then s.cpu else { (0 : CpuStats Double) with
      totalPercent := s.cpu.totalPercent, count := s.cpu.count }
    disk := if 2 ≤ version then s.disk else 0
    net := if 2 ≤ version then s.net else 0
    proc := if 8 ≤ version then s.proc
      else if 3 ≤ version then { (0 : ProcessStats) with total := s.proc.total, running := s.proc.running }
      else 0
    entropy := if 4 ≤ version then s.entropy else 0
    self := if 5 ≤ version then s.self else 0
    thermal := if 6 ≤ version then s.thermal else 0
    fileWatch := if 7 ≤ version then s.fileWatch else 0
    tcp := if 8 ≤ version then s.tcp else 0
    udp := if 8 ≤ version then s.udp else 0
    fs := if 8 ≤ version then s.fs else 0
    clock := if 8 ≤ version then s.clock else 0
    icmp := if 9 ≤ version then s.icmp else 0
    groups := if 8 ≤ version then s.groups else groupsOf version }

def setVersion (version : UInt32) (payload : List UInt8) : List UInt8 :=
  payload.take 8 ++ (putU32 version ++ payload.drop 12)

def asVersion (version : UInt32) (s : Sample) : List UInt8 :=
  setVersion version ((sampleEncode s).take (kMinSize.getD version.toNat 0))

def layouts (s : Sample) : List (List UInt8) :=
  [encodeV1 s, encodeV2 s, encodeV3 s, encodeV4 s, encodeV5 s, encodeV6 s, encodeV7 s, encodeV8 s, encodeV9 s]

theorem sampleEncode_layouts (s : Sample) :
    sampleEncode s = kMagic ++ (putU32 kVersionWrite ++ (putU32 0 ++ (layouts s).flatten)) := by
  simp only [sampleEncode, layouts, List.flatten_cons, List.flatten_nil, List.append_nil]

theorem layouts_length {version : UInt32} (low : 1 ≤ version) (high : version ≤ 9) (s : Sample) :
    4 + (((layouts s).take version.toNat).flatten).length = bodySize version := by
  rcases version_cases low high with rfl | rfl | rfl | rfl | rfl | rfl | rfl | rfl | rfl <;>
    simp [layouts, encodeV1_length, encodeV2_length, encodeV3_length, encodeV4_length, encodeV5_length,
      encodeV6_length, encodeV7_length, encodeV8_length, encodeV9_length, bodySize]

theorem asVersion_eq {version : UInt32} (low : 1 ≤ version) (high : version ≤ 9) (s : Sample) :
    asVersion version s =
      kMagic ++ (putU32 version ++ (putU32 0 ++ ((layouts s).take version.toNat).flatten)) := by
  have split : (layouts s).flatten =
      ((layouts s).take version.toNat).flatten ++ ((layouts s).drop version.toNat).flatten := by
    rw [← List.flatten_append, List.take_append_drop]
  have cut : (sampleEncode s).take (kMinSize.getD version.toNat 0) =
      kMagic ++ (putU32 kVersionWrite ++ (putU32 0 ++ ((layouts s).take version.toNat).flatten)) := by
    rw [sampleEncode_layouts, split, ← List.append_assoc (putU32 0), ← List.append_assoc (putU32 _),
      ← List.append_assoc kMagic]
    apply List.take_left'
    have size := layouts_length low high s
    simp only [List.length_append, putU32_length, minSize_eq low high]
    change 8 + (4 + (4 + _)) = _
    omega
  rw [asVersion, setVersion, cut, List.take_left' (show kMagic.length = 8 from rfl)]
  rfl

theorem decodeBody_layouts {version : UInt32} (low : 1 ≤ version) (high : version ≤ 9) (s out : Sample)
    (valid : ValidLevel s.level) :
    decodeBody version out (putU32 0 ++ ((layouts s).take version.toNat).flatten) =
      .ok ({ restrictTo version s with baseline := out.baseline, folded := out.folded }, []) := by
  rcases version_cases low high with rfl | rfl | rfl | rfl | rfl | rfl | rfl | rfl | rfl
  all_goals
    simp only [layouts, UInt32.reduceToNat, List.take_succ_cons, List.take_zero, List.flatten_cons,
      List.flatten_nil, decodeBody, Cursor.bind_apply, Cursor.pure_apply, sinceVersion, getU32_put,
      decodeV1_encodeV1 s _ valid, decodeV2_encodeV2, decodeV3_encodeV3, decodeV4_encodeV4,
      decodeV5_encodeV5, decodeV6_encodeV6, decodeV7_encodeV7, decodeV8_encodeV8, decodeV9_encodeV9,
      clearV8, ge_iff_le, UInt32.reduceLE, UInt32.reduceLT, ite_true, ite_false]
    rfl

theorem sampleDecode_asVersion {version : UInt32} (low : 1 ≤ version) (high : version ≤ 9) (s out : Sample)
    (valid : ValidLevel s.level) :
    sampleDecode (asVersion version s) out =
      .ok { restrictTo version s with baseline := out.baseline, folded := out.folded } := by
  have size : (asVersion version s).length = 12 + bodySize version := by
    rw [asVersion_eq low high, List.length_append, List.length_append, List.length_append, putU32_length,
      putU32_length, ← layouts_length low high s]
    change 8 + _ = _
    omega
  have long : ¬(asVersion version s).length < kEncodedSizeV1 := by
    rw [size, bodySize]
    change ¬_ < 128
    omega
  have magic : (asVersion version s).take 8 = kMagic := by
    rw [asVersion_eq low high]
    exact List.take_left' rfl
  have known : (decide (version < 1) || decide (version > 9)) = false := by
    simp only [Bool.or_eq_false_iff, decide_eq_false_iff_not, UInt32.not_lt, gt_iff_lt]
    exact ⟨low, high⟩
  have enough : ¬12 + bodySize version < kMinSize.getD version.toNat 0 := by
    rw [minSize_eq low high]
    exact lt_irrefl _
  have skipped (rest : List UInt8) : skip 8 (kMagic ++ rest) = .ok ((), rest) := skip_append rfl rest
  have run : decodeVersioned (12 + bodySize version) out (asVersion version s) =
      .ok ({ restrictTo version s with baseline := out.baseline, folded := out.folded }, []) := by
    rw [asVersion_eq low high]
    simp only [decodeVersioned, Cursor.bind_apply, skipped, getU32_put, known, enough, Bool.false_eq_true,
      if_false, decodeBody_layouts low high s out valid]
  rw [sampleDecode, if_neg long, if_neg (not_not.mpr magic), size, run]
  rfl

theorem asVersion_ne_nil {version : UInt32} (low : 1 ≤ version) (high : version ≤ 9) (s : Sample) :
    asVersion version s ≠ [] := by
  rw [asVersion_eq low high]
  exact List.cons_ne_nil _ _

/-- A record gives back every field it stores, whatever the decoder's output held before; one cut to
an older version gives the fields of that version; and no buffer is read past its end. -/
theorem record_round_trip (s out : Sample) (valid : ValidLevel s.level) :
    recordDecode (recordEncode s) out = .ok { s with baseline := out.baseline } ∧
    (∀ version : UInt32, 1 ≤ version → version ≤ 9 →
      recordDecode (frameRecord s (asVersion version s)) out =
        .ok { restrictTo version s with baseline := out.baseline }) ∧
    ∀ buf : Record, recordDecode buf out ≠ .error .overread := by
  refine ⟨recordDecode_recordEncode s out valid, ?_, fun buf => recordDecode_ne_overread buf out⟩
  intro version low high
  rw [recordDecode_frameRecord s out (asVersion_ne_nil low high s), sampleDecode_asVersion low high s out valid]
  simp only [validLevel_check valid, Bool.false_eq_true, if_false]
  rfl

theorem record_round_trip_folded :
    let s : Sample := { mkSample Level.L2 7 with folded := true, groups := kGroupIcmp }
    recordDecode (frameRecord s (asVersion 3 s)) (mkSample Level.L3 1) = .ok (restrictTo 3 s) := by
  intro s
  exact (record_round_trip s (mkSample Level.L3 1) (by decide)).2.1 3 (by decide) (by decide)

end Budyk.Proof
