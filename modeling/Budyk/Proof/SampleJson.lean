import Budyk.Lib.KeySearch
import Budyk.Proof.JsonText
import Budyk.Web.SampleJson

/-! What a search for a key passes over in the text of samples and their detail. -/

namespace Budyk.Proof
open Lib Web

theorem number_clean (n : Numeral) : quote ∉ n.text ∧ 125 ∉ n.text := by
  constructor
  all_goals
    intro held
    revert held
    exact fun held => absurd (n.text_bytes _ held) (by decide)

theorem flag_clean (b : Bool) : quote ∉ (Value.flag b).text ∧ 125 ∉ (Value.flag b).text := by
  cases b with
  | false => decide
  | true => decide

section Clear
variable {k tail : List UInt8} (word : isWord k = true)
include word

theorem closedOff_value_text (v : Value) : ClosedOff k (58 :: tail) v.text := by
  cases v with
  | number n => exact (clear_of_unquoted (number_clean n).1).closedOff
  | flag b => exact (clear_of_unquoted (flag_clean b).1).closedOff
  | string v => exact closedOff_value word (jsonEscape_content v).escaped

/-- Neither the key looked for nor bytes that could end it. -/
def Avoids (k : List UInt8) (name : String) : Prop := isWord (text name) = true ∧ text name ≠ k

omit word in
instance (k : List UInt8) (name : String) : Decidable (Avoids k name) := inferInstanceAs (Decidable (_ ∧ _))

theorem clear_key {name : String} (avoids : Avoids k name) : Clear k tail (quote :: text name ++ [quote, 58]) :=
  clear_word word avoids.1 avoids.2 (by decide) (by decide)

theorem closedOff_member {m : Member} (avoids : Avoids k m.key) : ClosedOff k (58 :: tail) m.text := by
  intro stop among
  rw [Member.text, List.append_assoc]
  exact (clear_key word avoids).append (closedOff_value_text word m.value stop among)

theorem clear_object {members : List Member} (avoid : ∀ m ∈ members, Avoids k m.key) :
    Clear k (58 :: tail) (object members) := by
  have opening : Clear k (58 :: tail) [123] := clear_of_unquoted (by decide)
  apply opening.append
  apply closedOff_intercalate _ 125 (by decide)
  intro item held
  obtain ⟨m, member, rfl⟩ := List.mem_map.mp held
  exact closedOff_member word (avoid m member)

theorem clear_objects {α : Type} {items : List α} {members : α → List Member}
    (avoid : ∀ item ∈ items, ∀ m ∈ members item, Avoids k m.key) :
    ClosedOff k (58 :: tail) (commas (items.map fun item => object (members item))) := by
  apply closedOff_intercalate
  intro text held
  obtain ⟨item, member, rfl⟩ := List.mem_map.mp held
  exact (clear_object word (avoid item member)).closedOff

theorem clear_names {key : String} {bits last : UInt32} {nameOf : UInt32 → Option String} (avoids : Avoids k key)
    (words : ∀ name ∈ namesOf bits nameOf last, isWord (text name) = true) :
    Clear k (58 :: tail) (appendNames key bits nameOf last) := by
  have text : appendNames key bits nameOf last = quote :: text key ++ [quote, 58] ++ ([91] ++
      (commas ((namesOf bits nameOf last).map fun name => quote :: Lib.text name ++ [quote]) ++ [93] ++ [44])) := by
    simp [appendNames]
    rfl
  rw [text]
  apply (clear_key word avoids).append
  apply (clear_of_unquoted (by decide)).append
  apply Clear.append
  · apply closedOff_intercalate _ 93 (by decide)
    intro item held
    obtain ⟨name, member, rfl⟩ := List.mem_map.mp held
    exact closedOff_value word (escaped_of_plain (isWord_plain (words name member)))
  · exact clear_of_unquoted (by decide)

theorem clear_section {part : String × List Member} (avoids : Avoids k part.1)
    (avoid : ∀ m ∈ part.2, Avoids k m.key) : Clear k (58 :: tail) (appendSection part) := by
  apply Clear.append
  · exact (clear_key word avoids).append (clear_object word avoid)
  · exact clear_of_unquoted (by decide)

end Clear

/-! ## Names -/

theorem bitsTo_groups : bitsTo kGroupsAll = kGroupNames.map Prod.snd := by decide

theorem bitsTo_details : bitsTo kDetailAll = kCollections.map Prod.snd := by decide

theorem namesOf_table {table : List (String × UInt32)} {bits last : UInt32} {nameOf : UInt32 → Option String}
    (all : bitsTo last = table.map Prod.snd) (named : ∀ e ∈ table, nameOf e.2 = some e.1) :
    namesOf bits nameOf last = (table.filter fun e => hasGroup bits e.2).map Prod.fst := by
  rw [namesOf, all, List.filterMap_map, ← List.filterMap_eq_map, List.filterMap_filter]
  apply List.filterMap_congr
  intro e held
  simp only [Function.comp_apply, named e held, hasGroup, bne_iff_ne]

theorem groupNames_eq (bits : UInt32) : namesOf bits metricGroupName kGroupsAll =
    (kGroupNames.filter fun e => hasGroup bits e.2).map Prod.fst := namesOf_table bitsTo_groups (by decide)

theorem detailNames_eq (bits : UInt32) : namesOf bits metricDetailName kDetailAll =
    (kCollections.filter fun e => hasGroup bits e.2).map Prod.fst := namesOf_table bitsTo_details (by decide)

theorem groupNames_words (bits : UInt32) : ∀ name ∈ namesOf bits metricGroupName kGroupsAll, isWord (text name) = true := by
  have all : ∀ e ∈ kGroupNames, isWord (text e.1) = true := by decide
  intro name held
  rw [groupNames_eq] at held
  obtain ⟨e, listed, rfl⟩ := List.mem_map.mp held
  exact all e (List.mem_filter.mp listed).1

theorem detailNames_words (bits : UInt32) : ∀ name ∈ namesOf bits metricDetailName kDetailAll, isWord (text name) = true := by
  have all : ∀ e ∈ kCollections, isWord (text e.1) = true := by decide
  intro name held
  rw [detailNames_eq] at held
  obtain ⟨e, listed, rfl⟩ := List.mem_map.mp held
  exact all e (List.mem_filter.mp listed).1

/-! ## A sample -/

/-- The names of a sample's sections and of what is in each. -/
def layout (s : Sample) : List (String × List String) := (sampleSections s).map fun part => (part.1, part.2.map Member.key)

theorem layout_eq (s : Sample) : layout s = layout 0 := by
  simp only [layout, sampleSections, List.map_cons, List.map_nil, kvDouble, kvUint, kvBool]

theorem sections_of_layout {P : String → List String → Prop} (all : ∀ l ∈ layout 0, P l.1 l.2) (s : Sample) :
    ∀ part ∈ sampleSections s, P part.1 (part.2.map Member.key) := by
  rw [← layout_eq s] at all
  intro part held
  exact all _ (List.mem_map_of_mem held)

def sampleTs (s : Sample) : List UInt8 := (kvUint "ts" s.timestampNanos).text ++ [44]

def sampleHead (s : Sample) : List UInt8 :=
  (kvInt "level" s.level.toNat).text ++ ([44] ++ if s.folded then (kvBool "folded" true).text ++ [44] else [])

def sampleGroups (s : Sample) : List UInt8 := appendNames "groups" s.groups metricGroupName kGroupsAll

def sampleBaseline (s : Sample) : List UInt8 :=
  if s.baseline ≠ 0 then appendNames "baseline" s.baseline metricGroupName kGroupsAll else []

def sampleLast (s : Sample) : List UInt8 := (kvDouble "uptime_seconds" s.uptimeSeconds).text ++ [125]

theorem sampleToJson_eq (s : Sample) : sampleToJson s = [123] ++ (sampleTs s ++ (sampleHead s ++ (sampleGroups s ++
    (sampleBaseline s ++ ((sampleSections s).flatMap appendSection ++ sampleLast s))))) := by
  simp only [sampleToJson, sampleTs, sampleHead, sampleGroups, sampleBaseline, sampleLast, List.append_assoc,
    List.cons_append, List.nil_append]

section Sample
variable {k tail : List UInt8} (word : isWord k = true)
include word

omit word in
theorem clear_flatMap {α : Type} {f : α → List UInt8} {items : List α} (clear : ∀ item ∈ items, Clear k tail (f item)) :
    Clear k tail (items.flatMap f) := by
  induction items with
  | nil => exact clear_nil
  | cons item items ih =>
      rw [List.flatMap_cons]
      exact (clear item List.mem_cons_self).append (ih fun other held => clear other (List.mem_cons_of_mem _ held))

omit word in
theorem clear_brace : Clear k tail [123] := clear_of_unquoted (by decide)

theorem clear_ts (s : Sample) (avoids : Avoids k "ts") : Clear k (58 :: tail) (sampleTs s) :=
  closedOff_member word avoids 44 (by decide)

theorem clear_head (s : Sample) (level : Avoids k "level") (folded : Avoids k "folded") :
    Clear k (58 :: tail) (sampleHead s) := by
  have first : Clear k (58 :: tail) ((kvInt "level" s.level.toNat).text ++ [44]) :=
    closedOff_member word level 44 (by decide)
  unfold sampleHead
  rw [← List.append_assoc]
  apply first.append
  split
  · exact closedOff_member word folded 44 (by decide)
  · exact clear_nil

theorem clear_groups (s : Sample) (avoids : Avoids k "groups") : Clear k (58 :: tail) (sampleGroups s) :=
  clear_names word avoids (groupNames_words s.groups)

theorem clear_baseline (s : Sample) (avoids : Avoids k "baseline") : Clear k (58 :: tail) (sampleBaseline s) := by
  unfold sampleBaseline
  split
  · exact clear_names word avoids (groupNames_words s.baseline)
  · exact clear_nil

theorem clear_sections {parts : List (String × List Member)}
    (avoid : ∀ part ∈ parts, ∀ name ∈ part.1 :: part.2.map Member.key, Avoids k name) :
    Clear k (58 :: tail) (parts.flatMap appendSection) := by
  apply clear_flatMap
  intro part held
  apply clear_section word (avoid part held part.1 List.mem_cons_self)
  intro m member
  exact avoid part held m.key (List.mem_cons_of_mem _ (List.mem_map_of_mem member))

theorem clear_last (s : Sample) (avoids : Avoids k "uptime_seconds") : Clear k (58 :: tail) (sampleLast s) :=
  closedOff_member word avoids 125 (by decide)

theorem clear_parts (s : Sample) (avoid : ∀ part ∈ layout 0, ∀ name ∈ part.1 :: part.2, Avoids k name) :
    Clear k (58 :: tail) ((sampleSections s).flatMap appendSection) :=
  clear_sections word (@sections_of_layout (fun first others => ∀ name ∈ first :: others, Avoids k name) avoid s)

end Sample

/-! ## The detail -/

def coreKeys : List String :=
  ["id", "total_percent", "user_percent", "system_percent", "iowait_percent", "irq_percent", "steal_percent",
    "idle_percent"]

def diskKeys : List String :=
  ["name", "read_bytes_per_sec", "write_bytes_per_sec", "reads_per_sec", "writes_per_sec", "busy_percent"]

def ifaceKeys : List String :=
  ["name", "rx_bytes_per_sec", "tx_bytes_per_sec", "rx_packets_per_sec", "tx_packets_per_sec", "rx_errors_per_sec",
    "tx_errors_per_sec", "rx_drops_per_sec", "up"]

def mountKeys : List String :=
  ["mount", "type", "device", "total_bytes", "used_bytes", "avail_bytes", "used_percent", "inodes_total", "inodes_used",
    "inodes_used_percent"]

def processKeys : List String := ["pid", "name", "state", "threads", "cpu_percent", "rss_bytes"]

theorem coreMembers_keys (c : CoreUse) : (coreMembers c).map Member.key = coreKeys := by
  simp only [coreMembers, coreKeys, kvDouble, kvUint, List.map_cons, List.map_nil]

theorem diskMembers_keys (x : DiskDev) : (diskMembers x).map Member.key = diskKeys := by
  simp only [diskMembers, diskKeys, kvDouble, kvUint, kvStr, List.map_cons, List.map_nil]

theorem ifaceMembers_keys (x : Iface) : (ifaceMembers x).map Member.key = ifaceKeys := by
  simp only [ifaceMembers, ifaceKeys, kvDouble, kvUint, kvStr, kvBool, List.map_cons, List.map_nil]

theorem mountMembers_keys (x : Mount) : (mountMembers x).map Member.key = mountKeys := by
  simp only [mountMembers, mountKeys, kvDouble, kvUint, kvStr, List.map_cons, List.map_nil]

theorem processMembers_keys (p : ListedProcess) : (processMembers p).map Member.key = processKeys := by
  simp only [processMembers, processKeys, kvDouble, kvUint, kvInt, kvStr, List.map_cons, List.map_nil]

def listText {α : Type} (key : String) (items : List α) (members : α → List Member) : List UInt8 :=
  quote :: text key ++ [quote, 58] ++ ([91] ++ (commas (items.map fun item => object (members item)) ++ [93]))

def detailLists (d : Detail) : List UInt8 :=
  listText "cores" d.cores coreMembers ++ [44] ++ (listText "disks" d.disks diskMembers ++ [44]) ++
    (listText "interfaces" d.ifaces ifaceMembers ++ [44]) ++ (listText "filesystems" d.mounts mountMembers ++ [44])

def detailBaseline (d : Detail) : List UInt8 :=
  if d.baseline ≠ 0 then appendNames "baseline" d.baseline metricDetailName kDetailAll else []

theorem detailToJson_eq (d : Detail) : detailToJson d =
    [123] ++ (appendNames "collected" d.collected metricDetailName kDetailAll ++ (detailBaseline d ++
      (detailLists d ++ (listText "processes" d.procs processMembers ++ [125])))) := by
  have cores : text "\"cores\":[" = quote :: text "cores" ++ [quote, 58, 91] := by decide
  have disks : text "],\"disks\":[" = [93, 44] ++ (quote :: text "disks" ++ [quote, 58, 91]) := by decide
  have interfaces : text "],\"interfaces\":[" = [93, 44] ++ (quote :: text "interfaces" ++ [quote, 58, 91]) := by
    decide
  have filesystems : text "],\"filesystems\":[" = [93, 44] ++ (quote :: text "filesystems" ++ [quote, 58, 91]) := by
    decide
  have processes : text "],\"processes\":[" = [93, 44] ++ (quote :: text "processes" ++ [quote, 58, 91]) := by
    decide
  have ending : text "]\x7d" = [93, 125] := by decide
  simp only [detailToJson, detailBaseline, detailLists, listText, cores, disks, interfaces, filesystems, processes,
    ending, List.append_assoc, List.cons_append, List.nil_append]

section Detail
variable {k tail : List UInt8} (word : isWord k = true)
include word

theorem clear_list {α : Type} {key : String} {items : List α} {members : α → List Member} {keys : List String}
    (keyed : ∀ item, (members item).map Member.key = keys) (avoid : ∀ name ∈ key :: keys, Avoids k name) :
    Clear k (58 :: tail) (listText key items members) := by
  apply (clear_key word (avoid key List.mem_cons_self)).append
  apply (clear_of_unquoted (by decide)).append
  apply clear_objects word _ 93 (by decide)
  intro item held m member
  apply avoid m.key (List.mem_cons_of_mem _ _)
  rw [← keyed item]
  exact List.mem_map_of_mem member

theorem clear_lists (d : Detail) (avoid : ∀ name ∈ ("cores" :: coreKeys) ++ ("disks" :: diskKeys) ++
    ("interfaces" :: ifaceKeys) ++ ("filesystems" :: mountKeys), Avoids k name) :
    Clear k (58 :: tail) (detailLists d) := by
  have comma : Clear k (58 :: tail) [44] := clear_of_unquoted (by decide)
  simp only [List.mem_append] at avoid
  unfold detailLists
  apply Clear.append
  · apply Clear.append
    · apply Clear.append
      · exact (clear_list word coreMembers_keys fun name held => avoid name (.inl (.inl (.inl held)))).append comma
      · exact (clear_list word diskMembers_keys fun name held => avoid name (.inl (.inl (.inr held)))).append comma
    · exact (clear_list word ifaceMembers_keys fun name held => avoid name (.inl (.inr held))).append comma
  · exact (clear_list word mountMembers_keys fun name held => avoid name (.inr held)).append comma

theorem clear_detailBaseline (d : Detail) (avoids : Avoids k "baseline") : Clear k (58 :: tail) (detailBaseline d) := by
  unfold detailBaseline
  split
  · exact clear_names word avoids (detailNames_words d.baseline)
  · exact clear_nil

theorem clear_processes (d : Detail) (avoid : ∀ name ∈ "processes" :: processKeys, Avoids k name) :
    Clear k (58 :: tail) (listText "processes" d.procs processMembers ++ [125]) :=
  (clear_list word processMembers_keys avoid).append (clear_of_unquoted (by decide))

end Detail

/-! ## The body -/

def bodyFront (earlier : List Sample) : List UInt8 :=
  text "\x7b\"count\":" ++ decimal (earlier.length + 1) ++ text ",\"samples\":[" ++
    earlier.flatMap fun s => sampleToJson s ++ [44]

theorem commas_concat (items : List (List UInt8)) (last : List UInt8) :
    commas (items ++ [last]) = items.flatMap (· ++ [44]) ++ last := by
  induction items with
  | nil => simp [commas, List.intercalate]
  | cons item items ih =>
      have more : items ++ [last] ≠ [] := List.append_ne_nil_of_right_ne_nil _ (List.cons_ne_nil _ _)
      rw [List.flatMap_cons, List.append_assoc, ← ih, commas, List.cons_append, List.intercalate_cons_of_ne_nil more]
      simp [commas]

theorem samplesToJson_eq (earlier : List Sample) (s : Sample) (d : Detail) :
    samplesToJson (earlier ++ [s]) (some (detailToJson d)) =
      bodyFront earlier ++ (sampleToJson s ++ (text "],\"detail\":" ++ (detailToJson d ++ text "\x7d\n"))) := by
  have present : (detailToJson d).isEmpty = false := by
    rw [detailToJson_eq]
    rfl
  have opening : text "],\"detail\":" = [93] ++ text ",\"detail\":" := by decide
  rw [samplesToJson, bodyFront, List.length_append, List.length_singleton, List.map_append, List.map_singleton,
    commas_concat, List.flatMap_map, opening]
  simp only [present, Bool.false_eq_true, if_false, List.append_assoc]

end Budyk.Proof
