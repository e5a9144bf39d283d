import Budyk.Proof.Tui

/-! The processes the terminal client reads in the body the daemon writes. -/

namespace Budyk.Proof
open Lib Web Tui

theorem stringEnd_content {content : List UInt8} (escaped : Escaped content) (rest : List UInt8) :
    stringEnd (content ++ quote :: rest) = some (content, rest) := by
  induction escaped with
  | nil =>
      rw [List.nil_append, stringEnd.eq_def]
      rfl
  | plain noQuote noBackslash _ ih =>
      rw [List.cons_append, stringEnd.eq_def]
      simp only [if_neg noBackslash, if_neg noQuote, ih, Option.map_some]
  | escape c _ ih =>
      rw [List.cons_append, List.cons_append, stringEnd.eq_def]
      simp only [if_true, ih, Option.map_some]

/-! ## A row -/

def setMember (row : ProcessRow) (m : Member) : ProcessRow :=
  match m.value with
  | .number n => row.setNumber (text m.key) n.value
  | .flag _ => row
  | .string v => row.setText (text m.key) (utf8Sanitize v)

def Readable (locale : NumberLocale) (m : Member) : Prop :=
  match m.value with
  | .number n => locale.point = [46] ∨ n.fraction = []
  | .flag _ => False
  | .string _ => True

/-- A number whose text the locale's `strtod` reads to its point only. -/
def Cut (locale : NumberLocale) (m : Member) : Prop :=
  ∃ n, m.value = .number n ∧ locale.point ≠ [46] ∧ n.fraction ≠ []

theorem Cut.not_readable {locale : NumberLocale} {m : Member} (cut : Cut locale m) : ¬Readable locale m := by
  obtain ⟨n, value, point, fraction⟩ := cut
  rw [Readable, value]
  exact not_or.mpr ⟨point, fraction⟩

section Row
variable {locale : NumberLocale} {other : List UInt8 → Option (ℚ × List UInt8)}

theorem parseRow_comma (turns : Nat) (rest : List UInt8) (row : ProcessRow) :
    parseRow locale other (turns + 1) (44 :: rest) row = parseRow locale other turns rest row := rfl

theorem parseRow_end (turns : Nat) (rest : List UInt8) (row : ProcessRow) :
    parseRow locale other (turns + 1) (125 :: rest) row = some (row, rest) := rfl

theorem parseRow_key {m : Member} (word : isWord (text m.key) = true) (turns : Nat) (rest : List UInt8) (row : ProcessRow) :
    parseRow locale other (turns + 1) (m.text ++ rest) row =
      if (m.value.text ++ rest).head? = some quote then
        (stringEnd (m.value.text ++ rest).tail).bind fun (content, after) =>
          parseRow locale other turns after (row.setText (text m.key) (jsonUnescape content))
      else (strtod locale other (m.value.text ++ rest)).bind fun (v, after) =>
        parseRow locale other turns after (row.setNumber (text m.key) v) := by
  have whole : m.text ++ rest = quote :: (text m.key ++ quote :: 58 :: (m.value.text ++ rest)) := by
    simp only [Member.text, List.append_assoc, List.cons_append, List.nil_append]
  have key := stringEnd_content (escaped_of_plain (isWord_plain word)) (58 :: (m.value.text ++ rest))
  rw [whole, parseRow]
  simp only [key]
  rfl

theorem number_not_string (n : Numeral) (rest : List UInt8) : ¬(n.text ++ rest).head? = some quote := by
  obtain ⟨b, more, head, digit⟩ := n.text_head
  rw [head]
  intro same
  obtain rfl : b = quote := Option.some.inj same
  revert digit
  decide

theorem parseRow_member {m : Member} (word : isWord (text m.key) = true) (readable : Readable locale m) (turns : Nat)
    {rest : List UInt8} (ends : AfterNumber rest) (row : ProcessRow) : ∃ after, (after = rest ∨ rest = 44 :: after) ∧
      parseRow locale other (turns + 1) (m.text ++ rest) row = parseRow locale other turns after (setMember row m) := by
  rw [parseRow_key word, setMember]
  rw [Readable] at readable
  cases value : m.value with
  | number n =>
      rw [value] at readable
      obtain ⟨after, read, same⟩ := @strtod_text locale other n rest ends readable
      refine ⟨after, same, ?_⟩
      have number := number_not_string n rest
      simp only [Value.text, if_neg number, read]
      rfl
  | flag b =>
      rw [value] at readable
      exact readable.elim
  | string v =>
      have denotes := jsonEscape_content v
      have contents := stringEnd_content denotes.escaped rest
      refine ⟨rest, .inl rfl, ?_⟩
      have text : (Value.string v).text ++ rest = quote :: (jsonEscape v ++ quote :: rest) := by
        simp [Value.text]
      simp only [text, List.head?_cons, if_true, List.tail_cons, contents, Option.bind_some, jsonUnescape_content denotes]

theorem parseRow_cut {m : Member} (word : isWord (text m.key) = true) (cut : Cut locale m) (turns : Nat)
    {rest : List UInt8} (ends : AfterNumber rest) (row : ProcessRow) :
    parseRow locale other (turns + 1) (m.text ++ rest) row = none := by
  obtain ⟨n, value, point, fraction⟩ := cut
  obtain ⟨more, read⟩ := @strtod_cut locale other n rest ends point fraction
  have number := number_not_string n rest
  rw [parseRow_key word, value]
  simp only [Value.text, if_neg number, read, Option.bind_some]
  cases turns with
  | zero => rfl
  | succ turns => rfl

def membersText (members : List Member) (rest : List UInt8) : List UInt8 :=
  commas (members.map Member.text) ++ 125 :: rest

theorem membersText_cons (m : Member) (members : List Member) (rest : List UInt8) : membersText (m :: members) rest =
    m.text ++ ((if members.map Member.text = [] then [] else 44 :: commas (members.map Member.text)) ++ 125 :: rest) := by
  have split := commas_split [] m.text (members.map Member.text)
  rw [List.nil_append, List.flatMap_nil, List.nil_append] at split
  rw [membersText, List.map_cons, split, List.append_assoc]

theorem membersText_next (m : Member) (members : List Member) (rest : List UInt8) :
    (if (m :: members).map Member.text = [] then [] else 44 :: commas ((m :: members).map Member.text)) ++ 125 :: rest =
      44 :: membersText (m :: members) rest := by
  rw [if_neg (by simp)]
  rfl

theorem parseRow_members {members : List Member} (words : ∀ m ∈ members, isWord (text m.key) = true)
    (readable : ∀ m ∈ members, Readable locale m) {turns : Nat} (enough : 2 * members.length + 1 ≤ turns)
    (rest : List UInt8) (row : ProcessRow) :
    parseRow locale other turns (membersText members rest) row = some (members.foldl setMember row, rest) := by
  induction members generalizing turns row with
  | nil =>
      obtain ⟨turns, rfl⟩ := Nat.exists_eq_add_of_le' enough
      exact parseRow_end turns rest row
  | cons m members ih =>
      rw [List.length_cons] at enough
      obtain ⟨turns, rfl⟩ := Nat.exists_eq_add_of_le' (show 2 ≤ turns by omega)
      obtain ⟨after, same, step⟩ := @parseRow_member locale other m (words m List.mem_cons_self)
        (readable m List.mem_cons_self) (turns + 1) _ (after_member members rest) row
      have later := fun e held => words e (List.mem_cons_of_mem m held)
      have laterRead := fun e held => readable e (List.mem_cons_of_mem m held)
      rw [membersText_cons, step, List.foldl_cons]
      cases members with
      | nil =>
          rcases same with rfl | wrong
          · exact parseRow_end turns rest _
          · cases wrong
      | cons next members =>
          rw [membersText_next] at same
          rcases same with rfl | comma
          · rw [parseRow_comma]
            exact ih later laterRead (by omega) _
          · obtain rfl := (List.cons.inj comma).2
            exact ih later laterRead (by omega) _

theorem parseRow_members_cut {members : List Member} (words : ∀ m ∈ members, isWord (text m.key) = true)
    (kinds : ∀ m ∈ members, Readable locale m ∨ Cut locale m) (cut : ∃ m ∈ members, Cut locale m) (turns : Nat)
    (rest : List UInt8) (row : ProcessRow) : parseRow locale other turns (membersText members rest) row = none := by
  induction members generalizing turns row with
  | nil =>
      obtain ⟨m, held, -⟩ := cut
      cases held
  | cons m members ih =>
      have word := words m List.mem_cons_self
      have later := fun e held => words e (List.mem_cons_of_mem m held)
      have laterKinds := fun e held => kinds e (List.mem_cons_of_mem m held)
      rw [membersText_cons]
      cases turns with
      | zero => rfl
      | succ turns =>
          rcases kinds m List.mem_cons_self with readable | here
          · obtain ⟨after, same, step⟩ := @parseRow_member locale other m word readable turns _ (after_member members rest) row
            rw [step]
            obtain ⟨e, held, missed⟩ := cut
            rcases List.mem_cons.mp held with rfl | among
            · exact absurd readable missed.not_readable
            · cases members with
              | nil => cases among
              | cons next members =>
                  rw [membersText_next] at same
                  rcases same with rfl | comma
                  · cases turns with
                    | zero => rfl
                    | succ turns =>
                        rw [parseRow_comma]
                        exact ih later laterKinds ⟨e, among, missed⟩ turns _
                  · obtain rfl := (List.cons.inj comma).2
                    exact ih later laterKinds ⟨e, among, missed⟩ turns _
          · exact parseRow_cut word here turns (after_member members rest) row

end Row

/-! ## The rows -/

theorem commas_length {items : List (List UInt8)} {least : Nat} (long : ∀ item ∈ items, least ≤ item.length) :
    least * items.length ≤ (commas items).length := by
  induction items with
  | nil => exact Nat.zero_le _
  | cons item items ih =>
      have here := long item List.mem_cons_self
      have later := ih fun other held => long other (List.mem_cons_of_mem _ held)
      have split := commas_split [] item items
      rw [List.nil_append, List.flatMap_nil, List.nil_append] at split
      rw [split, List.length_append, List.length_cons, Nat.mul_succ]
      split
      next none =>
        subst none
        rw [List.length_nil]
        omega
      next =>
        rw [List.length_cons]
        omega

theorem membersText_length (members : List Member) (rest : List UInt8) :
    2 * members.length + 1 ≤ (membersText members rest).length := by
  have long := @commas_length (members.map Member.text) 2 (by
    intro item held
    obtain ⟨m, -, rfl⟩ := List.mem_map.mp held
    simp only [Member.text, List.length_append, List.length_cons]
    omega)
  rw [List.length_map] at long
  rw [membersText, List.length_append, List.length_cons]
  omega

def rowOf (members : List Member) : ProcessRow := members.foldl setMember {}

section Rows
variable {locale : NumberLocale} {other : List UInt8 → Option (ℚ × List UInt8)}

theorem parseRows_comma (turns : Nat) (rest : List UInt8) (rows : List ProcessRow) :
    parseRows locale other (turns + 1) (44 :: rest) rows = parseRows locale other (turns + 1) rest rows := rfl

theorem parseRows_end (turns : Nat) (rest : List UInt8) (rows : List ProcessRow) :
    parseRows locale other (turns + 1) (93 :: rest) rows = rows := rfl

def objectsText (objects : List (List Member)) (rest : List UInt8) : List UInt8 :=
  commas (objects.map object) ++ 93 :: rest

def objectsRest (objects : List (List Member)) (rest : List UInt8) : List UInt8 :=
  (if objects.map object = [] then [] else 44 :: commas (objects.map object)) ++ 93 :: rest

theorem objectsText_cons (members : List Member) (objects : List (List Member)) (rest : List UInt8) :
    objectsText (members :: objects) rest = 123 :: membersText members (objectsRest objects rest) := by
  have split := commas_split [] (object members) (objects.map object)
  rw [List.nil_append, List.flatMap_nil, List.nil_append] at split
  rw [objectsText, List.map_cons, split, objectsRest, membersText, object]
  simp only [List.append_assoc, List.cons_append, List.nil_append]

theorem parseRows_rest (objects : List (List Member)) (turns : Nat) (rest : List UInt8) (rows : List ProcessRow) :
    parseRows locale other (turns + 1) (objectsRest objects rest) rows =
      parseRows locale other (turns + 1) (objectsText objects rest) rows := by
  cases objects with
  | nil => rfl
  | cons members objects => exact parseRows_comma turns (objectsText (members :: objects) rest) rows

theorem parseRows_object (turns : Nat) (members : List Member) (rest : List UInt8) (rows : List ProcessRow) :
    parseRows locale other (turns + 1) (123 :: membersText members rest) rows =
      match parseRow locale other ((membersText members rest).length + 1) (membersText members rest) {} with
      | none => []
      | some (row, after) => parseRows locale other turns after (rows ++ [row]) := rfl

theorem parseRows_objects {objects : List (List Member)}
    (words : ∀ members ∈ objects, ∀ m ∈ members, isWord (text m.key) = true)
    (readable : ∀ members ∈ objects, ∀ m ∈ members, Readable locale m) {turns : Nat} (enough : objects.length < turns)
    (rest : List UInt8) (rows : List ProcessRow) :
    parseRows locale other turns (objectsText objects rest) rows = rows ++ objects.map rowOf := by
  induction objects generalizing turns rows with
  | nil =>
      obtain ⟨turns, rfl⟩ := Nat.exists_eq_succ_of_ne_zero (Nat.ne_of_gt enough)
      rw [List.map_nil, List.append_nil]
      exact parseRows_end turns rest rows
  | cons members objects ih =>
      rw [List.length_cons] at enough
      obtain ⟨turns, rfl⟩ := Nat.exists_eq_add_of_le' (show 2 ≤ turns by omega)
      have row := @parseRow_members locale other members (words members List.mem_cons_self)
        (readable members List.mem_cons_self) _
        (Nat.le_succ_of_le (membersText_length members (objectsRest objects rest))) (objectsRest objects rest) {}
      rw [objectsText_cons, parseRows_object, row]
      change parseRows locale other (turns + 1) _ _ = _
      rw [parseRows_rest, ih (fun o held => words o (List.mem_cons_of_mem _ held))
        (fun o held => readable o (List.mem_cons_of_mem _ held)) (by omega), List.append_assoc]
      rfl

theorem parseRows_objects_cut {objects : List (List Member)}
    (words : ∀ members ∈ objects, ∀ m ∈ members, isWord (text m.key) = true)
    (kinds : ∀ members ∈ objects, ∀ m ∈ members, Readable locale m ∨ Cut locale m)
    (cut : ∃ members ∈ objects, ∃ m ∈ members, Cut locale m) (turns : Nat) (rest : List UInt8) (rows : List ProcessRow) :
    parseRows locale other turns (objectsText objects rest) rows = [] := by
  induction objects generalizing turns rows with
  | nil =>
      obtain ⟨members, held, -⟩ := cut
      cases held
  | cons members objects ih =>
      have word := words members List.mem_cons_self
      rw [objectsText_cons]
      cases turns with
      | zero => rfl
      | succ turns =>
          rw [parseRows_object]
          by_cases here : ∃ m ∈ members, Cut locale m
          · rw [parseRow_members_cut word (kinds members List.mem_cons_self) here]
          · have readable : ∀ m ∈ members, Readable locale m := fun m held =>
              (kinds members List.mem_cons_self m held).resolve_right fun missed => here ⟨m, held, missed⟩
            have row := @parseRow_members locale other members word readable _
              (Nat.le_succ_of_le (membersText_length members (objectsRest objects rest))) (objectsRest objects rest) {}
            rw [row]
            obtain ⟨o, held, missed⟩ := cut
            rcases List.mem_cons.mp held with rfl | among
            · exact absurd missed here
            · change parseRows locale other turns _ _ = _
              cases turns with
              | zero => rfl
              | succ turns =>
                  rw [parseRows_rest]
                  exact ih (fun o held => words o (List.mem_cons_of_mem _ held))
                    (fun o held => kinds o (List.mem_cons_of_mem _ held)) ⟨o, among, missed⟩ _ _

end Rows

/-! ## The processes -/

def processRow (p : ListedProcess) : ProcessRow where
  pid := p.pid
  name := utf8Sanitize p.name
  state := utf8Sanitize (ListedProcess.stateText p)
  cpuPercent := (doubleNumeral p.cpuPercent).value
  rssBytes := p.rssBytes.toNat

theorem rowOf_process (p : ListedProcess) : rowOf (processMembers p) = processRow p := by
  have state : text "state" ≠ text "name" := by decide
  have threads : text "threads" ≠ text "pid" ∧ text "threads" ≠ text "cpu_percent" ∧ text "threads" ≠ text "rss_bytes" := by
    decide
  have cpu : text "cpu_percent" ≠ text "pid" := by decide
  have rss : text "rss_bytes" ≠ text "pid" ∧ text "rss_bytes" ≠ text "cpu_percent" := by decide
  simp only [rowOf, processMembers, kvInt, kvUint, kvStr, kvDouble, List.foldl_cons, List.foldl_nil, setMember,
    ProcessRow.setNumber, ProcessRow.setText, if_true, if_neg state, if_neg threads.1, if_neg threads.2.1,
    if_neg threads.2.2, if_neg cpu, if_neg rss.1, if_neg rss.2, Numeral.value_ofInt, Numeral.value_ofNat,
    Rat.num_intCast, Rat.den_intCast, Nat.cast_one, Int.tdiv_one, processRow]

theorem process_words (p : ListedProcess) : ∀ m ∈ processMembers p, isWord (text m.key) = true := by
  have all : ∀ name ∈ processKeys, isWord (text name) = true := by decide
  intro m held
  apply all
  rw [← processMembers_keys p]
  exact List.mem_map_of_mem held

section Process
variable {locale : NumberLocale} {p : ListedProcess}

theorem process_readable (read : locale.point = [46] ∨ (doubleNumeral p.cpuPercent).fraction = []) :
    ∀ m ∈ processMembers p, Readable locale m := by
  simp [processMembers, kvInt, kvUint, kvStr, kvDouble, Readable, Numeral.ofInt, Numeral.ofNat, read]

theorem process_cut (point : locale.point ≠ [46]) (fraction : (doubleNumeral p.cpuPercent).fraction ≠ []) :
    ∃ m ∈ processMembers p, Cut locale m :=
  ⟨kvDouble "cpu_percent" p.cpuPercent, by simp [processMembers], doubleNumeral p.cpuPercent, rfl, point, fraction⟩

theorem process_kinds : ∀ m ∈ processMembers p, Readable locale m ∨ Cut locale m := by
  intro m held
  cases value : m.value with
  | number n =>
      by_cases read : locale.point = [46] ∨ n.fraction = []
      · exact .inl (by rwa [Readable, value])
      · rw [not_or] at read
        exact .inr ⟨n, value, read.1, read.2⟩
  | string v => exact .inl (by rw [Readable, value]; trivial)
  | flag b =>
      have texts : ∀ m ∈ processMembers p, ∀ b, m.value ≠ .flag b := by
        simp [processMembers, kvInt, kvUint, kvStr, kvDouble]
      exact absurd value (texts m held b)

end Process

/-! ## The list in the body -/

def processesFront (earlier : List Sample) (s : Sample) (d : Detail) : List UInt8 :=
  bodyFront earlier ++ (sampleToJson s ++ (text "],\"detail\":" ++ ([123] ++
    (appendNames "collected" d.collected metricDetailName kDetailAll ++ (detailBaseline d ++ detailLists d)))))

theorem clear_sample {k tail : List UInt8} (word : isWord k = true) (s : Sample)
    (top : ∀ name ∈ ["ts", "level", "folded", "groups", "baseline", "uptime_seconds"], Avoids k name)
    (parts : ∀ part ∈ layout 0, ∀ name ∈ part.1 :: part.2, Avoids k name) : Clear k (58 :: tail) (sampleToJson s) := by
  rw [sampleToJson_eq]
  apply clear_brace.append
  apply (clear_ts word s (top "ts" (by decide))).append
  apply (clear_head word s (top "level" (by decide)) (top "folded" (by decide))).append
  apply (clear_groups word s (top "groups" (by decide))).append
  apply (clear_baseline word s (top "baseline" (by decide))).append
  apply (clear_parts word s parts).append
  exact clear_last word s (top "uptime_seconds" (by decide))

theorem clear_processesFront (earlier : List Sample) (s : Sample) (d : Detail) :
    Clear (text "processes") [58, 91] (processesFront earlier s d) := by
  have word : isWord (text "processes") = true := by decide
  have sample (s : Sample) : Clear (text "processes") [58, 91] (sampleToJson s) :=
    clear_sample word s (by decide) (by decide)
  have count : text "\x7b\"count\":" = [123] ++ (quote :: text "count" ++ [quote, 58]) := by decide
  have samples : text ",\"samples\":[" = [44] ++ (quote :: text "samples" ++ [quote, 58]) ++ [91] := by decide
  have detail : text "],\"detail\":" = [93, 44] ++ (quote :: text "detail" ++ [quote, 58]) := by decide
  have number : quote ∉ decimal (earlier.length + 1) := by
    rw [← Numeral.text_ofNat]
    exact (number_clean _).1
  rw [processesFront, bodyFront, count, samples, detail]
  apply Clear.append
  · apply Clear.append
    · apply Clear.append
      · apply Clear.append
        · exact clear_brace.append (clear_key word (by decide))
        · exact clear_of_unquoted number
      · apply Clear.append
        · exact (clear_of_unquoted (by decide)).append (clear_key word (by decide))
        · exact clear_of_unquoted (by decide)
    · apply clear_flatMap
      intro s _
      exact (sample s).append (clear_of_unquoted (by decide))
  · apply (sample s).append
    apply Clear.append
    · exact (clear_of_unquoted (by decide)).append (clear_key word (by decide))
    · apply clear_brace.append
      apply (clear_names word (by decide) (detailNames_words d.collected)).append
      apply (clear_detailBaseline word d (by decide)).append
      exact clear_lists word d (by decide)

theorem parseProcesses_body {locale : NumberLocale} {other : List UInt8 → Option (ℚ × List UInt8)} (earlier : List Sample)
    (s : Sample) (d : Detail) : ∃ rest turns, d.procs.length < turns ∧
      parseProcesses locale other (samplesToJson (earlier ++ [s]) (some (detailToJson d))) =
        parseRows locale other turns (objectsText (d.procs.map processMembers) rest) [] := by
  have needle : text "\"processes\":[" = quotedKey (text "processes") [58, 91] := by decide
  have length : (quotedKey (text "processes") [58, 91]).length = 13 := by decide
  set rest := [125] ++ text "\x7d\n"
  have body : samplesToJson (earlier ++ [s]) (some (detailToJson d)) = processesFront earlier s d ++
      (quotedKey (text "processes") [58, 91] ++ objectsText (d.procs.map processMembers) rest) := by
    rw [samplesToJson_eq, detailToJson_eq, processesFront, objectsText, listText, List.map_map]
    simp only [quotedKey, List.append_assoc, List.cons_append, List.nil_append, Function.comp_def]
    rfl
  have found := find_passes (clear_processesFront earlier s d
    (quotedKey (text "processes") [58, 91] ++ objectsText (d.procs.map processMembers) rest))
  have long := @commas_length ((d.procs.map processMembers).map object) 2 (by
    intro item held
    obtain ⟨members, -, rfl⟩ := List.mem_map.mp held
    simp [object])
  rw [List.length_map, List.length_map] at long
  refine ⟨rest, (samplesToJson (earlier ++ [s]) (some (detailToJson d))).length + 1, ?_, ?_⟩
  · rw [body, objectsText]
    simp only [List.length_append]
    omega
  · rw [parseProcesses, needle, body, found]
    simp only []
    rw [← length, ← List.append_assoc, ← List.length_append, List.drop_left]

theorem processes_read {locale : NumberLocale} {other : List UInt8 → Option (ℚ × List UInt8)} (earlier : List Sample)
    (s : Sample) (d : Detail) :
    parseProcesses locale other (samplesToJson (earlier ++ [s]) (some (detailToJson d))) = d.procs.map processRow ↔
      locale.point = [46] ∨ ∀ p ∈ d.procs, (doubleNumeral p.cpuPercent).fraction = [] := by
  obtain ⟨rest, turns, enough, parsed⟩ := @parseProcesses_body locale other earlier s d
  have words : ∀ members ∈ d.procs.map processMembers, ∀ m ∈ members, isWord (text m.key) = true := by
    intro members held
    obtain ⟨p, -, rfl⟩ := List.mem_map.mp held
    exact process_words p
  rw [parsed]
  by_cases read : locale.point = [46] ∨ ∀ p ∈ d.procs, (doubleNumeral p.cpuPercent).fraction = []
  · refine iff_of_true ?_ read
    have readable : ∀ members ∈ d.procs.map processMembers, ∀ m ∈ members, Readable locale m := by
      intro members held
      obtain ⟨p, listed, rfl⟩ := List.mem_map.mp held
      exact process_readable (read.imp_right fun whole => whole p listed)
    rw [parseRows_objects words readable (by rwa [List.length_map]), List.nil_append, List.map_map]
    exact List.map_congr_left fun p _ => rowOf_process p
  · refine iff_of_false ?_ read
    obtain ⟨point, fractions⟩ := not_or.mp read
    obtain ⟨p, missed⟩ := not_forall.mp fractions
    obtain ⟨listed, fraction⟩ := Classical.not_imp.mp missed
    have kinds : ∀ members ∈ d.procs.map processMembers, ∀ m ∈ members, Readable locale m ∨ Cut locale m := by
      intro members held
      obtain ⟨p, -, rfl⟩ := List.mem_map.mp held
      exact process_kinds
    rw [parseRows_objects_cut words kinds ⟨processMembers p, List.mem_map_of_mem listed, process_cut point fraction⟩]
    intro same
    have none : d.procs = [] := List.map_eq_nil_iff.mp same.symm
    rw [none] at listed
    cases listed

/-- The client reads what the daemon wrote, all of it, exactly where its locale has a decimal point as the daemon's or
no number it reads has digits after one: the last sample's fields, its lists, and the processes. -/
theorem tui_reads_daemon (locale : NumberLocale) (other : List UInt8 → Option (ℚ × List UInt8)) (earlier : List Sample)
    (s : Sample) (d : Detail) (fallback : ℚ) :
    let body := samplesToJson (earlier ++ [s]) (some (detailToJson d))
    ((∀ f ∈ numberFields s, sampleNumber locale other body f.1 f.2.1 fallback = f.2.2.value) ∧
      (∀ g ∈ kGroupNames,
        (sampleInList body (text "groups") (text g.1) = 1 ↔ hasGroup s.groups g.2 = true) ∧
        (sampleInList body (text "baseline") (text g.1) = 1 ↔ hasGroup s.baseline g.2 = true)) ∧
      parseProcesses locale other body = d.procs.map processRow) ↔
    locale.point = [46] ∨ (∀ f ∈ numberFields s, f.2.2.fraction = []) ∧
      ∀ p ∈ d.procs, (doubleNumeral p.cpuPercent).fraction = [] := by
  intro body
  have lists := fun g listed => @lists_read earlier s d g listed
  have fields : (∀ f ∈ numberFields s, sampleNumber locale other body f.1 f.2.1 fallback = f.2.2.value) ↔
      locale.point = [46] ∨ ∀ f ∈ numberFields s, f.2.2.fraction = [] := by
    have each (f : _) (held : f ∈ numberFields s) :
        sampleNumber locale other body f.1 f.2.1 fallback = f.2.2.value ↔ locale.point = [46] ∨ f.2.2.fraction = [] := by
      rw [fields_read earlier s d fallback f held]
      exact f.2.2.readBy_eq_value_iff
    constructor
    · intro all
      by_cases point : locale.point = [46]
      · exact .inl point
      · exact .inr fun f held => ((each f held).mp (all f held)).resolve_left point
    · exact fun read f held => (each f held).mpr (read.imp_right fun whole => whole f held)
  rw [fields, processes_read]
  constructor
  · rintro ⟨numbers, -, processes⟩
    by_cases point : locale.point = [46]
    · exact .inl point
    · exact .inr ⟨numbers.resolve_left point, processes.resolve_left point⟩
  · rintro (point | ⟨numbers, processes⟩)
    · exact ⟨.inl point, lists, .inl point⟩
    · exact ⟨.inr numbers, lists, .inr processes⟩

def commaLocale : NumberLocale := ⟨[44], .inr (.inl rfl)⟩

def twelveAndAHalf : Double := ⟨0x4029000000000000⟩

def halfBusy : Sample := { (0 : Sample) with cpu := { (0 : CpuStats Double) with totalPercent := twelveAndAHalf } }

def oneProcess : Detail := ⟨kDetailProcesses, 0, [], [], [], [], [⟨42, text "cc1plus", 82, 1, twelveAndAHalf, 4096⟩]⟩

/-- Where the decimal point is a comma 12.5 is read as 12, and the list of processes as empty. -/
theorem fraction_cut_at_comma :
    let body := samplesToJson [halfBusy] (some (detailToJson oneProcess))
    (some (text "cpu"), text "total_percent", doubleNumeral twelveAndAHalf) ∈ numberFields halfBusy ∧
    (doubleNumeral twelveAndAHalf).text = text "12.5" ∧ (doubleNumeral twelveAndAHalf).value = 25 / 2 ∧
    sampleNumber commaLocale (fun _ => none) body (some (text "cpu")) (text "total_percent") 0 = 12 ∧
    parseProcesses commaLocale (fun _ => none) body = [] ∧ oneProcess.procs.map processRow ≠ [] := by
  refine ⟨?_, ?_, ?_, ?_, ?_, ?_⟩
  · exact List.mem_append_right _ (List.mem_flatMap.mpr ⟨_, List.mem_cons_self, List.mem_cons_self⟩)
  · decide +kernel
  · decide +kernel
  · decide +kernel
  · decide +kernel
  · exact List.cons_ne_nil _ _

end Budyk.Proof
