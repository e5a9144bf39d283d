import Budyk.Proof.SampleJson
import Budyk.Tui.Tui

/-! What the terminal client reads in the body the daemon writes. -/

namespace Budyk.Proof
open Lib Web Tui

def bodyEnd (d : Detail) : List UInt8 := text "],\"detail\":" ++ (detailToJson d ++ text "\x7d\n")

section Body
variable {k tail : List UInt8} (word : isWord k = true)
include word

theorem clear_bodyEnd (d : Detail) (collected : Avoids k "collected") (baseline : Clear k (58 :: tail) (detailBaseline d))
    (avoid : ∀ name ∈ "detail" :: ("cores" :: coreKeys) ++ ("disks" :: diskKeys) ++ ("interfaces" :: ifaceKeys) ++
      ("filesystems" :: mountKeys) ++ ("processes" :: processKeys), Avoids k name) :
    Clear k (58 :: tail) (bodyEnd d) := by
  have opening : text "],\"detail\":" = [93, 44] ++ (quote :: text "detail" ++ [quote, 58]) := by decide
  have ending : text "\x7d\n" = [125, 10] := by decide
  rw [bodyEnd, detailToJson_eq, opening, ending]
  apply Clear.append
  · apply (clear_of_unquoted (by decide)).append
    exact clear_key word (avoid "detail" (by simp))
  · apply Clear.append
    · apply clear_brace.append
      apply (clear_names word collected (detailNames_words d.collected)).append
      apply baseline.append
      apply Clear.append
      · exact clear_lists word d fun name held => avoid name (by
          simp only [List.mem_append, List.mem_cons] at held ⊢
          tauto)
      · exact clear_processes word d fun name held => avoid name (by
          simp only [List.mem_append, List.mem_cons] at held ⊢
          tauto)
    · exact clear_of_unquoted (by decide)

end Body

instance (k : List UInt8) (names : List String) : Decidable (∀ name ∈ names, Avoids k name) :=
  List.decidableBAll _ _

theorem newest_body (earlier : List Sample) (s : Sample) (d : Detail) :
    newest (samplesToJson (earlier ++ [s]) (some (detailToJson d))) = (bodyFront earlier).length := by
  have word : isWord (text "ts") = true := by decide
  have opening : text "\x7b\"ts\":" = 123 :: quotedKey (text "ts") [58] := by decide
  set rest := (Numeral.ofNat s.timestampNanos.toNat).text ++ ([44] ++ (sampleHead s ++ (sampleGroups s ++
    (sampleBaseline s ++ ((sampleSections s).flatMap appendSection ++ (sampleLast s ++ bodyEnd d)))))) with rest_eq
  have clear : Clear (text "ts") [58] (text "ts" ++ [quote, 58] ++ rest) := by
    apply Clear.append
    · apply clear_contents word (escaped_of_plain (isWord_plain word)) (by decide) (by decide)
      exact fun held => absurd rfl (isWord_plain word quote held).1
    · apply (clear_of_unquoted (number_clean _).1).append
      apply (clear_of_unquoted (by decide)).append
      apply (clear_head word s (by decide) (by decide)).append
      apply (clear_groups word s (by decide)).append
      apply (clear_baseline word s (by decide)).append
      apply (clear_parts word s (by decide)).append
      apply (clear_last word s (by decide)).append
      exact clear_bodyEnd word d (by decide) (clear_detailBaseline word d (by decide)) (by decide)
  have body : samplesToJson (earlier ++ [s]) (some (detailToJson d)) =
      bodyFront earlier ++ (123 :: quotedKey (text "ts") [58] ++ rest) := by
    rw [samplesToJson_eq, sampleToJson_eq, rest_eq]
    simp only [sampleTs, bodyEnd, kvUint, Member.text, Value.text, quotedKey, List.append_assoc, List.cons_append,
      List.nil_append]
  have last : rfind (123 :: quotedKey (text "ts") [58]) (bodyFront earlier ++ (123 :: quotedKey (text "ts") [58] ++ rest)) =
      some (bodyFront earlier).length := by
    apply rfind_last
    intro i positive occurs
    obtain ⟨j, rfl⟩ := Nat.exists_eq_succ_of_ne_zero (Nat.ne_of_gt positive)
    rw [List.cons_append, List.drop_succ_cons] at occurs
    obtain ⟨after, same⟩ := occurs
    have later : quotedKey (text "ts") [58] <+: (quotedKey (text "ts") [58] ++ rest).drop (j + 1) := by
      rw [← List.tail_drop, ← same]
      exact List.prefix_append _ _
    refine clear.never j ?_
    simpa [quotedKey] using later
  rw [newest, opening, body, last]
  rfl

/-! ## Lists with commas -/

theorem commas_split (xs : List (List UInt8)) (x : List UInt8) (ys : List (List UInt8)) :
    commas (xs ++ x :: ys) = xs.flatMap (· ++ [44]) ++ (x ++ if ys = [] then [] else 44 :: commas ys) := by
  induction xs with
  | nil =>
      cases ys with
      | nil => simp [commas, List.intercalate]
      | cons y ys => simp [commas, List.intercalate_cons_cons]
  | cons item xs ih =>
      have more : xs ++ x :: ys ≠ [] := List.append_ne_nil_of_right_ne_nil _ (List.cons_ne_nil _ _)
      rw [List.flatMap_cons, List.append_assoc, ← ih, commas, List.cons_append, List.intercalate_cons_of_ne_nil more]
      simp [commas]

theorem mem_commas {b : UInt8} {items : List (List UInt8)} (held : b ∈ commas items) :
    b = 44 ∨ ∃ item ∈ items, b ∈ item := by
  induction items with
  | nil => cases held
  | cons item items ih =>
      rw [show item :: items = [] ++ item :: items from rfl, commas_split, List.flatMap_nil, List.nil_append,
        List.mem_append] at held
      rcases held with here | later
      · exact .inr ⟨item, List.mem_cons_self, here⟩
      · split at later
        · cases later
        · rcases List.mem_cons.mp later with comma | inside
          · exact .inl comma
          · rcases ih inside with comma | ⟨other, listed, among⟩
            · exact .inl comma
            · exact .inr ⟨other, List.mem_cons_of_mem _ listed, among⟩

theorem member_head (m : Member) : ∃ more, m.text = quote :: more := ⟨_, rfl⟩

theorem after_member (members : List Member) (rest : List UInt8) :
    AfterNumber ((if members.map Member.text = [] then [] else 44 :: commas (members.map Member.text)) ++ 125 :: rest) := by
  cases members with
  | nil => exact .inr ⟨rest, rfl⟩
  | cons m members =>
      obtain ⟨more, head⟩ := member_head m
      have split := commas_split [] m.text (members.map Member.text)
      rw [head, List.nil_append, List.flatMap_nil, List.nil_append] at split
      rw [List.map_cons, if_neg (List.cons_ne_nil _ _), head, split]
      exact .inl ⟨_, rfl⟩

/-! ## Numbers -/

section Numbers
variable {locale : NumberLocale} {other : List UInt8 → Option (ℚ × List UInt8)}

theorem numberIn_read {key first rest : List UInt8} (before : List UInt8) (n : Numeral) (fallback : ℚ) {end_ : Nat}
    (clear : Clear key [58] first) (ends : AfterNumber rest) (inside : before.length + first.length < end_) :
    numberIn locale other (before ++ (first ++ (quotedKey key [58] ++ (n.text ++ rest)))) key fallback before.length
      end_ = n.readBy locale := by
  have needle : quote :: key ++ text "\":" = quotedKey key [58] := by
    rw [show text "\":" = [quote, 58] by decide]
    rfl
  have found := findFrom_passes before (clear (quotedKey key [58] ++ (n.text ++ rest)))
  set body := before ++ (first ++ (quotedKey key [58] ++ (n.text ++ rest))) with body_eq
  have dropped : body.drop (before.length + first.length + (quotedKey key [58]).length) = n.text ++ rest := by
    rw [body_eq, ← List.append_assoc first, ← List.append_assoc before]
    have length : before.length + first.length + (quotedKey key [58]).length =
        (before ++ (first ++ quotedKey key [58])).length := by
      rw [List.length_append, List.length_append, Nat.add_assoc]
    rw [length, List.drop_left]
  obtain ⟨b, more, head, digit⟩ := n.text_head
  have visible : ¬((b = 32 || b = tab) = true) := by
    rcases digit with digit | rfl
    · have blank := (isDigit_plain b digit).1
      rw [Bool.or_eq_true, decide_eq_true_eq, decide_eq_true_eq]
      rintro (rfl | rfl)
      · cases blank
      · cases blank
    · decide
  have blanks (room : Nat) : ((n.text ++ rest).take room).takeWhile (fun b => b = 32 || b = tab) = [] := by
    rw [head]
    cases room with
    | zero => rfl
    | succ room => exact List.takeWhile_cons_of_neg visible
  obtain ⟨after, value⟩ := @strtod_readBy locale other rest n ends
  simp only [numberIn, needle, found, if_neg (Nat.not_le_of_gt inside), dropped, blanks, List.length_nil, Nat.add_zero,
    value]

end Numbers

/-! ## The sections of a sample -/

def unquoted : Value → Bool
  | .string _ => false
  | _ => true

theorem sections_unquoted (s : Sample) : ∀ part ∈ sampleSections s, ∀ m ∈ part.2, unquoted m.value = true := by
  simp [sampleSections, kvDouble, kvUint, kvBool, unquoted]

/-- Names of keys only, no two the same in one section, and no section's name the name of anything before it. -/
structure Distinct (parts : List (String × List String)) : Prop where
  words : ∀ part ∈ parts, ∀ name ∈ part.1 :: part.2, isWord (text name) = true
  sections : parts.Pairwise fun p q => ∀ name ∈ p.1 :: p.2, text name ≠ text q.1
  keys : ∀ part ∈ parts, part.2.Pairwise fun a b => text a ≠ text b
  top : ∀ part ∈ parts, ∀ name ∈ ["ts", "level", "folded", "groups", "baseline"], text name ≠ text part.1

theorem layout_distinct (s : Sample) : Distinct (layout s) := by
  rw [layout_eq]
  refine ⟨?_, ?_, ?_, ?_⟩
  · decide
  · decide
  · decide
  · decide

section Sections
variable {s : Sample} {pre post : List (String × List Member)} {part : String × List Member}

theorem section_avoids (split : sampleSections s = pre ++ part :: post) : isWord (text part.1) = true ∧
    (∀ p ∈ pre, ∀ name ∈ p.1 :: p.2.map Member.key, Avoids (text part.1) name) ∧
    ∀ name ∈ ["ts", "level", "folded", "groups", "baseline"], Avoids (text part.1) name := by
  have distinct := layout_distinct s
  have listed : ∀ p ∈ pre ++ part :: post, (p.1, p.2.map Member.key) ∈ layout s := by
    intro p held
    rw [layout, split]
    exact List.mem_map_of_mem held
  have here := listed part (by simp)
  have apart := distinct.sections
  rw [layout, split, List.pairwise_map, List.pairwise_append] at apart
  refine ⟨distinct.words _ here part.1 List.mem_cons_self, ?_, ?_⟩
  · intro p held name among
    exact ⟨distinct.words _ (listed p (List.mem_append_left _ held)) name among,
      apart.2.2 p held part List.mem_cons_self name among⟩
  · intro name held
    have words : ∀ name ∈ ["ts", "level", "folded", "groups", "baseline"], isWord (text name) = true := by decide
    exact ⟨words name held, distinct.top _ here name held⟩

theorem member_avoids {m : Member} {mpre mpost : List Member} (held : part ∈ sampleSections s)
    (members : part.2 = mpre ++ m :: mpost) :
    isWord (text m.key) = true ∧ ∀ e ∈ mpre, Avoids (text m.key) e.key := by
  have distinct := layout_distinct s
  have listed : (part.1, part.2.map Member.key) ∈ layout s := List.mem_map_of_mem held
  have word (e : Member) (inside : e ∈ part.2) : isWord (text e.key) = true :=
    distinct.words _ listed e.key (List.mem_cons_of_mem _ (List.mem_map_of_mem inside))
  have apart := distinct.keys _ listed
  rw [List.pairwise_map, members, List.pairwise_append] at apart
  refine ⟨word m (by rw [members]; simp), fun e early => ⟨word e ?_, apart.2.2 e early m List.mem_cons_self⟩⟩
  rw [members]
  exact List.mem_append_left _ early

theorem clear_members {k tail : List UInt8} (word : isWord k = true) {members : List Member}
    (avoid : ∀ m ∈ members, Avoids k m.key) :
    Clear k (58 :: tail) ((members.map Member.text).flatMap (· ++ [44])) := by
  apply clear_flatMap
  intro item held
  obtain ⟨m, listed, rfl⟩ := List.mem_map.mp held
  exact closedOff_member word (avoid m listed) 44 (by decide)

theorem brace_not_mem {members : List Member} (words : ∀ m ∈ members, isWord (text m.key) = true)
    (plain : ∀ m ∈ members, unquoted m.value = true) : 125 ∉ commas (members.map Member.text) := by
  intro held
  rcases mem_commas held with wrong | ⟨item, listed, inside⟩
  · cases wrong
  · obtain ⟨m, member, rfl⟩ := List.mem_map.mp listed
    rw [Member.text, List.mem_append] at inside
    rcases inside with key | value
    · simp only [List.cons_append, List.mem_cons, List.mem_append, List.not_mem_nil, or_false] at key
      rcases key with wrong | letter | wrong | wrong
      · cases wrong
      · have byte := words m member
        rw [isWord, Bool.and_eq_true, List.all_eq_true] at byte
        cases byte.2 125 letter
      · cases wrong
      · cases wrong
    · have kind := plain m member
      cases form : m.value with
      | number n =>
          rw [form] at value
          exact (number_clean n).2 value
      | flag b =>
          rw [form] at value
          exact (flag_clean b).2 value
      | string v =>
          rw [form] at kind
          cases kind

end Sections

theorem sampleNumber_section {locale : NumberLocale} {other : List UInt8 → Option (ℚ × List UInt8)} (earlier : List Sample)
    {s : Sample} (d : Detail) {pre post : List (String × List Member)} {part : String × List Member}
    {mpre mpost : List Member} {m : Member} {n : Numeral} (fallback : ℚ)
    (split : sampleSections s = pre ++ part :: post) (members : part.2 = mpre ++ m :: mpost)
    (value : m.value = .number n) :
    sampleNumber locale other (samplesToJson (earlier ++ [s]) (some (detailToJson d))) (some (text part.1)) (text m.key)
      fallback = n.readBy locale := by
  have held : part ∈ sampleSections s := by
    rw [split]
    simp
  obtain ⟨word, avoidPre, avoidTop⟩ := section_avoids split
  obtain ⟨keyWord, avoidMembers⟩ := member_avoids held members
  set first := [123] ++ (sampleTs s ++ (sampleHead s ++ (sampleGroups s ++ (sampleBaseline s ++
    pre.flatMap appendSection)))) with first_eq
  have clear : Clear (text part.1) [58, 123] first := by
    apply clear_brace.append
    apply (clear_ts word s (avoidTop "ts" (by decide))).append
    apply (clear_head word s (avoidTop "level" (by decide)) (avoidTop "folded" (by decide))).append
    apply (clear_groups word s (avoidTop "groups" (by decide))).append
    apply (clear_baseline word s (avoidTop "baseline" (by decide))).append
    exact clear_sections word avoidPre
  set opening := quotedKey (text part.1) [58, 123] with opening_eq
  set inner := commas (part.2.map Member.text) with inner_eq
  set rest := [44] ++ (post.flatMap appendSection ++ (sampleLast s ++ bodyEnd d)) with rest_eq
  have body : samplesToJson (earlier ++ [s]) (some (detailToJson d)) =
      bodyFront earlier ++ (first ++ (opening ++ (inner ++ ([125] ++ rest)))) := by
    rw [samplesToJson_eq, sampleToJson_eq, split, List.flatMap_append, List.flatMap_cons, first_eq, opening_eq, inner_eq,
      rest_eq]
    simp only [appendSection, object, quotedKey, bodyEnd, List.append_assoc, List.cons_append, List.nil_append]
  have noBrace : 125 ∉ inner := by
    apply brace_not_mem _ (sections_unquoted s part held)
    intro e inside
    obtain ⟨mpre, mpost, whole⟩ := List.append_of_mem inside
    exact (member_avoids held whole).1
  set early := (mpre.map Member.text).flatMap (· ++ [44]) with early_eq
  set after := (if mpost.map Member.text = [] then [] else 44 :: commas (mpost.map Member.text)) ++ 125 :: rest
    with after_eq
  have inside : inner ++ ([125] ++ rest) = early ++ (quotedKey (text m.key) [58] ++ (n.text ++ after)) := by
    rw [inner_eq, members, List.map_append, List.map_cons, commas_split, early_eq, after_eq, Member.text, value]
    simp only [Value.text, quotedKey, List.append_assoc, List.cons_append, List.nil_append]
  have shorter : early.length < inner.length := by
    rw [inner_eq, members, List.map_append, List.map_cons, commas_split, ← early_eq, Member.text]
    simp only [List.length_append, List.length_cons]
    omega
  have ends : AfterNumber after := after_member mpost rest
  have clearEarly : Clear (text m.key) [58] early := clear_members keyWord avoidMembers
  clear_value first opening inner rest early after
  have passes := clear (opening ++ (inner ++ ([125] ++ rest)))
  rw [← opening_eq] at passes
  have start := findFrom_passes (bodyFront earlier) passes
  have closing := findFrom_passes (bodyFront earlier ++ (first ++ opening))
    (@passes_of_not_mem _ [] inner ([125] ++ rest) 125 noBrace)
  have length : (bodyFront earlier).length + first.length + opening.length =
      (bodyFront earlier ++ (first ++ opening)).length := by
    rw [List.length_append, List.length_append, Nat.add_assoc]
  have whole : bodyFront earlier ++ (first ++ (opening ++ (inner ++ ([125] ++ rest)))) =
      bodyFront earlier ++ (first ++ opening) ++ (inner ++ ([125] ++ rest)) := by
    simp only [List.append_assoc]
  have read := @numberIn_read locale other _ _ _ (bodyFront earlier ++ (first ++ opening)) n fallback _
    clearEarly ends (Nat.add_lt_add_left shorter _)
  have needle : quote :: text part.1 ++ text "\":\x7b" = opening := by
    rw [opening_eq, show text "\":\x7b" = [quote, 58, 123] by decide]
    rfl
  rw [sampleNumber, newest_body, body]
  simp only [needle, start, length]
  rw [whole]
  simp only [closing]
  rw [inside]
  exact read

/-! ## The fields of a sample -/

section Top
variable {locale : NumberLocale} {other : List UInt8 → Option (ℚ × List UInt8)} (earlier : List Sample) {s : Sample}
  {d : Detail} (fallback : ℚ)

theorem sampleNumber_top {key first rest : List UInt8} {n : Numeral} (clear : Clear key [58] first)
    (ends : AfterNumber rest)
    (whole : sampleToJson s ++ bodyEnd d = first ++ (quotedKey key [58] ++ (n.text ++ rest))) :
    sampleNumber locale other (samplesToJson (earlier ++ [s]) (some (detailToJson d))) none key fallback =
      n.readBy locale := by
  have body : samplesToJson (earlier ++ [s]) (some (detailToJson d)) =
      bodyFront earlier ++ (first ++ (quotedKey key [58] ++ (n.text ++ rest))) := by
    rw [samplesToJson_eq, ← whole]
    rfl
  rw [sampleNumber, newest_body, body]
  apply numberIn_read (bodyFront earlier) n fallback clear ends
  simp only [List.length_append, List.length_cons]
  omega

theorem sampleNumber_ts : sampleNumber locale other (samplesToJson (earlier ++ [s]) (some (detailToJson d))) none
    (text "ts") fallback = (Numeral.ofNat s.timestampNanos.toNat).readBy locale := by
  set later := sampleGroups s ++ (sampleBaseline s ++ ((sampleSections s).flatMap appendSection ++ (sampleLast s ++
    bodyEnd d))) with later_eq
  obtain ⟨more, next⟩ : ∃ more, sampleHead s ++ later = quote :: more := ⟨_, rfl⟩
  refine sampleNumber_top earlier fallback clear_brace (.inl ⟨more, rfl⟩) ?_
  rw [← next, sampleToJson_eq, later_eq]
  simp only [sampleTs, kvUint, Member.text, Value.text, quotedKey, List.append_assoc, List.cons_append, List.nil_append]

theorem sampleNumber_level : sampleNumber locale other (samplesToJson (earlier ++ [s]) (some (detailToJson d))) none
    (text "level") fallback = (Numeral.ofInt s.level.toNat).readBy locale := by
  have word : isWord (text "level") = true := by decide
  have clear : Clear (text "level") [58] ([123] ++ sampleTs s) :=
    clear_brace.append (clear_ts word s (by decide))
  set later := sampleBaseline s ++ ((sampleSections s).flatMap appendSection ++ (sampleLast s ++ bodyEnd d)) with later_eq
  obtain ⟨more, next⟩ : ∃ more, (if s.folded then (kvBool "folded" true).text ++ [44] else []) ++
      (sampleGroups s ++ later) = quote :: more := by
    split
    · exact ⟨_, rfl⟩
    · exact ⟨_, rfl⟩
  refine sampleNumber_top earlier fallback clear (.inl ⟨more, rfl⟩) ?_
  rw [← next, sampleToJson_eq, later_eq]
  simp only [sampleHead, kvInt, Member.text, Value.text, quotedKey, List.append_assoc, List.cons_append,
    List.nil_append]

theorem sampleNumber_uptime : sampleNumber locale other (samplesToJson (earlier ++ [s]) (some (detailToJson d))) none
    (text "uptime_seconds") fallback = (doubleNumeral s.uptimeSeconds).readBy locale := by
  have word : isWord (text "uptime_seconds") = true := by decide
  have clear : Clear (text "uptime_seconds") [58] ([123] ++ (sampleTs s ++ (sampleHead s ++ (sampleGroups s ++
      (sampleBaseline s ++ (sampleSections s).flatMap appendSection))))) := by
    apply clear_brace.append
    apply (clear_ts word s (by decide)).append
    apply (clear_head word s (by decide) (by decide)).append
    apply (clear_groups word s (by decide)).append
    apply (clear_baseline word s (by decide)).append
    exact clear_parts word s (by decide)
  refine sampleNumber_top earlier fallback clear (.inr ⟨bodyEnd d, rfl⟩) ?_
  rw [sampleToJson_eq]
  simp only [sampleLast, kvDouble, Member.text, Value.text, quotedKey, List.append_assoc, List.cons_append,
    List.nil_append]

end Top

/-- A numeric field: its section, if any, its key, and the number written. -/
def Member.field (section_ : Option (List UInt8)) (m : Member) : Option (Option (List UInt8) × List UInt8 × Numeral) :=
  match m.value with
  | .number n => some (section_, text m.key, n)
  | _ => none

def numberFields (s : Sample) : List (Option (List UInt8) × List UInt8 × Numeral) :=
  [(none, text "ts", .ofNat s.timestampNanos.toNat), (none, text "level", .ofInt s.level.toNat),
    (none, text "uptime_seconds", doubleNumeral s.uptimeSeconds)] ++
  (sampleSections s).flatMap fun part => part.2.filterMap (Member.field (some (text part.1)))

theorem fields_read {locale : NumberLocale} {other : List UInt8 → Option (ℚ × List UInt8)} (earlier : List Sample) (s : Sample)
    (d : Detail) (fallback : ℚ) : ∀ f ∈ numberFields s,
      sampleNumber locale other (samplesToJson (earlier ++ [s]) (some (detailToJson d))) f.1 f.2.1 fallback =
        f.2.2.readBy locale := by
  intro f held
  rcases List.mem_append.mp held with top | inSection
  · simp only [List.mem_cons, List.not_mem_nil, or_false] at top
    rcases top with rfl | rfl | rfl
    · exact sampleNumber_ts earlier fallback
    · exact sampleNumber_level earlier fallback
    · exact sampleNumber_uptime earlier fallback
  · obtain ⟨part, listed, inside⟩ := List.mem_flatMap.mp inSection
    obtain ⟨m, member, field⟩ := List.mem_filterMap.mp inside
    obtain ⟨pre, post, split⟩ := List.append_of_mem listed
    obtain ⟨mpre, mpost, members⟩ := List.append_of_mem member
    cases value : m.value with
    | number n =>
        rw [Member.field, value] at field
        cases field
        exact sampleNumber_section earlier d fallback split members value
    | flag b =>
        rw [Member.field, value] at field
        cases field
    | string v =>
        rw [Member.field, value] at field
        cases field

/-! ## The lists of a sample -/

section Lists
variable {key name first rest before : List UInt8} {names : List (List UInt8)}

def listing (key : List UInt8) (names : List (List UInt8)) : List UInt8 :=
  quotedKey key [58, 91] ++ commas (names.map fun name => quote :: name ++ [quote])

theorem bracket_not_mem (keyWord : isWord key = true) (words : ∀ n ∈ names, isWord n = true) : 93 ∉ listing key names := by
  have letters {k : List UInt8} (word : isWord k = true) : 93 ∉ k := by
    intro held
    rw [isWord, Bool.and_eq_true, List.all_eq_true] at word
    cases word.2 93 held
  intro held
  rcases List.mem_append.mp held with opening | inside
  · simp only [List.mem_cons, List.mem_append, List.not_mem_nil, or_false] at opening
    rcases opening with wrong | letter | wrong | wrong | wrong
    · cases wrong
    · exact letters keyWord letter
    · cases wrong
    · cases wrong
    · cases wrong
  · rcases mem_commas inside with wrong | ⟨item, listed, among⟩
    · cases wrong
    · obtain ⟨n, member, rfl⟩ := List.mem_map.mp listed
      simp only [List.cons_append, List.mem_cons, List.mem_append, List.not_mem_nil, or_false] at among
      rcases among with wrong | letter | wrong
      · cases wrong
      · exact letters (words n member) letter
      · cases wrong

theorem listing_occurs (held : name ∈ names) (rest : List UInt8) :
    ∃ i < (listing key names).length, quotedKey name [] <+: (listing key names ++ rest).drop i := by
  obtain ⟨pre, post, rfl⟩ := List.append_of_mem held
  set early := quotedKey key [58, 91] ++ (pre.map fun name => quote :: name ++ [quote]).flatMap (· ++ [44]) with early_eq
  obtain ⟨later, split⟩ : ∃ later, listing key (pre ++ name :: post) = early ++ (quotedKey name [] ++ later) := by
    have here : quote :: name ++ [quote] = quotedKey name [] := rfl
    rw [listing, List.map_append, List.map_cons, commas_split, ← List.append_assoc, ← early_eq, here]
    exact ⟨_, rfl⟩
  refine ⟨early.length, ?_, ?_⟩
  · rw [split]
    simp only [List.length_append, List.length_cons]
    omega
  · rw [split, List.append_assoc, List.drop_left, List.append_assoc]
    exact List.prefix_append _ _

theorem clear_listing (nameWord : isWord name = true) (keyWord : isWord key = true) (differs : key ≠ name)
    (words : ∀ n ∈ names, isWord n = true) (absent : name ∉ names) : Clear name [] (listing key names ++ [93]) := by
  have opening : quotedKey key [58, 91] = quote :: key ++ [quote, 58] ++ [91] := by simp [quotedKey]
  rw [listing, opening, List.append_assoc, List.append_assoc]
  apply (clear_word nameWord keyWord differs (by decide) (by decide)).append
  apply (clear_of_unquoted (by decide)).append
  apply closedOff_intercalate _ 93 (by decide)
  intro item held
  obtain ⟨n, member, rfl⟩ := List.mem_map.mp held
  exact closedOff_word nameWord (words n member) fun same => absent (same ▸ member)

theorem sampleInList_listing (last : newest (before ++ (first ++ (listing key names ++ 93 :: rest))) = before.length)
    (clear : Clear key [58, 91] first) (keyWord : isWord key = true) (nameWord : isWord name = true) (differs : key ≠ name)
    (words : ∀ n ∈ names, isWord n = true) :
    sampleInList (before ++ (first ++ (listing key names ++ 93 :: rest))) key name = if name ∈ names then 1 else 0 := by
  have opening : quote :: key ++ text "\":[" = quotedKey key [58, 91] := by
    rw [show text "\":[" = [quote, 58, 91] by decide]
    rfl
  have needle : quote :: name ++ [quote] = quotedKey name [] := rfl
  set tail := commas (names.map fun name => quote :: name ++ [quote]) ++ 93 :: rest
  have start := findFrom_passes before (clear (quotedKey key [58, 91] ++ tail))
  have body : before ++ (first ++ (listing key names ++ 93 :: rest)) =
      before ++ (first ++ (quotedKey key [58, 91] ++ tail)) := by
    rw [listing, List.append_assoc]
  rw [← body] at start
  have whole : before ++ (first ++ (listing key names ++ 93 :: rest)) =
      before ++ first ++ (listing key names ++ ([93] ++ rest)) := by
    rw [List.append_assoc]
    rfl
  have closing := findFrom_passes (before ++ first)
    (@passes_of_not_mem _ [] (listing key names) ([93] ++ rest) 93 (bracket_not_mem keyWord words))
  rw [← whole, List.length_append] at closing
  have dropped : (before ++ (first ++ (listing key names ++ 93 :: rest))).drop (before.length + first.length) =
      listing key names ++ 93 :: rest := by
    rw [← List.append_assoc, ← List.length_append, List.drop_left]
  have within : before.length + first.length ≤ (before ++ (first ++ (listing key names ++ 93 :: rest))).length := by
    simp only [List.length_append]
    omega
  have hits : findFrom (quotedKey name []) (before ++ (first ++ (listing key names ++ 93 :: rest)))
      (before.length + first.length) =
        (find (quotedKey name []) (listing key names ++ 93 :: rest)).map (before.length + first.length + ·) := by
    rw [findFrom, if_pos within, dropped]
  rw [sampleInList, last, opening, start]
  simp only [closing, needle, hits]
  by_cases held : name ∈ names
  · obtain ⟨i, inside, occurs⟩ := @listing_occurs key name names held (93 :: rest)
    obtain ⟨hit, early, found⟩ := find_le occurs
    rw [found, if_pos held]
    simp only [Option.map_some]
    exact if_pos (by omega)
  · have clearList := clear_listing nameWord keyWord differs words held
    rw [if_neg held]
    cases found : find (quotedKey name []) (listing key names ++ 93 :: rest) with
    | none => rfl
    | some hit =>
        have past := @find_ge _ _ _ (listing key names ++ [93]) rest hit (clearList rest) (by
          rw [List.append_assoc]
          exact found)
        rw [List.length_append, List.length_singleton] at past
        simp only [Option.map_some]
        exact if_neg (by omega)

end Lists

theorem appendNames_eq (key : String) (bits last : UInt32) (nameOf : UInt32 → Option String) :
    appendNames key bits nameOf last = listing (text key) ((namesOf bits nameOf last).map text) ++ [93, 44] := by
  have opening : text "\":[" = [quote, 58, 91] := by decide
  have ending : text "]," = [93, 44] := by decide
  rw [appendNames, listing, opening, ending, List.map_map]
  simp only [quotedKey, List.append_assoc, List.cons_append, List.nil_append]
  rfl

theorem table_inj : ∀ g ∈ kGroupNames, ∀ h ∈ kGroupNames, text g.1 = text h.1 → g = h := by decide

theorem mem_groupNames {g : String × UInt32} (listed : g ∈ kGroupNames) (bits : UInt32) :
    text g.1 ∈ (namesOf bits metricGroupName kGroupsAll).map text ↔ hasGroup bits g.2 = true := by
  rw [groupNames_eq, List.map_map, List.mem_map]
  constructor
  · rintro ⟨h, held, same⟩
    obtain ⟨other, has⟩ := List.mem_filter.mp held
    rw [table_inj g listed h other same.symm]
    exact has
  · intro has
    exact ⟨g, List.mem_filter.mpr ⟨listed, has⟩, rfl⟩

theorem groups_known : ∀ g ∈ kGroupNames, isWord (text g.1) = true ∧ text "groups" ≠ text g.1 ∧
    text "baseline" ≠ text g.1 ∧ ∀ c ∈ kCollections, text c.1 ≠ text g.1 := by decide

theorem hasGroup_zero (bit : UInt32) : ¬hasGroup 0 bit = true := by simp [hasGroup]

theorem sampleInList_absent {body key name : List UInt8}
    (absent : findFrom (quote :: key ++ text "\":[") body (newest body) = none) : sampleInList body key name = -1 := by
  rw [sampleInList, absent]

section Groups
variable (earlier : List Sample) {s : Sample} {d : Detail} {g : String × UInt32} (listed : g ∈ kGroupNames)
include listed

theorem sampleInList_groups :
    sampleInList (samplesToJson (earlier ++ [s]) (some (detailToJson d))) (text "groups") (text g.1) = 1 ↔
      hasGroup s.groups g.2 = true := by
  obtain ⟨word, differs, -, -⟩ := groups_known g listed
  have keyWord : isWord (text "groups") = true := by decide
  have clear : Clear (text "groups") [58, 91] ([123] ++ (sampleTs s ++ sampleHead s)) := by
    apply clear_brace.append
    apply (clear_ts keyWord s (by decide)).append
    exact clear_head keyWord s (by decide) (by decide)
  set rest := 44 :: (sampleBaseline s ++ ((sampleSections s).flatMap appendSection ++ (sampleLast s ++ bodyEnd d)))
    with rest_eq
  have body : samplesToJson (earlier ++ [s]) (some (detailToJson d)) = bodyFront earlier ++
      ([123] ++ (sampleTs s ++ sampleHead s) ++ (listing (text "groups")
        ((namesOf s.groups metricGroupName kGroupsAll).map text) ++ 93 :: rest)) := by
    rw [samplesToJson_eq, sampleToJson_eq, sampleGroups, appendNames_eq, rest_eq]
    simp only [bodyEnd, List.append_assoc, List.cons_append, List.nil_append]
  have last := newest_body earlier s d
  rw [body] at last
  rw [body, sampleInList_listing last clear keyWord word differs
    (List.forall_mem_map.mpr (groupNames_words s.groups)), ← mem_groupNames listed]
  split
  next held => exact iff_of_true rfl held
  next absent => exact iff_of_false (by decide) absent

theorem sampleInList_baseline (present : s.baseline ≠ 0) :
    sampleInList (samplesToJson (earlier ++ [s]) (some (detailToJson d))) (text "baseline") (text g.1) = 1 ↔
      hasGroup s.baseline g.2 = true := by
  obtain ⟨word, -, differs, -⟩ := groups_known g listed
  have keyWord : isWord (text "baseline") = true := by decide
  have clear : Clear (text "baseline") [58, 91] ([123] ++ (sampleTs s ++ (sampleHead s ++ sampleGroups s))) := by
    apply clear_brace.append
    apply (clear_ts keyWord s (by decide)).append
    apply (clear_head keyWord s (by decide) (by decide)).append
    exact clear_groups keyWord s (by decide)
  set rest := 44 :: ((sampleSections s).flatMap appendSection ++ (sampleLast s ++ bodyEnd d)) with rest_eq
  have body : samplesToJson (earlier ++ [s]) (some (detailToJson d)) = bodyFront earlier ++
      ([123] ++ (sampleTs s ++ (sampleHead s ++ sampleGroups s)) ++ (listing (text "baseline")
        ((namesOf s.baseline metricGroupName kGroupsAll).map text) ++ 93 :: rest)) := by
    rw [samplesToJson_eq, sampleToJson_eq, sampleBaseline, if_pos present, appendNames_eq, rest_eq]
    simp only [bodyEnd, List.append_assoc, List.cons_append, List.nil_append]
  have last := newest_body earlier s d
  rw [body] at last
  rw [body, sampleInList_listing last clear keyWord word differs
    (List.forall_mem_map.mpr (groupNames_words s.baseline)), ← mem_groupNames listed]
  split
  next held => exact iff_of_true rfl held
  next absent => exact iff_of_false (by decide) absent

omit listed in
theorem clear_without_baseline {k tail : List UInt8} (word : isWord k = true) (lacking : s.baseline = 0)
    (top : ∀ name ∈ ["ts", "level", "folded", "groups", "uptime_seconds"], Avoids k name)
    (parts : ∀ part ∈ layout 0, ∀ name ∈ part.1 :: part.2, Avoids k name) : Clear k (58 :: tail) (sampleToJson s) := by
  have baseline : sampleBaseline s = [] := if_neg (not_not.mpr lacking)
  rw [sampleToJson_eq, baseline]
  apply clear_brace.append
  apply (clear_ts word s (top "ts" (by decide))).append
  apply (clear_head word s (top "level" (by decide)) (top "folded" (by decide))).append
  apply (clear_groups word s (top "groups" (by decide))).append
  rw [List.nil_append]
  apply (clear_parts word s parts).append
  exact clear_last word s (top "uptime_seconds" (by decide))

/-- With no baseline of the sample's own the search goes on into the detail, whose names are no groups'. -/
theorem sampleInList_no_baseline (lacking : s.baseline = 0) :
    sampleInList (samplesToJson (earlier ++ [s]) (some (detailToJson d))) (text "baseline") (text g.1) ≠ 1 := by
  obtain ⟨word, -, differs, apart⟩ := groups_known g listed
  have keyWord : isWord (text "baseline") = true := by decide
  have sample (tail : List UInt8) : Clear (text "baseline") (58 :: tail) (sampleToJson s) :=
    clear_without_baseline keyWord lacking (by decide) (by decide)
  by_cases noBaseline : d.baseline = 0
  · have detail : detailBaseline d = [] := if_neg (not_not.mpr noBaseline)
    have clear : Clear (text "baseline") [58, 91] (sampleToJson s ++ bodyEnd d) := by
      apply (sample [91]).append
      apply clear_bodyEnd keyWord d (by decide) _ (by decide)
      rw [detail]
      exact clear_nil
    have opening : quote :: text "baseline" ++ text "\":[" = quotedKey (text "baseline") [58, 91] := by decide
    have absent : findFrom (quotedKey (text "baseline") [58, 91]) (bodyFront earlier ++ (sampleToJson s ++ bodyEnd d))
        (bodyFront earlier).length = none := by
      rw [findFrom, List.drop_left]
      split
      · cases found : find (quotedKey (text "baseline") [58, 91]) (sampleToJson s ++ bodyEnd d) with
        | none => rfl
        | some at_ => exact absurd (find_some found).1 (clear.never at_)
      · rfl
    have nowhere : sampleInList (samplesToJson (earlier ++ [s]) (some (detailToJson d))) (text "baseline") (text g.1) =
        -1 := by
      apply sampleInList_absent
      rw [newest_body, opening, samplesToJson_eq]
      exact absent
    rw [nowhere]
    decide
  · have clear : Clear (text "baseline") [58, 91] (sampleToJson s ++ (text "],\"detail\":" ++ ([123] ++
        appendNames "collected" d.collected metricDetailName kDetailAll))) := by
      have detail : text "],\"detail\":" = [93, 44] ++ (quote :: text "detail" ++ [quote, 58]) := by decide
      apply (sample [91]).append
      rw [detail]
      apply Clear.append
      · apply (clear_of_unquoted (by decide)).append
        exact clear_key keyWord (by decide)
      · apply clear_brace.append
        exact clear_names keyWord (by decide) (detailNames_words d.collected)
    set rest := 44 :: (detailLists d ++ (listText "processes" d.procs processMembers ++ ([125] ++ text "\x7d\n")))
      with rest_eq
    have body : samplesToJson (earlier ++ [s]) (some (detailToJson d)) = bodyFront earlier ++
        ((sampleToJson s ++ (text "],\"detail\":" ++ ([123] ++
          appendNames "collected" d.collected metricDetailName kDetailAll))) ++ (listing (text "baseline")
            ((namesOf d.baseline metricDetailName kDetailAll).map text) ++ 93 :: rest)) := by
      rw [samplesToJson_eq, detailToJson_eq, detailBaseline, if_pos noBaseline, appendNames_eq "baseline", rest_eq]
      simp only [List.append_assoc, List.cons_append, List.nil_append]
    have last := newest_body earlier s d
    rw [body] at last
    rw [body, sampleInList_listing last clear keyWord word differs
      (List.forall_mem_map.mpr (detailNames_words d.baseline)), if_neg]
    · decide
    · intro held
      rw [detailNames_eq, List.map_map] at held
      obtain ⟨c, kept, same⟩ := List.mem_map.mp held
      exact apart c (List.mem_filter.mp kept).1 same

theorem lists_read :
    (sampleInList (samplesToJson (earlier ++ [s]) (some (detailToJson d))) (text "groups") (text g.1) = 1 ↔
      hasGroup s.groups g.2 = true) ∧
    (sampleInList (samplesToJson (earlier ++ [s]) (some (detailToJson d))) (text "baseline") (text g.1) = 1 ↔
      hasGroup s.baseline g.2 = true) := by
  refine ⟨sampleInList_groups earlier listed, ?_⟩
  by_cases lacking : s.baseline = 0
  · rw [lacking]
    exact iff_of_false (sampleInList_no_baseline earlier listed lacking) (hasGroup_zero g.2)
  · exact sampleInList_baseline earlier listed lacking

end Groups

end Budyk.Proof
