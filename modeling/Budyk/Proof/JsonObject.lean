import Budyk.Lib.JsonObject
import Budyk.Proof.JsonText

/-! `json_get_string` on an object of strings. -/

namespace Budyk.Proof
open Lib Web

theorem hex4_low {l₁ l₂ l₃ l₄ : UInt8} (low : 0xdc00 ≤ hex4 l₁ l₂ l₃ l₄ ∧ hex4 l₁ l₂ l₃ l₄ ≤ 0xdfff) :
    ∃ n, hexNumber [l₁, l₂, l₃, l₄] = some n ∧ 0xdc00 ≤ n ∧ n < 0xe000 := by
  unfold hex4 at low
  cases number : hexNumber [l₁, l₂, l₃, l₄] with
  | none =>
      rw [number, Option.getD_none] at low
      omega
  | some n =>
      rw [number, Option.getD_some] at low
      exact ⟨n, rfl, low.1, by omega⟩

theorem jsonUnescape_lone {h₁ h₂ h₃ h₄ : UInt8} {code : Nat} {rest : List UInt8}
    (number : hexNumber [h₁, h₂, h₃, h₄] = some code) (least : 0xd800 ≤ code) (most : code < 0xe000)
    (alone : code < 0xdc00 → ¬LowEscape rest) :
    jsonUnescape (backslash :: 117 :: h₁ :: h₂ :: h₃ :: h₄ :: rest) = appendUtf8 0xfffd ++ jsonUnescape rest := by
  have read : hex4 h₁ h₂ h₃ h₄ = code := by rw [hex4, number, Option.getD_some]
  rw [jsonUnescape.eq_def]
  simp only [ne_eq, not_true_eq_false, if_false, read]
  by_cases high : code ≤ 0xdbff
  · rw [if_pos ⟨least, high⟩]
    split
    next b c l₁ l₂ l₃ l₄ after =>
      refine if_neg fun low => ?_
      split at low
      next escape =>
        obtain ⟨n, digits, range⟩ := hex4_low low
        exact alone (by omega) ⟨l₁, l₂, l₃, l₄, n, after, by rw [escape.1, escape.2], digits, range⟩
      next => omega
    next => rfl
  · rw [if_neg (by omega), if_pos (by omega)]

theorem jsonUnescape_value {content value : List UInt8} (denotes : StringValue content value) :
    jsonUnescape content = value := by
  induction denotes with
  | content denotes => exact jsonUnescape_content denotes
  | lone first code least most alone _ ih =>
      rw [jsonUnescape_append first, jsonUnescape_lone code least most alone, ih, List.append_assoc]
      rfl

/-! ## The search as a walk over the text -/

/-- A key may stand after `last`, the last byte that is not blank. -/
def KeyMayFollow (last : Option UInt8) : Prop := last = none ∨ last = some 123 ∨ last = some 44

instance (last : Option UInt8) : Decidable (KeyMayFollow last) := inferInstanceAs (Decidable (_ ∨ _))

def lastSolid (last : Option UInt8) (s : List UInt8) : Option UInt8 :=
  s.foldl (fun last b => if jsonBlank b then last else some b) last

/-- The first place from here on where the key stands, as the text after its colon. -/
def scanKey (needle : List UInt8) : Option UInt8 → List UInt8 → Option (List UInt8)
  | _, [] => none
  | last, b :: rest =>
      (if needle <+: b :: rest ∧ KeyMayFollow last then expect 58 (skipBlanks ((b :: rest).drop needle.length)) else none).or
        (scanKey needle (if jsonBlank b then last else some b) rest)

theorem lastSolid_eq (before : List UInt8) : (before.rdropWhile jsonBlank).getLast? = lastSolid none before := by
  induction before using List.reverseRecOn with
  | nil => rfl
  | append_singleton before b ih =>
      rw [lastSolid, List.foldl_append, List.foldl_cons, List.foldl_nil, ← lastSolid, ← ih]
      cases blank : jsonBlank b with
      | true => rw [List.rdropWhile_concat_pos _ _ _ blank, if_pos rfl]
      | false => rw [List.rdropWhile_concat_neg _ _ _ (by simp [blank]), List.getLast?_concat, if_neg (by simp)]

theorem afterColon_eq (before s needle : List UInt8) :
    afterColon (before ++ s) needle before.length =
      if KeyMayFollow (lastSolid none before) then expect 58 (skipBlanks (s.drop needle.length)) else none := by
  unfold afterColon KeyMayFollow
  rw [List.take_left, lastSolid_eq, ← List.drop_drop, List.drop_left]
  rfl

theorem findFrom_append {needle : List UInt8} (before s : List UInt8) :
    findFrom needle (before ++ s) before.length = (find needle s).map (before.length + ·) := by
  rw [findFrom, if_pos (by simp), List.drop_left]

theorem findKey_eq {needle : List UInt8} (present : needle ≠ []) (s before : List UInt8) {fuel : Nat}
    (enough : s.length < fuel) :
    findKey (before ++ s) needle fuel before.length = scanKey needle (lastSolid none before) s := by
  induction s generalizing before fuel with
  | nil =>
      cases fuel with
      | zero => exact absurd enough (Nat.not_lt_zero _)
      | succ fuel =>
          rw [findKey, findFrom_append, find, if_neg present]
          rfl
  | cons b s ih =>
      have whole : before ++ b :: s = (before ++ [b]) ++ s := by simp
      have after : lastSolid none (before ++ [b]) = if jsonBlank b then lastSolid none before else some b := by
        rw [lastSolid, List.foldl_append]
        rfl
      have length : (before ++ [b]).length = before.length + 1 := by simp
      cases fuel with
      | zero => exact absurd enough (Nat.not_lt_zero _)
      | succ fuel =>
          rw [List.length_cons] at enough
          have later := ih (before ++ [b]) (Nat.lt_of_succ_lt_succ enough)
          rw [after, ← whole, length] at later
          rw [findKey, findFrom_append, scanKey, find]
          split
          next here =>
            rw [Option.map_some, Option.bind_some, Nat.add_zero, afterColon_eq, later]
            simp only [here, true_and]
          next absent =>
            have longer := ih (before ++ [b]) (Nat.lt_of_succ_lt enough)
            rw [after, ← whole, length] at longer
            rw [if_neg (by simp [absent]), Option.none_or, ← longer, findKey, whole, ← length, findFrom_append,
              Option.map_map, length]
            have same : (before.length + ·) ∘ (· + 1) = (before.length + 1 + ·) := funext fun k => by
              rw [Function.comp_apply]
              omega
            rw [same]

/-! ## The walk over an object -/

/-- Blanks apart, the key is the comma or the colon that stands between two strings. -/
def loneSeparator (key : List UInt8) : Bool :=
  let solid := key.filter fun b => !jsonBlank b
  solid = [44] || solid = [58]

theorem separator_lone {before after : List UInt8} {c : UInt8} (first : Blanks before) (last : Blanks after)
    (separates : c = 44 ∨ c = 58) : loneSeparator (before ++ c :: after) = true := by
  have lacking {s : List UInt8} (blanks : Blanks s) : s.filter (fun b => !jsonBlank b) = [] := by
    rw [List.filter_eq_nil_iff]
    intro b held
    simp [blanks b held]
  unfold loneSeparator
  rw [List.filter_append, lacking first]
  rcases separates with rfl | rfl
  · rw [List.filter_cons_of_pos (by decide), lacking last]
    rfl
  · rw [List.filter_cons_of_pos (by decide), lacking last]
    rfl

theorem blanks_noQuote {s : List UInt8} (blanks : Blanks s) : quote ∉ s :=
  fun held => absurd (blanks quote held) (by decide)

theorem plain_noQuote {s : List UInt8} (plain : plainBytes s = true) : quote ∉ s := by
  intro held
  have one := List.all_eq_true.mp plain quote held
  simp at one

theorem lastSolid_blanks {s : List UInt8} (blanks : Blanks s) (last : Option UInt8) : lastSolid last s = last := by
  induction s with
  | nil => rfl
  | cons b s ih =>
      rw [lastSolid, List.foldl_cons, if_pos (blanks b List.mem_cons_self)]
      exact ih fun c held => blanks c (List.mem_cons_of_mem _ held)

def keyNeedle (key : List UInt8) : List UInt8 := quote :: key ++ [quote]

variable {key : List UInt8}

theorem needle_begins (noQuote : quote ∉ key) {s : List UInt8} (clean : quote ∉ s) (rest : List UInt8) :
    keyNeedle key <+: quote :: (s ++ quote :: rest) ↔ key = s := by
  unfold keyNeedle
  rw [List.cons_append, List.prefix_cons_inj]
  constructor
  · intro begins
    have upTo (t : List UInt8) (clean : quote ∉ t) (after : List UInt8) :
        (t ++ quote :: after).takeWhile (· ≠ quote) = t := by
      have all : ∀ b ∈ t, decide (b ≠ quote) = true := by
        intro b held
        refine decide_eq_true fun same => clean (same ▸ held)
      rw [List.takeWhile_append_of_pos all]
      simp
    obtain ⟨more, whole⟩ := begins
    have taken := congrArg (List.takeWhile (· ≠ quote)) whole
    rw [List.append_assoc, List.singleton_append, upTo key noQuote, upTo s clean] at taken
    exact taken
  · rintro rfl
    exact ⟨rest, by simp⟩

theorem needle_absent {s : List UInt8} (clean : quote ∉ s) : ¬keyNeedle key <+: quote :: s := by
  unfold keyNeedle
  rw [List.cons_append, List.prefix_cons_inj]
  intro begins
  exact clean (begins.subset (by simp))

theorem scanKey_passed {last : Option UInt8} {rest : List UInt8} {b : UInt8}
    (refused : ¬(keyNeedle key <+: b :: rest ∧ KeyMayFollow last)) :
    scanKey (keyNeedle key) last (b :: rest) = scanKey (keyNeedle key) (if jsonBlank b then last else some b) rest := by
  rw [scanKey, if_neg refused, Option.none_or]

theorem scanKey_clean {s : List UInt8} (clean : quote ∉ s) (last : Option UInt8) (rest : List UInt8) :
    scanKey (keyNeedle key) last (s ++ rest) = scanKey (keyNeedle key) (lastSolid last s) rest := by
  induction s generalizing last with
  | nil => rfl
  | cons b s ih =>
      have other : ¬(keyNeedle key <+: b :: (s ++ rest) ∧ KeyMayFollow last) := by
        rintro ⟨begins, -⟩
        rw [keyNeedle, List.cons_append, List.cons_prefix_cons] at begins
        exact clean (begins.1 ▸ List.mem_cons_self)
      rw [List.cons_append, scanKey_passed other, ih fun held => clean (List.mem_cons_of_mem _ held)]
      rfl

theorem scanKey_content {content : List UInt8} (escaped : Escaped content) (last : Option UInt8) (rest : List UInt8) :
    ∃ last', scanKey (keyNeedle key) last (content ++ rest) = scanKey (keyNeedle key) last' rest := by
  induction escaped generalizing last with
  | nil => exact ⟨last, rfl⟩
  | @plain b more noQuote noBackslash _ ih =>
      obtain ⟨last', later⟩ := ih (lastSolid last [b])
      have clean : quote ∉ [b] := by simpa using noQuote.symm
      exact ⟨last', (scanKey_clean clean last (more ++ rest)).trans later⟩
  | @escape c more _ ih =>
      have clean : quote ∉ [backslash] := by decide
      have first := @scanKey_clean key _ clean last (c :: (more ++ rest))
      have refused : ¬(keyNeedle key <+: c :: (more ++ rest) ∧ KeyMayFollow (some backslash)) := by
        rintro ⟨-, may⟩
        revert may
        decide
      obtain ⟨last', later⟩ := ih (if jsonBlank c then some backslash else some c)
      exact ⟨last', first.trans ((scanKey_passed refused).trans later)⟩

theorem skipBlanks_append {s : List UInt8} (blanks : Blanks s) {b : UInt8} (solid : jsonBlank b = false)
    (rest : List UInt8) : skipBlanks (s ++ b :: rest) = b :: rest := by
  rw [skipBlanks, List.dropWhile_append_of_pos blanks, ← skipBlanks, skipBlanks_cons solid]

theorem scanKey_member {m : FlatMember} (named : m.name = key) {last : Option UInt8} (may : KeyMayFollow last)
    (rest : List UInt8) : scanKey (keyNeedle key) last (m.text ++ rest) =
      some (m.afterColon ++ quote :: (m.content ++ quote :: (m.after ++ rest))) := by
  have whole : m.text ++ rest = m.before ++ (keyNeedle key ++ (m.afterName ++ 58 :: (m.afterColon ++ quote ::
      (m.content ++ quote :: (m.after ++ rest))))) := by
    simp [FlatMember.text, keyNeedle, named]
  rw [whole, scanKey_clean (blanks_noQuote m.blanks.1), lastSolid_blanks m.blanks.1]
  have starts : keyNeedle key = quote :: (key ++ [quote]) := rfl
  rw [starts, List.cons_append, scanKey, ← starts, ← List.cons_append, ← starts,
    if_pos ⟨List.prefix_append _ _, may⟩, List.drop_left, skipBlanks_append m.blanks.2.1 (by decide), expect_cons]
  rfl

theorem scanKey_other {m : FlatMember} (other : m.name ≠ key) (noQuote : quote ∉ key) (word : loneSeparator key = false)
    (last : Option UInt8) {rest : List UInt8} (closes : ¬keyNeedle key <+: quote :: (m.after ++ rest)) :
    ∃ last', scanKey (keyNeedle key) last (m.text ++ rest) = scanKey (keyNeedle key) last' (m.after ++ rest) := by
  have whole : m.text ++ rest = m.before ++ quote :: (m.name ++ quote :: ((m.afterName ++ 58 :: m.afterColon) ++ quote ::
      (m.content ++ quote :: (m.after ++ rest)))) := by
    simp [FlatMember.text]
  have name := plain_noQuote m.plain
  have between : quote ∉ m.afterName ++ 58 :: m.afterColon := by
    simp only [List.mem_append, List.mem_cons, not_or]
    exact ⟨blanks_noQuote m.blanks.2.1, by decide, blanks_noQuote m.blanks.2.2.1⟩
  have separates := separator_lone (c := 58) m.blanks.2.1 m.blanks.2.2.1 (.inr rfl)
  have notName := mt (needle_begins noQuote name ((m.afterName ++ 58 :: m.afterColon) ++ quote ::
    (m.content ++ quote :: (m.after ++ rest)))).mp (Ne.symm other)
  have notColon := mt (needle_begins noQuote between (m.content ++ quote :: (m.after ++ rest))).mp (by
    rintro rfl
    rw [separates] at word
    cases word)
  rw [whole, scanKey_clean (blanks_noQuote m.blanks.1), scanKey_passed fun held => notName held.1, scanKey_clean name,
    scanKey_passed fun held => notColon held.1, scanKey_clean between]
  have colon (last : Option UInt8) : lastSolid last (m.afterName ++ 58 :: m.afterColon) = some 58 := by
    rw [lastSolid, List.foldl_append, List.foldl_cons]
    exact lastSolid_blanks m.blanks.2.2.1 _
  have refused : ¬(keyNeedle key <+: quote :: (m.content ++ quote :: (m.after ++ rest)) ∧ KeyMayFollow (some 58)) := by
    rintro ⟨-, may⟩
    revert may
    decide
  rw [colon, scanKey_passed refused]
  obtain ⟨last', through⟩ := @scanKey_content key _ m.denotes.escaped (some quote) (quote :: (m.after ++ rest))
  rw [if_neg (by decide), through, scanKey_passed fun held => closes held.1]
  exact ⟨_, rfl⟩

/-- The walk stops at the first member of the name, and else runs to the end. -/
theorem scanKey_members (noQuote : quote ∉ key) (word : loneSeparator key = false) {members : List FlatMember}
    {last : Option UInt8} (may : KeyMayFollow last) {tail : List UInt8} (clean : quote ∉ tail) :
    match members.find? fun m => m.name = key with
    | some m => ∃ more, scanKey (keyNeedle key) last (membersText members ++ 125 :: tail) =
        some (m.afterColon ++ quote :: (m.content ++ quote :: more))
    | none => scanKey (keyNeedle key) last (membersText members ++ 125 :: tail) = none := by
  have ends (last : Option UInt8) {s : List UInt8} (clean : quote ∉ s) : scanKey (keyNeedle key) last s = none := by
    have walked := @scanKey_clean key _ clean last []
    rwa [List.append_nil] at walked
  have closing : quote ∉ 125 :: tail := by
    rw [List.mem_cons, not_or]
    exact ⟨by decide, clean⟩
  induction members generalizing last with
  | nil => exact ends last closing
  | cons m members ih =>
      by_cases named : m.name = key
      · rw [List.find?_cons_of_pos (by simpa using named)]
        cases members with
        | nil => exact ⟨_, scanKey_member named may _⟩
        | cons next members =>
            refine ⟨_, Eq.trans ?_ (scanKey_member named may (44 :: membersText (next :: members) ++ 125 :: tail))⟩
            simp [membersText]
      · rw [List.find?_cons_of_neg (by simpa using named)]
        have after := blanks_noQuote m.blanks.2.2.2
        cases members with
        | nil =>
            have quoteless : quote ∉ m.after ++ 125 :: tail := by
              rw [List.mem_append, not_or]
              exact ⟨after, closing⟩
            obtain ⟨last', passed⟩ := scanKey_other named noQuote word last (needle_absent quoteless)
            exact passed.trans (ends last' quoteless)
        | cons next members =>
            -- from the closing quote to the next opening one there is the comma, with its blanks
            have between : quote ∉ m.after ++ 44 :: next.before := by
              simp only [List.mem_append, List.mem_cons, not_or]
              exact ⟨after, by decide, blanks_noQuote next.blanks.1⟩
            have separates := separator_lone (c := 44) m.blanks.2.2.2 next.blanks.1 (.inl rfl)
            obtain ⟨more, begins⟩ : ∃ more, membersText (next :: members) = next.before ++ quote :: more := by
              cases members <;> exact ⟨_, by simp [membersText, FlatMember.text]; rfl⟩
            have closes : ¬keyNeedle key <+: quote :: (m.after ++ (44 :: membersText (next :: members) ++ 125 :: tail)) := by
              have notComma := mt (needle_begins noQuote between (more ++ 125 :: tail)).mp (by
                rintro rfl
                rw [separates] at word
                cases word)
              rw [begins]
              simpa using notComma
            obtain ⟨last', passed⟩ := scanKey_other named noQuote word last closes
            have comma : scanKey (keyNeedle key) last' (m.after ++ (44 :: membersText (next :: members) ++ 125 :: tail)) =
                scanKey (keyNeedle key) (some 44) (membersText (next :: members) ++ 125 :: tail) := by
              have solid : quote ∉ [(44 : UInt8)] := by decide
              rw [scanKey_clean after, List.cons_append, ← List.singleton_append, scanKey_clean solid]
              rfl
            have whole : membersText (m :: next :: members) ++ 125 :: tail =
                m.text ++ (44 :: membersText (next :: members) ++ 125 :: tail) := by simp [membersText]
            rw [whole, passed, comma]
            exact ih (.inr (.inr rfl))

/-- A key that can be written without escapes, and is more than a separator, is found where the object has it. -/
theorem flat_object_read (o : FlatObject) {key : List UInt8} (noQuote : quote ∉ key) (word : loneSeparator key = false) :
    jsonGetString o.text key = o.lookup key := by
  have needle : keyNeedle key ≠ [] := List.cons_ne_nil _ _
  have searched := findKey_eq needle o.text [] (Nat.lt_succ_self _)
  rw [List.nil_append, List.length_nil] at searched
  have whole : o.text = o.before ++ (123 :: o.inside) ++ (membersText o.members ++ 125 :: o.after) := by
    simp [FlatObject.text]
  have inside : quote ∉ o.before ++ (123 :: o.inside) := by
    simp only [List.mem_append, List.mem_cons, not_or]
    exact ⟨blanks_noQuote o.blanks.1, by decide, blanks_noQuote o.blanks.2.1⟩
  have brace : lastSolid (lastSolid none []) (o.before ++ (123 :: o.inside)) = some 123 := by
    rw [lastSolid, List.foldl_append, List.foldl_cons]
    exact lastSolid_blanks o.blanks.2.1 _
  have walked := @scanKey_members key noQuote word o.members (some 123) (.inr (.inl rfl)) o.after
    (blanks_noQuote o.blanks.2.2)
  unfold jsonGetString FlatObject.lookup
  rw [← keyNeedle, searched, whole, scanKey_clean inside, brace]
  cases found : o.members.find? fun m => m.name = key with
  | none =>
      rw [found] at walked
      rw [walked]
      rfl
  | some m =>
      rw [found] at walked
      obtain ⟨more, reached⟩ := walked
      rw [reached, Option.bind_some, skipBlanks_append m.blanks.2.2.1 rfl, expect_cons, Option.bind_some,
        untilQuote_escaped m.denotes.escaped]
      exact congrArg some (jsonUnescape_value m.denotes)

/-! ## A key that is a separator -/

def plainMember (name value : List UInt8) (plain : plainBytes name = true) (denotes : plainBytes value = true) :
    FlatMember :=
  ⟨[], name, [], [], value, value, [], by simp [Blanks], plain, .content (.self denotes)⟩

def commaColon : FlatObject :=
  ⟨[], [], [plainMember (text "a") (text ",") rfl rfl, plainMember (text ":") (text "d") rfl rfl], [], by simp [Blanks]⟩

/-- The value of the first member spells the key that the second has. -/
def spellingMember : FlatMember where
  before := [32]
  name := text "x"
  afterName := [32]
  afterColon := [9]
  content := [backslash, quote, 97, backslash, quote, 58, backslash, quote, 98]
  value := [quote, 97, quote, 58, quote, 98]
  after := [10]
  blanks := by simp [Blanks, jsonBlank]
  plain := rfl
  denotes := .content (.short rfl (.plain (by decide) (by decide) (by decide) (.short rfl (.plain (by decide) (by decide)
    (by decide) (.short rfl (.plain (by decide) (by decide) (by decide) .nil))))))

def spacedMember : FlatMember where
  before := [32, 32]
  name := text "a"
  afterName := []
  afterColon := [32]
  content := [99, backslash, 110]
  value := [99, newline]
  after := []
  blanks := by simp [Blanks, jsonBlank]
  plain := rfl
  denotes := .content (.plain (by decide) (by decide) (by decide) (.short rfl .nil))

def spelledKey : FlatObject := ⟨[32], [], [spellingMember, spacedMember], [], by simp [Blanks, jsonBlank]⟩

theorem flat_object_read_comma : jsonGetString spelledKey.text (text "a") = some [99, newline] :=
  flat_object_read spelledKey (by decide) (by decide)

/-- A value that ends in a comma, and a name that begins with a colon: the key `,` is read in between. -/
theorem separator_misread : ¬∀ (o : FlatObject) (key : List UInt8), plainBytes key = true →
    jsonGetString o.text key = o.lookup key := by
  intro read
  have comma := read commaColon (text ",") (by decide)
  revert comma
  decide

end Budyk.Proof
