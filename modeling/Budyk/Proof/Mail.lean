import Budyk.Lib.Mail
import Budyk.Proof.AlertPayloads
import Mathlib.Data.List.GetD

/-! The mail of an alert: what its words and lines are, whatever bytes it is made of. -/

namespace Budyk.Proof
open Lib Rules

theorem kB64_sextet : ∀ n < 64, sextet (kB64.getD n 0) = some n := by decide

theorem kB64At_sextet (bits : UInt32) : sextet (kB64At bits) = some (bits.toNat % 64) := by
  have low : (bits &&& 0x3F).toNat = bits.toNat % 64 := by
    rw [UInt32.toNat_and]
    exact Nat.and_two_pow_sub_one_eq_mod _ 6
  rw [kB64At, low, kB64_sextet _ (Nat.mod_lt _ (by decide))]

theorem triple_toNat (a b c : UInt8) : ((a.toUInt32 <<< 16) ||| (b.toUInt32 <<< 8) ||| c.toUInt32).toNat =
    a.toNat * 65536 + b.toNat * 256 + c.toNat := by
  have ha := a.toNat_lt
  have hb := b.toNat_lt
  have hc := c.toNat_lt
  have first : (a.toUInt32 <<< 16).toNat = a.toNat <<< 16 := by
    rw [UInt32.toNat_shiftLeft, UInt8.toNat_toUInt32]
    exact Nat.mod_eq_of_lt (by rw [Nat.shiftLeft_eq]; simp; omega)
  have second : (b.toUInt32 <<< 8).toNat = b.toNat <<< 8 := by
    rw [UInt32.toNat_shiftLeft, UInt8.toNat_toUInt32]
    exact Nat.mod_eq_of_lt (by rw [Nat.shiftLeft_eq]; simp; omega)
  have low : b.toNat <<< 8 ||| c.toNat = b.toNat * 256 + c.toNat := by
    rw [← Nat.shiftLeft_add_eq_or_of_lt hc, Nat.shiftLeft_eq]
  rw [UInt32.toNat_or, UInt32.toNat_or, first, second, UInt8.toNat_toUInt32, Nat.or_assoc, low,
    ← Nat.shiftLeft_add_eq_or_of_lt (by omega), Nat.shiftLeft_eq]
  omega

theorem triple_sextets (a b c : UInt8) :
    let triple := (a.toUInt32 <<< 16) ||| (b.toUInt32 <<< 8) ||| c.toUInt32
    sextet (kB64At (triple >>> 18)) = some (a.toNat / 4) ∧
      sextet (kB64At (triple >>> 12)) = some (a.toNat % 4 * 16 + b.toNat / 16) ∧
      sextet (kB64At (triple >>> 6)) = some (b.toNat % 16 * 4 + c.toNat / 64) ∧
      sextet (kB64At triple) = some (c.toNat % 64) := by
  have ha := a.toNat_lt
  have hb := b.toNat_lt
  have hc := c.toNat_lt
  have value := triple_toNat a b c
  intro triple
  have shifted (n : UInt32) (small : n.toNat < 32) : (triple >>> n).toNat = triple.toNat / 2 ^ n.toNat := by
    rw [UInt32.toNat_shiftRight, Nat.mod_eq_of_lt small, Nat.shiftRight_eq_div_pow]
  simp only [kB64At_sextet, Option.some_inj]
  rw [shifted 18 (by decide), shifted 12 (by decide), shifted 6 (by decide)]
  simp only [triple, value, UInt32.reduceToNat]
  omega

theorem pieceBase64_decodes (piece : List UInt8) : base64Decode (pieceBase64 piece) = some piece := by
  have byte (n : Nat) (b : UInt8) (same : n = b.toNat) : UInt8.ofNat n = b := by rw [same, UInt8.ofNat_toNat]
  induction piece using pieceBase64.induct with
  | case1 => rw [pieceBase64, base64Decode]
  | case2 a piece ih =>
      have ha := a.toNat_lt
      rw [pieceBase64]
      rcases piece with _ | ⟨b, _ | ⟨c, rest⟩⟩
      · obtain ⟨first, second, -, -⟩ := triple_sextets a 0 0
        rw [List.drop_nil, pieceBase64]
        refine (base64Decode_one first second ?_).trans ?_
        · simp only [UInt8.toNat_zero]
          omega
        · rw [byte _ a (by simp only [UInt8.toNat_zero]; omega)]
      · have hb := b.toNat_lt
        obtain ⟨first, second, third, -⟩ := triple_sextets a b 0
        rw [List.drop_eq_nil_of_le (by simp), pieceBase64]
        refine (base64Decode_two first second third ?_).trans ?_
        · simp only [UInt8.toNat_zero]
          omega
        · rw [byte _ a (by omega), byte _ b (by simp only [UInt8.toNat_zero]; omega)]
      · have hb := b.toNat_lt
        have hc := c.toNat_lt
        obtain ⟨first, second, third, fourth⟩ := triple_sextets a b c
        have later : base64Decode (pieceBase64 rest) = some rest := ih
        refine (base64Decode_three first second third fourth).trans ?_
        rw [List.drop_succ_cons, List.drop_succ_cons, List.drop_zero, later, byte _ a (by omega), byte _ b (by omega),
          byte _ c (by omega)]
        rfl

/-! ## Pieces of whole characters -/

theorem continues_range : ∀ high < 16, ∀ low < 16,
    continues (UInt8.ofNat (16 * high + low)) = decide (0x80 ≤ 16 * high + low ∧ 16 * high + low ≤ 0xbf) := by decide

theorem continues_iff (b : UInt8) : continues b = true ↔ 0x80 ≤ b.toNat ∧ b.toNat ≤ 0xbf := by
  have small := b.toNat_lt
  have value := continues_range (b.toNat / 16) (by omega) (b.toNat % 16) (by omega)
  rw [Nat.div_add_mod, UInt8.ofNat_toNat] at value
  rw [value, decide_eq_true_eq]

theorem continues_false {b : UInt8} (outside : b.toNat < 0x80 ∨ 0xbf < b.toNat) : continues b = false := by
  rw [Bool.eq_false_iff, ne_eq, continues_iff]
  omega

theorem sequence_shape {first : List UInt8} (sequence : Utf8Sequence first) : ∃ lead more, first = lead :: more ∧
    continues lead = false ∧ (∀ b ∈ more, continues b = true) ∧ more.length ≤ 3 := by
  have tail {b : UInt8} (within : Utf8Tail b) : continues b = true := by
    simp only [Utf8Tail, UInt8.le_iff_toNat_le, UInt8.reduceToNat] at within
    exact (continues_iff b).mpr within
  have begins {a : UInt8} (least : 0xc0 ≤ a) : continues a = false := by
    simp only [UInt8.le_iff_toNat_le, UInt8.reduceToNat] at least
    exact continues_false (.inr (by omega))
  cases sequence with
  | one ascii =>
      simp only [UInt8.le_iff_toNat_le, UInt8.reduceToNat] at ascii
      exact ⟨_, [], rfl, continues_false (.inl (by omega)), by simp, by simp⟩
  | two least _ last => exact ⟨_, _, rfl, begins (UInt8.le_trans (by decide) least), by simp [tail last], by simp⟩
  | e0 least most last =>
      exact ⟨_, _, rfl, begins (by decide), by simp [tail last, tail ⟨UInt8.le_trans (by decide) least, most⟩], by simp⟩
  | ed least most last =>
      exact ⟨_, _, rfl, begins (by decide), by simp [tail last, tail ⟨least, UInt8.le_trans most (by decide)⟩], by simp⟩
  | e1ec least _ second last | eeef least _ second last =>
      exact ⟨_, _, rfl, begins (UInt8.le_trans (by decide) least), by simp [tail second, tail last], by simp⟩
  | f0 least most third last =>
      exact ⟨_, _, rfl, begins (by decide),
        by simp [tail third, tail last, tail ⟨UInt8.le_trans (by decide) least, most⟩], by simp⟩
  | f4 least most third last =>
      exact ⟨_, _, rfl, begins (by decide),
        by simp [tail third, tail last, tail ⟨least, UInt8.le_trans most (by decide)⟩], by simp⟩
  | f1f3 least _ second third last =>
      exact ⟨_, _, rfl, begins (UInt8.le_trans (by decide) least), by simp [tail second, tail third, tail last], by simp⟩

theorem octets_head {s : List UInt8} (octets : Utf8Octets s) (present : s ≠ []) : continues (s.getD 0 0) = false := by
  cases octets with
  | nil => exact absurd rfl present
  | char sequence _ =>
      obtain ⟨lead, more, rfl, begins, -, -⟩ := sequence_shape sequence
      exact begins

theorem octets_split {s : List UInt8} (octets : Utf8Octets s) {n : Nat} (within : n ≤ s.length)
    (begins : n < s.length → continues (s.getD n 0) = false) : Utf8Octets (s.take n) ∧ Utf8Octets (s.drop n) := by
  induction octets generalizing n with
  | nil => exact ⟨by simpa using .nil, by simpa using .nil⟩
  | @char first rest sequence octets ih =>
      by_cases start : n = 0
      · rw [start]
        exact ⟨.nil, .char sequence octets⟩
      by_cases inside : n < first.length
      · obtain ⟨lead, more, rfl, -, tails, -⟩ := sequence_shape sequence
        have here := begins (by rw [List.length_append]; omega)
        have held : n - 1 < more.length := by
          rw [List.length_cons] at inside
          omega
        have value : (lead :: more ++ rest).getD n 0 = more[n - 1] := by
          obtain ⟨k, rfl⟩ := Nat.exists_eq_succ_of_ne_zero start
          simp only [Nat.succ_sub_one] at held
          simp [List.getD, List.getElem?_append_left held, List.getElem?_eq_getElem held]
        rw [value, tails _ (List.getElem_mem held)] at here
        cases here
      · rw [List.length_append] at within
        have later : n - first.length < rest.length → continues (rest.getD (n - first.length) 0) = false := by
          intro held
          have here := begins (by rw [List.length_append]; omega)
          rwa [List.getD_append_right _ _ _ _ (not_lt.mp inside)] at here
        obtain ⟨before, after⟩ := ih (by omega) later
        rw [List.take_append, List.drop_append, List.take_of_length_le (by omega), List.drop_eq_nil_of_le (by omega)]
        exact ⟨.char sequence before, after⟩

/-- A character begins at most three bytes before any byte. -/
theorem octets_near {s : List UInt8} (octets : Utf8Octets s) {n : Nat} (far : 3 ≤ n) (within : n < s.length) :
    ∃ m ≤ n, n ≤ m + 3 ∧ continues (s.getD m 0) = false := by
  induction octets generalizing n with
  | nil => exact absurd within (Nat.not_lt_zero n)
  | @char first rest sequence octets ih =>
      rw [List.length_append] at within
      obtain ⟨lead, more, rfl, begins, -, short⟩ := sequence_shape sequence
      by_cases inside : n < (lead :: more).length
      · rw [List.length_cons] at inside
        exact ⟨0, by omega, by omega, begins⟩
      · have present : rest ≠ [] := List.ne_nil_of_length_pos (by omega)
        by_cases near : n - (lead :: more).length < 3
        · refine ⟨(lead :: more).length, by omega, by omega, ?_⟩
          rw [List.getD_append_right _ _ _ _ (Nat.le_refl _), Nat.sub_self]
          exact octets_head octets present
        · obtain ⟨m, before, close, begins⟩ := ih (n := n - (lead :: more).length) (by omega) (by omega)
          refine ⟨m + (lead :: more).length, by omega, by omega, ?_⟩
          rw [List.getD_append_right _ _ _ _ (Nat.le_add_left _ _), Nat.add_sub_cancel]
          exact begins

theorem splitBack_spec (s : List UInt8) (n : Nat) :
    splitBack s n ≤ n ∧
      (1 < splitBack s n → splitBack s n < s.length → continues (s.getD (splitBack s n) 0) = false) ∧
      ∀ k, splitBack s n < k → k ≤ n → k < s.length ∧ continues (s.getD k 0) = true := by
  induction n with
  | zero => exact ⟨Nat.le_refl _, fun past => absurd past (Nat.not_lt_zero 1), fun k past within => by omega⟩
  | succ n ih =>
      rw [splitBack]
      split
      next moved =>
        simp only [Bool.and_eq_true, decide_eq_true_eq] at moved
        refine ⟨by omega, ih.2.1, fun k past within => ?_⟩
        rcases Nat.lt_or_ge n k with last | earlier
        · have same : k = n + 1 := by omega
          rw [same]
          exact ⟨moved.1.2, moved.2⟩
        · exact ih.2.2 k past earlier
      next stays =>
        simp only [Bool.and_eq_true, decide_eq_true_eq, not_and, Bool.not_eq_true] at stays
        exact ⟨Nat.le_refl _, fun past within => stays ⟨past, within⟩, fun k past within => by omega⟩

theorem pieceLength_spec {s : List UInt8} (octets : Utf8Octets s) :
    pieceLength s ≤ 45 ∧ pieceLength s ≤ s.length ∧
      (pieceLength s < s.length → continues (s.getD (pieceLength s) 0) = false) := by
  unfold pieceLength
  split
  next short =>
    obtain ⟨within, -, moved⟩ := splitBack_spec s s.length
    refine ⟨by omega, within, fun less => ?_⟩
    exact absurd (moved s.length less (Nat.le_refl _)).1 (Nat.lt_irrefl _)
  next long =>
    obtain ⟨within, boundary, moved⟩ := splitBack_spec s 45
    refine ⟨within, by omega, fun less => boundary ?_ less⟩
    by_cases whole : s.length = 45
    · have stayed := moved 45
      omega
    · obtain ⟨m, before, near, begins⟩ := octets_near octets (n := 45) (by decide) (by omega)
      by_contra small
      have tail := (moved m (by omega) before).2
      rw [begins] at tail
      cases tail

/-! ## Words -/

theorem pieceBase64_length (piece : List UInt8) : (pieceBase64 piece).length = (piece.length + 2) / 3 * 4 := by
  induction piece using pieceBase64.induct with
  | case1 => rw [pieceBase64]; rfl
  | case2 a piece ih =>
      rw [pieceBase64]
      simp only [List.length_cons, ih, List.length_drop]
      omega

def pieceWord (piece : List UInt8) (whole : Utf8 piece) (present : piece ≠ []) : EncodedWord :=
  ⟨pieceBase64 piece, piece, pieceBase64_decodes piece, whole, present⟩

def appendWord (out word : List UInt8) : List UInt8 := out ++ (if out ≠ [] then [32] else []) ++ word

theorem foldl_spaced (out : List UInt8) (words : List (List UInt8)) (present : out ≠ []) :
    words.foldl appendWord out = spaced (out :: words) := by
  induction words generalizing out with
  | nil => rfl
  | cons word words ih =>
      have first : appendWord out word = out ++ 32 :: word := by simp [appendWord, present]
      rw [List.foldl_cons, first, ih _ (by simp)]
      cases words <;> simp [spaced]

theorem text_ne_nil (word : EncodedWord) : word.text ≠ [] := by
  intro empty
  have length := congrArg List.length empty
  rw [EncodedWord.text, List.append_assoc, List.length_append] at length
  exact absurd length (by simp [text])

theorem appendWords_words {s : List UInt8} (octets : Utf8Octets s) (out : List UInt8) :
    ∃ words : List EncodedWord, appendWords out s = (words.map EncodedWord.text).foldl appendWord out ∧
      (∀ word ∈ words, word.text.length ≤ 75) ∧ words.flatMap EncodedWord.denotes = s := by
  induction left : s.length using Nat.strong_induction_on generalizing s out with
  | _ n ih =>
      rw [appendWords]
      split
      next empty => exact ⟨[], rfl, by simp, by rw [empty]; rfl⟩
      next present =>
        have positive := pieceLength_pos present
        obtain ⟨short, within, begins⟩ := pieceLength_spec octets
        obtain ⟨before, after⟩ := octets_split octets within begins
        have piece : s.take (pieceLength s) ≠ [] := by
          apply List.ne_nil_of_length_pos
          rw [List.length_take]
          omega
        let word := pieceWord (s.take (pieceLength s)) (utf8_octets.mpr before) piece
        have less : (s.drop (pieceLength s)).length < n := by
          rw [List.length_drop]
          omega
        obtain ⟨words, appended, each, denote⟩ := ih _ less after (appendWord out word.text) rfl
        refine ⟨word :: words, ?_, ?_, ?_⟩
        · have same : out ++ (if out ≠ [] then [32] else []) ++ text "=?UTF-8?B?" ++ pieceBase64 (s.take (pieceLength s)) ++
              text "?=" = appendWord out word.text := by
            simp [appendWord, EncodedWord.text, word, pieceWord]
          dsimp only
          rw [same, appended]
          rfl
        · intro other held
          rcases List.mem_cons.mp held with rfl | later
          · have length := pieceBase64_length (s.take (pieceLength s))
            rw [List.length_take] at length
            have frame : (text "=?UTF-8?B?").length = 10 ∧ (text "?=").length = 2 := by decide
            simp only [EncodedWord.text, word, pieceWord, List.length_append, length, frame]
            omega
          · exact each other later
        · rw [List.flatMap_cons, denote]
          exact List.take_append_drop _ s

/-- A header that is not ASCII is words of at most 75 characters, whose texts are together the text. -/
theorem header_text_words {s : List UInt8} (notAscii : ∃ b ∈ headerValue s, 0x80 ≤ b) :
    ∃ words : List EncodedWord, headerText s = spaced (words.map EncodedWord.text) ∧
      (∀ word ∈ words, word.text.length ≤ 75) ∧ words.flatMap EncodedWord.denotes = utf8Sanitize (headerValue s) := by
  have octets := utf8_octets.mp (utf8Sanitize_utf8 (headerValue s))
  obtain ⟨words, appended, each, denote⟩ := appendWords_words octets []
  have high : ((headerValue s).any fun c => 0x80 ≤ c) = true := by
    obtain ⟨b, held, high⟩ := notAscii
    exact List.any_eq_true.mpr ⟨b, held, decide_eq_true high⟩
  refine ⟨words, ?_, each, denote⟩
  unfold headerText
  dsimp only
  rw [if_pos high, appended]
  cases words with
  | nil => rfl
  | cons word words =>
      have first : appendWord [] word.text = word.text := by simp [appendWord]
      rw [List.map_cons, List.foldl_cons, first, foldl_spaced _ _ (text_ne_nil word)]

/-- The degree sign stands across the 45 bytes of a word. -/
def degrees : List UInt8 := List.replicate 44 0x2d ++ [0xc2, 0xb0, 0x43]

theorem header_text_words_degrees : ∃ words : List EncodedWord,
    headerText degrees = spaced (words.map EncodedWord.text) ∧
      (∀ word ∈ words, word.text.length ≤ 75) ∧ words.flatMap EncodedWord.denotes = utf8Sanitize (headerValue degrees) ∧
      pieceLength degrees = 44 :=
  have ⟨words, all, short, denote⟩ := header_text_words (s := degrees) ⟨0xc2, by decide, by decide⟩
  ⟨words, all, short, denote, by decide⟩

/-! ## Lines -/

theorem headerValue_oneLine (s : List UInt8) : OneLine (headerValue s) := by
  intro b held
  obtain ⟨c, -, rfl⟩ := List.mem_map.mp held
  split
  next => decide
  next printable =>
    simp only [Bool.or_eq_true, decide_eq_true_eq, not_or] at printable
    constructor
    · rintro rfl
      exact printable.1 (by decide)
    · rintro rfl
      exact printable.1 (by decide)

theorem sextet_plain {b : UInt8} {n : Nat} (value : sextet b = some n) : b ≠ carriageReturn ∧ b ≠ newline := by
  constructor
  · rintro rfl
    revert value
    decide +revert
  · rintro rfl
    revert value
    decide +revert

theorem pieceBase64_oneLine (piece : List UInt8) : OneLine (pieceBase64 piece) := by
  have char (bits : UInt32) := sextet_plain (kB64At_sextet bits)
  have padded (p : Prop) [Decidable p] (bits : UInt32) : (if p then kB64At bits else 61) ≠ carriageReturn ∧
      (if p then kB64At bits else 61) ≠ newline := by
    split
    · exact char bits
    · decide
  induction piece using pieceBase64.induct with
  | case1 => rw [pieceBase64]; simp [OneLine]
  | case2 a piece ih =>
      rw [pieceBase64]
      simp only [OneLine, List.forall_mem_cons]
      exact ⟨char _, char _, padded _ _, padded _ _, ih⟩

theorem appendWords_oneLine {s out : List UInt8} (clean : OneLine out) : OneLine (appendWords out s) := by
  induction left : s.length using Nat.strong_induction_on generalizing s out with
  | _ n ih =>
      rw [appendWords]
      split
      next => exact clean
      next present =>
        have positive := pieceLength_pos present
        have length := List.length_pos_iff.mpr present
        have space : OneLine (if out ≠ [] then [32] else []) := by
          split
          · exact oneLine_of_all rfl
          · exact oneLine_of_all rfl
        have opened : OneLine (text "=?UTF-8?B?") := oneLine_of_all (by decide)
        have closed : OneLine (text "?=") := oneLine_of_all (by decide)
        apply ih (s.drop (pieceLength s)).length (by rw [List.length_drop]; omega)
        · exact (((clean.append space).append opened).append (pieceBase64_oneLine _)).append closed
        · rfl

theorem headerText_oneLine (s : List UInt8) : OneLine (headerText s) := by
  unfold headerText
  dsimp only
  split
  · exact appendWords_oneLine (by simp [OneLine])
  · exact headerValue_oneLine s

theorem smtpBody_normal (s : List UInt8) : LineEndsNormal s (smtpBody s) := by
  induction s using smtpBody.induct with
  | case1 => exact .nil
  | case2 => exact .cr (by simp) .nil
  | case3 rest ih =>
      rw [smtpBody.eq_def]
      simp only [if_true]
      exact .crlf ih
  | case4 d rest other ih =>
      rw [smtpBody.eq_def]
      simp only [if_true, if_neg other]
      exact .cr (by simpa using other) ih
  | case5 rest other ih =>
      rw [smtpBody.eq_def]
      simp only [if_neg other, if_true]
      exact .lf ih
  | case6 c rest noCr noLf ih =>
      rw [smtpBody.eq_def]
      simp only [if_neg noCr, if_neg noLf]
      exact .other noCr noLf ih

def mailHeadLines (sev : AlertSeverity) (from_ to_ ruleName date : List UInt8) : List (List UInt8) :=
  [text "From: " ++ headerValue from_, text "To: " ++ headerValue to_,
    text "Subject: " ++ headerText (text "[budyk:" ++ severityName sev ++ text "] " ++ ruleName),
    text "Date: " ++ date, text "MIME-Version: 1.0", text "Content-Type: text/plain; charset=utf-8",
    text "Content-Transfer-Encoding: 8bit"]

section Message
variable (sev : AlertSeverity) (from_ to_ ruleName message : List UInt8)

theorem smtpMessage_lines (date : List UInt8) : smtpMessage sev from_ to_ ruleName message date =
    (mailHeadLines sev from_ to_ ruleName date).flatMap mailLine ++ mailLine [] ++
      mailLine (smtpBody (utf8Sanitize message)) := by
  have version : text "MIME-Version: 1.0\r\n" = mailLine (text "MIME-Version: 1.0") := by decide
  have type : text "Content-Type: text/plain; charset=utf-8\r\n" =
      mailLine (text "Content-Type: text/plain; charset=utf-8") := by decide
  have encoding : text "Content-Transfer-Encoding: 8bit\r\n" = mailLine (text "Content-Transfer-Encoding: 8bit") := by
    decide
  rw [smtpMessage, version, type, encoding]
  simp only [mailHeadLines, List.flatMap_cons, List.flatMap_nil, List.append_nil, mailLine, crlf, List.append_assoc,
    List.nil_append]

theorem mailHeadLines_oneLine {date : List UInt8} (clean : OneLine date) :
    ∀ line ∈ mailHeadLines sev from_ to_ ruleName date, line ≠ [] ∧ OneLine line := by
  have named (name : String) {value : List UInt8} (present : text name ≠ []) (plain : OneLine (text name))
      (one : OneLine value) : text name ++ value ≠ [] ∧ OneLine (text name ++ value) :=
    ⟨by simp [present], plain.append one⟩
  simp only [mailHeadLines, List.forall_mem_cons]
  refine ⟨named _ (by decide) ?_ (headerValue_oneLine _), named _ (by decide) ?_ (headerValue_oneLine _),
    named _ (by decide) ?_ (headerText_oneLine _), named _ (by decide) ?_ clean, ⟨by decide, ?_⟩, ⟨by decide, ?_⟩,
    ⟨by decide, ?_⟩, by simp⟩
  all_goals exact oneLine_of_all (by decide)

/-- Whatever the alert is made of, the mail has these seven lines, an empty one, and the text with the line ends of mail. -/
theorem smtp_message_lines {date : List UInt8} (clean : OneLine date) :
    CrlfOnly (smtpMessage sev from_ to_ ruleName message date) ∧
      (∀ line ∈ mailHeadLines sev from_ to_ ruleName date, line ≠ [] ∧ OneLine line) ∧
      ∃ body, LineEndsNormal (utf8Sanitize message) body ∧
        smtpMessage sev from_ to_ ruleName message date =
          (mailHeadLines sev from_ to_ ruleName date).flatMap mailLine ++ mailLine [] ++ mailLine body := by
  have lines := mailHeadLines_oneLine sev from_ to_ ruleName clean
  have normal := smtpBody_normal (utf8Sanitize message)
  have whole := smtpMessage_lines sev from_ to_ ruleName message date
  refine ⟨?_, lines, smtpBody (utf8Sanitize message), normal, whole⟩
  rw [whole, List.append_assoc]
  apply CrlfOnly.lines fun line held => (lines line held).2
  apply CrlfOnly.lineEnd
  exact normal.crlfOnly crlfOnly_nil.lineEnd

end Message

theorem smtp_message_lines_dot :
    let message := text "down\n.\r\n.\rRCPT"
    let date := text "Mon, 01 Jan 2024 00:00:00 +0000"
    let name := text "disk\r\nBcc: x"
    CrlfOnly (smtpMessage .critical (text "a@b") (text "c@d") name message date) ∧
      (∀ line ∈ mailHeadLines .critical (text "a@b") (text "c@d") name date, line ≠ [] ∧ OneLine line) ∧
      ∃ body, LineEndsNormal (utf8Sanitize message) body ∧
        smtpMessage .critical (text "a@b") (text "c@d") name message date =
          (mailHeadLines .critical (text "a@b") (text "c@d") name date).flatMap mailLine ++ mailLine [] ++ mailLine body :=
  smtp_message_lines _ _ _ _ _ (oneLine_of_all (by decide))

end Budyk.Proof
