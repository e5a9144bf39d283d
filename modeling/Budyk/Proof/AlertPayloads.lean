import Budyk.Lib.Form
import Budyk.Proof.JsonText
import Budyk.Rules.Alert

/-! What a receiver reads out of an alert's body is the text it was made of. -/

namespace Budyk.Proof
open Lib Rules

theorem upperHexDigit_number : ∀ high < 16, ∀ low < 16,
    hexNumber [upperHexDigit high, upperHexDigit low] = some (16 * high + low) := by decide

theorem unreserved_range {c : UInt8} (kept : unreserved c = true) :
    c ≠ 43 ∧ c ≠ percent ∧ c ≠ ampersand ∧ c ≠ equals := by
  simp only [unreserved, Bool.or_eq_true, Bool.and_eq_true, decide_eq_true_eq, UInt8.le_iff_toNat_le, ← UInt8.toNat_inj,
    UInt8.reduceToNat] at kept
  simp only [ne_eq, percent, ampersand, equals, ← UInt8.toNat_inj, UInt8.reduceToNat]
  omega

theorem hexValue_delimiter {b : UInt8} {d : Nat} (value : hexValue b = some d) :
    b ≠ 43 ∧ b ≠ ampersand ∧ b ≠ equals := by
  refine ⟨?_, ?_, ?_⟩
  all_goals
    rintro rfl
    revert value
    simp +decide [hexValue]

theorem urlEncodeByte_hex (c : UInt8) : ∃ h l, [percent, upperHexDigit (c.toNat / 16), upperHexDigit (c.toNat % 16)] = [percent, h, l] ∧
    hexNumber [h, l] = some c.toNat ∧ (h ≠ 43 ∧ h ≠ ampersand ∧ h ≠ equals) ∧ (l ≠ 43 ∧ l ≠ ampersand ∧ l ≠ equals) := by
  have small := c.toNat_lt
  have number := upperHexDigit_number (c.toNat / 16) (by omega) (c.toNat % 16) (by omega)
  rw [Nat.div_add_mod] at number
  have digits := hexNumber_digits number
  obtain ⟨_, high⟩ := digits _ List.mem_cons_self
  obtain ⟨_, low⟩ := digits _ (List.mem_cons_of_mem _ List.mem_cons_self)
  exact ⟨_, _, rfl, number, hexValue_delimiter high, hexValue_delimiter low⟩

theorem formText_cons {b : UInt8} (noPlus : b ≠ 43) (noPercent : b ≠ percent) (rest : List UInt8) :
    formText (b :: rest) = b :: formText rest := by
  rw [formText, List.map_cons, if_neg noPlus, percentDecode_plain noPercent]
  rfl

theorem formText_urlEncodeByte (c : UInt8) (rest : List UInt8) : formText (urlEncodeByte c ++ rest) = c :: formText rest := by
  unfold urlEncodeByte
  split
  next kept =>
    obtain ⟨noPlus, noPercent, _⟩ := unreserved_range kept
    exact formText_cons noPlus noPercent rest
  split
  next same =>
    rw [same]
    exact percentDecode_plain (by decide) _
  next =>
    obtain ⟨h, l, same, number, upper, lower⟩ := urlEncodeByte_hex c
    rw [same, formText]
    simp only [List.cons_append, List.nil_append, List.map_cons]
    rw [if_neg (by decide : percent ≠ 43), if_neg upper.1, if_neg lower.1, percentDecode_hex number, UInt8.ofNat_toNat]
    rfl

theorem formText_urlEncode (s : List UInt8) : formText (urlEncode s) = s := by
  induction s with
  | nil => rfl
  | cons c s ih => rw [urlEncode, List.flatMap_cons, formText_urlEncodeByte, ← urlEncode, ih]

theorem urlEncode_clean (s : List UInt8) : ampersand ∉ urlEncode s ∧ equals ∉ urlEncode s := by
  have byte : ∀ c, ampersand ∉ urlEncodeByte c ∧ equals ∉ urlEncodeByte c := by
    intro c
    unfold urlEncodeByte
    split
    next kept =>
      obtain ⟨_, _, noAmpersand, noEquals⟩ := unreserved_range kept
      simpa using ⟨noAmpersand.symm, noEquals.symm⟩
    split
    next => decide
    next =>
      obtain ⟨h, l, same, _, upper, lower⟩ := urlEncodeByte_hex c
      rw [same]
      simpa using ⟨⟨by decide, upper.2.1.symm, lower.2.1.symm⟩, by decide, upper.2.2.symm, lower.2.2.symm⟩
  constructor
  · intro held
    obtain ⟨c, _, inside⟩ := List.mem_flatMap.mp held
    exact (byte c).1 inside
  · intro held
    obtain ⟨c, _, inside⟩ := List.mem_flatMap.mp held
    exact (byte c).2 inside

theorem twilioForm_fields (from_ to_ ruleName message : List UInt8) :
    formFields (twilioForm from_ to_ ruleName message) =
      [(text "From", from_), (text "To", to_),
        (text "Body", utf8Sanitize (text "[budyk] " ++ ruleName ++ if message ≠ [] then text ": " ++ message else []))] := by
  let body := utf8Sanitize (text "[budyk] " ++ ruleName ++ if message ≠ [] then text ": " ++ message else [])
  let fields := [(text "From", urlEncode from_), (text "To", urlEncode to_), (text "Body", urlEncode body)]
  have joined : twilioForm from_ to_ ruleName message =
      [ampersand].intercalate (fields.map fun field => field.1 ++ equals :: field.2) := by
    simp only [twilioForm, fields, List.intercalate, List.map_cons, List.map_nil, List.intersperse_cons_cons,
      List.intersperse_singleton, List.flatten_cons, List.flatten_nil, List.append_nil, List.append_assoc]
    rfl
  have clean : ∀ field ∈ fields, equals ∉ field.1 ∧ ampersand ∉ field.1 ++ equals :: field.2 := by
    have value : ∀ {name : List UInt8} (s : List UInt8), ampersand ∉ name → ampersand ∉ name ++ equals :: urlEncode s := by
      intro name s noName
      simpa using ⟨noName, by decide, (urlEncode_clean s).1⟩
    simp only [fields, List.forall_mem_cons]
    exact ⟨⟨by decide, value _ (by decide)⟩, ⟨by decide, value _ (by decide)⟩, ⟨by decide, value _ (by decide)⟩, by simp⟩
  rw [joined, formFields_join (List.cons_ne_nil _ _) clean]
  simp only [List.map_cons, List.map_nil, formText_urlEncode]
  rfl

/-! The JSON bodies. -/

theorem severityName_plain (sev : AlertSeverity) : plainBytes (severityName sev) = true := by
  cases sev <;> rfl

theorem content_text_append {s : String} {content value : List UInt8} (plain : plainBytes (text s) = true)
    (denotes : StringContent content value) : StringContent (text s ++ content) (text s ++ value) :=
  (StringContent.self plain).append denotes

theorem severity_content (sev : AlertSeverity) {content value : List UInt8} (denotes : StringContent content value) :
    StringContent (text "[" ++ (severityName sev ++ (text "] " ++ content)))
      (text "[" ++ (severityName sev ++ (text "] " ++ value))) :=
  content_text_append rfl ((StringContent.self (severityName_plain sev)).append (content_text_append rfl denotes))

theorem telegramPayload_members (sev : AlertSeverity) (chatId ruleName message : List UInt8) :
    readJson (telegramPayload sev chatId ruleName message) = some (.object
      [(text "chat_id", .string (utf8Sanitize chatId)),
        (text "text", .string (text "[" ++ severityName sev ++ text "] " ++ utf8Sanitize ruleName ++
          if message ≠ [] then text ": " ++ utf8Sanitize message else []))]) := by
  let tail := if message ≠ [] then text ": " ++ jsonEscape message else []
  let content := text "[" ++ (severityName sev ++ (text "] " ++ (jsonEscape ruleName ++ tail)))
  have written : telegramPayload sev chatId ruleName message =
      123 :: quote :: (text "chat_id" ++ quote :: 58 :: (quote :: jsonEscape chatId ++ quote :: 44 ::
        (quote :: text "text" ++ quote :: 58 :: (quote :: content ++ quote :: [125])))) := by
    simp only [telegramPayload, content, tail, List.append_assoc, List.cons_append]
    rfl
  have tail_ : StringContent tail (if message ≠ [] then text ": " ++ utf8Sanitize message else []) := by
    by_cases empty : message = []
    · simp only [tail, empty, ne_eq, not_true_eq_false, if_false]
      exact .nil
    · simp only [tail, empty, ne_eq, not_false_eq_true, if_true]
      exact content_text_append rfl (jsonEscape_content message)
  have body := severity_content sev ((jsonEscape_content ruleName).append tail_)
  rw [List.append_assoc, List.append_assoc, List.append_assoc]
  rw [written]
  apply readJson_of (n := 4) (by simp; omega)
  intro fuel
  apply readValue_object
  rw [← List.cons_append, readMembers_more (.self rfl) (readValue_string (jsonEscape_content chatId) _ _),
    readMembers_last (.self rfl) (readValue_string body _ _)]
  rfl

theorem severityColor_number (sev : AlertSeverity) (fuel : Nat) :
    readValue (fuel + 1) (severityColor sev ++ text "\x7d]\x7d") = some (.number (severityColor sev), text "\x7d]\x7d") := by
  cases sev <;> rfl

theorem discordPayload_members (sev : AlertSeverity) (ruleName message : List UInt8) :
    readJson (discordPayload sev ruleName message) = some (.object
      [(text "embeds", .array [.object
        [(text "title", .string (text "[" ++ severityName sev ++ text "] " ++ utf8Sanitize ruleName)),
          (text "description", .string (utf8Sanitize message)),
          (text "color", .number (severityColor sev))]])]) := by
  let title := text "[" ++ (severityName sev ++ (text "] " ++ jsonEscape ruleName))
  let embed := 123 :: quote :: (text "title" ++ quote :: 58 :: (quote :: title ++ quote :: 44 ::
    (quote :: text "description" ++ quote :: 58 :: (quote :: jsonEscape message ++ quote :: 44 ::
      (quote :: text "color" ++ quote :: 58 :: (severityColor sev ++ text "\x7d]\x7d"))))))
  have written : discordPayload sev ruleName message = 123 :: quote :: (text "embeds" ++ quote :: 58 :: 91 :: embed) := by
    simp only [discordPayload, embed, title, List.append_assoc, List.cons_append]
    rfl
  have heading := severity_content sev (jsonEscape_content ruleName)
  rw [List.append_assoc, List.append_assoc, written]
  apply readJson_of (n := 9) (by simp [embed]; omega)
  intro fuel
  have embed_ : readValue (fuel + 5) embed =
      some (.object [(text "title", .string (text "[" ++ (severityName sev ++ (text "] " ++ utf8Sanitize ruleName)))),
          (text "description", .string (utf8Sanitize message)),
          (text "color", .number (severityColor sev))], text "]\x7d") := by
    apply readValue_object
    rw [← List.cons_append, readMembers_more (.self rfl) (readValue_string heading _ _),
      readMembers_more (.self rfl) (readValue_string (jsonEscape_content message) _ _),
      readMembers_last (.self rfl) (severityColor_number sev _)]
    rfl
  apply readValue_object
  rw [← List.cons_append, readMembers_last (.self rfl) (readValue_array (readItems_last embed_))]

theorem severity_utf8 (sev : AlertSeverity) : Utf8 (severityName sev) ∧ Utf8 (severityColor sev) := by
  cases sev <;> exact ⟨utf8_literal rfl, utf8_literal rfl⟩

theorem telegramPayload_utf8 (sev : AlertSeverity) (chatId ruleName message : List UInt8) :
    Utf8 (telegramPayload sev chatId ruleName message) := by
  have tail : Utf8 (if message ≠ [] then text ": " ++ jsonEscape message else []) := by
    split
    · exact (utf8_literal rfl).append (jsonEscape_utf8 message)
    · exact Utf8.nil
  unfold telegramPayload
  repeat' apply Utf8.append
  all_goals first | exact tail | exact jsonEscape_utf8 _ | exact (severity_utf8 sev).1 | exact utf8_literal rfl

theorem discordPayload_utf8 (sev : AlertSeverity) (ruleName message : List UInt8) :
    Utf8 (discordPayload sev ruleName message) := by
  unfold discordPayload
  repeat' apply Utf8.append
  all_goals
    first
    | exact jsonEscape_utf8 _
    | exact (severity_utf8 sev).1
    | exact (severity_utf8 sev).2
    | exact utf8_literal rfl

/-- The bodies an alert is sent in carry their text and nothing else. -/
theorem alert_payloads (sev : AlertSeverity) (chatId from_ to_ ruleName message : List UInt8) :
    (Utf8 (telegramPayload sev chatId ruleName message) ∧
      readJson (telegramPayload sev chatId ruleName message) = some (.object
        [(text "chat_id", .string (utf8Sanitize chatId)),
          (text "text", .string (text "[" ++ severityName sev ++ text "] " ++ utf8Sanitize ruleName ++
            if message ≠ [] then text ": " ++ utf8Sanitize message else []))])) ∧
    (Utf8 (discordPayload sev ruleName message) ∧
      readJson (discordPayload sev ruleName message) = some (.object
        [(text "embeds", .array [.object
          [(text "title", .string (text "[" ++ severityName sev ++ text "] " ++ utf8Sanitize ruleName)),
            (text "description", .string (utf8Sanitize message)),
            (text "color", .number (severityColor sev))]])])) ∧
    formFields (twilioForm from_ to_ ruleName message) =
      [(text "From", from_), (text "To", to_),
        (text "Body", utf8Sanitize (text "[budyk] " ++ ruleName ++ if message ≠ [] then text ": " ++ message else []))] :=
  ⟨⟨telegramPayload_utf8 sev chatId ruleName message, telegramPayload_members sev chatId ruleName message⟩,
    ⟨discordPayload_utf8 sev ruleName message, discordPayload_members sev ruleName message⟩,
    twilioForm_fields from_ to_ ruleName message⟩

end Budyk.Proof
