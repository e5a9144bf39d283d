import Budyk.Proof.SessionLife

namespace Budyk.Proof
open Lib Web Spec

/-! The tokens a table is made of. -/

def HexToken (tok : Token) : Prop := tok.length = 64 ∧ ∀ b ∈ tok, b ∈ kHex

theorem hexToken_new (buf : Vector UInt8 32) : HexToken (newSessionToken (some buf)) := by
  have size : kHex.length = 16 := by decide
  have nibble : ∀ b : UInt8, (b >>> 4).toNat < 16 ∧ (b &&& 0xF).toNat < 16 := by
    intro b
    rw [UInt8.toNat_shiftRight, UInt8.toNat_and]
    have small := b.toNat_lt
    constructor
    · rw [Nat.shiftRight_eq_div_pow]
      show b.toNat / 2 ^ 4 < 16
      omega
    · exact Nat.lt_of_le_of_lt Nat.and_le_right (by decide)
  constructor
  · unfold newSessionToken
    simp
  · intro b held
    unfold newSessionToken at held
    simp only [List.mem_flatMap, List.mem_cons, List.not_mem_nil, or_false] at held
    obtain ⟨x, -, rfl | rfl⟩ := held
    · rw [List.getD_eq_getElem _ _ (by rw [size]; exact (nibble x).1)]
      exact List.getElem_mem _
    · rw [List.getD_eq_getElem _ _ (by rw [size]; exact (nibble x).2)]
      exact List.getElem_mem _

def zeroes : Vector UInt8 32 := Vector.replicate 32 0

theorem kHex_plain : ∀ b ∈ kHex, b ≠ 0 ∧ b ≠ tab ∧ b ≠ newline ∧ b ≠ 35 := by
  have all : (kHex.all fun b => b ≠ 0 ∧ b ≠ tab ∧ b ≠ newline ∧ b ≠ 35) = true := by decide
  intro b held
  exact of_decide_eq_true (List.all_eq_true.mp all b held)

namespace HexToken
variable {tok : Token} (hex : HexToken tok)
include hex

theorem plain : ∀ b ∈ tok, b ≠ 0 ∧ b ≠ tab ∧ b ≠ newline ∧ b ≠ 35 := fun b held => kHex_plain b (hex.2 b held)

theorem ne_nil : tok ≠ [] := by
  rintro rfl
  exact absurd hex.1 (by decide)

end HexToken

theorem digits_plain {digits : List UInt8} (all : ∀ b ∈ digits, isDigit b = true) :
    ∀ b ∈ digits, b ≠ 0 ∧ b ≠ tab ∧ b ≠ newline := by
  have none : isDigit 0 = false ∧ isDigit tab = false ∧ isDigit newline = false := by decide
  intro b held
  have digit := all b held
  refine ⟨?_, ?_, ?_⟩
  · rintro rfl
    rw [none.1] at digit
    cases digit
  · rintro rfl
    rw [none.2.1] at digit
    cases digit
  · rintro rfl
    rw [none.2.2] at digit
    cases digit

/-! One line. -/

/-- What a saved deadline is read back as: the digits that fit the buffer, and `strtoull`'s limit. -/
def readBack (d : Nat) : Nat := min (digitsValue ((decimal d).take 190)) (2 ^ 64 - 1)

theorem readBack_le (d : Nat) : readBack d ≤ d := by
  have part := digitsValue_append_le ((decimal d).take 190) ((decimal d).drop 190)
  rw [List.take_append_drop, digitsValue_decimal] at part
  exact (min_le_left _ _).trans part

theorem readBack_eq {d : Nat} (small : d < 2 ^ 64) : readBack d = d := by
  have short : (decimal d).length ≤ (decimal (2 ^ 64)).length := decimal_length_mono small.le
  have size : (decimal (2 ^ 64)).length = 20 := by decide
  rw [readBack, List.take_of_length_le (by omega), digitsValue_decimal]
  omega

theorem parseSession_part {tok : Token} (hex : HexToken tok) {digits ending : List UInt8} (present : digits ≠ [])
    (all : ∀ b ∈ digits, isDigit b = true) (last : ending = [] ∨ ending = [newline]) :
    parseSession (tok ++ tab :: (digits ++ ending)) = some (tok, min (digitsValue digits) (2 ^ 64 - 1)) := by
  have ends : 0 ∉ ending ∧ ∀ b ∈ ending.head?, isDigit b = false := by
    rcases last with rfl | rfl
    · exact ⟨List.not_mem_nil, by intro b held; cases held⟩
    · exact ⟨by decide, by intro b held; rw [List.head?_cons, Option.mem_some_iff] at held; rw [← held]; decide⟩
  have whole : cString (tok ++ tab :: (digits ++ ending)) = tok ++ tab :: (digits ++ ending) := by
    rw [cString, List.takeWhile_eq_self_iff]
    intro b held
    rw [List.mem_append, List.mem_cons, List.mem_append] at held
    apply decide_eq_true
    rcases held with held | rfl | held | held
    · exact (hex.plain b held).1
    · decide
    · exact (digits_plain all b held).1
    · exact ne_of_mem_of_not_mem held ends.1
  have before : ∀ b ∈ tok, (decide (b ≠ tab)) = true := fun b held => decide_eq_true (hex.plain b held).2.1
  have taken : (tok ++ tab :: (digits ++ ending)).takeWhile (fun b => b ≠ tab) = tok := by
    rw [List.takeWhile_append_of_pos before, List.takeWhile_cons_of_neg (by simp), List.append_nil]
  have dropped : (tok ++ tab :: (digits ++ ending)).dropWhile (fun b => b ≠ tab) = tab :: (digits ++ ending) := by
    rw [List.dropWhile_append_of_pos before, List.dropWhile_cons_of_neg (by simp)]
  have number : strtoull (digits ++ ending) = some (UInt64.ofNat (min (digitsValue digits) (2 ^ 64 - 1)), ending) := by
    rw [strtoull, scanNumber_digits present all ends.2]
    simp only [Option.map_some, Bool.false_eq_true, if_false]
    split
    next large => rw [min_eq_right (by omega)]
    next small => rw [min_eq_left (by omega)]
  rw [parseSession, whole, if_neg (by simp), dropped, List.tail_cons, number]
  simp only [taken]
  rw [if_neg hex.ne_nil, UInt64.toNat_ofNat', Nat.mod_eq_of_lt (by omega)]

theorem parseSession_tabless {line : List UInt8} (absent : tab ∉ line) : parseSession line = none := by
  unfold parseSession
  exact if_pos fun held => absent ((List.takeWhile_prefix _).subset held)

def loadEntry (ttlNs now : Nat) (got : Sessions) (kv : Sigma fun _ : Token => Nat) : Sessions :=
  if readBack kv.2 ≤ now then got else got.insert kv.1 (min (readBack kv.2) (now + ttlNs))

theorem loadSessionLine_part {ttlNs now : Nat} (file : LoadedFile) {tok : Token} (hex : HexToken tok) {d : Nat}
    {ending : List UInt8} (last : ending = [] ∨ ending = [newline]) :
    loadSessionLine ttlNs now file (tok ++ tab :: ((decimal d).take 190 ++ ending)) =
      { file with got := loadEntry ttlNs now file.got ⟨tok, d⟩ } := by
  obtain ⟨first, others, shape⟩ := List.exists_cons_of_ne_nil hex.ne_nil
  have plain := hex.plain first (by rw [shape]; exact List.mem_cons_self)
  have start : (tok ++ tab :: ((decimal d).take 190 ++ ending)).head? = some first := by rw [shape]; rfl
  have parsed : parseSession (tok ++ tab :: ((decimal d).take 190 ++ ending)) = some (tok, readBack d) :=
    parseSession_part hex (by simpa using decimal_ne_nil d)
      (fun b held => decimal_isDigit d b (List.mem_of_mem_take held)) last
  unfold loadSessionLine loadEntry
  rw [start, if_neg (by simp [plain.2.2.2]), if_neg (by simp [plain.2.2.1]), parsed]
  dsimp only
  split
  · rfl
  · congr 2
    split <;> omega

theorem loadSessionLine_tabless {ttlNs now : Nat} (file : LoadedFile) {line : List UInt8} (start : line.head? ≠ some 35)
    (absent : tab ∉ line) : loadSessionLine ttlNs now file line = file := by
  unfold loadSessionLine
  rw [if_neg start, parseSession_tabless absent]
  simp

theorem load_sessionLine {ttlNs now : Nat} (file : LoadedFile) (kv : Sigma fun _ : Token => Nat) (hex : HexToken kv.1) :
    (fgetsFrom 255 [] (sessionLine kv ++ [newline])).foldl (loadSessionLine ttlNs now) file =
      { file with got := loadEntry ttlNs now file.got kv } := by
  obtain ⟨tok, d⟩ := kv
  dsimp only at hex
  have noNul : cString tok = tok := by
    rw [cString, List.takeWhile_eq_self_iff]
    exact fun b held => decide_eq_true (hex.plain b held).1
  have whole : sessionLine ⟨tok, d⟩ = tok ++ tab :: decimal d := by rw [sessionLine, noNul]
  have oneLine : newline ∉ sessionLine ⟨tok, d⟩ := by
    rw [whole, List.mem_append, List.mem_cons]
    rintro (held | same | held)
    · exact (hex.plain _ held).2.2.1 rfl
    · exact absurd same (by decide)
    · exact (digits_plain (decimal_isDigit d) _ held).2.2 rfl
  have size : (sessionLine ⟨tok, d⟩).length = 65 + (decimal d).length := by
    rw [whole, List.length_append, List.length_cons, hex.1]
    omega
  rcases Nat.lt_trichotomy (sessionLine ⟨tok, d⟩).length 255 with short | exactly | long
  · rw [fgetsFrom_short oneLine short, List.foldl_cons, List.foldl_nil, whole, List.append_assoc, List.cons_append]
    conv_lhs => rw [← List.take_of_length_le (show (decimal d).length ≤ 190 by omega)]
    exact loadSessionLine_part file hex (.inr rfl)
  · rw [fgetsFrom_exact oneLine (by decide) exactly, List.foldl_cons, List.foldl_cons, List.foldl_nil,
      loadSessionLine_tabless _ (by decide) (by decide), whole]
    conv_lhs => rw [← List.append_nil (decimal d), ← List.take_of_length_le (show (decimal d).length ≤ 190 by omega)]
    exact loadSessionLine_part file hex (.inl rfl)
  · have first : (sessionLine ⟨tok, d⟩).take 255 = tok ++ tab :: ((decimal d).take 190 ++ []) := by
      rw [whole, List.take_append, hex.1, List.take_of_length_le (by rw [hex.1]; decide), List.append_nil]
      rfl
    have rest : (sessionLine ⟨tok, d⟩).drop 255 = (decimal d).drop 190 := by
      rw [whole, List.drop_append, hex.1, List.drop_of_length_le (by rw [hex.1]; decide), List.nil_append]
      rfl
    rw [fgetsFrom_full _ oneLine (by decide) long.le, List.foldl_cons, first, loadSessionLine_part file hex (.inl rfl), rest]
    have inside : ∀ line ∈ fgetsFrom 255 [] ((decimal d).drop 190 ++ [newline]), ∀ b ∈ line, b ≠ 35 ∧ b ≠ tab := by
      intro line held b among
      have from_ := fgetsFrom_mem _ _ line held b among
      simp only [List.not_mem_nil, false_or, List.mem_append, List.mem_singleton] at from_
      rcases from_ with digit | rfl
      · have digit := decimal_isDigit d b (List.mem_of_mem_drop digit)
        constructor
        · rintro rfl
          exact absurd digit (by decide)
        · rintro rfl
          exact absurd digit (by decide)
      · decide
    generalize { file with got := loadEntry ttlNs now file.got ⟨tok, d⟩ } = loaded
    generalize fgetsFrom 255 [] ((decimal d).drop 190 ++ [newline]) = lines at inside
    induction lines with
    | nil => rfl
    | cons line lines ih =>
        rw [List.foldl_cons, loadSessionLine_tabless]
        · exact ih fun other held => inside other (List.mem_cons_of_mem _ held)
        · intro start
          exact (inside line List.mem_cons_self 35 (List.mem_of_mem_head? start)).1 rfl
        · intro held
          exact (inside line List.mem_cons_self tab held).2 rfl

/-! The whole file. -/

/-- No credential, or one that a line of the file carries. -/
def PlainCredential (credential : List UInt8) : Prop :=
  credential.length < 200 ∧ ∀ b ∈ credential, 43 ≤ b ∧ b ≤ 122

theorem plainCredential_set (s : SessionStore) (passwordHash : List UInt8) :
    PlainCredential (s.setCredential passwordHash).credential := by
  unfold SessionStore.setCredential
  dsimp only
  split
  · exact ⟨by decide, by intro b held; cases held⟩
  · refine ⟨?_, base64Encode_plain _⟩
    rw [base64Encode_length, sha1_length]
    decide

theorem byte_plain {b : UInt8} (bounds : 43 ≤ b ∧ b ≤ 122) : b ≠ 0 ∧ b ≠ newline ∧ b ≠ carriageReturn := by
  refine ⟨?_, ?_, ?_⟩
  · rintro rfl
    exact absurd bounds (by decide)
  · rintro rfl
    exact absurd bounds (by decide)
  · rintro rfl
    exact absurd bounds (by decide)

theorem loadSessionLine_comment {ttlNs now : Nat} (file : LoadedFile) {line : List UInt8} (start : line.head? = some 35)
    (other : line.take 13 ≠ kCredentialLine) : loadSessionLine ttlNs now file line = file := by
  unfold loadSessionLine
  rw [if_pos start, if_neg other]

theorem loadSessionLine_credential {ttlNs now : Nat} (file : LoadedFile) {credential : List UInt8}
    (plain : PlainCredential credential) :
    loadSessionLine ttlNs now file (kCredentialLine ++ credential ++ [newline]) = { file with credential := credential } := by
  have size : kCredentialLine.length = 13 := by decide
  have noNul : 0 ∉ credential ++ [newline] := by
    rw [List.mem_append, not_or]
    exact ⟨fun held => (byte_plain (plain.2 0 held)).1 rfl, by decide⟩
  have oneLine : newline ∉ credential := fun held => (byte_plain (plain.2 _ held)).2.1 rfl
  have ending : credential.getLast? ≠ some carriageReturn :=
    fun last => (byte_plain (plain.2 _ (List.mem_of_getLast? last))).2.2 rfl
  have whole : cString (credential ++ [newline]) = credential ++ [newline] := by
    rw [cString, List.takeWhile_eq_self_iff]
    exact fun b held => decide_eq_true (ne_of_mem_of_not_mem held noNul)
  unfold loadSessionLine
  rw [List.append_assoc, if_pos (by rfl), List.take_append_of_le_length size.ge, List.take_of_length_le size.le, if_pos rfl,
    ← size, List.drop_left, whole, stripEnd_newline, stripEnd_eq oneLine ending]

theorem load_entries {ttlNs now : Nat} (entries : List (Sigma fun _ : Token => Nat)) (hex : ∀ kv ∈ entries, HexToken kv.1)
    (file : LoadedFile) :
    (fgetsFrom 255 [] (entries.flatMap fun kv => sessionLine kv ++ [newline])).foldl (loadSessionLine ttlNs now) file =
      { file with got := entries.foldl (loadEntry ttlNs now) file.got } := by
  induction entries generalizing file with
  | nil => rfl
  | cons kv rest ih =>
      rw [List.flatMap_cons, List.append_assoc, List.singleton_append, fgetsFrom_newline, List.foldl_append,
        load_sessionLine file kv (hex kv List.mem_cons_self), ih fun other held => hex other (List.mem_cons_of_mem _ held)]
      rfl

theorem readSessions_saved {ttlNs now : Nat} {credential : List UInt8} (plain : PlainCredential credential)
    (table : Sessions) (hex : ∀ kv ∈ table.entries, HexToken kv.1) :
    readSessions ttlNs now (sessionsFile credential table) = ⟨credential, table.entries.foldl (loadEntry ttlNs now) ∅⟩ := by
  have first : text "# budyk sessions v2\n" = text "# budyk sessions v2" ++ [newline] := by decide
  have last : text "# token\tdeadline_ns\n" = text "# token\tdeadline_ns" ++ [newline] := by decide
  have rest : ∀ file, (fgetsFrom 255 [] (text "# token\tdeadline_ns\n" ++ table.entries.flatMap fun kv =>
      sessionLine kv ++ [newline])).foldl (loadSessionLine ttlNs now) file =
      { file with got := table.entries.foldl (loadEntry ttlNs now) file.got } := by
    intro file
    rw [last, List.append_assoc, List.singleton_append, fgetsFrom_newline (text "# token\tdeadline_ns"), List.foldl_append,
      fgetsFrom_short (by decide) (by decide), List.foldl_cons, List.foldl_nil,
      loadSessionLine_comment _ (by decide) (by decide), load_entries _ hex]
  unfold readSessions fgetsLines sessionsFile
  rw [first, List.append_assoc, List.append_assoc, List.append_assoc, List.singleton_append,
    fgetsFrom_newline (text "# budyk sessions v2"), List.foldl_append, fgetsFrom_short (by decide) (by decide),
    List.foldl_cons, List.foldl_nil, loadSessionLine_comment _ (by decide) (by decide)]
  by_cases none : credential = []
  · subst none
    rw [if_neg (by simp), List.nil_append]
    exact rest ⟨[], ∅⟩
  · have oneLine : newline ∉ kCredentialLine ++ credential := by
      rw [List.mem_append, not_or]
      exact ⟨by decide, fun held => (byte_plain (plain.2 _ held)).2.1 rfl⟩
    have size : kCredentialLine.length = 13 := by decide
    have short : (kCredentialLine ++ credential).length < 255 := by
      rw [List.length_append, size]
      have := plain.1
      omega
    rw [if_pos none, List.append_assoc, List.singleton_append, fgetsFrom_newline (kCredentialLine ++ credential),
      List.foldl_append, fgetsFrom_short oneLine short, List.foldl_cons, List.foldl_nil,
      loadSessionLine_credential _ plain]
    exact rest ⟨credential, ∅⟩

theorem lookup_loadEntries {ttlNs now : Nat} (tok : Token) (entries : List (Sigma fun _ : Token => Nat))
    (distinct : entries.NodupKeys) (got : Sessions) :
    (entries.foldl (loadEntry ttlNs now) got).lookup tok =
      ((((entries.dlookup tok).map readBack).filter (now < ·)).map (min · (now + ttlNs))).or (got.lookup tok) := by
  induction entries generalizing got with
  | nil => rfl
  | cons kv rest ih =>
      rw [List.foldl_cons, ih (List.nodupKeys_of_nodupKeys_cons distinct), loadEntry]
      by_cases same : tok = kv.1
      · subst same
        rw [List.dlookup_eq_none.mpr (List.notMem_keys_of_nodupKeys_cons distinct), List.dlookup_cons_eq]
        by_cases expired : readBack kv.2 ≤ now
        · simp [Option.filter, expired, not_lt.mpr expired]
        · simp [Option.filter, expired, not_le.mp expired]
      · rw [List.dlookup_cons_ne _ _ same]
        split
        · rfl
        · rw [AList.lookup_insert_ne same]

theorem loaded_file {s : SessionStore} {credential : List UInt8} (plain : PlainCredential credential) (table : Sessions)
    (hex : ∀ kv ∈ table.entries, HexToken kv.1) (now : Nat) (tok : Token) :
    SessionCall.loaded s (.bytes (sessionsFile credential table)) now tok =
      if s.credential ≠ [] ∧ credential ≠ s.credential then none
      else (((table.lookup tok).map readBack).filter (now < ·)).map (min · (now + s.ttlNs)) := by
  unfold SessionCall.loaded
  dsimp only
  rw [readSessions_saved plain table hex, lookup_loadEntries _ _ table.nodupKeys]
  simp [AList.lookup]

end Budyk.Proof
