import Budyk.Lib.Segments
import Budyk.Proof.Server
import Budyk.Spec.RequestHead

/-! The head of a request is parsed exactly where it keeps to the grammar, and into what the text says. -/

namespace Budyk.Proof
open Lib Web Spec

theorem splitFirst_iff {b : UInt8} {s before after : Bytes} :
    splitFirst b s = some (before, after) ↔ s = before ++ b :: after ∧ b ∉ before := by
  unfold splitFirst beforeFirst
  constructor
  · intro split
    split at split
    next held =>
      cases split
      have absent : b ∉ s.takeWhile (· ≠ b) := fun inside => by simpa using List.mem_takeWhile_imp inside
      refine ⟨?_, absent⟩
      have whole := List.takeWhile_append_dropWhile (p := (· ≠ b)) (l := s)
      cases left : s.dropWhile (· ≠ b) with
      | nil =>
          rw [left, List.append_nil] at whole
          rw [whole] at absent
          exact absurd held absent
      | cons c rest =>
          have stops := List.head?_dropWhile_not (· ≠ b) s
          rw [left] at stops
          have same : c = b := by simpa using stops
          rw [left, same] at whole
          exact whole.symm
    next => cases split
  · rintro ⟨rfl, absent⟩
    have passes : ∀ c ∈ before, decide (c ≠ b) = true := by
      intro c held
      rw [decide_eq_true_eq]
      exact ne_of_mem_of_not_mem held absent
    rw [if_pos (by simp), List.takeWhile_append_of_pos passes, List.dropWhile_append_of_pos passes]
    simp

theorem splitTarget_iff {target path query : Bytes} : splitTarget target = (path, query) ↔ SplitTarget target path query := by
  unfold splitTarget SplitTarget
  by_cases held : (63 : UInt8) ∈ target
  · obtain ⟨before, after, split⟩ : ∃ before after, splitFirst 63 target = some (before, after) := by
      unfold splitFirst
      rw [if_pos held]
      exact ⟨_, _, rfl⟩
    obtain ⟨whole, absent⟩ := splitFirst_iff.mp split
    rw [split, Option.getD_some, Prod.mk.injEq]
    constructor
    · rintro ⟨rfl, rfl⟩
      exact ⟨absent, .inr whole⟩
    · rintro ⟨lacking, ⟨rfl, -⟩ | other⟩
      · exact absurd held lacking
      · have again := splitFirst_iff.mpr ⟨other, lacking⟩
        rw [split] at again
        cases again
        exact ⟨rfl, rfl⟩
  · have lacking : splitFirst 63 target = none := if_neg held
    rw [lacking, Option.getD_none, Prod.mk.injEq]
    constructor
    · rintro ⟨rfl, rfl⟩
      exact ⟨held, .inl ⟨rfl, rfl⟩⟩
    · rintro ⟨-, ⟨rfl, rfl⟩ | rfl⟩
      · exact ⟨rfl, rfl⟩
      · exact absurd (by simp) held

theorem rdropWhile_all {trimmed after : Bytes} (spaces : ∀ b ∈ after, isSpace b = true) :
    (trimmed ++ after).rdropWhile isSpace = trimmed.rdropWhile isSpace := by
  induction after using List.reverseRecOn with
  | nil => rw [List.append_nil]
  | append_singleton after b ih =>
      rw [← List.append_assoc, List.rdropWhile_concat_pos _ _ _ (spaces b (by simp))]
      exact ih fun c held => spaces c (List.mem_append_left _ held)

theorem trim_iff {value trimmed : Bytes} : trim value = trimmed ↔ Trimmed value trimmed := by
  unfold trim
  constructor
  · rintro rfl
    refine ⟨⟨value.takeWhile isSpace, (value.dropWhile isSpace).rtakeWhile isSpace, ?_, ?_, ?_⟩, ?_, ?_⟩
    · rw [List.append_assoc, List.rdropWhile_append_rtakeWhile, List.takeWhile_append_dropWhile]
    · intro b held
      exact List.mem_takeWhile_imp held
    · intro b held
      exact List.mem_rtakeWhile_imp held
    · intro b first
      obtain ⟨rest, whole⟩ := List.rdropWhile_prefix isSpace (value.dropWhile isSpace)
      have stops := List.head?_dropWhile_not isSpace value
      rw [← whole, List.head?_append, first, Option.some_or] at stops
      exact stops
    · intro b last
      have present : (value.dropWhile isSpace).rdropWhile isSpace ≠ [] := by
        intro empty
        rw [empty] at last
        cases last
      have stops := List.rdropWhile_last_not _ _ present
      rw [Option.mem_def, List.getLast?_eq_some_getLast present, Option.some.injEq] at last
      rwa [last, Bool.not_eq_true] at stops
  · rintro ⟨⟨before, after, rfl, leading, trailing⟩, first, last⟩
    have stays : trimmed.rdropWhile isSpace = trimmed := by
      rw [List.rdropWhile_eq_self_iff]
      intro present
      rw [Bool.not_eq_true]
      exact last _ (List.getLast?_eq_some_getLast present)
    rw [List.append_assoc, List.dropWhile_append_of_pos leading]
    cases trimmed with
    | nil =>
        rw [List.nil_append, List.dropWhile_eq_nil_iff.mpr trailing]
        rfl
    | cons b trimmed =>
        rw [List.cons_append, List.dropWhile_cons_of_neg (by rw [first b rfl]; exact Bool.false_ne_true), ← List.cons_append,
          rdropWhile_all trailing, stays]

theorem version_iff {version : Bytes} :
    version.take 7 = text "HTTP/1." ∧ version.length = 8 ↔ ∃ b, version = text "HTTP/1." ++ [b] := by
  have length : (text "HTTP/1.").length = 7 := by decide
  constructor
  · rintro ⟨same, eight⟩
    obtain ⟨b, rest⟩ := List.length_eq_one_iff.mp (show (version.drop 7).length = 1 by rw [List.length_drop, eight])
    exact ⟨b, by rw [← same, ← rest, List.take_append_drop]⟩
  · rintro ⟨b, rfl⟩
    exact ⟨List.take_left' length, by rw [List.length_append, length]; rfl⟩

theorem parseRequestLine_iff {line method path query : Bytes} :
    parseRequestLine line = some (method, path, query) ↔ RequestLine line method path query := by
  constructor
  · intro parsed
    unfold parseRequestLine at parsed
    cases first : splitFirst 32 line with
    | none =>
        rw [first] at parsed
        cases parsed
    | some pieces =>
        obtain ⟨before, rest⟩ := pieces
        cases second : splitFirst 32 rest with
        | none =>
            simp [first, second] at parsed
        | some pieces =>
            obtain ⟨target, version⟩ := pieces
            simp only [first, second, Option.bind_eq_bind, Option.bind_some] at parsed
            obtain ⟨rfl, -⟩ := splitFirst_iff.mp first
            obtain ⟨rfl, plain⟩ := splitFirst_iff.mp second
            split at parsed
            next => cases parsed
            next present =>
              split at parsed
              next => cases parsed
              next http =>
                split at parsed
                next => cases parsed
                next letters =>
                  split at parsed
                  next => cases parsed
                  next absolute =>
                    obtain ⟨rfl, split⟩ := Prod.mk.inj (Option.some.inj parsed)
                    rw [not_or] at present http
                    obtain ⟨b, rfl⟩ := version_iff.mp ⟨not_not.mp http.1, not_not.mp http.2⟩
                    refine ⟨⟨target, b, rfl, not_not.mp absolute, plain, splitTarget_iff.mp split⟩, present.1, ?_⟩
                    simpa using letters
  · rintro ⟨⟨target, b, rfl, absolute, plain, split⟩, named, letters⟩
    have first : splitFirst 32 (method ++ 32 :: (target ++ 32 :: (text "HTTP/1." ++ [b]))) =
        some (method, target ++ 32 :: (text "HTTP/1." ++ [b])) := by
      refine splitFirst_iff.mpr ⟨rfl, fun held => ?_⟩
      exact absurd (letters 32 held).1 (by decide)
    have second : splitFirst 32 (target ++ 32 :: (text "HTTP/1." ++ [b])) = some (target, text "HTTP/1." ++ [b]) :=
      splitFirst_iff.mpr ⟨rfl, plain⟩
    obtain ⟨seven, eight⟩ := version_iff.mpr ⟨b, rfl⟩
    have present : ¬(method = [] ∨ target = []) := by
      rintro (lacking | rfl)
      · exact named lacking
      · cases absolute
    have upper : (!method.all fun c => 65 ≤ c && c ≤ 90) = false := by simpa using letters
    unfold parseRequestLine
    simp only [first, second, Option.bind_eq_bind, Option.bind_some]
    rw [if_neg present, if_neg (not_or.mpr ⟨not_not.mpr seven, not_not.mpr eight⟩), upper, if_neg Bool.false_ne_true,
      if_neg (not_not.mpr absolute), splitTarget_iff.mpr split]

theorem plain_iff {name : Bytes} : (∀ b ∈ name, b ≠ 32 ∧ b ≠ tab ∧ b ≠ 58) ↔ name.any blank = false ∧ 58 ∉ name := by
  simp only [List.any_eq_false, blank, Bool.or_eq_true, decide_eq_true_eq, not_or]
  constructor
  · intro plain
    exact ⟨fun b held => ⟨(plain b held).1, (plain b held).2.1⟩, fun held => (plain 58 held).2.2 rfl⟩
  · rintro ⟨dark, absent⟩ b held
    exact ⟨(dark b held).1, (dark b held).2, ne_of_mem_of_not_mem held absent⟩

theorem parseHeaderLine_iff {line name trimmed : Bytes} :
    parseHeaderLine line = some (name, trimmed) ↔ HeaderLine line name trimmed := by
  unfold parseHeaderLine
  constructor
  · intro parsed
    split at parsed
    next => cases parsed
    next =>
      cases split : splitFirst 58 line with
      | none =>
          rw [split] at parsed
          cases parsed
      | some pieces =>
          obtain ⟨key, value⟩ := pieces
          simp only [split, Option.bind_eq_bind, Option.bind_some] at parsed
          obtain ⟨whole, absent⟩ := splitFirst_iff.mp split
          split at parsed
          next => cases parsed
          next good =>
            obtain ⟨rfl, trims⟩ := Prod.mk.inj (Option.some.inj parsed)
            rw [not_or, Bool.not_eq_true] at good
            exact ⟨⟨value, whole, trim_iff.mp trims⟩, good.1, plain_iff.mpr ⟨good.2, absent⟩⟩
  · rintro ⟨⟨value, rfl, trims⟩, named, plain⟩
    obtain ⟨dark, absent⟩ := plain_iff.mp plain
    have split : splitFirst 58 (name ++ 58 :: value) = some (name, value) := splitFirst_iff.mpr ⟨rfl, absent⟩
    -- the test for folding repeats the one of the name's first byte
    have flat : ¬(name ++ 58 :: value).head?.any blank = true := by
      cases name with
      | nil => exact absurd rfl named
      | cons b name =>
          rw [List.any_cons, Bool.or_eq_false_iff] at dark
          simp [dark.1]
    rw [if_neg flat]
    simp only [split, Option.bind_eq_bind, Option.bind_some]
    rw [if_neg (not_or.mpr ⟨named, by simpa using dark⟩), trim_iff.mpr trims]

/-! ## Lines of a block -/

theorem endedLine_iff {line ended : Bytes} :
    EndedLine line ended ↔ ∃ raw, newline ∉ raw ∧ ended = raw ++ [newline] ∧ withoutReturn raw = line := by
  constructor
  · rintro ⟨oneLine, rfl | ⟨rfl, bare⟩⟩
    · refine ⟨line ++ [carriageReturn], fun held => ?_, by simp, ?_⟩
      · rcases List.mem_append.mp held with before | last
        · exact oneLine before
        · exact absurd (List.mem_singleton.mp last) (by decide)
      · rw [withoutReturn, List.getLast?_concat, if_pos rfl, List.dropLast_concat]
    · exact ⟨line, oneLine, rfl, if_neg bare⟩
  · rintro ⟨raw, oneLine, rfl, rfl⟩
    unfold withoutReturn
    split
    next returns =>
      have whole : raw.dropLast ++ [carriageReturn] = raw := List.dropLast_append_getLast? _ returns
      refine ⟨fun held => oneLine (List.mem_of_mem_dropLast held), .inl ?_⟩
      calc raw ++ [newline]
        _ = raw.dropLast ++ [carriageReturn] ++ [newline] := by rw [whole]
        _ = raw.dropLast ++ [carriageReturn, newline] := by rw [List.append_assoc]; rfl
    next bare => exact ⟨oneLine, .inr ⟨rfl, bare⟩⟩

theorem splitOn_line {raw : Bytes} (oneLine : newline ∉ raw) (rest : Bytes) :
    (raw ++ newline :: rest).splitOn newline = raw :: rest.splitOn newline := by
  induction raw with
  | nil => rw [List.nil_append, splitOn_cons, if_pos rfl]
  | cons b raw ih =>
      rw [List.mem_cons, not_or] at oneLine
      rw [List.cons_append, splitOn_cons, if_neg (Ne.symm oneLine.1), ih oneLine.2, List.modifyHead_cons]

theorem headLines_line {line ended : Bytes} (ends : EndedLine line ended) (rest : Bytes) :
    headLines (ended ++ rest) = line :: headLines rest := by
  obtain ⟨raw, oneLine, rfl, rfl⟩ := endedLine_iff.mp ends
  have present : rest.splitOn newline ≠ [] := by
    rw [splitOn_eq]
    exact List.cons_ne_nil _ _
  unfold headLines
  rw [List.append_assoc, List.singleton_append, splitOn_line oneLine, List.dropLast_cons_of_ne_nil present, List.map_cons]

theorem headLines_last {line ended : Bytes} (ends : EndedLine line ended) : headLines ended = [line] := by
  have whole := headLines_line ends []
  rwa [List.append_nil] at whole

theorem block_cases {block : Bytes} (ends : block.getLast? = some newline) :
    ∃ line ended rest, block = ended ++ rest ∧ EndedLine line ended ∧ (rest = [] ∨ rest.getLast? = some newline) := by
  have held : newline ∈ block := List.mem_of_mem_getLast? ends
  obtain ⟨raw, rest, split⟩ : ∃ raw rest, splitFirst newline block = some (raw, rest) := ⟨_, _, if_pos held⟩
  obtain ⟨rfl, oneLine⟩ := splitFirst_iff.mp split
  refine ⟨withoutReturn raw, raw ++ [newline], rest, by simp, endedLine_iff.mpr ⟨raw, oneLine, rfl, rfl⟩, ?_⟩
  cases rest with
  | nil => exact .inl rfl
  | cons b rest =>
      rw [List.getLast?_append_of_ne_nil _ (List.cons_ne_nil _ _), List.getLast?_cons_cons] at ends
      exact .inr ends

/-- The lines are header lines up to the last, a blank one. -/
def BlankEnded (lines : List Bytes) (headers : List (Bytes × Bytes)) : Prop :=
  lines.getLast? = some [] ∧ lines.dropLast.mapM parseHeaderLine = some headers

theorem blankEnded_cons {line : Bytes} {lines : List Bytes} (present : lines ≠ []) {headers : List (Bytes × Bytes)} :
    BlankEnded (line :: lines) headers ↔
      ∃ header others, headers = header :: others ∧ parseHeaderLine line = some header ∧ BlankEnded lines others := by
  obtain ⟨next, lines, rfl⟩ := List.exists_cons_of_ne_nil present
  unfold BlankEnded
  rw [List.getLast?_cons_cons, List.dropLast_cons_of_ne_nil present, List.mapM_cons]
  constructor
  · rintro ⟨blank, parsed⟩
    cases first : parseHeaderLine line with
    | none =>
        rw [first] at parsed
        cases parsed
    | some header =>
        cases others : (next :: lines).dropLast.mapM parseHeaderLine with
        | none =>
            rw [first, others] at parsed
            cases parsed
        | some headers =>
            rw [first, others] at parsed
            cases parsed
            exact ⟨header, headers, rfl, rfl, blank, rfl⟩
  · rintro ⟨header, others, rfl, first, blank, parsed⟩
    rw [first, parsed]
    exact ⟨blank, rfl⟩

theorem headerLines_blankEnded {block : Bytes} {headers : List (Bytes × Bytes)} (header : HeaderLines block headers) :
    BlankEnded (headLines block) headers := by
  induction header with
  | blank line =>
      rw [headLines_last line]
      exact ⟨rfl, rfl⟩
  | line ends header _ ih =>
      have present : headLines _ ≠ [] := fun lacking => by
        rw [lacking] at ih
        cases ih.1
      rw [headLines_line ends, blankEnded_cons present]
      exact ⟨_, _, rfl, parseHeaderLine_iff.mpr header, ih⟩

theorem blankEnded_headerLines {block : Bytes} (ends : block = [] ∨ block.getLast? = some newline)
    {headers : List (Bytes × Bytes)} (parsed : BlankEnded (headLines block) headers) : HeaderLines block headers := by
  induction length : block.length using Nat.strongRecOn generalizing block headers with
  | ind n ih =>
      rcases ends with rfl | ends
      · cases parsed.1
      · obtain ⟨line, ended, rest, rfl, lineEnds, restEnds⟩ := block_cases ends
        rcases restEnds with rfl | restEnds
        · rw [List.append_nil] at parsed ⊢
          rw [headLines_last lineEnds] at parsed
          obtain ⟨blank, lacking⟩ := parsed
          cases blank
          cases lacking
          exact .blank lineEnds
        · have present : headLines rest ≠ [] := by
            obtain ⟨next, _, more, rfl, nextEnds, -⟩ := block_cases restEnds
            rw [headLines_line nextEnds]
            exact List.cons_ne_nil _ _
          rw [headLines_line lineEnds, blankEnded_cons present] at parsed
          obtain ⟨header, others, rfl, first, parsed⟩ := parsed
          have shorter : rest.length < n := by
            obtain ⟨raw, -, rfl, -⟩ := endedLine_iff.mp lineEnds
            rw [← length, List.length_append, List.length_append, List.length_singleton]
            omega
          exact .line lineEnds (parseHeaderLine_iff.mp first) (ih _ shorter (.inr restEnds) parsed rfl)

/-! ## The head -/

theorem parseHeaders_iff {peer head : Bytes} {req : HttpRequest} :
    parseHeaders peer head = some req ↔ ∃ line lines, headLines head = line :: lines ∧
      parseRequestLine line = some (req.method, req.path, req.query) ∧ BlankEnded lines req.headers ∧
      req.peer = peer ∧ req.body = [] := by
  unfold parseHeaders
  cases whole : headLines head with
  | nil => simp
  | cons line lines =>
      have enough : (line :: lines).length < 2 ∨ (line :: lines).getLast? ≠ some [] ↔ lines.getLast? ≠ some [] := by
        cases lines <;> simp
      simp only [enough, List.headD_cons, List.tail_cons, Option.bind_eq_bind]
      constructor
      · intro parsed
        split at parsed
        next => cases parsed
        next blank =>
          obtain ⟨⟨method, path, query⟩, first, parsed⟩ := Option.bind_eq_some_iff.mp parsed
          obtain ⟨headers, others, parsed⟩ := Option.bind_eq_some_iff.mp parsed
          cases parsed
          exact ⟨line, lines, rfl, first, ⟨not_not.mp blank, others⟩, rfl, rfl⟩
      · rintro ⟨_, _, same, first, ⟨blank, others⟩, rfl, empty⟩
        cases same
        rw [if_neg (not_not.mpr blank), first, others]
        obtain ⟨method, path, query, peer, headers, body⟩ := req
        cases empty
        rfl

theorem head_block {head : Bytes} (ends : HeadEnds head head.length) : head.getLast? = some newline := by
  obtain ⟨i, ⟨-, ⟨last, length⟩ | ⟨-, last, length⟩⟩, -⟩ := ends
  · rwa [List.getLast?_eq_getElem?, length]
  · rwa [List.getLast?_eq_getElem?, length]

theorem request_head_parsed {peer head : Bytes} (ends : HeadEnds head head.length) (req : HttpRequest) :
    parseHeaders peer head = some req ↔
      RequestHead head req.method req.path req.query req.headers ∧ req.peer = peer ∧ req.body = [] := by
  rw [parseHeaders_iff]
  constructor
  · rintro ⟨line, lines, whole, first, others, kept⟩
    obtain ⟨_, ended, rest, rfl, lineEnds, restEnds⟩ := block_cases (head_block ends)
    rw [headLines_line lineEnds] at whole
    cases whole
    exact ⟨⟨_, ended, rest, rfl, lineEnds, parseRequestLine_iff.mp first, blankEnded_headerLines restEnds others⟩, kept⟩
  · rintro ⟨⟨line, ended, rest, rfl, lineEnds, first, others⟩, kept⟩
    exact ⟨line, headLines rest, headLines_line lineEnds rest, parseRequestLine_iff.mpr first, headerLines_blankEnded others,
      kept⟩

/-- A query, a header without a space, and lines with either ending. -/
def mixedHead : Bytes := text "GET /a?b HTTP/1.1" ++ [13, 10] ++ text "Host:x" ++ [10, 10]

theorem request_head_parsed_mixed :
    HeadEnds mixedHead mixedHead.length ∧
      parseHeaders [] mixedHead =
        some ⟨text "GET", text "/a", text "b", [], [(text "Host", text "x")], []⟩ ∧
      RequestHead mixedHead (text "GET") (text "/a") (text "b") [(text "Host", text "x")] := by
  have ends : HeadEnds mixedHead mixedHead.length := (blankLineEnd_iff _ _).mp (by decide +kernel)
  have parsed : parseHeaders [] mixedHead =
      some ⟨text "GET", text "/a", text "b", [], [(text "Host", text "x")], []⟩ := rfl
  exact ⟨ends, parsed, ((request_head_parsed ends _).mp parsed).1⟩

end Budyk.Proof
