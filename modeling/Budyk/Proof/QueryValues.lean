import Budyk.Lib.Segments
import Budyk.Spec.QueryValues

/-! What the routes read of a query and a cookie header is what their pieces say. -/

namespace Budyk.Proof
open Lib Web Spec

section Pieces
variable {sep : UInt8} {skip : UInt8 → Bool} {needle : Bytes}

theorem prefix_append_iff {x after : Bytes} (whole : sep ∉ needle) (ends : SegmentEnds sep after) :
    needle <+: x ++ after ↔ needle <+: x := by
  constructor
  · intro starts
    rcases List.prefix_or_prefix_of_prefix starts (List.prefix_append x after) with short | ⟨y, rfl⟩
    · exact short
    · cases y with
      | nil => simp
      | cons c y =>
          -- A needle longer than the piece would hold the separator.
          rw [List.prefix_append_right_inj] at starts
          obtain ⟨rest, split⟩ := starts
          rcases ends with rfl | stops
          · cases split
          · rw [← split] at stops
            have here : c = sep := Option.some.inj stops
            exact absurd (by simp [here]) whole
  · rintro ⟨y, rfl⟩
    exact ⟨y ++ after, by rw [List.append_assoc]⟩

theorem findPiece_nil (left : Nat) : findPiece sep skip needle left [] = none := by
  cases left <;> rfl

theorem pieceValue_nil (present : needle ≠ []) : pieceValue skip needle [] = none := by
  cases needle with
  | nil => exact absurd rfl present
  | cons c rest => rfl

theorem findPiece_succ (whole : sep ∉ needle) {piece after : Bytes} (inside : sep ∉ piece)
    (ends : SegmentEnds sep after) (present : needle ≠ []) (left : Nat) :
    findPiece sep skip needle (left + 1) (piece ++ after) =
      (pieceValue skip needle piece).or (findPiece sep skip needle left after.tail) := by
  have first : beforeFirst sep (piece ++ after) = piece := (takeWhile_eq_iff inside).mpr ⟨after, rfl, ends⟩
  have split := List.takeWhile_append_dropWhile (p := skip) (l := piece)
  have skipped : (piece ++ after).drop (piece.takeWhile skip).length = piece.dropWhile skip ++ after := by
    conv_lhs => rw [← split]
    rw [List.append_assoc, List.takeWhile_append_dropWhile, List.drop_left]
  have size : piece.length - (piece.takeWhile skip).length = (piece.dropWhile skip).length := by
    have total := congrArg List.length split
    rw [List.length_append] at total
    omega
  have next : (piece ++ after).drop (piece.length + 1) = after.tail := by
    rw [List.drop_append, List.drop_eq_nil_of_le (Nat.le_succ _), List.nil_append, Nat.add_sub_cancel_left,
      List.drop_one]
  rw [findPiece]
  by_cases empty : piece ++ after = []
  · obtain ⟨rfl, rfl⟩ := List.append_eq_nil_iff.mp empty
    rw [if_pos empty, pieceValue_nil present, List.tail_nil, findPiece_nil]
    rfl
  · rw [if_neg empty]
    simp only [first, skipped, size, next, pieceValue, List.isPrefixOf_iff_prefix, prefix_append_iff whole ends]
    by_cases starts : needle <+: piece.dropWhile skip
    · obtain ⟨y, value⟩ := starts
      rw [← value, if_pos (List.prefix_append needle y), if_pos (List.prefix_append needle y), List.append_assoc,
        List.drop_left, List.drop_left, substrUpTo, List.length_append, if_pos (Nat.le_add_right _ _),
        Nat.add_sub_cancel_left, List.take_left]
      rfl
    · rw [if_neg starts, if_neg starts]
      rfl

theorem findPiece_eq_splitValue (whole : sep ∉ needle) (present : needle ≠ []) {left : Nat} {s : Bytes}
    (enough : s.length ≤ left) : findPiece sep skip needle left s = splitValue sep skip needle s := by
  induction left generalizing s with
  | zero =>
      obtain rfl := List.length_eq_zero_iff.mp (Nat.le_zero.mp enough)
      simp [findPiece, splitValue, pieceValue_nil present]
  | succ left ih =>
      by_cases held : sep ∈ s
      · obtain ⟨piece, rest, rfl, inside⟩ := List.eq_append_cons_of_mem held
        rw [findPiece_succ whole inside (.inr rfl) present, splitValue, List.splitOn_append_cons_self_of_not_mem inside,
          List.findSome?_cons]
        rw [List.length_append, List.length_cons] at enough
        rw [List.tail_cons, ih (by omega), splitValue]
        cases pieceValue skip needle piece <;> rfl
      · have pass := @findPiece_succ sep skip needle whole s [] held (.inl rfl) present left
        rw [List.append_nil, List.tail_nil, findPiece_nil, Option.or_none] at pass
        rw [pass, splitValue, List.splitOn_eq_singleton held, List.findSome?_singleton]

theorem pieceValue_none (held : sep ∈ needle) {piece : Bytes} (inside : sep ∉ piece) :
    pieceValue skip needle piece = none := by
  apply if_neg
  rw [List.isPrefixOf_iff_prefix]
  intro starts
  exact inside ((List.dropWhile_sublist _).mem (starts.subset held))

theorem splitValue_none (held : sep ∈ needle) (s : Bytes) : splitValue sep skip needle s = none := by
  rw [splitValue, List.findSome?_eq_none_iff]
  intro piece member
  apply pieceValue_none held
  exact not_mem_of_mem_splitOn member

theorem dropWhile_piece {piece after : Bytes} (stops : skip sep = false) (ends : SegmentEnds sep after) :
    (piece ++ after).dropWhile skip = piece.dropWhile skip ++ after := by
  have still : after.dropWhile skip = after := by
    rcases ends with rfl | head
    · rfl
    · cases after with
      | nil => rfl
      | cons b after =>
          cases head
          rw [List.dropWhile_cons, stops]
          rfl
  rw [List.dropWhile_append]
  split
  next nothing => rw [List.isEmpty_iff.mp nothing, still, List.nil_append]
  · rfl

theorem afterSeparators_append {piece after : Bytes} (inside : sep ∉ piece) :
    afterSeparators sep (piece ++ after) = afterSeparators sep after := by
  induction piece with
  | nil => rfl
  | cons b piece ih =>
      rw [List.mem_cons, not_or] at inside
      rw [List.cons_append, afterSeparators, if_neg (Ne.symm inside.1), ih inside.2]

theorem findPiece_across (held : sep ∈ needle) (stops : skip sep = false) {piece after : Bytes} (inside : sep ∉ piece)
    (ends : SegmentEnds sep after) (left : Nat) :
    findPiece sep skip needle (left + 1) (piece ++ after) =
      (pieceValue skip needle (piece ++ after)).or (findPiece sep skip needle left after.tail) := by
  have present : needle ≠ [] := List.ne_nil_of_mem held
  have first : beforeFirst sep (piece ++ after) = piece := (takeWhile_eq_iff inside).mpr ⟨after, rfl, ends⟩
  have split := List.takeWhile_append_dropWhile (p := skip) (l := piece)
  have skipped : (piece ++ after).drop (piece.takeWhile skip).length = piece.dropWhile skip ++ after := by
    conv_lhs => rw [← split]
    rw [List.append_assoc, List.takeWhile_append_dropWhile, List.drop_left]
  have size : piece.length - (piece.takeWhile skip).length = (piece.dropWhile skip).length := by
    have total := congrArg List.length split
    rw [List.length_append] at total
    omega
  have next : (piece ++ after).drop (piece.length + 1) = after.tail := by
    rw [List.drop_append, List.drop_eq_nil_of_le (Nat.le_succ _), List.nil_append, Nat.add_sub_cancel_left,
      List.drop_one]
  rw [findPiece]
  by_cases empty : piece ++ after = []
  · obtain ⟨rfl, rfl⟩ := List.append_eq_nil_iff.mp empty
    rw [if_pos empty, List.append_nil, pieceValue_nil present, List.tail_nil, findPiece_nil]
    rfl
  · rw [if_neg empty]
    simp only [first, skipped, size, next, pieceValue, dropWhile_piece stops ends, List.isPrefixOf_iff_prefix]
    by_cases starts : needle <+: piece.dropWhile skip ++ after
    · -- The needle reaches over the piece's end, and the difference of lengths wraps.
      have longer : ¬needle.length ≤ (piece.dropWhile skip).length := by
        intro short
        have within := List.prefix_of_prefix_length_le starts (List.prefix_append _ after) short
        exact inside ((List.dropWhile_sublist _).mem (within.subset held))
      rw [if_pos starts, if_pos starts, substrUpTo, if_neg longer]
      rfl
    · rw [if_neg starts, if_neg starts]
      rfl

theorem findPiece_eq_acrossValue (held : sep ∈ needle) (stops : skip sep = false) {left : Nat} {s : Bytes}
    (enough : s.length ≤ left) : findPiece sep skip needle left s = acrossValue sep skip needle s := by
  have present : needle ≠ [] := List.ne_nil_of_mem held
  induction left generalizing s with
  | zero =>
      obtain rfl := List.length_eq_zero_iff.mp (Nat.le_zero.mp enough)
      simp [findPiece, acrossValue, afterSeparators, pieceValue_nil present]
  | succ left ih =>
      by_cases held' : sep ∈ s
      · obtain ⟨piece, rest, rfl, inside⟩ := List.eq_append_cons_of_mem held'
        rw [List.length_append, List.length_cons] at enough
        rw [findPiece_across held stops inside (.inr rfl), List.tail_cons, ih (by omega), acrossValue, acrossValue,
          afterSeparators_append inside, afterSeparators, if_pos rfl]
        conv_rhs => rw [List.findSome?_cons]
        cases pieceValue skip needle (piece ++ sep :: rest) <;> rfl
      · have pass := @findPiece_across sep skip needle held stops s [] held' (.inl rfl) left
        have nothing : afterSeparators sep s = [] := by
          have same := @afterSeparators_append sep s [] held'
          rwa [List.append_nil] at same
        rw [List.append_nil, List.tail_nil, findPiece_nil, Option.or_none] at pass
        rw [pass, acrossValue, nothing, List.findSome?_singleton]

end Pieces

/-! ## Digits -/

/-- The digits read on from `out`, without an end to the number. -/
def digitsFrom (out : Nat) (digits : Bytes) : Nat := digits.foldl (fun value b => 10 * value + (b.toNat - 48)) out

theorem le_digitsFrom (out : Nat) (digits : Bytes) : out ≤ digitsFrom out digits := by
  induction digits generalizing out with
  | nil => exact le_rfl
  | cons b digits ih =>
      have rest := ih (10 * out + (b.toNat - 48))
      exact le_trans (by omega) rest

theorem digitsFrom_zero (digits : Bytes) : digitsFrom 0 digits = digitsValue digits := rfl

/-- Leading digits are read as far as the largest number: past it, what follows them is not looked at. -/
theorem queryDigits_append (fallback : Nat) {out : Nat} (fits : out < 2 ^ 64) {lead : Bytes} (tail : Bytes)
    (digits : lead.all isDigit = true) : queryDigits fallback out (lead ++ tail) =
      if digitsFrom out lead < 2 ^ 64 then queryDigits fallback (digitsFrom out lead) tail else 2 ^ 64 - 1 := by
  induction lead generalizing out with
  | nil => exact (if_pos fits).symm
  | cons b lead ih =>
      rw [List.all_cons, Bool.and_eq_true] at digits
      have small : b.toNat - 48 ≤ 9 := by
        have bounds := digits.1
        rw [isDigit, Bool.and_eq_true, decide_eq_true_eq, decide_eq_true_eq] at bounds
        have high : b.toNat ≤ 57 := bounds.2
        omega
      have more := le_digitsFrom (10 * out + (b.toNat - 48)) lead
      rw [List.cons_append, queryDigits, digits.1]
      simp only [Bool.not_true, Bool.false_eq_true, if_false]
      change _ = if digitsFrom (10 * out + (b.toNat - 48)) lead < 2 ^ 64 then _ else _
      by_cases full : out > (2 ^ 64 - 1 - (b.toNat - 48)) / 10
      · rw [if_pos full, if_neg (by omega)]
      · rw [if_neg full, Nat.mul_comm out, ih (by omega) digits.2]
        rfl

theorem queryDigits_all (fallback : Nat) {val : Bytes} (digits : val.all isDigit = true) :
    queryDigits fallback 0 val = min (digitsValue val) (2 ^ 64 - 1) := by
  have read := queryDigits_append fallback (by decide : 0 < 2 ^ 64) [] digits
  rw [List.append_nil, digitsFrom_zero, queryDigits] at read
  rw [read]
  split <;> omega

theorem queryDigits_spoiled (fallback : Nat) {val : Bytes} (spoiled : ¬val.all isDigit) :
    queryDigits fallback 0 val =
      if digitsValue (val.takeWhile isDigit) < 2 ^ 64 then fallback else 2 ^ 64 - 1 := by
  have lead : (val.takeWhile isDigit).all isDigit = true :=
    List.all_eq_true.mpr fun b held => List.mem_takeWhile_imp held
  have stopped (out : Nat) : queryDigits fallback out (val.dropWhile isDigit) = fallback := by
    cases left : val.dropWhile isDigit with
    | nil => exact absurd (List.all_eq_true.mpr (List.dropWhile_eq_nil_iff.mp left)) spoiled
    | cons c rest =>
        have stops := List.head?_dropWhile_not isDigit val
        rw [left] at stops
        have other : isDigit c = false := by simpa using stops
        rw [queryDigits, other]
        rfl
  have read := queryDigits_append fallback (by decide : 0 < 2 ^ 64) (val.dropWhile isDigit) lead
  rwa [List.takeWhile_append_dropWhile, stopped, digitsFrom_zero] at read

/-! ## Values -/

theorem needle_ne_nil (key : Bytes) : key ++ [61] ≠ [] := by simp

theorem not_mem_needle {sep : UInt8} {key : Bytes} (whole : sep ∉ key) (other : sep ≠ 61) : sep ∉ key ++ [61] := by
  simp [whole, other]

theorem queryFind_eq {query key : Bytes} (plain : 38 ∉ key) : queryFind query key = queryValue query key :=
  findPiece_eq_splitValue (not_mem_needle plain (by decide)) (needle_ne_nil key) le_rfl

theorem cookieValue_eq {header name : Bytes} (plain : 59 ∉ name) : cookieValue header name = cookieSplit header name := by
  rw [cookieValue, findPiece_eq_splitValue (not_mem_needle plain (by decide)) (needle_ne_nil name) le_rfl, cookieSplit]

theorem queryFind_across {query key : Bytes} (held : 38 ∈ key) : queryFind query key = queryAcross query key :=
  findPiece_eq_acrossValue (List.mem_append_left _ held) rfl le_rfl

theorem cookieValue_across {header name : Bytes} (held : 59 ∈ name) :
    cookieValue header name = (cookieAcross header name).getD [] := by
  rw [cookieValue, findPiece_eq_acrossValue (List.mem_append_left _ held) rfl le_rfl, cookieAcross]

/-- The loop sees every digit, or what it returns without is meant. -/
def SeenThrough (fallback : Nat) (val : Bytes) : Prop :=
  val.all isDigit = true ∨ digitsValue (val.takeWhile isDigit) < 2 ^ 64 ∨ fallback = 2 ^ 64 - 1

theorem queryDigits_meant (fallback : Nat) (val : Bytes) :
    queryDigits fallback 0 val = (if ¬val.all isDigit then fallback else min (digitsValue val) (2 ^ 64 - 1)) ↔
      SeenThrough fallback val := by
  unfold SeenThrough
  by_cases digits : val.all isDigit = true
  · rw [if_neg (not_not.mpr digits), queryDigits_all fallback digits]
    simp only [digits, true_or]
  · rw [if_pos digits, queryDigits_spoiled fallback digits]
    simp only [digits, Bool.false_eq_true, false_or]
    split
    next fits => simp only [fits, true_or]
    next past => simp only [past, false_or, eq_comm]

theorem queryDigits_fallback (fallback : Nat) (val : Bytes) : queryDigits fallback 0 val = fallback ↔
    SeenThrough fallback val ∧ (val.all isDigit = true → min (digitsValue val) (2 ^ 64 - 1) = fallback) := by
  rw [← queryDigits_meant]
  by_cases digits : val.all isDigit = true
  · rw [if_neg (not_not.mpr digits), queryDigits_all fallback digits]
    simp only [digits, true_and, forall_const]
  · rw [if_pos digits]
    simp only [digits, Bool.false_eq_true, false_implies, and_true]

theorem queryU64_plain {query key : Bytes} (fallback : Nat) (plain : 38 ∉ key) :
    queryU64 query key fallback = querySplitU64 query key fallback ↔
      ∀ val, queryValue query key = some val → SeenThrough fallback val := by
  rw [queryU64, querySplitU64, queryFind_eq plain]
  rcases queryValue query key with _ | val
  · simp
  rcases val with _ | ⟨b, rest⟩
  · simp [SeenThrough]
  simp only [reduceCtorEq, false_or, Option.some.injEq, forall_eq']
  exact queryDigits_meant fallback (b :: rest)

theorem queryU64_across {query key : Bytes} (fallback : Nat) (held : 38 ∈ key) :
    queryU64 query key fallback = querySplitU64 query key fallback ↔
      ∀ val, queryAcross query key = some val → val ≠ [] → queryDigits fallback 0 val = fallback := by
  have absent : queryValue query key = none := splitValue_none (List.mem_append_left _ held) query
  rw [queryU64, querySplitU64, absent, queryFind_across held]
  rcases queryAcross query key with _ | val
  · simp
  rcases val with _ | ⟨b, rest⟩
  · simp
  simp

/-- What a query and a cookie header are read as is what their pieces say, exactly: where the key holds no `&`, when the
digits of the value are seen through, and where it does, when what stands behind it across the pieces reads as the
fallback; and where the name holds no `;`, or nothing stands behind it across the pieces. -/
theorem query_and_cookie_by_pieces (query key header name : Bytes) (fallback : Nat) :
    (queryU64 query key fallback = querySplitU64 query key fallback ↔
      (38 ∉ key ∧ ∀ val, queryValue query key = some val → SeenThrough fallback val) ∨
      (38 ∈ key ∧ ∀ val, queryAcross query key = some val → val ≠ [] →
        SeenThrough fallback val ∧ (val.all isDigit = true → min (digitsValue val) (2 ^ 64 - 1) = fallback))) ∧
    (cookieValue header name = cookieSplit header name ↔
      59 ∉ name ∨ ∀ val, cookieAcross header name = some val → val = []) := by
  constructor
  · by_cases held : 38 ∈ key
    · rw [queryU64_across fallback held]
      simp only [held, not_true_eq_false, false_and, true_and, false_or, queryDigits_fallback]
    · rw [queryU64_plain fallback held]
      simp only [held, not_false_eq_true, true_and, false_and, or_false]
  · by_cases held : 59 ∈ name
    · have absent : cookieSplit header name = [] := by
        rw [cookieSplit, splitValue_none (List.mem_append_left _ held)]
        rfl
      rw [absent, cookieValue_across held]
      cases cookieAcross header name with
      | none => simp
      | some val => simp [held]
    · exact iff_of_true (cookieValue_eq held) (.inl held)

/-- Here the fallback is meant, and the largest number is returned. -/
theorem query_u64_past_largest : ¬∀ (query key : Bytes) (fallback : Nat), 38 ∉ key →
    queryU64 query key fallback = querySplitU64 query key fallback := by
  intro claimed
  have one := claimed (text "limit=18446744073709551616x") (text "limit") 7 (by decide)
  exact absurd one (by decide +kernel)

theorem query_and_cookie_by_pieces_limit : queryU64 (text "x=&limits=9&limit=500&limit=7") (text "limit") 100 = 500 ∧
    cookieValue (text "a=1; \tbudyk=ab;c") (text "budyk") = text "ab" := by
  have split := query_and_cookie_by_pieces (text "x=&limits=9&limit=500&limit=7") (text "limit")
    (text "a=1; \tbudyk=ab;c") (text "budyk") 100
  have meant : querySplitU64 (text "x=&limits=9&limit=500&limit=7") (text "limit") 100 = 500 := by decide +kernel
  have found : queryValue (text "x=&limits=9&limit=500&limit=7") (text "limit") = some (text "500") := by
    decide +kernel
  constructor
  · rw [← meant]
    apply split.1.mpr
    refine .inl ⟨by decide, fun val value => ?_⟩
    rw [found] at value
    cases value
    exact .inl (by decide)
  · rw [split.2.mpr (.inl (by decide))]
    decide +kernel

end Budyk.Proof
