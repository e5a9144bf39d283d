import Budyk.Proof.LuaCalls

/-! For a pattern of plain characters the plain search and the matcher find the same. -/

namespace Budyk.Proof
open Lib Rules Rules.LuaPattern Spec.LuaPattern

/-- Stands for itself: `nospecials` lets a `)` pass, which the matcher does not. -/
abbrev Plain (p : List UInt8) : Prop := nospecials p = true ∧ closing ∉ p

section
variable {src p rest : List UInt8} {c : UInt8}

theorem plain_cons : Plain (c :: rest) ↔ (c ∉ kSpecials ∧ c ≠ closing) ∧ Plain rest := by
  simp [Plain, nospecials]
  tauto

theorem plain_head (plain : Plain p) {special : UInt8} (listed : special ∈ kSpecials) : p.head? ≠ some special := by
  intro head
  cases p with
  | nil => cases head
  | cons c rest =>
      cases head
      exact (plain_cons.mp plain).1.1 listed

theorem itemOf_plain (plain : Plain (c :: rest)) : itemOf c rest = (.single (.byte c) .once, rest) := by
  have later := (plain_cons.mp plain).2
  have closes : c ≠ closing := (plain_cons.mp plain).1.2
  have other {special : UInt8} (listed : special ∈ kSpecials) : c ≠ special := by
    rintro rfl
    exact (plain_cons.mp plain).1.1 listed
  have head {special : UInt8} (listed : special ∈ kSpecials) : (c :: rest).head? ≠ some special :=
    plain_head plain listed
  have escapes : c ≠ escape := other (by decide)
  have after : afterClass (c :: rest) = .ok rest := by
    rw [afterClass, if_neg (head (by decide)), if_neg (head (by decide))]
    rfl
  have cls : classOf (c :: rest) rest = .byte c := by
    rw [classOf, if_neg (head (by decide)), if_neg (head (by decide)), if_neg (head (by decide))]
    rfl
  have suffix : suffixOf rest = (.once, rest) := by
    rw [suffixOf, if_neg (plain_head later (by decide)), if_neg (plain_head later (by decide)),
      if_neg (plain_head later (by decide)), if_neg (plain_head later (by decide))]
  rw [itemOf, if_neg (other (by decide)), if_neg closes, if_neg fun both => other (by decide) both.1,
    if_neg fun both => escapes both.1, if_neg fun both => escapes both.1, if_neg fun both => escapes both.1, singleItem,
    after]
  simp only [cls, suffix]

theorem items_plain (plain : Plain p) {turns : Nat} (enough : p.length < turns) :
    itemsFrom turns p = p.map fun c => .single (.byte c) .once := by
  induction p generalizing turns with
  | nil => exact itemsFrom_nil turns
  | cons c rest ih =>
      cases turns with
      | zero => omega
      | succ turns =>
          rw [List.length_cons] at enough
          rw [itemsFrom, itemOf_plain plain, ih (plain_cons.mp plain).2 (by omega), List.map_cons]

theorem ways_plain (p : List UInt8) (s : Nat) :
    ways src (p.map fun c => .single (.byte c) .once) s [] =
      if p <+: src.drop s then [.ok (s + p.length, [])] else [] := by
  induction p generalizing s with
  | nil =>
      rw [if_pos List.nil_prefix]
      rfl
  | cons c rest ih =>
      rw [List.map_cons, ways, Item.ways, andThen_map]
      cases here : single src (.byte c) s with
      | false =>
          have other : ¬c :: rest <+: src.drop s := by
            intro occurs
            obtain ⟨same, -⟩ := begins_iff.mp occurs
            obtain ⟨within, same⟩ := List.getElem?_eq_some_iff.mp same
            simp [single, within, CharClass.holds, byteAt_eq within, same] at here
          rw [run_zero here, if_neg other]
          rfl
      | true =>
          have tail : c :: rest <+: src.drop s ↔ rest <+: src.drop (s + 1) := by
            simp only [single, Bool.and_eq_true, decide_eq_true_eq, CharClass.holds] at here
            rw [List.drop_eq_getElem_cons here.1, List.cons_prefix_cons, ← byteAt_eq here.1]
            exact and_iff_right here.2
          rw [run_pos here]
          have place : s + 1 + rest.length = s + (rest.length + 1) := by omega
          simp only [Repeat.ends, Nat.zero_lt_succ, if_true, List.flatMap_singleton, ih, tail, List.length_cons, place]

theorem matchAt_plain (plain : Plain p) (s : Nat) :
    matchAt src p s = if p <+: src.drop s then some (.ok ⟨s, s + p.length, []⟩) else none := by
  rw [matchAt, items, items_plain plain (Nat.lt_succ_self _), ways_plain]
  split
  · rfl
  · rfl

theorem nextVisit_first {s i : Nat} {visit : Except PatternError Visit} (behind : s ≤ i) (within : i ≤ src.length)
    (here : matchAt src p i = some visit) (before : ∀ k < i, s ≤ k → matchAt src p k = none) :
    nextVisit src p none s = some visit := by
  obtain ⟨n, rfl⟩ := Nat.exists_eq_add_of_le behind
  induction n generalizing s with
  | zero =>
      rw [Nat.add_zero] at here within
      rw [nextVisit_step src p none within, filter_isVisit_none, here, Option.some_or]
  | succ n ih =>
      rw [nextVisit_step src p none (by omega), filter_isVisit_none, before s (by omega) (Nat.le_refl s),
        Option.none_or]
      have place : s + (n + 1) = s + 1 + n := by omega
      rw [place] at here before within
      exact ih (by omega) within here fun k less later => before k less (by omega)

theorem nextVisit_never {s : Nat} (never : ∀ k, s ≤ k → matchAt src p k = none) : nextVisit src p none s = none := by
  rw [nextVisit, List.findSome?_eq_none_iff]
  intro k member
  rw [never k (List.mem_range'_1.mp member).1]
  rfl

theorem nextVisit_plain (plain : Plain p) {s : Nat} (within : s ≤ src.length) :
    nextVisit src p none s = (findFrom p src s).map fun s => .ok ⟨s, s + p.length, []⟩ := by
  have otherwise {k : Nat} (absent : ¬p <+: src.drop k) : matchAt src p k = none := by
    rw [matchAt_plain plain, if_neg absent]
  cases found : findFrom p src s with
  | none => exact nextVisit_never fun k behind => otherwise (findFrom_none within found k behind)
  | some i =>
      obtain ⟨behind, occurs, before⟩ := findFrom_some found
      refine nextVisit_first behind (findFrom_le found) ?_ fun k less later => otherwise (before k less later)
      rw [matchAt_plain plain, if_pos occurs]

end

/-- The plain search that `find` makes where `nospecials` lets it finds what the matcher finds, from whatever place and
whatever was charged before. -/
theorem plain_search_agrees {limits : Limits} {src p : List UInt8} (plain : Plain p) {s : Nat} (within : s ≤ src.length)
    {ms ms' after after' : MatchState} {found : Option Nat} {sought : Option (Nat × Nat)}
    (searched : lmemfind limits src s (src.length - s) p ms = .ok found after)
    (matched : searchFrom limits src p false (src.length - s + 1) s ms' = .ok sought after') :
    sought = found.map (fun s => (s, s + p.length)) ∧ (sought.isSome → after'.captures = []) := by
  have search := finds_lmemfind (keepsCall_inDepth limits src p False) within ms trivial
  have match_ := visits_search (keepsCall_inDepth limits src p False) false
    (show src.length < s + (src.length - s + 1) by omega) within ms' trivial
  rw [searched] at search
  rw [matched] at match_
  obtain ⟨-, first⟩ := search
  have same : (findFrom p src s).map (fun s => (.ok ⟨s, s + p.length, []⟩ : Except PatternError Visit)) =
      sought.map fun found => .ok ⟨found.1, found.2, after'.captures⟩ :=
    (nextVisit_plain plain within).symm.trans match_.2
  rw [← first] at same
  cases found with
  | none =>
      cases sought with
      | none => exact ⟨rfl, fun lacking => absurd lacking Bool.false_ne_true⟩
      | some e => cases same
  | some i =>
      cases sought with
      | none => cases same
      | some e =>
          obtain ⟨first, last⟩ := e
          simp only [Option.map_some, Option.some.injEq, Except.ok.injEq, Visit.mk.injEq] at same
          obtain ⟨rfl, rfl, lacking⟩ := same
          exact ⟨rfl, fun _ => lacking.symm⟩

theorem plain_search_agrees_word :
    ∃ after after', lmemfind ⟨1000, 1000⟩ (text "ababac abac") 1 10 (text "abac") begun = .ok (some 2) after ∧
      searchFrom ⟨1000, 1000⟩ (text "ababac abac") (text "abac") false 11 1 begun = .ok (some (2, 6)) after' ∧
      some (2, 6) = (some 2).map (fun s => (s, s + (text "abac").length)) := by
  obtain ⟨after, searched, -⟩ : ∃ after, lmemfind ⟨1000, 1000⟩ (text "ababac abac") 1 10 (text "abac") begun =
      .ok (some 2) after ∧ True := exists_ok (by decide +kernel) trivial
  obtain ⟨after', matched, -⟩ : ∃ after', searchFrom ⟨1000, 1000⟩ (text "ababac abac") (text "abac") false 11 1 begun =
      .ok (some (2, 6)) after' ∧ True := exists_ok (by decide +kernel) trivial
  have plain : Plain (text "abac") := by decide
  have within : 1 ≤ (text "ababac abac").length := by decide
  exact ⟨after, after', searched, matched, (plain_search_agrees plain within searched matched).1⟩

end Budyk.Proof
