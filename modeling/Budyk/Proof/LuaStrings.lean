import Budyk.Proof.PatternSteps
import Budyk.Spec.LuaStrings

/-! The string functions find a pattern's matches left to right, and replace them. -/

namespace Budyk.Proof
open Lib Rules Rules.LuaPattern Spec.LuaPattern

section
variable {src p : List UInt8}

theorem itemMatches_bounds {item : Item} {s e : Nat} {captures after : List Capture}
    (fit : item.Matches src s captures e after) (within : s ≤ src.length) : s ≤ e ∧ e ≤ src.length := by
  cases fit with
  | single allows stands =>
      have least := stands.1
      omega
  | opens room => exact ⟨Nat.le_refl _, within⟩
  | position room => exact ⟨Nat.le_refl _, within⟩
  | closes last => exact ⟨Nat.le_refl _, within⟩
  | balance begins closes =>
      obtain ⟨least, less⟩ := balanceEnd_within closes
      rw [List.length_drop] at less
      omega
  | frontier before here => exact ⟨Nat.le_refl _, within⟩
  | back named long same => omega
  | subjectEnd last => exact ⟨Nat.le_refl _, within⟩

theorem matches_bounds {items : List Item} {s e : Nat} {captures after : List Capture}
    (fit : Matches src items s captures e after) (within : s ≤ src.length) : s ≤ e ∧ e ≤ src.length := by
  induction fit with
  | nil => exact ⟨Nat.le_refl _, within⟩
  | cons one rest ih =>
      obtain ⟨first, middle⟩ := itemMatches_bounds one within
      obtain ⟨second, last⟩ := ih middle
      exact ⟨Nat.le_trans first second, last⟩

theorem matchAt_bounds {s : Nat} (within : s ≤ src.length) {v : Visit} (found : matchAt src p s = some (.ok v)) :
    v.first = s ∧ s ≤ v.last ∧ v.last ≤ src.length := by
  rw [matchAt, Option.map_eq_some_iff] at found
  obtain ⟨way, first, same⟩ := found
  cases way with
  | error e => cases same
  | ok found =>
      cases same
      have fit := mem_ways.mp (List.mem_of_mem_head? first)
      exact ⟨rfl, matches_bounds fit within⟩

theorem nextVisit_past {lastmatch : Option Nat} {s : Nat} (past : src.length < s) :
    nextVisit src p lastmatch s = none := by
  rw [nextVisit, Nat.sub_eq_zero_of_le past]
  rfl

theorem nextVisit_step (src p : List UInt8) (lastmatch : Option Nat) {s : Nat} (within : s ≤ src.length) :
    nextVisit src p lastmatch s =
      ((matchAt src p s).filter (isVisit lastmatch)).or (nextVisit src p lastmatch (s + 1)) := by
  have more : src.length + 1 - s = src.length + 1 - (s + 1) + 1 := by omega
  rw [nextVisit, more, List.range'_succ, List.findSome?_cons]
  cases (matchAt src p s).filter (isVisit lastmatch) with
  | none => rfl
  | some visit => rfl

/-- A visit is a match behind `s` that ends not where the one before did. -/
theorem nextVisit_ok {lastmatch : Option Nat} {s : Nat} {v : Visit} (next : nextVisit src p lastmatch s = some (.ok v)) :
    s ≤ v.first ∧ v.first ≤ v.last ∧ v.last ≤ src.length ∧ some v.last ≠ lastmatch := by
  rw [nextVisit] at next
  obtain ⟨s', mem, found⟩ := List.exists_of_findSome?_eq_some next
  rw [List.mem_range'_1] at mem
  obtain ⟨found, fresh⟩ := Option.filter_eq_some_iff.mp found
  obtain ⟨rfl, least, most⟩ := matchAt_bounds (by omega) found
  refine ⟨mem.1, least, most, ?_⟩
  rwa [isVisit, decide_eq_true_eq] at fresh

end

/-! ## One match -/

section
variable {limits : Limits} {src p : List UInt8} {I J : MatchState → Prop} {E : MatchError → MatchState → Prop}

/-- `J` holds between the calls, when the steps are flushed. -/
structure KeepsCall (limits : Limits) (src p : List UInt8) (I J : MatchState → Prop) (E : MatchError → MatchState → Prop) :
    Prop extends KeepsSteps limits src p I E where
  complex : p.length < kMaxCCalls ∨ ∀ ms, I ms → E .tooComplex ms
  flushes : Triple I (countFlush limits) (fun _ => J) E
  idle : ∀ ms, J ms → I ms

/-- What is raised: the pattern's error is the one that `visit` names. -/
abbrev RaisesAt (E : MatchError → MatchState → Prop) (visit : Option (Except PatternError Visit)) (d : MatchError)
    (ms : MatchState) : Prop :=
  E d ms ∧ ∀ e, d = .pattern e → visit = some (.error e)

theorem keepsCall_tail (kept : KeepsCall limits src p I J E) : KeepsCall limits src p.tail I J E where
  counts := by
    intro n few
    apply kept.counts
    rw [mostCounted, List.length_tail] at few
    rw [mostCounted]
    omega
  frame := kept.frame
  pattern := kept.pattern
  complex := by
    rcases kept.complex with few | complex
    · rw [List.length_tail]
      exact .inl (by omega)
    · exact .inr complex
  flushes := kept.flushes
  idle := kept.idle

variable (kept : KeepsCall limits src p I J E)
include kept

theorem visits_doMatch {s : Nat} (within : s ≤ src.length) :
    Triple (fun ms => I ms ∧ ms.captures = []) (doMatch limits src s p)
      (fun answer ms => I ms ∧ matchAt src p s = answer.map fun e => .ok ⟨s, e, ms.captures⟩)
      (RaisesAt E (matchAt src p s)) := by
  rintro ms ⟨held, fresh⟩
  have deep : p.length ≤ kMaxCCalls - 1 ∨ ∀ ms, I ms → E .tooComplex ms := by
    rcases kept.complex with few | complex
    · exact .inl (Nat.le_sub_one_of_lt few)
    · exact .inr complex
  have keeps := keptBy_matchFrom kept.toKeepsSteps (Nat.lt_succ_self _) (Nat.le_refl _) deep within ms
    ⟨held, by simp [Within, fresh]⟩
  have finds := findsWays_matchFrom limits src (p.length + 1) (kMaxCCalls - 1) s p ms
  rw [fresh] at finds
  rw [doMatch]
  cases result : matchFrom limits src (p.length + 1) (kMaxCCalls - 1) s p ms with
  | error d ms' =>
      rw [result] at keeps finds
      refine ⟨keeps, ?_⟩
      rintro e rfl
      rw [matchAt, items, finds e rfl]
      rfl
  | ok answer ms' =>
      rw [result] at keeps finds
      refine ⟨keeps.1.1, ?_⟩
      rw [matchAt, items]
      cases answer with
      | none =>
          rw [finds.1]
          rfl
      | some e =>
          rw [show (ways src (itemsFrom (p.length + 1) p) s []).head? = _ from finds]
          rfl

theorem visits_again {s : Nat} (within : s ≤ src.length) {β : Type} {k : Option Nat → Matching β}
    {R : β → MatchState → Prop} {F : MatchError → MatchState → Prop}
    (raised : ∀ d ms, RaisesAt E (matchAt src p s) d ms → F d ms)
    (next : ∀ answer, Triple (fun ms => I ms ∧ matchAt src p s = answer.map fun e => .ok ⟨s, e, ms.captures⟩)
      (k answer) R F) :
    Triple I (do reprepstate; doMatch limits src s p >>= k) R F := by
  have fresh : Triple I reprepstate (fun _ ms => I ms ∧ ms.captures = []) F :=
    fun ms held => ⟨kept.frame ms _ held, rfl⟩
  apply fresh.bind
  intro _
  have found : Triple (fun ms => I ms ∧ ms.captures = []) (doMatch limits src s p)
      (fun answer ms => I ms ∧ matchAt src p s = answer.map fun e => .ok ⟨s, e, ms.captures⟩) F :=
    fun ms held => (visits_doMatch kept within ms held).imp (fun _ _ holds => holds) raised
  exact found.bind next

/-! ## `find` and `match` -/

omit kept in
theorem filter_isVisit_none (visit : Option (Except PatternError Visit)) : visit.filter (isVisit none) = visit := by
  rcases visit with _ | e | v
  · rfl
  · rfl
  · rfl

/-- What `searchFrom` seeks. -/
abbrev soughtFrom (src p : List UInt8) (anchor : Bool) (s : Nat) : Option (Except PatternError Visit) :=
  if anchor then matchAt src p s else nextVisit src p none s

theorem visits_search (anchor : Bool) {turns s : Nat} (enough : src.length < s + turns) (within : s ≤ src.length) :
    Triple I (searchFrom limits src p anchor turns s)
      (fun found ms => I ms ∧ soughtFrom src p anchor s = found.map fun found => .ok ⟨found.1, found.2, ms.captures⟩)
      (RaisesAt E (soughtFrom src p anchor s)) := by
  induction turns generalizing s with
  | zero => omega
  | succ turns ih =>
      have step := nextVisit_step src p none within
      rw [filter_isVisit_none] at step
      apply visits_again kept within
      · rintro d ms ⟨raised, names⟩
        refine ⟨raised, ?_⟩
        intro e same
        cases anchor with
        | true => exact names e same
        | false => rw [soughtFrom, if_neg Bool.false_ne_true, step, names e same, Option.some_or]
      intro answer
      cases answer with
      | some e =>
          rintro ms ⟨held, found⟩
          refine ⟨held, ?_⟩
          cases anchor with
          | true => exact found
          | false =>
              rw [soughtFrom, if_neg Bool.false_ne_true, step, found]
              rfl
      | none =>
          rintro ms ⟨held, found⟩
          dsimp only
          cases anchor with
          | true =>
              rw [Bool.not_true, if_neg (by simp)]
              exact ⟨held, found⟩
          | false =>
              rw [found, Option.map_none, Option.none_or] at step
              rw [soughtFrom, if_neg Bool.false_ne_true, step]
              by_cases more : s < src.length
              · rw [if_pos ⟨more, rfl⟩]
                exact ih (by omega) more ms held
              · rw [if_neg fun both => more both.1]
                exact ⟨held, nextVisit_past (by omega)⟩

/-! ## The plain search -/

omit kept in
theorem begins_iff {c : UInt8} {rest : List UInt8} {i : Nat} :
    c :: rest <+: src.drop i ↔ src[i]? = some c ∧ slice src (i + 1) rest.length = rest := by
  rcases Nat.lt_or_ge i src.length with inside | past
  · rw [List.drop_eq_getElem_cons inside, List.cons_prefix_cons, List.getElem?_eq_getElem inside, Option.some_inj,
      List.prefix_iff_eq_take, slice]
    exact ⟨fun both => ⟨both.1.symm, both.2.symm⟩, fun both => ⟨both.1.symm, both.2.symm⟩⟩
  · rw [List.drop_eq_nil_of_le past, List.getElem?_eq_none past]
    simp

omit kept in
theorem slice_getElem? (src : List UInt8) (s n k : Nat) : (slice src s n)[k]? = if k < n then src[s + k]? else none := by
  rw [slice, List.getElem?_take, List.getElem?_drop]

omit kept in
theorem memchr_some {c : UInt8} {s n i : Nat} (found : memchr src c s n = some i) :
    s ≤ i ∧ i < s + n ∧ src[i]? = some c ∧ ∀ k, s ≤ k → k < i → src[k]? ≠ some c := by
  rw [memchr, Option.map_eq_some_iff] at found
  obtain ⟨j, found, rfl⟩ := found
  obtain ⟨inside, here, before⟩ := List.findIdx?_eq_some_iff_getElem.mp found
  have short : j < n := by
    rw [slice, List.length_take] at inside
    omega
  have there := slice_getElem? src s n j
  rw [if_pos short, List.getElem?_eq_getElem inside] at there
  refine ⟨by omega, by omega, ?_, ?_⟩
  · rw [← there, of_decide_eq_true here]
  · intro k least less same
    have earlier := slice_getElem? src s n (k - s)
    rw [if_pos (by omega), Nat.add_sub_cancel' least, List.getElem?_eq_getElem (by omega), same] at earlier
    have other := before (k - s) (by omega)
    rw [Option.some.inj earlier] at other
    exact other (decide_eq_true rfl)

omit kept in
theorem memchr_none {c : UInt8} {s n : Nat} (absent : memchr src c s n = none) (k : Nat) (least : s ≤ k)
    (less : k < s + n) : src[k]? ≠ some c := by
  rw [memchr, Option.map_eq_none_iff, List.findIdx?_eq_none_iff] at absent
  intro same
  have here := slice_getElem? src s n (k - s)
  rw [if_pos (by omega), Nat.add_sub_cancel' least, same] at here
  have other := absent c (List.mem_of_getElem? here)
  simp at other

/-- An error, and none of the pattern's. -/
abbrev Clean (E : MatchError → MatchState → Prop) (d : MatchError) (ms : MatchState) : Prop := E d ms ∧ fault d = none

omit kept in
theorem clean_raised {α : Type} {outcome : Except PatternError α} {d : MatchError} {ms : MatchState}
    (raised : Clean E d ms) : E d ms ∧ ∀ e, d = .pattern e → outcome = .error e := by
  refine ⟨raised.1, ?_⟩
  rintro e rfl
  cases raised.2

theorem counts_clean {n : Nat} (few : n ≤ mostCounted src p) : Triple I (count limits n) (fun _ => I) (Clean E) := by
  intro ms held
  have keeps := kept.counts n few ms held
  have knows := (knows_count n : Knows (count limits n) ()) ms
  cases result : count limits n ms with
  | error d ms' =>
      rw [result] at keeps knows
      exact ⟨keeps, knows⟩
  | ok u ms' =>
      rw [result] at keeps
      exact keeps

theorem finds_lmemfindFrom {first : UInt8} {rest : List UInt8} (same : p = first :: rest) {turns s l : Nat}
    (enough : l < turns) (within : s + l ≤ src.length) :
    Triple I (lmemfindFrom limits src first rest turns s l)
      (fun found ms => I ms ∧ (∀ i ∈ found, s ≤ i ∧ p <+: src.drop i) ∧
        ∀ k, s ≤ k → k < found.getD (s + l) → ¬p <+: src.drop k) (Clean E) := by
  induction turns generalizing s l with
  | zero => omega
  | succ turns ih =>
      rw [lmemfindFrom]
      cases head : memchr src first s l with
      | none =>
          have few : l / 16 ≤ mostCounted src p := by
            rw [mostCounted]
            omega
          apply (counts_clean kept few).bind
          intro _ ms held
          refine ⟨held, ends_nowhere, ?_⟩
          intro k least less occurs
          rw [same, begins_iff] at occurs
          exact memchr_none head k least less occurs.1
      | some init =>
          obtain ⟨least, less, here, before⟩ := memchr_some head
          have few : 1 + (init - s) / 16 + rest.length / 16 ≤ mostCounted src p := by
            rw [mostCounted, same, List.length_cons]
            omega
          have earlier (k : Nat) (least : s ≤ k) (less : k < init) : ¬p <+: src.drop k := by
            intro occurs
            rw [same, begins_iff] at occurs
            exact before k least less occurs.1
          apply (counts_clean kept few).bind
          intro _
          apply Triple.ite
          · intro follows ms held
            have occurs : p <+: src.drop init := by
              rw [same, begins_iff]
              exact ⟨here, follows⟩
            refine ⟨held, ?_, earlier⟩
            intro i found
            cases found
            exact ⟨least, occurs⟩
          · intro other ms held
            have place : init + 1 + (l - (init + 1 - s)) = s + l := by omega
            have later := ih (s := init + 1) (l := l - (init + 1 - s)) (by omega) (by omega) ms held
            rw [place] at later
            apply later.imp
            · rintro found ms' ⟨held, occurs, never⟩
              refine ⟨held, ?_, ?_⟩
              · intro i member
                obtain ⟨behind, there⟩ := occurs i member
                exact ⟨by omega, there⟩
              · intro k least less
                rcases Nat.lt_trichotomy k init with before | rfl | behind
                · exact earlier k least before
                · intro occurs
                  rw [same, begins_iff] at occurs
                  exact other occurs.2
                · exact never k behind less
            · exact fun _ _ raised => raised

theorem finds_lmemfind {s : Nat} (within : s ≤ src.length) :
    Triple I (lmemfind limits src s (src.length - s) p) (fun found ms => I ms ∧ found = findFrom p src s)
      (Clean E) := by
  have whole (k : Nat) (occurs : p <+: src.drop k) : k + p.length ≤ max k src.length := by
    have short := occurs.length_le
    rw [List.length_drop] at short
    omega
  cases pattern : p with
  | nil =>
      intro ms held
      refine ⟨held, (findFrom_first within (Nat.le_refl s) List.nil_prefix ?_).symm⟩
      intro k less least
      omega
  | cons first rest =>
      rw [pattern, List.length_cons] at whole
      apply Triple.ite
      · intro longer ms held
        rw [List.length_cons] at longer
        refine ⟨held, (findFrom_never ?_).symm⟩
        intro k least occurs
        have short := whole k occurs
        omega
      · intro fits ms held
        rw [List.length_cons, Nat.not_lt] at fits
        have fewer : src.length - s - rest.length < src.length - s + 1 := by omega
        have inside : s + (src.length - s - rest.length) ≤ src.length := by omega
        have found := finds_lmemfindFrom kept pattern fewer inside ms held
        apply found.imp
        · rintro found ms' ⟨held, occurs, never⟩
          rw [pattern] at occurs never
          refine ⟨held, ?_⟩
          cases found with
          | some i =>
              obtain ⟨behind, there⟩ := occurs i rfl
              exact (findFrom_first within behind there fun k less least => never k least less).symm
          | none =>
              refine (findFrom_never ?_).symm
              intro k least there
              have short := whole k there
              apply never k least _ there
              rw [Option.getD_none]
              omega
        · exact fun _ _ raised => raised

/-! ## `find` and `match`, whole -/

omit kept in
theorem knows_countFlush (limits : Limits) : Knows (countFlush limits) () := by
  intro ms
  rw [countFlush]
  split
  · exact knows_charge _ { ms with steps := 0 }
  · exact ⟨rfl, rfl⟩

theorem keeps_flush (captures : List Capture) :
    Triple (fun ms => I ms ∧ ms.captures = captures) (countFlush limits) (fun _ ms => J ms ∧ ms.captures = captures)
      (Clean E) := by
  rintro ms ⟨held, rfl⟩
  have keeps := kept.flushes ms held
  have knows := knows_countFlush limits ms
  cases result : countFlush limits ms with
  | error d ms' =>
      rw [result] at keeps knows
      exact ⟨keeps, knows⟩
  | ok u ms' =>
      rw [result] at keeps knows
      exact ⟨keeps, knows.2⟩

section
variable {α β : Type} {Q : β → MatchState → Prop} {F : MatchError → MatchState → Prop} {ms : MatchState}

theorem then_flush {k : Unit → Matching β} (held : I ms) (clean : ∀ d ms', Clean E d ms' → F d ms')
    (next : ∀ ms', J ms' → ms'.captures = ms.captures → Concludes Q F (k () ms')) :
    Concludes Q F ((countFlush limits >>= k) ms) := by
  have flushes : Triple (fun ms' => I ms' ∧ ms'.captures = ms.captures) (countFlush limits)
      (fun _ ms' => J ms' ∧ ms'.captures = ms.captures) F :=
    fun ms' held' => (keeps_flush kept _ ms' held').imp (fun _ _ holds => holds) clean
  exact flushes.bind (fun _ ms' holds => next ms' holds.1 holds.2) ms ⟨held, rfl⟩

omit kept in
theorem ends_raising {outcome : Except PatternError β} (returned : ∀ a, outcome = .ok a → Q a ms)
    (raised : ∀ e, outcome = .error e → F (.pattern e) ms) : Concludes Q F (raising outcome ms) := by
  cases outcome with
  | ok a => exact returned a rfl
  | error e => exact raised e rfl

omit kept in
theorem then_raising {outcome : Except PatternError α} {k : α → Matching β}
    (returned : ∀ a, outcome = .ok a → Concludes Q F (k a ms)) (raised : ∀ e, outcome = .error e → F (.pattern e) ms) :
    Concludes Q F ((raising outcome >>= k) ms) := by
  cases outcome with
  | ok a => exact returned a rfl
  | error e => exact raised e rfl

end

theorem finds_strFindAux (find plain : Bool) (init : Int) :
    Triple J (strFindAux limits src find p init plain)
      (fun result ms => J ms ∧ strFound src p find init plain = .ok result)
      (fun d ms => E d ms ∧ ∀ e, d = .pattern e → strFound src p find init plain = .error e) := by
  rw [strFindAux, strFound]
  dsimp only
  generalize posrelatI init src.length - 1 = s
  by_cases past : src.length < s
  · rw [if_pos past, if_pos past]
    exact fun ms held => ⟨held, rfl⟩
  have within : s ≤ src.length := Nat.not_lt.mp past
  rw [if_neg past, if_neg past]
  by_cases plainly : (find && (plain || nospecials p)) = true
  · rw [if_pos plainly, if_pos plainly]
    have searched := finds_lmemfind kept within
    apply Triple.bind (Q := fun found ms => I ms ∧ found = findFrom p src s)
    · exact fun ms held => (searched ms (kept.idle ms held)).imp (fun _ _ holds => holds) fun _ _ => clean_raised
    intro found
    apply Triple.bind (Q := fun _ ms => J ms ∧ found = findFrom p src s)
    · rintro ms ⟨held, same⟩
      exact (keeps_flush kept _ ms ⟨held, rfl⟩).imp (fun _ _ holds => ⟨holds.1, same⟩) fun _ _ => clean_raised
    rintro _ ms ⟨held, rfl⟩
    cases findFrom p src s with
    | none => exact ⟨held, rfl⟩
    | some i => exact ⟨held, rfl⟩
  rw [if_neg plainly, if_neg plainly]
  have kept' : KeepsCall limits src (if p.head? = some caret then p.tail else p) I J E := by
    split
    · exact keepsCall_tail kept
    · exact kept
  have same : sought src p s =
      soughtFrom src (if p.head? = some caret then p.tail else p) (decide (p.head? = some caret)) s := by
    rw [sought, soughtFrom]
    by_cases anchored : p.head? = some caret
    · simp [anchored]
    · simp [anchored]
  generalize (if p.head? = some caret then p.tail else p) = p' at kept' same ⊢
  generalize decide (p.head? = some caret) = anchor at same ⊢
  rw [same]
  have enough : src.length < s + (src.length - s + 1) := by omega
  have searched := visits_search kept' anchor enough within
  apply Triple.bind (Q := fun found ms =>
    I ms ∧ soughtFrom src p' anchor s = found.map fun found => .ok ⟨found.1, found.2, ms.captures⟩)
  · intro ms held
    apply (searched ms (kept.idle ms held)).imp
    · exact fun _ _ holds => holds
    · rintro d ms ⟨raised, names⟩
      refine ⟨raised, ?_⟩
      intro e fatal
      rw [names e fatal]
  rintro found ms ⟨held, answer⟩
  cases found with
  | none =>
      rw [answer]
      exact then_flush kept held (fun _ _ => clean_raised) fun ms' held' _ => ⟨held', rfl⟩
  | some found =>
      rw [answer]
      apply then_flush kept held fun _ _ => clean_raised
      intro ms' held' captures
      have patternError (e : PatternError) : E (.pattern e) ms' := kept.pattern _ e (kept.idle _ held')
      cases find with
      | true =>
          apply then_raising
          · intro values pushed
            rw [captures] at pushed
            refine ⟨held', ?_⟩
            simp [matchValues, pushed, Except.map]
          · intro e refused
            rw [captures] at refused
            refine ⟨patternError e, ?_⟩
            rintro _ ⟨⟩
            simp [matchValues, refused, Except.map]
      | false =>
          apply then_raising
          · intro values pushed
            rw [captures] at pushed
            refine ⟨held', ?_⟩
            simp [matchValues, pushed, Except.map]
          · intro e refused
            rw [captures] at refused
            refine ⟨patternError e, ?_⟩
            rintro _ ⟨⟩
            simp [matchValues, refused, Except.map]

/-! ## `gmatch` -/

theorem visits_gmatchFrom (lastmatch : Option Nat) {turns s : Nat} (rest : turns = src.length + 1 - s) :
    Triple I (gmatchFrom limits src p lastmatch turns s)
      (fun found ms =>
        I ms ∧ nextVisit src p lastmatch s = found.map fun found => .ok ⟨found.1, found.2, ms.captures⟩)
      (RaisesAt E (nextVisit src p lastmatch s)) := by
  induction turns generalizing s with
  | zero => exact fun ms held => ⟨held, nextVisit_past (by omega)⟩
  | succ turns ih =>
      have within : s ≤ src.length := by omega
      have step := nextVisit_step src p lastmatch within
      apply visits_again kept within
      · rintro d ms ⟨raised, names⟩
        refine ⟨raised, ?_⟩
        intro e same
        rw [step, names e same]
        rfl
      intro answer
      apply Triple.ite
      · rintro ⟨present, other⟩ ms ⟨held, found⟩
        obtain ⟨e, rfl⟩ := Option.isSome_iff_exists.mp present
        refine ⟨held, ?_⟩
        rw [step, found, Option.map_some, Option.filter_some, isVisit, decide_eq_true other]
        rfl
      · rintro skipped ms ⟨held, found⟩
        have lacking : (matchAt src p s).filter (isVisit lastmatch) = none := by
          rw [found]
          cases answer with
          | none => rfl
          | some e =>
              have same : some e = lastmatch := not_not.mp fun other => skipped ⟨rfl, other⟩
              rw [Option.map_some, Option.filter_some, isVisit, decide_eq_false (not_not.mpr same)]
              rfl
        rw [step, lacking, Option.none_or]
        exact ih (by omega) ms held

theorem visits_gmatchAux (gm : GMatchState) :
    Triple J (gmatchAux limits src p gm)
      (fun answer ms => J ms ∧ gmatchNext src p gm = .ok answer)
      (fun d ms => E d ms ∧ ∀ e, d = .pattern e → gmatchNext src p gm = .error e) := by
  have found := visits_gmatchFrom kept gm.lastmatch (rfl : src.length + 1 - gm.src = src.length + 1 - gm.src)
  rw [gmatchAux, gmatchNext]
  apply Triple.bind (Q := fun found ms => I ms ∧
    nextVisit src p gm.lastmatch gm.src = found.map fun found => .ok ⟨found.1, found.2, ms.captures⟩)
  · intro ms held
    apply (found ms (kept.idle ms held)).imp
    · exact fun _ _ holds => holds
    · rintro d ms ⟨raised, names⟩
      refine ⟨raised, ?_⟩
      intro e fatal
      rw [names e fatal]
  rintro found ms ⟨held, answer⟩
  cases found with
  | none =>
      rw [answer]
      exact then_flush kept held (fun _ _ => clean_raised) fun ms' held' _ => ⟨held', rfl⟩
  | some found =>
      rw [answer]
      apply then_flush kept held (fun _ _ => clean_raised)
      intro ms' held' captures
      apply then_raising
      · intro values pushed
        rw [captures] at pushed
        refine ⟨held', ?_⟩
        simp [matchValues, pushed, Except.map]
      · intro e refused
        rw [captures] at refused
        refine ⟨kept.pattern _ e (kept.idle _ held'), ?_⟩
        rintro _ ⟨⟩
        simp [matchValues, refused, Except.map]

section
variable {turns : Nat} {gm : GMatchState}

omit kept in
theorem iterated_nothing (next : gmatchNext src p gm = .ok none) :
    iterated src (visitsFrom src p (turns + 1) gm.lastmatch gm.src) = .ok [] := by
  rw [gmatchNext] at next
  rw [visitsFrom]
  rcases visit : nextVisit src p gm.lastmatch gm.src with _ | e | v
  · rfl
  · rw [visit] at next
    cases next
  · rw [visit] at next
    cases values : matchValues src false v with
    | error e => simp [values, Except.map] at next
    | ok given => simp [values, Except.map] at next

omit kept in
theorem iterated_error {e : PatternError} (next : gmatchNext src p gm = .error e) :
    iterated src (visitsFrom src p (turns + 1) gm.lastmatch gm.src) = .error e := by
  rw [gmatchNext] at next
  rw [visitsFrom]
  rcases visit : nextVisit src p gm.lastmatch gm.src with _ | e' | v
  · rw [visit] at next
    cases next
  · rw [visit] at next
    cases next
    rfl
  · rw [visit] at next
    cases values : matchValues src false v with
    | error e' =>
        simp only [values, Except.map] at next
        cases next
        simp only [iterated, List.mapM_cons]
        change (matchValues src false v >>= _) = _
        rw [values]
        rfl
    | ok given => simp [values, Except.map] at next

omit kept in
theorem iterated_next {gm' : GMatchState} {values : List Pushed} (next : gmatchNext src p gm = .ok (some (gm', values))) :
    iterated src (visitsFrom src p (turns + 1) gm.lastmatch gm.src) =
      (iterated src (visitsFrom src p turns gm'.lastmatch gm'.src)).map (values :: ·) := by
  rw [gmatchNext] at next
  rw [visitsFrom]
  rcases visit : nextVisit src p gm.lastmatch gm.src with _ | e' | v
  · rw [visit] at next
    cases next
  · rw [visit] at next
    cases next
  · rw [visit] at next
    cases matched : matchValues src false v with
    | error e' => simp [matched, Except.map] at next
    | ok given =>
        simp only [matched, Except.map, Except.ok.injEq, Option.some.injEq, Prod.mk.injEq] at next
        obtain ⟨rfl, rfl⟩ := next
        simp only [iterated, List.mapM_cons]
        change (matchValues src false v >>= _) = _
        rw [matched]
        cases (visitsFrom src p turns (some v.last) v.last).mapM fun visit => visit >>= matchValues src false with
        | error e => rfl
        | ok others => rfl

end

theorem visits_gmatchLoop (turns : Nat) (gm : GMatchState) :
    Triple J (gmatchLoop limits src p turns gm)
      (fun answers ms => J ms ∧ iterated src (visitsFrom src p turns gm.lastmatch gm.src) = .ok answers)
      (fun d ms => E d ms ∧ ∀ e, d = .pattern e →
        iterated src (visitsFrom src p turns gm.lastmatch gm.src) = .error e) := by
  induction turns generalizing gm with
  | zero => exact fun ms held => ⟨held, rfl⟩
  | succ turns ih =>
      rw [gmatchLoop]
      apply Triple.bind (Q := fun answer ms => J ms ∧ gmatchNext src p gm = .ok answer)
      · intro ms held
        apply (visits_gmatchAux kept gm ms held).imp
        · exact fun _ _ holds => holds
        · exact fun d ms raised => ⟨raised.1, fun e fatal => iterated_error (raised.2 e fatal)⟩
      rintro answer ms ⟨held, next⟩
      cases answer with
      | none => exact ⟨held, iterated_nothing next⟩
      | some answer =>
          obtain ⟨gm', values⟩ := answer
          dsimp only
          rw [iterated_next next]
          refine Triple.bind (P := J) (Q := fun others ms => J ms ∧
            iterated src (visitsFrom src p turns gm'.lastmatch gm'.src) = .ok others) ?_ ?_ ms held
          · intro ms held
            apply (ih gm' ms held).imp
            · exact fun _ _ holds => holds
            · rintro d ms ⟨raised, names⟩
              refine ⟨raised, ?_⟩
              intro e fatal
              rw [names e fatal]
              rfl
          · rintro others ms ⟨held, same⟩
            refine ⟨held, ?_⟩
            rw [same]
            rfl

end

end Budyk.Proof
