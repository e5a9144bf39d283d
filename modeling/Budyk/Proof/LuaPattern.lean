import Budyk.Spec.LuaPattern

/-! The matcher finds the first of the ways through its pattern's items, and a pattern of less than 200 bytes is never
too complex for it. -/

namespace Budyk.Proof
open Lib Rules Rules.LuaPattern Spec.LuaPattern

/-- The errors that are the pattern's. -/
def fault : MatchError → Option PatternError
  | .pattern e => some e
  | _ => none

abbrev FindsWays (x : Matching (Option Nat)) (found : List Capture → List Way) : Prop :=
  Tries MatchState.captures fault x found

abbrev Knows {β : Type} (x : Matching β) (b : β) : Prop := Answers MatchState.captures fault x b

section
variable {limits : Limits} {src : List UInt8}

/-! ## Counting -/

theorem knows_charge (n : Nat) : Knows (budykLuaCharge limits n) () := by
  intro ms
  rw [budykLuaCharge]
  split
  · exact rfl
  · exact ⟨rfl, rfl⟩

theorem knows_count (n : Nat) : Knows (count limits n) () := by
  intro ms
  rw [count]
  dsimp only
  split
  · exact knows_charge _ { ms with steps := 0, counted := ms.counted + n }
  · exact ⟨rfl, rfl⟩

theorem findsWays_malformed (e : PatternError) : FindsWays (malformed e) fun _ => [.error e] := by
  apply tries_fault
  rfl

/-! ## Classes -/

theorem inBracket_eq (c : UInt8) (inside : List UInt8) : inBracket c inside = (members inside).any (Member.holds c) := by
  induction inside using inBracket.induct with
  | case1 => rfl
  | case2 => simp [inBracket, members, Member.holds]
  | case3 b plain => simp [inBracket, members, Member.holds, plain]
  | case4 d => simp [inBracket, members, Member.holds]
  | case5 b d plain ih =>
      have both : inBracket c [b, d] = (decide (b = c) || inBracket c [d]) := if_neg plain
      have split : members [b, d] = .byte b :: members [d] := if_neg plain
      rw [both, split, ih, List.any_cons]
      rfl
  | case6 d e p ih =>
      rw [inBracket, if_pos rfl, ih, members, if_pos rfl, List.any_cons]
      rfl
  | case7 b e p plain ih =>
      rw [inBracket, if_neg plain, if_pos rfl, ih, members, if_neg plain, if_pos rfl, List.any_cons]
      rfl
  | case8 b d e p plain noRange ih =>
      rw [inBracket, if_neg plain, if_neg noRange, ih, members, if_neg plain, if_neg noRange, List.any_cons]
      rfl

theorem holds_bracketSet (c : UInt8) (inside : List UInt8) : (bracketSet inside).holds c = matchBracketClass c inside := by
  rw [bracketSet, matchBracketClass]
  split
  · rw [CharClass.holds, inBracket_eq, Bool.bne_true]
  · rw [CharClass.holds, inBracket_eq, Bool.bne_false]

/-- Whether the character at `s` is of the class. -/
abbrev single (src : List UInt8) (cls : CharClass) (s : Nat) : Bool := decide (s < src.length) && cls.holds (byteAt src s)

theorem knows_singlematch (s : Nat) {p : List UInt8} (present : p ≠ []) (ep : List UInt8) :
    Knows (singlematch limits src s p ep) (single src (classOf p ep) s) := by
  apply (knows_count 1).bind
  by_cases past : src.length ≤ s
  · rw [if_pos past, single, decide_eq_false (Nat.not_lt.mpr past)]
    exact answers_pure
  · rw [if_neg past, single, decide_eq_true (Nat.not_le.mp past), Bool.true_and, classOf]
    dsimp only
    split
    · exact answers_pure
    split
    · exact answers_pure
    split
    · apply (knows_count _).bind
      rw [holds_bracketSet]
      exact answers_pure
    · obtain ⟨b, rest, rfl⟩ := List.exists_cons_of_ne_nil present
      have same : decide ((b :: rest).head? = some (byteAt src s)) = CharClass.holds (byteAt src s) (.byte b) := by
        simp [CharClass.holds]
      rw [same]
      exact answers_pure

/-! ## What follows -/

theorem byteAt_eq {s : Nat} (within : s < src.length) : byteAt src s = src[s] := by
  rw [byteAt, List.getD_eq_getElem?_getD, List.getElem?_eq_getElem within, Option.getD_some]

theorem run_pos {cls : CharClass} {s : Nat} (here : single src cls s = true) : run src cls s = run src cls (s + 1) + 1 := by
  simp only [single, Bool.and_eq_true, decide_eq_true_eq] at here
  obtain ⟨within, holds⟩ := here
  rw [run, List.drop_eq_getElem_cons within, List.takeWhile_cons_of_pos, List.length_cons, run]
  rwa [byteAt_eq within] at holds

theorem run_zero {cls : CharClass} {s : Nat} (other : single src cls s = false) : run src cls s = 0 := by
  by_cases within : s < src.length
  · rw [single, decide_eq_true within, Bool.true_and, byteAt_eq within] at other
    rw [run, List.drop_eq_getElem_cons within, List.takeWhile_cons_of_neg (by simp [other]), List.length_nil]
  · rw [run, List.drop_eq_nil_of_le (Nat.not_lt.mp within), List.takeWhile_nil, List.length_nil]

theorem knows_repeats (s : Nat) {p : List UInt8} (present : p ≠ []) (ep : List UInt8) {turns i : Nat}
    (enough : src.length - (s + i) < turns) :
    Knows (repeats limits src s p ep turns i) (i + run src (classOf p ep) (s + i)) := by
  induction turns generalizing i with
  | zero => omega
  | succ turns ih =>
      rw [repeats]
      apply (knows_singlematch (s + i) present ep).bind
      cases here : single src (classOf p ep) (s + i) with
      | true =>
          have within : s + i < src.length := by
            simp only [single, Bool.and_eq_true, decide_eq_true_eq] at here
            exact here.1
          have sum : i + run src (classOf p ep) (s + i) = i + 1 + run src (classOf p ep) (s + (i + 1)) := by
            rw [run_pos here, Nat.add_assoc s]
            omega
          rw [sum]
          exact ih (by omega)
      | false =>
          rw [run_zero here]
          exact answers_pure

/-! ## Several ends of one class -/

section
variable {again : Nat → Matching (Option Nat)} {found : Nat → List Capture → List Way}

theorem findsWays_shrink (finds : ∀ s, FindsWays (again s) (found s)) (s i : Nat) :
    FindsWays (shrink again s i) fun c => ((List.range (i + 1)).reverse.map (s + ·)).flatMap fun e => found e c := by
  induction i with
  | zero =>
      apply tries_congr (finds s)
      intro c
      simp
  | succ i ih =>
      refine tries_congr (x := shrink again s (i + 1)) ((finds (s + (i + 1))).orElse (fun _ => rfl) ih) ?_
      intro c
      rw [List.range_succ (n := i + 1), List.reverse_concat, List.map_cons, List.flatMap_cons]

theorem findsWays_maxExpand (finds : ∀ s, FindsWays (again s) (found s)) (s : Nat) {p : List UInt8} (present : p ≠ [])
    (ep : List UInt8) :
    FindsWays (maxExpand limits src again s p ep) fun c =>
      ((List.range (run src (classOf p ep) s + 1)).reverse.map (s + ·)).flatMap fun e => found e c := by
  have often : Knows (repeats limits src s p ep (src.length - s + 1) 0) (0 + run src (classOf p ep) (s + 0)) :=
    knows_repeats s present ep (Nat.lt_succ_self _)
  rw [Nat.zero_add, Nat.add_zero] at often
  exact often.then (findsWays_shrink finds s _)

theorem findsWays_minExpand (finds : ∀ s, FindsWays (again s) (found s)) {p : List UInt8} (present : p ≠ [])
    (ep : List UInt8) {turns s : Nat} (enough : src.length - s < turns) :
    FindsWays (minExpand limits src again p ep turns s) fun c =>
      ((List.range (run src (classOf p ep) s + 1)).map (s + ·)).flatMap fun e => found e c := by
  induction turns generalizing s with
  | zero => omega
  | succ turns ih =>
      have rest : FindsWays (do
          if ← singlematch limits src s p ep then minExpand limits src again p ep turns (s + 1) else pure none)
        fun c => ((List.range (run src (classOf p ep) s)).map (s + 1 + ·)).flatMap fun e => found e c := by
        apply (knows_singlematch s present ep).then
        cases here : single src (classOf p ep) s with
        | true =>
            have within : s < src.length := by
              simp only [single, Bool.and_eq_true, decide_eq_true_eq] at here
              exact here.1
            rw [run_pos here]
            exact ih (by omega)
        | false =>
            rw [run_zero here]
            exact tries_none
      refine tries_congr (x := minExpand limits src again p ep (turns + 1) s) ((finds s).orElse (fun _ => rfl) rest) ?_
      intro c
      rw [List.range_succ_eq_map, List.map_cons, List.flatMap_cons, List.map_map, Nat.add_zero]
      congr 3
      funext e
      exact Nat.add_right_comm s 1 e ▸ rfl

end

/-! ## A class with its suffix -/

theorem classend_cases (limits : Limits) (p : List UInt8) :
    (∃ e, afterClass p = .error e ∧ classend limits p = malformed e) ∨
      ∃ ep, afterClass p = .ok ep ∧ Knows (classend limits p) ep := by
  by_cases escaped : p.head? = some escape
  · rw [afterClass, if_pos escaped, classend, if_pos escaped]
    by_cases last : p.length = 1
    · rw [if_pos last, if_pos last]
      exact .inl ⟨_, rfl, rfl⟩
    · rw [if_neg last, if_neg last]
      exact .inr ⟨_, rfl, answers_pure⟩
  rw [afterClass, if_neg escaped, classend, if_neg escaped]
  by_cases brackets : p.head? = some bracket
  · rw [if_pos brackets, if_pos brackets]
    cases bracketEnd (if p.tail.head? = some caret then p.drop 2 else p.drop 1) with
    | none => exact .inl ⟨_, rfl, rfl⟩
    | some ep => exact .inr ⟨ep, rfl, (knows_count _).bind answers_pure⟩
  · rw [if_neg brackets, if_neg brackets]
    exact .inr ⟨_, rfl, answers_pure⟩

theorem suffixOf_cases (ep : List UInt8) :
    ep.head? = some 63 ∧ suffixOf ep = (.optional, ep.drop 1) ∨ ep.head? = some 43 ∧ suffixOf ep = (.plus, ep.drop 1) ∨
      ep.head? = some 42 ∧ suffixOf ep = (.star, ep.drop 1) ∨ ep.head? = some 45 ∧ suffixOf ep = (.lazy, ep.drop 1) ∨
      (ep.head? ≠ some 63 ∧ ep.head? ≠ some 43 ∧ ep.head? ≠ some 42 ∧ ep.head? ≠ some 45) ∧ suffixOf ep = (.once, ep) := by
  unfold suffixOf
  split
  · exact .inl ⟨‹_›, rfl⟩
  split
  · exact .inr (.inl ⟨‹_›, rfl⟩)
  split
  · exact .inr (.inr (.inl ⟨‹_›, rfl⟩))
  split
  · exact .inr (.inr (.inr (.inl ⟨‹_›, rfl⟩)))
  · exact .inr (.inr (.inr (.inr ⟨⟨‹_›, ‹_›, ‹_›, ‹_›⟩, rfl⟩)))

variable {deeper next : Nat → List UInt8 → Matching (Option Nat)} {found : List UInt8 → Nat → List Capture → List Way}

/-- What the item finds, with what is left of the pattern. -/
abbrev through (src : List UInt8) (found : List UInt8 → Nat → List Capture → List Way) (item : Item × List UInt8)
    (s : Nat) (captures : List Capture) : List Way :=
  andThen (item.1.ways src s captures) fun s captures => found item.2 s captures

theorem findsWays_default (deep : ∀ s p, FindsWays (deeper s p) (found p s)) (goes : ∀ s p, FindsWays (next s p) (found p s))
    (s : Nat) {p : List UInt8} (present : p ≠ []) :
    FindsWays (matchDefault limits src deeper next s p) (through src found (singleItem p) s) := by
  rw [matchDefault]
  obtain ⟨e, after, failed⟩ | ⟨ep, after, knows⟩ := classend_cases limits p
  · rw [failed, singleItem, after]
    exact findsWays_malformed e
  have item : singleItem p = (.single (classOf p ep) (suffixOf ep).1, (suffixOf ep).2) := by
    rw [singleItem, after]
  have ends : through src found (singleItem p) s = fun c =>
      ((suffixOf ep).1.ends (run src (classOf p ep) s) s).flatMap fun e => found (suffixOf ep).2 e c := by
    funext c
    rw [item, through, Item.ways, andThen_map]
  rw [ends]
  apply knows.then
  apply (knows_singlematch s present ep).then
  have again := fun e => deep e (ep.drop 1)
  cases here : single src (classOf p ep) s with
  | false =>
      rw [run_zero here]
      obtain ⟨head, suffix⟩ | ⟨head, suffix⟩ | ⟨head, suffix⟩ | ⟨head, suffix⟩ | ⟨absent, suffix⟩ := suffixOf_cases ep
      · simpa [head, suffix, Repeat.ends] using goes s (ep.drop 1)
      · simpa [head, suffix, Repeat.ends] using tries_none
      · simpa [head, suffix, Repeat.ends] using goes s (ep.drop 1)
      · simpa [head, suffix, Repeat.ends] using goes s (ep.drop 1)
      · simpa [absent, suffix, Repeat.ends] using tries_none
  | true =>
      obtain ⟨head, suffix⟩ | ⟨head, suffix⟩ | ⟨head, suffix⟩ | ⟨head, suffix⟩ | ⟨absent, suffix⟩ := suffixOf_cases ep
      · rw [suffix, head, run_pos here, if_neg (by decide), if_pos rfl]
        refine tries_congr ((again (s + 1)).orElse (fun _ => rfl) (goes s (ep.drop 1))) ?_
        intro c
        simp [Repeat.ends]
      · rw [suffix, head, run_pos here, if_neg (by decide), if_neg (by decide), if_pos rfl]
        exact findsWays_maxExpand again (s + 1) present ep
      · rw [suffix, head, if_neg (by decide), if_neg (by decide), if_neg (by decide), if_pos rfl]
        exact findsWays_maxExpand again s present ep
      · rw [suffix, head, if_neg (by decide), if_neg (by decide), if_neg (by decide), if_neg (by decide), if_pos rfl]
        exact findsWays_minExpand again present ep (Nat.lt_succ_self _)
      · simpa [absent, suffix, Repeat.ends, run_pos here] using goes (s + 1) ep

/-! ## Captures -/

theorem captureToClose_spec {captures : List Capture} {level l : Nat} (last : captureToClose captures level = some l) :
    captures[l]?.map Capture.len = some .unfinished := by
  induction level with
  | zero => cases last
  | succ level ih =>
      rw [captureToClose] at last
      split at last
      next unclosed => exact Option.some.inj last ▸ unclosed
      next => exact ih last

theorem reopened {captures : List Capture} {l : Nat} (unclosed : captures[l]?.map Capture.len = some .unfinished)
    (len : Capture → CaptureLen) :
    (captures.modify l fun c => { c with len := len c }).modify l (fun c => { c with len := .unfinished }) = captures := by
  apply List.ext_getElem?
  intro i
  rw [List.getElem?_modify, List.getElem?_modify]
  by_cases same : l = i
  · cases same
    cases held : captures[l]? with
    | none => rfl
    | some c =>
        rw [held] at unclosed
        have unfinished : c.len = .unfinished := Option.some.inj unclosed
        simp [← unfinished]
  · simp [same]

theorem findsWays_startCapture {again : Nat → Matching (Option Nat)} {later : Nat → List Capture → List Way} {s : Nat}
    (finds : FindsWays (again s) (later s)) (what : CaptureLen) :
    FindsWays (startCapture again s what) fun c =>
      if kMaxCaptures ≤ c.length then [.error .tooManyCaptures] else later s (c ++ [⟨s, what⟩]) := by
  intro ms
  by_cases full : kMaxCaptures ≤ ms.captures.length
  · rw [startCapture, get_bind, if_pos full]
    simp only [if_pos full]
    exact findsWays_malformed _ ms
  · rw [startCapture, get_bind, if_neg full]
    simp only [if_neg full]
    refine Tried.within (fun ms => { ms with captures := ms.captures ++ [⟨s, what⟩] })
      (fun ms => { ms with captures := ms.captures.dropLast }) (finds _) ?_ ?_ ?_
    · exact fun _ => rfl
    · rfl
    · intro ms' same
      dsimp only
      rw [same, List.dropLast_concat]

theorem findsWays_endCapture {again : Nat → Matching (Option Nat)} {later : Nat → List Capture → List Way} {s : Nat}
    (finds : FindsWays (again s) (later s)) :
    FindsWays (endCapture again s) fun c => andThen (Item.ways src s c .closes) later := by
  intro ms
  cases last : captureToClose ms.captures ms.captures.length with
  | none =>
      rw [endCapture, get_bind, last]
      simp only [Item.ways, last]
      exact findsWays_malformed _ ms
  | some l =>
      rw [endCapture, get_bind, last]
      simp only [Item.ways, last, andThen_ok, andThen_nil, List.append_nil]
      refine Tried.within
        (fun ms => { ms with captures := ms.captures.modify l fun c => { c with len := .length (s - c.init) } })
        (fun ms => { ms with captures := ms.captures.modify l fun c => { c with len := .unfinished } })
        (finds _) ?_ ?_ ?_
      · exact fun _ => rfl
      · rfl
      · intro ms' same
        dsimp only
        rw [same]
        exact reopened (captureToClose_spec last) fun c => .length (s - c.init)

/-! ## The other items -/

section
variable {k : Option Nat → Matching (Option Nat)} {later : Nat → List Capture → List Way}

theorem findsWays_matchCapture (goes : ∀ s, FindsWays (k (some s)) (later s)) (stops : FindsWays (k none) fun _ => [])
    (s : Nat) (digit : UInt8) :
    FindsWays (matchCapture limits src s digit >>= k) fun c => andThen (Item.ways src s c (.back digit)) later := by
  intro ms
  have fails (n : Nat) : FindsWays ((do count limits n; pure none : Matching _) >>= k) fun _ => [] :=
    ((knows_count n).bind answers_pure : Knows (do count limits n; pure none) none).then stops
  cases named : checkCapture ms.captures digit with
  | none =>
      have start : matchCapture limits src s digit ms = malformed (.invalidCaptureIndex (digit.toNat - 48)) ms := by
        rw [matchCapture, get_bind, named]
      rw [bind_at start k]
      simp only [Item.ways, named]
      exact findsWays_malformed _ ms
  | some capture =>
      obtain ⟨init, len⟩ := capture
      cases len with
      | unfinished =>
          have start : matchCapture limits src s digit ms =
              (do count limits (1 + positionLen / 16); pure none : Matching _) ms := by
            rw [matchCapture, get_bind, named]
          rw [bind_at start k]
          simp only [Item.ways, named]
          exact fails _ ms
      | position =>
          have start : matchCapture limits src s digit ms =
              (do count limits (1 + positionLen / 16); pure none : Matching _) ms := by
            rw [matchCapture, get_bind, named]
          rw [bind_at start k]
          simp only [Item.ways, named]
          exact fails _ ms
      | length len =>
          by_cases here : len ≤ src.length - s ∧ slice src init len = slice src s len
          · have start : matchCapture limits src s digit ms =
                (do count limits (1 + len / 16); pure (some (s + len)) : Matching _) ms := by
              rw [matchCapture, get_bind, named]
              simp only [if_pos here]
            rw [bind_at start k]
            simp only [Item.ways, named, if_pos here, andThen_ok, andThen_nil, List.append_nil]
            exact ((knows_count (1 + len / 16)).bind answers_pure :
              Knows (do count limits (1 + len / 16); pure (some (s + len))) (some (s + len))).then (goes (s + len)) ms
          · have start : matchCapture limits src s digit ms = (do count limits (1 + len / 16); pure none : Matching _) ms := by
              rw [matchCapture, get_bind, named]
              simp only [if_neg here]
            rw [bind_at start k]
            simp only [Item.ways, named, if_neg here]
            exact fails _ ms

theorem knows_matchbalance (limits : Limits) (src : List UInt8) (s : Nat) {p : List UInt8} (enough : 1 < p.length) :
    Knows (matchbalance limits src s p) (if byteAt src s ≠ p.getD 0 0 then none
      else (balanceEnd (p.getD 0 0) (p.getD 1 0) (src.drop (s + 1)) 1 (s + 1)).map (· + 1)) := by
  rw [matchbalance, if_neg (Nat.not_le.mpr enough)]
  split
  · exact answers_pure
  · cases balanceEnd (p.getD 0 0) (p.getD 1 0) (src.drop (s + 1)) 1 (s + 1) with
    | none => exact (knows_count _).bind answers_pure
    | some closed => exact (knows_count _).bind answers_pure

theorem findsWays_matchbalance (goes : ∀ s, FindsWays (k (some s)) (later s)) (stops : FindsWays (k none) fun _ => [])
    (s : Nat) {p : List UInt8} (enough : 1 < p.length) :
    FindsWays (matchbalance limits src s p >>= k) fun c =>
      andThen (Item.ways src s c (.balance (p.getD 0 0) (p.getD 1 0))) later := by
  have knows := knows_matchbalance limits src s enough
  by_cases other : byteAt src s ≠ p.getD 0 0
  · rw [if_pos other] at knows
    refine tries_congr (knows.then stops) fun c => ?_
    rw [Item.ways, if_pos other, andThen_nil]
  · rw [if_neg other] at knows
    cases closes : balanceEnd (p.getD 0 0) (p.getD 1 0) (src.drop (s + 1)) 1 (s + 1) with
    | none =>
        rw [closes] at knows
        refine tries_congr (knows.then stops) fun c => ?_
        simp only [Item.ways, if_neg other, closes, andThen_nil]
    | some closed =>
        rw [closes] at knows
        refine tries_congr (knows.then (goes (closed + 1))) fun c => ?_
        simp only [Item.ways, if_neg other, closes, andThen_ok, andThen_nil, List.append_nil]

end

theorem findsWays_frontier (goes : ∀ s p, FindsWays (next s p) (found p s)) (s : Nat) (p : List UInt8) :
    FindsWays (if p.head? ≠ some bracket then malformed .missingFrontierSet
      else do
        let ep ← classend limits p
        if frontier src s (insideOf p ep) then next s ep else pure none) (through src found (frontierItem p) s) := by
  by_cases other : p.head? ≠ some bracket
  · rw [if_pos other, frontierItem, if_pos other]
    exact findsWays_malformed _
  rw [if_neg other, frontierItem, if_neg other]
  obtain ⟨e, after, failed⟩ | ⟨ep, after, knows⟩ := classend_cases limits p
  · rw [failed, after]
    exact findsWays_malformed e
  · rw [after]
    apply knows.then
    rw [Rules.LuaPattern.frontier, ← holds_bracketSet, ← holds_bracketSet]
    by_cases here : (!(bracketSet (insideOf p ep)).holds (if s = 0 then 0 else byteAt src (s - 1)) &&
        (bracketSet (insideOf p ep)).holds (byteAt src s)) = true
    · rw [if_pos here]
      refine tries_congr (goes s ep) fun c => ?_
      rw [through, Item.ways, if_pos here, andThen_ok, andThen_nil, List.append_nil]
    · rw [if_neg here]
      refine tries_congr tries_none fun c => ?_
      rw [through, Item.ways, if_neg here, andThen_nil]

/-! ## The matcher -/

theorem findsWays_item (deep : ∀ s p, FindsWays (deeper s p) (found p s)) (goes : ∀ s p, FindsWays (next s p) (found p s))
    (whole : ∀ s captures, found [] s captures = [.ok (s, captures)]) (s : Nat) (b : UInt8) (rest : List UInt8) :
    FindsWays (matchItem limits src deeper next s (b :: rest)) (through src found (itemOf b rest) s) := by
  rw [matchItem, itemOf]
  by_cases opens : b = opening
  · rw [if_pos opens, if_pos opens]
    by_cases position : rest.head? = some closing
    · rw [if_pos position, if_pos position]
      refine tries_congr (findsWays_startCapture (deep s _) .position) fun c => ?_
      simp only [through, Item.ways]
      split <;> simp
    · rw [if_neg position, if_neg position]
      refine tries_congr (findsWays_startCapture (deep s _) .unfinished) fun c => ?_
      simp only [through, Item.ways]
      split <;> simp
  rw [if_neg opens, if_neg opens]
  by_cases closes : b = closing
  · rw [if_pos closes, if_pos closes]
    exact findsWays_endCapture (deep s rest)
  rw [if_neg closes, if_neg closes]
  by_cases ends : b = 36 ∧ rest = []
  · rw [if_pos ends, if_pos ends]
    by_cases last : s = src.length
    · rw [if_pos last]
      obtain ⟨-, rfl⟩ := ends
      refine tries_congr (tries_some s) fun c => ?_
      rw [through, Item.ways, if_pos last, andThen_ok, andThen_nil, List.append_nil, whole]
    · rw [if_neg last]
      refine tries_congr tries_none fun c => ?_
      simp [through, Item.ways, last]
  rw [if_neg ends, if_neg ends]
  by_cases balance : b = escape ∧ rest.head? = some 98
  · rw [if_pos balance, if_pos balance]
    by_cases short : (rest.drop 1).length ≤ 1
    · rw [if_pos short, matchbalance, if_pos short]
      exact findsWays_malformed _
    · rw [if_neg short]
      apply findsWays_matchbalance
      · exact fun s => goes s (rest.drop 3)
      · exact tries_none
      · exact Nat.not_le.mp short
  rw [if_neg balance, if_neg balance]
  by_cases frontier : b = escape ∧ rest.head? = some 102
  · rw [if_pos frontier, if_pos frontier]
    exact findsWays_frontier goes s (rest.drop 1)
  rw [if_neg frontier, if_neg frontier]
  by_cases back : b = escape ∧ rest.head?.any isDigit = true
  · rw [if_pos back, if_pos back]
    apply findsWays_matchCapture
    · exact fun s => goes s (rest.drop 1)
    · exact tries_none
  · rw [if_neg back, if_neg back]
    exact findsWays_default deep goes s (List.cons_ne_nil b rest)

theorem itemsFrom_nil (turns : Nat) : itemsFrom turns [] = [] := by cases turns <;> rfl

theorem findsWays_matchFrom (limits : Limits) (src : List UInt8) (turns depth s : Nat) (p : List UInt8) :
    FindsWays (matchFrom limits src turns depth s p) (ways src (itemsFrom turns p) s) := by
  induction turns generalizing depth s p with
  | zero => exact tries_ended rfl _
  | succ turns ih =>
      apply (knows_count 1).then
      cases p with
      | nil => exact tries_some s
      | cons b rest =>
          change FindsWays _ (through src (fun p => ways src (itemsFrom turns p)) (itemOf b rest) s)
          apply findsWays_item
          · intro s p
            split
            · exact tries_ended rfl _
            · exact ih (depth - 1) s p
          · exact fun s p => ih depth s p
          · intro s captures
            rw [itemsFrom_nil, ways]

/-! ## Ways and matches -/

theorem le_takeWhile_length {α : Type} {p : α → Bool} {xs : List α} {n : Nat} :
    n ≤ (xs.takeWhile p).length ↔ n ≤ xs.length ∧ ∀ x ∈ xs.take n, p x = true := by
  induction xs generalizing n with
  | nil => simp
  | cons x xs ih =>
      cases n with
      | zero => simp
      | succ n =>
          by_cases good : p x = true
          · simp [List.takeWhile_cons_of_pos good, ih, good]
          · simp [good]

theorem le_run {cls : CharClass} {s n : Nat} : n ≤ run src cls s ↔ cls.Stands src s n := by
  rw [run, le_takeWhile_length, List.length_drop]
  rfl

theorem mem_ends {rep : Repeat} {n s e : Nat} : e ∈ rep.ends n s ↔ ∃ k ≤ n, rep.Allows k ∧ e = s + k := by
  cases rep with
  | once =>
      simp only [Repeat.ends, Repeat.Allows]
      split
      · simp
        omega
      · simp
        omega
  | optional =>
      simp only [Repeat.ends, Repeat.Allows]
      split
      · simp
        constructor
        · rintro (rfl | rfl)
          · exact ⟨1, by omega⟩
          · exact ⟨0, by omega⟩
        · omega
      · simp
        constructor
        · rintro rfl
          exact ⟨0, by omega⟩
        · omega
  | star =>
      simp only [Repeat.ends, Repeat.Allows, List.mem_map, List.mem_reverse, List.mem_range, true_and, Nat.lt_succ_iff]
      simp only [eq_comm]
  | plus =>
      simp only [Repeat.ends, Repeat.Allows, List.mem_map, List.mem_reverse, List.mem_range]
      constructor
      · rintro ⟨k, less, rfl⟩
        exact ⟨k + 1, less, by omega, by omega⟩
      · rintro ⟨k, le, least, rfl⟩
        exact ⟨k - 1, by omega, by omega⟩
  | lazy =>
      simp only [Repeat.ends, Repeat.Allows, List.mem_map, List.mem_range, true_and, Nat.lt_succ_iff]
      simp only [eq_comm]

theorem mem_itemWays {item : Item} {s m : Nat} {captures between : List Capture} :
    .ok (m, between) ∈ item.ways src s captures ↔ item.Matches src s captures m between := by
  constructor
  · intro held
    cases item with
    | single cls rep =>
        obtain ⟨e, ends, same⟩ := List.mem_map.mp held
        cases same
        obtain ⟨n, le, allows, rfl⟩ := mem_ends.mp ends
        exact .single allows (le_run.mp le)
    | opens =>
        simp only [Item.ways] at held
        split at held
        next => cases List.mem_singleton.mp held
        next room =>
          cases List.mem_singleton.mp held
          exact .opens (Nat.not_le.mp room)
    | position =>
        simp only [Item.ways] at held
        split at held
        next => cases List.mem_singleton.mp held
        next room =>
          cases List.mem_singleton.mp held
          exact .position (Nat.not_le.mp room)
    | closes =>
        simp only [Item.ways] at held
        split at held
        next => cases List.mem_singleton.mp held
        next last =>
          cases List.mem_singleton.mp held
          exact .closes last
    | balance b e =>
        simp only [Item.ways] at held
        split at held
        next => cases held
        next begins =>
          split at held
          next closes =>
            cases List.mem_singleton.mp held
            exact .balance (not_not.mp begins) closes
          next => cases held
    | frontier cls =>
        rw [Item.ways, List.mem_ite_nil_right, Bool.and_eq_true, Bool.not_eq_true'] at held
        obtain ⟨⟨before, here⟩, held⟩ := held
        cases List.mem_singleton.mp held
        exact .frontier before here
    | back digit =>
        simp only [Item.ways] at held
        split at held
        next => cases List.mem_singleton.mp held
        next named =>
          split at held
          next same =>
            cases List.mem_singleton.mp held
            exact .back named same.1 same.2
          next => cases held
        next => cases held
    | subjectEnd =>
        simp only [Item.ways] at held
        split at held
        next last =>
          cases List.mem_singleton.mp held
          exact .subjectEnd last
        next => cases held
    | bad e => cases List.mem_singleton.mp held
  · intro matched
    cases matched with
    | single allows stands => exact List.mem_map.mpr ⟨_, mem_ends.mpr ⟨_, le_run.mpr stands, allows, rfl⟩, rfl⟩
    | opens room => simp [Item.ways, Nat.not_le.mpr room]
    | position room => simp [Item.ways, Nat.not_le.mpr room]
    | closes last => simp [Item.ways, last]
    | balance begins closes => simp [Item.ways, begins, closes]
    | frontier before here => simp [Item.ways, before, here]
    | back named long same => simp [Item.ways, named, long, same]
    | subjectEnd last => simp [Item.ways, last]

theorem mem_ways {items : List Item} {s e : Nat} {captures after : List Capture} :
    .ok (e, after) ∈ ways src items s captures ↔ Matches src items s captures e after := by
  induction items generalizing s captures with
  | nil =>
      rw [ways, List.mem_singleton]
      constructor
      · intro same
        cases same
        exact .nil
      · intro matched
        cases matched
        rfl
  | cons item items ih =>
      rw [ways, ok_mem_andThen]
      constructor
      · rintro ⟨m, between, one, rest⟩
        exact .cons (mem_itemWays.mp one) (ih.mp rest)
      · intro matched
        cases matched with
        | cons one rest => exact ⟨_, _, mem_itemWays.mpr one, ih.mpr rest⟩

end

end Budyk.Proof
