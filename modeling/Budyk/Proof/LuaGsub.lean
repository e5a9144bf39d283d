import Budyk.Proof.LuaStrings

/-! `gsub` replaces the matches that `gmatch` visits, and nothing else. -/

namespace Budyk.Proof
open Lib Rules Rules.LuaPattern Spec.LuaPattern

section
variable {src p : List UInt8}

/-- More than the visits there can be from `s` on, the error that ends them with them. -/
def room (src : List UInt8) (lastmatch : Option Nat) (s : Nat) : Nat :=
  if lastmatch = some s then src.length + 1 - s else src.length + 2 - s

theorem room_le (src : List UInt8) (lastmatch : Option Nat) (s : Nat) : room src lastmatch s ≤ src.length + 2 := by
  rw [room]
  split
  · omega
  · omega

theorem room_next {lastmatch : Option Nat} {s : Nat} {v : Visit} (next : nextVisit src p lastmatch s = some (.ok v)) :
    room src (some v.last) v.last < room src lastmatch s := by
  obtain ⟨behind, least, most, other⟩ := nextVisit_ok next
  rw [room, room, if_pos rfl]
  split
  next same =>
    have apart : s ≠ v.last := by
      rintro rfl
      exact other same.symm
    omega
  next => omega

theorem visitsFrom_enough {lastmatch : Option Nat} {s turns more : Nat} (enough : room src lastmatch s ≤ turns)
    (enough' : room src lastmatch s ≤ more) :
    visitsFrom src p turns lastmatch s = visitsFrom src p more lastmatch s := by
  have nothing (absent : room src lastmatch s = 0) : nextVisit src p lastmatch s = none := by
    rw [room] at absent
    split at absent
    · exact nextVisit_past (by omega)
    · exact nextVisit_past (by omega)
  induction turns generalizing lastmatch s more with
  | zero =>
      cases more with
      | zero => rfl
      | succ more => rw [visitsFrom, visitsFrom, nothing (Nat.le_zero.mp enough)]
  | succ turns ih =>
      cases more with
      | zero => rw [visitsFrom, visitsFrom, nothing (Nat.le_zero.mp enough')]
      | succ more =>
          rw [visitsFrom, visitsFrom]
          rcases visit : nextVisit src p lastmatch s with _ | e | v
          · rfl
          · rfl
          · have less := room_next visit
            have same : visitsFrom src p turns (some v.last) v.last = visitsFrom src p more (some v.last) v.last := by
              apply ih
              · omega
              · omega
              · intro absent
                rw [room, if_pos rfl] at absent
                exact nextVisit_past (by omega)
            dsimp only
            rw [same]

theorem visitsFrom_nothing {lastmatch : Option Nat} {s turns : Nat} (nothing : nextVisit src p lastmatch s = none) :
    visitsFrom src p turns lastmatch s = [] := by
  cases turns with
  | zero => rfl
  | succ turns => rw [visitsFrom, nothing]

theorem visitsFrom_head {lastmatch : Option Nat} {s turns n : Nat} {v : Visit}
    (head : ((visitsFrom src p turns lastmatch s).take n).head? = some (.ok v)) :
    nextVisit src p lastmatch s = some (.ok v) := by
  rw [List.head?_take] at head
  split at head
  · cases head
  cases turns with
  | zero => cases head
  | succ turns =>
      rw [visitsFrom] at head
      rcases visit : nextVisit src p lastmatch s with _ | e | v'
      · simp [visit] at head
      · simp [visit] at head
      · simpa [visit] using head

theorem spliced_skip {s : Nat} (within : s < src.length) {done : List (Visit × List UInt8)}
    (behind : ∀ d ∈ done.head?, s < d.1.first) : spliced src s done = byteAt src s :: spliced src (s + 1) done := by
  have here : src.drop s = byteAt src s :: src.drop (s + 1) := by
    rw [List.drop_eq_getElem_cons within, byteAt_eq within]
  cases done with
  | nil => exact here
  | cons d others =>
      have later : s < d.1.first := behind d rfl
      obtain ⟨v, text⟩ := d
      have more : v.first - s = v.first - (s + 1) + 1 := by
        dsimp only at later
        omega
      rw [spliced, spliced, slice, slice, here, more, List.take_succ_cons]
      rfl

theorem slice_append_drop {s m : Nat} (le : s ≤ m) : slice src s (m - s) ++ src.drop m = src.drop s := by
  have rest : src.drop m = (src.drop s).drop (m - s) := by rw [List.drop_drop, Nat.add_sub_cancel' le]
  rw [slice, rest, List.take_append_drop]

theorem inOrder_visitsFrom {turns n s : Nat} {lastmatch : Option Nat} {done : List Visit}
    (visited : (visitsFrom src p turns lastmatch s).take n = done.map Except.ok) : VisitsInOrder src lastmatch s done := by
  induction done generalizing s turns lastmatch n with
  | nil => trivial
  | cons v others ih =>
      have visit : nextVisit src p lastmatch s = some (.ok v) := by
        have head : ((visitsFrom src p turns lastmatch s).take n).head? = some (.ok v) := by
          rw [visited]
          rfl
        exact visitsFrom_head head
      refine ⟨nextVisit_ok visit, ?_⟩
      cases turns with
      | zero => simp [visitsFrom] at visited
      | succ turns =>
      cases n with
      | zero => simp at visited
      | succ n =>
      rw [visitsFrom, visit, List.take_succ_cons, List.map_cons] at visited
      exact ih (List.tail_eq_of_cons_eq visited)

theorem inOrder_length {lastmatch : Option Nat} {s : Nat} {done : List Visit} (order : VisitsInOrder src lastmatch s done)
    (within : s ≤ src.length) : done.length + s ≤ src.length + if lastmatch = some s then 0 else 1 := by
  induction done generalizing lastmatch s with
  | nil => exact Nat.le_trans (by simpa using within) (Nat.le_add_right _ _)
  | cons v others ih =>
      obtain ⟨⟨behind, least, most, other⟩, rest⟩ := order
      have few := ih rest most
      rw [if_pos rfl] at few
      rw [List.length_cons]
      split
      next same =>
        have apart : s ≠ v.last := by
          rintro rfl
          exact other same.symm
        omega
      next => omega

theorem spliced_same {s : Nat} {lastmatch : Option Nat} {done : List (Visit × List UInt8)}
    (order : VisitsInOrder src lastmatch s (done.map Prod.fst))
    (same : ∀ d ∈ done, d.2 = slice src d.1.first (d.1.last - d.1.first)) : spliced src s done = src.drop s := by
  induction done generalizing s lastmatch with
  | nil => rfl
  | cons d others ih =>
      obtain ⟨v, text⟩ := d
      obtain ⟨⟨behind, least, most, -⟩, rest⟩ := order
      have later := ih rest fun d member => same d (List.mem_cons_of_mem _ member)
      have sameText : text = slice src v.first (v.last - v.first) := same _ List.mem_cons_self
      rw [spliced, later, sameText, List.append_assoc, slice_append_drop least, slice_append_drop behind]

theorem gives_unchanged {repl : Replacement} {v : Visit} {text : List UInt8} (gives : Gives src v repl text false) :
    text = slice src v.first (v.last - v.first) := by
  have kept {answer : Answer} (replaces : answer.replaces src v.first v.last = .ok (text, false)) :
      text = slice src v.first (v.last - v.first) := by
    cases answer with
    | nothing =>
        cases replaces
        rfl
    | text bytes => cases replaces
    | other => cases replaces
  cases gives with
  | function pushed called replaces => exact kept replaces
  | table first called replaces => exact kept replaces

end

/-! ## The loop -/

section
variable {limits : Limits} {src p : List UInt8} {I J : MatchState → Prop} {E : MatchError → MatchState → Prop}

/-- The calls that a replacement makes keep `I`. -/
def CallsKeep (I : MatchState → Prop) (E : MatchError → MatchState → Prop) : Replacement → Prop
  | .text _ => True
  | .function call => ∀ arguments, Triple I (callLua (call arguments)) (fun _ => I) E
  | .table index => ∀ key, Triple I (callLua (index key)) (fun _ => I) E

theorem keeps_callLua {call : Call} (calls : Triple I (callLua call) (fun _ => I) E) :
    Triple I (callLua call) (fun answer ms => I ms ∧ ∃ engine after, call engine = (some answer, after)) (Clean E) := by
  intro ms held
  have keeps := calls ms held
  rw [callLua] at keeps ⊢
  cases called : call ms.engine with
  | mk answer engine =>
      rw [called] at keeps
      cases answer with
      | none => exact ⟨keeps, rfl⟩
      | some answer => exact ⟨keeps, _, _, called⟩

theorem replaces_error {answer : Answer} {s e : Nat} {e' : PatternError}
    (refused : answer.replaces src s e = .error e') : answer = .other ∧ e' = .invalidReplacementValue := by
  cases answer with
  | nothing => cases refused
  | text bytes => cases refused
  | other =>
      cases refused
      exact ⟨rfl, rfl⟩

theorem gives_answer (kept : KeepsSteps limits src p I E) {call : Call} (calls : Triple I (callLua call) (fun _ => I) E)
    (s e : Nat) :
    Triple I (do let answer ← callLua call; raising (answer.replaces src s e))
      (fun result ms => I ms ∧ ∃ engine after answer, call engine = (some answer, after) ∧
        answer.replaces src s e = .ok result)
      (fun d ms => E d ms ∧ ∀ e', d = .pattern e' →
        e' = .invalidReplacementValue ∧ ∃ engine after, call engine = (some .other, after)) := by
  apply Triple.bind (Q := fun answer ms => I ms ∧ ∃ engine after, call engine = (some answer, after))
  · intro ms held
    apply (keeps_callLua calls ms held).imp
    · exact fun _ _ holds => holds
    · rintro d ms' ⟨raised, clean⟩
      refine ⟨raised, ?_⟩
      rintro e' rfl
      cases clean
  · rintro answer ms ⟨held, engine, after, called⟩
    apply ends_raising
    · exact fun result replaces => ⟨held, engine, after, answer, called, replaces⟩
    · intro e' refused
      refine ⟨kept.pattern ms e' held, ?_⟩
      rintro _ ⟨⟩
      obtain ⟨rfl, named⟩ := replaces_error refused
      exact ⟨named, engine, after, called⟩

theorem gives_addValue (kept : KeepsSteps limits src p I E) {repl : Replacement} (calls : CallsKeep I E repl)
    (s e : Nat) (captures : List Capture) :
    Triple (fun ms => I ms ∧ ms.captures = captures) (addValue src repl s e)
      (fun result ms => I ms ∧ Gives src ⟨s, e, captures⟩ repl result.1 result.2)
      (fun d ms => E d ms ∧ ∀ e', d = .pattern e' → Refuses src ⟨s, e, captures⟩ repl e') := by
  apply Triple.get
  rintro ms ⟨held, rfl⟩
  have refuses {e' : PatternError} (refused : Refuses src ⟨s, e, ms.captures⟩ repl e') :
      E (.pattern e') ms ∧ ∀ e'', MatchError.pattern e' = .pattern e'' → Refuses src ⟨s, e, ms.captures⟩ repl e'' := by
    refine ⟨kept.pattern ms e' held, ?_⟩
    rintro _ ⟨⟩
    exact refused
  cases repl with
  | text news =>
      apply then_raising
      · exact fun text given => ⟨held, .text given⟩
      · exact fun e' refused => refuses (.text refused)
  | function call =>
      apply then_raising
      · intro arguments pushed
        apply (gives_answer kept (calls arguments) s e ms held).imp
        · rintro result ms' ⟨held', engine, after, answer, called, replaces⟩
          exact ⟨held', .function pushed called replaces⟩
        · rintro d ms' ⟨raised, names⟩
          refine ⟨raised, ?_⟩
          intro e' fatal
          obtain ⟨rfl, engine, after, called⟩ := names e' fatal
          exact .answered pushed called
      · exact fun e' refused => refuses (.arguments refused)
  | table index =>
      apply then_raising
      · intro key first
        apply (gives_answer kept (calls key) s e ms held).imp
        · rintro result ms' ⟨held', engine, after, answer, called, replaces⟩
          exact ⟨held', .table first called replaces⟩
        · rintro d ms' ⟨raised, names⟩
          refine ⟨raised, ?_⟩
          intro e' fatal
          obtain ⟨rfl, engine, after, called⟩ := names e' fatal
          exact .indexed first called
      · exact fun e' refused => refuses (.key refused)

/-- The loop came from `r` to `r'`: the first `n` of the visits are replaced. -/
def ReplacedTo (src : List UInt8) (repl : Replacement) (visits : List (Except PatternError Visit)) (n : Nat)
    (r r' : Substituted) : Prop :=
  ∃ done : List (Visit × List UInt8 × Bool), visits.take n = done.map (fun d => .ok d.1) ∧
    (∀ d ∈ done, Gives src d.1 repl d.2.1 d.2.2) ∧ r'.n = r.n + done.length ∧
    r'.b ++ src.drop r'.src = r.b ++ spliced src r.src (done.map fun d => (d.1, d.2.1)) ∧
    r'.changed = (r.changed || done.any fun d => d.2.2)

/-- One of the first `n` visits is an error, or `repl` has no text for it. -/
def StopsAt (src : List UInt8) (repl : Replacement) (visits : List (Except PatternError Visit)) (n : Nat)
    (e : PatternError) : Prop :=
  ∃ visit ∈ visits.take n, visit = .error e ∨ ∃ v, visit = .ok v ∧ Refuses src v repl e

section
variable {repl : Replacement} {found : List (Except PatternError Visit)} {n : Nat} {r r' : Substituted} {v : Visit}
  {text : List UInt8} {changed : Bool}

theorem replacedTo_nothing (absent : found.take n = []) : ReplacedTo src repl found n r r :=
  ⟨[], absent, List.forall_mem_nil _, rfl, rfl, (Bool.or_false _).symm⟩

theorem replacedTo_skip {lastmatch : Option Nat} {turns : Nat} (within : r.src < src.length)
    (nothing : nextVisit src p lastmatch r.src = nextVisit src p lastmatch (r.src + 1))
    (later : ReplacedTo src repl (visitsFrom src p turns lastmatch (r.src + 1)) n
      { r with src := r.src + 1, b := r.b ++ [byteAt src r.src] } r') :
    ReplacedTo src repl (visitsFrom src p turns lastmatch r.src) n r r' := by
  have same : visitsFrom src p turns lastmatch r.src = visitsFrom src p turns lastmatch (r.src + 1) := by
    cases turns with
    | zero => rfl
    | succ turns => rw [visitsFrom, visitsFrom, nothing]
  obtain ⟨done, visited, gives, number, texts, any⟩ := later
  rw [same]
  refine ⟨done, visited, gives, number, ?_, any⟩
  rw [texts, List.append_assoc, List.singleton_append, spliced_skip within]
  intro d head
  rw [List.head?_map, Option.mem_map] at head
  obtain ⟨d, head, rfl⟩ := head
  have first : ((visitsFrom src p turns lastmatch (r.src + 1)).take n).head? = some (.ok d.1) := by
    rw [visited, List.head?_map, head]
    rfl
  exact (nextVisit_ok (visitsFrom_head first)).1

theorem replacedTo_visit (begins : v.first = r.src) (gives : Gives src v repl text changed)
    (later : ReplacedTo src repl found n
      { src := v.last, n := r.n + 1, changed := changed || r.changed, b := r.b ++ text } r') :
    ReplacedTo src repl (.ok v :: found) (n + 1) r r' := by
  obtain ⟨done, visited, others, number, texts, any⟩ := later
  refine ⟨(v, text, changed) :: done, ?_, ?_, ?_, ?_, ?_⟩
  · rw [List.take_succ_cons, visited, List.map_cons]
  · intro d member
    rcases List.mem_cons.mp member with rfl | later
    · exact gives
    · exact others d later
  · rw [number, List.length_cons]
    dsimp only
    omega
  · rw [texts, List.map_cons, spliced, begins, Nat.sub_self]
    simp [slice]
  · rw [any, List.any_cons]
    cases changed <;> cases r.changed <;> rfl

end

/-- What is left of the loop, in turns. -/
def gsubMeasure (src : List UInt8) (lastmatch : Option Nat) (s : Nat) : Nat :=
  2 * (src.length - s) + if lastmatch = some s then 0 else 1

section
variable (kept : KeepsCall limits src p I J E) {repl : Replacement} (calls : CallsKeep I E repl) {maxS : Int}

abbrev LoopEnds (I : MatchState → Prop) (src p : List UInt8) (repl : Replacement) (maxS : Int) (m : Nat)
    (lastmatch : Option Nat) (r r' : Substituted) (ms : MatchState) : Prop :=
  I ms ∧ ReplacedTo src repl (visitsFrom src p m lastmatch r.src) (maxS - r.n).toNat r r'

abbrev LoopRaises (E : MatchError → MatchState → Prop) (src p : List UInt8) (repl : Replacement) (maxS : Int) (m : Nat)
    (lastmatch : Option Nat) (r : Substituted) (d : MatchError) (ms : MatchState) : Prop :=
  E d ms ∧ ∀ e, d = .pattern e → StopsAt src repl (visitsFrom src p m lastmatch r.src) (maxS - r.n).toNat e

theorem replaces_skip {m : Nat} {lastmatch : Option Nat} {r : Substituted} (within : r.src ≤ src.length)
    (nothing : nextVisit src p lastmatch r.src = nextVisit src p lastmatch (r.src + 1)) {next : Matching Substituted}
    (goes : ∀ r₁ : Substituted, r₁ = { r with src := r.src + 1, b := r.b ++ [byteAt src r.src] } → r.src < src.length →
      Triple I next (LoopEnds I src p repl maxS m lastmatch r₁) (LoopRaises E src p repl maxS m lastmatch r₁)) :
    Triple I (if r.src < src.length then next else pure r) (LoopEnds I src p repl maxS m lastmatch r)
      (LoopRaises E src p repl maxS m lastmatch r) := by
  apply Triple.ite
  · intro inside ms held
    apply (goes _ rfl inside ms held).imp
    · rintro r' ms' ⟨held', later⟩
      exact ⟨held', replacedTo_skip inside nothing later⟩
    · rintro d ms' ⟨raised, stops⟩
      refine ⟨raised, ?_⟩
      intro e fatal
      obtain ⟨visit, member, why⟩ := stops e fatal
      refine ⟨visit, ?_, why⟩
      cases m with
      | zero => exact member
      | succ m =>
          rw [visitsFrom, nothing]
          exact member
  · intro last ms held
    refine ⟨held, replacedTo_nothing ?_⟩
    have absent : nextVisit src p lastmatch r.src = none := by
      rw [nothing]
      exact nextVisit_past (by omega)
    rw [visitsFrom_nothing absent, List.take_nil]

include kept calls

theorem replaces_gsubFrom (maxS : Int) {turns m : Nat} {lastmatch : Option Nat} {r : Substituted}
    (enough : gsubMeasure src lastmatch r.src < turns) (more : room src lastmatch r.src ≤ m) (within : r.src ≤ src.length) :
    Triple I (gsubFrom limits src p repl maxS false turns lastmatch r) (LoopEnds I src p repl maxS m lastmatch r)
      (LoopRaises E src p repl maxS m lastmatch r) := by
  induction turns generalizing m lastmatch r with
  | zero => omega
  | succ turns ih =>
      rw [gsubFrom]
      dsimp only
      by_cases opened : r.n < maxS
      swap
      · rw [if_neg opened]
        intro ms held
        refine ⟨held, replacedTo_nothing ?_⟩
        rw [Int.toNat_of_nonpos (by omega), List.take_zero]
      rw [if_pos opened]
      have step := nextVisit_step src p lastmatch within
      have present : 0 < room src lastmatch r.src := by
        rw [room]
        split
        · omega
        · omega
      apply visits_again kept within
      · rintro d ms ⟨raised, names⟩
        refine ⟨raised, ?_⟩
        intro e same
        refine ⟨.error e, ?_, .inl rfl⟩
        obtain ⟨m', rfl⟩ : ∃ m', m = m' + 1 := ⟨m - 1, by omega⟩
        obtain ⟨budget, left⟩ : ∃ budget, (maxS - r.n).toNat = budget + 1 := ⟨(maxS - r.n).toNat - 1, by omega⟩
        rw [names e same] at step
        rw [visitsFrom, step, left]
        exact List.mem_cons_self
      rintro answer ms ⟨held, found⟩
      have skip (nothing : (matchAt src p r.src).filter (isVisit lastmatch) = none) :
          Triple I
            (if r.src < src.length then
              gsubFrom limits src p repl maxS false turns lastmatch
                { r with src := r.src + 1, b := r.b ++ [byteAt src r.src] }
            else pure r) (LoopEnds I src p repl maxS m lastmatch r) (LoopRaises E src p repl maxS m lastmatch r) := by
        rw [nothing, Option.none_or] at step
        apply replaces_skip within step
        rintro _ rfl inside
        apply ih
        · rw [gsubMeasure] at enough ⊢
          dsimp only
          split
          · omega
          · omega
        · rw [room] at more ⊢
          dsimp only
          split at more
          · split
            · omega
            · omega
          · split
            · omega
            · omega
        · exact inside
      cases answer with
      | none =>
          refine skip ?_ ms held
          rw [found]
          rfl
      | some e =>
          dsimp only
          by_cases again : some e = lastmatch
          · rw [if_pos again]
            refine skip ?_ ms held
            rw [found, Option.map_some, Option.filter_some, isVisit, decide_eq_false (not_not.mpr again)]
            rfl
          rw [if_neg again]
          rw [found, Option.map_some, Option.filter_some, isVisit, decide_eq_true again, if_pos rfl, Option.some_or] at step
          obtain ⟨m', rfl⟩ : ∃ m', m = m' + 1 := ⟨m - 1, by omega⟩
          obtain ⟨budget, left⟩ : ∃ budget, (maxS - r.n).toNat = budget + 1 := ⟨(maxS - r.n).toNat - 1, by omega⟩
          have ahead : visitsFrom src p (m' + 1) lastmatch r.src =
              .ok ⟨r.src, e, ms.captures⟩ :: visitsFrom src p m' (some e) e := by rw [visitsFrom, step]
          have less := room_next step
          obtain ⟨-, least, most, -⟩ := nextVisit_ok step
          dsimp only at less least most
          refine Triple.bind (P := fun ms' => I ms' ∧ ms'.captures = ms.captures)
            (Q := fun result ms' => I ms' ∧ Gives src ⟨r.src, e, ms.captures⟩ repl result.1 result.2) ?_ ?_ ms ⟨held, rfl⟩
          · intro ms' held'
            apply (gives_addValue kept.toKeepsSteps calls r.src e ms.captures ms' held').imp
            · exact fun _ _ holds => holds
            · rintro d ms'' ⟨raised, refuses⟩
              refine ⟨raised, ?_⟩
              intro e' fatal
              rw [ahead, left]
              exact ⟨_, List.mem_cons_self, .inr ⟨_, rfl, refuses e' fatal⟩⟩
          · rintro ⟨text, changed⟩ ms' ⟨held', gives⟩
            have budgeted : (maxS - ((r.n + 1 : Nat) : Int)).toNat = budget := by omega
            rw [if_neg Bool.false_ne_true]
            have later : Triple I
                (gsubFrom limits src p repl maxS false turns (some e) ⟨e, r.n + 1, changed || r.changed, r.b ++ text⟩)
                (LoopEnds I src p repl maxS m' (some e) ⟨e, r.n + 1, changed || r.changed, r.b ++ text⟩)
                (LoopRaises E src p repl maxS m' (some e) ⟨e, r.n + 1, changed || r.changed, r.b ++ text⟩) := by
              refine ih ?_ ?_ most
              · rw [gsubMeasure] at enough ⊢
                dsimp only
                rw [if_pos rfl]
                split at enough
                next same =>
                  have apart : r.src ≠ e := by
                    rintro rfl
                    exact again same.symm
                  omega
                next => omega
              · dsimp only
                omega
            apply (later ms' held').imp
            · rintro r' ms'' ⟨held'', replaced⟩
              refine ⟨held'', ?_⟩
              rw [ahead, left]
              rw [budgeted] at replaced
              exact replacedTo_visit rfl gives replaced
            · rintro d ms'' ⟨raised, stops⟩
              refine ⟨raised, ?_⟩
              intro e' fatal
              obtain ⟨visit, member, why⟩ := stops e' fatal
              rw [budgeted] at member
              refine ⟨visit, ?_, why⟩
              rw [ahead, left, List.take_succ_cons]
              exact List.mem_cons_of_mem _ member

theorem replaces_anchored (maxS : Int) (turns : Nat) {r : Substituted} (begins : r.src = 0) :
    Triple I (gsubFrom limits src p repl maxS true (turns + 1) none r)
      (fun r' ms => I ms ∧ ReplacedTo src repl (matchAt src p 0).toList (maxS - r.n).toNat r r')
      (fun d ms => E d ms ∧ ∀ e, d = .pattern e →
        StopsAt src repl (matchAt src p 0).toList (maxS - r.n).toNat e) := by
  rw [gsubFrom]
  dsimp only
  by_cases opened : r.n < maxS
  swap
  · rw [if_neg opened]
    intro ms held
    refine ⟨held, replacedTo_nothing ?_⟩
    rw [Int.toNat_of_nonpos (by omega), List.take_zero]
  rw [if_pos opened, begins]
  obtain ⟨budget, left⟩ : ∃ budget, (maxS - r.n).toNat = budget + 1 := ⟨(maxS - r.n).toNat - 1, by omega⟩
  apply visits_again kept (Nat.zero_le _)
  · rintro d ms ⟨raised, names⟩
    refine ⟨raised, ?_⟩
    intro e same
    refine ⟨.error e, ?_, .inl rfl⟩
    rw [names e same, left]
    exact List.mem_cons_self
  rintro answer ms ⟨held, found⟩
  cases answer with
  | none =>
      dsimp only
      have nothing : (matchAt src p 0).toList = [] := by
        rw [found]
        rfl
      rw [nothing]
      by_cases more : 0 < src.length
      · rw [if_pos more, if_pos rfl]
        refine ⟨held, [], List.take_nil, List.forall_mem_nil _, rfl, ?_, (Bool.or_false _).symm⟩
        dsimp only
        rw [begins, List.append_assoc, List.singleton_append, List.map_nil, spliced, byteAt_eq more,
          ← List.drop_eq_getElem_cons more]
      · rw [if_neg more]
        exact ⟨held, replacedTo_nothing List.take_nil⟩
  | some e =>
      dsimp only
      have visit : (matchAt src p 0).toList = [.ok ⟨0, e, ms.captures⟩] := by
        rw [found]
        rfl
      rw [if_neg (Option.some_ne_none e), visit, left]
      refine Triple.bind (P := fun ms' => I ms' ∧ ms'.captures = ms.captures)
        (Q := fun result ms' => I ms' ∧ Gives src ⟨0, e, ms.captures⟩ repl result.1 result.2) ?_ ?_ ms ⟨held, rfl⟩
      · intro ms' held'
        apply (gives_addValue kept.toKeepsSteps calls 0 e ms.captures ms' held').imp
        · exact fun _ _ holds => holds
        · rintro d ms'' ⟨raised, refuses⟩
          refine ⟨raised, ?_⟩
          intro e' fatal
          exact ⟨_, List.mem_cons_self, .inr ⟨_, rfl, refuses e' fatal⟩⟩
      · rintro ⟨text, changed⟩ ms' ⟨held', gives⟩
        rw [if_pos rfl]
        exact ⟨held', replacedTo_visit begins.symm gives (replacedTo_nothing List.take_nil)⟩

omit kept calls in
theorem inOrder_replaced {n : Nat} {done : List Visit} (visited : (replaced src p).take n = done.map Except.ok) :
    VisitsInOrder src none 0 done := by
  rw [replaced] at visited
  split at visited
  · cases done with
    | nil => trivial
    | cons v others =>
        have first : ((matchAt src p.tail 0).toList.take n).head? = some (.ok v) := by
          rw [visited]
          rfl
        have few : ((matchAt src p.tail 0).toList.take n).length ≤ 1 := by
          rw [List.length_take]
          apply Nat.le_trans (Nat.min_le_right _ _)
          cases matchAt src p.tail 0 with
          | none => exact Nat.zero_le _
          | some visit => exact Nat.le_refl _
        rw [visited, List.length_map, List.length_cons] at few
        obtain rfl : others = [] := List.length_eq_zero_iff.mp (by omega)
        rw [List.head?_take] at first
        split at first
        · cases first
        have found : matchAt src p.tail 0 = some (.ok v) := by
          rw [← first]
          cases matchAt src p.tail 0 with
          | none => rfl
          | some visit => rfl
        obtain ⟨begins, -, most⟩ := matchAt_bounds (Nat.zero_le _) found
        refine ⟨⟨Nat.zero_le _, ?_, most, Option.some_ne_none _⟩, trivial⟩
        rw [begins]
        exact Nat.zero_le _
  · exact inOrder_visitsFrom visited

omit kept calls in
theorem inOrder_done {n : Nat} {done : List (Visit × List UInt8 × Bool)}
    (visited : (replaced src p).take n = done.map fun d => .ok d.1) : VisitsInOrder src none 0 (done.map Prod.fst) := by
  apply inOrder_replaced (n := n)
  rw [visited, List.map_map]
  rfl

omit kept calls in
theorem spliced_unchanged {done : List (Visit × List UInt8 × Bool)} (order : VisitsInOrder src none 0 (done.map Prod.fst))
    (unchanged : ∀ d ∈ done, d.2.1 = slice src d.1.first (d.1.last - d.1.first)) :
    spliced src 0 (done.map fun d => (d.1, d.2.1)) = src := by
  have there : VisitsInOrder src none 0 ((done.map fun d => (d.1, d.2.1)).map Prod.fst) := by
    rw [List.map_map]
    exact order
  rw [spliced_same there, List.drop_zero]
  intro _ member
  obtain ⟨d, held, rfl⟩ := List.mem_map.mp member
  exact unchanged d held

/-- `gsub` gives the subject with the first `maxS` of the matches replaced, and their number. -/
theorem replaces_strGsub (max_ : Option Int) :
    Triple J (strGsub limits src p repl max_)
      (fun result ms => J ms ∧ ∃ done : List (Visit × List UInt8 × Bool),
        (replaced src p).take (max_.getD (src.length + 1)).toNat = done.map (fun d => .ok d.1) ∧
        (∀ d ∈ done, Gives src d.1 repl d.2.1 d.2.2) ∧
        result = (spliced src 0 (done.map fun d => (d.1, d.2.1)), done.length))
      (fun d ms => E d ms ∧ ∀ e, d = .pattern e →
        StopsAt src repl (replaced src p) (max_.getD (src.length + 1)).toNat e) := by
  rw [strGsub]
  apply Triple.bind (Q := fun r' ms => I ms ∧
    ReplacedTo src repl (replaced src p) (max_.getD (src.length + 1)).toNat ⟨0, 0, false, []⟩ r')
  · intro ms held
    have loop : (max_.getD (src.length + 1) - ((0 : Nat) : Int)).toNat = (max_.getD (src.length + 1)).toNat := by simp
    by_cases anchored : p.head? = some caret
    · have ends := replaces_anchored (keepsCall_tail kept) calls (max_.getD (src.length + 1)) (2 * src.length + 1)
        (rfl : (⟨0, 0, false, []⟩ : Substituted).src = 0) ms (kept.idle ms held)
      rw [loop] at ends
      rw [if_pos anchored, decide_eq_true anchored, replaced, if_pos anchored]
      exact ends
    · have enough : gsubMeasure src none (⟨0, 0, false, []⟩ : Substituted).src < 2 * src.length + 2 := by
        simp [gsubMeasure]
      have most := room_le src none (⟨0, 0, false, []⟩ : Substituted).src
      have ends := replaces_gsubFrom kept calls (max_.getD (src.length + 1)) enough most (Nat.zero_le _) ms
        (kept.idle ms held)
      unfold LoopEnds LoopRaises at ends
      rw [loop] at ends
      rw [if_neg anchored, decide_eq_false anchored, replaced, if_neg anchored, visits]
      exact ends
  · rintro r ms ⟨held, done, visited, gives, number, texts, any⟩
    apply then_flush kept held
    · rintro d ms' ⟨raised, clean⟩
      refine ⟨raised, ?_⟩
      rintro e rfl
      cases clean
    intro ms' held' _
    refine ⟨held', done, visited, gives, ?_⟩
    rw [Nat.zero_add] at number
    rw [List.nil_append] at texts
    rw [number, texts]
    split
    · rfl
    next same =>
      rw [spliced_unchanged (inOrder_done visited)]
      intro d member
      have unchanged : d.2.2 = false := by
        cases change : d.2.2 with
        | false => rfl
        | true =>
            exfalso
            apply same
            rw [any, Bool.false_or, List.any_eq_true]
            exact ⟨d, member, change⟩
      have given := gives d member
      rw [unchanged] at given
      exact gives_unchanged given

end

end

end Budyk.Proof
