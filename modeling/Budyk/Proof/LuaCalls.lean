import Budyk.Proof.LuaGsub

/-! The string functions from a rule's side: what a call gives, what it is charged, and how the calls agree. -/

namespace Budyk.Proof
open Lib Rules Rules.LuaPattern Spec.LuaPattern

section
variable {limits : Limits} {src p : List UInt8} {start : MatchState}

theorem keepsCall_inDepth (limits : Limits) (src p : List UInt8) (calls : Prop) :
    KeepsCall limits src p (fun _ => True) (fun _ => True) (fun d _ => InDepth p calls d) where
  toKeepsSteps := keepsSteps_inDepth calls
  complex := by
    rcases Nat.lt_or_ge p.length kMaxCCalls with few | many
    · exact .inl few
    · exact .inr fun _ _ => many
  flushes := by
    intro ms _
    rw [countFlush]
    split
    · exact inDepth_charge calls _ _
    · trivial
  idle := fun _ _ => trivial

theorem keepsCall_metered (limits : Limits) (start : MatchState) (fit : src.length + p.length < Ledger.addressSpace) :
    KeepsCall limits src p (Metered limits start) (Flushed limits start) (OnError limits start) where
  toKeepsSteps := keepsSteps_metered fit
  complex := .inr fun _ held => held
  flushes := flushed_flush
  idle := fun ms held => ⟨held.grows, by rw [held.nothing, Nat.add_zero, held.sum], by rw [held.nothing]; decide, held.fits,
    held.others⟩

theorem callsKeep_true {repl : Replacement} : CallsKeep (fun _ => True) (fun d _ => InDepth p True d) repl := by
  have calls (call : Call) : Triple (fun _ => True) (callLua call) (fun _ _ => True) fun d _ => InDepth p True d := by
    intro ms _
    rw [callLua]
    cases called : call ms.engine with
    | mk answer engine =>
        cases answer with
        | none => trivial
        | some answer => trivial
  cases repl with
  | text news => trivial
  | function call => exact fun arguments => calls _
  | table index => exact fun key => calls _

end

/-! ## What a call gives -/

/-- The matcher finds the first of the ways through its pattern, and a match when there is one. -/
theorem doMatch_finds_first (limits : Limits) (src p : List UInt8) {s : Nat} (within : s ≤ src.length)
    (ms : MatchState) :
    Concludes
      (fun answer ms' =>
        (ways src (items p) s []).head? = answer.map (fun e => .ok (e, ms'.captures)) ∧
        (∀ e, answer = some e → Matches src (items p) s [] e ms'.captures) ∧
        (answer = none → ms'.captures = [] ∧ ∀ e captures, ¬Matches src (items p) s [] e captures))
      (fun d _ => InDepth p False d ∧ ∀ e, d = .pattern e → (ways src (items p) s []).head? = some (.error e))
      (doMatch limits src s p { ms with captures := [] }) := by
  have deep := visits_doMatch (keepsCall_inDepth limits src p False) within { ms with captures := [] } ⟨trivial, rfl⟩
  have finds := findsWays_matchFrom limits src (p.length + 1) (kMaxCCalls - 1) s p
    { ms with captures := [] }
  rw [doMatch] at deep ⊢
  cases result : matchFrom limits src (p.length + 1) (kMaxCCalls - 1) s p { ms with captures := [] } with
  | error d ms' =>
      rw [result] at deep finds
      refine ⟨deep.1, ?_⟩
      rintro e rfl
      exact finds e rfl
  | ok answer ms' =>
      rw [result] at finds
      cases answer with
      | none =>
          obtain ⟨nothing, same⟩ := finds
          refine ⟨?_, ?_, fun _ => ⟨same, ?_⟩⟩
          · rw [items, nothing]
            rfl
          · intro e found
            cases found
          · intro e captures matched
            have mem := mem_ways.mpr matched
            rw [items, nothing] at mem
            cases mem
      | some e =>
          refine ⟨finds, ?_, fun absent => absurd absent (Option.some_ne_none e)⟩
          intro e' same
          cases same
          exact mem_ways.mp (List.mem_of_mem_head? finds)

def begun : MatchState := prepstate ⟨10, 0, 0, 1000⟩

section Runs
-- A run is evaluated once, by the kernel, and stands for itself from there on.
attribute [local irreducible] Concludes

theorem doMatch_finds_first_pair :
    (ways (text "key = 12;") (items (text "(%a+) *= *(%d+)")) 0 []).head? =
      some (.ok (8, [⟨0, .length 3⟩, ⟨6, .length 2⟩])) := by
  obtain ⟨after, run, captures⟩ : ∃ after, doMatch ⟨1000, 1000⟩ (text "key = 12;") 0 (text "(%a+) *= *(%d+)")
      { begun with captures := [] } = .ok (some 8) after ∧ after.captures = [⟨0, .length 3⟩, ⟨6, .length 2⟩] :=
    exists_ok (by decide +kernel) (by decide +kernel)
  have finds := doMatch_finds_first ⟨1000, 1000⟩ (text "key = 12;") (text "(%a+) *= *(%d+)") (Nat.zero_le _) begun
  rw [run] at finds
  have first := (concludes_ok.mp finds).1
  rw [captures] at first
  exact first

end Runs

/-- `find` and `match` give the first match from `init` on, and `find` of a plain text its first occurrence. -/
theorem strFindAux_finds_first (limits : Limits) (src p : List UInt8) (find plain : Bool) (init : Int)
    (ms : MatchState) :
    Concludes (fun result _ => strFound src p find init plain = .ok result)
      (fun d _ => InDepth p False d ∧ ∀ e, d = .pattern e → strFound src p find init plain = .error e)
      (strFindAux limits src find p init plain ms) := by
  apply (finds_strFindAux (keepsCall_inDepth limits src p False) find plain init ms trivial).imp
  · exact fun _ _ holds => holds.2
  · exact fun _ _ raised => raised

theorem visits_gmatchInit (src p : List UInt8) (init : Int) (more : Nat) :
    visitsFrom src p (src.length + 2 + more) (gmatchInit src init).lastmatch (gmatchInit src init).src =
      visits src p (gmatchInit src init).src := by
  have most := room_le src (gmatchInit src init).lastmatch (gmatchInit src init).src
  exact visitsFrom_enough (by omega) most

/-- A loop over `gmatch` is given each match from `init` on, left to right, and ends after `src.length + 2` calls. -/
theorem gmatch_visits_each (limits : Limits) (src p : List UInt8) (init : Int) (more : Nat) (ms : MatchState) :
    Concludes (fun answers _ => iterated src (visits src p (gmatchInit src init).src) = .ok answers)
      (fun d _ => InDepth p False d ∧
        ∀ e, d = .pattern e → iterated src (visits src p (gmatchInit src init).src) = .error e)
      (gmatchLoop limits src p (src.length + 2 + more) (gmatchInit src init) ms) := by
  rw [← visits_gmatchInit src p init more]
  apply (visits_gmatchLoop (keepsCall_inDepth limits src p False) _ _ ms trivial).imp
  · exact fun _ _ holds => holds.2
  · exact fun _ _ raised => raised

def spelled (key : Pushed) : Call := fun engine =>
  (some (if key = .text (text "1") then .text (text "one") else .other), engine)

section Runs
attribute [local irreducible] Concludes

end Runs

theorem iterated_ok {src : List UInt8} {found : List (Except PatternError Visit)} {answers : List (List Pushed)}
    (all : iterated src found = .ok answers) :
    ∃ vs : List Visit, found = vs.map Except.ok ∧ vs.length = answers.length := by
  induction found generalizing answers with
  | nil =>
      cases all
      exact ⟨[], rfl, rfl⟩
  | cons visit found ih =>
      rw [iterated, List.mapM_cons, ← iterated] at all
      cases values : visit >>= matchValues src false with
      | error e =>
          rw [values] at all
          cases all
      | ok yielded =>
      cases rest : iterated src found with
      | error e =>
          rw [values, rest] at all
          cases all
      | ok others =>
          rw [values, rest] at all
          cases all
          obtain ⟨vs, rfl, same⟩ := ih rest
          cases visit with
          | error e => cases values
          | ok v => exact ⟨v :: vs, rfl, by rw [List.length_cons, List.length_cons, same]⟩

theorem gives_itself {src : List UInt8} {v : Visit} {text : List UInt8} {changed : Bool}
    (gives : Gives src v (.text [escape, 48]) text changed) : text = slice src v.first (v.last - v.first) := by
  cases gives with
  | text added =>
      have same : addS src v.captures v.first v.last [escape, 48] =
        .ok (slice src v.first (v.last - v.first) ++ []) := rfl
      rw [same, List.append_nil] at added
      exact (Except.ok.inj added).symm

/-- Replacing every match by itself gives the subject back, and counts the matches that a loop over `gmatch` is
given. -/
theorem gsub_itself {limits : Limits} {src p : List UInt8} (unanchored : p.head? ≠ some caret)
    {ms ms' after after' : MatchState} {text : List UInt8} {n : Nat} {answers : List (List Pushed)}
    (replaced : strGsub limits src p (.text [escape, 48]) none ms = .ok (text, n) after)
    (iterated : gmatchLoop limits src p (src.length + 2) (gmatchInit src 1) ms' = .ok answers after') :
    text = src ∧ n = answers.length ∧ n ≤ src.length + 1 := by
  have substituted := replaces_strGsub (keepsCall_inDepth limits src p True)
    (callsKeep_true : CallsKeep _ _ (.text [escape, 48])) none ms trivial
  have visited := visits_gmatchLoop (keepsCall_inDepth limits src p False) (src.length + 2) (gmatchInit src 1) ms'
    trivial
  rw [replaced] at substituted
  rw [iterated, ← Nat.add_zero (src.length + 2), visits_gmatchInit] at visited
  obtain ⟨-, done, taken, gives, same⟩ := substituted
  have order := inOrder_done taken
  have first : (gmatchInit src 1).src = 0 := by simp [gmatchInit, posrelatI]
  obtain ⟨vs, all, length⟩ := iterated_ok visited.2
  rw [first] at all
  have vsOrder : VisitsInOrder src none 0 vs := by
    apply inOrder_visitsFrom (n := vs.length)
    rw [← visits, all, List.take_of_length_le (by simp)]
  have few := inOrder_length vsOrder (Nat.zero_le _)
  rw [if_neg (Option.some_ne_none 0).symm, Nat.add_zero] at few
  have budget : ((none : Option Int).getD (src.length + 1)).toNat = src.length + 1 := by
    rw [Option.getD_none]
    omega
  rw [Spec.LuaPattern.replaced, if_neg unanchored, all, budget,
    List.take_of_length_le (by rwa [List.length_map])] at taken
  have number : done.length = vs.length := by
    have lengths := congrArg List.length taken
    rw [List.length_map, List.length_map] at lengths
    exact lengths.symm
  cases same
  exact ⟨spliced_unchanged order fun d member => gives_itself (gives d member), by omega, by omega⟩

theorem gsub_itself_numbers :
    ∃ after after', strGsub ⟨1000, 1000⟩ (text "a1 b22") (text "%d+") (.text [escape, 48]) none begun =
        .ok (text "a1 b22", 2) after ∧
      gmatchLoop ⟨1000, 1000⟩ (text "a1 b22") (text "%d+") 8 (gmatchInit (text "a1 b22") 1) begun =
        .ok [[.text (text "1")], [.text (text "22")]] after' ∧
      2 = ([[.text (text "1")], [.text (text "22")]] : List (List Pushed)).length := by
  obtain ⟨after, replaced, -⟩ : ∃ after, strGsub ⟨1000, 1000⟩ (text "a1 b22") (text "%d+") (.text [escape, 48]) none
      begun = .ok (text "a1 b22", 2) after ∧ True := exists_ok (by decide +kernel) trivial
  obtain ⟨after', iterated, -⟩ : ∃ after', gmatchLoop ⟨1000, 1000⟩ (text "a1 b22") (text "%d+") 8
      (gmatchInit (text "a1 b22") 1) begun = .ok [[.text (text "1")], [.text (text "22")]] after' ∧ True :=
    exists_ok (by decide +kernel) trivial
  exact ⟨after, after', replaced, iterated, (gsub_itself (by decide) replaced iterated).2.1⟩

/-! ## What a call is charged -/

/-- A call that returns has every one of its steps charged, within the limit; one that is stopped at the limit took more
than was left; and nothing else of the engine is touched. -/
theorem pattern_calls_charged (limits : Limits) {src p : List UInt8} (fit : src.length + p.length < Ledger.addressSpace)
    {start : MatchState} (flushed : start.steps = 0) :
    (∀ find plain init,
      Concludes (fun _ => Flushed limits start) (OnError limits start) (strFindAux limits src find p init plain start)) ∧
    (∀ gm, Concludes (fun _ => Flushed limits start) (OnError limits start) (gmatchAux limits src p gm start)) ∧
    ∀ news maxS,
      Concludes (fun _ => Flushed limits start) (OnError limits start) (strGsub limits src p (.text news) maxS start) := by
  have kept := keepsCall_metered limits start fit
  have here : Flushed limits start start :=
    ⟨Nat.le_refl _, by rw [flushed, Nat.add_zero], flushed, id, rfl⟩
  refine ⟨?_, ?_, ?_⟩
  · intro find plain init
    exact (finds_strFindAux kept find plain init start here).left
  · intro gm
    exact (visits_gmatchAux kept gm start here).left
  · intro news maxS
    have calls : CallsKeep (Metered limits start) (OnError limits start) (.text news) := trivial
    exact (replaces_strGsub kept calls maxS start here).left

section Runs
attribute [local irreducible] Concludes

/-- `match` returns within the limit, and the same call is stopped at a lower one. -/
theorem pattern_calls_charged_pair :
    (∃ after, strFindAux ⟨1000, 1000⟩ (text "key = 12;") false (text "(%a+) *= *(%d+)") 1 false begun =
      .ok (some [.text (text "key"), .text (text "12")]) after ∧ Flushed ⟨1000, 1000⟩ begun after) ∧
    ∃ after, strFindAux ⟨20, 1000⟩ (text "key = 12;") false (text "(%a+) *= *(%d+)") 1 false begun =
      .error .limit after ∧ Overrun ⟨20, 1000⟩ begun after := by
  have fit : (text "key = 12;").length + (text "(%a+) *= *(%d+)").length < Ledger.addressSpace := by decide
  have flushed : begun.steps = 0 := rfl
  constructor
  · obtain ⟨after, run, -⟩ : ∃ after, strFindAux ⟨1000, 1000⟩ (text "key = 12;") false (text "(%a+) *= *(%d+)") 1 false
        begun = .ok (some [.text (text "key"), .text (text "12")]) after ∧ True := exists_ok (by decide +kernel) trivial
    have charged := (pattern_calls_charged ⟨1000, 1000⟩ fit flushed).1 false false 1
    rw [run] at charged
    have within := concludes_ok.mp charged
    exact ⟨after, run, within⟩
  · obtain ⟨after, run, -⟩ : ∃ after, strFindAux ⟨20, 1000⟩ (text "key = 12;") false (text "(%a+) *= *(%d+)") 1 false
        begun = .error .limit after ∧ True := exists_error (by decide +kernel) trivial
    have stopped := (pattern_calls_charged ⟨20, 1000⟩ fit flushed).1 false false 1
    rw [run] at stopped
    have beyond := concludes_error.mp stopped
    exact ⟨after, run, beyond⟩

end Runs

end Budyk.Proof
