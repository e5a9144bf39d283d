import Budyk.Proof.RuleFiring
import Budyk.Rules.State
import Budyk.Rules.Watch

namespace Budyk.Proof
open Lib Rules Spec

/-- The rules of a file loaded anew, with the counters kept of `rules`. -/
def restored (added : List NewRule) (rules : List LuaRule) : List LuaRule :=
  loadState (added.map NewRule.rule) (saveState rules none none).2

/-- The rule's line is read back whole, under the name it has. -/
structure LineRestores (r : LuaRule) : Prop where
  named : r.name ≠ []
  ending : r.name.getLast? ≠ some carriageReturn
  fits : (stateLine r).length ≤ 1023

/-! What `watch` registers. -/

structure Registered (args : NewRule) : Prop where
  noNul : 0 ∉ args.name
  forTicks : 1 ≤ args.forTicks ∧ args.forTicks ≤ 1000000
  cooldownTicks : 0 ≤ args.cooldownTicks ∧ args.cooldownTicks ≤ 1000000

theorem cString_noNul (bytes : List UInt8) : 0 ∉ cString bytes := by
  intro held
  simpa using List.mem_takeWhile_imp held

theorem cString_eq {bytes : List UInt8} (noNul : 0 ∉ bytes) : cString bytes = bytes := by
  rw [cString, List.takeWhile_eq_self_iff]
  intro b held
  simpa using ne_of_mem_of_not_mem held noNul

theorem optCountField_bounds {value : LuaValue} {lo hi fallback v : Int} (accepted : optCountField value lo hi fallback = some v)
    (within : lo ≤ fallback ∧ fallback ≤ hi) : lo ≤ v ∧ v ≤ hi := by
  unfold optCountField at accepted
  split at accepted
  · cases accepted
    exact within
  · split at accepted
    · split at accepted
      next bounds =>
        cases accepted
        exact bounds
      next => cases accepted
    · cases accepted

theorem watch_ok {rules : List LuaRule} {call : WatchCall} {args : NewRule} (accepted : watch true rules call = .ok args) :
    Registered args ∧ ∀ r ∈ rules, r.name ≠ args.name := by
  unfold watch at accepted
  simp only [WatchCall.refuse, not_true, if_false] at accepted
  split at accepted
  · cases accepted
  next distinct =>
    split at accepted
    · cases accepted
    · split at accepted
      · cases accepted
      · cases accepted
      · cases accepted
      · split at accepted
        · cases accepted
        next given first =>
          have bounds := optCountField_bounds first ⟨by decide, by decide⟩
          split at accepted
          · cases accepted
          next cooldown second =>
            cases accepted
            have forTicks : 1 ≤ (if given = 0 then 1 else given) ∧ (if given = 0 then 1 else given) ≤ 1000000 := by
              split <;> omega
            have bounds' := optCountField_bounds second ⟨by omega, forTicks.2⟩
            refine ⟨⟨cString_noNul _, forTicks, bounds'⟩, ?_⟩
            intro r held same
            exact distinct (List.any_eq_true.mpr ⟨r, held, by simpa using same⟩)

theorem registered_ok (calls : List WatchCall) :
    (∀ args ∈ registered calls, Registered args) ∧ ((registered calls).map NewRule.name).Nodup := by
  induction calls using List.reverseRecOn with
  | nil => exact ⟨fun args held => absurd held List.not_mem_nil, List.nodup_nil⟩
  | append_singleton calls call ih =>
      unfold registered at ih ⊢
      rw [List.foldl_append, List.foldl_cons, List.foldl_nil]
      split
      next args accepted =>
        obtain ⟨fine, fresh⟩ := watch_ok accepted
        constructor
        · intro other held
          rcases List.mem_append.mp held with before | last
          · exact ih.1 other before
          · rw [List.mem_singleton.mp last]
            exact fine
        · rw [List.map_append, List.map_singleton, List.nodup_append]
          refine ⟨ih.2, List.nodup_singleton _, ?_⟩
          rintro _ before _ last same
          obtain ⟨other, held, rfl⟩ := List.mem_map.mp before
          rw [List.mem_singleton.mp last] at same
          exact fresh other.rule (List.mem_map_of_mem held) same
      next => exact ih

/-! A line of the file, and a part of one. -/

def lineHead (r : LuaRule) : List UInt8 :=
  decimalInt r.cooldownRemaining ++ tab :: (decimalInt r.consecutiveHits ++ tab :: (decimal r.fireCount.toNat ++ [tab]))

theorem stateLine_eq (r : LuaRule) : stateLine r = lineHead r ++ cString r.name := by simp [stateLine, lineHead]

theorem digit_plain : ∀ d < 10, digit d ≠ 0 ∧ digit d ≠ newline ∧ digit d ≠ 35 := by decide

theorem decimal_plain {n : Nat} {b : UInt8} (held : b ∈ decimal n) : b ≠ 0 ∧ b ≠ newline ∧ b ≠ 35 := by
  obtain ⟨d, small, rfl⟩ := decimal_digits n b held
  exact digit_plain d small

/-- The counters of a rule are naturals that fit an `int`. -/
structure Counted (r : LuaRule) : Prop where
  cooldownRemaining : 0 ≤ r.cooldownRemaining ∧ r.cooldownRemaining ≤ 1000000
  consecutiveHits : 0 ≤ r.consecutiveHits ∧ r.consecutiveHits ≤ 1000000

namespace Counted
variable {r : LuaRule}

theorem head_eq (counted : Counted r) :
    lineHead r = decimal r.cooldownRemaining.toNat ++ tab :: (decimal r.consecutiveHits.toNat ++ tab ::
      (decimal r.fireCount.toNat ++ [tab])) := by
  obtain ⟨cd, hcd⟩ := Int.eq_ofNat_of_zero_le counted.cooldownRemaining.1
  obtain ⟨ch, hch⟩ := Int.eq_ofNat_of_zero_le counted.consecutiveHits.1
  rw [lineHead, hcd, hch, decimalInt_ofNat, decimalInt_ofNat, Int.toNat_natCast, Int.toNat_natCast]

theorem head_plain (counted : Counted r) : ∀ b ∈ lineHead r, b ≠ 0 ∧ b ≠ newline ∧ b ≠ 35 := by
  intro b held
  rw [counted.head_eq] at held
  simp only [List.mem_append, List.mem_cons, List.not_mem_nil, or_false] at held
  rcases held with number | rfl | number | rfl | number | rfl
  · exact decimal_plain number
  · decide
  · exact decimal_plain number
  · decide
  · exact decimal_plain number
  · decide

theorem head_length (counted : Counted r) : (lineHead r).length ≤ 63 := by
  have longest : ∀ n : Nat, n ≤ 18446744073709551615 → (decimal n).length ≤ 20 := fun n le => decimal_length_mono le
  have first := longest r.cooldownRemaining.toNat (by have := counted.cooldownRemaining; omega)
  have second := longest r.consecutiveHits.toNat (by have := counted.consecutiveHits; omega)
  have third := longest r.fireCount.toNat (Nat.le_of_lt_succ r.fireCount.toNat_lt)
  rw [counted.head_eq]
  simp only [List.length_append, List.length_cons, List.length_nil]
  omega

theorem head_ne_nil (counted : Counted r) : lineHead r ≠ [] := by
  rw [counted.head_eq]
  simp [decimal_ne_nil]

end Counted

theorem field_eq {α : Type} {number : List UInt8 → Option (α × List UInt8)} {p rest : List UInt8} {value : α}
    (read : number p = some (value, tab :: rest)) : field number p = some (value, rest) := by
  rw [field, read]
  exact if_pos rfl

theorem bmod_small {i : Int} (bounds : 0 ≤ i ∧ i ≤ 1000000) : i.bmod (2 ^ 32) = i := by
  rw [Int.bmod_def]
  split <;> omega

/-- A buffer that begins with a rule's counters is taken for them, whatever is left of the name. -/
theorem parseState_head {r : LuaRule} (counted : Counted r) {p : List UInt8} (noNul : 0 ∉ p) :
    parseState (lineHead r ++ p) = if stripEnd p = [] then none
      else some ⟨r.cooldownRemaining, r.consecutiveHits, r.fireCount, stripEnd p⟩ := by
  have plain := counted.head_plain
  obtain ⟨first, others, shape⟩ := List.exists_cons_of_ne_nil counted.head_ne_nil
  have start : (lineHead r ++ p).head? = some first := by rw [shape]; rfl
  have first_plain := plain first (by rw [shape]; exact List.mem_cons_self)
  have whole : cString (lineHead r ++ p) = lineHead r ++ p := by
    apply cString_eq
    rw [List.mem_append, not_or]
    exact ⟨fun held => (plain 0 held).1 rfl, noNul⟩
  have stops : ∀ rest : List UInt8, ∀ b ∈ (tab :: rest).head?, isDigit b = false := by
    intro rest b held
    rw [List.head?_cons, Option.mem_some_iff] at held
    rw [← held]
    rfl
  have split : lineHead r ++ p = decimal r.cooldownRemaining.toNat ++ tab :: (decimal r.consecutiveHits.toNat ++ tab ::
      (decimal r.fireCount.toNat ++ tab :: p)) := by
    rw [counted.head_eq]
    simp
  have cooldown := counted.cooldownRemaining
  have hits := counted.consecutiveHits
  have cd : field strtol (lineHead r ++ p) = some (r.cooldownRemaining, decimal r.consecutiveHits.toNat ++ tab ::
      (decimal r.fireCount.toNat ++ tab :: p)) := by
    rw [split, field_eq (strtol_decimal _ (by omega) (stops _)), Int.toNat_of_nonneg cooldown.1]
  have ch : field strtol (decimal r.consecutiveHits.toNat ++ tab :: (decimal r.fireCount.toNat ++ tab :: p)) =
      some (r.consecutiveHits, decimal r.fireCount.toNat ++ tab :: p) := by
    rw [field_eq (strtol_decimal _ (by omega) (stops _)), Int.toNat_of_nonneg hits.1]
  have fc : field strtoull (decimal r.fireCount.toNat ++ tab :: p) = some (r.fireCount, p) :=
    field_eq (strtoull_decimal _ (stops _))
  rw [parseState, start, whole, if_neg (by simp [first_plain.2.1, first_plain.2.2]), cd]
  simp only [ch, fc, bmod_small cooldown, bmod_small hits]

/-! Loading, rule by rule. -/

def afterLine (r : LuaRule) (line : List UInt8) : LuaRule :=
  match parseState line with
  | none => r
  | some s => if r.name = s.name then r.restore s else r

theorem afterLine_name (r : LuaRule) (line : List UInt8) : (afterLine r line).name = r.name := by
  unfold afterLine
  split
  · rfl
  · split <;> rfl

theorem assign_eq_map (s : SavedState) {rules : List LuaRule} (distinct : (rules.map LuaRule.name).Nodup) :
    assign s rules = rules.map fun r => if r.name = s.name then r.restore s else r := by
  induction rules with
  | nil => rfl
  | cons r rest ih =>
      rw [List.map_cons, List.nodup_cons] at distinct
      rw [assign, List.map_cons]
      split
      next same =>
        have others : ∀ other ∈ rest, (if other.name = s.name then other.restore s else other) = other := by
          intro other held
          apply if_neg
          intro taken
          exact distinct.1 (List.mem_map.mpr ⟨other, held, taken.trans same.symm⟩)
        rw [List.map_congr_left others, List.map_id']
      next => rw [ih distinct.2]

theorem loadLine_eq_map {rules : List LuaRule} (distinct : (rules.map LuaRule.name).Nodup) (line : List UInt8) :
    loadLine rules line = rules.map (afterLine · line) := by
  unfold loadLine afterLine
  cases parseState line with
  | none => rw [List.map_id']
  | some s => exact assign_eq_map s distinct

theorem loadLines_eq_map (lines : List (List UInt8)) {rules : List LuaRule} (distinct : (rules.map LuaRule.name).Nodup) :
    lines.foldl loadLine rules = rules.map fun r => lines.foldl afterLine r := by
  induction lines generalizing rules with
  | nil => simp
  | cons line rest ih =>
      have names : (rules.map (afterLine · line)).map LuaRule.name = rules.map LuaRule.name := by
        rw [List.map_map]
        exact List.map_congr_left fun r _ => afterLine_name r line
      rw [List.foldl_cons, loadLine_eq_map distinct, ih (by rw [names]; exact distinct), List.map_map]
      rfl

def linesOf (r : LuaRule) : List (List UInt8) := fgetsFrom 1023 [] (stateLine r ++ [newline])

theorem fgetsFrom_flatMap (rules : List LuaRule) :
    fgetsFrom 1023 [] (rules.flatMap fun r => stateLine r ++ [newline]) = rules.flatMap linesOf := by
  induction rules with
  | nil => rfl
  | cons r rest ih =>
      rw [List.flatMap_cons, List.append_assoc, List.singleton_append, fgetsFrom_newline, ih, List.flatMap_cons]
      rfl

theorem headers_eq : text "# budyk rule state v1\n" ++ text "# cooldown_remaining\tconsecutive_hits\tfire_count\tname\n" =
    text "# budyk rule state v1" ++ newline :: (text "# cooldown_remaining\tconsecutive_hits\tfire_count\tname" ++ [newline]) := by
  decide

theorem fgetsLines_stateFile {rules : List LuaRule} (oneLine : ∀ r ∈ rules, newline ∉ r.name) :
    fgetsLines 1024 (stateFile rules) =
      (text "# budyk rule state v1" ++ [newline]) ::
      (text "# cooldown_remaining\tconsecutive_hits\tfire_count\tname" ++ [newline]) :: rules.flatMap linesOf := by
  have all : rules.filter (fun r => newline ∉ r.name) = rules := by
    rw [List.filter_eq_self]
    intro r held
    simpa using oneLine r held
  rw [fgetsLines, stateFile, all, headers_eq, List.append_assoc, List.cons_append, List.append_assoc,
    fgetsFrom_newline (text "# budyk rule state v1"), List.singleton_append,
    fgetsFrom_newline (text "# cooldown_remaining\tconsecutive_hits\tfire_count\tname"), fgetsFrom_flatMap,
    fgetsFrom_short (by decide) (by decide), fgetsFrom_short (by decide) (by decide)]
  rfl

theorem afterLine_comment {r : LuaRule} {line : List UInt8} (comment : line.head? = some 35) : afterLine r line = r := by
  rw [afterLine, parseState, if_pos (.inl comment)]

theorem restored_eq {added : List NewRule} {rules : List LuaRule} (distinct : (added.map NewRule.name).Nodup)
    (oneLine : ∀ r ∈ rules, newline ∉ r.name) :
    restored added rules = added.map fun args => (rules.flatMap linesOf).foldl afterLine args.rule := by
  have names : (added.map NewRule.rule).map LuaRule.name = added.map NewRule.name := by
    rw [List.map_map]
    rfl
  rw [restored, saveState, loadState, fgetsLines_stateFile oneLine, loadLines_eq_map _ (by rw [names]; exact distinct),
    List.map_map]
  apply List.map_congr_left
  intro args _
  simp only [Function.comp_apply, List.foldl_cons]
  rw [afterLine_comment (by decide), afterLine_comment (by decide)]

/-! What a rule's own line does to it, and to the others. -/

theorem parseState_own {r : LuaRule} (counted : Counted r) (noNul : 0 ∉ r.name) (oneLine : newline ∉ r.name)
    (restores : LineRestores r) {ending : List UInt8} (stripped : stripEnd (r.name ++ ending) = stripEnd r.name)
    (plain : 0 ∉ ending) :
    parseState (stateLine r ++ ending) =
      some ⟨r.cooldownRemaining, r.consecutiveHits, r.fireCount, r.name⟩ := by
  have noNul' : 0 ∉ r.name ++ ending := by
    rw [List.mem_append, not_or]
    exact ⟨noNul, plain⟩
  rw [stateLine_eq, cString_eq noNul, List.append_assoc, parseState_head counted noNul', stripped,
    stripEnd_eq oneLine restores.ending, if_neg restores.named]

theorem stateLine_oneLine {r : LuaRule} (counted : Counted r) (noNul : 0 ∉ r.name) (oneLine : newline ∉ r.name) :
    newline ∉ stateLine r := by
  rw [stateLine_eq, cString_eq noNul, List.mem_append, not_or]
  exact ⟨fun held => (counted.head_plain _ held).2.1 rfl, oneLine⟩

theorem parseState_newline : parseState [newline] = none := by decide

theorem afterLine_linesOf {r : LuaRule} (counted : Counted r) (noNul : 0 ∉ r.name) (oneLine : newline ∉ r.name)
    (restores : LineRestores r) (other : LuaRule) :
    (linesOf r).foldl afterLine other =
      if other.name = r.name then other.restore ⟨r.cooldownRemaining, r.consecutiveHits, r.fireCount, r.name⟩
      else other := by
  have whole := stateLine_oneLine counted noNul oneLine
  rcases Nat.lt_or_eq_of_le restores.fits with short | exactly
  · have own := parseState_own counted noNul oneLine restores (stripEnd_newline _) (by decide)
    rw [linesOf, fgetsFrom_short whole short, List.foldl_cons, List.foldl_nil, afterLine, own]
  · have stripped : stripEnd (r.name ++ []) = stripEnd r.name := by rw [List.append_nil]
    have own := parseState_own counted noNul oneLine restores stripped List.not_mem_nil
    rw [List.append_nil] at own
    rw [linesOf, fgetsFrom_exact whole (by decide) exactly, List.foldl_cons, List.foldl_cons, List.foldl_nil, afterLine,
      parseState_newline]
    dsimp only
    rw [afterLine, own]

theorem foldl_linesOf {rules : List LuaRule} (fine : ∀ r ∈ rules, Counted r ∧ 0 ∉ r.name ∧ newline ∉ r.name ∧ LineRestores r)
    (distinct : (rules.map LuaRule.name).Nodup) {start r : LuaRule} (held : r ∈ rules) (name : start.name = r.name) :
    (rules.flatMap linesOf).foldl afterLine start =
      start.restore ⟨r.cooldownRemaining, r.consecutiveHits, r.fireCount, r.name⟩ := by
  have others : ∀ rest : List LuaRule, (∀ other ∈ rest, other ∈ rules) → (∀ other ∈ rest, start.name ≠ other.name) →
      ∀ start' : LuaRule, start'.name = start.name → (rest.flatMap linesOf).foldl afterLine start' = start' := by
    intro rest among different start' same
    induction rest with
    | nil => rfl
    | cons other rest ih =>
        obtain ⟨counted, noNul, oneLine, restores⟩ := fine other (among other List.mem_cons_self)
        rw [List.flatMap_cons, List.foldl_append, afterLine_linesOf counted noNul oneLine restores,
          if_neg (same ▸ different other List.mem_cons_self)]
        exact ih (fun o held => among o (List.mem_cons_of_mem _ held)) fun o held => different o (List.mem_cons_of_mem _ held)
  obtain ⟨before, after, rfl⟩ := List.append_of_mem held
  rw [List.map_append, List.map_cons, List.nodup_append] at distinct
  obtain ⟨counted, noNul, oneLine, restores⟩ := fine r held
  have earlier := others before (fun o held => List.mem_append_left _ held)
    (fun o held same => distinct.2.2 _ (List.mem_map_of_mem held) _ List.mem_cons_self (same.symm.trans name)) start rfl
  have later := others after (fun o held => List.mem_append_right _ (List.mem_cons_of_mem _ held))
    (fun o held same => (List.nodup_cons.mp distinct.2.1).1 (List.mem_map.mpr ⟨o, held, same.symm.trans name⟩))
  rw [List.flatMap_append, List.foldl_append, earlier, List.flatMap_cons, List.foldl_append,
    afterLine_linesOf counted noNul oneLine restores, if_pos name]
  exact later _ rfl

/-! The counters a rule can have. -/

def SameRule (r r' : LuaRule) : Prop :=
  r' = { r with
    fireCount := r'.fireCount
    consecutiveHits := r'.consecutiveHits
    cooldownRemaining := r'.cooldownRemaining }

theorem evaluate_same (r : LuaRule) (o : Outcome) : SameRule r (evaluate r o).1 := by
  have step := evaluate_evaluates r o
  generalize evaluate r o = next at step ⊢
  cases step <;> rfl

theorem alone_same (outcomes : List Outcome) (r : LuaRule) : SameRule r (alone r outcomes).1 := by
  induction outcomes generalizing r with
  | nil => rfl
  | cons o rest ih =>
      rw [alone_cons, SameRule, ih (evaluate r o).1, evaluate_same r o]

theorem restore_same {r r' : LuaRule} (same : SameRule r r') :
    r.restore ⟨r'.cooldownRemaining, r'.consecutiveHits, r'.fireCount, r'.name⟩ = r' := same.symm

theorem reachable_tracks {args : NewRule} {r : LuaRule} (reachable : Reachable args r) : ∃ past, TracksRule args past r := by
  obtain ⟨outcomes, rfl⟩ := reachable
  exact ⟨_, (alone_right outcomes (tracks_new args) (by intro past v later split; simp at split)).1⟩

theorem reachable_same {args : NewRule} {r : LuaRule} (reachable : Reachable args r) : SameRule args.rule r := by
  obtain ⟨outcomes, rfl⟩ := reachable
  exact alone_same outcomes _

theorem reachable_name {args : NewRule} {r : LuaRule} (reachable : Reachable args r) : r.name = args.name := by
  rw [reachable_same reachable]
  rfl

theorem reachable_counted {args : NewRule} {r : LuaRule} (fine : Registered args) (reachable : Reachable args r) :
    Counted r := by
  obtain ⟨past, tracks⟩ := reachable_tracks reachable
  have forTicks : args.rule.forTicks ≤ 1000000 := by
    have := fine.forTicks
    simp only [NewRule.rule]
    split <;> omega
  have cooldownTicks : args.rule.cooldownTicks ≤ 1000000 := by
    have := fine.cooldownTicks
    simp only [NewRule.rule]
    split <;> omega
  have hits := tracks.hits
  have below := tracks.below
  have cooling := tracks.cooling
  rw [tracks.forTicks] at below
  rw [tracks.cooldownTicks] at cooling
  refine ⟨?_, by omega, by omega⟩
  have nonneg := cooldownTicks_nonneg args
  split at cooling <;> omega

/-! A rule can go through the same ticks having fired any number of times before. -/

def firedMore (n : UInt64) (r : LuaRule) : LuaRule := { r with fireCount := r.fireCount + n }

section Evaluate
variable {r : LuaRule}

theorem evaluate_cooling (o : Outcome) (cooling : 0 < r.cooldownRemaining) : evaluate r o = (r.cool, ⟨none, false⟩) :=
  if_pos cooling

theorem evaluate_sustain (cooled : ¬0 < r.cooldownRemaining) (short : r.consecutiveHits + 1 < r.forTicks) :
    evaluate r .hit = (r.sustain, ⟨some .hit, false⟩) := by
  rw [evaluate, if_neg cooled]
  exact if_pos short

theorem evaluate_fire (cooled : ¬0 < r.cooldownRemaining) (enough : r.forTicks ≤ r.consecutiveHits + 1) :
    evaluate r .hit = (r.fire, ⟨some .hit, true⟩) := by
  rw [evaluate, if_neg cooled]
  exact if_neg (Int.not_lt.mpr enough)

end Evaluate

theorem evaluate_firedMore (n : UInt64) (r : LuaRule) (o : Outcome) :
    (evaluate (firedMore n r) o).1 = firedMore n (evaluate r o).1 := by
  have step := evaluate_evaluates r o
  generalize evaluate r o = next at step ⊢
  cases step with
  | cooling o cooling => rw [evaluate_cooling o (show 0 < (firedMore n r).cooldownRemaining from cooling)]; rfl
  | skip cooled =>
      unfold evaluate
      rw [if_neg (show ¬0 < (firedMore n r).cooldownRemaining from cooled)]
  | broken cooled breaks =>
      unfold evaluate
      rw [if_neg (show ¬0 < (firedMore n r).cooldownRemaining from cooled)]
      rcases breaks with rfl | rfl <;> rfl
  | sustain cooled short => rw [evaluate_sustain (r := firedMore n r) cooled short]; rfl
  | fire cooled enough =>
      rw [evaluate_fire (r := firedMore n r) cooled enough]
      simp only [firedMore, LuaRule.fire]
      rw [UInt64.add_assoc, UInt64.add_comm n, ← UInt64.add_assoc]

theorem alone_firedMore (n : UInt64) (outcomes : List Outcome) (r : LuaRule) :
    (alone (firedMore n r) outcomes).1 = firedMore n (alone r outcomes).1 := by
  induction outcomes generalizing r with
  | nil => rfl
  | cons o rest ih => rw [alone_cons, alone_cons, evaluate_firedMore, ih]

theorem alone_append (first second : List Outcome) (r : LuaRule) :
    (alone r (first ++ second)).1 = (alone (alone r first).1 second).1 := by
  induction first generalizing r with
  | nil => rfl
  | cons o rest ih => rw [List.cons_append, alone_cons, alone_cons, ih]

theorem alone_hits {r : LuaRule} (n : Nat) (cooled : r.cooldownRemaining = 0) (left : r.forTicks = r.consecutiveHits + n + 1) :
    (alone r (List.replicate (n + 1) .hit)).1 = r.fire := by
  induction n generalizing r with
  | zero =>
      rw [List.replicate_one, alone_cons, alone, evaluate_fire (by omega) (by omega)]
  | succ n ih =>
      rw [List.replicate_succ, alone_cons, evaluate_sustain (by omega) (by omega)]
      exact ih (r := r.sustain) cooled (by simp only [LuaRule.sustain]; omega)

theorem alone_cools {r : LuaRule} (n : Nat) (cooling : r.cooldownRemaining = n) :
    (alone r (List.replicate n .skip)).1 = { r with cooldownRemaining := 0 } := by
  induction n generalizing r with
  | zero =>
      rw [List.replicate_zero, alone]
      simp only [Nat.cast_zero] at cooling
      rw [← cooling]
  | succ n ih =>
      rw [List.replicate_succ, alone_cons, evaluate_cooling _ (by omega)]
      exact ih (r := r.cool) (by simp only [LuaRule.cool]; omega)

theorem reachable_fired (args : NewRule) : Reachable args (firedMore 1 args.rule) := by
  obtain ⟨n, ticks⟩ := Int.eq_ofNat_of_zero_le (show 0 ≤ args.rule.forTicks - 1 by have := forTicks_pos args; omega)
  obtain ⟨c, cooldown⟩ := Int.eq_ofNat_of_zero_le (cooldownTicks_nonneg args)
  refine ⟨List.replicate (n + 1) .hit ++ List.replicate c .skip, ?_⟩
  have zero : args.rule.consecutiveHits = 0 := rfl
  rw [alone_append, alone_hits n rfl (by omega), alone_cools c cooldown]
  rfl

theorem reachable_firedMore {args : NewRule} {r : LuaRule} (n : Nat) (reachable : Reachable args r) :
    Reachable args (firedMore (UInt64.ofNat n) r) := by
  induction n with
  | zero =>
      have same : firedMore (UInt64.ofNat 0) r = r := by simp [firedMore]
      rw [same]
      exact reachable
  | succ n ih =>
      obtain ⟨outcomes, last⟩ := ih
      obtain ⟨before, first⟩ := reachable_fired args
      refine ⟨before ++ outcomes, ?_⟩
      rw [alone_append, first, alone_firedMore, last]
      simp only [firedMore, UInt64.ofNat_add, ← UInt64.add_assoc]
      rfl

/-! A rule whose line is not read back keeps the counters it is loaded with. -/

theorem parseState_name {line : List UInt8} {s : SavedState} (parsed : parseState line = some s) :
    s.name ≠ [] ∧ s.name.getLast? ≠ some carriageReturn := by
  unfold parseState at parsed
  split at parsed
  · cases parsed
  · split at parsed
    · cases parsed
    · split at parsed
      · cases parsed
      · split at parsed
        · cases parsed
        next p _ =>
          split at parsed
          · cases parsed
          next named =>
            cases parsed
            refine ⟨named, ?_⟩
            intro last
            exact Lib.getLast?_rdropWhile p _ last rfl

theorem field_length {α : Type} {number : List UInt8 → Option (α × List UInt8)} {p rest : List UInt8} {value : α}
    (shorter : ∀ value rest, number p = some (value, rest) → rest.length ≤ p.length)
    (read : field number p = some (value, rest)) : rest.length < p.length := by
  unfold field at read
  split at read
  next _ _ _ found =>
    split at read
    · cases read
      exact shorter _ _ found
    · cases read
  next => cases read

theorem parseState_length {line : List UInt8} {s : SavedState} (parsed : parseState line = some s) :
    s.name.length < line.length := by
  unfold parseState at parsed
  split at parsed
  · cases parsed
  · split at parsed
    · cases parsed
    next _ p₁ first =>
      split at parsed
      · cases parsed
      next _ p₂ second =>
        split at parsed
        · cases parsed
        next _ p₃ third =>
          split at parsed
          · cases parsed
          · cases parsed
            have whole : (cString line).length ≤ line.length := (List.takeWhile_prefix _).length_le
            have stripped : (stripEnd p₃).length ≤ p₃.length := (List.rdropWhile_prefix _ p₃).length_le
            have one := field_length (fun _ _ => strtol_length) first
            have two := field_length (fun _ _ => strtol_length) second
            have three := field_length (fun _ _ => strtoull_length) third
            dsimp only
            omega

theorem foldl_afterLine_unnamed {lines : List (List UInt8)} {r : LuaRule}
    (unnamed : ∀ line ∈ lines, ∀ s, parseState line = some s → s.name ≠ r.name) : lines.foldl afterLine r = r := by
  induction lines with
  | nil => rfl
  | cons line rest ih =>
      have same : afterLine r line = r := by
        unfold afterLine
        split
        · rfl
        next s parsed => exact if_neg fun named => unnamed line List.mem_cons_self s parsed named.symm
      rw [List.foldl_cons, same]
      exact ih fun other held => unnamed other (List.mem_cons_of_mem _ held)

theorem linesOf_unnamed {r : LuaRule} (counted : Counted r) (noNul : 0 ∉ r.name) (oneLine : newline ∉ r.name)
    (long : 1023 < (stateLine r).length) : ∀ line ∈ linesOf r, ∀ s, parseState line = some s → s.name ≠ r.name := by
  have whole := stateLine_oneLine counted noNul oneLine
  have short := counted.head_length
  have total : (stateLine r).length = (lineHead r).length + r.name.length := by
    rw [stateLine_eq, cString_eq noNul, List.length_append]
  intro line held s parsed same
  have shorter := parseState_length parsed
  rw [same] at shorter
  rw [linesOf, fgetsFrom_full _ whole (by decide) long.le] at held
  rcases List.mem_cons.mp held with rfl | later
  · have start : (stateLine r).take 1023 = lineHead r ++ r.name.take (1023 - (lineHead r).length) := by
      rw [stateLine_eq, cString_eq noNul, List.take_append, List.take_of_length_le (by omega)]
    rw [start, parseState_head counted fun held => noNul (List.mem_of_mem_take held)] at parsed
    split at parsed
    · cases parsed
    · cases parsed
      have stripped := (List.rdropWhile_prefix (fun b => b = newline || b = carriageReturn)
        (r.name.take (1023 - (lineHead r).length))).length_le
      dsimp only at same
      rw [← stripEnd, same, List.length_take] at stripped
      omega
  · have bound := fgetsFrom_length _ _ line later
    rw [List.length_append, List.length_drop, List.length_nil, List.length_singleton] at bound
    omega

/-! Whole rule sets. -/

section Sets
variable {added : List NewRule} {rules : List LuaRule}

theorem reachable_names (reach : List.Forall₂ Reachable added rules) : rules.map LuaRule.name = added.map NewRule.name := by
  induction reach with
  | nil => rfl
  | cons first _ ih => rw [List.map_cons, List.map_cons, reachable_name first, ih]

theorem reachable_of_mem (reach : List.Forall₂ Reachable added rules) : ∀ r ∈ rules, ∃ args ∈ added, Reachable args r := by
  intro r held
  induction reach with
  | nil => cases held
  | cons first _ ih =>
      rcases List.mem_cons.mp held with rfl | later
      · exact ⟨_, List.mem_cons_self, first⟩
      · obtain ⟨args, among, reachable⟩ := ih later
        exact ⟨args, List.mem_cons_of_mem _ among, reachable⟩

theorem restored_rules (fine : ∀ args ∈ added, Registered args) (distinct : (added.map NewRule.name).Nodup)
    (oneLine : ∀ args ∈ added, newline ∉ args.name) (reach : List.Forall₂ Reachable added rules)
    (restores : ∀ r ∈ rules, LineRestores r) : restored added rules = rules := by
  have each : ∀ r ∈ rules, Counted r ∧ 0 ∉ r.name ∧ newline ∉ r.name ∧ LineRestores r := by
    intro r held
    obtain ⟨args, among, reachable⟩ := reachable_of_mem reach r held
    rw [reachable_name reachable]
    exact ⟨reachable_counted (fine args among) reachable, (fine args among).noNul, oneLine args among, restores r held⟩
  have names := reachable_names reach
  obtain ⟨size, at_⟩ := List.forall₂_iff_get.mp reach
  rw [restored_eq distinct fun r held => (each r held).2.2.1]
  apply List.ext_getElem
  · rw [List.length_map, size]
  · intro i inside inside'
    have reachable := at_ i (by simpa using inside) inside'
    have name : (added.get ⟨i, by simpa using inside⟩).rule.name = _ := (reachable_name reachable).symm
    have last := foldl_linesOf each (by rw [names]; exact distinct) (List.getElem_mem inside') name
    rw [List.getElem_map]
    exact last.trans (restore_same (reachable_same reachable))

theorem fresh_reachable (args : NewRule) : Reachable args args.rule := ⟨[], rfl⟩

theorem forall₂_fresh (args : List NewRule) : List.Forall₂ Reachable args (args.map NewRule.rule) := by
  rw [List.forall₂_map_right_iff, List.forall₂_same]
  intro other _
  exact fresh_reachable other

theorem linesOf_long_firedMore {r : LuaRule} (long : 1023 < (stateLine r).length) :
    ∃ n : Nat, UInt64.ofNat n ≠ 0 ∧ 1023 < (stateLine (firedMore (UInt64.ofNat n) r)).length := by
  have size : ∀ n : UInt64, (stateLine (firedMore n r)).length + (decimal r.fireCount.toNat).length =
      (stateLine r).length + (decimal (r.fireCount + n).toNat).length := by
    intro n
    simp only [stateLine, firedMore, List.length_append, List.length_cons]
    omega
  have lt := r.fireCount.toNat_lt
  rcases Nat.lt_or_ge (r.fireCount.toNat + 1) (2 ^ 64) with below | top
  · refine ⟨1, by decide, ?_⟩
    have next : (r.fireCount + UInt64.ofNat 1).toNat = r.fireCount.toNat + 1 := by
      rw [UInt64.toNat_add]
      exact Nat.mod_eq_of_lt below
    have longer := decimal_length_mono (Nat.le_add_right r.fireCount.toNat 1)
    have same := size (UInt64.ofNat 1)
    rw [next] at same
    omega
  · refine ⟨2 ^ 64 - 1, by decide, ?_⟩
    have max : r.fireCount = UInt64.ofNat (2 ^ 64 - 1) := by
      apply UInt64.toNat_inj.mp
      exact (Nat.le_antisymm (Nat.le_of_lt_succ lt) (Nat.le_of_succ_le_succ top))
    have same := size (UInt64.ofNat (2 ^ 64 - 1))
    rw [max] at same
    have digits : (decimal (UInt64.ofNat (2 ^ 64 - 1) + UInt64.ofNat (2 ^ 64 - 1)).toNat).length =
        (decimal (UInt64.ofNat (2 ^ 64 - 1)).toNat).length := by decide
    omega

theorem lineRestores_of_restored (fine : ∀ args ∈ added, Registered args) (distinct : (added.map NewRule.name).Nodup)
    (oneLine : ∀ args ∈ added, newline ∉ args.name)
    (survives : ∀ rules, List.Forall₂ Reachable added rules → restored added rules = rules) {args : NewRule}
    (held : args ∈ added) {r : LuaRule} (reachable : Reachable args r) : LineRestores r := by
  obtain ⟨before, after, rfl⟩ := List.append_of_mem held
  have registered := fine args held
  -- The other rules as they were loaded, this one's own last counters are what the file's lines make of it.
  have last : ∀ r, Reachable args r → ((before.map NewRule.rule).flatMap linesOf ++
      (linesOf r ++ (after.map NewRule.rule).flatMap linesOf)).foldl afterLine args.rule = r := by
    intro r reachable
    have reach : List.Forall₂ Reachable (before ++ args :: after)
        (before.map NewRule.rule ++ r :: after.map NewRule.rule) :=
      List.rel_append (forall₂_fresh before) (.cons reachable (forall₂_fresh after))
    have same := survives _ reach
    rw [restored_eq distinct] at same
    · rw [List.map_append, List.map_cons] at same
      obtain ⟨-, same⟩ := List.append_inj same (by simp)
      rw [List.flatMap_append, List.flatMap_cons] at same
      exact (List.cons.inj same).1
    · intro other among
      obtain ⟨args', among', reachable'⟩ := reachable_of_mem reach other among
      rw [reachable_name reachable']
      exact oneLine args' among'
  have fired := last _ (reachable_fired args)
  have changed : firedMore 1 args.rule ≠ args.rule := by
    intro same
    exact absurd (congrArg LuaRule.fireCount same) (by simp [firedMore, NewRule.rule])
  constructor
  · intro unnamed
    rw [foldl_afterLine_unnamed] at fired
    · exact changed fired.symm
    · intro line _ s parsed same
      rw [reachable_name reachable] at unnamed
      exact (parseState_name parsed).1 (same.trans unnamed)
  · intro stripped
    rw [foldl_afterLine_unnamed] at fired
    · exact changed fired.symm
    · intro line _ s parsed same
      rw [reachable_name reachable] at stripped
      exact (parseState_name parsed).2 (by rw [same]; exact stripped)
  · by_contra long
    obtain ⟨n, nonzero, long'⟩ := linesOf_long_firedMore (Nat.lt_of_not_le long)
    have reachable' := reachable_firedMore n reachable
    -- The rule's own lines do nothing to it, so two counts come to the same.
    have skip : ∀ r, Reachable args r → 1023 < (stateLine r).length → ∀ start : LuaRule, start.name = args.name →
        (linesOf r).foldl afterLine start = start := by
      intro r reachable long start name
      apply foldl_afterLine_unnamed
      rw [name, ← reachable_name reachable]
      apply linesOf_unnamed (reachable_counted registered reachable) _ _ long
      · rw [reachable_name reachable]
        exact registered.noNul
      · rw [reachable_name reachable]
        exact oneLine args held
    have name : ∀ lines : List (List UInt8), ∀ start : LuaRule, (lines.foldl afterLine start).name = start.name := by
      intro lines
      induction lines with
      | nil => exact fun _ => rfl
      | cons line rest ih => exact fun start => (ih _).trans (afterLine_name start line)
    have one := last r reachable
    have two := last _ reachable'
    rw [List.foldl_append, List.foldl_append, skip _ reachable (Nat.lt_of_not_le long) _ (name _ _)] at one
    rw [List.foldl_append, List.foldl_append, skip _ reachable' long' _ (name _ _), one] at two
    have count := congrArg LuaRule.fireCount two
    simp only [firedMore] at count
    exact nonzero (by simpa using count)

end Sets

theorem rule_state_survives_iff (calls : List WatchCall) (oneLine : ∀ args ∈ registered calls, newline ∉ args.name) :
    ((∀ rules, List.Forall₂ Reachable (registered calls) rules → restored (registered calls) rules = rules) ↔
      ∀ args ∈ registered calls, ∀ r, Reachable args r → LineRestores r) ∧
    ∀ rules, List.Forall₂ Reachable (registered calls) rules → (∀ r ∈ rules, LineRestores r) →
      restored (registered calls) rules = rules := by
  obtain ⟨fine, distinct⟩ := registered_ok calls
  have enough : ∀ rules, List.Forall₂ Reachable (registered calls) rules → (∀ r ∈ rules, LineRestores r) →
      restored (registered calls) rules = rules := fun rules reach => restored_rules fine distinct oneLine reach
  refine ⟨⟨?_, ?_⟩, enough⟩
  · intro survives args held r reachable
    exact lineRestores_of_restored fine distinct oneLine survives held reachable
  · intro restores rules reach
    apply enough rules reach
    intro r held
    obtain ⟨args, among, reachable⟩ := reachable_of_mem reach r held
    exact restores args among r reachable

def oneRule (name : List UInt8) : List WatchCall :=
  [⟨name, .function .other, .nil, .nil, .nil, .nil, .nil, 1, 2⟩]

/-- The name of the second holds a carriage return, and that of the third is like a line of the file. -/
def threeRules : List WatchCall :=
  oneRule (text "cpu") ++ oneRule (text "disk\rfull") ++ oneRule (text "3\t0\t1\tcpu")

theorem rule_state_survives_iff_cpu :
    (((∀ rules, List.Forall₂ Reachable (registered threeRules) rules → restored (registered threeRules) rules = rules) ↔
        ∀ args ∈ registered threeRules, ∀ r, Reachable args r → LineRestores r) ∧
      ∀ rules, List.Forall₂ Reachable (registered threeRules) rules → (∀ r ∈ rules, LineRestores r) →
        restored (registered threeRules) rules = rules) ∧
    (registered threeRules).length = 3 :=
  ⟨rule_state_survives_iff threeRules (by decide), by decide⟩

/-- A rule named `cpu\r` that has fired once is loaded with no fire and no cooldown. -/
theorem rule_state_lost : (∀ args ∈ registered (oneRule (text "cpu\r")), newline ∉ args.name) ∧
    ∃ rules, List.Forall₂ Reachable (registered (oneRule (text "cpu\r"))) rules ∧
      restored (registered (oneRule (text "cpu\r"))) rules ≠ rules := by
  refine ⟨by decide, (registered (oneRule (text "cpu\r"))).map fun args => (alone args.rule [.hit]).1, ?_, by decide⟩
  rw [List.forall₂_map_right_iff, List.forall₂_same]
  exact fun args _ => ⟨[.hit], rfl⟩

end Budyk.Proof
