import Budyk.Lib.LuaSplice
import Budyk.Spec.RuleCall

/-! The Lua text of a YAML rule is the tokens of one call, whatever bytes the rule is made of. -/

namespace Budyk.Proof
open Lib Lib.Lua Rules Config Spec

theorem control_escape : ∀ c < 32, threeDigits (UInt8.ofNat c) = [digit 0, digit (c / 10), digit (c % 10)] ∧
    digitsValue [digit 0, digit (c / 10), digit (c % 10)] = c := by decide

/-- Three digits end a decimal escape, whatever digits come after them. -/
theorem readEscape_control {c : UInt8} (control : c < 0x20) (s : List UInt8) :
    readEscape (threeDigits c ++ s) = some ([c], s) := by
  have small : c.toNat < 32 := control
  have digits := control_escape c.toNat small
  rw [UInt8.ofNat_toNat] at digits
  have value : digitsValue (threeDigits c) = c.toNat := digits.1 ▸ digits.2
  have all : (threeDigits c).takeWhile isDigit = threeDigits c := by
    refine List.takeWhile_eq_self_iff.mpr fun b held => ?_
    obtain ⟨d, among, rfl⟩ := List.mem_map.mp held
    have one : d = c.toNat / 100 ∨ d = c.toNat / 10 % 10 ∨ d = c.toNat % 10 := by simpa using among
    exact (isDigit_digit d (by omega)).1
  have decimal : decimalEscape (threeDigits c ++ s) = some ([c], s) := by
    have length : (threeDigits c).length = 3 := rfl
    unfold decimalEscape
    dsimp only
    rw [List.take_left' length, all, value, List.drop_left' rfl, UInt8.ofNat_toNat, if_pos (by omega)]
  have begins : readEscape (threeDigits c ++ s) = decimalEscape (threeDigits c ++ s) := by
    rw [digits.1]
    rfl
  rw [begins, decimal]

theorem readString_luaEscapeByte (c : UInt8) (s : List UInt8) :
    readString 34 (luaEscapeByte c ++ s) = (readString 34 s).map fun found => (c :: found.1, found.2) := by
  have escaped (escape : List UInt8) (read : readEscape (escape ++ s) = some ([c], s)) :
      readString 34 (92 :: escape ++ s) = (readString 34 s).map fun found => (c :: found.1, found.2) := by
    rw [List.cons_append, readString_cons, if_neg (by decide), if_neg (by decide), if_pos rfl, read]
    rfl
  rw [luaEscapeByte]
  split
  next same => subst same; exact escaped [92] rfl
  next slash =>
  split
  next same => subst same; exact escaped [34] rfl
  next quote =>
  split
  next same => subst same; exact escaped [110] rfl
  next line =>
  split
  next same => subst same; exact escaped [114] rfl
  next return_ =>
  split
  next same => subst same; exact escaped [116] rfl
  next =>
  split
  next control => exact escaped (threeDigits c) (readEscape_control control s)
  next plain =>
    have notLine : ¬isNewline c = true := by simp [isNewline, line, return_]
    rw [List.singleton_append, readString_cons, if_neg quote, if_neg notLine, if_neg slash]

theorem readString_luaEscape (s u : List UInt8) : readString 34 (luaEscape s ++ 34 :: u) = some (s, u) := by
  induction s with
  | nil => rw [luaEscape, List.flatMap_nil, List.nil_append, readString_cons, if_pos rfl]
  | cons c s ih =>
      rw [luaEscape, List.flatMap_cons, List.append_assoc, readString_luaEscapeByte]
      rw [luaEscape] at ih
      rw [ih]
      rfl

theorem splices_luaEscape (s : List UInt8) : Splices (34 :: luaEscape s ++ [34]) [.string s] :=
  splices_string (readString_luaEscape s)

theorem splices_plain {s : List UInt8} (plain : luaEscape s = s) : Splices (34 :: s ++ [34]) [.string s] := by
  have escaped := splices_luaEscape s
  rwa [plain] at escaped

theorem splices_decimal (n : Nat) : Splices (decimal n ++ [44]) [.numeral (decimal n), .symbol [44]] :=
  splices_digits (decimal_ne_nil n) (decimal_digits n)

/-! ## The call -/

theorem Splices.of {s s' : List UInt8} {tokens tokens' : List LuaToken} (splices : Splices s tokens) (sameText : s = s')
    (same : tokens = tokens') : Splices s' tokens' := sameText ▸ same ▸ splices

theorem splices_alert (call : RuleCall) : Splices
    (text "alert(\"" ++ luaEscape call.name ++ text "\", \"" ++ severityName call.severity ++ text "\", \"" ++
      luaEscape call.message ++ text "\")") (alertTokens call) := by
  have opens : Splices (text "alert(") [word "alert", symbol "("] := splices_literal 1 (by decide)
  have comma : Splices (text ", ") [symbol ","] := splices_literal 1 (by decide)
  have closes : Splices (text ")") [symbol ")"] := splices_literal 0 (by decide)
  have severity : Splices (34 :: severityName call.severity ++ [34]) [.string (severityName call.severity)] :=
    splices_plain (by cases call.severity <;> decide)
  have pieces := (opens.append (splices_luaEscape call.name)).append ((comma.append severity).append
    ((comma.append (splices_luaEscape call.message)).append closes))
  refine Splices.of pieces ?_ rfl
  have first : text "alert(\"" = text "alert(" ++ [34] := by decide
  have between : text "\", \"" = [34] ++ text ", " ++ [34] := by decide
  have last : text "\")" = [34] ++ text ")" := by decide
  rw [first, between, last]
  simp only [List.append_assoc, List.cons_append, List.nil_append]

theorem splices_print (message : List UInt8) : Splices (text "print(\"[budyk] " ++ luaEscape message ++ text "\")")
    [word "print", symbol "(", .string (text "[budyk] " ++ message), symbol ")"] := by
  have opens : Splices (text "print(") [word "print", symbol "("] := splices_literal 1 (by decide)
  have closes : Splices (text ")") [symbol ")"] := splices_literal 0 (by decide)
  have pieces := (opens.append (splices_luaEscape (text "[budyk] " ++ message))).append closes
  refine Splices.of pieces ?_ rfl
  have first : text "print(\"[budyk] " = text "print(" ++ 34 :: text "[budyk] " := by decide
  have plain : luaEscape (text "[budyk] ") = text "[budyk] " := by decide
  have last : text "\")" = [34] ++ text ")" := by decide
  rw [first, last, luaEscape, List.flatMap_append, ← luaEscape, ← luaEscape, plain]
  simp only [List.append_assoc, List.cons_append, List.nil_append]

theorem splices_action (call : RuleCall) : Splices
    ((if call.action = .escalate then text "\x7b " else []) ++ text "function() " ++
      (if call.action = .log then text "print(\"[budyk] " ++ luaEscape call.message ++ text "\")"
        else text "alert(\"" ++ luaEscape call.name ++ text "\", \"" ++ severityName call.severity ++ text "\", \"" ++
          luaEscape call.message ++ text "\")") ++
      text " end" ++ (if call.action = .escalate then text ", \"escalate\" \x7d" else []) ++ text ",")
    (actionTokens call ++ [symbol ","]) := by
  have function : Splices (text "function() ") [word "function", symbol "(", symbol ")"] :=
    splices_literal 3 (by decide)
  have ends : Splices (text " end,") [word "end", symbol ","] := splices_literal 2 (by decide)
  have end_ : text " end," = text " end" ++ text "," := by decide
  rw [actionTokens]
  cases call.action with
  | alert =>
      refine Splices.of ((function.append (splices_alert call)).append ends) ?_ ?_
      · simp [end_]
      · simp
  | log =>
      refine Splices.of ((function.append (splices_print call.message)).append ends) ?_ rfl
      simp [end_]
  | escalate =>
      have opens : Splices (text "\x7b ") [symbol "\x7b"] := splices_literal 1 (by decide)
      have between : Splices (text " end, ") [word "end", symbol ","] := splices_literal 3 (by decide)
      have closes : Splices (text " \x7d,") [symbol "\x7d", symbol ","] := splices_literal 2 (by decide)
      have level : Splices (34 :: text "escalate" ++ [34]) [.string (text "escalate")] := splices_plain (by decide)
      have first : text " end, " ++ [34] = text " end" ++ text ", \"" := by decide
      have last : text ", \"escalate\" \x7d" ++ text "," = text ", " ++ 34 :: text "escalate" ++ [34] ++ text " \x7d," := by
        decide
      have joined : text " end, " = text " end" ++ text ", " := by decide
      refine Splices.of (((opens.append function).append (splices_alert call)).append ((between.append level).append closes)) ?_ ?_
      · simp only [if_true, if_neg (show ¬RuleAction.escalate = .log by decide), List.append_assoc, last, joined,
          List.cons_append]
      · simp

theorem splices_count (key : String) (n : Nat)
    (field : Splices (text ("  " ++ key ++ " = ")) [word key, symbol "="]) :
    Splices (text ("  " ++ key ++ " = ") ++ decimalInt n ++ text ",\n") (countTokens key n) := by
  refine Splices.of ((field.append (splices_decimal n)).append Splices.newline) ?_ ?_
  · rw [decimalInt_ofNat]
    have last : text ",\n" = [44] ++ [newline] := by decide
    simp only [last, List.append_assoc]
  · rw [List.append_nil]
    rfl

theorem splices_cooldown (cooldown : Option Nat) : Splices
    (match (cooldown.map (↑) : Option Int) with
      | some n => text "  cooldown = " ++ decimalInt n ++ text ",\n"
      | none => [])
    (match cooldown with
      | some n => countTokens "cooldown" n
      | none => []) := by
  cases cooldown with
  | none => exact Splices.nil
  | some n => exact splices_count "cooldown" n (splices_literal 5 (by decide))

theorem splices_watchText (call : RuleCall) {when_ : List UInt8} (condition : lex when_ = some call.condition)
    (line : ∀ b ∈ when_, isNewline b = false) : Splices
      (watchText call.name when_ (severityName call.severity) call.message (call.action = .log) (call.action = .escalate)
        call.forTicks (call.cooldown.map (↑))) call.tokens := by
  have watch : Splices (text "watch(") [word "watch", symbol "("] := splices_literal 1 (by decide)
  have opens : Splices (text ", \x7b") [symbol ",", symbol "\x7b"] := splices_literal 2 (by decide)
  have when' : Splices (text "  when = function() return ")
      [word "when", symbol "=", word "function", symbol "(", symbol ")", word "return"] := splices_literal 11 (by decide)
  have end_ : Splices (text "  end,") [word "end", symbol ","] := splices_literal 3 (by decide)
  have action : Splices (text "  action = ") [word "action", symbol "="] := splices_literal 5 (by decide)
  have closes : Splices (text "\x7d)") [symbol "\x7d", symbol ")"] := splices_literal 1 (by decide)
  have forTicks : Splices
      (if (0 : Int) < call.forTicks then text "  for_ticks = " ++ decimalInt call.forTicks ++ text ",\n" else [])
      (if 0 < call.forTicks then countTokens "for_ticks" call.forTicks else []) := by
    simp only [Int.natCast_pos]
    split
    next => exact splices_count "for_ticks" call.forTicks (splices_literal 5 (by decide))
    next => exact Splices.nil
  -- a newline of the text is put with what stands before it, so that a comment at the end of `when` ends with it
  have heading := ((watch.append (splices_luaEscape call.name)).append (opens.append Splices.newline)).append
    (when'.append (splices_line condition line))
  have body := (end_.append Splices.newline).append ((action.append (splices_action call)).append Splices.newline)
  have ending := (forTicks.append (splices_cooldown call.cooldown)).append (closes.append Splices.newline)
  have fourth : text ",\n" = text "," ++ [newline] := by decide
  have whole := (heading.append body).append ending
  rw [fourth] at whole
  refine Splices.of whole ?_ ?_
  · have first : text "watch(\"" = text "watch(" ++ [34] := by decide
    have second : text "\", \x7b\n  when = function() return " =
        [34] ++ text ", \x7b" ++ [newline] ++ text "  when = function() return " := by decide
    have third : text "\n  end,\n  action = " = [newline] ++ text "  end," ++ [newline] ++ text "  action = " := by decide
    have last : text "\x7d)\n" = text "\x7d)" ++ [newline] := by decide
    unfold watchText
    cases call.action <;> cases call.cooldown <;>
      simp only [first, second, third, fourth, last, List.append_assoc, List.cons_append, List.nil_append] <;> rfl
  · rw [RuleCall.tokens]
    cases call.cooldown <;> simp only [List.append_assoc, List.append_nil, List.nil_append, List.cons_append]

/-! ## The rule -/

theorem given_cons (doc : YamlDocument) (k v : Nat) (pairs : List (Nat × Nat)) (key : String) :
    given doc (some (.mapping ((k, v) :: pairs))) key =
      if yamlScalar (getNode doc k) = some (text key) then
        match getNode doc v with
        | some value => if isNull value then none else yamlScalar (some value)
        | none => none
      else given doc (some (.mapping pairs)) key := by
  unfold given yamlFindKey
  by_cases same : yamlScalar (getNode doc k) = some (text key)
  · cases held : getNode doc v <;> simp only [List.find?_cons_of_pos, same, held, decide_true, if_true]
  · simp only [same, decide_false, Bool.false_eq_true, not_false_eq_true, List.find?_cons_of_neg, if_false]

/-- A field is what its key is given, unless it was read before. -/
theorem readRuleFields_given {doc : YamlDocument} {place : List UInt8} {pairs : List (Nat × Nat)} {rule out : RuleFields}
    (read : readRuleFields doc place pairs rule = .ok out) (unseen : ∀ i, rule.seen i = false → rule.fields i = none)
    {key : String} (known : text key ∈ kRuleKeys) :
    out.fields (kRuleKeys.idxOf (text key)) =
      if rule.seen (kRuleKeys.idxOf (text key)) then rule.fields (kRuleKeys.idxOf (text key))
      else given doc (some (.mapping pairs)) key := by
  induction pairs generalizing rule with
  | nil =>
      cases read
      split
      next => rfl
      next fresh => exact unseen _ (Bool.not_eq_true _ ▸ fresh)
  | cons pair pairs ih =>
      obtain ⟨k, v⟩ := pair
      rw [readRuleFields] at read
      rw [given_cons]
      split at read
      next found value scalar node =>
        rw [scalar, node]
        dsimp only at read
        split at read
        next => cases read
        next among =>
          split at read
          next => cases read
          next fresh =>
            have same : some found = some (text key) ↔ kRuleKeys.idxOf (text key) = kRuleKeys.idxOf found := by
              rw [List.idxOf_inj known, Option.some_inj, eq_comm]
            have later (i : Nat) (other : Function.update rule.seen (kRuleKeys.idxOf found) true i = false) :
                i ≠ kRuleKeys.idxOf found ∧ rule.seen i = false := by
              by_cases here : i = kRuleKeys.idxOf found
              · rw [here, Function.update_self] at other
                cases other
              · rw [Function.update_of_ne here] at other
                exact ⟨here, other⟩
            split at read
            next null =>
              rw [ih read fun i other => unseen i (later i other).2]
              by_cases here : kRuleKeys.idxOf (text key) = kRuleKeys.idxOf found
              · simp only [here, Function.update_self, if_true, same.mpr here, fresh, null,
                  Bool.false_eq_true, if_false]
                exact unseen _ (Bool.not_eq_true _ ▸ fresh)
              · simp only [Function.update_of_ne here, mt same.mp here, if_false]
            next notNull =>
              split at read
              next => cases read
              next s scalarValue =>
                rw [ih read fun i other => (Function.update_of_ne (later i other).1 _ _).trans (unseen i (later i other).2)]
                by_cases here : kRuleKeys.idxOf (text key) = kRuleKeys.idxOf found
                · simp only [here, Function.update_self, if_true, same.mpr here, fresh, notNull,
                    Bool.false_eq_true, if_false, scalarValue]
                · simp only [Function.update_of_ne here, mt same.mp here, if_false]
      next => cases read

theorem parseIntFull_bounds {s : List UInt8} {lo hi n : Int} (read : parseIntFull s lo hi = some n) : lo ≤ n ∧ n ≤ hi := by
  unfold parseIntFull at read
  split at read
  · split at read
    · simp only [Option.ite_none_right_eq_some, Option.some.injEq] at read
      obtain ⟨within, rfl⟩ := read
      exact ⟨within.2.2.1, within.2.2.2⟩
    · cases read
  · cases read

theorem lex_when {when_ : List UInt8} {tokens : List LuaToken} (read : lex (text "return " ++ when_) = some tokens) :
    ∃ condition, lex when_ = some condition := by
  have begins : Splices (text "return ") [word "return"] := splices_literal 1 (by decide)
  rw [begins] at read
  obtain ⟨condition, found, -⟩ := Option.map_eq_some_iff.mp read
  exact ⟨condition, found⟩

theorem checkWhen_none {load : LuaLoad} {when_ who : List UInt8} {line : Nat}
    (taken : checkWhen (some load) when_ line who = none) : load (text "return " ++ when_) = .ok () := by
  unfold checkWhen at taken
  dsimp only at taken
  split at taken
  next => assumption
  next => cases taken

/-- A field with a count is left out, or holds one. -/
def Counts : Option (List UInt8) → Option Nat → Prop
  | some s, ticks => ∃ n, ticks = some n ∧ parseIntFull s 0 intMax = some (n : Int)
  | none, ticks => ticks = none

theorem count_ok {field : Option (List UInt8)} (error : List UInt8 → List UInt8) {count : Option Int}
    (read : (match field with
      | none => .ok none
      | some s => match parseIntFull s 0 intMax with
        | some n => .ok (some n)
        | none => .error (error s)) = Except.ok count) :
    ∃ ticks : Option Nat, count = ticks.map (↑) ∧ Counts field ticks := by
  cases field with
  | none =>
      cases read
      exact ⟨none, rfl, rfl⟩
  | some s =>
      cases parsed : parseIntFull s 0 intMax with
      | none =>
          simp only [parsed] at read
          cases read
      | some n =>
          simp only [parsed] at read
          cases read
          obtain ⟨n, rfl⟩ := Int.eq_ofNat_of_zero_le (parseIntFull_bounds parsed).1
          exact ⟨some n, rfl, n, rfl, parsed⟩

def RuleAction.text : RuleAction → List UInt8
  | .alert => Lib.text "alert"
  | .log => Lib.text "log"
  | .escalate => Lib.text "escalate"

theorem action_known {action : List UInt8}
    (known : ¬(!decide (action = text "log") && !decide (action = text "escalate") && decide (action ≠ text "alert")) = true) :
    ∃ known : RuleAction, action = RuleAction.text known := by
  by_cases log : action = text "log"
  · exact ⟨.log, log⟩
  · by_cases escalate : action = text "escalate"
    · exact ⟨.escalate, escalate⟩
    · by_cases alert : action = text "alert"
      · exact ⟨.alert, alert⟩
      · simp [log, escalate, alert] at known

theorem action_text : ∀ action : RuleAction, decide (RuleAction.text action = text "log") = decide (action = .log) ∧
    decide (RuleAction.text action = text "escalate") = decide (action = .escalate) := by
  intro action
  cases action <;> decide

theorem lex_watchText (call : RuleCall) {when_ : List UInt8} (condition : lex when_ = some call.condition)
    (line : ∀ b ∈ when_, isNewline b = false) {forTicks : Option Nat} (ticks : call.forTicks = forTicks.getD 0) :
    lex (watchText call.name when_ (severityName call.severity) call.message
      (decide (RuleAction.text call.action = text "log")) (decide (RuleAction.text call.action = text "escalate"))
      ((forTicks.map (↑) : Option Int).getD 0) (call.cooldown.map (↑))) = some call.tokens := by
  have count : (forTicks.map (↑) : Option Int).getD 0 = call.forTicks := by
    rw [ticks]
    cases forTicks <;> rfl
  rw [(action_text call.action).1, (action_text call.action).2, count]
  exact (splices_watchText call condition line).lex

theorem call_of_fields {doc : YamlDocument} {item : Option YamlNode} {rule : RuleFields} {name when_ : List UInt8}
    {condition : List LuaToken} {action : RuleAction} {sev : AlertSeverity} {forTicks cooldown : Option Nat}
    (placed : ∀ key i, kRuleKeys.idxOf (text key) = i → text key ∈ kRuleKeys → rule.fields i = given doc item key)
    (named : rule.fields 0 = some name) (stated : rule.fields 1 = some when_) (read : lex when_ = some condition)
    (counted : Counts (rule.fields 2) forTicks) (cooled : Counts (rule.fields 3) cooldown)
    (severe : match rule.fields 4 with
      | some severity => parseSeverity severity = some sev
      | none => sev = .warning)
    (acts : (rule.fields 5).getD (text "alert") = RuleAction.text action) :
    (⟨name, condition, action, sev, (rule.fields 6).getD name, forTicks.getD 0, cooldown⟩ : RuleCall).Of doc item := by
  rw [placed "name" 0 (by decide) (by decide)] at named
  rw [placed "when" 1 (by decide) (by decide)] at stated
  rw [placed "for_ticks" 2 (by decide) (by decide)] at counted
  rw [placed "cooldown" 3 (by decide) (by decide)] at cooled
  rw [placed "severity" 4 (by decide) (by decide)] at severe
  rw [placed "action" 5 (by decide) (by decide)] at acts
  rw [placed "message" 6 (by decide) (by decide)]
  refine ⟨named, ⟨when_, stated, read⟩, ?_, ?_, rfl, ?_, ?_⟩
  · cases action <;> exact acts
  · cases severity : given doc item "severity" <;> rw [severity] at severe <;> exact severe
  · cases count : given doc item "for_ticks" with
    | none =>
        rw [count] at counted
        exact congrArg (Option.getD · 0) counted
    | some s =>
        rw [count] at counted
        obtain ⟨n, rfl, parsed⟩ := counted
        exact parsed
  · cases count : given doc item "cooldown" <;> rw [count] at cooled <;> exact cooled

/-- What `transpile_rule` writes is the tokens of the call that the rule stands for. Lua takes only text that it can lex. -/
theorem yaml_rule_is_call {doc : YamlDocument} {line : Nat → Nat} {item : Option YamlNode} {index : Nat} {load : LuaLoad}
    {out : List UInt8} (lexes : ∀ chunk, load chunk = .ok () → ∃ tokens, lex chunk = some tokens)
    (accepted : transpileRule doc line item index (some load) = .ok out) :
    ∃ call : RuleCall, call.Of doc item ∧ lex out = some call.tokens := by
  unfold transpileRule at accepted
  dsimp only at accepted
  split at accepted
  next pairs =>
    cases fields : readRuleFields doc (text "rule " ++ decimal index) pairs noFields with
    | error error => rw [fields] at accepted; cases accepted
    | ok rule =>
        rw [fields] at accepted
        dsimp only [bind, Except.bind] at accepted
        have placed (key : String) (i : Nat) (here : kRuleKeys.idxOf (text key) = i) (known : text key ∈ kRuleKeys) :
            rule.fields i = given doc (some (.mapping pairs)) key := by
          have field := readRuleFields_given fields (fun _ _ => rfl) known
          rwa [here] at field
        cases named : rule.fields 0 with
        | none => rw [named] at accepted; cases accepted
        | some name =>
            cases stated : rule.fields 1 with
            | none =>
                rw [stated] at accepted
                dsimp only [Option.getD_none] at accepted
                rw [if_pos rfl] at accepted
                split at accepted <;> cases accepted
            | some when_ =>
                rw [named, stated] at accepted
                dsimp only [Option.getD_some] at accepted
                split at accepted
                next => cases accepted
                split at accepted
                next => cases accepted
                split at accepted
                next => cases accepted
                next oneLine =>
                split at accepted
                next => cases accepted
                next taken =>
                split at accepted
                next => cases accepted
                next forTicks counted =>
                split at accepted
                next => cases accepted
                next cooldown cooled =>
                obtain ⟨tokens, whole⟩ := lexes _ (checkWhen_none taken)
                obtain ⟨condition, read⟩ := lex_when whole
                obtain ⟨forTicks, rfl, counts⟩ := count_ok (fun s => _) counted
                obtain ⟨cooldown, rfl, cools⟩ := count_ok (fun s => _) cooled
                have line_ : ∀ b ∈ when_, isNewline b = false := by
                  intro b held
                  simp only [List.any_eq_true, not_exists, not_and] at oneLine
                  exact Bool.not_eq_true _ ▸ oneLine b held
                -- whatever the severity, what is left of the checks is the action's
                have finish (sev : AlertSeverity) {error : List UInt8}
                    (severe : match rule.fields 4 with
                      | some severity => parseSeverity severity = some sev
                      | none => sev = .warning)
                    (acts : (if (!decide ((rule.fields 5).getD (text "alert") = text "log") &&
                          !decide ((rule.fields 5).getD (text "alert") = text "escalate") &&
                          decide ((rule.fields 5).getD (text "alert") ≠ text "alert")) = true then .error error
                        else .ok (watchText name when_ (severityName sev) ((rule.fields 6).getD name)
                          (decide ((rule.fields 5).getD (text "alert") = text "log"))
                          (decide ((rule.fields 5).getD (text "alert") = text "escalate"))
                          ((forTicks.map (↑) : Option Int).getD 0) (cooldown.map (↑)))) = Except.ok out) :
                    ∃ call : RuleCall, call.Of doc (some (.mapping pairs)) ∧ lex out = some call.tokens := by
                  split at acts
                  next => cases acts
                  next known =>
                    obtain ⟨action, acted⟩ := action_known known
                    rw [acted] at acts
                    cases acts
                    exact ⟨_, call_of_fields placed named stated read counts cools severe acted,
                      lex_watchText ⟨name, condition, action, sev, _, _, cooldown⟩ read line_ rfl⟩
                split at accepted
                next absent => exact finish .warning (by rw [absent]) accepted
                next severity present =>
                  split at accepted
                  next sev parsed => exact finish sev (by rw [present]; exact parsed) accepted
                  next => cases accepted
  next => cases accepted

def diskRule : YamlDocument :=
  [.mapping [(2, 3), (4, 5)], .scalar (text "name") .plain, .scalar (text "say \"disk\"") .plain,
    .scalar (text "when") .plain, .scalar (text "full()") .plain]

def takesFull : LuaLoad := fun chunk => if chunk = text "return full()" then .ok () else .error none

theorem yaml_rule_is_call_disk : ∃ call : RuleCall, call.Of diskRule (getNode diskRule 1) ∧
    lex (watchText (text "say \"disk\"") (text "full()") (text "warning") (text "say \"disk\"") false false 0 none) =
      some call.tokens := by
  have lexes : ∀ chunk, takesFull chunk = .ok () → ∃ tokens, lex chunk = some tokens := by
    intro chunk taken
    unfold takesFull at taken
    split at taken
    next same =>
      have read : Splices (text "return full()") [word "return", word "full", symbol "(", symbol ")"] :=
        splices_literal 4 (by decide)
      exact ⟨_, same ▸ read.lex⟩
    next => cases taken
  have accepted : transpileRule diskRule (fun _ => 0) (getNode diskRule 1) 1 (some takesFull) =
      .ok (watchText (text "say \"disk\"") (text "full()") (text "warning") (text "say \"disk\"") false false 0 none) := rfl
  exact yaml_rule_is_call lexes accepted

end Budyk.Proof
