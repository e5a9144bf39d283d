import Budyk.Lib.Triple
import Budyk.Proof.Limits
import Budyk.Proof.LuaPattern

/-! What the matcher keeps at every step: the account of its steps, and a depth no short pattern goes beyond. -/

namespace Budyk.Proof
open Lib Rules Rules.LuaPattern Spec.LuaPattern

def Within (src : List UInt8) (captures : List Capture) : Prop :=
  ∀ c ∈ captures, ∀ n, c.len = .length n → n ≤ src.length

/-- The most that is counted at once: a reference to a position capture counts 2 ^ 60. -/
def mostCounted (src p : List UInt8) : Nat := 2 ^ 60 + src.length + p.length

section
variable {limits : Limits} {src p : List UInt8} {I : MatchState → Prop} {E : MatchError → MatchState → Prop}

/-- `I` says nothing of the captures, and counting keeps it. -/
structure KeepsSteps (limits : Limits) (src p : List UInt8) (I : MatchState → Prop)
    (E : MatchError → MatchState → Prop) : Prop where
  counts : ∀ n ≤ mostCounted src p, Triple I (count limits n) (fun _ => I) E
  frame : ∀ ms captures, I ms → I { ms with captures }
  pattern : ∀ ms e, I ms → E (.pattern e) ms

abbrev Steady (src : List UInt8) (I : MatchState → Prop) (ms : MatchState) : Prop := I ms ∧ Within src ms.captures

abbrev KeptBy {α : Type} (src : List UInt8) (I : MatchState → Prop) (E : MatchError → MatchState → Prop) (x : Matching α)
    (Q : α → Prop) : Prop :=
  Triple (Steady src I) x (fun a ms => Steady src I ms ∧ Q a) E

variable {α β : Type}

theorem KeptBy.bind {x : Matching α} {k : α → Matching β} {Q : α → Prop} {R : β → Prop} (hx : KeptBy src I E x Q)
    (hk : ∀ a, Q a → KeptBy src I E (k a) R) : KeptBy src I E (x >>= k) R :=
  Triple.bind hx fun a ms holds => hk a holds.2 ms holds.1

theorem keptBy_pure {Q : α → Prop} {a : α} (holds : Q a) : KeptBy src I E (pure a) Q := fun _ held => ⟨held, holds⟩

variable (kept : KeepsSteps limits src p I E)
include kept

theorem keptBy_malformed {Q : α → Prop} (e : PatternError) : KeptBy src I E (malformed e) Q :=
  fun ms held => kept.pattern ms e held.1

theorem keptBy_count {n : Nat} (le : n ≤ mostCounted src p) : KeptBy src I E (count limits n) fun _ => True := by
  intro ms held
  have keeps := kept.counts n le ms held.1
  have knows := (knows_count n : Knows (count limits n) ()) ms
  cases result : count limits n ms with
  | error d ms' =>
      rw [result] at keeps
      exact keeps
  | ok u ms' =>
      rw [result] at keeps knows
      refine ⟨⟨keeps, ?_⟩, trivial⟩
      rw [knows.2]
      exact held.2

/-! ## Items -/

omit kept in
theorem bracketEnd_length {q ep : List UInt8} (ends : bracketEnd q = some ep) : ep.length < q.length := by
  induction q using bracketEnd.induct with
  | case1 => cases ends
  | case2 b => cases ends
  | case3 c => cases ends
  | case4 c p =>
      cases ends
      simp only [List.length_cons]
      omega
  | case5 c d p other ih =>
      rw [bracketEnd, if_pos rfl] at ends
      have shorter := ih ((if_neg other).symm.trans ends)
      simp only [List.length_cons] at shorter ⊢
      omega
  | case6 b p plain =>
      unfold bracketEnd at ends
      rw [if_neg plain, if_pos rfl] at ends
      cases ends
      simp only [List.length_cons]
      omega
  | case7 b c p plain other ih =>
      unfold bracketEnd at ends
      rw [if_neg plain, if_neg other] at ends
      have shorter := ih ends
      simp only [List.length_cons] at shorter ⊢
      omega

theorem keptBy_classend {q : List UInt8} (present : q ≠ []) (le : q.length ≤ p.length) :
    KeptBy src I E (classend limits q) fun ep => ep.length < q.length := by
  have least : 0 < q.length := List.length_pos_iff.mpr present
  rw [classend]
  apply Triple.ite
  · intro _
    apply Triple.ite
    · exact fun _ => keptBy_malformed kept _
    · intro more
      apply keptBy_pure
      rw [List.length_drop]
      omega
  intro _
  apply Triple.ite
  · intro _
    cases ends : bracketEnd (if q.tail.head? = some caret then q.drop 2 else q.drop 1) with
    | none => exact keptBy_malformed kept _
    | some ep =>
        have shorter := bracketEnd_length ends
        have few : (q.length - ep.length - 1) / 16 ≤ mostCounted src p := by
          rw [mostCounted]
          omega
        apply (keptBy_count kept few).bind
        intro _ _
        apply keptBy_pure
        split at shorter
        · rw [List.length_drop] at shorter
          omega
        · rw [List.length_drop] at shorter
          omega
  · intro _
    apply keptBy_pure
    rw [List.length_drop]
    omega

theorem keptBy_singlematch (s : Nat) {q : List UInt8} (le : q.length ≤ p.length) (ep : List UInt8) :
    KeptBy src I E (singlematch limits src s q ep) fun matched => matched = true → s < src.length := by
  have one : 1 ≤ mostCounted src p := by
    rw [mostCounted]
    omega
  apply (keptBy_count kept one).bind
  intro _ _
  apply Triple.ite
  · exact fun _ => keptBy_pure fun absurd_ => Bool.noConfusion absurd_
  intro within
  have here (b : Bool) : b = true → s < src.length := fun _ => Nat.not_le.mp within
  apply Triple.ite
  · exact fun _ => keptBy_pure (here _)
  intro _
  apply Triple.ite
  · exact fun _ => keptBy_pure (here _)
  intro _
  apply Triple.ite
  · intro _
    have few : (q.length - ep.length) / 16 ≤ mostCounted src p := by
      rw [mostCounted]
      omega
    apply (keptBy_count kept few).bind
    exact fun _ _ => keptBy_pure (here _)
  · exact fun _ => keptBy_pure (here _)

theorem keptBy_repeats {s : Nat} {q : List UInt8} (le : q.length ≤ p.length) (ep : List UInt8) (turns : Nat) {i : Nat}
    (within : s + i ≤ src.length) :
    KeptBy src I E (repeats limits src s q ep turns i) fun i => s + i ≤ src.length := by
  induction turns generalizing i with
  | zero => exact keptBy_pure within
  | succ turns ih =>
      apply (keptBy_singlematch kept (s + i) le ep).bind
      intro matched here
      apply Triple.ite
      · exact fun yes => ih (here yes)
      · exact fun _ => keptBy_pure within

/-- A call that keeps what holds, at whatever place of the subject. -/
abbrev KeptAt (src : List UInt8) (I : MatchState → Prop) (E : MatchError → MatchState → Prop)
    (again : Nat → Matching (Option Nat)) : Prop :=
  ∀ s ≤ src.length, KeptBy src I E (again s) fun _ => True

omit kept in
theorem keptBy_orElse {x : Matching (Option Nat)} {k : Option Nat → Matching (Option Nat)}
    (hx : KeptBy src I E x fun _ => True) (found : ∀ e, k (some e) = pure (some e))
    (next : KeptBy src I E (k none) fun _ => True) : KeptBy src I E (x >>= k) fun _ => True := by
  apply hx.bind
  intro answer _
  cases answer with
  | none => exact next
  | some e =>
      rw [found]
      exact keptBy_pure trivial

section
variable {again : Nat → Matching (Option Nat)}

omit kept in
theorem keptBy_shrink (keeps : KeptAt src I E again) {s i : Nat} (within : s + i ≤ src.length) :
    KeptBy src I E (shrink again s i) fun _ => True := by
  induction i with
  | zero => exact keeps s within
  | succ i ih => exact keptBy_orElse (keeps _ within) (fun _ => rfl) (ih (by omega))

theorem keptBy_maxExpand (keeps : KeptAt src I E again) {s : Nat} (within : s ≤ src.length) {q : List UInt8}
    (le : q.length ≤ p.length) (ep : List UInt8) :
    KeptBy src I E (maxExpand limits src again s q ep) fun _ => True := by
  apply (keptBy_repeats kept le ep _ (i := 0) within).bind
  exact fun _ most => keptBy_shrink keeps most

theorem keptBy_minExpand (keeps : KeptAt src I E again) {q : List UInt8} (le : q.length ≤ p.length) (ep : List UInt8)
    (turns : Nat) {s : Nat} (within : s ≤ src.length) :
    KeptBy src I E (minExpand limits src again q ep turns s) fun _ => True := by
  induction turns generalizing s with
  | zero => exact keptBy_pure trivial
  | succ turns ih =>
      refine keptBy_orElse (keeps s within) (fun _ => rfl) ?_
      apply (keptBy_singlematch kept s le ep).bind
      intro matched here
      apply Triple.ite
      · exact fun yes => ih (here yes)
      · exact fun _ => keptBy_pure trivial

end

omit kept in
theorem ends_nowhere {holds : Nat → Prop} : ∀ e ∈ (none : Option Nat), holds e := by
  intro e absent
  cases absent

omit kept in
theorem balanceEnd_within {b e : UInt8} {rest : List UInt8} {cont s closed : Nat}
    (closes : balanceEnd b e rest cont s = some closed) : s ≤ closed ∧ closed < s + rest.length := by
  induction rest generalizing cont s with
  | nil => cases closes
  | cons c rest ih =>
      rw [balanceEnd] at closes
      rw [List.length_cons]
      split at closes
      · split at closes
        · cases closes
          omega
        · have later := ih closes
          omega
      split at closes
      · have later := ih closes
        omega
      · have later := ih closes
        omega

theorem keptBy_matchbalance {s : Nat} (within : s ≤ src.length) (q : List UInt8) :
    KeptBy src I E (matchbalance limits src s q) fun answer => ∀ e ∈ answer, e ≤ src.length := by
  apply Triple.ite
  · exact fun _ => keptBy_malformed kept _
  intro _
  apply Triple.ite
  · exact fun _ => keptBy_pure ends_nowhere
  intro _
  cases closes : balanceEnd (q.getD 0 0) (q.getD 1 0) (src.drop (s + 1)) 1 (s + 1) with
  | none =>
      have few : max (src.length - s) 1 ≤ mostCounted src p := by
        rw [mostCounted]
        omega
      exact (keptBy_count kept few).bind fun _ _ => keptBy_pure ends_nowhere
  | some closed =>
      obtain ⟨least, less⟩ := balanceEnd_within closes
      rw [List.length_drop] at less
      have few : closed - s ≤ mostCounted src p := by
        rw [mostCounted]
        omega
      apply (keptBy_count kept few).bind
      intro _ _
      apply keptBy_pure
      intro e same
      cases same
      omega

omit kept in
theorem checkCapture_mem {captures : List Capture} {digit : UInt8} {c : Capture}
    (named : checkCapture captures digit = some c) : c ∈ captures := by
  rw [checkCapture] at named
  split at named
  · cases named
  split at named
  next held =>
    split at named
    · cases named
    · cases named
      exact List.mem_of_getElem? held
  next => cases named

theorem keptBy_matchCapture {s : Nat} (within : s ≤ src.length) (digit : UInt8) :
    KeptBy src I E (matchCapture limits src s digit) fun answer => ∀ e ∈ answer, e ≤ src.length := by
  intro ms held
  have position : 1 + positionLen / 16 ≤ mostCounted src p := by
    rw [mostCounted, positionLen]
    omega
  rw [matchCapture, get_bind]
  generalize 1 + positionLen / 16 = most at position ⊢
  have fails : KeptBy src I E (do count limits most; pure none : Matching (Option Nat)) fun answer =>
      ∀ e ∈ answer, e ≤ src.length :=
    (keptBy_count kept position).bind fun _ _ => keptBy_pure ends_nowhere
  cases named : checkCapture ms.captures digit with
  | none => exact keptBy_malformed kept _ ms held
  | some c =>
      obtain ⟨init, len⟩ := c
      cases len with
      | unfinished => exact fails ms held
      | position => exact fails ms held
      | length len =>
          have most := held.2 _ (checkCapture_mem named) len rfl
          have few : 1 + len / 16 ≤ mostCounted src p := by
            rw [mostCounted]
            omega
          refine (keptBy_count kept few).bind (fun _ _ => ?_) ms held
          apply Triple.ite
          · intro here
            apply keptBy_pure
            intro e same
            cases same
            omega
          · exact fun _ => keptBy_pure ends_nowhere

/-! ## Captures -/

section
variable {again : Nat → Matching (Option Nat)}

theorem keptBy_startCapture {s : Nat} (keeps : KeptBy src I E (again s) fun _ => True) {what : CaptureLen}
    (unclosed : ∀ n, what ≠ .length n) : KeptBy src I E (startCapture again s what) fun _ => True := by
  apply Triple.get
  intro ms held
  by_cases full : kMaxCaptures ≤ ms.captures.length
  · rw [if_pos full]
    exact keptBy_malformed kept _ ms held
  rw [if_neg full]
  have pushed : KeptBy src I E (modify fun ms => { ms with captures := ms.captures ++ [⟨s, what⟩] }) fun _ => True := by
    intro ms held
    refine ⟨⟨kept.frame ms _ held.1, ?_⟩, trivial⟩
    intro c mem n len
    rcases List.mem_append.mp mem with old | new
    · exact held.2 c old n len
    · cases List.mem_singleton.mp new
      exact absurd len (unclosed n)
  have popped : KeptBy src I E (do
      modify fun ms : MatchState => { ms with captures := ms.captures.dropLast }
      pure none : Matching (Option Nat)) fun _ => True := by
    intro ms held
    exact ⟨⟨kept.frame ms _ held.1, fun c mem => held.2 c (List.mem_of_mem_dropLast mem)⟩, trivial⟩
  refine (pushed.bind fun _ _ => ?_) ms held
  exact keptBy_orElse keeps (fun _ => rfl) (id popped)

omit kept in
theorem within_modify {captures : List Capture} (all : Within src captures) (l : Nat) {len : Capture → CaptureLen}
    (few : ∀ c n, len c = .length n → n ≤ src.length) :
    Within src (captures.modify l fun c => { c with len := len c }) := by
  intro c mem n length
  obtain ⟨i, held⟩ := List.mem_iff_getElem?.mp mem
  rw [List.getElem?_modify, Option.map_eq_map, Option.map_eq_some_iff] at held
  obtain ⟨old, there, rfl⟩ := held
  split at length
  · exact few old n length
  · exact all old (List.mem_of_getElem? there) n length

theorem keptBy_endCapture {s : Nat} (within : s ≤ src.length) (keeps : KeptBy src I E (again s) fun _ => True) :
    KeptBy src I E (endCapture again s) fun _ => True := by
  apply Triple.get
  intro ms held
  cases last : captureToClose ms.captures ms.captures.length with
  | none => exact keptBy_malformed kept _ ms held
  | some l =>
      have closed : KeptBy src I E (modify fun ms : MatchState =>
          { ms with captures := ms.captures.modify l fun c => { c with len := .length (s - c.init) } }) fun _ => True := by
        intro ms held
        refine ⟨⟨kept.frame ms _ held.1, within_modify held.2 l ?_⟩, trivial⟩
        intro c n same
        cases same
        omega
      have opened : KeptBy src I E (do
          modify fun ms : MatchState =>
            { ms with captures := ms.captures.modify l fun c => { c with len := .unfinished } }
          pure none : Matching (Option Nat)) fun _ => True := by
        intro ms held
        refine ⟨⟨kept.frame ms _ held.1, within_modify held.2 l ?_⟩, trivial⟩
        intro c n same
        cases same
      refine (closed.bind fun _ _ => ?_) ms held
      exact keptBy_orElse keeps (fun _ => rfl) (id opened)

end

/-! ## The matcher -/

abbrev KeptBelow (src : List UInt8) (I : MatchState → Prop) (E : MatchError → MatchState → Prop)
    (further : Nat → List UInt8 → Matching (Option Nat)) (q : List UInt8) : Prop :=
  ∀ s ≤ src.length, ∀ q', q'.length < q.length → KeptBy src I E (further s q') fun _ => True

variable {deeper next : Nat → List UInt8 → Matching (Option Nat)}

theorem keptBy_default {q : List UInt8} (deep : KeptBelow src I E deeper q) (goes : KeptBelow src I E next q) {s : Nat}
    (within : s ≤ src.length) (present : q ≠ []) (le : q.length ≤ p.length) :
    KeptBy src I E (matchDefault limits src deeper next s q) fun _ => True := by
  apply (keptBy_classend kept present le).bind
  intro ep shorter
  have less : (ep.drop 1).length < q.length := by
    rw [List.length_drop]
    omega
  have again : KeptAt src I E fun s => deeper s (ep.drop 1) := fun s within => deep s within _ less
  apply (keptBy_singlematch kept s le ep).bind
  intro matched here
  apply Triple.ite
  · intro _
    apply Triple.ite
    · exact fun _ => goes s within _ less
    · exact fun _ => keptBy_pure trivial
  intro yes
  rw [Bool.not_eq_true', Bool.not_eq_false] at yes
  have following : s + 1 ≤ src.length := here yes
  apply Triple.ite
  · exact fun _ => keptBy_orElse (again _ following) (fun _ => rfl) (goes s within _ less)
  intro _
  apply Triple.ite
  · exact fun _ => keptBy_maxExpand kept again following le ep
  intro _
  apply Triple.ite
  · exact fun _ => keptBy_maxExpand kept again within le ep
  intro _
  apply Triple.ite
  · exact fun _ => keptBy_minExpand kept again le ep _ within
  · exact fun _ => goes _ following _ shorter

theorem keptBy_item {q : List UInt8} (deep : KeptBelow src I E deeper q) (goes : KeptBelow src I E next q) {s : Nat}
    (within : s ≤ src.length) (le : q.length ≤ p.length) :
    KeptBy src I E (matchItem limits src deeper next s q) fun _ => True := by
  cases q with
  | nil => exact keptBy_pure trivial
  | cons b rest =>
  have drop (n : Nat) : (rest.drop n).length < (b :: rest).length := by
    rw [List.length_drop, List.length_cons]
    omega
  have ends {x : Matching (Option Nat)} (n : Nat) (answers : KeptBy src I E x fun answer => ∀ e ∈ answer, e ≤ src.length)
      {k : Option Nat → Matching (Option Nat)} (found : ∀ s, k (some s) = next s (rest.drop n)) (stops : k none = pure none) :
      KeptBy src I E (x >>= k) fun _ => True := by
    apply answers.bind
    intro answer most
    cases answer with
    | none =>
        rw [stops]
        exact keptBy_pure trivial
    | some e =>
        rw [found]
        exact goes e (most e rfl) _ (drop n)
  rw [matchItem]
  apply Triple.ite
  · intro _
    apply Triple.ite
    · exact fun _ => keptBy_startCapture kept (deep s within _ (drop 1)) fun _ same => CaptureLen.noConfusion same
    · exact fun _ => keptBy_startCapture kept (deep s within _ (drop 0)) fun _ same => CaptureLen.noConfusion same
  intro _
  apply Triple.ite
  · exact fun _ => keptBy_endCapture kept within (deep s within _ (drop 0))
  intro _
  apply Triple.ite
  · exact fun _ => keptBy_pure trivial
  intro _
  apply Triple.ite
  · exact fun _ => ends 3 (keptBy_matchbalance kept within _) (fun _ => rfl) rfl
  intro _
  apply Triple.ite
  · intro _
    apply Triple.ite
    · exact fun _ => keptBy_malformed kept _
    intro set
    have present : rest.drop 1 ≠ [] := by
      intro absent
      rw [absent] at set
      apply set
      intro same
      cases same
    have fewer := drop 1
    apply (keptBy_classend kept present (by omega)).bind
    intro ep shorter
    apply Triple.ite
    · exact fun _ => goes s within _ (by omega)
    · exact fun _ => keptBy_pure trivial
  intro _
  apply Triple.ite
  · exact fun _ => ends 1 (keptBy_matchCapture kept within _) (fun _ => rfl) rfl
  · exact fun _ => keptBy_default kept deep goes within (List.cons_ne_nil b rest) le

theorem keptBy_matchFrom {turns depth : Nat} {q : List UInt8} (enough : q.length < turns) (le : q.length ≤ p.length)
    (deep : q.length ≤ depth ∨ ∀ ms, I ms → E .tooComplex ms) {s : Nat} (within : s ≤ src.length) :
    KeptBy src I E (matchFrom limits src turns depth s q) fun _ => True := by
  induction turns generalizing depth q s with
  | zero => omega
  | succ turns ih =>
      have one : 1 ≤ mostCounted src p := by
        rw [mostCounted]
        omega
      apply (keptBy_count kept one).bind
      intro _ _
      apply keptBy_item kept
      · intro s within q' less
        apply Triple.ite
        · intro bottom ms held
          rcases deep with few | complex
          · omega
          · exact complex ms held.1
        · intro more
          apply ih
          · omega
          · omega
          · rcases deep with few | complex
            · exact .inl (by omega)
            · exact .inr complex
          · exact within
      · intro s within q' less
        apply ih
        · omega
        · omega
        · rcases deep with few | complex
          · exact .inl (by omega)
          · exact .inr complex
        · exact within
      · exact within
      · exact le

end

/-! ## The account -/

section
variable {limits : Limits} {src p : List UInt8} {start : MatchState}

/-- Since `start` every step counted is charged or pending. -/
structure Metered (limits : Limits) (start ms : MatchState) : Prop where
  grows : start.counted ≤ ms.counted
  sum : ms.engine.instructionsUsed.toNat + ms.steps + start.counted =
    start.engine.instructionsUsed.toNat + start.steps + ms.counted
  pending : ms.steps < kStepChunk
  fits : start.engine.instructionsUsed ≤ limits.instructionLimit → ms.engine.instructionsUsed ≤ limits.instructionLimit
  others : { ms.engine with instructionsUsed := start.engine.instructionsUsed } = start.engine

/-- The steps since `start` are more than the limit left room for, and the hook raises at the next instruction. -/
structure Overrun (limits : Limits) (start ms : MatchState) : Prop where
  beyond : limits.instructionLimit.toNat + start.counted < start.engine.instructionsUsed.toNat + start.steps + ms.counted
  spent : ms.engine = { start.engine with instructionsUsed := limits.instructionLimit + 1, hookEvery := 1 }

def OnError (limits : Limits) (start : MatchState) : MatchError → MatchState → Prop
  | .limit, ms => Overrun limits start ms
  | .raised, _ => False
  | _, ms => Metered limits start ms

theorem kStepChunk_lt : kStepChunk < 2 ^ 11 := by decide

theorem charged_pending (limits : Limits) (ms : MatchState) {n : Nat} (few : n < 2 ^ 64) (grows : start.counted ≤ ms.counted)
    (sum : ms.engine.instructionsUsed.toNat + n + start.counted =
      start.engine.instructionsUsed.toNat + start.steps + ms.counted)
    (others : { ms.engine with instructionsUsed := start.engine.instructionsUsed } = start.engine) (absent : ms.steps = 0) :
    Concludes (fun _ ms' => Metered limits start ms' ∧ ms'.steps = 0 ∧
        ms'.engine.instructionsUsed ≤ limits.instructionLimit) (OnError limits start) (budykLuaCharge limits n ms) := by
  have same : (UInt64.ofNat n).toNat = n := UInt64.toNat_ofNat_of_lt' few
  have step := charge_cases limits ms.engine (UInt64.ofNat n)
  rw [budykLuaCharge]
  generalize ms.engine.charge limits (UInt64.ofNat n) = charged at step
  cases step with
  | raised beyond =>
      rw [same] at beyond
      refine ⟨?_, ?_⟩
      · dsimp only
        omega
      · dsimp only
        rw [← others]
  | counted used adds within =>
      rw [same] at adds
      refine ⟨⟨grows, ?_, ?_, fun _ => within, others⟩, absent, within⟩
      · dsimp only
        omega
      · dsimp only
        rw [absent]
        decide

theorem metered_count {n : Nat} (few : kStepChunk + n < 2 ^ 64) :
    Triple (Metered limits start) (count limits n) (fun _ => Metered limits start) (OnError limits start) := by
  intro ms held
  obtain ⟨grows, sum, pending, fits, others⟩ := held
  rw [count]
  dsimp only
  split
  · have charges := charged_pending limits { ms with steps := 0, counted := ms.counted + n } (n := ms.steps + n)
      (by omega) (by dsimp only; omega) (by dsimp only; omega) others rfl
    apply charges.imp
    · exact fun _ _ holds => holds.1
    · exact fun _ _ raised => raised
  next room =>
    refine ⟨?_, ?_, Nat.not_le.mp room, fits, others⟩
    · dsimp only
      omega
    · dsimp only
      omega

/-- What a call leaves when its steps are flushed: every one is charged. -/
structure Flushed (limits : Limits) (start ms : MatchState) : Prop where
  grows : start.counted ≤ ms.counted
  sum : ms.engine.instructionsUsed.toNat + start.counted =
    start.engine.instructionsUsed.toNat + start.steps + ms.counted
  nothing : ms.steps = 0
  fits : start.engine.instructionsUsed ≤ limits.instructionLimit → ms.engine.instructionsUsed ≤ limits.instructionLimit
  others : { ms.engine with instructionsUsed := start.engine.instructionsUsed } = start.engine

theorem flushed_flush :
    Triple (Metered limits start) (countFlush limits) (fun _ => Flushed limits start) (OnError limits start) := by
  intro ms held
  obtain ⟨grows, sum, pending, fits, others⟩ := held
  have chunk := kStepChunk_lt
  rw [countFlush]
  split
  · have charges := charged_pending limits { ms with steps := 0 } (n := ms.steps) (by omega) grows
      (by dsimp only; omega) others rfl
    apply charges.imp
    · rintro _ ms' ⟨held, nothing, -⟩
      obtain ⟨grows, sum, pending, fits, others⟩ := held
      refine ⟨grows, ?_, nothing, fits, others⟩
      omega
    · exact fun _ _ raised => raised
  next nothing =>
    have absent : ms.steps = 0 := Nat.eq_zero_of_not_pos nothing
    refine ⟨grows, ?_, absent, fits, others⟩
    omega

theorem keepsSteps_metered (fit : src.length + p.length < Ledger.addressSpace) :
    KeepsSteps limits src p (Metered limits start) (OnError limits start) where
  counts := by
    intro n few
    rw [mostCounted] at few
    rw [Ledger.addressSpace] at fit
    have chunk := kStepChunk_lt
    apply metered_count
    omega
  frame := fun ms captures held => ⟨held.grows, held.sum, held.pending, held.fits, held.others⟩
  pattern := fun ms e held => held

/-! ## The depth -/

/-- Only a long pattern is too complex, and only a replacement raises. -/
def InDepth (p : List UInt8) (calls : Prop) : MatchError → Prop
  | .tooComplex => kMaxCCalls ≤ p.length
  | .raised => calls
  | _ => True

theorem inDepth_charge (calls : Prop) (n : Nat) (ms : MatchState) :
    Concludes (fun _ _ => True) (fun e _ => InDepth p calls e) (budykLuaCharge limits n ms) := by
  rw [budykLuaCharge]
  split
  · trivial
  · trivial

theorem keepsSteps_inDepth (calls : Prop) : KeepsSteps limits src p (fun _ => True) (fun e _ => InDepth p calls e) where
  counts := by
    intro n _ ms _
    rw [count]
    dsimp only
    split
    · exact inDepth_charge _ _ _
    · trivial
  frame := fun _ _ _ => trivial
  pattern := fun _ _ _ => trivial

end

end Budyk.Proof
