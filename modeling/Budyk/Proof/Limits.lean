import Budyk.Rules.Limits

/-! The counters of the engine agree with what was granted and charged, over every run. -/

namespace Budyk.Proof
open Rules Ledger

inductive AllocStep (limits : Limits) (c : Counters) (old nsize : UInt64) (realloc : Bool) : Bool × Counters → Prop
  | freed : nsize = 0 → AllocStep limits c old nsize realloc (false, { c with memoryUsed := c.memoryUsed - old })
  | overLimit : nsize ≠ 0 → old < nsize → limits.memoryLimit < c.memoryUsed - old + nsize →
      AllocStep limits c old nsize realloc (false, c)
  | failed : nsize ≠ 0 → realloc = false → AllocStep limits c old nsize realloc (false, c)
  | grown : nsize ≠ 0 → old < nsize → realloc = true → c.memoryUsed - old + nsize ≤ limits.memoryLimit →
      AllocStep limits c old nsize realloc
        (true, ({ c with memoryUsed := c.memoryUsed - old + nsize } : Counters).chargeGrowth limits (nsize - old))
  | kept : nsize ≠ 0 → nsize ≤ old → realloc = true →
      AllocStep limits c old nsize realloc (true, { c with memoryUsed := c.memoryUsed - old + nsize })

theorem alloc_cases (limits : Limits) (c : Counters) (ptr : Option UInt64) (nsize : UInt64) (realloc : Bool) :
    AllocStep limits c (ptr.getD 0) nsize realloc (c.alloc limits ptr nsize realloc) := by
  unfold Counters.alloc
  dsimp only
  split
  next zero => exact .freed zero
  next positive =>
    split
    next beyond => exact .overLimit positive beyond.1 beyond.2
    next within =>
      cases realloc with
      | false => exact .failed positive rfl
      | true =>
          simp only [Bool.not_true, Bool.false_eq_true, if_false]
          split
          next grows =>
            have room := UInt64.not_lt.mp fun beyond => within ⟨grows, beyond⟩
            exact .grown positive grows rfl room
          next shrinks => exact .kept positive (UInt64.not_lt.mp shrinks) rfl

theorem chargeGrowth_spec (limits : Limits) (c : Counters) {bytes : UInt64} (remainder : c.allocBytes < 64)
    (small : bytes.toNat < 2 ^ 63) :
    let after := c.chargeGrowth limits bytes
    let charged := (c.allocBytes.toNat + bytes.toNat) / 64
    after.memoryUsed = c.memoryUsed ∧ after.allocBytes.toNat = (c.allocBytes.toNat + bytes.toNat) % 64 ∧
      after.instructionsUsed.toNat = (c.instructionsUsed.toNat + charged) % 2 ^ 64 ∧
      (after.instructionsUsed - c.instructionsUsed).toNat = charged ∧
      (after.hookEvery = if charged ≠ 0 ∧ limits.instructionLimit < after.instructionsUsed then 1 else c.hookEvery) := by
  have sum : (c.allocBytes + bytes).toNat = c.allocBytes.toNat + bytes.toNat := by
    have less : c.allocBytes.toNat < 64 := remainder
    rw [UInt64.toNat_add]
    omega
  have quotient : ((c.allocBytes + bytes) / kAllocBytesPerInstruction).toNat = (c.allocBytes.toNat + bytes.toNat) / 64 := by
    rw [UInt64.toNat_div, sum]
    rfl
  have rest : ((c.allocBytes + bytes) % kAllocBytesPerInstruction).toNat = (c.allocBytes.toNat + bytes.toNat) % 64 := by
    rw [UInt64.toNat_mod, sum]
    rfl
  unfold Counters.chargeGrowth
  dsimp only
  split
  next full =>
    have present : 64 ≤ c.allocBytes.toNat + bytes.toNat := by
      rw [← sum]
      exact full
    refine ⟨rfl, rest, ?_, ?_, ?_⟩
    · rw [UInt64.toNat_add, quotient]
    · rw [← quotient, UInt64.add_comm, UInt64.add_sub_cancel]
    · have positive : (c.allocBytes.toNat + bytes.toNat) / 64 ≠ 0 := by omega
      simp only [positive, ne_eq, not_false_eq_true, true_and, gt_iff_lt]
  next partly =>
    have few : c.allocBytes.toNat + bytes.toNat < 64 := by
      rw [← sum]
      exact UInt64.not_le.mp partly
    have absent : (c.allocBytes.toNat + bytes.toNat) / 64 = 0 := by omega
    refine ⟨rfl, ?_, ?_, ?_, ?_⟩
    · rw [sum]
      omega
    · rw [absent, Nat.add_zero, Nat.mod_eq_of_lt c.instructionsUsed.toNat_lt]
    · rw [UInt64.sub_self, absent]
      rfl
    · simp [absent]

/-! What is on the books. -/

structure Accounted (limits : Limits) (w : Ledger) : Prop where
  memory : w.counters.memoryUsed.toNat = total w.live
  fits : total w.live < addressSpace
  remainder : w.counters.allocBytes < 64
  growth : 64 * w.forGrowth + w.counters.allocBytes.toNat = w.growth

/-- The counter tells the charges, or that they are past the limit, unless the hook alone has made it wrap. -/
structure Spent (limits : Limits) (w : Ledger) : Prop where
  within : w.charged ≤ limits.instructionLimit.toNat → w.counters.instructionsUsed.toNat = w.charged
  past : limits.instructionLimit.toNat < w.charged →
    limits.instructionLimit.toNat < w.counters.instructionsUsed.toNat ∧
      w.counters.instructionsUsed.toNat ≤ limits.instructionLimit.toNat + 1 + w.byHook + w.forGrowth
  armed : limits.instructionLimit < w.counters.instructionsUsed → w.counters.hookEvery = 1

theorem total_set {live : List UInt64} {block : Nat} {old : UInt64} (held : live[block]? = some old) (nsize : UInt64) :
    total (live.set block nsize) + old.toNat = total live + nsize.toNat ∧
      total (live.eraseIdx block) + old.toNat = total live := by
  obtain ⟨within, rfl⟩ := List.getElem?_eq_some_iff.mp held
  have parts := List.take_append_drop block live
  rw [List.drop_eq_getElem_cons within] at parts
  have whole : total live = total (live.take block) + (live[block].toNat + total (live.drop (block + 1))) := by
    conv_lhs => rw [← parts]
    simp only [total, List.map_append, List.map_cons, List.sum_append, List.sum_cons]
  constructor
  · rw [List.set_eq_take_append_cons_drop, if_pos within, whole]
    simp only [total, List.map_append, List.map_cons, List.sum_append, List.sum_cons]
    omega
  · rw [List.eraseIdx_eq_take_drop_succ, whole]
    simp only [total, List.map_append, List.sum_append]
    omega

theorem malloc_total (live : List UInt64) (nsize : UInt64) :
    total (if nsize = 0 then live else nsize :: live) + (0 : UInt64).toNat = total live + nsize.toNat := by
  split
  next zero =>
    rw [zero]
  next => simp [total, Nat.add_comm]

theorem realloc_total {live : List UInt64} {block : Nat} {old : UInt64} (held : live[block]? = some old) (nsize : UInt64) :
    total (if nsize = 0 then live.eraseIdx block else live.set block nsize) + old.toNat = total live + nsize.toNat := by
  obtain ⟨changed, erased⟩ := total_set held nsize
  split
  next zero =>
    rw [zero, erased]
    rfl
  next => exact changed

section Allocated
variable {limits : Limits} {w : Ledger}

theorem resized_toNat {old nsize : UInt64} {after : Nat} (memory : w.counters.memoryUsed.toNat = total w.live)
    (held : old.toNat ≤ total w.live) (change : after + old.toNat = total w.live + nsize.toNat) (fits : after < addressSpace) :
    (w.counters.memoryUsed - old + nsize).toNat = after := by
  have le : old ≤ w.counters.memoryUsed := by
    rw [UInt64.le_iff_toNat_le, memory]
    exact held
  rw [UInt64.toNat_add, UInt64.toNat_sub_of_le _ _ le, memory]
  unfold addressSpace at fits
  omega

/-- What one call of the allocator leaves on the books. -/
inductive Allocated (limits : Limits) (w : Ledger) (old nsize : UInt64) (live : List UInt64) : Ledger → Prop
  | freed (c : Counters) : nsize = 0 → c = { w.counters with memoryUsed := w.counters.memoryUsed - old } →
      Allocated limits w old nsize live { w with counters := c, live := live }
  | refused : nsize ≠ 0 → Allocated limits w old nsize live w
  | grown (c : Counters) : old < nsize → w.counters.memoryUsed - old + nsize ≤ limits.memoryLimit →
      total live < addressSpace →
      c = ({ w.counters with memoryUsed := w.counters.memoryUsed - old + nsize } : Counters).chargeGrowth limits (nsize - old) →
      Allocated limits w old nsize live { w with
        counters := c, live := live, growth := w.growth + (nsize - old).toNat
        forGrowth := w.forGrowth + (c.instructionsUsed - w.counters.instructionsUsed).toNat }
  | kept (c : Counters) : nsize ≤ old → total live < addressSpace →
      c = { w.counters with memoryUsed := w.counters.memoryUsed - old + nsize } →
      Allocated limits w old nsize live { w with counters := c, live := live }

theorem allocated_cases (limits : Limits) (w : Ledger) (ptr : Option UInt64) (nsize : UInt64) (realloc : Bool) (live : List UInt64) :
    Allocated limits w (ptr.getD 0) nsize live (w.allocated limits ptr nsize realloc live) := by
  have step := alloc_cases limits w.counters ptr nsize (realloc && total live < addressSpace)
  have unspent : (w.counters.instructionsUsed - w.counters.instructionsUsed).toNat = 0 := by
    rw [UInt64.sub_self]
    rfl
  unfold allocated
  generalize w.counters.alloc limits ptr nsize (realloc && total live < addressSpace) = result at step ⊢
  cases step with
  | freed zero =>
      simp only [zero, unspent, Bool.false_and, Bool.false_or, Bool.false_eq_true, if_false, decide_true, if_true,
        Nat.add_zero]
      exact .freed _ rfl rfl
  | overLimit positive =>
      simp only [positive, unspent, Bool.false_and, Bool.false_or, Bool.false_eq_true, if_false, decide_false, Nat.add_zero]
      exact .refused positive
  | failed positive =>
      simp only [positive, unspent, Bool.false_and, Bool.false_or, Bool.false_eq_true, if_false, decide_false, Nat.add_zero]
      exact .refused positive
  | grown positive grows granted room =>
      simp only [Bool.and_eq_true, decide_eq_true_eq] at granted
      simp only [gt_iff_lt, grows, decide_true, Bool.and_true, Bool.true_or, if_true]
      exact .grown _ grows room granted.2 rfl
  | kept positive shrinks granted =>
      simp only [Bool.and_eq_true, decide_eq_true_eq] at granted
      simp only [gt_iff_lt, UInt64.not_lt.mpr shrinks, unspent, decide_false, Bool.and_false, Bool.true_or,
        Bool.false_eq_true, if_true, if_false, Nat.add_zero]
      exact .kept _ shrinks granted.2 rfl

theorem Accounted.allocated {ptr : Option UInt64} {nsize : UInt64} {realloc : Bool} {live : List UInt64}
    (accounted : Accounted limits w) (held : (ptr.getD 0).toNat ≤ total w.live)
    (change : total live + (ptr.getD 0).toNat = total w.live + nsize.toNat) :
    Accounted limits (w.allocated limits ptr nsize realloc live) := by
  obtain ⟨memory, fits, remainder, growth⟩ := accounted
  have step := allocated_cases limits w ptr nsize realloc live
  generalize ptr.getD 0 = old at held change step
  generalize w.allocated limits ptr nsize realloc live = after at step ⊢
  cases step with
  | refused positive => exact ⟨memory, fits, remainder, growth⟩
  | freed c zero left =>
      subst left zero
      have less : total live < addressSpace := by
        have absent : (0 : UInt64).toNat = 0 := rfl
        omega
      refine ⟨?_, less, remainder, growth⟩
      have resized := resized_toNat memory held change less
      rwa [UInt64.add_zero] at resized
  | kept c shrinks less left =>
      subst left
      exact ⟨resized_toNat memory held change less, less, remainder, growth⟩
  | grown c grows room less left =>
      have bytes : (nsize - old).toNat = nsize.toNat - old.toNat := UInt64.toNat_sub_of_le _ _ (UInt64.le_of_lt grows)
      have small : (nsize - old).toNat < 2 ^ 63 := by
        unfold addressSpace at less
        omega
      obtain ⟨same, rest, -, forGrowth, -⟩ := chargeGrowth_spec limits
        ({ w.counters with memoryUsed := w.counters.memoryUsed - old + nsize } : Counters) remainder small
      rw [← left] at same rest forGrowth
      dsimp only at same rest forGrowth
      refine ⟨?_, less, ?_, ?_⟩
      · dsimp only
        rw [same]
        exact resized_toNat memory held change less
      · rw [UInt64.lt_iff_toNat_lt, rest]
        exact Nat.mod_lt _ (by decide)
      · dsimp only
        rw [rest, forGrowth]
        omega

theorem Spent.allocated {ptr : Option UInt64} {nsize : UInt64} {realloc : Bool} {live : List UInt64}
    (spent : Spent limits w) (accounted : Accounted limits w) (small : limits.instructionLimit.toNat < 2 ^ 63)
    (change : total live + (ptr.getD 0).toNat = total w.live + nsize.toNat)
    (bound : let after := w.allocated limits ptr nsize realloc live; after.byHook + after.forGrowth < 2 ^ 63) :
    Spent limits (w.allocated limits ptr nsize realloc live) := by
  obtain ⟨within, past, armed⟩ := spent
  have step := allocated_cases limits w ptr nsize realloc live
  generalize ptr.getD 0 = old at change step
  generalize w.allocated limits ptr nsize realloc live = after at step bound ⊢
  cases step with
  | refused positive => exact ⟨within, past, armed⟩
  | freed c zero left =>
      subst left
      exact ⟨within, past, armed⟩
  | kept c shrinks less left =>
      subst left
      exact ⟨within, past, armed⟩
  | grown c grows room less left =>
      have bytes : (nsize - old).toNat = nsize.toNat - old.toNat := UInt64.toNat_sub_of_le _ _ (UInt64.le_of_lt grows)
      have fits := accounted.fits
      have few : (nsize - old).toNat < 2 ^ 63 := by
        unfold addressSpace at less fits
        omega
      obtain ⟨-, -, used, forGrowth, hook⟩ := chargeGrowth_spec limits
        ({ w.counters with memoryUsed := w.counters.memoryUsed - old + nsize } : Counters) accounted.remainder few
      rw [← left] at used forGrowth hook
      dsimp only at used forGrowth hook bound
      rw [forGrowth] at bound
      generalize (w.counters.allocBytes.toNat + (nsize - old).toNat) / 64 = growing at used forGrowth hook bound
      unfold charged at within past
      constructor
      · unfold charged
        dsimp only
        intro least
        rw [forGrowth] at least ⊢
        rw [used, within (by omega)]
        omega
      · unfold charged
        dsimp only
        intro most
        rw [forGrowth] at most ⊢
        rw [used]
        by_cases before : w.byHook + w.forGrowth + w.byName ≤ limits.instructionLimit.toNat
        · rw [within before]
          omega
        · have higher := past (by omega)
          omega
      · dsimp only
        intro beyond
        rw [hook]
        split
        next => rfl
        next same =>
          refine armed ?_
          have absent : growing = 0 := by_contra fun present => same ⟨present, beyond⟩
          have before := w.counters.instructionsUsed.toNat_lt
          have equal : c.instructionsUsed.toNat = w.counters.instructionsUsed.toNat := by
            rw [used, absent]
            omega
          rwa [UInt64.toNat_inj.mp equal] at beyond

end Allocated

/-! What the hook and a charge do. -/

section Charges
variable (limits : Limits) {w : Ledger}

/-- The counter is the charges, or past the limit, and far from wrapping. -/
theorem Spent.cases {limits : Limits} (spent : Spent limits w) :
    (w.charged ≤ limits.instructionLimit.toNat ∧ w.counters.instructionsUsed.toNat = w.charged) ∨
      (limits.instructionLimit.toNat < w.charged ∧ limits.instructionLimit.toNat < w.counters.instructionsUsed.toNat ∧
        w.counters.instructionsUsed.toNat ≤ limits.instructionLimit.toNat + 1 + w.byHook + w.forGrowth) := by
  obtain past | within := Nat.lt_or_ge limits.instructionLimit.toNat w.charged
  · exact .inr ⟨past, spent.past past⟩
  · exact .inl ⟨within, spent.within within⟩

theorem kHookInterval_toNat : kHookInterval.toNat = 1000 := rfl

theorem Spent.hook {limits : Limits} (spent : Spent limits w) (small : limits.instructionLimit.toNat < 2 ^ 63)
    (bound : w.byHook + 1000 + w.forGrowth < 2 ^ 63) : Spent limits (w.step limits .hook) := by
  have used : (w.counters.instructionsUsed + kHookInterval).toNat = w.counters.instructionsUsed.toNat + 1000 := by
    have before := spent.cases
    unfold charged at before
    rw [UInt64.toNat_add, kHookInterval_toNat]
    omega
  have after : (w.step limits .hook).counters.instructionsUsed = w.counters.instructionsUsed + kHookInterval := by
    simp only [step, Counters.countHook]
    split <;> rfl
  have sum : (w.step limits .hook).charged = w.charged + 1000 := by
    simp only [step, charged, kHookInterval_toNat]
    omega
  have byHook : (w.step limits .hook).byHook = w.byHook + 1000 := by
    simp only [step, kHookInterval_toNat]
  have forGrowth : (w.step limits .hook).forGrowth = w.forGrowth := by
    simp only [step]
  have before := spent.cases
  constructor
  · rw [after, used, sum]
    omega
  · rw [after, used, sum, byHook, forGrowth]
    unfold charged at *
    omega
  · intro beyond
    rw [after] at beyond
    simp only [step, Counters.countHook, gt_iff_lt, beyond, if_true]

inductive ChargeStep (limits : Limits) (c : Counters) (n : UInt64) : Bool × Counters → Prop
  | raised : limits.instructionLimit.toNat < c.instructionsUsed.toNat + n.toNat →
      ChargeStep limits c n (true, { c with instructionsUsed := limits.instructionLimit + 1, hookEvery := 1 })
  | counted (used : UInt64) : used.toNat = c.instructionsUsed.toNat + n.toNat → used ≤ limits.instructionLimit →
      ChargeStep limits c n (false, { c with instructionsUsed := used })

theorem charge_cases (c : Counters) (n : UInt64) : ChargeStep limits c n (c.charge limits n) := by
  have lower := c.instructionsUsed.toNat_lt
  have room : (if c.instructionsUsed < limits.instructionLimit then limits.instructionLimit - c.instructionsUsed
      else 0).toNat = limits.instructionLimit.toNat - c.instructionsUsed.toNat := by
    split
    next less => exact UInt64.toNat_sub_of_le _ _ (UInt64.le_of_lt less)
    next least =>
      have le : limits.instructionLimit.toNat ≤ c.instructionsUsed.toNat := UInt64.not_lt.mp least
      rw [Nat.sub_eq_zero_of_le le]
      rfl
  unfold Counters.charge
  dsimp only
  generalize (if c.instructionsUsed < limits.instructionLimit then limits.instructionLimit - c.instructionsUsed
    else 0) = left at room ⊢
  split
  next beyond =>
    refine .raised ?_
    simp only [gt_iff_lt, UInt64.lt_iff_toNat_lt] at beyond
    omega
  next within =>
    simp only [gt_iff_lt, UInt64.lt_iff_toNat_lt, not_or] at within
    have upper := limits.instructionLimit.toNat_lt
    have sum : (c.instructionsUsed + n).toNat = c.instructionsUsed.toNat + n.toNat := by
      rw [UInt64.toNat_add]
      omega
    refine .counted _ sum ?_
    rw [UInt64.le_iff_toNat_le, sum]
    omega

theorem Spent.charge {limits : Limits} (spent : Spent limits w) (small : limits.instructionLimit.toNat < 2 ^ 63)
    (n : UInt64) : Spent limits (w.step limits (.charge n)) := by
  have before := spent.cases
  have sum : (w.step limits (.charge n)).charged = w.charged + n.toNat := by
    simp only [step, charged]
    omega
  have ways := charge_cases limits w.counters n
  have byHook : (w.step limits (.charge n)).byHook = w.byHook := rfl
  have forGrowth : (w.step limits (.charge n)).forGrowth = w.forGrowth := rfl
  have counters : (w.step limits (.charge n)).counters = (w.counters.charge limits n).2 := rfl
  generalize w.counters.charge limits n = result at ways counters
  cases ways with
  | raised beyond =>
      have above : (limits.instructionLimit + 1).toNat = limits.instructionLimit.toNat + 1 := by
        have one : (1 : UInt64).toNat = 1 := rfl
        rw [UInt64.toNat_add, one]
        omega
      constructor
      · rw [sum]
        omega
      · rw [counters, byHook, forGrowth]
        dsimp only
        rw [above]
        omega
      · rw [counters]
        intro
        rfl
  | counted used total_ least =>
      rw [UInt64.le_iff_toNat_le] at least
      constructor
      · rw [sum, counters]
        dsimp only
        omega
      · rw [sum]
        omega
      · rw [counters]
        intro beyond
        rw [UInt64.lt_iff_toNat_lt] at beyond
        dsimp only at beyond
        omega

end Charges

/-! ## Runs -/

section Runs
variable {limits : Limits}

theorem step_accounted {w : Ledger} (accounted : Accounted limits w) (event : LimitEvent) :
    Accounted limits (w.step limits event) := by
  have ⟨memory, fits, remainder, growth⟩ := accounted
  cases event with
  | malloc nsize realloc => exact accounted.allocated (Nat.zero_le _) (malloc_total w.live nsize)
  | realloc block nsize realloc =>
      simp only [step]
      split
      next => exact ⟨memory, fits, remainder, growth⟩
      next old held =>
        have within : old.toNat ≤ total w.live := by
          have erased := (total_set held nsize).2
          omega
        exact accounted.allocated within (realloc_total held nsize)
  | hook =>
      have same : (w.counters.countHook limits).2.memoryUsed = w.counters.memoryUsed ∧
          (w.counters.countHook limits).2.allocBytes = w.counters.allocBytes := by
        simp only [Counters.countHook]
        split <;> exact ⟨rfl, rfl⟩
      refine ⟨?_, ?_, ?_, ?_⟩ <;> simp only [step, same]
      exacts [memory, fits, remainder, growth]
  | charge n =>
      have same : (w.counters.charge limits n).2.memoryUsed = w.counters.memoryUsed ∧
          (w.counters.charge limits n).2.allocBytes = w.counters.allocBytes := by
        have ways := charge_cases limits w.counters n
        generalize w.counters.charge limits n = result at ways ⊢
        cases ways <;> exact ⟨rfl, rfl⟩
      refine ⟨?_, ?_, ?_, ?_⟩ <;> simp only [step, same]
      exacts [memory, fits, remainder, growth]
  | beginCall =>
      have nothing : (0 : UInt64) < 64 := by decide
      exact ⟨memory, fits, nothing, rfl⟩

theorem byHook_le {w : Ledger} {event : LimitEvent} (same : event ≠ .beginCall) :
    w.charged ≤ (w.step limits event).charged ∧ w.byHook + w.forGrowth ≤
      (w.step limits event).byHook + (w.step limits event).forGrowth := by
  cases event with
  | malloc nsize realloc =>
      simp only [step, allocated, charged]
      omega
  | realloc block nsize realloc =>
      simp only [step, charged]
      split
      next => omega
      next =>
        simp only [allocated]
        omega
  | hook =>
      simp only [step, charged]
      omega
  | charge n =>
      simp only [step, charged]
      omega
  | beginCall => exact absurd rfl same

theorem step_spent (small : limits.instructionLimit.toNat < 2 ^ 63) {w : Ledger} (accounted : Accounted limits w)
    (spent : w.byHook + w.forGrowth < 2 ^ 63 → Spent limits w) (event : LimitEvent)
    (bound : (w.step limits event).byHook + (w.step limits event).forGrowth < 2 ^ 63) :
    Spent limits (w.step limits event) := by
  by_cases restarts : event = .beginCall
  · subst restarts
    have unspent : (w.step limits .beginCall).counters.instructionsUsed = 0 := by
      simp only [step, Counters.beginCall]
    have nothing : (w.step limits .beginCall).charged = 0 := by
      simp only [step, charged]
    have absent : (0 : UInt64).toNat = 0 := rfl
    constructor
    · rw [unspent, nothing, absent]
      omega
    · rw [nothing]
      omega
    · rw [unspent, UInt64.lt_iff_toNat_lt, absent]
      omega
  · have before := spent (Nat.lt_of_le_of_lt (byHook_le restarts).2 bound)
    cases event with
    | malloc nsize realloc => exact before.allocated accounted small (malloc_total w.live nsize) bound
    | realloc block nsize realloc =>
        simp only [step] at bound ⊢
        split at bound
        next => exact before
        next old held => exact before.allocated accounted small (realloc_total held nsize) bound
    | hook =>
        refine before.hook small ?_
        simp only [step, kHookInterval_toNat] at bound
        exact bound
    | charge n => exact before.charge small n
    | beginCall => exact absurd rfl restarts

theorem run_sound (small : limits.instructionLimit.toNat < 2 ^ 63) (events : List LimitEvent) :
    let w := run limits events
    Accounted limits w ∧ (w.byHook + w.forGrowth < 2 ^ 63 → Spent limits w) := by
  refine List.foldlRecOn (motive := fun w => Accounted limits w ∧ (w.byHook + w.forGrowth < 2 ^ 63 → Spent limits w))
    events (step limits) ?_ ?_
  · have nothing : (0 : UInt64) < 64 := by decide
    have absent : (0 : UInt64).toNat = 0 := rfl
    refine ⟨⟨rfl, by decide, nothing, rfl⟩, fun _ => ⟨fun _ => rfl, ?_, ?_⟩⟩
    · exact fun beyond => absurd beyond (Nat.not_lt_zero _)
    · intro beyond
      rw [UInt64.lt_iff_toNat_lt] at beyond
      exact absurd beyond (Nat.not_lt_zero _)
  · intro w sound event _
    exact ⟨step_accounted sound.1 event, step_spent small sound.1 sound.2 event⟩

theorem charged_mono (limits : Limits) (w : Ledger) {events : List LimitEvent} (sameCall : ∀ event ∈ events, event ≠ .beginCall) :
    w.charged ≤ (events.foldl (step limits) w).charged := by
  refine List.foldlRecOn (motive := fun after => w.charged ≤ after.charged) events (step limits) (Nat.le_refl _) ?_
  intro after least event held
  exact Nat.le_trans least (byHook_le (sameCall event held)).1

/-- A call of the allocator, whatever the counters are. -/
structure AllocKept (limits : Limits) (c : Counters) (old nsize : UInt64) (realloc : Bool) (result : Bool × Counters) :
    Prop where
  grown : nsize > old → result.1 = true → result.2.memoryUsed ≤ limits.memoryLimit
  refused : nsize ≠ 0 → result.1 = false → result.2 = c
  shrunk : nsize ≤ old → nsize ≠ 0 → realloc = true → result.1 = true
  freed : nsize = 0 → result.2 = { c with memoryUsed := c.memoryUsed - old }

theorem alloc_kept (c : Counters) (ptr : Option UInt64) (nsize : UInt64) (realloc : Bool) :
    AllocKept limits c (ptr.getD 0) nsize realloc (c.alloc limits ptr nsize realloc) := by
  have step := alloc_cases limits c ptr nsize realloc
  generalize ptr.getD 0 = old at step ⊢
  generalize c.alloc limits ptr nsize realloc = result at step ⊢
  cases step with
  | freed zero => exact ⟨fun _ refused => Bool.noConfusion refused, fun positive => absurd zero positive,
      fun _ positive => absurd zero positive, fun _ => rfl⟩
  | overLimit positive grows beyond => exact ⟨fun _ refused => Bool.noConfusion refused, fun _ _ => rfl,
      fun least => absurd grows (UInt64.not_lt.mpr least), fun zero => absurd zero positive⟩
  | failed positive failed => exact ⟨fun _ refused => Bool.noConfusion refused, fun _ _ => rfl,
      fun _ _ granted => Bool.noConfusion (failed.symm.trans granted), fun zero => absurd zero positive⟩
  | grown positive grows granted room =>
      refine ⟨fun _ _ => ?_, fun _ refused => Bool.noConfusion refused, fun _ _ _ => rfl, fun zero => absurd zero positive⟩
      unfold Counters.chargeGrowth
      dsimp only
      split <;> exact room
  | kept positive shrinks granted => exact ⟨fun grows => absurd grows (UInt64.not_lt.mpr shrinks),
      fun _ refused => Bool.noConfusion refused, fun _ _ _ => rfl, fun zero => absurd zero positive⟩

/-- The call is over: whatever the hook or a charge is asked next, it raises. -/
structure Exceeded (limits : Limits) (c : Counters) : Prop where
  above : limits.instructionLimit < c.instructionsUsed
  hookRaises : (c.countHook limits).1 = true
  chargeRaises : ∀ n, (c.charge limits n).1 = true

theorem Spent.exceeded {w : Ledger} (spent : Spent limits w) (small : limits.instructionLimit.toNat < 2 ^ 63)
    (bound : w.byHook + kHookInterval.toNat + w.forGrowth < 2 ^ 63) (beyond : limits.instructionLimit.toNat < w.charged) :
    Exceeded limits w.counters := by
  obtain ⟨above, least⟩ := spent.past beyond
  refine ⟨above, ?_, fun n => ?_⟩
  · have next : limits.instructionLimit < w.counters.instructionsUsed + kHookInterval := by
      rw [kHookInterval_toNat] at bound
      rw [UInt64.lt_iff_toNat_lt, UInt64.toNat_add, kHookInterval_toNat]
      omega
    simp only [Counters.countHook, gt_iff_lt, next, if_true]
  · have ways := charge_cases limits w.counters n
    generalize w.counters.charge limits n = result at ways ⊢
    cases ways with
    | raised => rfl
    | counted used sum within =>
        rw [UInt64.le_iff_toNat_le] at within
        omega

theorem limits_kept (limits : Limits) (small : limits.instructionLimit.toNat < 2 ^ 63) (before later : List LimitEvent) :
    let w := run limits (before ++ later)
    Accounted limits w ∧
      (∀ ptr nsize realloc, AllocKept limits w.counters (ptr.getD 0) nsize realloc
        (w.counters.alloc limits ptr nsize realloc)) ∧
      (w.byHook + kHookInterval.toNat + w.forGrowth < 2 ^ 63 →
        ((∀ event ∈ later, event ≠ .beginCall) → limits.instructionLimit.toNat < (run limits before).charged →
          Exceeded limits w.counters) ∧
        ∀ n, (w.counters.charge limits n).1 = false →
          (w.counters.charge limits n).2.instructionsUsed ≤ limits.instructionLimit ∧
            (w.step limits (.charge n)).charged ≤ limits.instructionLimit.toNat) := by
  intro w
  obtain ⟨accounted, spent⟩ := run_sound small (before ++ later)
  refine ⟨accounted, alloc_kept w.counters, fun bound => ?_⟩
  have fewer : w.byHook + w.forGrowth < 2 ^ 63 := by
    rw [kHookInterval_toNat] at bound
    omega
  have spent : Spent limits w := spent fewer
  refine ⟨fun sameCall beyond => spent.exceeded small bound ?_, fun n spared => ?_⟩
  · have mono := charged_mono limits (run limits before) sameCall
    rw [run, ← List.foldl_append] at mono
    exact Nat.lt_of_lt_of_le beyond mono
  · have within : (w.counters.charge limits n).2.instructionsUsed ≤ limits.instructionLimit := by
      have ways := charge_cases limits w.counters n
      generalize w.counters.charge limits n = result at ways spared ⊢
      cases ways with
      | raised => exact Bool.noConfusion spared
      | counted used sum within => exact within
    refine ⟨within, Nat.le_of_not_lt fun beyond => ?_⟩
    have above := ((spent.charge small n).past beyond).1
    simp only [step] at above
    exact absurd above (Nat.not_lt.mpr within)

/-- A rule that catches its first error three times over. -/
theorem limits_kept_caught :
    Exceeded ⟨1000, 4096⟩ (run ⟨1000, 4096⟩ ([.malloc 64 true, .charge 2000] ++ List.replicate 3 .hook)).counters := by
  have bound : let w := run ⟨1000, 4096⟩ ([.malloc 64 true, .charge 2000] ++ List.replicate 3 .hook)
      w.byHook + kHookInterval.toNat + w.forGrowth < 2 ^ 63 := by
    decide
  refine ((limits_kept ⟨1000, 4096⟩ (by decide) [.malloc 64 true, .charge 2000]
    (List.replicate 3 .hook)).2.2 bound).1 ?_ (by decide)
  intro event held
  rw [List.eq_of_mem_replicate held]
  exact LimitEvent.noConfusion

/-! ## The counter's wrap -/

theorem run_hooks (limits : Limits) (n : Nat) :
    let w := run limits (List.replicate n .hook)
    w.counters.instructionsUsed = UInt64.ofNat (n * 1000) ∧ w.charged = n * 1000 := by
  induction n with
  | zero => simp [run, fresh, charged]
  | succ n ih =>
      obtain ⟨used, counted⟩ := ih
      unfold run at *
      rw [List.replicate_succ', List.foldl_append, List.foldl_cons, List.foldl_nil]
      generalize (List.replicate n LimitEvent.hook).foldl (step limits) fresh = w at *
      constructor
      · have next : (w.counters.countHook limits).2.instructionsUsed = w.counters.instructionsUsed + kHookInterval := by
          simp only [Counters.countHook]
          split <;> rfl
        have interval : kHookInterval = UInt64.ofNat 1000 := rfl
        simp only [step]
        rw [next, used, interval, ← UInt64.ofNat_add, Nat.succ_mul]
      · unfold charged at counted ⊢
        simp only [step, kHookInterval_toNat]
        omega

theorem wrapped {limits : Limits} {n : Nat} (small : UInt64.ofNat (n * 1000) = 384) (low : 2000 < n * 1000)
    (limit : limits.instructionLimit = 2000) :
    let w := run limits (List.replicate n .hook)
    limits.instructionLimit.toNat < w.charged ∧ ¬limits.instructionLimit < w.counters.instructionsUsed ∧
      (w.counters.countHook limits).1 = false ∧ (w.counters.charge limits 0).1 = false := by
  intro w
  obtain ⟨used, counted⟩ := run_hooks limits n
  have few : w.counters.instructionsUsed = 384 := used.trans small
  have most : w.charged = n * 1000 := counted
  refine ⟨?_, ?_, ?_, ?_⟩
  · rw [limit, most]
    exact low
  · rw [few, limit]
    decide
  · simp only [Counters.countHook, few, limit]
    rw [if_neg (by decide)]
  · simp only [Counters.charge, few, limit]
    rw [if_neg (by decide)]

/-- Some 2 ^ 64 instructions into one call the counter is small again. -/
theorem limit_forgotten :
    let limits : Limits := ⟨2000, 4096⟩
    let w := run limits (List.replicate 18446744073709552 .hook)
    limits.instructionLimit.toNat < w.charged ∧ ¬limits.instructionLimit < w.counters.instructionsUsed ∧
      (w.counters.countHook limits).1 = false ∧ (w.counters.charge limits 0).1 = false :=
  wrapped (by decide) (by decide) rfl

end Runs

end Budyk.Proof
