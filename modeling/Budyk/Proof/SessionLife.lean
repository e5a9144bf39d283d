import Budyk.Spec.SessionLife

namespace Budyk.Proof
open Lib Web Spec

/-! One token's deadline through each call. -/

def slid (ttlNs now d : Nat) : Nat :=
  if (now + ttlNs > d ∧ now + ttlNs - d ≥ ttlNs / 8) ∨ d > now + ttlNs then now + ttlNs else d

def nextDeadline (tok : Token) (s : SessionStore) (call : SessionCall) (old : Option Nat) : Option Nat :=
  match call.op with
  | .create random => if tok = newSessionToken random then some (call.now + s.ttlNs) else old
  | .verify other =>
      if tok = other then old.bind fun d => if d ≤ call.now then none else some (min d (call.now + s.ttlNs)) else old
  | .touch other =>
      if tok = other then old.bind fun d => if d ≤ call.now then none else some (slid s.ttlNs call.now d) else old
  | .revoke other => if tok = other then none else old
  | .purgeExpired => old.filter (call.now < ·)
  | .load file => (SessionCall.loaded s file call.now tok).or old

theorem lookup_erase_of {tok other : Token} (table : Sessions) :
    (table.erase other).lookup tok = if tok = other then none else table.lookup tok := by
  split
  next same => rw [same, AList.lookup_erase]
  next different => rw [AList.lookup_erase_ne different]

theorem lookup_insert_of {tok other : Token} (d : Nat) (table : Sessions) :
    (table.insert other d).lookup tok = if tok = other then some d else table.lookup tok := by
  split
  next same => rw [same, AList.lookup_insert]
  next different => rw [AList.lookup_insert_ne different]

theorem lookup_create {tok : Token} (s : SessionStore) (new : Token) (now : Nat) (named : tok ≠ []) :
    (s.create new now).deadline.lookup tok = if tok = new then some (now + s.ttlNs) else s.deadline.lookup tok := by
  unfold SessionStore.create
  split
  next empty => rw [if_neg (by rw [empty]; exact named)]
  next => exact lookup_insert_of _ _

theorem lookup_verify {tok : Token} (s : SessionStore) (other : Token) (now : Nat) (named : tok ≠ []) :
    (s.verify other now).store.deadline.lookup tok = if tok = other then
      (s.deadline.lookup tok).bind fun d => if d ≤ now then none else some (min d (now + s.ttlNs))
    else s.deadline.lookup tok := by
  unfold SessionStore.verify
  split
  next empty => rw [if_neg (by rw [empty]; exact named)]
  next =>
    split
    next absent =>
      split
      next same => rw [same, absent]; rfl
      next => rfl
    next d present =>
      by_cases same : tok = other
      · subst same
        simp only [present, Option.bind_some, if_true]
        split
        · exact AList.lookup_erase _ _
        · split
          next long => rw [AList.lookup_insert, min_eq_right (by omega)]
          next short => rw [present, min_eq_left (by omega)]
      · rw [if_neg same]
        split
        · exact AList.lookup_erase_ne same
        · split
          · exact AList.lookup_insert_ne same
          · rfl

theorem lookup_touch {tok : Token} (s : SessionStore) (other : Token) (now : Nat) (named : tok ≠ []) :
    (s.touch other now).store.deadline.lookup tok = if tok = other then
      (s.deadline.lookup tok).bind fun d => if d ≤ now then none else some (slid s.ttlNs now d)
    else s.deadline.lookup tok := by
  unfold SessionStore.touch
  split
  next empty => rw [if_neg (by rw [empty]; exact named)]
  next =>
    split
    next absent =>
      split
      next same => rw [same, absent]; rfl
      next => rfl
    next d present =>
      by_cases same : tok = other
      · subst same
        simp only [present, Option.bind_some, if_true]
        split
        · exact AList.lookup_erase _ _
        · unfold slid
          split
          · exact AList.lookup_insert _
          · exact present
      · rw [if_neg same]
        split
        · exact AList.lookup_erase_ne same
        · dsimp only
          split
          · exact AList.lookup_insert_ne same
          · rfl

theorem lookup_purgeExpired (tok : Token) (s : SessionStore) (now : Nat) :
    (s.purgeExpired now).1.deadline.lookup tok = (s.deadline.lookup tok).filter (now < ·) := by
  ext d
  rw [← Option.mem_def, ← Option.mem_def, AList.mem_lookup_iff, Option.mem_filter_iff, AList.mem_lookup_iff]
  simp [SessionStore.purgeExpired]

theorem lookup_foldl_insert (tok : Token) (entries : List (Sigma fun _ : Token => Nat)) (distinct : entries.NodupKeys)
    (table : Sessions) :
    (entries.foldl (fun t kv => t.insert kv.1 kv.2) table).lookup tok = (entries.dlookup tok).or (table.lookup tok) := by
  induction entries generalizing table with
  | nil => rfl
  | cons kv rest ih =>
      rw [List.foldl_cons, ih (List.nodupKeys_of_nodupKeys_cons distinct), lookup_insert_of]
      by_cases same : tok = kv.1
      · subst same
        rw [List.dlookup_eq_none.mpr (List.notMem_keys_of_nodupKeys_cons distinct), if_pos rfl, List.dlookup_cons_eq]
        rfl
      · rw [if_neg same, List.dlookup_cons_ne _ _ same]

theorem lookup_load (tok : Token) (s : SessionStore) (file : SessionsFile) (now : Nat) :
    (s.load file now).2.2.deadline.lookup tok = (SessionCall.loaded s file now tok).or (s.deadline.lookup tok) := by
  unfold SessionStore.load SessionCall.loaded
  cases file with
  | missing => rfl
  | unreadable errno => rfl
  | bytes file =>
      dsimp only
      split
      · rfl
      · exact lookup_foldl_insert tok _ (readSessions s.ttlNs now file).got.nodupKeys _

theorem lookup_apply {tok : Token} (named : tok ≠ []) (s : SessionStore) (call : SessionCall) :
    (call.apply s).deadline.lookup tok = nextDeadline tok s call (s.deadline.lookup tok) := by
  unfold SessionCall.apply nextDeadline
  cases call.op with
  | create random => exact lookup_create s _ _ named
  | verify other => exact lookup_verify s other _ named
  | touch other => exact lookup_touch s other _ named
  | revoke other => exact lookup_erase_of _
  | purgeExpired => exact lookup_purgeExpired tok s _
  | load file => exact lookup_load tok s file _

theorem verify_ok {tok : Token} (named : tok ≠ []) (s : SessionStore) (now : Nat) :
    (s.verify tok now).ok ↔ ∃ d ∈ s.deadline.lookup tok, now < d := by
  unfold SessionStore.verify
  rw [if_neg named]
  cases s.deadline.lookup tok with
  | none => simp
  | some d =>
      simp only [Option.mem_some_iff, exists_eq_left']
      split
      next expired => simpa using expired
      next live =>
        split <;> simpa using live

theorem touch_ok {tok : Token} (named : tok ≠ []) (s : SessionStore) (now : Nat) :
    (s.touch tok now).ok ↔ ∃ d ∈ s.deadline.lookup tok, now < d := by
  unfold SessionStore.touch
  rw [if_neg named]
  cases s.deadline.lookup tok with
  | none => simp
  | some d =>
      simp only [Option.mem_some_iff, exists_eq_left']
      split
      next expired => simpa using expired
      next live =>
        split <;> simpa using live

/-! No empty token is ever in play. -/

theorem readSessions_named (ttlNs now : Nat) (file : List UInt8) : [] ∉ (readSessions ttlNs now file).got := by
  unfold readSessions
  have keep : ∀ (lines : List (List UInt8)) (start : LoadedFile), [] ∉ start.got →
      [] ∉ (lines.foldl (loadSessionLine ttlNs now) start).got := by
    intro lines
    induction lines with
    | nil => exact fun _ named => named
    | cons line rest ih =>
        intro start named
        apply ih
        unfold loadSessionLine
        split
        · split <;> exact named
        · split
          · exact named
          · split
            next => exact named
            next tok dl parsed =>
              split
              · exact named
              · rw [AList.mem_insert, not_or]
                refine ⟨?_, named⟩
                intro empty
                unfold parseSession at parsed
                dsimp only at parsed
                split at parsed
                · cases parsed
                · split at parsed
                  · cases parsed
                  · split at parsed
                    · cases parsed
                    next nonempty =>
                      cases parsed
                      exact nonempty empty.symm
  exact keep _ _ (AList.notMem_empty _)

theorem loaded_nil (s : SessionStore) (file : SessionsFile) (now : Nat) : SessionCall.loaded s file now [] = none := by
  unfold SessionCall.loaded
  cases file with
  | missing => rfl
  | unreadable errno => rfl
  | bytes file =>
      dsimp only
      split
      · rfl
      · exact AList.lookup_eq_none.mpr (readSessions_named _ _ _)

theorem begins_named {tok : Token} {s : SessionStore} {call : SessionCall} (begins : SessionCall.Begins tok s call) :
    tok ≠ [] := by
  rintro rfl
  rcases begins with ⟨random, -, -, named⟩ | ⟨file, -, some⟩
  · exact named rfl
  · rw [loaded_nil] at some
    cases some

theorem load_bound {ttlNs now : Nat} {file : List UInt8} {tok : Token} {d : Nat}
    (held : d ∈ (readSessions ttlNs now file).got.lookup tok) : d ≤ now + ttlNs := by
  unfold readSessions at held
  have keep : ∀ (lines : List (List UInt8)) (start : LoadedFile),
      (∀ d ∈ start.got.lookup tok, d ≤ now + ttlNs) →
      ∀ d ∈ (lines.foldl (loadSessionLine ttlNs now) start).got.lookup tok, d ≤ now + ttlNs := by
    intro lines
    induction lines with
    | nil => exact fun _ bounds => bounds
    | cons line rest ih =>
        intro start bounds
        apply ih
        unfold loadSessionLine
        split
        · split <;> exact bounds
        · split
          · exact bounds
          · split
            next => exact bounds
            next other dl parsed =>
              split
              · exact bounds
              next unexpired =>
                intro d held
                dsimp only at held
                rw [lookup_insert_of] at held
                split at held
                · rw [Option.mem_some_iff] at held
                  rw [← held]
                  split <;> omega
                · exact bounds d held
  exact keep _ _ (by intro d held; simp at held) d held

theorem loaded_bound {s : SessionStore} {file : SessionsFile} {now : Nat} {tok : Token} {d : Nat}
    (held : d ∈ SessionCall.loaded s file now tok) : d ≤ now + s.ttlNs := by
  unfold SessionCall.loaded at held
  cases file with
  | missing => cases held
  | unreadable errno => cases held
  | bytes file =>
      dsimp only at held
      split at held
      · cases held
      · exact load_bound held

/-! The lifetime of a session. -/

theorem apply_eq (s : SessionStore) (call : SessionCall) : call.apply s = { s with deadline := (call.apply s).deadline } := by
  unfold SessionCall.apply
  cases call.op with
  | create random =>
      dsimp only [SessionStore.create]
      split <;> rfl
  | verify other =>
      dsimp only [SessionStore.verify]
      split
      · rfl
      · split
        · rfl
        · split
          · rfl
          · split <;> rfl
  | touch other =>
      dsimp only [SessionStore.touch]
      split
      · rfl
      · split
        · rfl
        · split
          · rfl
          · split <;> rfl
  | revoke other => rfl
  | purgeExpired => rfl
  | load file =>
      dsimp only [SessionStore.load]
      cases file with
      | missing => rfl
      | unreadable errno => rfl
      | bytes file =>
          dsimp only
          split <;> rfl

theorem apply_ttlNs (s : SessionStore) (call : SessionCall) : (call.apply s).ttlNs = s.ttlNs := by rw [apply_eq]

theorem run_ttlNs (calls : List SessionCall) (s : SessionStore) : (calls.foldl SessionCall.apply s).ttlNs = s.ttlNs := by
  induction calls generalizing s with
  | nil => rfl
  | cons call rest ih => rw [List.foldl_cons, ih, apply_ttlNs]

section Life
variable {tok : Token} (named : tok ≠ [])
include named

theorem held_step (s : SessionStore) (call : SessionCall) : ((call.apply s).deadline.lookup tok).isSome ↔
    SessionCall.Begins tok s call ∨ ((s.deadline.lookup tok).isSome ∧ ¬SessionCall.Ends tok s call) := by
  rw [lookup_apply named]
  unfold nextDeadline SessionCall.Begins SessionCall.Ends SessionCall.Creates SessionCall.Loads
  generalize s.deadline.lookup tok = old
  cases call with
  | mk now op =>
      cases op with
      | create random =>
          by_cases same : tok = newSessionToken random
          · simp only [if_pos same, Option.isSome_some, true_iff]
            exact .inl (.inl ⟨random, rfl, same, named⟩)
          · simp [same]
      | verify other =>
          by_cases same : tok = other
          · subst same
            cases old with
            | none => simp
            | some d => by_cases expired : d ≤ now <;> simp [expired]
          · simp [same, Ne.symm same]
      | touch other =>
          by_cases same : tok = other
          · subst same
            cases old with
            | none => simp
            | some d => by_cases expired : d ≤ now <;> simp [expired]
          · simp [same, Ne.symm same]
      | revoke other =>
          by_cases same : tok = other
          · simp [same]
          · simp [same, Ne.symm same]
      | purgeExpired =>
          cases old with
          | none => simp
          | some d => by_cases live : now < d <;> simp [live]
      | load file => simp

theorem refresh_bound {s : SessionStore} {call : SessionCall} (refreshes : SessionCall.Refreshes tok s call) :
    ∀ d ∈ (call.apply s).deadline.lookup tok, d ≤ call.now + s.ttlNs := by
  rw [lookup_apply named]
  intro d held
  unfold nextDeadline at held
  rcases refreshes with (⟨random, op, same, -⟩ | ⟨file, op, some⟩) | ⟨op, ok⟩
  · rw [op] at held
    simp only [if_pos same, Option.mem_some_iff] at held
    omega
  · rw [op] at held
    obtain ⟨dl, read⟩ := Option.isSome_iff_exists.mp some
    have same : dl = d := by simpa [read] using held
    exact same ▸ loaded_bound read
  · rw [op] at held
    obtain ⟨old, present, live⟩ := (touch_ok named s call.now).mp ok
    rw [present] at held
    simp only [if_true, Option.bind_some, if_neg (not_le.mpr live), Option.mem_some_iff, slid] at held
    split at held <;> omega

theorem bound_step {s : SessionStore} {call : SessionCall} {bound : Nat} (plain : ¬SessionCall.Refreshes tok s call)
    (below : ∀ d ∈ s.deadline.lookup tok, d ≤ bound) : ∀ d ∈ (call.apply s).deadline.lookup tok, d ≤ bound := by
  rw [lookup_apply named]
  intro d held
  unfold nextDeadline at held
  unfold SessionCall.Refreshes SessionCall.Begins SessionCall.Creates SessionCall.Loads SessionCall.Touches at plain
  rw [touch_ok named] at plain
  generalize s.deadline.lookup tok = old at below held plain
  cases call with
  | mk now op =>
      cases op with
      | create random =>
          by_cases same : tok = newSessionToken random
          · exact absurd (.inl (.inl ⟨random, rfl, same, named⟩)) plain
          · exact below d (by simpa [same] using held)
      | verify other =>
          by_cases same : tok = other
          · simp only [if_pos same, Option.mem_def, Option.bind_eq_some_iff] at held
            obtain ⟨d', present, kept⟩ := held
            have := below d' present
            split at kept
            · cases kept
            · have := Option.some.inj kept
              omega
          · exact below d (by simpa [same] using held)
      | touch other =>
          by_cases same : tok = other
          · subst same
            cases old with
            | none => simp at held
            | some d' =>
                have expired : d' ≤ now := by simpa using plain
                simp [expired] at held
          · exact below d (by simpa [same] using held)
      | revoke other =>
          by_cases same : tok = other
          · simp [same] at held
          · exact below d (by simpa [same] using held)
      | purgeExpired => exact below d (Option.mem_filter_iff.mp held).1
      | load file =>
          have none : SessionCall.loaded s file now tok = none := by simpa using plain
          exact below d (by simpa [none] using held)

theorem bound_run (calls : List SessionCall) {s : SessionStore} {bound : Nat}
    (plain : Along SessionCall.apply (fun s call => ¬SessionCall.Refreshes tok s call) s calls)
    (below : ∀ d ∈ s.deadline.lookup tok, d ≤ bound) :
    ∀ d ∈ (calls.foldl SessionCall.apply s).deadline.lookup tok, d ≤ bound := by
  induction calls generalizing s with
  | nil => exact below
  | cons call rest ih => exact ih plain.2 (bound_step named plain.1 below)

/-- The deadline is past the next 7/8 of the TTL from `t` on. -/
def Fresh (tok : Token) (t : Nat) (s : SessionStore) : Prop :=
  ∃ d ∈ s.deadline.lookup tok, t + s.ttlNs - s.ttlNs / 8 < d

omit named in
theorem slid_fresh {ttlNs now d : Nat} (eighth : 0 < ttlNs / 8) :
    now + ttlNs - ttlNs / 8 < slid ttlNs now d ∧ slid ttlNs now d ≤ now + ttlNs := by
  unfold slid
  split <;> omega

theorem touch_fresh {s : SessionStore} {now : Nat} (eighth : 0 < s.ttlNs / 8) (ok : (s.touch tok now).ok) :
    ∃ d ∈ (s.touch tok now).store.deadline.lookup tok, now + s.ttlNs - s.ttlNs / 8 < d ∧ d ≤ now + s.ttlNs := by
  obtain ⟨d, present, live⟩ := (touch_ok named s now).mp ok
  refine ⟨slid s.ttlNs now d, ?_, slid_fresh eighth⟩
  rw [Option.mem_def] at present ⊢
  rw [lookup_touch s tok now named, present]
  simp [not_le.mpr live]

theorem fresh_accepted {t : Nat} {s : SessionStore} {call : SessionCall} (fresh : Fresh tok t s)
    (soon : 8 * (call.now - t) ≤ 7 * s.ttlNs) : SessionCall.Accepted tok s call := by
  obtain ⟨d, present, late⟩ := fresh
  constructor
  · exact fun _ => (verify_ok named s call.now).mpr ⟨d, present, by omega⟩
  · exact fun _ => (touch_ok named s call.now).mpr ⟨d, present, by omega⟩

theorem fresh_step {t : Nat} {s : SessionStore} {call : SessionCall} (fresh : Fresh tok t s)
    (soon : t ≤ call.now ∧ 8 * (call.now - t) ≤ 7 * s.ttlNs) (positive : 0 < s.ttlNs / 8) (kept : call.op ≠ .revoke tok)
    (later : ∀ file, call.op = .load file → ∀ d ∈ SessionCall.loaded s file call.now tok, t + s.ttlNs - s.ttlNs / 8 < d) :
    Fresh tok t (call.apply s) := by
  obtain ⟨d, present, late⟩ := fresh
  unfold Fresh
  rw [lookup_apply named, apply_ttlNs, Option.mem_def.mp present]
  unfold nextDeadline
  cases call with
  | mk now op =>
      dsimp only at soon kept later ⊢
      have live : now < d := by omega
      cases op with
      | create random =>
          by_cases same : tok = newSessionToken random
          · exact ⟨now + s.ttlNs, by simp [same], by omega⟩
          · exact ⟨d, by simp [same], late⟩
      | verify other =>
          by_cases same : tok = other
          · exact ⟨min d (now + s.ttlNs), by simp [same, not_le.mpr live], by omega⟩
          · exact ⟨d, by simp [same], late⟩
      | touch other =>
          by_cases same : tok = other
          · have bounds : _ < slid s.ttlNs now d ∧ _ := slid_fresh positive
            exact ⟨slid s.ttlNs now d, by simp [same, not_le.mpr live], by omega⟩
          · exact ⟨d, by simp [same], late⟩
      | revoke other =>
          have different : tok ≠ other := by
            rintro rfl
            exact kept rfl
          exact ⟨d, by simp [different], late⟩
      | purgeExpired => exact ⟨d, by simp [live], late⟩
      | load file =>
          cases read : SessionCall.loaded s file now tok with
          | none => exact ⟨d, by simp [read], late⟩
          | some dl => exact ⟨dl, by simp [read], later file rfl dl read⟩

theorem fresh_moved {t : Nat} {s : SessionStore} {call : SessionCall} (fresh : Fresh tok t s)
    (soon : 8 * (call.now - t) ≤ 7 * s.ttlNs) (positive : 0 < s.ttlNs / 8)
    (moves : call.op = .touch tok ∨ call.Creates tok) : Fresh tok call.now (call.apply s) := by
  unfold Fresh
  rw [apply_ttlNs]
  rcases moves with op | ⟨random, op, same, -⟩
  · have accepted := (fresh_accepted named fresh soon).2 op
    obtain ⟨d, held, late, -⟩ := touch_fresh named positive accepted
    refine ⟨d, ?_, late⟩
    unfold SessionCall.apply
    rw [op]
    exact held
  · refine ⟨call.now + s.ttlNs, ?_, by omega⟩
    rw [lookup_apply named, nextDeadline, op]
    simp [same]

theorem kept_accepted (calls : List SessionCall) {t : Nat} {s : SessionStore} (fresh : Fresh tok t s)
    (positive : 0 < s.ttlNs / 8) (kept : KeptUp tok t s calls) :
    Along SessionCall.apply (SessionCall.Accepted tok) s calls := by
  induction calls generalizing s t with
  | nil => trivial
  | cons call rest ih =>
      obtain ⟨soon, unrevoked, later, next⟩ := kept
      have positive' : 0 < (call.apply s).ttlNs / 8 := by rwa [apply_ttlNs]
      refine ⟨fresh_accepted named fresh soon.2, ?_⟩
      rcases next with ⟨moves, kept⟩ | ⟨-, kept⟩
      · exact ih (fresh_moved named fresh soon.2 positive moves) positive' kept
      · exact ih (fresh_step named fresh soon positive unrevoked later) positive' kept

end Life

theorem verify_nil (s : SessionStore) (now : Nat) : s.verify [] now = ⟨s, false, false⟩ := if_pos rfl

theorem touch_nil (s : SessionStore) (now : Nat) : s.touch [] now = ⟨s, false, false⟩ := if_pos rfl

theorem accepted_iff {tok : Token} (s : SessionStore) (none : s.deadline = ∅) (calls : List SessionCall) (now : Nat) :
    (((calls.foldl SessionCall.apply s).verify tok now).ok ↔
      Since SessionCall.apply (SessionCall.Begins tok) (SessionCall.Ends tok) s calls ∧
        ∃ d ∈ (calls.foldl SessionCall.apply s).deadline.lookup tok, now < d) ∧
    (((calls.foldl SessionCall.apply s).touch tok now).ok ↔ ((calls.foldl SessionCall.apply s).verify tok now).ok) := by
  by_cases named : tok = []
  · subst named
    rw [verify_nil, touch_nil]
    refine ⟨⟨fun ok => absurd ok Bool.false_ne_true, ?_⟩, Iff.rfl⟩
    rintro ⟨⟨before, call, after, -, begins, -⟩, -⟩
    exact absurd rfl (begins_named begins)
  · have absent : ¬(s.deadline.lookup tok).isSome := by simp [none]
    have held := @holds_iff_since _ _ _ _ _ (fun s => (s.deadline.lookup tok).isSome) (held_step named) s absent calls
    rw [verify_ok named, touch_ok named, ← held]
    refine ⟨⟨?_, And.right⟩, Iff.rfl⟩
    rintro ⟨d, present, live⟩
    exact ⟨Option.isSome_iff_exists.mpr ⟨d, present⟩, d, present, live⟩

theorem verify_capped (s : SessionStore) (tok : Token) (now : Nat) (named : tok ≠ []) :
    ∀ d ∈ (s.verify tok now).store.deadline.lookup tok, d ≤ now + s.ttlNs := by
  rw [lookup_verify s tok now named, if_pos rfl]
  intro d held
  obtain ⟨old, -, capped⟩ := Option.bind_eq_some_iff.mp held
  split at capped
  · cases capped
  · have := Option.some.inj capped
    omega

theorem touch_capped (s : SessionStore) (tok : Token) (now : Nat) (named : tok ≠ []) :
    ∀ d ∈ (s.touch tok now).store.deadline.lookup tok, d ≤ now + s.ttlNs := by
  rw [lookup_touch s tok now named, if_pos rfl]
  intro d held
  obtain ⟨old, -, capped⟩ := Option.bind_eq_some_iff.mp held
  split at capped
  · cases capped
  · have := Option.some.inj capped
    unfold slid at this
    split at this <;> omega

theorem mem_deadline {tok : Token} {table : Sessions} {d : Nat} (held : d ∈ table.lookup tok) : tok ∈ table :=
  AList.lookup_isSome.mp (Option.isSome_iff_exists.mpr ⟨d, held⟩)

theorem mem_verify {tok other : Token} {s : SessionStore} {now : Nat} (held : tok ∈ (s.verify other now).store.deadline) :
    tok ∈ s.deadline := by
  unfold SessionStore.verify at held
  split at held
  · exact held
  · split at held
    · exact held
    next d present =>
      split at held
      · exact (AList.mem_erase.mp held).2
      · split at held
        · rcases (AList.mem_insert _).mp held with rfl | before
          · exact mem_deadline present
          · exact before
        · exact held

theorem mem_touch {tok other : Token} {s : SessionStore} {now : Nat} (held : tok ∈ (s.touch other now).store.deadline) :
    tok ∈ s.deadline := by
  unfold SessionStore.touch at held
  split at held
  · exact held
  · split at held
    · exact held
    next d present =>
      split at held
      · exact (AList.mem_erase.mp held).2
      · dsimp only at held
        split at held
        · rcases (AList.mem_insert _).mp held with rfl | before
          · exact mem_deadline present
          · exact before
        · exact held

theorem apply_unnamed {s : SessionStore} (call : SessionCall) (unnamed : [] ∉ s.deadline) :
    [] ∉ (call.apply s).deadline := by
  unfold SessionCall.apply
  cases call.op with
  | create random =>
      dsimp only [SessionStore.create]
      split
      next => exact unnamed
      next named =>
        rw [AList.mem_insert, not_or]
        exact ⟨fun same => named same.symm, unnamed⟩
  | verify other => exact fun held => unnamed (mem_verify held)
  | touch other => exact fun held => unnamed (mem_touch held)
  | revoke other => exact fun held => unnamed (AList.mem_erase.mp held).2
  | purgeExpired =>
      rw [← AList.lookup_eq_none] at unnamed ⊢
      rw [lookup_purgeExpired, unnamed]
      rfl
  | load file =>
      rw [← AList.lookup_eq_none] at unnamed ⊢
      rw [lookup_load, loaded_nil, unnamed]
      rfl

theorem run_unnamed (calls : List SessionCall) {s : SessionStore} (unnamed : [] ∉ s.deadline) :
    [] ∉ (calls.foldl SessionCall.apply s).deadline := by
  induction calls generalizing s with
  | nil => exact unnamed
  | cons call rest ih => exact ih (apply_unnamed call unnamed)

theorem session_lifetime (ttlSeconds : Nat) (passwordHash : List UInt8) (calls : List SessionCall) (tok : Token) :
    let start := (SessionStore.new ttlSeconds).setCredential passwordHash
    let ttl := start.ttlNs
    let s := calls.foldl SessionCall.apply start
    (∀ now, ((s.verify tok now).ok ↔ Since SessionCall.apply (SessionCall.Begins tok) (SessionCall.Ends tok) start calls ∧
        ∃ d ∈ s.deadline.lookup tok, now < d) ∧ ((s.touch tok now).ok ↔ (s.verify tok now).ok)) ∧
    (0 < ttl / 8 → ∀ now, (s.touch tok now).ok →
      ∃ d ∈ (s.touch tok now).store.deadline.lookup tok, now + ttl - ttl / 8 < d ∧ d ≤ now + ttl) ∧
    (∀ before call after, calls = before ++ call :: after →
      SessionCall.Refreshes tok (before.foldl SessionCall.apply start) call →
      Along SessionCall.apply (fun s call => ¬SessionCall.Refreshes tok s call)
        ((before ++ [call]).foldl SessionCall.apply start) after →
      ∀ now, (s.verify tok now).ok → now < call.now + ttl) ∧
    (0 < ttl / 8 → ∀ before call after, calls = before ++ call :: after →
      call.Creates tok ∨ SessionCall.Touches tok (before.foldl SessionCall.apply start) call →
      KeptUp tok call.now ((before ++ [call]).foldl SessionCall.apply start) after →
      Along SessionCall.apply (SessionCall.Accepted tok) ((before ++ [call]).foldl SessionCall.apply start) after) ∧
    ∀ now, (∀ d ∈ (s.verify tok now).store.deadline.lookup tok, d ≤ now + ttl) ∧
      ∀ d ∈ (s.touch tok now).store.deadline.lookup tok, d ≤ now + ttl := by
  intro start ttl s
  have size : s.ttlNs = ttl := run_ttlNs calls start
  refine ⟨?_, ?_, ?_, ?_, ?_⟩
  · exact accepted_iff start rfl calls
  · intro eighth now ok
    have named : tok ≠ [] := by
      rintro rfl
      rw [touch_nil] at ok
      cases ok
    rw [← size] at eighth ⊢
    exact touch_fresh named eighth ok
  · rintro before call after rfl refreshes plain now ok
    have named : tok ≠ [] := by
      rintro rfl
      rw [verify_nil] at ok
      cases ok
    obtain ⟨d, present, live⟩ := (verify_ok named s now).mp ok
    have begun := refresh_bound named refreshes
    rw [run_ttlNs] at begun
    rw [List.foldl_append] at plain
    have below := bound_run named after plain begun
    have whole : s = after.foldl SessionCall.apply ([call].foldl SessionCall.apply (before.foldl SessionCall.apply start)) := by
      rw [← List.foldl_append, ← List.foldl_append]
      rfl
    rw [whole] at present
    exact Nat.lt_of_lt_of_le live (below d present)
  · rintro eighth before call after - starts kept
    have named : tok ≠ [] := by
      rintro rfl
      rcases starts with ⟨random, -, -, named⟩ | ⟨-, ok⟩
      · exact named rfl
      · rw [touch_nil] at ok
        cases ok
    rw [List.foldl_append, List.foldl_cons, List.foldl_nil] at kept ⊢
    have eighth' : 0 < (before.foldl SessionCall.apply start).ttlNs / 8 := by rwa [run_ttlNs]
    have fresh : Fresh tok call.now (call.apply (before.foldl SessionCall.apply start)) := by
      rw [Fresh, apply_ttlNs]
      rcases starts with ⟨random, op, same, -⟩ | ⟨op, ok⟩
      · refine ⟨call.now + (before.foldl SessionCall.apply start).ttlNs, ?_, by omega⟩
        rw [lookup_apply named, nextDeadline, op]
        simp [same]
      · obtain ⟨d, held, late, -⟩ := touch_fresh named eighth' ok
        refine ⟨d, ?_, late⟩
        unfold SessionCall.apply
        rw [op]
        exact held
    exact kept_accepted named after fresh (by rwa [apply_ttlNs]) kept
  · intro now
    rw [← size]
    by_cases named : tok = []
    · have none : s.deadline.lookup tok = none := by
        rw [named, AList.lookup_eq_none]
        exact run_unnamed calls (AList.notMem_empty _)
      rw [named, verify_nil, touch_nil]
      simp [named ▸ none]
    · exact ⟨verify_capped s tok now named, touch_capped s tok now named⟩

/-! ## A file loaded over the running table -/

def zeros : Option (Vector UInt8 32) := some (Vector.replicate 32 0)

/-- The line that the creation at time 0 saved. -/
def savedLine : List UInt8 := newSessionToken zeros ++ tab :: text "8000000000\n"

def loadedOver : List SessionCall :=
  [⟨7000000000, .touch (newSessionToken zeros)⟩, ⟨7000000000, .load (.bytes savedLine)⟩,
    ⟨8000000000, .verify (newSessionToken zeros)⟩]

theorem loadedOver_expires : ¬Along SessionCall.apply (SessionCall.Accepted (newSessionToken zeros))
    (SessionCall.apply ((SessionStore.new 8).setCredential []) ⟨0, .create zeros⟩) loadedOver := by
  rintro ⟨-, -, last, -⟩
  exact absurd (last.1 rfl) (by decide +kernel)

theorem loadedOver_touched (s : SessionStore) (ttl : s.ttlNs = 8000000000) :
    TouchedOften (newSessionToken zeros) 0 s loadedOver := by
  have later (call : SessionCall) : (call.apply s).ttlNs = 8000000000 := (apply_ttlNs s call).trans ttl
  refine ⟨⟨Nat.zero_le _, ?_⟩, by simp, .inl ⟨.inl rfl, ?_⟩⟩
  · rw [ttl]
    exact show 8 * (7000000000 - 0) ≤ 7 * 8000000000 by decide
  refine ⟨⟨le_rfl, ?_⟩, by simp, .inr ⟨by simp [SessionCall.Creates], ?_⟩⟩
  · rw [Nat.sub_self]
    exact Nat.zero_le _
  refine ⟨⟨show 7000000000 ≤ 8000000000 by decide, ?_⟩, by simp, .inr ⟨by simp [SessionCall.Creates], trivial⟩⟩
  rw [apply_ttlNs, later]
  exact show 8 * (8000000000 - 7000000000) ≤ 7 * 8000000000 by decide

/-- A session touched at 7 seconds of its 8 is gone at 8, when the file that its creation saved was loaded after the
touch. -/
theorem session_shortened_by_load : ¬∀ (ttlSeconds : Nat) (passwordHash : List UInt8) (tok : Token),
    let start := (SessionStore.new ttlSeconds).setCredential passwordHash
    0 < start.ttlNs / 8 → ∀ (before : List SessionCall) (call : SessionCall) (after : List SessionCall),
      call.Creates tok ∨ SessionCall.Touches tok (before.foldl SessionCall.apply start) call →
      TouchedOften tok call.now ((before ++ [call]).foldl SessionCall.apply start) after →
      Along SessionCall.apply (SessionCall.Accepted tok) ((before ++ [call]).foldl SessionCall.apply start) after := by
  intro claimed
  have named : newSessionToken zeros ≠ [] := by decide +kernel
  have created : SessionCall.Creates ⟨0, .create zeros⟩ (newSessionToken zeros) := ⟨zeros, rfl, rfl, named⟩
  have touched := loadedOver_touched (SessionCall.apply ((SessionStore.new 8).setCredential []) ⟨0, .create zeros⟩)
    (apply_ttlNs _ _)
  exact loadedOver_expires (claimed 8 [] (newSessionToken zeros) (by decide) [] ⟨0, .create zeros⟩ loadedOver
    (.inl created) touched)

end Budyk.Proof
