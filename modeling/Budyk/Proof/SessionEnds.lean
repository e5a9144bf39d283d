import Budyk.Proof.SessionFile
import Budyk.Web.SessionProcess

namespace Budyk.Proof
open Lib Web Spec SessionProcess

/-- The step takes a session out of the table: revoked, or found past its deadline. -/
def Drops (tok : Token) (p : SessionProcess) (s : ProcessStep) : Prop :=
  s.op ≠ .restart ∧ tok ∈ p.store.deadline ∧ tok ∉ (p.step s).store.deadline

/-- A restart finds no line of the token in the file that has yet to expire. -/
def NotLoaded (tok : Token) (p : SessionProcess) (s : ProcessStep) : Prop :=
  s.op = .restart → ∀ table ∈ p.saved, ∀ d ∈ table.lookup tok, d ≤ s.now

def issued (steps : List ProcessStep) : List Token :=
  steps.filterMap fun s =>
    match s.op with
    | .create (some random) => some (newSessionToken (some random))
    | _ => none

def ProcessOpCall (op : ProcessOp) : Option SessionOp :=
  match op with
  | .create random => some (.create random)
  | .verify tok => some (.verify tok)
  | .touch tok => some (.touch tok)
  | .revoke tok => some (.revoke tok)
  | .purgeExpired => some .purgeExpired
  | .restart => none

theorem step_store (p : SessionProcess) {s : ProcessStep} {op : SessionOp} (call : ProcessOpCall s.op = some op) :
    (p.step s).store = SessionCall.apply p.store ⟨s.now, op⟩ := by
  cases s with
  | mk now op' =>
      cases op' with
      | create random =>
          cases call
          unfold step SessionCall.apply SessionStore.create
          dsimp only
          split <;> rfl
      | verify tok =>
          cases call
          unfold step SessionCall.apply checked
          dsimp only
          split <;> rfl
      | touch tok =>
          cases call
          unfold step SessionCall.apply checked
          dsimp only
          split <;> rfl
      | revoke tok =>
          cases call
          unfold step SessionCall.apply
          dsimp only
          split <;> rfl
      | purgeExpired =>
          cases call
          rfl
      | restart => cases call

theorem step_saved (p : SessionProcess) (s : ProcessStep) :
    (p.step s).saved = p.saved ∨ (p.step s).saved = some (p.step s).store.deadline := by
  cases s with
  | mk now op =>
      cases op with
      | create random =>
          unfold step
          dsimp only
          split
          · exact .inl rfl
          · exact .inr rfl
      | verify tok =>
          unfold step checked
          dsimp only
          split
          · exact .inr rfl
          · exact .inl rfl
      | touch tok =>
          unfold step checked
          dsimp only
          split
          · exact .inr rfl
          · exact .inl rfl
      | revoke tok =>
          unfold step
          dsimp only
          split
          · exact .inr rfl
          · exact .inl rfl
      | purgeExpired => exact .inl rfl
      | restart => exact .inl rfl

theorem step_credential (p : SessionProcess) (s : ProcessStep) : (p.step s).store.credential = p.store.credential := by
  cases call : ProcessOpCall s.op with
  | some op => rw [step_store p call, apply_eq]
  | none =>
      cases s with
      | mk now op =>
          cases op with
          | restart =>
              have same := apply_eq ⟨p.store.ttlNs, ∅, p.store.credential⟩ ⟨now, .load p.savedFile⟩
              have last := congrArg SessionStore.credential same
              exact last
          | create | verify | touch | revoke | purgeExpired => cases call

structure Sound (seen : List Token) (p : SessionProcess) : Prop where
  table : ∀ tok ∈ p.store.deadline, HexToken tok ∧ tok ∈ seen
  saved : ∀ t ∈ p.saved, ∀ tok ∈ t, HexToken tok ∧ tok ∈ seen
  credential : PlainCredential p.store.credential

theorem restart_mem {p : SessionProcess} {seen : List Token} (sound : Sound seen p) {now : Nat} {tok : Token}
    (held : tok ∈ (p.step ⟨now, .restart⟩).store.deadline) :
    ∃ table ∈ p.saved, ∃ d ∈ table.lookup tok, now < d := by
  unfold step at held
  rw [← AList.lookup_isSome, lookup_load, AList.lookup_empty, Option.or_none] at held
  unfold savedFile at held
  cases saved : p.saved with
  | none =>
      rw [saved] at held
      cases held
  | some table =>
      refine ⟨table, rfl, ?_⟩
      have hex : ∀ kv ∈ table.entries, HexToken kv.1 :=
        fun kv inside => (sound.saved table saved kv.1 (List.mem_keys_of_mem inside)).1
      have loads := loaded_file (s := { p.store with deadline := ∅ }) sound.credential table hex now tok
      rw [saved, loads, if_neg (by simp)] at held
      obtain ⟨d, kept⟩ := Option.isSome_iff_exists.mp held
      obtain ⟨v, filtered, -⟩ := Option.map_eq_some_iff.mp kept
      obtain ⟨mapped, live⟩ := Option.mem_filter_iff.mp filtered
      obtain ⟨d', present, rfl⟩ := Option.map_eq_some_iff.mp mapped
      exact ⟨d', present, Nat.lt_of_lt_of_le (of_decide_eq_true live) (readBack_le d')⟩

theorem call_mem {p : SessionProcess} {seen : List Token} (sound : Sound seen p) {s : ProcessStep} {op : SessionOp}
    (call : ProcessOpCall s.op = some op) {tok : Token} (held : tok ∈ (p.step s).store.deadline) :
    (HexToken tok ∧ tok ∈ issued [s]) ∨ tok ∈ p.store.deadline := by
  have unnamed : [] ∉ p.store.deadline := fun empty => (sound.table [] empty).1.ne_nil rfl
  rw [step_store p call] at held
  have named : tok ≠ [] := by
    rintro rfl
    exact apply_unnamed _ unnamed held
  rw [← AList.lookup_isSome, held_step named] at held
  rcases held with (⟨random, made, same, -⟩ | ⟨file, loads, -⟩) | ⟨before, -⟩
  · left
    cases s with
    | mk now op' =>
        cases op' with
        | create random' =>
            cases call
            cases made
            cases random with
            | none => exact absurd same named
            | some buf => exact ⟨same ▸ hexToken_new buf, by simp [issued, same]⟩
        | verify | touch | revoke | purgeExpired | restart => cases call <;> cases made
  · cases s with
    | mk now op' => cases op' <;> cases call <;> cases loads
  · exact .inr (AList.lookup_isSome.mp before)

theorem sound_step {p : SessionProcess} {seen : List Token} (sound : Sound seen p) (s : ProcessStep) :
    Sound (seen ++ issued [s]) (p.step s) := by
  have table : ∀ tok ∈ (p.step s).store.deadline, HexToken tok ∧ tok ∈ seen ++ issued [s] := by
    intro tok held
    rw [List.mem_append]
    cases call : ProcessOpCall s.op with
    | some op =>
        rcases call_mem sound call held with ⟨hex, made⟩ | before
        · exact ⟨hex, .inr made⟩
        · have known := sound.table tok before
          exact ⟨known.1, .inl known.2⟩
    | none =>
        cases s with
        | mk now op =>
            cases op with
            | restart =>
                obtain ⟨t, saved, d, present, -⟩ := restart_mem sound held
                have known := sound.saved t saved tok (AList.lookup_isSome.mp (Option.isSome_iff_exists.mpr ⟨d, present⟩))
                exact ⟨known.1, .inl known.2⟩
            | create | verify | touch | revoke | purgeExpired => cases call
  refine ⟨table, ?_, by rw [step_credential]; exact sound.credential⟩
  intro t saved tok held
  rcases step_saved p s with same | new
  · rw [same] at saved
    have known := sound.saved t saved tok held
    exact ⟨known.1, List.mem_append_left _ known.2⟩
  · rw [new] at saved
    cases saved
    exact table tok held

theorem issued_append (first second : List ProcessStep) : issued (first ++ second) = issued first ++ issued second :=
  List.filterMap_append

theorem sound_run (ttlSeconds : Nat) (passwordHash : List UInt8) (steps : List ProcessStep) :
    Sound (issued steps) (run (start ttlSeconds passwordHash) steps) := by
  induction steps using List.reverseRecOn with
  | nil =>
      refine ⟨?_, ?_, plainCredential_set _ _⟩
      · intro tok held
        exact absurd held (AList.notMem_empty tok)
      · intro t saved
        cases saved
  | append_singleton steps s ih =>
      rw [issued_append, run, List.foldl_append]
      exact sound_step ih s

/-- A token that is gone comes back through a restart only, and nothing makes it again. -/
theorem gone_step {p : SessionProcess} {seen : List Token} (sound : Sound seen p) {s : ProcessStep} {tok : Token}
    (gone : tok ∉ p.store.deadline) (unmade : tok ∉ issued [s]) (notLoaded : NotLoaded tok p s) :
    tok ∉ (p.step s).store.deadline := by
  intro held
  cases call : ProcessOpCall s.op with
  | some op =>
      rcases call_mem sound call held with ⟨-, made⟩ | before
      · exact unmade made
      · exact gone before
  | none =>
      cases s with
      | mk now op =>
          cases op with
          | restart =>
              obtain ⟨t, saved, d, present, live⟩ := restart_mem sound held
              exact absurd (notLoaded rfl t saved d present) (Nat.not_le_of_lt live)
          | create | verify | touch | revoke | purgeExpired => cases call

theorem gone_run {tok : Token} (steps : List ProcessStep) {p : SessionProcess} {seen : List Token} (sound : Sound seen p)
    (gone : tok ∉ p.store.deadline) (unmade : tok ∉ issued steps) (notLoaded : Along step (NotLoaded tok) p steps) :
    tok ∉ (run p steps).store.deadline := by
  induction steps generalizing p seen with
  | nil => exact gone
  | cons s rest ih =>
      rw [← List.singleton_append, issued_append, List.mem_append, not_or] at unmade
      exact ih (sound_step sound s) (gone_step sound gone unmade.1 notLoaded.1) unmade.2 notLoaded.2

/-- A token that is in neither the table nor the file is in no later file. -/
theorem forgotten_run {tok : Token} (steps : List ProcessStep) {p : SessionProcess} {seen : List Token}
    (sound : Sound seen p) (gone : tok ∉ p.store.deadline) (unsaved : ∀ table ∈ p.saved, tok ∉ table)
    (unmade : tok ∉ issued steps) : Along step (NotLoaded tok) p steps := by
  induction steps generalizing p seen with
  | nil => trivial
  | cons s rest ih =>
      rw [← List.singleton_append, issued_append, List.mem_append, not_or] at unmade
      have notLoaded : NotLoaded tok p s := by
        intro _ table saved d present
        exact absurd (AList.lookup_isSome.mp (Option.isSome_iff_exists.mpr ⟨d, present⟩)) (unsaved table saved)
      have gone' := gone_step sound gone unmade.1 notLoaded
      refine ⟨notLoaded, ih (sound_step sound s) gone' ?_ unmade.2⟩
      intro table saved
      rcases step_saved p s with same | new
      · rw [same] at saved
        exact unsaved table saved
      · rw [new] at saved
        cases saved
        exact gone'

theorem verify_keeps {s : SessionStore} {tok other : Token} {now : Nat} (unsaved : (s.verify other now).save = false)
    (held : tok ∈ s.deadline) : tok ∈ (s.verify other now).store.deadline := by
  unfold SessionStore.verify at unsaved ⊢
  split
  · exact held
  next named =>
    rw [if_neg named] at unsaved
    split
    · exact held
    next d present =>
      simp only [present] at unsaved
      split
      next expired =>
        rw [if_pos expired] at unsaved
        cases unsaved
      next live =>
        split
        · exact AList.mem_insert _ |>.mpr (.inr held)
        · exact held

theorem touch_keeps {s : SessionStore} {tok other : Token} {now : Nat} (unsaved : (s.touch other now).save = false)
    (held : tok ∈ s.deadline) : tok ∈ (s.touch other now).store.deadline := by
  unfold SessionStore.touch at unsaved ⊢
  split
  · exact held
  next named =>
    rw [if_neg named] at unsaved
    split
    · exact held
    next d present =>
      simp only [present] at unsaved
      split
      next expired =>
        rw [if_pos expired] at unsaved
        cases unsaved
      next live =>
        rw [if_neg live] at unsaved
        dsimp only
        split
        next slides =>
          rw [if_pos slides] at unsaved
          cases unsaved
        next => exact held

/-- Of the calls that take a session out, the purge alone leaves the file as it was. -/
theorem drops_saved {tok : Token} {p : SessionProcess} {s : ProcessStep} (drops : Drops tok p s)
    (other : s.op ≠ .purgeExpired) : (p.step s).saved = some (p.step s).store.deadline := by
  obtain ⟨running, held, gone⟩ := drops
  cases s with
  | mk now op =>
      cases op with
      | create random =>
          unfold step at gone ⊢
          dsimp only at gone ⊢
          split
          next unnamed =>
            rw [if_pos unnamed] at gone
            exact absurd held gone
          next => rfl
      | verify tok' =>
          unfold step checked at gone ⊢
          dsimp only at gone ⊢
          split
          · rfl
          next unsaved =>
            rw [if_neg unsaved] at gone
            exact absurd (verify_keeps (Bool.eq_false_iff.mpr unsaved) held) gone
      | touch tok' =>
          unfold step checked at gone ⊢
          dsimp only at gone ⊢
          split
          · rfl
          next unsaved =>
            rw [if_neg unsaved] at gone
            exact absurd (touch_keeps (Bool.eq_false_iff.mpr unsaved) held) gone
      | revoke tok' =>
          unfold step at gone ⊢
          dsimp only at gone ⊢
          split
          · rfl
          next absent =>
            rw [if_neg absent] at gone
            have none : tok' ∉ p.store.deadline := fun present => absent (AList.lookup_isSome.mpr present)
            refine absurd (AList.mem_erase.mpr ⟨?_, held⟩) gone
            exact ne_of_mem_of_not_mem held none
      | purgeExpired => exact absurd rfl other
      | restart => exact absurd rfl running

theorem ended_session_stays_ended (ttlSeconds : Nat) (passwordHash : List UInt8) (steps : List ProcessStep)
    (distinct : (issued steps).Nodup) (before after : List ProcessStep) (s : ProcessStep)
    (split : steps = before ++ s :: after) (tok : Token) (drops : Drops tok (run (start ttlSeconds passwordHash) before) s)
    (purged : s.op = .purgeExpired →
      Along step (NotLoaded tok) ((run (start ttlSeconds passwordHash) before).step s) after) (now : Nat) :
    ((run (start ttlSeconds passwordHash) steps).store.verify tok now).ok = false ∧
    ((run (start ttlSeconds passwordHash) steps).store.touch tok now).ok = false := by
  subst split
  have sound := sound_run ttlSeconds passwordHash before
  have known := sound.table tok drops.2.1
  have unmade : tok ∉ issued after := by
    rw [issued_append, List.nodup_append] at distinct
    intro later
    rw [← List.singleton_append, issued_append] at distinct
    exact distinct.2.2 tok known.2 tok (List.mem_append_right _ later) rfl
  have notLoaded : Along step (NotLoaded tok) ((run (start ttlSeconds passwordHash) before).step s) after := by
    by_cases purges : s.op = .purgeExpired
    · exact purged purges
    · apply forgotten_run after (sound_step sound s) drops.2.2 _ unmade
      intro table saved
      rw [drops_saved drops purges] at saved
      cases saved
      exact drops.2.2
  have gone : tok ∉ (run (start ttlSeconds passwordHash) (before ++ s :: after)).store.deadline := by
    have last := gone_run after (sound_step sound s) drops.2.2 unmade notLoaded
    rwa [run, List.foldl_append, List.foldl_cons]
  have none := AList.lookup_eq_none.mpr gone
  constructor
  · rw [Bool.eq_false_iff, Ne, verify_ok known.1.ne_nil, none]
    simp
  · rw [Bool.eq_false_iff, Ne, touch_ok known.1.ne_nil, none]
    simp

theorem ended_session_stays_ended_purged :
    ((run (start 1 []) [⟨0, .create (some zeroes)⟩, ⟨1000000000, .purgeExpired⟩,
      ⟨1000000001, .restart⟩]).store.verify (newSessionToken (some zeroes)) 6).ok = false ∧
    ((run (start 1 []) [⟨0, .create (some zeroes)⟩, ⟨1000000000, .purgeExpired⟩,
      ⟨1000000001, .restart⟩]).store.touch (newSessionToken (some zeroes)) 6).ok = false := by
  apply ended_session_stays_ended 1 [] _ (by decide) [⟨0, .create (some zeroes)⟩] [⟨1000000001, .restart⟩]
    ⟨1000000000, .purgeExpired⟩ rfl (newSessionToken (some zeroes)) (by unfold Drops; decide) _ 6
  intro _
  refine ⟨?_, trivial⟩
  intro _ table saved d present
  cases saved
  cases present
  decide

/-- The purge drops the session and leaves its line in the file; the clock steps back, and the next process
takes it. -/
theorem ended_session_returns :
    ∃ steps before after s tok now, (issued steps).Nodup ∧ steps = before ++ s :: after ∧
      Drops tok (run (start 1 []) before) s ∧ ((run (start 1 []) steps).store.verify tok now).ok = true := by
  refine ⟨[⟨0, .create (some zeroes)⟩, ⟨1000000000, .purgeExpired⟩, ⟨5, .restart⟩], [⟨0, .create (some zeroes)⟩],
    [⟨5, .restart⟩], ⟨1000000000, .purgeExpired⟩, newSessionToken (some zeroes), 6, by decide, rfl, by unfold Drops; decide,
    by decide⟩

end Budyk.Proof
