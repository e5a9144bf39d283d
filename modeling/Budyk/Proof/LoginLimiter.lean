import Budyk.Spec.LoginHistory
import Mathlib.Order.MinMax

namespace Budyk.Proof
open Lib Web Spec
open FixedWindow (Closed add within Bounded closed_cons closed_nil add_ne_nil)

/-! An entry and the window it counts. -/

def entryOf (window : List Nat) : Entry := ⟨window.length, window.headD 0⟩

def secondsLeft (width most : Nat) (window : List Nat) (now : Nat) : Nat :=
  if window.length < most then 0 else window.headD 0 + width - now

variable {l : LoginLimiter} {ws : LoginWindows} {now clock : Nat}

theorem expired_entryOf (window : List Nat) : l.expired (entryOf window) now = true ↔ Closed l.windowSec window now := by
  cases window with
  | nil => simp [LoginLimiter.expired, entryOf, closed_nil]
  | cons start rest => simp [LoginLimiter.expired, entryOf, closed_cons]

theorem bump_entryOf (window : List Nat) : l.bump (entryOf window) now = entryOf (add l.windowSec window now) := by
  unfold LoginLimiter.bump add
  by_cases closed : Closed l.windowSec window now
  · rw [if_pos ((expired_entryOf window).mpr closed), if_pos closed]
    rfl
  · rw [if_neg (mt (expired_entryOf window).mp closed), if_neg closed]
    cases window with
    | nil => exact absurd closed_nil closed
    | cons start rest => simp [entryOf]

theorem left_pos {width most : Nat} {window : List Nat} (nonempty : 0 < most) :
    0 < secondsLeft width most window now ↔ most ≤ window.length ∧ ¬Closed width window now := by
  unfold secondsLeft
  cases window with
  | nil => simp [closed_nil, nonempty]
  | cons start rest =>
      rw [closed_cons, List.headD_cons]
      split <;> omega

theorem left_eq {width most : Nat} {window : List Nat} (blocked : 0 < secondsLeft width most window now) :
    secondsLeft width most window now = window.headD 0 + width - now := by
  unfold secondsLeft at blocked ⊢
  split at blocked
  · cases blocked
  · exact if_neg ‹_›

/-! The table against the windows. -/

structure TracksAll (l : LoginLimiter) (ws : LoginWindows) : Prop where
  all : l.global = entryOf ws.all
  most : ws.all.length ≤ l.globalMax

structure TracksPeers (l : LoginLimiter) (ws : LoginWindows) (clock : Nat) : Prop where
  held : ∀ p e, l.peers.lookup p = some e → ws.peer p ≠ [] ∧ e = entryOf (ws.peer p)
  gone : ∀ p, l.peers.lookup p = none → Closed l.windowSec (ws.peer p) clock
  most : ∀ p, (ws.peer p).length ≤ l.maxFailures

theorem sweep_eq (l : LoginLimiter) (now : Nat) : l.sweep now = { l with peers := (l.sweep now).peers } := by
  unfold LoginLimiter.sweep
  split_ifs <;> rfl

theorem lookup_kept (l : LoginLimiter) (now : Nat) (p : Peer) :
    (l.kept now).lookup p = (l.peers.lookup p).filter fun e => !l.expired e now := by
  ext e
  rw [← Option.mem_def, ← Option.mem_def, AList.mem_lookup_iff, Option.mem_filter_iff, AList.mem_lookup_iff]
  simp [LoginLimiter.kept]

theorem lookup_sweep (unclear : ¬l.Clears now) (p : Peer) :
    (l.sweep now).peers.lookup p = l.peers.lookup p ∨
    (l.sweep now).peers.lookup p = (l.peers.lookup p).filter fun e => !l.expired e now := by
  unfold LoginLimiter.sweep
  split
  next => exact .inl rfl
  next many =>
    rw [if_neg fun ended => unclear ⟨Nat.le_of_not_lt many, ended⟩]
    exact .inr (lookup_kept l now p)

theorem lookup_sweep_le (l : LoginLimiter) (now : Nat) {p : Peer} {e : Entry}
    (held : (l.sweep now).peers.lookup p = some e) : l.peers.lookup p = some e := by
  unfold LoginLimiter.sweep at held
  split at held
  · exact held
  · split at held
    · cases held
    · rw [lookup_kept] at held
      exact (Option.filter_eq_some_iff.mp held).1

theorem sweep_tracks (tracks : TracksPeers l ws clock) (unclear : ¬l.Clears now) (later : clock ≤ now) :
    TracksPeers (l.sweep now) ws now := by
  rw [sweep_eq]
  refine ⟨?_, ?_, tracks.most⟩
  · intro p e held
    exact tracks.held p e (lookup_sweep_le l now held)
  · intro p gone
    cases before : l.peers.lookup p with
    | none => exact (tracks.gone p before).later later
    | some e =>
        obtain ⟨-, same⟩ := tracks.held p e before
        rcases lookup_sweep unclear p with kept | filtered
        · rw [kept, before] at gone
          cases gone
        · rw [filtered, before, Option.filter_some] at gone
          split at gone
          · cases gone
          next expired =>
            rw [same, Bool.not_eq_true', Bool.not_eq_false, expired_entryOf] at expired
            exact expired

theorem blocking_peers (l : LoginLimiter) (p : Peer) (now : Nat) :
    (l.blocking p now).2 = l ∨ (∃ e, l.peers.lookup p = some e ∧ l.expired e now = true) ∧
      (l.blocking p now).2 = { l with peers := l.peers.erase p } := by
  unfold LoginLimiter.blocking
  dsimp only
  split
  next => exact .inl rfl
  next e present =>
    by_cases ended : l.expired e now
    · rw [if_pos ended]
      exact .inr ⟨⟨e, present, ended⟩, rfl⟩
    · rw [if_neg ended]
      left
      split
      · split <;> rfl
      · rfl

theorem blocking_tracks (tracks : TracksPeers l ws now) (p : Peer) : TracksPeers (l.blocking p now).2 ws now := by
  rcases blocking_peers l p now with same | ⟨⟨e, present, ended⟩, erased⟩
  · rw [same]
    exact tracks
  · rw [erased]
    refine ⟨?_, ?_, tracks.most⟩
    · intro q e' held
      by_cases same : q = p
      · subst same
        rw [AList.lookup_erase] at held
        cases held
      · rw [AList.lookup_erase_ne same] at held
        exact tracks.held q e' held
    · intro q gone
      by_cases same : q = p
      · subst same
        rw [(tracks.held q e present).2, expired_entryOf] at ended
        exact ended
      · rw [AList.lookup_erase_ne same] at gone
        exact tracks.gone q gone

theorem retryAfter_table (l : LoginLimiter) (p : Peer) (now : Nat) :
    (l.retryAfter p now).2 = ((l.sweep now).blocking p now).2 := by
  unfold LoginLimiter.retryAfter
  split <;> simp_all

theorem retryAfter_eq (l : LoginLimiter) (p : Peer) (now : Nat) :
    (l.retryAfter p now).2 = { l with peers := (l.retryAfter p now).2.peers } := by
  rw [retryAfter_table]
  rcases blocking_peers (l.sweep now) p now with same | ⟨-, erased⟩
  · rw [same]
    exact sweep_eq l now
  · rw [erased, sweep_eq]

theorem lookup_retryAfter_le (l : LoginLimiter) (p : Peer) (now : Nat) {q : Peer} {e : Entry}
    (held : (l.retryAfter p now).2.peers.lookup q = some e) : l.peers.lookup q = some e := by
  rw [retryAfter_table] at held
  rcases blocking_peers (l.sweep now) p now with same | ⟨-, erased⟩
  · rw [same] at held
    exact lookup_sweep_le l now held
  · rw [erased] at held
    by_cases same : q = p
    · subst same
      rw [AList.lookup_erase] at held
      cases held
    · rw [AList.lookup_erase_ne same] at held
      exact lookup_sweep_le l now held

theorem retryAfter_tracks (tracks : TracksPeers l ws clock) (unclear : ¬l.Clears now) (later : clock ≤ now) (p : Peer) :
    TracksPeers (l.retryAfter p now).2 ws now := by
  rw [retryAfter_table]
  exact blocking_tracks (sweep_tracks tracks unclear later) p

def globalBlocking (l : LoginLimiter) (now : Nat) : Option Entry :=
  if !l.expired l.global now ∧ l.global.failures ≥ l.globalMax then some l.global else none

theorem globalBlocking_eq (all : TracksAll l ws) (nonempty : 0 < l.globalMax) :
    globalBlocking l now = if 0 < secondsLeft l.windowSec l.globalMax ws.all now then some (entryOf ws.all) else none := by
  have blocks : (!l.expired l.global now) = true ∧ l.global.failures ≥ l.globalMax ↔
      0 < secondsLeft l.windowSec l.globalMax ws.all now := by
    rw [left_pos nonempty, all.all, ← expired_entryOf, Bool.not_eq_true', Bool.not_eq_true]
    exact And.comm
  unfold globalBlocking
  rw [← all.all]
  simp only [blocks]

def waitOf (l : LoginLimiter) (now : Nat) : Option Entry → Nat
  | none => 0
  | some b => if b.windowStart + l.windowSec > now then b.windowStart + l.windowSec - now else 1

theorem retryAfter_wait (l : LoginLimiter) (p : Peer) (now : Nat) :
    (l.retryAfter p now).1 = waitOf l now ((l.sweep now).blocking p now).1 := by
  have width : ((l.sweep now).blocking p now).2.windowSec = l.windowSec := by
    rw [← retryAfter_table, retryAfter_eq]
  unfold LoginLimiter.retryAfter
  split
  next none => rw [none]; rfl
  next b l' nonempty =>
    rw [nonempty] at width ⊢
    simp only at width
    simp only [waitOf, width]

theorem waitOf_pos (b : Entry) : 0 < waitOf l now (some b) := by
  unfold waitOf
  dsimp only
  split <;> omega

theorem waitOf_entryOf {most : Nat} {window : List Nat} (blocked : 0 < secondsLeft l.windowSec most window now) :
    waitOf l now (some (entryOf window)) = secondsLeft l.windowSec most window now := by
  have end_ := left_eq blocked
  unfold waitOf entryOf
  dsimp only
  rw [if_pos (by omega), end_]

theorem blocking_entry (l : LoginLimiter) (p : Peer) (now : Nat) : (l.blocking p now).1 =
    match (l.peers.lookup p).filter fun e => !l.expired e now ∧ e.failures ≥ l.maxFailures with
    | none => globalBlocking l now
    | some e =>
        match globalBlocking l now with
        | none => some e
        | some b => some (if e.windowStart > b.windowStart then e else b) := by
  unfold LoginLimiter.blocking globalBlocking
  dsimp only
  cases l.peers.lookup p with
  | none => rfl
  | some e =>
      dsimp only
      by_cases ended : l.expired e now
      · simp [Option.filter, ended]
      · by_cases full : e.failures ≥ l.maxFailures
        · rw [if_neg ended, if_pos full, Option.filter_some_pos (by simp [ended, full])]
          generalize (if (!l.expired l.global now) = true ∧ l.global.failures ≥ l.globalMax then some l.global else none) =
            blocked
          cases blocked <;> rfl
        · simp [Option.filter, ended, full]

theorem blocking_wait (tracks : TracksPeers l ws now) (all : TracksAll l ws)
    (positive : 0 < l.maxFailures ∧ 0 < l.globalMax) (p : Peer) :
    waitOf l now (l.blocking p now).1 =
      max (secondsLeft l.windowSec l.maxFailures (ws.peer p) now) (secondsLeft l.windowSec l.globalMax ws.all now) := by
  have own : ((l.peers.lookup p).filter fun e => !l.expired e now ∧ e.failures ≥ l.maxFailures) =
      if 0 < secondsLeft l.windowSec l.maxFailures (ws.peer p) now then some (entryOf (ws.peer p)) else none := by
    have blocks : 0 < secondsLeft l.windowSec l.maxFailures (ws.peer p) now ↔ _ := left_pos positive.1
    cases held : l.peers.lookup p with
    | none =>
        rw [if_neg fun blocked => (blocks.mp blocked).2 (tracks.gone p held)]
        rfl
    | some e =>
        obtain ⟨-, rfl⟩ := tracks.held p e held
        have full : (!l.expired (entryOf (ws.peer p)) now) = true ∧ (entryOf (ws.peer p)).failures ≥ l.maxFailures ↔
            0 < secondsLeft l.windowSec l.maxFailures (ws.peer p) now := by
          rw [blocks, ← expired_entryOf, Bool.not_eq_true', Bool.not_eq_true]
          exact And.comm
        simp only [Option.filter, full, decide_eq_true_eq]
  rw [blocking_entry, own, globalBlocking_eq all positive.2]
  by_cases ownBlocks : 0 < secondsLeft l.windowSec l.maxFailures (ws.peer p) now
  · by_cases allBlocks : 0 < secondsLeft l.windowSec l.globalMax ws.all now
    · rw [if_pos ownBlocks, if_pos allBlocks]
      dsimp only
      have ownEnd := left_eq ownBlocks
      have allEnd := left_eq allBlocks
      split
      next later =>
        rw [waitOf_entryOf ownBlocks, max_eq_left]
        simp only [entryOf] at later
        omega
      next earlier =>
        rw [waitOf_entryOf allBlocks, max_eq_right]
        simp only [entryOf] at earlier
        omega
    · rw [if_pos ownBlocks, if_neg allBlocks]
      dsimp only
      rw [waitOf_entryOf ownBlocks, Nat.eq_zero_of_not_pos allBlocks, Nat.max_zero]
  · rw [if_neg ownBlocks, Nat.eq_zero_of_not_pos ownBlocks, Nat.zero_max]
    dsimp only
    split
    next allBlocks => exact waitOf_entryOf allBlocks
    next free => exact (Nat.eq_zero_of_not_pos free).symm

theorem sweep_all (all : TracksAll l ws) : TracksAll (l.sweep now) ws := by
  rw [sweep_eq]
  exact ⟨all.all, all.most⟩

theorem waitOf_sweep (b : Option Entry) : waitOf (l.sweep now) now b = waitOf l now b := by
  rw [sweep_eq]
  rfl

theorem wait_eq (tracks : TracksPeers l ws clock) (all : TracksAll l ws) (unclear : ¬l.Clears now) (later : clock ≤ now)
    (positive : 0 < l.maxFailures ∧ 0 < l.globalMax) (p : Peer) :
    (l.retryAfter p now).1 =
      max (secondsLeft l.windowSec l.maxFailures (ws.peer p) now) (secondsLeft l.windowSec l.globalMax ws.all now) := by
  have same := sweep_eq l now
  have width : (l.sweep now).windowSec = l.windowSec := by rw [same]
  have most : (l.sweep now).maxFailures = l.maxFailures := by rw [same]
  have globalMost : (l.sweep now).globalMax = l.globalMax := by rw [same]
  have swept := blocking_wait (sweep_tracks tracks unclear later) (sweep_all all) (by rwa [most, globalMost]) p
  rwa [waitOf_sweep, width, most, globalMost, ← retryAfter_wait] at swept

theorem left_all_of_admitted (all : TracksAll l ws) (nonempty : 0 < l.globalMax) {p : Peer}
    (admitted : (l.retryAfter p now).1 = 0) : secondsLeft l.windowSec l.globalMax ws.all now = 0 := by
  by_contra blocks
  have same := sweep_eq l now
  have width : (l.sweep now).windowSec = l.windowSec := by rw [same]
  have globalMost : (l.sweep now).globalMax = l.globalMax := by rw [same]
  have swept : TracksAll (l.sweep now) ws := sweep_all all
  have global : globalBlocking (l.sweep now) now = _ := globalBlocking_eq swept (by rwa [globalMost])
  rw [width, globalMost, if_pos (Nat.pos_of_ne_zero blocks)] at global
  have found : ∃ b, ((l.sweep now).blocking p now).1 = some b := by
    rw [blocking_entry, global]
    split <;> exact ⟨_, rfl⟩
  obtain ⟨b, found⟩ := found
  rw [retryAfter_wait, found] at admitted
  exact absurd admitted (Nat.ne_of_gt (waitOf_pos b))

/-! One attempt. -/

theorem login_wait (l : LoginLimiter) (a : LoginAttempt) : (l.login a).1 = (l.retryAfter a.peer a.now).1 := by
  unfold LoginLimiter.login
  split
  next l' same =>
    rw [same]
    cases a.password <;> rfl
  next => rfl

/-- What an attempt puts on record, and the table it leaves. -/
inductive Attempted (l : LoginLimiter) (a : LoginAttempt) : List LoginRecord → LoginLimiter → Prop where
  | looked : Attempted l a [] (l.retryAfter a.peer a.now).2
  | failed (admitted : (l.retryAfter a.peer a.now).1 = 0) :
      Attempted l a [.failure a.peer a.now] ((l.retryAfter a.peer a.now).2.recordFailure a.peer a.now).2
  | succeeded (admitted : (l.retryAfter a.peer a.now).1 = 0) :
      Attempted l a [.success a.peer] ((l.retryAfter a.peer a.now).2.recordSuccess a.peer)

theorem attempted (l : LoginLimiter) (a : LoginAttempt) : Attempted l a (recorded l a) (l.step a) := by
  unfold recorded LoginLimiter.step
  rw [login_wait]
  by_cases admitted : (l.retryAfter a.peer a.now).1 = 0
  · have same : l.retryAfter a.peer a.now = (0, (l.retryAfter a.peer a.now).2) := Prod.ext admitted rfl
    rw [if_pos admitted]
    unfold LoginLimiter.login
    rw [same]
    cases a.password with
    | missing => exact .looked
    | wrong => exact .failed admitted
    | right => exact .succeeded admitted
  · have same : l.login a = l.retryAfter a.peer a.now := by
      unfold LoginLimiter.login
      split
      next l' zero => exact absurd (congrArg Prod.fst zero) admitted
      next => rfl
    rw [if_neg admitted, same]
    exact .looked

variable {a : LoginAttempt} {log : List LoginRecord} {l' : LoginLimiter}

structure SameLimits (l l' : LoginLimiter) : Prop where
  maxFailures : l'.maxFailures = l.maxFailures
  windowSec : l'.windowSec = l.windowSec
  globalMax : l'.globalMax = l.globalMax

theorem attempted_limits (takes : Attempted l a log l') : SameLimits l l' := by
  have same := retryAfter_eq l a.peer a.now
  have looked : SameLimits l (l.retryAfter a.peer a.now).2 := by
    rw [same]
    exact ⟨rfl, rfl, rfl⟩
  cases takes with
  | looked => exact looked
  | failed => exact ⟨looked.maxFailures, looked.windowSec, looked.globalMax⟩
  | succeeded => exact ⟨looked.maxFailures, looked.windowSec, looked.globalMax⟩

theorem add_length_le {width most : Nat} {window : List Nat} (nonempty : 0 < most) (most_ : window.length ≤ most)
    (free : secondsLeft width most window now = 0) : (add width window now).length ≤ most := by
  unfold add
  split
  · exact nonempty
  next unclosed =>
    have blocks : 0 < secondsLeft width most window now ↔ _ := left_pos nonempty
    rw [List.length_append, List.length_singleton]
    by_contra ended
    have := blocks.mpr ⟨by omega, unclosed⟩
    omega

theorem attempted_all (all : TracksAll l ws) (nonempty : 0 < l.globalMax) (takes : Attempted l a log l') :
    TracksAll l' (log.foldl (LoginWindows.step l.windowSec) ws) := by
  have same := retryAfter_eq l a.peer a.now
  have looked : TracksAll (l.retryAfter a.peer a.now).2 ws := by
    rw [same]
    exact ⟨all.all, all.most⟩
  cases takes with
  | looked => exact looked
  | failed admitted =>
      have free := left_all_of_admitted all nonempty admitted
      constructor
      · show (l.retryAfter a.peer a.now).2.bump (l.retryAfter a.peer a.now).2.global a.now = _
        rw [looked.all, bump_entryOf, same]
        rfl
      · show (add l.windowSec ws.all a.now).length ≤ (l.retryAfter a.peer a.now).2.globalMax
        rw [same]
        exact add_length_le nonempty all.most free
  | succeeded => exact ⟨looked.all, looked.most⟩

theorem attempted_peers (tracks : TracksPeers l ws clock) (all : TracksAll l ws) (unclear : ¬l.Clears a.now)
    (later : clock ≤ a.now) (positive : 0 < l.maxFailures ∧ 0 < l.globalMax) (takes : Attempted l a log l') :
    TracksPeers l' (log.foldl (LoginWindows.step l.windowSec) ws) a.now := by
  have looked := retryAfter_tracks tracks unclear later a.peer
  have same := retryAfter_eq l a.peer a.now
  have width : (l.retryAfter a.peer a.now).2.windowSec = l.windowSec := by rw [same]
  have most : (l.retryAfter a.peer a.now).2.maxFailures = l.maxFailures := by rw [same]
  cases takes with
  | looked => exact looked
  | failed admitted =>
      have wait := wait_eq tracks all unclear later positive a.peer
      have free : secondsLeft l.windowSec l.maxFailures (ws.peer a.peer) a.now = 0 := by omega
      have entry : (l.retryAfter a.peer a.now).2.bump
          (((l.retryAfter a.peer a.now).2.peers.lookup a.peer).getD ⟨0, 0⟩) a.now =
          entryOf (add l.windowSec (ws.peer a.peer) a.now) := by
        cases held : (l.retryAfter a.peer a.now).2.peers.lookup a.peer with
        | some e =>
            obtain ⟨-, rfl⟩ := looked.held a.peer e held
            rw [Option.getD_some, bump_entryOf, width]
        | none =>
            have closed := looked.gone a.peer held
            rw [width] at closed
            unfold add
            rw [if_pos closed]
            rfl
      refine ⟨?_, ?_, ?_⟩
      · intro q e held
        show Function.update ws.peer a.peer _ q ≠ [] ∧ e = entryOf (Function.update ws.peer a.peer _ q)
        by_cases own : q = a.peer
        · subst own
          rw [Function.update_self]
          refine ⟨add_ne_nil, ?_⟩
          have inserted := held
          rw [LoginLimiter.recordFailure, AList.lookup_insert, entry] at inserted
          exact (Option.some.inj inserted).symm
        · rw [Function.update_of_ne own]
          rw [LoginLimiter.recordFailure, AList.lookup_insert_ne own] at held
          exact looked.held q e held
      · intro q gone
        show Closed _ (Function.update ws.peer a.peer _ q) _
        by_cases own : q = a.peer
        · subst own
          rw [LoginLimiter.recordFailure, AList.lookup_insert] at gone
          cases gone
        · rw [Function.update_of_ne own]
          rw [LoginLimiter.recordFailure, AList.lookup_insert_ne own] at gone
          exact looked.gone q gone
      · intro q
        show (Function.update ws.peer a.peer _ q).length ≤ (l.retryAfter a.peer a.now).2.maxFailures
        rw [most]
        by_cases own : q = a.peer
        · subst own
          rw [Function.update_self]
          exact add_length_le positive.1 (tracks.most _) free
        · rw [Function.update_of_ne own]
          exact tracks.most q
  | succeeded admitted =>
      refine ⟨?_, ?_, ?_⟩
      · intro q e held
        show Function.update ws.peer a.peer [] q ≠ [] ∧ e = entryOf (Function.update ws.peer a.peer [] q)
        by_cases own : q = a.peer
        · subst own
          rw [LoginLimiter.recordSuccess, AList.lookup_erase] at held
          cases held
        · rw [Function.update_of_ne own]
          rw [LoginLimiter.recordSuccess, AList.lookup_erase_ne own] at held
          exact looked.held q e held
      · intro q gone
        show Closed _ (Function.update ws.peer a.peer [] q) _
        by_cases own : q = a.peer
        · subst own
          rw [Function.update_self]
          exact closed_nil
        · rw [Function.update_of_ne own]
          rw [LoginLimiter.recordSuccess, AList.lookup_erase_ne own] at gone
          exact looked.gone q gone
      · intro q
        show (Function.update ws.peer a.peer [] q).length ≤ (l.retryAfter a.peer a.now).2.maxFailures
        rw [most]
        by_cases own : q = a.peer
        · subst own
          rw [Function.update_self]
          exact Nat.zero_le _
        · rw [Function.update_of_ne own]
          exact tracks.most q

/-! Runs. -/

theorem loginLog_cons (l : LoginLimiter) (a : LoginAttempt) (rest : List LoginAttempt) :
    loginLog l (a :: rest) = recorded l a ++ loginLog (l.step a) rest := rfl

theorem loginLog_append (l : LoginLimiter) (first second : List LoginAttempt) :
    loginLog l (first ++ second) = loginLog l first ++ loginLog (l.run first) second := reports_append _ l first second

theorem failures_append (first second : List LoginRecord) : failures (first ++ second) = failures first ++ failures second :=
  List.filterMap_append

theorem failuresOf_append (p : Peer) (first second : List LoginRecord) :
    failuresOf p (first ++ second) = failuresOf p first ++ failuresOf p second := by
  unfold failuresOf
  rw [failures_append, List.filter_append, List.map_append]

section Runs
variable {l₀ : LoginLimiter} (positive : 0 < l₀.maxFailures ∧ 0 < l₀.globalMax)

def times (log : List LoginRecord) : List Nat := (failures log).map fun failure => failure.2

theorem SameLimits.step (same : SameLimits l₀ l) (a : LoginAttempt) : SameLimits l₀ (l.step a) := by
  have next := attempted_limits (attempted l a)
  exact ⟨next.maxFailures.trans same.maxFailures, next.windowSec.trans same.windowSec, next.globalMax.trans same.globalMax⟩

include positive in
theorem all_bounded (attempts : List LoginAttempt) (same : SameLimits l₀ l) (all : TracksAll l ws) :
    Bounded l₀.windowSec l₀.globalMax ws.all (times (loginLog l attempts)) := by
  induction attempts generalizing l ws with
  | nil => trivial
  | cons a rest ih =>
      rw [loginLog_cons]
      have takes := attempted l a
      have next := attempted_all all (by rw [same.globalMax]; exact positive.2) takes
      have further := ih (same.step a) next
      have most := next.most
      rw [(same.step a).globalMax] at most
      generalize loginLog (l.step a) rest = later at further ⊢
      generalize recorded l a = log at takes further most ⊢
      generalize l.step a = l' at takes
      cases takes with
      | looked => exact further
      | succeeded => exact further
      | failed =>
          rw [same.windowSec] at further most
          exact ⟨most, further⟩

/-- The table says of each peer, and the global entry of all, what their windows do. -/
structure Tracked (l₀ l : LoginLimiter) (ws : LoginWindows) (clock : Nat) : Prop where
  same : SameLimits l₀ l
  all : TracksAll l ws
  peers : TracksPeers l ws clock

include positive in
theorem tracked_step (tracked : Tracked l₀ l ws clock) (unclear : ¬l.Clears a.now) (later : clock ≤ a.now) :
    Tracked l₀ (l.step a) ((recorded l a).foldl (LoginWindows.step l₀.windowSec) ws) a.now := by
  have positive' : 0 < l.maxFailures ∧ 0 < l.globalMax := by
    rw [tracked.same.maxFailures, tracked.same.globalMax]
    exact positive
  have takes := attempted l a
  rw [← tracked.same.windowSec]
  exact ⟨tracked.same.step a, attempted_all tracked.all positive'.2 takes,
    attempted_peers tracked.peers tracked.all unclear later positive' takes⟩

def waits (l₀ : LoginLimiter) (ws : LoginWindows) (p : Peer) (now : Nat) : Nat :=
  max (secondsLeft l₀.windowSec l₀.maxFailures (ws.peer p) now) (secondsLeft l₀.windowSec l₀.globalMax ws.all now)

include positive in
theorem tracked_wait (tracked : Tracked l₀ l ws clock) (unclear : ¬l.Clears a.now) (later : clock ≤ a.now) :
    (l.login a).1 = waits l₀ ws a.peer a.now := by
  have wait := wait_eq tracked.peers tracked.all unclear later
    (by rw [tracked.same.maxFailures, tracked.same.globalMax]; exact positive) a.peer
  rwa [tracked.same.maxFailures, tracked.same.globalMax, tracked.same.windowSec, ← login_wait] at wait

theorem recorded_refused (refused : 0 < (l.login a).1) : recorded l a = [] := by
  unfold recorded
  exact if_neg (Nat.ne_of_gt refused)

def lastTime (clock : Nat) (attempts : List LoginAttempt) : Nat := attempts.foldl (fun _ a => a.now) clock

theorem lastTime_le {attempts : List LoginAttempt} {bound : Nat} (first : clock ≤ bound)
    (before : ∀ a ∈ attempts, a.now ≤ bound) : lastTime clock attempts ≤ bound := by
  induction attempts generalizing clock with
  | nil => exact first
  | cons a rest ih => exact ih (before a List.mem_cons_self) fun b held => before b (List.mem_cons_of_mem _ held)

theorem lastTime_eq {attempts : List LoginAttempt} {last : LoginAttempt} (ends : last ∈ attempts.getLast?) :
    lastTime clock attempts = last.now := by
  obtain ⟨before, rfl⟩ := List.getLast?_eq_some_iff.mp ends
  rw [lastTime, List.foldl_append]
  rfl

include positive in
theorem tracked_run {K : LoginWindows → Prop} {Q : LoginLimiter → LoginAttempt → Prop} (attempts : List LoginAttempt)
    (tracked : Tracked l₀ l ws clock) (sorted : (attempts.map (·.now)).Pairwise (· ≤ ·))
    (later : ∀ a ∈ attempts, clock ≤ a.now) (never : NeverClears l attempts)
    (along : Along LoginLimiter.step Q l attempts) (start : K ws)
    (next : ∀ l ws clock a, Q l a → Tracked l₀ l ws clock → clock ≤ a.now → ¬l.Clears a.now → K ws →
      K ((recorded l a).foldl (LoginWindows.step l₀.windowSec) ws)) :
    K ((loginLog l attempts).foldl (LoginWindows.step l₀.windowSec) ws) ∧
    Tracked l₀ (l.run attempts) ((loginLog l attempts).foldl (LoginWindows.step l₀.windowSec) ws)
      (lastTime clock attempts) := by
  induction attempts generalizing l ws clock with
  | nil => exact ⟨start, tracked⟩
  | cons a rest ih =>
      rw [List.map_cons, List.pairwise_cons] at sorted
      have since := later a List.mem_cons_self
      rw [loginLog_cons, List.foldl_append]
      apply ih (tracked_step positive tracked never.1 since) sorted.2 _ never.2 along.2
      · exact next l ws clock a along.1 tracked since never.1 start
      · intro b held
        exact sorted.1 b.now (List.mem_map_of_mem held)

def PeerFits (l₀ : LoginLimiter) (ws : LoginWindows) (r : LoginRecord) : Prop :=
  ∀ p, ((ws.step l₀.windowSec r).peer p).length ≤ l₀.maxFailures

include positive in
theorem peers_fit (attempts : List LoginAttempt) (tracked : Tracked l₀ l ws clock)
    (sorted : (attempts.map (·.now)).Pairwise (· ≤ ·)) (later : ∀ a ∈ attempts, clock ≤ a.now)
    (never : NeverClears l attempts) :
    Along (LoginWindows.step l₀.windowSec) (PeerFits l₀) ws (loginLog l attempts) := by
  induction attempts generalizing l ws clock with
  | nil => trivial
  | cons a rest ih =>
      rw [List.map_cons, List.pairwise_cons] at sorted
      have since := later a List.mem_cons_self
      have next := tracked_step positive tracked never.1 since
      have further := ih next sorted.2 (fun b held => sorted.1 b.now (List.mem_map_of_mem held)) never.2
      rw [loginLog_cons, along_append]
      refine ⟨?_, further⟩
      have most := next.peers.most
      rw [next.same.maxFailures] at most
      have takes := attempted l a
      generalize recorded l a = log at takes most ⊢
      generalize l.step a = l' at takes
      cases takes with
      | looked => trivial
      | failed => exact ⟨most, trivial⟩
      | succeeded => exact ⟨most, trivial⟩

theorem fits_bounded {p : Peer} (log : List LoginRecord) (fits : Along (LoginWindows.step l₀.windowSec) (PeerFits l₀) ws log)
    (unforgiven : .success p ∉ log) : Bounded l₀.windowSec l₀.maxFailures (ws.peer p) (failuresOf p log) := by
  induction log generalizing ws with
  | nil => trivial
  | cons r rest ih =>
      rw [List.mem_cons, not_or] at unforgiven
      have further := ih fits.2 unforgiven.2
      rw [← List.singleton_append, failuresOf_append]
      have most := fits.1 p
      cases r with
      | success q =>
          have other : p ≠ q := by
            rintro rfl
            exact unforgiven.1 rfl
          simp only [LoginWindows.step, Function.update_of_ne other] at further
          exact further
      | failure q now =>
          by_cases own : q = p
          · subst own
            have one : failuresOf q [.failure q now] = [now] := by simp [failuresOf, failures]
            simp only [LoginWindows.step, Function.update_self] at further most
            rw [one]
            exact ⟨most, further⟩
          · have none : failuresOf p [.failure q now] = [] := by simp [failuresOf, failures, own]
            simp only [LoginWindows.step, Function.update_of_ne (Ne.symm own)] at further
            rw [none]
            exact further

/-! Refusals. -/

theorem left_later {width most : Nat} {window : List Nat} {first now : Nat} (blocked : 0 < secondsLeft width most window first)
    (before : now < first + secondsLeft width most window first) : 0 < secondsLeft width most window now := by
  unfold secondsLeft at *
  split at blocked
  · cases blocked
  next full =>
    rw [if_neg full] at before ⊢
    omega

theorem left_over {width most : Nat} {window : List Nat} {first wait : Nat} (short : secondsLeft width most window first ≤ wait) :
    secondsLeft width most window (first + wait) = 0 := by
  unfold secondsLeft at *
  split
  · rfl
  next full =>
    rw [if_neg full] at short
    omega

theorem recorded_other {p : Peer} (other : a.peer ≠ p) (width : Nat) (ws : LoginWindows) :
    ((recorded l a).foldl (LoginWindows.step width) ws).peer p = ws.peer p := by
  have takes := attempted l a
  generalize recorded l a = log at takes
  generalize l.step a = l' at takes
  cases takes with
  | looked => rfl
  | failed => exact Function.update_of_ne (Ne.symm other) _ _
  | succeeded => exact Function.update_of_ne (Ne.symm other) _ _

theorem recorded_quiet (quiet : failures (recorded l a) = []) (width : Nat) (ws : LoginWindows) :
    ((recorded l a).foldl (LoginWindows.step width) ws).all = ws.all := by
  have takes := attempted l a
  generalize recorded l a = log at takes quiet
  generalize l.step a = l' at takes
  cases takes with
  | looked => rfl
  | failed => cases quiet
  | succeeded => rfl

include positive in
theorem refused_of_left (tracked : Tracked l₀ l ws clock) (unclear : ¬l.Clears a.now) (later : clock ≤ a.now)
    (blocks : 0 < secondsLeft l₀.windowSec l₀.maxFailures (ws.peer a.peer) a.now ∨
      0 < secondsLeft l₀.windowSec l₀.globalMax ws.all a.now) : 0 < (l.login a).1 := by
  rw [tracked_wait positive tracked unclear later]
  exact lt_max_iff.mpr blocks

section Waiting
variable {p : Peer} {first : Nat} (middle : List LoginAttempt) (tracked : Tracked l₀ l ws clock)
  (sorted : (middle.map (·.now)).Pairwise (· ≤ ·)) (later : ∀ c ∈ middle, clock ≤ c.now) (never : NeverClears l middle)
include positive tracked sorted later never

theorem own_stays (blocked : 0 < secondsLeft l₀.windowSec l₀.maxFailures (ws.peer p) first)
    (inTime : ∀ c ∈ middle, c.now < first + secondsLeft l₀.windowSec l₀.maxFailures (ws.peer p) first) :
    ((loginLog l middle).foldl (LoginWindows.step l₀.windowSec) ws).peer p = ws.peer p := by
  apply (tracked_run positive (K := fun ws' => ws'.peer p = ws.peer p) middle tracked sorted later never
    (along_of_forall inTime) rfl _).1
  intro l' ws' clock' c inTime tracked' later' unclear kept
  by_cases own : c.peer = p
  · have refused : 0 < (l'.login c).1 := by
      apply refused_of_left positive tracked' unclear later'
      left
      rw [own, kept]
      exact left_later blocked inTime
    rw [recorded_refused refused]
    exact kept
  · rw [recorded_other own]
    exact kept

theorem all_stay (blocked : 0 < secondsLeft l₀.windowSec l₀.globalMax ws.all first)
    (inTime : ∀ c ∈ middle, c.now < first + secondsLeft l₀.windowSec l₀.globalMax ws.all first) :
    ((loginLog l middle).foldl (LoginWindows.step l₀.windowSec) ws).all = ws.all := by
  apply (tracked_run positive (K := fun ws' => ws'.all = ws.all) middle tracked sorted later never
    (along_of_forall inTime) rfl _).1
  intro l' ws' clock' c inTime tracked' later' unclear kept
  have refused : 0 < (l'.login c).1 := by
    apply refused_of_left positive tracked' unclear later'
    right
    rw [kept]
    exact left_later blocked inTime
  rw [recorded_refused refused]
  exact kept

theorem both_stay (blocked : 0 < waits l₀ ws p first)
    (inTime : ∀ c ∈ middle, c.peer = p → c.now < first + waits l₀ ws p first)
    (others : ∀ failure ∈ failures (loginLog l middle), failure.1 = p) :
    ((loginLog l middle).foldl (LoginWindows.step l₀.windowSec) ws).peer p = ws.peer p ∧
    ((loginLog l middle).foldl (LoginWindows.step l₀.windowSec) ws).all = ws.all := by
  have quiet : Along LoginLimiter.step (fun l a => ∀ r ∈ recorded l a, ∀ q now, r = .failure q now → q = p) l middle := by
    apply along_reports
    rintro r held q now rfl
    exact others (q, now) (List.mem_filterMap.mpr ⟨_, held, rfl⟩)
  apply (tracked_run positive (K := fun ws' => ws'.peer p = ws.peer p ∧ ws'.all = ws.all) middle tracked sorted later never
    ((along_of_forall inTime).and quiet) ⟨rfl, rfl⟩ _).1
  intro l' ws' clock' c facts tracked' later' unclear kept
  by_cases own : c.peer = p
  · have refused : 0 < (l'.login c).1 := by
      apply refused_of_left positive tracked' unclear later'
      rw [own, kept.1, kept.2]
      rcases max_choice (secondsLeft l₀.windowSec l₀.maxFailures (ws.peer p) first)
          (secondsLeft l₀.windowSec l₀.globalMax ws.all first)
        with mine | shared
      · left
        rw [waits, mine] at blocked
        have soon := facts.1 own
        rw [waits, mine] at soon
        exact left_later blocked soon
      · right
        rw [waits, shared] at blocked
        have soon := facts.1 own
        rw [waits, shared] at soon
        exact left_later blocked soon
    rw [recorded_refused refused]
    exact kept
  · have none : failures (recorded l' c) = [] := by
      rw [List.eq_nil_iff_forall_not_mem]
      rintro ⟨q, now⟩ held
      obtain ⟨r, inside, same⟩ := List.mem_filterMap.mp held
      have takes := attempted l' c
      generalize recorded l' c = log at takes inside facts
      generalize l'.step c = l'' at takes
      cases takes with
      | looked => cases inside
      | failed => exact own (facts.2 _ inside _ _ (List.mem_singleton.mp inside))
      | succeeded =>
          rw [List.mem_singleton] at inside
          subst inside
          cases same
    rw [recorded_other own, recorded_quiet none]
    exact kept

end Waiting

/-! The table never has more open windows than there were failures. -/

/-- Every entry opened with a failure of its peer. -/
def Logged (l : LoginLimiter) (log : List LoginRecord) : Prop :=
  ∀ p e, l.peers.lookup p = some e → e.failures = 0 ∨ (p, e.windowStart) ∈ failures log

theorem logged_step (before : List LoginRecord) (logged : Logged l before) (a : LoginAttempt) :
    Logged (l.step a) (before ++ recorded l a) := by
  have looked : Logged (l.retryAfter a.peer a.now).2 before :=
    fun p e held => logged p e (lookup_retryAfter_le l a.peer a.now held)
  have takes := attempted l a
  generalize recorded l a = log at takes ⊢
  generalize l.step a = l' at takes ⊢
  intro p e held
  rw [failures_append, List.mem_append]
  cases takes with
  | looked => exact (looked p e held).imp_right Or.inl
  | succeeded =>
      rw [LoginLimiter.recordSuccess] at held
      by_cases own : p = a.peer
      · subst own
        rw [AList.lookup_erase] at held
        cases held
      · rw [AList.lookup_erase_ne own] at held
        exact (looked p e held).imp_right Or.inl
  | failed =>
      rw [LoginLimiter.recordFailure] at held
      by_cases own : p = a.peer
      · subst own
        rw [AList.lookup_insert] at held
        cases held
        right
        unfold LoginLimiter.bump
        split
        next => exact .inr List.mem_cons_self
        next unclosed =>
          left
          cases before : (l.retryAfter a.peer a.now).2.peers.lookup a.peer with
          | none =>
              rw [before] at unclosed
              exact absurd (by simp [LoginLimiter.expired]) unclosed
          | some e =>
              rw [before, Option.getD_some] at unclosed
              rcases looked a.peer e before with zero | known
              · exact absurd (by simp [LoginLimiter.expired, zero]) unclosed
              · exact known
      · rw [AList.lookup_insert_ne own] at held
        exact (looked p e held).imp_right Or.inl

theorem logged_run (none : l₀.peers = ∅) (attempts : List LoginAttempt) : Logged (l₀.run attempts) (loginLog l₀ attempts) := by
  induction attempts using List.reverseRecOn with
  | nil =>
      intro p e held
      rw [LoginLimiter.run, List.foldl_nil, none] at held
      cases held
  | append_singleton attempts a ih =>
      rw [loginLog_append, LoginLimiter.run, List.foldl_append]
      have next := logged_step (loginLog l₀ attempts) ih a
      rw [show loginLog (l₀.run attempts) [a] = recorded (l₀.run attempts) a from List.append_nil _]
      exact next

/-- The entries that are still open lie in one interval of the window's width. -/
theorem kept_length (log : List LoginRecord) (logged : Logged l log) (past : ∀ t ∈ times log, t ≤ now) :
    (l.kept now).entries.length ≤ (within l.windowSec (now + 1 - l.windowSec) (times log)).length := by
  have inside : (l.kept now).keys ⊆
      ((failures log).filter fun failure => now + 1 - l.windowSec ≤ failure.2 ∧ failure.2 < now + 1 - l.windowSec +
        l.windowSec).map fun failure => failure.1 := by
    intro p held
    obtain ⟨e, present⟩ := Option.isSome_iff_exists.mp (AList.lookup_isSome.mpr held)
    rw [lookup_kept, Option.filter_eq_some_iff] at present
    obtain ⟨present, unclosed⟩ := present
    simp only [LoginLimiter.expired, ge_iff_le, Bool.decide_or, Bool.not_or, Bool.and_eq_true, Bool.not_eq_true',
      decide_eq_false_iff_not, Nat.not_le] at unclosed
    rcases logged p e present with zero | known
    · exact absurd zero unclosed.1
    · have before := past e.windowStart (List.mem_map_of_mem known)
      refine List.mem_map.mpr ⟨(p, e.windowStart), List.mem_filter.mpr ⟨known, ?_⟩, rfl⟩
      apply decide_eq_true
      dsimp only
      omega
  have size := (List.subperm_of_subset (l.kept now).keys_nodup inside).length_le
  rw [List.length_map] at size
  have same : (within l.windowSec (now + 1 - l.windowSec) (times log)).length = ((failures log).filter fun failure =>
      now + 1 - l.windowSec ≤ failure.2 ∧ failure.2 < now + 1 - l.windowSec + l.windowSec).length := by
    unfold within times
    rw [List.filter_map, List.length_map]
    rfl
  rw [same]
  exact (List.length_map _).symm.trans_le size

theorem same_run (same : SameLimits l₀ l) (attempts : List LoginAttempt) : SameLimits l₀ (l.run attempts) := by
  induction attempts generalizing l with
  | nil => exact same
  | cons a rest ih => exact ih (same.step a)

theorem times_sublist (l : LoginLimiter) (attempts : List LoginAttempt) :
    (times (loginLog l attempts)).Sublist (attempts.map (·.now)) := by
  induction attempts generalizing l with
  | nil => exact List.Sublist.refl _
  | cons a rest ih =>
      have later := ih (l.step a)
      rw [loginLog_cons, List.map_cons]
      generalize loginLog (l.step a) rest = log at later ⊢
      have takes := attempted l a
      generalize recorded l a = first at takes ⊢
      generalize l.step a = l' at takes
      cases takes with
      | looked => exact later.cons _
      | succeeded => exact later.cons _
      | failed => exact later.cons_cons _

theorem failuresOf_sublist (p : Peer) (log : List LoginRecord) : (failuresOf p log).Sublist (times log) :=
  List.filter_sublist.map _

theorem peer_sublist (width : Nat) (p : Peer) (log : List LoginRecord) :
    ((log.foldl (LoginWindows.step width) LoginWindows.empty).peer p).Sublist (failuresOf p log) := by
  induction log using List.reverseRecOn with
  | nil => exact List.Sublist.refl _
  | append_singleton log r ih =>
      rw [List.foldl_append, List.foldl_cons, List.foldl_nil, failuresOf_append]
      cases r with
      | success q =>
          simp only [LoginWindows.step]
          by_cases own : p = q
          · subst own
            rw [Function.update_self]
            exact List.nil_sublist _
          · rw [Function.update_of_ne own]
            exact ih.trans (List.sublist_append_left _ _)
      | failure q now =>
          simp only [LoginWindows.step]
          by_cases own : p = q
          · subst own
            have one : failuresOf p [.failure p now] = [now] := by simp [failuresOf, failures]
            rw [Function.update_self, one]
            unfold add
            split
            · exact List.sublist_append_right _ _
            · exact ih.append (List.Sublist.refl _)
          · rw [Function.update_of_ne own]
            exact ih.trans (List.sublist_append_left _ _)

theorem fits_length (log : List LoginRecord) (fits : Along (LoginWindows.step l₀.windowSec) (PeerFits l₀) ws log)
    (start : ∀ p, (ws.peer p).length ≤ l₀.maxFailures) (p : Peer) :
    ((log.foldl (LoginWindows.step l₀.windowSec) ws).peer p).length ≤ l₀.maxFailures := by
  induction log generalizing ws with
  | nil => exact start p
  | cons r rest ih => exact ih fits.2 fits.1

end Runs

section New
variable (maxFailures windowSec globalMax : Int) (attempts : List LoginAttempt)
  (sorted : (attempts.map (·.now)).Pairwise (· ≤ ·))

theorem new_positive : 0 < (LoginLimiter.new maxFailures windowSec globalMax).maxFailures ∧
    0 < (LoginLimiter.new maxFailures windowSec globalMax).globalMax := by
  unfold LoginLimiter.new
  dsimp only
  constructor <;> split <;> omega

theorem new_tracked : Tracked (LoginLimiter.new maxFailures windowSec globalMax)
    (LoginLimiter.new maxFailures windowSec globalMax) LoginWindows.empty 0 where
  same := ⟨rfl, rfl, rfl⟩
  all := ⟨rfl, Nat.zero_le _⟩
  peers := by
    refine ⟨?_, fun _ _ => closed_nil, fun _ => Nat.zero_le _⟩
    intro p e held
    cases held

include sorted in
theorem new_allBounded : AllBounded (LoginLimiter.new maxFailures windowSec globalMax) attempts := by
  intro from_
  have tracked := new_tracked maxFailures windowSec globalMax
  have positive := new_positive maxFailures windowSec globalMax
  have bounded := all_bounded positive attempts tracked.same tracked.all
  exact FixedWindow.within_le _ [] bounded (Nat.zero_le _) (sorted.sublist (times_sublist _ attempts)) positive.2 from_

theorem new_neverClears (attempts : List LoginAttempt) (sorted : (attempts.map (·.now)).Pairwise (· ≤ ·))
    (few : 2 * (LoginLimiter.new maxFailures windowSec globalMax).globalMax ≤ 4096) :
    NeverClears (LoginLimiter.new maxFailures windowSec globalMax) attempts := by
  induction attempts using List.reverseRecOn with
  | nil => trivial
  | append_singleton attempts a ih =>
      rw [List.map_append, List.pairwise_append] at sorted
      unfold NeverClears
      rw [along_concat]
      refine ⟨ih sorted.1, ?_⟩
      rintro ⟨-, ended⟩
      have same := same_run (new_tracked maxFailures windowSec globalMax).same attempts
      have past : ∀ t ∈ times (loginLog (LoginLimiter.new maxFailures windowSec globalMax) attempts), t ≤ a.now :=
        fun t held => sorted.2.2 t ((times_sublist _ attempts).subset held) a.now (List.mem_singleton.mpr rfl)
      have unclosed := kept_length _ (logged_run rfl attempts) past
      have bound := new_allBounded maxFailures windowSec globalMax attempts sorted.1 (a.now + 1 -
        (LoginLimiter.new maxFailures windowSec globalMax).windowSec)
      rw [same.windowSec] at unclosed
      have most := unclosed.trans bound
      have limit : kMaxTracked = 4096 := rfl
      rw [limit] at ended
      exact absurd (ended.trans_le most) (by omega)

variable (never : NeverClears (LoginLimiter.new maxFailures windowSec globalMax) attempts)
include sorted never

theorem new_fits : Along (LoginWindows.step (LoginLimiter.new maxFailures windowSec globalMax).windowSec)
    (PeerFits (LoginLimiter.new maxFailures windowSec globalMax)) LoginWindows.empty
    (loginLog (LoginLimiter.new maxFailures windowSec globalMax) attempts) :=
  peers_fit (new_positive _ _ _) attempts (new_tracked _ _ _) sorted (fun _ _ => Nat.zero_le _) never

theorem new_windowBounded : WindowBounded (LoginLimiter.new maxFailures windowSec globalMax) attempts :=
  fits_length _ (new_fits maxFailures windowSec globalMax attempts sorted never) fun _ => Nat.zero_le _

theorem new_peerBounded : PeerBounded (LoginLimiter.new maxFailures windowSec globalMax) attempts := by
  intro p before middle after split unforgiven from_
  have fits := new_fits maxFailures windowSec globalMax attempts sorted never
  have inOrder := sorted.sublist (times_sublist (LoginLimiter.new maxFailures windowSec globalMax) attempts)
  rw [split, List.append_assoc, along_append] at fits
  have bounded := fits_bounded middle (along_append.mp fits.2).1 unforgiven
  have held := fits_length before fits.1 (fun _ => Nat.zero_le _) p
  apply FixedWindow.within_le _ _ bounded held _ (new_positive maxFailures windowSec globalMax).1
  have opened := peer_sublist (LoginLimiter.new maxFailures windowSec globalMax).windowSec p before
  generalize (before.foldl (LoginWindows.step (LoginLimiter.new maxFailures windowSec globalMax).windowSec)
    LoginWindows.empty).peer p = window at opened
  have first : window.head?.toList.Sublist window := by
    cases window with
    | nil => exact List.Sublist.refl _
    | cons start rest => exact List.singleton_sublist.mpr List.mem_cons_self
  have ofPeer := (first.trans opened).append (List.Sublist.refl (failuresOf p middle))
  rw [← failuresOf_append] at ofPeer
  have all : (times (before ++ middle)).Sublist (times (before ++ middle ++ after)) := by
    unfold times
    rw [failures_append (before ++ middle), List.map_append]
    exact List.sublist_append_left _ _
  rw [split] at inOrder
  exact inOrder.sublist ((ofPeer.trans (failuresOf_sublist p _)).trans all)

theorem new_noneForgotten : NoneForgotten (LoginLimiter.new maxFailures windowSec globalMax) attempts := by
  intro p last ends start others window unclosed
  have tracked := (tracked_run (K := fun _ => True) (new_positive _ _ _) attempts
    (new_tracked maxFailures windowSec globalMax) sorted (fun _ _ => Nat.zero_le _) never (along_true _ _) trivial
    (fun _ _ _ _ _ _ _ _ _ => trivial)).2
  have same := tracked.same.windowSec
  unfold loginWindows at window
  cases held : ((LoginLimiter.new maxFailures windowSec globalMax).run attempts).peers.lookup p with
  | some e =>
      have entry := (tracked.peers.held p e held).2
      rw [entry, window]
      rfl
  | none =>
      have closed := tracked.peers.gone p held
      rw [window, closed_cons, same, lastTime_eq ends] at closed
      omega

theorem new_waitKept : WaitKept (LoginLimiter.new maxFailures windowSec globalMax) attempts := by
  intro before a middle b after split samePeer waiting
  subst split
  have positive := new_positive maxFailures windowSec globalMax
  have start := new_tracked maxFailures windowSec globalMax
  generalize LoginLimiter.new maxFailures windowSec globalMax = l₀ at *
  rw [List.map_append, List.map_cons, List.map_append, List.map_cons, List.pairwise_append, List.pairwise_cons,
    List.pairwise_append] at sorted
  obtain ⟨sortedBefore, ⟨aFirst, sortedMiddle, -, bLast⟩, aLast⟩ := sorted
  unfold NeverClears at never
  rw [along_append] at never
  obtain ⟨neverBefore, unclearA, never⟩ := never
  rw [along_append] at never
  obtain ⟨neverMiddle, unclearB, -⟩ := never
  have known := (tracked_run (K := fun _ => True) positive before start sortedBefore (fun _ _ => Nat.zero_le _) neverBefore
    (along_true _ _) trivial (fun _ _ _ _ _ _ _ _ _ => trivial)).2
  generalize (loginLog l₀ before).foldl (LoginWindows.step l₀.windowSec) LoginWindows.empty = ws at known
  have since : lastTime 0 before ≤ a.now :=
    lastTime_le (Nat.zero_le _) fun c held => aLast c.now (List.mem_map_of_mem held) a.now List.mem_cons_self
  have wait := tracked_wait positive known unclearA since
  rw [wait] at waiting ⊢
  have next := tracked_step positive known unclearA since
  rw [recorded_refused (by rw [wait]; exact waiting), List.foldl_nil] at next
  have later : ∀ c ∈ middle, a.now ≤ c.now := fun c held =>
    aFirst c.now (List.mem_append_left _ (List.mem_map_of_mem held))
  have upTo : ∀ c ∈ middle, c.now ≤ b.now := fun c held => bLast c.now (List.mem_map_of_mem held) b.now List.mem_cons_self
  have ends : a.now ≤ b.now := aFirst b.now (List.mem_append_right _ List.mem_cons_self)
  have after' := (tracked_run (K := fun _ => True) positive middle next sortedMiddle later neverMiddle
    (along_true _ _) trivial (fun _ _ _ _ _ _ _ _ _ => trivial)).2
  have runs : l₀.run (before ++ a :: middle) = ((l₀.run before).step a).run middle := List.foldl_append
  have sinceMiddle : lastTime a.now middle ≤ b.now := lastTime_le ends upTo
  rw [runs]
  constructor
  · intro early
    apply refused_of_left positive after' unclearB sinceMiddle
    rw [samePeer]
    rcases max_choice (secondsLeft l₀.windowSec l₀.maxFailures (ws.peer a.peer) a.now)
      (secondsLeft l₀.windowSec l₀.globalMax ws.all a.now) with mine | shared
    · rw [waits, mine] at waiting early
      left
      rw [own_stays positive middle next sortedMiddle later neverMiddle waiting fun c held =>
        Nat.lt_of_le_of_lt (upTo c held) early]
      exact left_later waiting early
    · rw [waits, shared] at waiting early
      right
      rw [all_stay positive middle next sortedMiddle later neverMiddle waiting fun c held =>
        Nat.lt_of_le_of_lt (upTo c held) early]
      exact left_later waiting early
  · intro ended inTime others
    have stay := both_stay positive middle next sortedMiddle later neverMiddle waiting
      (fun c held own => by rw [← ended]; exact inTime c held own) others
    rw [tracked_wait positive after' unclearB sinceMiddle, samePeer, waits, stay.1, stay.2, ended]
    exact Nat.max_eq_zero_iff.mpr ⟨left_over (le_max_left _ _), left_over (le_max_right _ _)⟩

end New

theorem login_throttle (maxFailures windowSec globalMax : Int) (attempts : List LoginAttempt)
    (sorted : (attempts.map (·.now)).Pairwise (· ≤ ·)) :
    AllBounded (LoginLimiter.new maxFailures windowSec globalMax) attempts ∧
    (2 * (LoginLimiter.new maxFailures windowSec globalMax).globalMax ≤ 4096 →
      NeverClears (LoginLimiter.new maxFailures windowSec globalMax) attempts) ∧
    (NeverClears (LoginLimiter.new maxFailures windowSec globalMax) attempts →
      WindowBounded (LoginLimiter.new maxFailures windowSec globalMax) attempts ∧
      PeerBounded (LoginLimiter.new maxFailures windowSec globalMax) attempts ∧
      WaitKept (LoginLimiter.new maxFailures windowSec globalMax) attempts ∧
      NoneForgotten (LoginLimiter.new maxFailures windowSec globalMax) attempts) := by
  refine ⟨new_allBounded _ _ _ attempts sorted, fun few => new_neverClears _ _ _ attempts sorted few, ?_⟩
  intro never
  exact ⟨new_windowBounded _ _ _ attempts sorted never, new_peerBounded _ _ _ attempts sorted never,
    new_waitKept _ _ _ attempts sorted never, new_noneForgotten _ _ _ attempts sorted never⟩

def threeLogins : List LoginAttempt := [⟨[49], 0, .wrong⟩, ⟨[49], 0, .wrong⟩, ⟨[49], 3, .right⟩]

theorem login_throttle_three :
    AllBounded (LoginLimiter.new 2 60 50) threeLogins ∧ WindowBounded (LoginLimiter.new 2 60 50) threeLogins ∧
    PeerBounded (LoginLimiter.new 2 60 50) threeLogins ∧ WaitKept (LoginLimiter.new 2 60 50) threeLogins ∧
    NoneForgotten (LoginLimiter.new 2 60 50) threeLogins := by
  have result := login_throttle 2 60 50 threeLogins (by decide)
  exact ⟨result.1, result.2.2 (result.2.1 (by decide))⟩

/-! A flood of addresses: each fails once, until the table is cleared. -/

def floodPeer (k : Nat) : Peer := List.replicate k 49

def flood (n : Nat) : List LoginAttempt := (List.range n).map fun k => ⟨floodPeer k, 0, .wrong⟩

theorem floodPeer_inj {j k : Nat} (same : floodPeer j = floodPeer k) : j = k := by
  have size := congrArg List.length same
  rwa [floodPeer, floodPeer, List.length_replicate, List.length_replicate] at size

structure Flooded (n : Nat) (l : LoginLimiter) : Prop where
  same : SameLimits (LoginLimiter.new 1 60 5000) l
  global : l.global = ⟨n, 0⟩
  size : l.peers.entries.length = n
  entries : ∀ kv ∈ l.peers.entries, kv.2 = ⟨1, 0⟩ ∧ ∃ k < n, kv.1 = floodPeer k

namespace Flooded
variable {n : Nat} (flooded : Flooded n l)
include flooded

theorem kept_eq : l.kept 0 = l.peers := by
  apply AList.ext
  unfold LoginLimiter.kept
  dsimp only
  rw [List.filter_eq_self]
  intro kv held
  have width : l.windowSec = 60 := flooded.same.windowSec
  rw [(flooded.entries kv held).1]
  simp [LoginLimiter.expired, width]

theorem global_free (few : n < 5000) : globalBlocking l 0 = none := by
  have most : l.globalMax = 5000 := flooded.same.globalMax
  unfold globalBlocking
  rw [if_neg]
  rintro ⟨-, full⟩
  rw [most, flooded.global] at full
  exact absurd full (Nat.not_le_of_lt few)

theorem sweep_few (few : n ≤ kMaxTracked) : l.sweep 0 = l := by
  unfold LoginLimiter.sweep
  rw [flooded.kept_eq, flooded.size, if_neg (Nat.not_lt_of_le few)]
  split <;> rfl

theorem absent : l.peers.lookup (floodPeer n) = none := by
  rw [AList.lookup_eq_none]
  intro held
  obtain ⟨kv, inside, same⟩ := List.mem_map.mp held
  obtain ⟨-, k, less, known⟩ := flooded.entries kv inside
  have equal := floodPeer_inj (known.symm.trans same)
  omega

theorem admitted (few : n ≤ kMaxTracked) : l.retryAfter (floodPeer n) 0 = (0, l) := by
  have limit : kMaxTracked = 4096 := rfl
  have none : (l.blocking (floodPeer n) 0).1 = none := by
    rw [blocking_entry, flooded.absent]
    exact flooded.global_free (by omega)
  apply Prod.ext
  · rw [retryAfter_wait, flooded.sweep_few few, none]
    rfl
  · rw [retryAfter_table, flooded.sweep_few few]
    rcases blocking_peers l (floodPeer n) 0 with same | ⟨⟨e, present, -⟩, -⟩
    · exact same
    · rw [flooded.absent] at present
      cases present

theorem next (few : n ≤ kMaxTracked) :
    recorded l ⟨floodPeer n, 0, .wrong⟩ = [.failure (floodPeer n) 0] ∧
    Flooded (n + 1) (l.step ⟨floodPeer n, 0, .wrong⟩) := by
  have login : l.login ⟨floodPeer n, 0, .wrong⟩ = (0, (l.recordFailure (floodPeer n) 0).2) := by
    unfold LoginLimiter.login
    dsimp only
    rw [flooded.admitted few]
    rfl
  constructor
  · unfold recorded
    rw [login]
    rfl
  · refine ⟨flooded.same.step _, ?_, ?_, ?_⟩ <;> unfold LoginLimiter.step <;> rw [login] <;>
      unfold LoginLimiter.recordFailure <;> dsimp only
    · have width : l.windowSec = 60 := flooded.same.windowSec
      rw [flooded.global]
      unfold LoginLimiter.bump LoginLimiter.expired
      cases n with
      | zero => rfl
      | succ n => simp [width]
    · rw [AList.entries_insert_of_notMem (AList.lookup_eq_none.mp flooded.absent), List.length_cons, flooded.size]
    · intro kv held
      rw [AList.entries_insert_of_notMem (AList.lookup_eq_none.mp flooded.absent), List.mem_cons] at held
      rcases held with rfl | before
      · rw [flooded.absent]
        exact ⟨by simp [LoginLimiter.bump, LoginLimiter.expired], n, Nat.lt_succ_self n, rfl⟩
      · obtain ⟨one, k, less, known⟩ := flooded.entries kv before
        exact ⟨one, k, Nat.lt_succ_of_lt less, known⟩

theorem cleared (many : n = kMaxTracked + 1) (p : Peer) : recorded l ⟨p, 0, .wrong⟩ = [.failure p 0] := by
  have size : kMaxTracked = 4096 := rfl
  have sweep : l.sweep 0 = { l with peers := ∅ } := by
    unfold LoginLimiter.sweep
    rw [flooded.kept_eq, flooded.size, if_neg, if_pos]
    · omega
    · have : kSweepAt = 256 := rfl
      omega
  have none : ((l.sweep 0).blocking p 0).1 = none := by
    rw [blocking_entry, sweep]
    exact flooded.global_free (by omega)
  unfold recorded
  rw [login_wait, retryAfter_wait]
  dsimp only
  rw [none]
  rfl

end Flooded

theorem flooded_run {n : Nat} (few : n ≤ kMaxTracked + 1) : Flooded n ((LoginLimiter.new 1 60 5000).run (flood n)) ∧
    loginLog (LoginLimiter.new 1 60 5000) (flood n) = (List.range n).map fun k => .failure (floodPeer k) 0 := by
  induction n with
  | zero =>
      refine ⟨⟨⟨rfl, rfl, rfl⟩, rfl, rfl, ?_⟩, rfl⟩
      intro kv held
      cases held
  | succ n ih =>
      obtain ⟨flooded, log⟩ := ih (Nat.le_of_succ_le few)
      obtain ⟨last, next⟩ := flooded.next (Nat.le_of_succ_le_succ few)
      have more : flood (n + 1) = flood n ++ [⟨floodPeer n, 0, .wrong⟩] := by
        rw [flood, List.range_succ, List.map_append]
        rfl
      constructor
      · rw [more, LoginLimiter.run, List.foldl_append]
        exact next
      · rw [more, loginLog_append, log, List.range_succ, List.map_append, loginLog_cons, last]
        rfl

theorem flood_guess {m : Nat} (many : m = kMaxTracked) :
    loginLog (LoginLimiter.new 1 60 5000) (flood (m + 1) ++ [⟨floodPeer 0, 0, .wrong⟩]) =
      [.failure (floodPeer 0) 0] ++ ((List.range m).map fun k => .failure (floodPeer (k + 1)) 0) ++
        [.failure (floodPeer 0) 0] := by
  obtain ⟨flooded, log⟩ := flooded_run (n := m + 1) (by rw [many])
  rw [loginLog_append, log, loginLog_cons, flooded.cleared (by rw [many]), List.range_succ_eq_map, List.map_cons,
    List.map_map]
  rfl

theorem flood_now (n : Nat) : ((flood n).map fun a => a.now) = List.replicate n 0 := by
  unfold flood
  rw [List.map_map]
  show (List.range n).map (fun _ => 0) = _
  rw [List.map_const', List.length_range]

theorem flood_unbounded {m : Nat} (many : m = kMaxTracked) :
    ¬PeerBounded (LoginLimiter.new 1 60 5000) (flood (m + 1) ++ [⟨floodPeer 0, 0, .wrong⟩]) := by
  intro bounded
  have log := flood_guess many
  unfold PeerBounded at bounded
  generalize loginLog (LoginLimiter.new 1 60 5000) (flood (m + 1) ++ [⟨floodPeer 0, 0, .wrong⟩]) = whole at bounded log
  have most := bounded (floodPeer 0) [] whole [] (by simp) (by rw [log]; simp) 0
  have one : failuresOf (floodPeer 0) [.failure (floodPeer 0) 0] = [0] := by simp [failuresOf, failures]
  have window : (LoginLimiter.new 1 60 5000).windowSec = 60 := rfl
  have limit : (LoginLimiter.new 1 60 5000).maxFailures = 1 := rfl
  have first : ([0].filter fun t => decide (0 ≤ t ∧ t < 0 + 60)).length = 1 := rfl
  rw [log, failuresOf_append, failuresOf_append, one, window, limit] at most
  unfold within at most
  rw [List.filter_append, List.filter_append, List.length_append, List.length_append, first] at most
  omega

/-- With a larger limit for all peers the table can be cleared, and a blocked peer guesses again at once. -/
theorem cleared_peer_guesses : ∃ attempts : List LoginAttempt, (attempts.map fun a => a.now).Pairwise (· ≤ ·) ∧
    ¬PeerBounded (LoginLimiter.new 1 60 5000) attempts := by
  obtain ⟨m, many⟩ : ∃ m, m = kMaxTracked := ⟨kMaxTracked, rfl⟩
  refine ⟨flood (m + 1) ++ [⟨floodPeer 0, 0, .wrong⟩], ?_, flood_unbounded many⟩
  rw [List.map_append, flood_now, List.pairwise_append, List.pairwise_replicate]
  refine ⟨.inr (le_refl 0), List.pairwise_singleton _ _, ?_⟩
  intro t held u last
  rw [List.eq_of_mem_replicate held]
  exact Nat.zero_le u

end Budyk.Proof
