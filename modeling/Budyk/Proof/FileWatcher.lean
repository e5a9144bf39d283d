import Budyk.Lib.Along
import Budyk.Lib.TwoWay
import Budyk.Security.FileWatcher

namespace Budyk.Proof
open Lib Security

/-- The watcher's books are in order; a watch may be held that is no path's, until it is bound or let go. -/
structure Consistent (loose : Option Int) (st : Watching) : Prop where
  links : TwoWay st.pathToId st.idToPaths
  nodup : st.pending.Nodup
  apart : ∀ path ∈ st.pending, st.pathToId.lookup path = none
  held : ∀ id ∈ st.live, id ∈ st.idToPaths ∨ id ∈ loose

def Watches (st : Watching) (path : Path) : Prop := (st.pathToId.lookup path).isSome ∨ path ∈ st.pending

section Books
variable {kernel : Kernel} {loose : Option Int} {st : Watching} {path : Path} {id : Int}

theorem mem_insertPending {other : Path} {pending : List Path} :
    other ∈ insertPending path pending ↔ other = path ∨ other ∈ pending := by
  unfold insertPending
  split <;> rename_i held
  · constructor
    · exact .inr
    · rintro (rfl | kept)
      · exact held
      · exact kept
  · exact List.mem_orderedInsert _

theorem nodup_insertPending {pending : List Path} (nodup : pending.Nodup) : (insertPending path pending).Nodup := by
  unfold insertPending
  split <;> rename_i held
  · exact nodup
  · rw [(List.perm_orderedInsert _ path pending).nodup_iff]
    exact List.nodup_cons.mpr ⟨held, nodup⟩

def answered (id : Int) : Option Int := if id < 0 then none else some id

theorem sysWatch_consistent (kernel : Kernel) (path : Path) (consistent : Consistent none st) :
    Consistent (answered (sysWatch kernel path st).1) (sysWatch kernel path st).2 where
  links := consistent.links
  nodup := consistent.nodup
  apart := consistent.apart
  held id live := by
    have before : ∀ id ∈ st.live \ (kernel st.asked path).dropped, id ∈ st.idToPaths := by
      intro id live
      have := consistent.held id (Finset.mem_sdiff.mp live).1
      simpa using this
    change id ∈ (if (kernel st.asked path).id < 0 then _ else _) at live
    change _ ∨ id ∈ if (kernel st.asked path).id < 0 then none else some (kernel st.asked path).id
    split at live <;> rename_i sign
    · exact .inl (before id live)
    · rw [if_neg sign]
      rcases Finset.mem_insert.mp live with rfl | live
      · exact .inr rfl
      · exact .inl (before id live)

theorem Consistent.settle (consistent : Consistent loose st) (named : ∀ id ∈ loose, id ∈ st.idToPaths) :
    Consistent none st := by
  refine ⟨consistent.links, consistent.nodup, consistent.apart, ?_⟩
  intro id live
  exact .inl ((consistent.held id live).elim (fun held => held) (named id))

theorem mem_answered {other : Int} : other ∈ answered id ↔ 0 ≤ id ∧ other = id := by
  unfold answered
  split <;> rename_i sign
  · simp [Int.not_le.mpr sign]
  · rw [Option.mem_some, eq_comm, and_iff_right (Int.not_lt.mp sign)]

theorem letGo_consistent (consistent : Consistent (answered id) st) : Consistent none (letGo id st) := by
  unfold letGo
  split <;> rename_i loose
  · refine ⟨consistent.links, consistent.nodup, consistent.apart, ?_⟩
    intro other live
    obtain ⟨different, live⟩ := Finset.mem_erase.mp live
    refine (consistent.held other live).imp_right ?_
    intro alone
    exact absurd (mem_answered.mp alone).2 different
  · apply consistent.settle
    intro other alone
    obtain ⟨sign, rfl⟩ := mem_answered.mp alone
    simp only [Bool.and_eq_true, decide_eq_true_iff, not_and, Bool.not_eq_true, Option.isNone_eq_false_iff] at loose
    exact AList.lookup_isSome.mp (loose sign)

theorem bind_consistent (consistent : Consistent (some id) st) (absent : st.pathToId.lookup path = none) :
    Consistent none { st.bind path id with pending := st.pending.erase path } where
  links := by
    have unlisted := consistent.links.unlisted absent id
    have linked := consistent.links.link absent id
    change TwoWay _ (st.idToPaths.insert id (if path ∈ listed st.idToPaths id then _ else _))
    rw [if_neg unlisted]
    exact linked
  nodup := consistent.nodup.erase path
  apart other kept := by
    obtain ⟨different, kept⟩ := (List.Nodup.mem_erase_iff consistent.nodup).mp kept
    exact (AList.lookup_insert_ne different).trans (consistent.apart other kept)
  held other live := by
    refine .inl ((AList.mem_insert _).mpr ?_)
    rcases consistent.held other live with held | loose
    · exact .inr held
    · exact .inl (Option.mem_some.mp loose).symm

theorem bind_watches (consistent : Consistent loose st) (other : Path) :
    Watches { st.bind path id with pending := st.pending.erase path } other ↔ other = path ∨ Watches st other := by
  unfold Watches
  rw [List.Nodup.mem_erase_iff consistent.nodup, Watching.bind]
  by_cases same : other = path
  · subst same
    simp
  · simp [same, AList.lookup_insert_ne same]

theorem unbind_cases (links : TwoWay st.pathToId st.idToPaths) (path : Path) :
    st.pathToId.lookup path = none ∧ st.unbind path = st ∨
    ∃ id ∈ st.pathToId.lookup path,
      (listed st.idToPaths id).filter (· ≠ path) = [] ∧
        st.unbind path = { st with
          pathToId := st.pathToId.erase path, idToPaths := st.idToPaths.erase id, live := st.live.erase id } ∨
      (listed st.idToPaths id).filter (· ≠ path) ≠ [] ∧
        st.unbind path = { st with
          pathToId := st.pathToId.erase path
          idToPaths := st.idToPaths.insert id ((listed st.idToPaths id).filter (· ≠ path)) } := by
  unfold Watching.unbind
  cases bound : st.pathToId.lookup path with
  | none => exact .inl ⟨rfl, rfl⟩
  | some id =>
      obtain ⟨paths, found⟩ := Option.isSome_iff_exists.mp (AList.lookup_isSome.mpr (links.mem_of_mem bound))
      have list : listed st.idToPaths id = paths := by rw [listed, found, Option.getD_some]
      refine .inr ⟨id, rfl, ?_⟩
      rw [list]
      dsimp only
      rw [found]
      dsimp only
      split <;> rename_i last
      · exact .inl ⟨last, rfl⟩
      · exact .inr ⟨last, rfl⟩

theorem unbind_consistent (consistent : Consistent loose st) (path : Path) : Consistent loose (st.unbind path) := by
  have apart : ∀ other ∈ st.pending, (st.pathToId.erase path).lookup other = none := by
    intro other kept
    by_cases same : other = path
    · rw [same, AList.lookup_erase]
    · rw [AList.lookup_erase_ne same, consistent.apart other kept]
  obtain ⟨-, same⟩ | ⟨id, bound, ⟨last, same⟩ | ⟨more, same⟩⟩ := unbind_cases consistent.links path
  all_goals rw [same]
  · exact consistent
  · refine ⟨consistent.links.unlink_last bound last, consistent.nodup, apart, ?_⟩
    intro other live
    obtain ⟨different, live⟩ := Finset.mem_erase.mp live
    exact (consistent.held other live).imp_left fun held => AList.mem_erase.mpr ⟨different, held⟩
  · refine ⟨consistent.links.unlink bound more, consistent.nodup, apart, ?_⟩
    intro other live
    exact (consistent.held other live).imp_left fun held => (AList.mem_insert _).mpr (.inr held)

theorem unbind_lookup (consistent : Consistent loose st) (path other : Path) :
    (st.unbind path).pathToId.lookup other = if other = path then none else st.pathToId.lookup other := by
  have erased : (st.pathToId.erase path).lookup other = if other = path then none else st.pathToId.lookup other := by
    split <;> rename_i same
    · rw [same, AList.lookup_erase]
    · rw [AList.lookup_erase_ne same]
  obtain ⟨absent, same⟩ | ⟨id, bound, ⟨last, same⟩ | ⟨more, same⟩⟩ := unbind_cases consistent.links path
  all_goals rw [same]
  · split <;> rename_i here
    · rw [here, absent]
    · rfl
  · exact erased
  · exact erased

theorem unbind_rest (consistent : Consistent loose st) (path : Path) :
    (st.unbind path).pending = st.pending ∧ (st.unbind path).fd = st.fd := by
  obtain ⟨-, same⟩ | ⟨id, -, ⟨-, same⟩ | ⟨-, same⟩⟩ := unbind_cases consistent.links path
  all_goals rw [same]; exact ⟨rfl, rfl⟩

theorem lost_consistent (consistent : Consistent loose st) (path : Path) : Consistent loose (st.lost path) := by
  have unbound := unbind_consistent consistent path
  refine ⟨unbound.links, nodup_insertPending unbound.nodup, ?_, unbound.held⟩
  intro other kept
  rcases mem_insertPending.mp kept with rfl | kept
  · exact (unbind_lookup consistent other other).trans (if_pos rfl)
  · exact unbound.apart other kept

theorem lost_watches (consistent : Consistent loose st) (path other : Path) :
    Watches (st.lost path) other ↔ other = path ∨ Watches st other := by
  have lookup := unbind_lookup consistent path other
  have pending : other ∈ (st.lost path).pending ↔ other = path ∨ other ∈ st.pending := by
    rw [← (unbind_rest consistent path).1]
    exact mem_insertPending
  unfold Watches
  rw [pending, Watching.lost, lookup]
  split <;> rename_i same
  · simp [same]
  · simp [same]

end Books

section Polls
variable {kernel : Kernel} {loose : Option Int} {st : Watching} {out : List FileChangeEvent} {p : Polling} {path : Path}
  {id : Int}

structure Reports (out : List FileChangeEvent) (b : Batch) (reported : List FileChangeEvent) : Prop where
  appended : b.out = out ++ reported
  count : b.appended = reported.length
  nodup : reported.Nodup
  seen : ∀ e, (e.path, e.kind) ∈ b.seen ↔ e ∈ reported

theorem emit_reports {b : Batch} (reports : ∃ reported, Reports out b reported) (path : Path) (kind : FileChangeKind) :
    ∃ reported, Reports out (b.emit path kind) reported := by
  obtain ⟨reported, reports⟩ := reports
  unfold Batch.emit
  split <;> rename_i seen
  · exact ⟨reported, reports⟩
  · have fresh : (⟨path, kind⟩ : FileChangeEvent) ∉ reported := fun held => seen ((reports.seen ⟨path, kind⟩).mpr held)
    refine ⟨reported ++ [⟨path, kind⟩], ?_, ?_, ?_, ?_⟩
    · rw [reports.appended, List.append_assoc]
    · rw [reports.count, List.length_append, List.length_singleton]
    · rw [← List.concat_eq_append]
      exact reports.nodup.concat fresh
    · rintro ⟨path', kind'⟩
      rw [List.mem_cons, reports.seen ⟨path', kind'⟩, List.mem_append, List.mem_singleton, Prod.mk.injEq,
        FileChangeEvent.mk.injEq, or_comm]

/-- A poll on its way watches the paths it began with. -/
structure Polls (loose : Option Int) (st : Watching) (out : List FileChangeEvent) (p : Polling) : Prop where
  consistent : Consistent loose p.st
  fd : p.st.fd = st.fd
  watches : ∀ path, Watches p.st path ↔ Watches st path
  reports : ∃ reported, Reports out p.batch reported

theorem Polls.emit (polls : Polls loose st out p) (path : Path) (kind : FileChangeKind) :
    Polls loose st out { p with batch := p.batch.emit path kind } :=
  ⟨polls.consistent, polls.fd, polls.watches, emit_reports polls.reports path kind⟩

theorem Polls.ask (kernel : Kernel) (polls : Polls none st out p) (path : Path) :
    Polls (answered (sysWatch kernel path p.st).1) st out { p with st := (sysWatch kernel path p.st).2 } :=
  ⟨sysWatch_consistent kernel path polls.consistent, polls.fd, polls.watches, polls.reports⟩

theorem letGo_rest (id : Int) (st : Watching) : (letGo id st).fd = st.fd ∧ (letGo id st).pathToId = st.pathToId ∧
    (letGo id st).pending = st.pending := by
  unfold letGo
  split <;> exact ⟨rfl, rfl, rfl⟩

theorem Polls.letGo (polls : Polls (answered id) st out p) : Polls none st out { p with st := letGo id p.st } := by
  obtain ⟨fd, bound, pending⟩ := letGo_rest id p.st
  refine ⟨letGo_consistent polls.consistent, fd.trans polls.fd, ?_, polls.reports⟩
  intro path
  rw [← polls.watches, Watches, Watches, bound, pending]

theorem Polls.settle (polls : Polls loose st out p) (named : ∀ id ∈ loose, id ∈ p.st.idToPaths) : Polls none st out p :=
  ⟨polls.consistent.settle named, polls.fd, polls.watches, polls.reports⟩

theorem Polls.lose (polls : Polls loose st out p) (bound : (p.st.pathToId.lookup path).isSome) :
    Polls loose st out (p.lose path) where
  consistent := lost_consistent polls.consistent path
  fd := (unbind_rest polls.consistent path).2.trans polls.fd
  watches other := by
    apply ((lost_watches polls.consistent path other).trans (or_iff_right_of_imp _)).trans (polls.watches other)
    rintro rfl
    exact .inl bound
  reports := emit_reports polls.reports path .deleted

theorem lose_others {other : Path} (polls : Polls loose st out p) (different : other ≠ path) :
    (p.lose path).st.pathToId.lookup other = p.st.pathToId.lookup other :=
  (unbind_lookup polls.consistent path other).trans (if_neg different)

theorem Polls.retry (kernel : Kernel) (polls : Polls none st out p) (waits : path ∈ p.st.pending) :
    Polls none st out (p.retry kernel path) ∧
      ∀ other ≠ path, other ∈ p.st.pending → other ∈ (p.retry kernel path).st.pending := by
  have asked := polls.ask kernel path
  unfold Polling.retry
  dsimp only
  split <;> rename_i sign
  · rw [answered, if_pos sign] at asked
    exact ⟨asked, fun other _ kept => kept⟩
  · rw [answered, if_neg sign] at asked
    have bound := bind_consistent asked.consistent (polls.consistent.apart path waits)
    refine ⟨⟨bound, polls.fd, ?_, emit_reports polls.reports path .created⟩, ?_⟩
    · intro other
      apply ((bind_watches asked.consistent other).trans (or_iff_right_of_imp _)).trans (polls.watches other)
      rintro rfl
      exact .inr waits
    · intro other different kept
      exact (List.Nodup.mem_erase_iff polls.consistent.nodup).mpr ⟨different, kept⟩

theorem Polls.retryPending (kernel : Kernel) (polls : Polls none st out p) : Polls none st out (p.retryPending kernel) := by
  have each (p : Polling) (path : Path) (polls : Polls none st out p) (waits : path ∈ p.st.pending) :=
    polls.retry kernel waits
  exact foldl_each each polls.consistent.nodup polls fun path waits => waits

/-! Over inotify. -/

theorem Polls.off (kernel : Kernel) (polls : Polls none st out p) {ev : InotifyEvent} (path : Path)
    (named : ev.wd ∈ p.st.idToPaths) :
    Polls none st out { p with st := (Polling.off kernel ev path p.st).2 } ∧
      (Polling.off kernel ev path p.st).2.pathToId = p.st.pathToId := by
  unfold Polling.off
  split
  · exact ⟨polls, rfl⟩
  · split
    · have asked := polls.ask kernel path
      dsimp only
      split <;> rename_i same
      · -- The watch that answered is the event's, which this path still has.
        refine ⟨asked.settle ?_, rfl⟩
        intro other alone
        rw [(mem_answered.mp alone).2, same]
        exact named
      · exact ⟨asked.letGo, (letGo_rest _ _).2.1⟩
    · exact ⟨polls, rfl⟩

theorem Polls.onPath (kernel : Kernel) (polls : Polls none st out p) {ev : InotifyEvent}
    (bound : ev.wd ∈ p.st.pathToId.lookup path) :
    Polls none st out (p.onPath kernel ev path) ∧ ∀ other ≠ path, ev.wd ∈ p.st.pathToId.lookup other →
      ev.wd ∈ (p.onPath kernel ev path).st.pathToId.lookup other := by
  obtain ⟨asked, same⟩ := polls.off kernel path (polls.consistent.links.mem_of_mem bound)
  unfold Polling.onPath
  dsimp only
  split
  · have held : ((Polling.off kernel ev path p.st).2.pathToId.lookup path).isSome := by
      rw [same, bound]
      rfl
    refine ⟨asked.lose held, ?_⟩
    intro other different kept
    rw [lose_others asked different, same]
    exact kept
  · refine ⟨asked.emit path .modified, ?_⟩
    intro other _ kept
    rw [same]
    exact kept

theorem Polls.each_path (polls : Polls none st out p) {id : Int} {paths : List Path}
    (found : p.st.idToPaths.lookup id = some paths) :
    paths.Nodup ∧ ∀ path ∈ paths, id ∈ p.st.pathToId.lookup path := by
  have list : listed p.st.idToPaths id = paths := by rw [listed, found, Option.getD_some]
  refine ⟨list ▸ polls.consistent.links.nodup id, ?_⟩
  intro path held
  rw [polls.consistent.links.inverse, list]
  exact held

theorem Polls.onEvent (kernel : Kernel) {p : Polling × Bool} (polls : Polls none st out p.1) (ev : InotifyEvent) :
    Polls none st out (Polling.onEvent kernel p ev).1 := by
  unfold Polling.onEvent
  split
  · exact polls
  · cases found : p.1.st.idToPaths.lookup ev.wd with
    | none => exact polls
    | some paths =>
        obtain ⟨nodup, bound⟩ := polls.each_path found
        exact foldl_each (fun p path polls bound => polls.onPath kernel bound) nodup polls bound

theorem Polls.onEvents (kernel : Kernel) (events : List InotifyEvent) {p : Polling × Bool}
    (polls : Polls none st out p.1) : Polls none st out (events.foldl (Polling.onEvent kernel) p).1 := by
  induction events generalizing p with
  | nil => exact polls
  | cons ev rest ih => exact ih (polls.onEvent kernel ev)

def readTo : Except (Polling × Int) (Polling × Bool) → Polling
  | .ok p => p.1
  | .error p => p.1

theorem Polls.readAll (kernel : Kernel) (reads : List Read) {p : Polling × Bool} (polls : Polls none st out p.1) :
    Polls none st out (readTo (Polling.readAll kernel p reads)) := by
  induction reads generalizing p with
  | nil => exact polls
  | cons read rest ih =>
      cases read with
      | again => exact polls
      | fails errno => exact polls
      | events events =>
          cases events with
          | nil => exact polls
          | cons ev events => exact ih (polls.onEvents kernel (ev :: events))

theorem Polls.check (kernel : Kernel) (polls : Polls none st out p) {kv : Sigma fun _ : Path => Int}
    (bound : kv.2 ∈ p.st.pathToId.lookup kv.1) :
    Polls none st out (p.check kernel kv) ∧ ∀ other ≠ kv, other.2 ∈ p.st.pathToId.lookup other.1 →
      other.2 ∈ (p.check kernel kv).st.pathToId.lookup other.1 := by
  have asked := polls.ask kernel kv.1
  unfold Polling.check
  dsimp only
  split <;> rename_i same
  · have settled := asked.settle (by
      intro id alone
      rw [(mem_answered.mp alone).2, same]
      exact polls.consistent.links.mem_of_mem bound)
    exact ⟨settled.emit kv.1 .modified, fun other _ kept => kept⟩
  · have lost := asked.lose (Option.isSome_of_mem bound)
    refine ⟨lost.letGo, ?_⟩
    intro other different kept
    have key : other.1 ≠ kv.1 := by
      intro same
      rw [same] at kept
      exact different (Sigma.ext same (heq_of_eq (Option.mem_unique kept bound)))
    rw [(letGo_rest _ _).2.1, lose_others asked key]
    exact kept

theorem Polls.checkAll (kernel : Kernel) (polls : Polls none st out p) (walk : Walk) :
    Polls none st out (p.checkAll kernel walk) := by
  have perm := walk.perm p.st.pathToId.entries
  have marked : Polls none st out { p with st := { p.st with overflowed := true } } :=
    ⟨⟨polls.consistent.links, polls.consistent.nodup, polls.consistent.apart, polls.consistent.held⟩, polls.fd,
      polls.watches, polls.reports⟩
  apply foldl_each (fun p kv polls bound => polls.check kernel bound) _ marked
  · intro kv held
    exact AList.mem_lookup_iff.mpr (perm.mem_iff.mp held)
  · exact perm.nodup_iff.mpr p.st.pathToId.nodupKeys.nodup

/-- What a poll that has begun comes to, whether it fails midway or not. -/
def Ends (st : Watching) (out : List FileChangeEvent) (done : Polled) : Prop :=
  ∃ p, Polls none st out p ∧ done.st = p.st ∧ done.out = p.batch.out

theorem starts (consistent : Consistent none st) (out : List FileChangeEvent) : Polls none st out ⟨st, { out }⟩ :=
  ⟨consistent, rfl, fun path => Iff.rfl, [], by simp, rfl, List.nodup_nil, by simp⟩

theorem pollInotify_ends (kernel : Kernel) (consistent : Consistent none st) (poll : InotifyPoll)
    (out : List FileChangeEvent) : Ends st out (pollInotify kernel poll (some out) st) := by
  have retried := (starts consistent out).retryPending kernel
  unfold pollInotify
  dsimp only
  split
  · exact ⟨_, starts consistent out, rfl, rfl⟩
  · cases poll.ready with
    | error errno => exact ⟨_, retried, rfl, rfl⟩
    | ok ready =>
        have read : Polls none st out (readTo (if ready then
            Polling.readAll kernel (Polling.retryPending kernel ⟨st, { out }⟩, false) poll.reads
          else .ok (Polling.retryPending kernel ⟨st, { out }⟩, false))) := by
          split
          · exact Polls.readAll kernel poll.reads retried
          · exact retried
        dsimp only
        generalize (if ready = true then _ else _ : Except (Polling × Int) (Polling × Bool)) = result at read ⊢
        cases result with
        | error failed => exact ⟨_, read, rfl, rfl⟩
        | ok p =>
            refine ⟨_, Polls.retryPending kernel ?_, rfl, rfl⟩
            split
            · exact Polls.checkAll kernel read poll.walk
            · exact read

/-! Over kqueue. -/

theorem Polls.onNote (polls : Polls none st out p) (gone : Bool) {ident : Int}
    (bound : ident ∈ p.st.pathToId.lookup path) :
    Polls none st out (p.onNote gone path) ∧ ∀ other ≠ path, ident ∈ p.st.pathToId.lookup other →
      ident ∈ (p.onNote gone path).st.pathToId.lookup other := by
  unfold Polling.onNote
  split
  · refine ⟨polls.lose (Option.isSome_of_mem bound), ?_⟩
    intro other different kept
    rw [lose_others polls different]
    exact kept
  · exact ⟨polls.emit path .modified, fun other _ kept => kept⟩

theorem Polls.onKevent (polls : Polls none st out p) (ev : Kevent) : Polls none st out (p.onKevent ev) := by
  unfold Polling.onKevent
  cases found : p.st.idToPaths.lookup ev.ident with
  | none => exact polls
  | some paths =>
      obtain ⟨nodup, bound⟩ := polls.each_path found
      exact foldl_each (fun p path polls bound => polls.onNote _ bound) nodup polls bound

theorem Polls.onKevents (events : List Kevent) (polls : Polls none st out p) :
    Polls none st out (events.foldl Polling.onKevent p) := by
  induction events generalizing p with
  | nil => exact polls
  | cons ev rest ih => exact ih (polls.onKevent ev)

theorem pollKqueue_ends (kernel : Kernel) (consistent : Consistent none st) (events : Except Int (List Kevent))
    (out : List FileChangeEvent) : Ends st out (pollKqueue kernel events (some out) st) := by
  have retried := (starts consistent out).retryPending kernel
  unfold pollKqueue
  dsimp only
  split
  · exact ⟨_, starts consistent out, rfl, rfl⟩
  · cases events with
    | error errno => exact ⟨_, retried, rfl, rfl⟩
    | ok events => exact ⟨_, (retried.onKevents events).retryPending kernel, rfl, rfl⟩

end Polls

section Runs
variable {kernel : Kernel} {st : Watching} {path : Path}

/-- What every call leaves: books in order, and a closed watcher with nothing in them. -/
structure WatchSound (st : Watching) : Prop where
  consistent : Consistent none st
  closed : st.fd < 0 → ∀ path, ¬Watches st path

theorem WatchSound.same {st' : Watching} (sound : WatchSound st) (consistent : Consistent none st') (fd : st'.fd = st.fd)
    (watches : ∀ path, Watches st' path ↔ Watches st path) : WatchSound st' := by
  refine ⟨consistent, ?_⟩
  intro closed path
  rw [watches]
  exact sound.closed (fd ▸ closed) path

theorem pending_consistent (consistent : Consistent none st) (absent : st.pathToId.lookup path = none) :
    Consistent none { st with pending := insertPending path st.pending } := by
  refine ⟨consistent.links, nodup_insertPending consistent.nodup, ?_, consistent.held⟩
  intro other kept
  rcases mem_insertPending.mp kept with rfl | kept
  · exact absent
  · exact consistent.apart other kept

theorem pending_watches (other : Path) :
    Watches { st with pending := insertPending path st.pending } other ↔ other = path ∨ Watches st other := by
  rw [Watches, mem_insertPending, Watches]
  tauto

theorem add_sound (kernel : Kernel) (sound : WatchSound st) (path : Path) : WatchSound (st.add kernel path).2 ∧ ∀ other,
    Watches (st.add kernel path).2 other ↔ other = path ∧ 0 ≤ (st.add kernel path).1 ∨ Watches st other := by
  have asked := sysWatch_consistent kernel path sound.consistent
  unfold Watching.add
  split <;> rename_i opened
  · refine ⟨sound, ?_⟩
    intro other
    have failed : ¬0 ≤ -EBADF := by decide
    exact (or_iff_right fun added => failed added.2).symm
  · have closed {watches : Path → Prop} : st.fd < 0 → ∀ path, ¬watches path := fun closed => absurd closed opened
    split <;> rename_i bound
    · refine ⟨sound, ?_⟩
      intro other
      refine (or_iff_right_of_imp ?_).symm
      rintro ⟨rfl, -⟩
      exact .inl (Option.isSome_of_mem bound)
    · dsimp only
      split <;> rename_i missing
      · rw [missing] at asked
        refine ⟨⟨pending_consistent asked bound, closed⟩, ?_⟩
        intro other
        rw [and_iff_left (Int.le_refl 0)]
        exact pending_watches other
      · split <;> rename_i sign
        · rw [answered, if_pos sign] at asked
          refine ⟨⟨asked, closed⟩, ?_⟩
          intro other
          refine (or_iff_right_of_imp ?_).symm
          rintro ⟨-, positive⟩
          exact absurd sign (Int.not_lt.mpr positive)
        · rw [answered, if_neg sign] at asked
          refine ⟨⟨bind_consistent asked bound, closed⟩, ?_⟩
          intro other
          rw [and_iff_left (Int.not_lt.mp sign)]
          exact bind_watches asked other

theorem remove_sound (sound : WatchSound st) (path : Path) : WatchSound (st.remove path) ∧ ∀ other,
    Watches (st.remove path) other ↔ Watches st other ∧ other ≠ path := by
  have consistent : Consistent none { st with pending := st.pending.erase path } := by
    refine ⟨sound.consistent.links, sound.consistent.nodup.erase path, ?_, sound.consistent.held⟩
    intro other kept
    exact sound.consistent.apart other (List.mem_of_mem_erase kept)
  have rest := unbind_rest consistent path
  have watches (other : Path) : Watches (st.remove path) other ↔ Watches st other ∧ other ≠ path := by
    unfold Watches Watching.remove
    rw [unbind_lookup consistent, rest.1, List.Nodup.mem_erase_iff sound.consistent.nodup]
    split <;> rename_i same
    · simp [same]
    · simp [same]
  refine ⟨⟨unbind_consistent consistent path, ?_⟩, watches⟩
  intro closed other watched
  exact sound.closed (rest.2 ▸ closed) other ((watches other).mp watched).1

theorem unwatch_all (ids : List Int) (st : Watching) {id : Int}
    (live : id ∈ (ids.foldl (fun st id => sysUnwatch id st) st).live) : id ∈ st.live ∧ id ∉ ids := by
  induction ids generalizing st with
  | nil => exact ⟨live, List.not_mem_nil⟩
  | cons first rest ih =>
      obtain ⟨live, later⟩ := ih _ live
      obtain ⟨different, live⟩ := Finset.mem_erase.mp live
      exact ⟨live, fun held => (List.mem_cons.mp held).elim different later⟩

theorem shutdown_sound (sound : WatchSound st) : WatchSound st.shutdown ∧ ∀ path, ¬Watches st.shutdown path := by
  unfold Watching.shutdown
  split <;> rename_i opened
  · exact ⟨sound, sound.closed opened⟩
  · have none (path : Path) : ¬((∅ : AList fun _ : Path => Int).lookup path).isSome ∧ path ∉ ([] : List Path) := by simp
    refine ⟨⟨⟨twoWay_empty, List.nodup_nil, fun path _ => AList.lookup_empty path, ?_⟩, fun _ path => not_or.mpr (none path)⟩,
      fun path => not_or.mpr (none path)⟩
    intro id live
    obtain ⟨live, unnamed⟩ := unwatch_all _ _ live
    rcases sound.consistent.held id live with held | loose
    · exact absurd held unnamed
    · exact .inr loose

theorem init_sound (sound : WatchSound st) (fd : Int) : WatchSound (st.init fd).2 ∧ ∀ path,
    Watches (st.init fd).2 path ↔ Watches st path := by
  have consistent {fd : Int} : Consistent none { st with fd } :=
    ⟨sound.consistent.links, sound.consistent.nodup, sound.consistent.apart, sound.consistent.held⟩
  unfold Watching.init
  split <;> rename_i closed
  · exact ⟨sound, fun path => Iff.rfl⟩
  · have none := sound.closed (Int.not_le.mp closed)
    split
    · exact ⟨⟨consistent, fun _ => none⟩, fun path => Iff.rfl⟩
    · exact ⟨⟨consistent, fun _ => none⟩, fun path => Iff.rfl⟩

theorem ends_sound {out : List FileChangeEvent} {done : Polled} (sound : WatchSound st) (ends : Ends st out done) :
    WatchSound done.st ∧ ∀ path, Watches done.st path ↔ Watches st path := by
  obtain ⟨p, polls, same, -⟩ := ends
  rw [same]
  exact ⟨sound.same polls.consistent polls.fd polls.watches, polls.watches⟩

def Begins (kernel : Kernel) (path : Path) (st : Watching) (e : WatchStep) : Prop :=
  e = .add path ∧ 0 ≤ (st.add kernel path).1

def EndsWatch (path : Path) (_ : Watching) (e : WatchStep) : Prop := e = .remove path ∨ e = .shutdown

theorem step_sound (kernel : Kernel) (sound : WatchSound st) (e : WatchStep) : WatchSound (st.step kernel e) ∧ ∀ path,
    Watches (st.step kernel e) path ↔ Begins kernel path st e ∨ (Watches st path ∧ ¬EndsWatch path st e) := by
  cases e with
  | init fd => simpa [Watching.step, Begins, EndsWatch] using init_sound sound fd
  | add path =>
      obtain ⟨after, watches⟩ := add_sound kernel sound path
      refine ⟨after, ?_⟩
      intro other
      have begins : Begins kernel other st (.add path) ↔ other = path ∧ 0 ≤ (st.add kernel path).1 := by
        unfold Begins
        rw [WatchStep.add.injEq, eq_comm]
        exact and_congr_right fun same => by rw [same]
      have goesOn : ¬EndsWatch other st (.add path) := by simp [EndsWatch]
      rw [begins, and_iff_left goesOn]
      exact watches other
  | remove path => simpa [Watching.step, Begins, EndsWatch, eq_comm] using remove_sound sound path
  | inotify poll out =>
      cases out with
      | none => simpa [Watching.step, Begins, EndsWatch, pollInotify] using sound
      | some out =>
          simpa [Watching.step, Begins, EndsWatch] using
            ends_sound sound (pollInotify_ends kernel sound.consistent poll out)
  | kqueue events out =>
      cases out with
      | none => simpa [Watching.step, Begins, EndsWatch, pollKqueue] using sound
      | some out =>
          simpa [Watching.step, Begins, EndsWatch] using
            ends_sound sound (pollKqueue_ends kernel sound.consistent events out)
  | shutdown => simpa [Watching.step, Begins, EndsWatch] using shutdown_sound sound
  | drops ids =>
      have kept : Consistent none { st with live := st.live \ ids } :=
        ⟨sound.consistent.links, sound.consistent.nodup, sound.consistent.apart,
          fun id live => sound.consistent.held id (Finset.mem_sdiff.mp live).1⟩
      refine ⟨sound.same kept rfl fun path => Iff.rfl, ?_⟩
      intro path
      simp [Watching.step, Begins, EndsWatch, Watches]

theorem polled_once (kernel : Kernel) (sound : WatchSound st) (e : WatchStep) : ∀ poll ∈ st.polled kernel e,
    ∃ reported, poll.2.out = poll.1 ++ reported ∧ reported.Nodup := by
  have once {out : List FileChangeEvent} {done : Polled} (ends : Ends st out done) :
      ∃ reported, done.out = out ++ reported ∧ reported.Nodup := by
    obtain ⟨p, polls, -, same⟩ := ends
    obtain ⟨reported, reports⟩ := polls.reports
    exact ⟨reported, same.trans reports.appended, reports.nodup⟩
  intro poll held
  unfold Watching.polled at held
  split at held
  · obtain rfl := Option.mem_some.mp held
    exact once (pollInotify_ends kernel sound.consistent _ _)
  · obtain rfl := Option.mem_some.mp held
    exact once (pollKqueue_ends kernel sound.consistent _ _)
  · exact absurd held (Option.not_mem_none _)

theorem new_sound : WatchSound {} := by
  have none (path : Path) : ¬Watches {} path := by simp [Watches]
  exact ⟨⟨twoWay_empty, List.nodup_nil, fun path _ => AList.lookup_empty path, by simp⟩, fun _ => none⟩

/-- After the calls: every path added and not removed since is bound or waits, and every watch the kernel still holds
is some path's. -/
structure PathsKept (kernel : Kernel) (calls : List WatchStep) (st : Watching) : Prop where
  inverse : TwoWay st.pathToId st.idToPaths
  once : st.pending.Nodup
  apart : ∀ path ∈ st.pending, st.pathToId.lookup path = none
  watched : ∀ path, (st.pathToId.lookup path).isSome ∨ path ∈ st.pending ↔
    Since (Watching.step kernel) (Begins kernel path) (EndsWatch path) {} calls
  held : ∀ id ∈ st.live, id ∈ st.idToPaths
  reported : Along (Watching.step kernel) (fun st e => ∀ poll ∈ st.polled kernel e,
    ∃ reported, poll.2.out = poll.1 ++ reported ∧ reported.Nodup) {} calls

/-- No path is lost, no watch leaks, and no poll says a thing twice, whatever the kernel answers. -/
theorem no_path_lost (kernel : Kernel) (calls : List WatchStep) :
    PathsKept kernel calls (calls.foldl (Watching.step kernel) {}) := by
  have keeps (st : Watching) (e : WatchStep) (sound : WatchSound st) : WatchSound (st.step kernel e) :=
    (step_sound kernel sound e).1
  have since (path : Path) := @holds_iff_since_of_inv _ _ _ _ _ _ (fun st => Watches st path) keeps
    (fun st e sound => (step_sound kernel sound e).2 path) _ new_sound (new_sound.closed (by decide) path) calls
  have sound := (since []).1
  refine ⟨sound.consistent.links, sound.consistent.nodup, sound.consistent.apart, fun path => (since path).2, ?_, ?_⟩
  · intro id live
    exact (sound.consistent.held id live).resolve_right (Option.not_mem_none id)
  · exact along_of_inv keeps (fun st e sound => polled_once kernel sound e) new_sound calls

end Runs

end Budyk.Proof
