import Mathlib.Data.UInt
import Budyk.Collector.Procs
import Budyk.Lib.TopList

/-! The process list over any run of reads: the candidates, the list made of them, and the rates they are chosen by. -/

namespace Budyk.Proof
open Lib Collector

structure SlotsFit (top : Top) : Prop where
  size : top.slots.length = BUDYK_TOP_EACH
  room : top.n ≤ BUDYK_TOP_EACH

section Offer
variable {key : Process → Rat} {top : Top} {p : Process}

theorem offerAt_eq (slots : List Process) (n : Nat) (within : n ≤ slots.length) :
    offerAt key slots p n = ((slots.take n).rdropWhile fun q => key q < key p).length := by
  induction n with
  | zero => rfl
  | succ n ih =>
      have inside : n < slots.length := within
      rw [offerAt, List.getElem?_eq_getElem inside, List.take_succ_eq_append_getElem inside]
      dsimp only
      by_cases smaller : key slots[n] < key p
      · have goes : (fun q => decide (key q < key p)) slots[n] = true := decide_eq_true smaller
        rw [if_pos smaller, ih (Nat.le_of_lt inside), List.rdropWhile_concat_pos (fun q => decide (key q < key p)) _ _ goes]
      · have stays : ¬(fun q => decide (key q < key p)) slots[n] = true := by simpa using smaller
        rw [if_neg smaller, List.rdropWhile_concat_neg (fun q => decide (key q < key p)) _ _ stays, List.length_append,
          List.length_take_of_le (Nat.le_of_lt inside)]
        rfl

theorem insertBehind_at (held : List Process) {at_ : Nat} (there : at_ = (held.rdropWhile fun q => key q < key p).length) :
    at_ ≤ held.length ∧ insertBehind key p held = held.take at_ ++ p :: held.drop at_ := by
  have before : held.rdropWhile (fun q => key q < key p) = held.take at_ := by
    rw [there]
    exact List.prefix_iff_eq_take.mp (List.rdropWhile_prefix _ _)
  have behind : held.rtakeWhile (fun q => key q < key p) = held.drop at_ := by
    have whole := @List.rdropWhile_append_rtakeWhile _ (fun q => decide (key q < key p)) held
    rw [before] at whole
    exact List.append_cancel_left (whole.trans (List.take_append_drop at_ held).symm)
  refine ⟨?_, ?_⟩
  · rw [there]
    exact (List.rdropWhile_prefix _ _).length_le
  · rw [insertBehind, before, behind]

theorem moved_slots {slots : List Process} {at_ last : Nat} (before : at_ ≤ last) (inside : last < slots.length) :
    ((slots.take (at_ + 1) ++ (slots.drop at_).take (last - at_) ++ slots.drop (at_ + 1 + (last - at_))).set at_ p) =
      slots.take at_ ++ p :: (slots.drop at_).take (last - at_) ++ slots.drop (last + 1) := by
  have at_inside : at_ < slots.length := by omega
  have length : (slots.take at_).length = at_ := List.length_take_of_le (Nat.le_of_lt at_inside)
  have here : (slots.take at_ ++ [slots[at_]]).set at_ p = slots.take at_ ++ [p] := by
    rw [List.set_append_right _ _ (by omega), length, Nat.sub_self]
    rfl
  rw [List.take_succ_eq_append_getElem at_inside, List.append_assoc, List.set_append_left _ _ (by simp; omega), here,
    show at_ + 1 + (last - at_) = last + 1 by omega]
  simp

theorem offer_held (fits : SlotsFit top) : ∃ after, offer key top p = some after ∧ SlotsFit after ∧
    after.held = (insertBehind key p top.held).take BUDYK_TOP_EACH := by
  have size : top.slots.length = 10 := fits.size
  have room : top.n ≤ 10 := fits.room
  have place := @offerAt_eq key p top.slots top.n (by omega)
  have length : top.held.length = top.n := List.length_take_of_le (by omega)
  obtain ⟨low, inserted⟩ := insertBehind_at top.held place
  rw [length] at low
  unfold offer
  generalize offerAt key top.slots p top.n = at_ at *
  by_cases full : 10 ≤ at_
  · refine ⟨top, if_pos full, fits, ?_⟩
    have all : top.held.take at_ = top.held := List.take_of_length_le (by omega)
    have whole : top.held.length = BUDYK_TOP_EACH := by
      show _ = 10
      omega
    rw [inserted, all, List.take_left' whole]
  · have last : ∃ last, (if top.n < 10 then top.n else 10 - 1) = last ∧ at_ ≤ last ∧ last < 10 ∧ last ≤ top.n ∧
        (if top.n < 10 then top.n + 1 else top.n) = last + 1 ∧ (last = top.n ∨ last + 1 = 10) := by
      by_cases less : top.n < 10
      · exact ⟨top.n, if_pos less, low, less, Nat.le_refl _, if_pos less, .inl rfl⟩
      · exact ⟨9, if_neg less, by omega, by omega, by omega, by rw [if_neg less]; omega, .inr rfl⟩
    obtain ⟨last, isLast, before, inside, within, count, which⟩ := last
    have moves : memmove top.slots (at_ + 1) at_ (last - at_) = some (top.slots.take (at_ + 1) ++
        (top.slots.drop at_).take (last - at_) ++ top.slots.drop (at_ + 1 + (last - at_))) := if_pos (by omega)
    have slots := moved_slots (p := p) before (show last < top.slots.length by omega)
    have stores : store (top.slots.take (at_ + 1) ++ (top.slots.drop at_).take (last - at_) ++
        top.slots.drop (at_ + 1 + (last - at_))) at_ p = some (top.slots.take at_ ++ p ::
          (top.slots.drop at_).take (last - at_) ++ top.slots.drop (last + 1)) := by
      rw [store, if_pos (by simp; omega), slots]
    refine ⟨⟨top.slots.take at_ ++ p :: (top.slots.drop at_).take (last - at_) ++ top.slots.drop (last + 1), last + 1⟩, ?_,
      ⟨?_, inside⟩, ?_⟩
    · rw [if_neg full, isLast]
      dsimp only
      rw [moves, count]
      dsimp only
      rw [stores]
    · show _ = 10
      simp
      omega
    · have front : (top.slots.take at_).length = at_ := List.length_take_of_le (by omega)
      have back : (top.slots.drop at_).take (last - at_) = (top.held.drop at_).take (last - at_) := by
        rw [Top.held, List.drop_take, List.take_take, Nat.min_eq_left (by omega)]
      have middle : ((top.slots.drop at_).take (last - at_)).length = last - at_ := by
        rw [List.length_take, List.length_drop]
        omega
      have kept : top.held.take at_ = top.slots.take at_ := by
        rw [Top.held, List.take_take, Nat.min_eq_left low]
      have count : (top.slots.take at_ ++ p :: (top.slots.drop at_).take (last - at_)).length = last + 1 := by
        rw [List.length_append, List.length_cons, front, middle]
        omega
      have rest : (top.held.drop at_).take (last - at_) = (top.held.drop at_).take (10 - at_ - 1) := by
        rcases which with whole | nine
        · rw [List.take_of_length_le (by rw [List.length_drop]; omega), List.take_of_length_le (by rw [List.length_drop]; omega)]
        · rw [show last - at_ = 10 - at_ - 1 by omega]
      rw [Top.held, List.take_left' count, inserted, kept, back, rest]
      change _ = List.take 10 _
      rw [List.take_append, front, List.take_of_length_le (show (top.slots.take at_).length ≤ 10 by omega),
        List.take_cons (by omega)]

end Offer

/-! ## The processes of a read -/

def prevOf (entry : ProcRead × Rat) : ProcPrev := ⟨entry.1.pid, entry.1.start, entry.1.cpu⟩

def listedBy (d : ProcTracker) (entry : ProcRead × Rat) : Process := listedProcess d entry.1 entry.2

/-- `d` is in the middle of a read that began in `start`. -/
structure Adding (start : ProcTracker) (added : List (ProcRead × Rat)) (d : ProcTracker) : Prop where
  cur : d.procCur = start.procCur
  previous : d.procTrack start.procCur = start.procTrack start.procCur
  prevNs : d.procPrevNs = start.procPrevNs
  nowNs : d.procNowNs = start.procNowNs
  tracked : d.procTrack (!start.procCur) = (added.take BUDYK_MAX_TRACKED_PROCS).map prevOf
  cpuFits : SlotsFit d.topCpu
  rssFits : SlotsFit d.topRss
  cpu : d.topCpu.held = largest byCpu BUDYK_TOP_EACH ((added.map (listedBy start)).filter fun p => 0 < p.cpuPercent)
  rss : d.topRss.held = largest byRss BUDYK_TOP_EACH (added.map (listedBy start))

theorem begins {d : ProcTracker} (cpuFits : SlotsFit d.topCpu) (rssFits : SlotsFit d.topRss) (nowNs : UInt64) :
    Adding (procsBegin d nowNs) [] (procsBegin d nowNs) where
  cur := rfl
  previous := rfl
  prevNs := rfl
  nowNs := rfl
  tracked := Function.update_self _ _ _
  cpuFits := ⟨cpuFits.size, Nat.zero_le _⟩
  rssFits := ⟨rssFits.size, Nat.zero_le _⟩
  cpu := rfl
  rss := rfl

section Read
variable {start d : ProcTracker} {added : List (ProcRead × Rat)}

/-- What is being tracked does not change what a process is compared with. -/
theorem Adding.listed (adding : Adding start added d) (entry : ProcRead × Rat) :
    listedProcess d entry.1 entry.2 = listedBy start entry := by
  have previous : d.procTrack d.procCur = start.procTrack start.procCur := by rw [adding.cur, adding.previous]
  have found (pid : Int) (at_ : UInt64) : findProc d pid at_ = findProc start pid at_ := by
    unfold findProc
    rw [previous]
  unfold listedBy listedProcess
  rw [found, adding.prevNs, adding.nowNs]

theorem Adding.track (adding : Adding start added d) (entry : ProcRead × Rat) :
    track d entry.1 = ((added ++ [entry]).take BUDYK_MAX_TRACKED_PROCS).map prevOf := by
  unfold Collector.track
  rw [adding.cur, adding.tracked]
  dsimp only
  rw [List.length_map, List.length_take]
  by_cases room : added.length < BUDYK_MAX_TRACKED_PROCS
  · rw [if_pos (lt_of_le_of_lt (Nat.min_le_right _ _) room), List.take_of_length_le (Nat.le_of_lt room),
      List.take_of_length_le (by rw [List.length_append]; exact room), List.map_append]
    rfl
  · have full := not_lt.mp room
    rw [Nat.min_eq_left full, if_neg (Nat.lt_irrefl _), List.take_append_of_le_length full]

theorem Adding.add (adding : Adding start added d) (entry : ProcRead × Rat) :
    ∃ after, procsAdd d entry.1 entry.2 = some after ∧ Adding start (added ++ [entry]) after := by
  obtain ⟨topRss, offeredRss, rssFits, rss⟩ := @offer_held byRss _ (listedBy start entry) adding.rssFits
  rw [adding.rss, ← largest_concat] at rss
  have cpu : ∃ topCpu, (if 0 < (listedBy start entry).cpuPercent then offer byCpu d.topCpu (listedBy start entry)
        else some d.topCpu) = some topCpu ∧ SlotsFit topCpu ∧ topCpu.held =
      largest byCpu BUDYK_TOP_EACH (((added ++ [entry]).map (listedBy start)).filter fun p => 0 < p.cpuPercent) := by
    rw [List.map_append, List.filter_append]
    by_cases busy : 0 < (listedBy start entry).cpuPercent
    · obtain ⟨topCpu, offered, cpuFits, held⟩ := @offer_held byCpu _ (listedBy start entry) adding.cpuFits
      rw [adding.cpu, ← largest_concat] at held
      refine ⟨topCpu, by rw [if_pos busy, offered], cpuFits, ?_⟩
      simp [held, busy]
    · refine ⟨d.topCpu, if_neg busy, adding.cpuFits, ?_⟩
      simp [adding.cpu, busy]
  obtain ⟨topCpu, offeredCpu, cpuFits, heldCpu⟩ := cpu
  refine ⟨{ d with
    procTrack := Function.update d.procTrack (!d.procCur) (Collector.track d entry.1), topCpu, topRss }, ?_, ?_⟩
  · unfold procsAdd
    rw [adding.listed entry]
    dsimp only
    rw [offeredCpu, offeredRss]
  · exact {
      cur := adding.cur
      previous := by
        rw [← adding.previous, adding.cur]
        exact Function.update_of_ne (by simp) _ _
      prevNs := adding.prevNs
      nowNs := adding.nowNs
      tracked := by
        rw [← adding.track entry, adding.cur]
        exact Function.update_self _ _ _
      cpuFits, rssFits
      cpu := heldCpu
      rss := by rw [List.map_append, List.map_singleton, ← rss] }

theorem Adding.all (adding : Adding start added d) (rest : List (ProcRead × Rat)) :
    ∃ after, addAll rest d = some after ∧ Adding start (added ++ rest) after := by
  induction rest generalizing d added with
  | nil => exact ⟨d, rfl, by rwa [List.append_nil]⟩
  | cons entry rest ih =>
      obtain ⟨next, added_, adding⟩ := adding.add entry
      obtain ⟨after, all, adding⟩ := ih adding
      refine ⟨after, ?_, by rwa [List.append_assoc] at adding⟩
      rw [addAll, added_]
      exact all

end Read

/-! ## The previous read -/

/-- What is left of the reads before: the last one's first processes, by pid. -/
structure Between (before : Option ProcsRead) (d : ProcTracker) : Prop where
  kept : (d.procTrack d.procCur).Perm (((before.elim [] ProcsRead.procs).take BUDYK_MAX_TRACKED_PROCS).map prevOf)
  sorted : (d.procTrack d.procCur).Pairwise fun p q => p.pid ≤ q.pid
  prevNs : d.procPrevNs = before.elim 0 ProcsRead.nowNs
  cpuFits : SlotsFit d.topCpu
  rssFits : SlotsFit d.topRss

def DistinctPids (read : ProcsRead) : Prop := (read.procs.map fun entry => entry.1.pid).Nodup

/-- What a process is compared with: the one of the same pid and start that was read before, if it was among those
kept. -/
def counterpart (before : Option ProcsRead) (r : ProcRead) : Option ProcRead :=
  (((before.elim [] ProcsRead.procs).take BUDYK_MAX_TRACKED_PROCS).map Prod.fst).find? fun p =>
    p.pid = r.pid ∧ p.start = r.start

def shownRow (before : Option ProcsRead) (nowNs : UInt64) (entry : ProcRead × Rat) : Process where
  pid := entry.1.pid
  name := cString (entry.1.name.take 31)
  state := entry.1.state
  threads := entry.1.threads
  rssBytes := entry.1.rssBytes
  cpuPercent :=
    match counterpart before entry.1 with
    | none => 0
    | some p =>
        let prevNs := before.elim 0 ProcsRead.nowNs
        if 0 < entry.2 ∧ prevNs < nowNs then rate entry.1.cpu p.cpu (nowNs - prevNs) / entry.2 * 100 else 0

section Previous
variable {before : Option ProcsRead} {d : ProcTracker}

theorem sorted_getElem {v : List ProcPrev} (sorted : v.Pairwise fun p q => p.pid ≤ q.pid) {i j : Nat} (le : i ≤ j)
    (inside : j < v.length) : v[i].pid ≤ v[j].pid := by
  rcases Nat.lt_or_eq_of_le le with less | rfl
  · exact List.pairwise_iff_getElem.mp sorted i j (by omega) inside less
  · exact le_refl _

theorem findProc_eq_some {v : List ProcPrev} (track : d.procTrack d.procCur = v)
    (sorted : v.Pairwise fun p q => p.pid ≤ q.pid) (distinct : (v.map ProcPrev.pid).Nodup) (pid : Int) (start : UInt64)
    (q : ProcPrev) : findProc d pid start = some q ↔ q ∈ v ∧ q.pid = pid ∧ q.start = start := by
  have aboveAt {i : Nat} (inside : i < v.length) : notBelow v pid i = true ↔ pid ≤ v[i].pid := by
    simp [notBelow, List.getElem?_eq_getElem inside]
  have spec := bisect_spec (notBelow v pid) 0 v.length fun i j _ le inside holds =>
    (aboveAt inside).mpr (((aboveAt (by omega)).mp holds).trans (sorted_getElem sorted le inside))
  unfold findProc
  rw [track]
  dsimp only
  generalize bisect (notBelow v pid) 0 v.length = lo at *
  constructor
  · intro found
    split at found
    next other at_ =>
      split at found
      next same =>
        cases found
        exact ⟨List.mem_of_getElem? at_, same⟩
      next => cases found
    next => cases found
  · rintro ⟨held, rfl, rfl⟩
    obtain ⟨j, inside, here⟩ := List.mem_iff_getElem.mp held
    have low : lo ≤ j := (spec j (Nat.zero_le _) inside).mp ((aboveAt inside).mpr (by rw [here]))
    have least := (aboveAt (by omega)).mp ((spec lo (Nat.zero_le _) (by omega)).mpr (Nat.le_refl _))
    have below := sorted_getElem sorted low inside
    rw [here] at below
    have same : v[lo] = q := List.inj_on_of_nodup_map distinct (List.getElem_mem _) held (le_antisymm below least)
    rw [List.getElem?_eq_getElem (by omega), same]
    exact if_pos ⟨rfl, rfl⟩

theorem find_distinct {l : List ProcRead} (distinct : (l.map ProcRead.pid).Nodup) (r p : ProcRead) :
    (l.find? fun p => p.pid = r.pid ∧ p.start = r.start) = some p ↔ p ∈ l ∧ p.pid = r.pid ∧ p.start = r.start := by
  constructor
  · intro found
    exact ⟨List.mem_of_find?_eq_some found, by simpa using List.find?_some found⟩
  · rintro ⟨held, same, started⟩
    cases found : l.find? fun p => p.pid = r.pid ∧ p.start = r.start with
    | none => exact absurd (decide_eq_true ⟨same, started⟩) (List.find?_eq_none.mp found p held)
    | some other =>
        have alike : other.pid = r.pid ∧ other.start = r.start := by simpa using List.find?_some found
        have pid : other.pid = p.pid := alike.1.trans same.symm
        rw [List.inj_on_of_nodup_map distinct (List.mem_of_find?_eq_some found) held pid]

theorem Between.find (between : Between before d) (distinct : ∀ read ∈ before, DistinctPids read) (r : ProcRead) :
    (findProc d r.pid r.start).map ProcPrev.cpu = (counterpart before r).map ProcRead.cpu := by
  have pids : (((before.elim [] ProcsRead.procs).take BUDYK_MAX_TRACKED_PROCS).map fun entry => entry.1.pid).Nodup := by
    cases before with
    | none => exact List.nodup_nil
    | some read => exact (distinct read rfl).sublist ((List.take_sublist _ _).map _)
  have distinctKept : ((d.procTrack d.procCur).map ProcPrev.pid).Nodup := by
    rw [(between.kept.map _).nodup_iff, List.map_map]
    exact pids
  have found := findProc_eq_some rfl between.sorted distinctKept r.pid r.start
  have distinctRead : ((((before.elim [] ProcsRead.procs).take BUDYK_MAX_TRACKED_PROCS).map Prod.fst).map
      ProcRead.pid).Nodup := by
    rw [List.map_map]
    exact pids
  have counted (p : ProcRead) : counterpart before r = some p ↔ _ := find_distinct distinctRead r p
  cases there : counterpart before r with
  | none =>
      cases here : findProc d r.pid r.start with
      | none => rfl
      | some q =>
          obtain ⟨held, same, started⟩ := (found q).mp here
          obtain ⟨entry, read, rfl⟩ := List.mem_map.mp (between.kept.mem_iff.mp held)
          have present := (counted entry.1).mpr ⟨List.mem_map_of_mem read, same, started⟩
          rw [there] at present
          cases present
  | some p =>
      obtain ⟨held, same, started⟩ := (counted p).mp there
      obtain ⟨entry, read, rfl⟩ := List.mem_map.mp held
      have here := (found (prevOf entry)).mpr ⟨between.kept.mem_iff.mpr (List.mem_map_of_mem read), same, started⟩
      rw [here]
      rfl

theorem Between.listed (between : Between before d) (distinct : ∀ read ∈ before, DistinctPids read) (nowNs : UInt64) :
    listedBy (procsBegin d nowNs) = shownRow before nowNs := by
  funext entry
  have found := between.find distinct entry.1
  have same : findProc (procsBegin d nowNs) entry.1.pid entry.1.start = findProc d entry.1.pid entry.1.start := by
    have previous : (procsBegin d nowNs).procTrack d.procCur = d.procTrack d.procCur :=
      Function.update_of_ne (by simp) _ _
    unfold findProc
    rw [show (procsBegin d nowNs).procCur = d.procCur from rfl, previous]
  unfold listedBy listedProcess shownRow
  rw [same]
  congr 1
  cases here : findProc d entry.1.pid entry.1.start with
  | none =>
      rw [here] at found
      cases there : counterpart before entry.1 with
      | none => rfl
      | some p =>
          rw [there] at found
          cases found
  | some q =>
      rw [here] at found
      cases there : counterpart before entry.1 with
      | none =>
          rw [there] at found
          cases found
      | some p =>
          rw [there] at found
          have cpu : q.cpu = p.cpu := Option.some.inj found
          dsimp only
          rw [cpu, show (procsBegin d nowNs).procPrevNs = d.procPrevNs from rfl, between.prevNs]
          rfl

end Previous

/-! ## The list of a read -/

/-- By CPU, then by RSS, larger first, then by pid. -/
def Above (p q : Process) : Prop :=
  q.cpuPercent < p.cpuPercent ∨ (p.cpuPercent = q.cpuPercent ∧
    (q.rssBytes < p.rssBytes ∨ (p.rssBytes = q.rssBytes ∧ p.pid < q.pid)))

theorem cmpTop_le (p q : Process) : cmpTop p q ≤ 0 ↔
    Above p q ∨ (p.cpuPercent = q.cpuPercent ∧ p.rssBytes = q.rssBytes ∧ p.pid = q.pid) := by
  unfold cmpTop Above
  grind

theorem cmpTop_total (p q : Process) : cmpTop p q ≤ 0 ∨ cmpTop q p ≤ 0 := by
  unfold cmpTop
  grind

theorem cmpTop_trans (p q r : Process) (first : cmpTop p q ≤ 0) (second : cmpTop q r ≤ 0) : cmpTop p r ≤ 0 := by
  unfold cmpTop at *
  grind

theorem inOrder_sorted {v : List ProcPrev} (ordered : inOrder v = true) : v.Pairwise fun p q => p.pid ≤ q.pid := by
  induction v using inOrder.induct with
  | case1 => exact List.Pairwise.nil
  | case2 p => exact List.pairwise_singleton _ p
  | case3 p q rest ih =>
      rw [inOrder, Bool.and_eq_true, decide_eq_true_eq] at ordered
      have later := ih ordered.2
      refine List.pairwise_cons.mpr ⟨fun r held => ?_, later⟩
      rcases List.mem_cons.mp held with rfl | held
      · exact ordered.1
      · exact ordered.1.trans ((List.pairwise_cons.mp later).1 r held)

structure TopProcesses (before : Option ProcsRead) (read : ProcsRead) (d : ProcTracker) : Prop where
  cpu : Largest byCpu BUDYK_TOP_EACH ((read.procs.map (shownRow before read.nowNs)).filter fun p => 0 < p.cpuPercent)
    d.topCpu.held
  rss : Largest byRss BUDYK_TOP_EACH (read.procs.map (shownRow before read.nowNs)) d.topRss.held
  members : ∀ p, p ∈ d.procs ↔ p ∈ d.topCpu.held ∨ p ∈ d.topRss.held
  once : (d.procs.map Process.pid).Nodup
  order : d.procs.Pairwise Above

theorem held_length {top : Top} (fits : SlotsFit top) : top.held.length ≤ BUDYK_TOP_EACH :=
  (List.length_take_le _ _).trans fits.room

theorem largest_subperm {key : Process → Rat} {k : Nat} {arrivals top : List Process} (largest : Largest key k arrivals top) :
    top.Subperm arrivals := by
  obtain ⟨rest, perm, -⟩ := largest.others
  exact (List.sublist_append_left top rest).subperm.trans perm.subperm

theorem subperm_pids {arrivals top : List Process} (distinct : (arrivals.map Process.pid).Nodup) (within : top.Subperm arrivals) :
    (top.map Process.pid).Nodup := by
  obtain ⟨same, perm, sub⟩ := within
  exact (perm.map _).nodup_iff.mp (distinct.sublist (sub.map _))

theorem union_spec {topCpu topRss : List Process} (few : topCpu.length ≤ BUDYK_TOP_EACH)
    (fewRss : topRss.length ≤ BUDYK_TOP_EACH) {arrivals : List Process} (distinct : (arrivals.map Process.pid).Nodup)
    (cpu : topCpu.Subperm arrivals) (rss : topRss.Subperm arrivals) : ∃ procs, unionProcs topCpu topRss = some procs ∧
      (∀ p, p ∈ procs ↔ p ∈ topCpu ∨ p ∈ topRss) ∧ (procs.map Process.pid).Nodup := by
  have short := List.length_filter_le (fun p => !topCpu.any fun q => q.pid = p.pid) topRss
  refine ⟨_, if_pos ?_, ?_, ?_⟩
  · rw [List.length_append]
    omega
  · intro p
    rw [List.mem_append, List.mem_filter]
    constructor
    · rintro (held | ⟨held, -⟩)
      · exact .inl held
      · exact .inr held
    · rintro (held | held)
      · exact .inl held
      · by_cases dup : ∃ q ∈ topCpu, q.pid = p.pid
        · -- Who has the pid is the same process.
          obtain ⟨q, other, same⟩ := dup
          have one : q = p := List.inj_on_of_nodup_map distinct (cpu.subset other) (rss.subset held) same
          exact .inl (one ▸ other)
        · exact .inr ⟨held, by simpa using dup⟩
  · rw [List.map_append]
    refine List.Nodup.append (subperm_pids distinct cpu)
      ((subperm_pids distinct rss).sublist (List.filter_sublist.map _)) ?_
    intro pid inCpu inRss
    obtain ⟨q, held, rfl⟩ := List.mem_map.mp inCpu
    obtain ⟨p, kept, same⟩ := List.mem_map.mp inRss
    have absent := (List.mem_filter.mp kept).2
    simp only [Bool.not_eq_true', List.any_eq_false, decide_eq_true_eq] at absent
    exact absent q held same.symm

theorem shown_pids {before : Option ProcsRead} {read : ProcsRead} (distinct : DistinctPids read) :
    ((read.procs.map (shownRow before read.nowNs)).map Process.pid).Nodup := by
  rw [List.map_map]
  exact distinct

section End
variable {d : ProcTracker} {before : Option ProcsRead} {read : ProcsRead}

theorem procsRead_spec (between : Between before d) (earlier : ∀ read ∈ before, DistinctPids read)
    (distinct : DistinctPids read) : ∃ after, procsRead d read = some after ∧ Between (some read) after ∧
      TopProcesses before read after := by
  obtain ⟨made, all, adding⟩ := (begins between.cpuFits between.rssFits read.nowNs).all read.procs
  rw [List.nil_append] at adding
  have cpuHeld := adding.cpu
  have rssHeld := adding.rss
  rw [between.listed earlier] at cpuHeld rssHeld
  have cpu := @largest_spec _ _ _ byCpu BUDYK_TOP_EACH
    ((read.procs.map (shownRow before read.nowNs)).filter fun p => 0 < p.cpuPercent)
  have rss := @largest_spec _ _ _ byRss BUDYK_TOP_EACH (read.procs.map (shownRow before read.nowNs))
  rw [← cpuHeld] at cpu
  rw [← rssHeld] at rss
  obtain ⟨procs, union, members, once⟩ := union_spec (held_length adding.cpuFits) (held_length adding.rssFits)
    (shown_pids distinct) ((largest_subperm cpu).trans List.filter_sublist.subperm) (largest_subperm rss)
  have next : made.procTrack (!made.procCur) = (read.procs.take BUDYK_MAX_TRACKED_PROCS).map prevOf := by
    rw [adding.cur]
    exact adding.tracked
  have sorts : ∃ sorted, (if inOrder (made.procTrack (!made.procCur)) then made.procTrack (!made.procCur)
      else (made.procTrack (!made.procCur)).insertionSort fun p q => p.pid ≤ q.pid) = sorted ∧
      sorted.Perm (made.procTrack (!made.procCur)) ∧ sorted.Pairwise fun p q => p.pid ≤ q.pid := by
    split
    next ordered => exact ⟨_, rfl, List.Perm.refl _, inOrder_sorted ordered⟩
    next =>
      have : Std.Total fun p q : ProcPrev => p.pid ≤ q.pid := ⟨fun p q => le_total p.pid q.pid⟩
      have : IsTrans ProcPrev fun p q => p.pid ≤ q.pid := ⟨fun _ _ _ first second => first.trans second⟩
      exact ⟨_, rfl, List.perm_insertionSort _ _, List.pairwise_insertionSort _ _⟩
  obtain ⟨sorted, sorts, same, ordered⟩ := sorts
  have listed : (procs.insertionSort fun p q => cmpTop p q ≤ 0).Perm procs := List.perm_insertionSort _ _
  refine ⟨{ made with
    procTrack := Function.update made.procTrack (!made.procCur) sorted
    procCur := !made.procCur
    procPrevNs := made.procNowNs
    procs := procs.insertionSort fun p q => cmpTop p q ≤ 0 }, ?_, ?_, ?_⟩
  · unfold procsRead
    rw [all]
    dsimp only
    unfold procsEnd
    dsimp only
    rw [union, sorts]
  · have kept : (Function.update made.procTrack (!made.procCur) sorted) (!made.procCur) = sorted := Function.update_self _ _ _
    refine ⟨?_, ?_, adding.nowNs, adding.cpuFits, adding.rssFits⟩
    · dsimp only
      rw [kept]
      rw [next] at same
      exact same
    · dsimp only
      rw [kept]
      exact ordered
  · refine ⟨cpu, rss, ?_, (listed.map _).nodup_iff.mpr once, ?_⟩
    · intro p
      rw [← members]
      exact listed.mem_iff
    · have : Std.Total fun p q : Process => cmpTop p q ≤ 0 := ⟨cmpTop_total⟩
      have : IsTrans Process fun p q => cmpTop p q ≤ 0 := ⟨cmpTop_trans⟩
      have inOrder_ := List.pairwise_insertionSort (fun p q : Process => cmpTop p q ≤ 0) procs
      have apart := List.pairwise_map.mp ((listed.map Process.pid).nodup_iff.mpr once)
      refine (inOrder_.and apart).imp ?_
      rintro p q ⟨le, other⟩
      exact ((cmpTop_le p q).mp le).resolve_right fun alike => other alike.2.2

end End

/-! ## Runs -/

theorem procsRun_concat (d : ProcTracker) (reads : List ProcsRead) (last : ProcsRead) :
    procsRun d (reads ++ [last]) = (procsRun d reads).bind fun d => procsRead d last := by
  induction reads generalizing d with
  | nil =>
      rw [List.nil_append, procsRun, procsRun]
      cases read : procsRead d last with
      | none => exact read.symm
      | some after => exact read.symm
  | cons read reads ih =>
      rw [List.cons_append, procsRun, procsRun]
      cases procsRead d read with
      | none => rfl
      | some after => exact ih after

theorem run_between (reads : List ProcsRead) (distinct : ∀ read ∈ reads, DistinctPids read) :
    ∃ d, procsRun .new reads = some d ∧ Between reads.getLast? d := by
  induction reads using List.reverseRecOn with
  | nil =>
      have empty : SlotsFit ⟨List.replicate BUDYK_TOP_EACH 0, 0⟩ := ⟨List.length_replicate, Nat.zero_le _⟩
      exact ⟨.new, rfl, ⟨List.Perm.refl _, List.Pairwise.nil, rfl, empty, empty⟩⟩
  | append_singleton reads last ih =>
      obtain ⟨d, run, between⟩ := ih fun read held => distinct read (List.mem_append_left _ held)
      have earlier : ∀ read ∈ reads.getLast?, DistinctPids read := fun read held =>
        distinct read (List.mem_append_left _ (List.mem_of_getLast? held))
      obtain ⟨after, read, next, -⟩ := procsRead_spec between earlier (distinct last (by simp))
      refine ⟨after, ?_, by rwa [List.getLast?_concat]⟩
      rw [procsRun_concat, run]
      exact read

/-! Doubles of whole numbers. -/

theorem roundDouble_exact {n : Nat} (small : n ≤ 2 ^ 53) : roundDouble n = n := by
  rcases Nat.lt_or_eq_of_le small with less | rfl
  · have unit : n.log2 - 52 = 0 := by
      rcases Nat.eq_zero_or_pos n with rfl | positive
      · rfl
      · have := (Nat.log2_lt (by omega)).mpr less
        omega
    simp [roundDouble, unit, Nat.mod_one]
  · decide

/-- Up to `2 ^ 53` bytes the double is the number itself. -/
theorem largest_rss {k : Nat} {arrivals top : List Process} (small : ∀ p ∈ arrivals, p.rssBytes.toNat ≤ 2 ^ 53)
    (largest : Largest byRss k arrivals top) : Largest (fun p => p.rssBytes.toNat) k arrivals top := by
  obtain ⟨length, rest, perm, descending, ties⟩ := largest
  have exactly (p : Process) (held : p ∈ arrivals) : byRss p = (p.rssBytes.toNat : Rat) := by
    rw [byRss, roundDouble_exact (small p held)]
  refine ⟨length, rest, perm, ?_, ?_⟩
  · refine descending.imp_of_mem ?_
    intro p q first second le
    rw [exactly p (perm.subset first), exactly q (perm.subset second)] at le
    exact_mod_cast le
  · intro c
    have same := ties (c : Rat)
    have keys (l : List Process) (within : l ⊆ arrivals) : (l.filter fun p => byRss p = (c : Rat)) =
        l.filter fun p => p.rssBytes.toNat = c := by
      apply List.filter_congr
      intro p held
      rw [exactly p (within held)]
      simp
    rwa [keys _ perm.subset, keys _ (List.Subset.refl _)] at same

theorem top_processes (reads : List ProcsRead) (last : ProcsRead) (distinct : ∀ read ∈ reads ++ [last], DistinctPids read) :
    ∃ d, procsRun .new (reads ++ [last]) = some d ∧ TopProcesses reads.getLast? last d ∧
      ((∀ entry ∈ last.procs, entry.1.rssBytes.toNat ≤ 2 ^ 53) →
        Largest (fun p => p.rssBytes.toNat) BUDYK_TOP_EACH (last.procs.map (shownRow reads.getLast? last.nowNs)) d.topRss.held) := by
  obtain ⟨d, run, between⟩ := run_between reads fun read held => distinct read (List.mem_append_left _ held)
  have earlier : ∀ read ∈ reads.getLast?, DistinctPids read := fun read held =>
    distinct read (List.mem_append_left _ (List.mem_of_getLast? held))
  obtain ⟨after, read, -, tops⟩ := procsRead_spec between earlier (distinct last (by simp))
  refine ⟨after, by rw [procsRun_concat, run]; exact read, tops, fun small => largest_rss ?_ tops.rss⟩
  intro p held
  obtain ⟨entry, there, rfl⟩ := List.mem_map.mp held
  exact small entry there

def procOf (pid : Int) (rssBytes : UInt64) : ProcRead × Rat := (⟨pid, 1, 0, rssBytes, 1, 83, text "p"⟩, 100)

/-- Twelve processes: the first of them at a time with the start time `start`. -/
def twelve (nowNs start cpu : UInt64) : ProcsRead :=
  ⟨nowNs, (⟨1, start, cpu, 4096, 1, 82, text "new"⟩, 100) ::
    (List.range 11).map fun (k : Nat) => (⟨(k : Int) + 2, 1, cpu, 8192 * UInt64.ofNat k, 1, 83, text "p"⟩, 100)⟩

/-- Between the two reads the process 1 ended, and another got its number. -/
theorem top_processes_two : ∃ d, procsRun .new [twelve 1000000000 1 0, twelve 2000000000 9 50] = some d ∧
    TopProcesses (some (twelve 1000000000 1 0)) (twelve 2000000000 9 50) d := by
  have distinct : ∀ read ∈ [twelve 1000000000 1 0] ++ [twelve 2000000000 9 50], DistinctPids read := by
    have numbers : ([1, 2, 3, 4, 5, 6, 7, 8, 9, 10, 11, 12] : List Int).Nodup := by decide
    intro read held
    obtain rfl | rfl : read = twelve 1000000000 1 0 ∨ read = twelve 2000000000 9 50 := by simpa using held
    · exact numbers
    · exact numbers
  obtain ⟨d, run, tops, -⟩ := top_processes [twelve 1000000000 1 0] (twelve 2000000000 9 50) distinct
  exact ⟨d, run, tops⟩

/-- Two sizes that one double stands for: the larger comes behind the smaller. -/
theorem rss_ties :
    let read : ProcsRead := ⟨1, [procOf 7 (2 ^ 53), procOf 5 (2 ^ 53 + 1)]⟩
    ∃ d, procsRun .new [read] = some d ∧
      ¬Largest (fun p => p.rssBytes.toNat) BUDYK_TOP_EACH (read.procs.map (shownRow none 1)) d.topRss.held := by
  intro read
  have sizes : (procsRun .new [read]).map (fun d => d.topRss.held.map fun p => p.rssBytes.toNat) =
      some [2 ^ 53, 2 ^ 53 + 1] := by
    decide +kernel
  obtain ⟨d, run, held⟩ := Option.map_eq_some_iff.mp sizes
  refine ⟨d, run, fun largest => ?_⟩
  obtain ⟨rest, -, descending, -⟩ := largest.others
  have order : (d.topRss.held.map fun p => p.rssBytes.toNat).Pairwise fun m n => n ≤ m :=
    List.pairwise_map.mpr (List.pairwise_append.mp descending).1
  rw [held] at order
  exact absurd order (by decide)

end Budyk.Proof
