import Mathlib.Data.List.DropRight
import Mathlib.Order.Nat

/-! Events on a time line, the oldest first, some of them marked: the latest one marked, the unbroken
stretch of marked ones at the end, and a condition that such a stretch starts and a pause ends. -/

namespace Budyk.Lib
variable {α : Type} (stamp : α → Nat) (marked : α → Bool)

def latest (xs : List α) : Option Nat := (xs.filter marked).getLast?.map stamp

def stretchStart (xs : List α) : Option Nat := (xs.rtakeWhile marked).head?.map stamp

def Spans (span : Nat) (run : List α) : Prop :=
  ∃ first last, run.head? = some first ∧ run.getLast? = some last ∧ span ≤ stamp last - stamp first

/-- Some unbroken stretch of marked events lasted for `span`, and no unmarked event since then came `pause`
or more after the last marked one before it. -/
def Held (span pause : Nat) (xs : List α) : Prop :=
  ∃ older run newer, xs = older ++ (run ++ newer) ∧ (∀ x ∈ run, marked x) ∧ Spans stamp span run ∧
    ∀ before last gap calm after, run ++ newer = before ++ last :: (gap ++ calm :: after) →
      marked last → (∀ x ∈ gap, ¬marked x) → ¬marked calm → stamp calm - stamp last < pause

variable {stamp marked}

theorem latest_concat (xs : List α) (x : α) :
    latest stamp marked (xs ++ [x]) = if marked x then some (stamp x) else latest stamp marked xs := by
  unfold latest
  rw [List.filter_append]
  by_cases mark : marked x <;> simp [mark]

theorem latest_eq_some {xs : List α} {t : Nat} (found : latest stamp marked xs = some t) :
    ∃ before x after, xs = before ++ x :: after ∧ marked x ∧ (∀ y ∈ after, ¬marked y) ∧ stamp x = t := by
  induction xs using List.reverseRecOn with
  | nil => cases found
  | append_singleton xs x ih =>
      rw [latest_concat] at found
      split at found
      next mark => exact ⟨xs, x, [], rfl, mark, by simp, Option.some.inj found⟩
      next calm =>
        obtain ⟨before, y, after, rfl, mark, rest, eq⟩ := ih found
        refine ⟨before, y, after ++ [x], by simp, mark, ?_, eq⟩
        intro z member
        rcases List.mem_append.mp member with old | new
        · exact rest z old
        · rw [List.mem_singleton.mp new]
          exact calm

theorem latest_append {before after : List α} {x : α} (mark : marked x) (rest : ∀ y ∈ after, ¬marked y) :
    latest stamp marked (before ++ x :: after) = some (stamp x) := by
  have none : after.filter marked = [] := List.filter_eq_nil_iff.mpr rest
  simp [latest, mark, none]

theorem latest_append_right {xs ys : List α} {y : α} (member : y ∈ ys) (mark : marked y) :
    latest stamp marked (xs ++ ys) = latest stamp marked ys := by
  have some : ys.filter marked ≠ [] := List.ne_nil_of_mem (List.mem_filter.mpr ⟨member, mark⟩)
  rw [latest, latest, List.filter_append, List.getLast?_append_of_ne_nil _ some]

theorem within_latest {xs : List α} {now : Nat} (sorted : xs.Pairwise fun x y => stamp x ≤ stamp y)
    (window : Nat) :
    (∃ t ∈ latest stamp marked xs, now - t < window) ↔ ∃ x ∈ xs, marked x ∧ now - stamp x < window := by
  constructor
  · rintro ⟨t, found, recent⟩
    obtain ⟨before, x, after, rfl, mark, -, rfl⟩ := latest_eq_some found
    exact ⟨x, by simp, mark, recent⟩
  · rintro ⟨x, member, mark, recent⟩
    cases found : latest stamp marked xs with
    | none =>
        rw [latest, Option.map_eq_none_iff, List.getLast?_eq_none_iff, List.filter_eq_nil_iff] at found
        exact absurd mark (found x member)
    | some t =>
        obtain ⟨before, y, after, rfl, -, rest, rfl⟩ := latest_eq_some found
        refine ⟨stamp y, rfl, ?_⟩
        have order : stamp x ≤ stamp y := by
          rcases List.mem_append.mp member with old | new
          · exact (List.pairwise_append.mp sorted).2.2 x old y (by simp)
          · rcases List.mem_cons.mp new with rfl | later
            · exact Nat.le_refl _
            · exact absurd mark (rest x later)
        omega

theorem stretchStart_concat (xs : List α) (x : α) :
    stretchStart stamp marked (xs ++ [x]) =
      if marked x then some ((stretchStart stamp marked xs).getD (stamp x)) else none := by
  unfold stretchStart
  rw [List.rtakeWhile_concat]
  by_cases mark : marked x
  · rw [if_pos mark, if_pos mark]
    cases xs.rtakeWhile marked <;> rfl
  · rw [if_neg mark, if_neg mark]
    rfl

theorem stretch_suffix {xs run older : List α} (split : xs = older ++ run) (all : ∀ x ∈ run, marked x) :
    run <:+ xs.rtakeWhile marked := by
  induction run using List.reverseRecOn generalizing xs with
  | nil => exact List.nil_suffix
  | append_singleton run x ih =>
      rw [split, ← List.append_assoc, List.rtakeWhile_concat, if_pos (all x (by simp))]
      obtain ⟨front, eq⟩ := ih rfl fun y member => all y (by simp [member])
      exact ⟨front, by rw [← eq, List.append_assoc]⟩

theorem spans_stretch_iff {xs : List α} {x : α} (sorted : (xs ++ [x]).Pairwise fun x y => stamp x ≤ stamp y)
    (mark : marked x) (span : Nat) :
    (∃ older run, xs ++ [x] = older ++ run ∧ (∀ y ∈ run, marked y) ∧ Spans stamp span run) ↔
      span ≤ stamp x - (stretchStart stamp marked xs).getD (stamp x) := by
  have whole : (xs ++ [x]).rtakeWhile marked = xs.rtakeWhile marked ++ [x] :=
    List.rtakeWhile_concat_pos marked xs x mark
  obtain ⟨first, head⟩ : ∃ first, (xs.rtakeWhile marked ++ [x]).head? = some first := by
    cases xs.rtakeWhile marked <;> simp
  have start : (stretchStart stamp marked xs).getD (stamp x) = stamp first := by
    have concat : stretchStart stamp marked (xs ++ [x]) = _ := stretchStart_concat xs x
    rw [if_pos mark, stretchStart, whole, head] at concat
    exact (Option.some.inj concat).symm
  rw [start]
  constructor
  · rintro ⟨older, run, split, all, front, last, headRun, lastRun, lasted⟩
    obtain rfl : last = x := by
      have ends : (older ++ run).getLast? = some last := by
        rw [List.getLast?_append, lastRun]
        rfl
      rw [← split, List.getLast?_concat] at ends
      exact (Option.some.inj ends).symm
    have suffix := stretch_suffix split all
    rw [whole] at suffix
    obtain ⟨more, eq⟩ := suffix
    have order : stamp first ≤ stamp front := by
      have sorted' := sorted.sublist (whole ▸ List.rtakeWhile_suffix marked (xs ++ [last])).sublist
      rw [← eq] at sorted' head
      cases more with
      | nil =>
          rw [List.nil_append, headRun] at head
          exact le_of_eq (congrArg stamp (Option.some.inj head)).symm
      | cons y more =>
          cases head
          exact (List.pairwise_cons.mp sorted').1 front
            (List.mem_append_right _ (List.mem_of_mem_head? headRun))
    omega
  · intro lasted
    obtain ⟨older, eq⟩ := List.rtakeWhile_suffix marked (xs ++ [x])
    refine ⟨older, (xs ++ [x]).rtakeWhile marked, eq.symm, fun y => List.mem_rtakeWhile_imp, first, x, ?_, ?_, lasted⟩
    · rw [whole, head]
    · rw [whole, List.getLast?_concat]

theorem append_eq_concat {xs ys zs : List α} {x : α} (split : xs ++ [x] = ys ++ zs) (some : zs ≠ []) :
    ∃ zs', zs = zs' ++ [x] ∧ xs = ys ++ zs' := by
  obtain ⟨zs', y, rfl⟩ := (List.eq_nil_or_concat' zs).resolve_left some
  rw [← List.append_assoc] at split
  obtain ⟨eq, last⟩ := List.append_inj' split rfl
  cases last
  exact ⟨zs', rfl, eq⟩

theorem pauses_concat {xs : List α} {x : α} {pause : Nat} :
    (∀ before last gap calm after, xs ++ [x] = before ++ last :: (gap ++ calm :: after) → marked last →
        (∀ y ∈ gap, ¬marked y) → ¬marked calm → stamp calm - stamp last < pause) ↔
      (∀ before last gap calm after, xs = before ++ last :: (gap ++ calm :: after) → marked last →
        (∀ y ∈ gap, ¬marked y) → ¬marked calm → stamp calm - stamp last < pause) ∧
      (¬marked x → ∀ t ∈ latest stamp marked xs, stamp x - t < pause) := by
  constructor
  · intro short
    refine ⟨fun before last gap calm after split => ?_, fun calm t found => ?_⟩
    · exact short before last gap calm (after ++ [x]) (by simp [split])
    · obtain ⟨before, y, after, rfl, mark, rest, rfl⟩ := latest_eq_some found
      exact short before y after x [] (by simp) mark rest calm
  · rintro ⟨short, now⟩ before last gap calm after split mark rest calmed
    cases after using List.reverseRecOn with
    | nil =>
        have split' : xs ++ [x] = (before ++ last :: gap) ++ [calm] := by simpa using split
        obtain ⟨rfl, ends⟩ := List.append_inj' split' rfl
        cases ends
        exact now calmed _ (latest_append mark rest)
    | append_singleton after y =>
        have split' : xs ++ [x] = (before ++ last :: (gap ++ calm :: after)) ++ [y] := by simpa using split
        obtain ⟨eq, -⟩ := List.append_inj' split' rfl
        exact short before last gap calm after eq mark rest calmed

theorem held_concat_of_marked {xs : List α} {x : α}
    (sorted : (xs ++ [x]).Pairwise fun x y => stamp x ≤ stamp y) (mark : marked x) (span pause : Nat) :
    Held stamp marked span pause (xs ++ [x]) ↔
      Held stamp marked span pause xs ∨ span ≤ stamp x - (stretchStart stamp marked xs).getD (stamp x) := by
  rw [← spans_stretch_iff sorted mark]
  constructor
  · rintro ⟨older, run, newer, split, all, lasted, short⟩
    by_cases none : newer = []
    · rw [none, List.append_nil] at split
      exact Or.inr ⟨older, run, split, all, lasted⟩
    · rw [← List.append_assoc] at split
      obtain ⟨newer', rfl, eq⟩ := append_eq_concat split none
      rw [← List.append_assoc] at short
      exact Or.inl ⟨older, run, newer', by rw [eq, List.append_assoc], all, lasted, (pauses_concat.mp short).1⟩
  · rintro (⟨older, run, newer, rfl, all, lasted, short⟩ | ⟨older, run, split, all, lasted⟩)
    · refine ⟨older, run, newer ++ [x], by simp, all, lasted, ?_⟩
      rw [← List.append_assoc]
      exact pauses_concat.mpr ⟨short, fun calm => absurd mark calm⟩
    · refine ⟨older, run, [], by simpa using split, all, lasted, ?_⟩
      intro before last gap calm after eq _ _ calmed
      rw [List.append_nil] at eq
      exact absurd (all calm (by simp [eq])) calmed

theorem held_concat_of_calm {xs : List α} {x : α} (calm : ¬marked x) (span pause : Nat) :
    Held stamp marked span pause (xs ++ [x]) ↔
      Held stamp marked span pause xs ∧ ∀ t ∈ latest stamp marked xs, stamp x - t < pause := by
  -- The marked event that a pause is reckoned from is in the stretch, or after it.
  have recent (older run newer : List α) (all : ∀ y ∈ run, marked y) (lasted : Spans stamp span run) :
      latest stamp marked (older ++ (run ++ newer)) = latest stamp marked (run ++ newer) := by
    obtain ⟨first, -, head, -⟩ := lasted
    have member := List.mem_of_mem_head? head
    exact latest_append_right (List.mem_append_left newer member) (all first member)
  constructor
  · rintro ⟨older, run, newer, split, all, lasted, short⟩
    have some : newer ≠ [] := by
      rintro rfl
      obtain ⟨-, last, -, ends, -⟩ := lasted
      have ends' : (xs ++ [x]).getLast? = some last := by
        rw [split, List.append_nil, List.getLast?_append, ends]
        rfl
      rw [List.getLast?_concat] at ends'
      exact calm (Option.some.inj ends' ▸ all last (List.mem_of_getLast? ends))
    rw [← List.append_assoc] at split
    obtain ⟨newer', rfl, rfl⟩ := append_eq_concat split some
    rw [← List.append_assoc] at short
    obtain ⟨short, now⟩ := pauses_concat.mp short
    rw [List.append_assoc]
    refine ⟨⟨older, run, newer', rfl, all, lasted, short⟩, ?_⟩
    rw [recent older run newer' all lasted]
    exact now calm
  · rintro ⟨⟨older, run, newer, rfl, all, lasted, short⟩, now⟩
    refine ⟨older, run, newer ++ [x], by simp, all, lasted, ?_⟩
    rw [recent older run newer all lasted] at now
    rw [← List.append_assoc]
    exact pauses_concat.mpr ⟨short, fun _ => now⟩

theorem not_held_nil (span pause : Nat) : ¬Held stamp marked span pause [] := by
  rintro ⟨older, run, newer, split, -, ⟨first, -, head, -⟩, -⟩
  obtain ⟨-, rest⟩ := List.append_eq_nil_iff.mp split.symm
  obtain ⟨rfl, -⟩ := List.append_eq_nil_iff.mp rest
  cases head

theorem latest_of_held {xs : List α} {span pause : Nat} (held : Held stamp marked span pause xs) :
    ∃ t, latest stamp marked xs = some t := by
  obtain ⟨older, run, newer, rfl, all, ⟨first, -, head, -⟩, -⟩ := held
  have member := List.mem_of_mem_head? head
  have some : (older ++ (run ++ newer)).filter marked ≠ [] := by
    refine List.ne_nil_of_mem (List.mem_filter.mpr ⟨?_, all first member⟩)
    exact List.mem_append_right _ (List.mem_append_left _ member)
  exact ⟨stamp (((older ++ (run ++ newer)).filter marked).getLast some), by
    rw [latest, List.getLast?_eq_getLast_of_ne_nil some, Option.map_some]⟩

theorem stamp_le_last {xs : List α} {x y : α} (sorted : (xs ++ [x]).Pairwise fun x y => stamp x ≤ stamp y)
    (member : y ∈ xs) : stamp y ≤ stamp x :=
  (List.pairwise_append.mp sorted).2.2 y member x (List.mem_singleton_self x)

theorem latest_le {xs : List α} {x : α} {t : Nat} (sorted : (xs ++ [x]).Pairwise fun x y => stamp x ≤ stamp y)
    (found : latest stamp marked xs = some t) : t ≤ stamp x := by
  obtain ⟨before, y, after, rfl, -, -, rfl⟩ := latest_eq_some found
  exact stamp_le_last sorted (by simp)

theorem stretchStart_le {xs : List α} {x : α} (sorted : (xs ++ [x]).Pairwise fun x y => stamp x ≤ stamp y) :
    (stretchStart stamp marked xs).getD (stamp x) ≤ stamp x := by
  unfold stretchStart
  cases head : (xs.rtakeWhile marked).head? with
  | none => exact Nat.le_refl _
  | some y =>
      have member := (List.rtakeWhile_suffix marked xs).subset (List.mem_of_mem_head? head)
      exact stamp_le_last sorted member

end Budyk.Lib
