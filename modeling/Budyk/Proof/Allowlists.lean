import Budyk.Config.StrList
import Budyk.Rules.Allowlists

/-! An allowlist that was written is never an empty one, and when it allows nothing. -/

namespace Budyk.Proof
open Lib Rules Config

def stringsOf (d : YamlDocument) (items : List Nat) : List (List UInt8) := items.filterMap fun item => yamlScalar (getNode d item)

theorem readItems_spec (d : YamlDocument) (path : List UInt8) (items : List Nat) (index : Nat) :
    (readItems d path items index).1.dst = stringsOf d items ∧
      ((readItems d path items index).2 = false → (stringsOf d items).length = items.length) := by
  induction items generalizing index with
  | nil => exact ⟨rfl, fun _ => rfl⟩
  | cons item items ih =>
      obtain ⟨same, kept⟩ := ih (index + 1)
      simp only [Config.readItems, stringsOf, List.filterMap_cons] at *
      cases yamlScalar (getNode d item) with
      | none => exact ⟨same, fun dropped => Bool.noConfusion dropped⟩
      | some s => exact ⟨congrArg (s :: ·) same, fun all => congrArg (· + 1) (kept all)⟩

/-- No usable entry, or the one that says so. -/
def Nothing (list : List (List UInt8)) : Prop := list = [] ∨ list = [kMatchesNothing]

/-- The values that leave only that entry. -/
def LeavesNothing (d : YamlDocument) (dst : List (List UInt8)) : YamlNode → Prop
  | .scalar value style => yamlNull (some (.scalar value style)) = true ∨ cString value = kMatchesNothing
  | .sequence items => Nothing (stringsOf d items)
  | .mapping _ => Nothing dst

theorem closeList_dst (path : List UInt8) (dropped : Bool) (list : StrList) (present : list.dst = [] → dropped = true) :
    (closeList path true dropped list).dst ≠ [] ∧
      ((closeList path true dropped list).dst = [kMatchesNothing] ↔ Nothing list.dst) := by
  unfold closeList
  by_cases empty : list.dst = []
  · simp [empty, present empty, Nothing]
  · simp [empty, Nothing]

theorem applyStrList_dst {d : YamlDocument} {m : Option YamlNode} {key : List UInt8} {node : YamlNode}
    (dst : List (List UInt8)) (path : List UInt8) (written : yamlFindKey d m key = some node) (notEmpty : node ≠ .sequence []) :
    (applyStrList d m key dst path true).dst ≠ [] ∧
      ((applyStrList d m key dst path true).dst = [kMatchesNothing] ↔ LeavesNothing d dst node) := by
  unfold applyStrList
  rw [written]
  cases node with
  | scalar value style =>
      by_cases null : yamlNull (some (.scalar value style)) = true
      · simp [null, LeavesNothing]
      · simp [null, LeavesNothing]
  | mapping pairs => exact closeList_dst path true _ fun _ => rfl
  | sequence items =>
      obtain ⟨same, kept⟩ := readItems_spec d path items 0
      have present : (readItems d path items 0).1.dst = [] → (readItems d path items 0).2 = true := by
        intro empty
        by_contra all
        have length := kept (Bool.eq_false_iff.mpr all)
        rw [← same, empty] at length
        exact notEmpty (congrArg _ (List.length_eq_zero_iff.mp length.symm))
      have closed := closeList_dst path _ _ present
      rw [same] at closed
      exact closed

/-! ## exec -/

/-- A command that gets as far as the allowlist. -/
structure ExecPath (cmd : List UInt8) : Prop where
  whole : 0 ∉ cmd
  short : cmd.length < kMaxExecArgvBytes
  absolute : cmd.head? = some slash
  straight : containsTraversal cmd = false

/-- No command is named by the entry and leads where the entry led when the list was set. -/
def ExecClosed (before now : Files) : Prop :=
  ∀ target, before.realpath kMatchesNothing = some target →
    ∀ cmd, ExecPath cmd → base cmd = kMatchesNothing → now.resolved cmd ≠ target

theorem resolved_absolute (files : Files) {cmd : List UInt8} (absolute : cmd.head? = some slash) :
    (files.resolved cmd).head? = some slash := by
  unfold Files.resolved
  cases led : files.realpath cmd with
  | none => exact absolute
  | some r => exact files.absolute cmd r led

theorem nulError_none {args : List (List UInt8)} {i : Nat} : nulError i args = none ↔ ∀ arg ∈ args, 0 ∉ arg := by
  induction args generalizing i with
  | nil => simp [nulError]
  | cons arg args ih =>
      rw [nulError, List.forall_mem_cons]
      split
      next held => simp [held]
      next whole => simp [whole, ih]

/-- What a command that is not refused has passed, and nothing more is asked of it. -/
theorem execRefused_none_iff {files : Files} {allow : ExecAllowlist} {cmd : List UInt8} {args : List (List UInt8)} :
    execRefused files allow cmd args = none ↔
      (∀ arg ∈ cmd :: args, 0 ∉ arg) ∧ ((cmd :: args).map fun arg => arg.length + 1).sum ≤ kMaxExecArgvBytes ∧
        cmd.head? = some slash ∧ containsTraversal cmd = false ∧ (allow.resolved = [] ∨ listed files allow cmd = true) := by
  unfold execRefused
  dsimp only
  rw [← nulError_none (i := 0)]
  split
  next held => simp [held]
  next whole =>
    rw [and_iff_right whole]
    split
    next long => exact iff_of_false (fun absent => nomatch absent) fun short => Nat.not_le.mpr long short.1
    next short =>
      rw [and_iff_right (Nat.not_lt.mp short)]
      split
      next relative => simp [relative]
      next absolute =>
        rw [and_iff_right (not_not.mp absolute)]
        split
        next up => simp [up]
        next straight =>
          rw [and_iff_right (Bool.eq_false_iff.mpr straight)]
          split
          next unlisted => simpa using unlisted
          next among => simpa [or_iff_not_imp_left] using among

theorem execRefused_none {files : Files} {allow : ExecAllowlist} {cmd : List UInt8} {args : List (List UInt8)}
    (passes : execRefused files allow cmd args = none) :
    ExecPath cmd ∧ (allow.resolved = [] ∨ listed files allow cmd = true) := by
  obtain ⟨whole, short, absolute, straight, among⟩ := execRefused_none_iff.mp passes
  rw [List.map_cons, List.sum_cons] at short
  exact ⟨⟨whole cmd List.mem_cons_self, by omega, absolute, straight⟩, among⟩

theorem execRefused_path {files : Files} {allow : ExecAllowlist} {cmd : List UInt8} (path : ExecPath cmd)
    (among : listed files allow cmd = true) : execRefused files allow cmd [] = none := by
  refine execRefused_none_iff.mpr ⟨?_, ?_, path.absolute, path.straight, .inr among⟩
  · simpa using path.whole
  · simpa using path.short

theorem listed_nothing (before now : Files) (cmd : List UInt8) :
    listed now (setExecAllowlist before [kMatchesNothing]) cmd = true ↔
      before.resolved kMatchesNothing = now.resolved cmd ∧ base kMatchesNothing = base cmd := by
  have whole : cString kMatchesNothing = kMatchesNothing := by decide
  have resolved : (setExecAllowlist before [kMatchesNothing]).resolved = [before.resolved kMatchesNothing] := by
    simp only [setExecAllowlist, List.map_cons, List.map_nil, whole, Files.resolved]
  unfold Rules.listed
  rw [resolved]
  simp [setExecAllowlist]

theorem exec_closed_iff (before now : Files) :
    (∀ cmd args, execRefused now (setExecAllowlist before [kMatchesNothing]) cmd args ≠ none) ↔ ExecClosed before now := by
  have name : base kMatchesNothing = kMatchesNothing := by decide
  constructor
  · intro refused target led cmd path named same
    refine refused cmd [] (execRefused_path path ((listed_nothing before now cmd).mpr ⟨?_, ?_⟩))
    · rw [same, Files.resolved, led]
      rfl
    · rw [name, named]
  · intro closed cmd args passes
    obtain ⟨path, empty | among⟩ := execRefused_none passes
    · cases empty
    · obtain ⟨same, named⟩ := (listed_nothing before now cmd).mp among
      cases led : before.realpath kMatchesNothing with
      | none =>
          -- The text of the entry is no absolute path.
          rw [Files.resolved, led] at same
          have absolute := resolved_absolute now path.absolute
          rw [← same] at absolute
          exact absurd absolute (by decide)
      | some target =>
          rw [Files.resolved, led] at same
          exact closed target led cmd path (named.symm.trans name) same.symm

/-! ## freeze -/

/-- The process has neither the entry's name, nor the part of it that the kernel would keep. -/
def FreezeClosed (os : Os) (comm : Option (List UInt8)) : Prop :=
  ∀ name, comm.bind (procNameOf os 64) = some name → name ≠ kMatchesNothing ∧ name ≠ kMatchesNothing.take (kCommMax os)

theorem nameListed_nothing (os : Os) (name : List UInt8) :
    nameListed os [kMatchesNothing] name = true ↔
      name = kMatchesNothing ∨ name = kMatchesNothing.take (kCommMax os) := by
  have long : kCommMax os < kMatchesNothing.length := by cases os <;> decide
  simp only [nameListed, List.any_cons, List.any_nil, Bool.or_false, Bool.or_eq_true, Bool.and_eq_true, decide_eq_true_eq]
  constructor
  · rintro (same | ⟨-, same⟩)
    · exact .inl same.symm
    · exact .inr same.symm
  · rintro (rfl | rfl)
    · exact .inl rfl
    · exact .inr ⟨⟨long, List.length_take_of_le (Nat.le_of_lt long)⟩, rfl⟩

theorem freeze_closed_iff (os : Os) (comm : Option (List UInt8)) :
    (∀ enabled own call, ∃ err, freezeAction os enabled [kMatchesNothing] own call comm = .error err) ↔
      FreezeClosed os comm := by
  constructor
  · intro refused name named
    rw [← not_or, ← nameListed_nothing]
    intro among
    obtain ⟨err, failed⟩ := refused true (fun _ => false) ⟨text "freeze", 2⟩
    simp [freezeAction, named, among] at failed
  · intro closed enabled own call
    unfold freezeAction
    dsimp only
    split
    next => exact ⟨_, rfl⟩
    split
    next => exact ⟨_, rfl⟩
    split
    next => exact ⟨_, rfl⟩
    split
    next empty => cases empty
    split
    next => exact ⟨_, rfl⟩
    next name named =>
      split
      next among =>
        obtain ⟨other, shorter⟩ := closed name named
        rcases (nameListed_nothing os name).mp among with same | same
        · exact absurd same other
        · exact absurd same shorter
      next => exact ⟨_, rfl⟩

/-! ## Allowlists -/

theorem allowlist_closed_iff {d : YamlDocument} {m : Option YamlNode} {key : List UInt8} {node : YamlNode}
    (written : yamlFindKey d m key = some node) (notEmpty : node ≠ .sequence []) (dst : List (List UInt8))
    (path : List UInt8) (before now : Files) (os : Os) (comm : Option (List UInt8)) :
    let list := (applyStrList d m key dst path true).dst
    (list ≠ [] ∧ (list = [kMatchesNothing] →
        ∀ cmd args, execRefused now (setExecAllowlist before list) cmd args ≠ none) ↔
      (LeavesNothing d dst node → ExecClosed before now)) ∧
    (list ≠ [] ∧ (list = [kMatchesNothing] →
        ∀ enabled own call, ∃ err, freezeAction os enabled list own call comm = .error err) ↔
      (LeavesNothing d dst node → FreezeClosed os comm)) := by
  obtain ⟨nonempty, nothing⟩ := applyStrList_dst dst path written notEmpty
  intro list
  rw [← nothing]
  refine ⟨?_, ?_⟩
  · rw [and_iff_right nonempty]
    refine forall_congr' fun only => ?_
    rw [show list = [kMatchesNothing] from only]
    exact exec_closed_iff before now
  · rw [and_iff_right nonempty]
    refine forall_congr' fun only => ?_
    rw [show list = [kMatchesNothing] from only]
    exact freeze_closed_iff os comm

def mappingDocument : YamlDocument :=
  [.mapping [(2, 3)], .scalar (text "allow") .plain, .mapping [(4, 5)], .scalar (text "name") .plain,
    .scalar (text "nginx") .plain]

/-- Every absolute path leads to itself, and the working directory is empty. -/
def plainFiles : Files where
  realpath path := if path.head? = some slash then some path else none
  absolute path resolved led := by
    split at led
    next absolute =>
      cases led
      exact absolute
    next => cases led

theorem mapping_allows_nothing :
    let list := (applyStrList mappingDocument (getNode mappingDocument 1) (text "allow") [] (text "rules.exec.allow") true).dst
    (∀ cmd args, execRefused plainFiles (setExecAllowlist plainFiles list) cmd args ≠ none) ∧
      ∀ enabled own call, ∃ err, freezeAction .linux enabled list own call (some (text "nginx")) = .error err := by
  have written : yamlFindKey mappingDocument (getNode mappingDocument 1) (text "allow") =
      some (.mapping [(4, 5)]) := by
    decide +kernel
  have unmet : ExecClosed plainFiles plainFiles := by
    intro target led
    have missing : plainFiles.realpath kMatchesNothing = none := by decide +kernel
    rw [missing] at led
    cases led
  have other : FreezeClosed .linux (some (text "nginx")) := by
    intro name named
    have same : (some (text "nginx")).bind (procNameOf .linux 64) = some (text "nginx") := by decide +kernel
    rw [same] at named
    cases named
    decide +kernel
  obtain ⟨exec, freeze⟩ := allowlist_closed_iff written (fun same => nomatch same) [] (text "rules.exec.allow") plainFiles
    plainFiles .linux (some (text "nginx"))
  exact ⟨(exec.mpr fun _ => unmet).2 rfl, (freeze.mpr fun _ => other).2 rfl⟩

/-- The working directory, `/`, holds a file by that name. -/
def strayFile : Files where
  realpath path := if path.head? = some slash then some path else some (slash :: path)
  absolute path resolved led := by
    split at led
    next absolute =>
      cases led
      exact absolute
    next =>
      cases led
      rfl

/-- Some processes and some commands are allowed all the same. -/
theorem nothing_allowed_all_the_same :
    let list := (applyStrList mappingDocument (getNode mappingDocument 1) (text "allow") [] (text "rules.exec.allow") true).dst
    list = [kMatchesNothing] ∧
      freezeAction .linux true list (fun _ => false) ⟨text "freeze", 4242⟩ (some (text "(no usable entr")) = .ok 4242 ∧
      freezeAction .freebsd true list (fun _ => false) ⟨text "freeze", 4242⟩ (some (text "(no usable entry in")) = .ok 4242 ∧
      execRefused strayFile (setExecAllowlist strayFile list) (slash :: kMatchesNothing) [] = none := by
  decide +kernel

end Budyk.Proof
