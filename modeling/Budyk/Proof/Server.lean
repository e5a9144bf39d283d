import Budyk.Web.Server

/-! Requests are read the same however their bytes arrive, and what the handler is given is framed by the headers alone. -/

namespace Budyk.Proof
open Lib Web

def BlankAt (stream : Bytes) (i hdrEnd : Nat) : Prop :=
  stream[i]? = some newline ∧
    (stream[i + 1]? = some newline ∧ hdrEnd = i + 2 ∨
      stream[i + 1]? = some carriageReturn ∧ stream[i + 2]? = some newline ∧ hdrEnd = i + 3)

/-- The first blank line of the stream ends at `hdrEnd`. -/
def HeadEnds (stream : Bytes) (hdrEnd : Nat) : Prop :=
  ∃ i, BlankAt stream i hdrEnd ∧ ∀ j < i, ∀ other, ¬BlankAt stream j other

theorem blankAt_succ {b : UInt8} {rest : Bytes} {i hdrEnd : Nat} :
    BlankAt (b :: rest) (i + 1) (hdrEnd + 1) ↔ BlankAt rest i hdrEnd := by
  simp only [BlankAt, List.getElem?_cons_succ, Nat.add_right_cancel_iff, Nat.add_right_comm i 1]

theorem blankAt_range {stream : Bytes} {i hdrEnd : Nat} (blank : BlankAt stream i hdrEnd) :
    (i + 2 ≤ hdrEnd ∧ hdrEnd ≤ i + 3) ∧ hdrEnd ≤ stream.length := by
  have within : ∀ {k : Nat} {b : UInt8}, stream[k]? = some b → k < stream.length :=
    fun held => (List.getElem?_eq_some_iff.mp held).1
  rcases blank.2 with ⟨second, rfl⟩ | ⟨_, third, rfl⟩
  · have := within second
    omega
  · have := within third
    omega

theorem blankAt_unique {stream : Bytes} {i hdrEnd other : Nat} (one : BlankAt stream i hdrEnd)
    (two : BlankAt stream i other) : hdrEnd = other := by
  obtain ⟨_, ⟨second, rfl⟩ | ⟨second, _, rfl⟩⟩ := one
  · obtain ⟨_, ⟨_, rfl⟩ | ⟨other, _⟩⟩ := two
    · rfl
    · rw [second] at other
      cases other
  · obtain ⟨_, ⟨other, _⟩ | ⟨_, _, rfl⟩⟩ := two
    · rw [second] at other
      cases other
    · rfl

theorem headEnds_here {stream : Bytes} {hdrEnd : Nat} (blank : BlankAt stream 0 hdrEnd) (other : Nat) :
    HeadEnds stream other ↔ hdrEnd = other := by
  constructor
  · rintro ⟨i, held, first⟩
    rcases Nat.eq_zero_or_pos i with rfl | positive
    · exact blankAt_unique blank held
    · exact absurd blank (first 0 positive hdrEnd)
  · rintro rfl
    exact ⟨0, blank, fun j before => absurd before (Nat.not_lt_zero j)⟩

theorem headEnds_later {b : UInt8} {rest : Bytes} (absent : ∀ hdrEnd, ¬BlankAt (b :: rest) 0 hdrEnd) (hdrEnd : Nat) :
    HeadEnds (b :: rest) hdrEnd ↔ ∃ later, HeadEnds rest later ∧ later + 1 = hdrEnd := by
  constructor
  · rintro ⟨i, held, first⟩
    cases i with
    | zero => exact absurd held (absent hdrEnd)
    | succ i =>
        obtain ⟨later, rfl⟩ : ∃ later, hdrEnd = later + 1 := ⟨hdrEnd - 1, by have := blankAt_range held; omega⟩
        refine ⟨later, ⟨i, blankAt_succ.mp held, fun j before other blank => ?_⟩, rfl⟩
        exact first (j + 1) (by omega) (other + 1) (blankAt_succ.mpr blank)
  · rintro ⟨later, ⟨i, held, first⟩, rfl⟩
    refine ⟨i + 1, blankAt_succ.mpr held, fun j before other blank => ?_⟩
    cases j with
    | zero => exact absent other blank
    | succ j =>
        obtain ⟨past, rfl⟩ : ∃ past, other = past + 1 := ⟨other - 1, by have := blankAt_range blank; omega⟩
        exact first j (by omega) past (blankAt_succ.mp blank)

theorem blankLineEnd_cases (b next : UInt8) (rest : Bytes) :
    (blankLineEnd (b :: next :: rest) = some 2 ∧ BlankAt (b :: next :: rest) 0 2) ∨
    (blankLineEnd (b :: next :: rest) = some 3 ∧ BlankAt (b :: next :: rest) 0 3) ∨
    (blankLineEnd (b :: next :: rest) = (blankLineEnd (next :: rest)).map (· + 1) ∧
      ∀ hdrEnd, ¬BlankAt (b :: next :: rest) 0 hdrEnd) := by
  rw [blankLineEnd]
  split
  next two =>
    obtain ⟨rfl, rfl⟩ := two
    exact .inl ⟨rfl, rfl, .inl ⟨rfl, rfl⟩⟩
  next notTwo =>
    split
    next three =>
      obtain ⟨rfl, rfl, third⟩ := three
      exact .inr (.inl ⟨rfl, rfl, .inr ⟨rfl, by simpa [List.head?_eq_getElem?] using third, rfl⟩⟩)
    next notThree =>
      refine .inr (.inr ⟨rfl, fun hdrEnd blank => ?_⟩)
      obtain ⟨first, ⟨second, _⟩ | ⟨second, third, _⟩⟩ := blank
      · simp only [List.getElem?_cons_zero, List.getElem?_cons_succ, Option.some_inj, Nat.zero_add] at first second
        exact notTwo ⟨first, second⟩
      · simp only [List.getElem?_cons_zero, List.getElem?_cons_succ, Option.some_inj, Nat.zero_add] at first second third
        exact notThree ⟨first, second, by rw [List.head?_eq_getElem?]; exact third⟩

theorem blankLineEnd_iff (stream : Bytes) (hdrEnd : Nat) : blankLineEnd stream = some hdrEnd ↔ HeadEnds stream hdrEnd := by
  have short : ∀ {stream : Bytes} {hdrEnd : Nat}, stream.length < 2 → ¬HeadEnds stream hdrEnd := by
    rintro stream hdrEnd less ⟨i, held, _⟩
    have := blankAt_range held
    omega
  induction stream generalizing hdrEnd with
  | nil => exact iff_of_false (by simp [blankLineEnd]) (short (by simp))
  | cons b stream ih =>
      cases stream with
      | nil => exact iff_of_false (by simp [blankLineEnd]) (short (by simp))
      | cons next rest =>
          rcases blankLineEnd_cases b next rest with ⟨found, blank⟩ | ⟨found, blank⟩ | ⟨later, absent⟩
          · rw [found, headEnds_here blank, Option.some_inj]
          · rw [found, headEnds_here blank, Option.some_inj]
          · rw [later, headEnds_later absent, Option.map_eq_some_iff]
            exact exists_congr fun k => and_congr_left fun _ => ih k

/-- A search that found nothing in the old bytes may start two before the new ones. -/
theorem findHeaderEnd_chunk {buf : Bytes} (absent : blankLineEnd buf = none) (chunk : Bytes) :
    findHeaderEnd (buf ++ chunk) (buf.length - 2) = blankLineEnd (buf ++ chunk) := by
  induction buf with
  | nil => simp [findHeaderEnd]
  | cons b buf ih =>
      match buf, absent, ih with
      | [], _, _ => simp [findHeaderEnd]
      | [_], _, _ => simp [findHeaderEnd]
      | next :: third :: rest, absent, ih =>
          have front : ∀ s : Bytes, blankLineEnd (b :: next :: third :: s) = (blankLineEnd (next :: third :: s)).map (· + 1) := by
            intro s
            -- three bytes decide whether a blank line begins at the first
            have absent : ∀ hdrEnd, ¬BlankAt (b :: next :: third :: s) 0 hdrEnd := by
              rcases blankLineEnd_cases b next (third :: rest) with ⟨found, _⟩ | ⟨found, _⟩ | ⟨_, absent⟩
              · rw [found] at absent
                cases absent
              · rw [found] at absent
                cases absent
              · exact absent
            rcases blankLineEnd_cases b next (third :: s) with ⟨_, blank⟩ | ⟨_, blank⟩ | ⟨later, _⟩
            · exact absurd blank (absent 2)
            · exact absurd blank (absent 3)
            · exact later
          rw [front, Option.map_eq_none_iff] at absent
          have later := ih absent
          have start : (b :: next :: third :: rest).length - 2 = (next :: third :: rest).length - 2 + 1 := rfl
          simp only [List.cons_append] at later ⊢
          rw [front, ← later, findHeaderEnd, findHeaderEnd, start, List.drop_succ_cons, Option.map_map]
          congr 1
          funext k
          simp only [Function.comp_apply]
          omega

/-! The chunks of the header block. -/

theorem blankAt_append {buf : Bytes} {i hdrEnd : Nat} (blank : BlankAt buf i hdrEnd) (more : Bytes) :
    BlankAt (buf ++ more) i hdrEnd := by
  have keeps : ∀ {k : Nat} {b : UInt8}, buf[k]? = some b → (buf ++ more)[k]? = some b := by
    intro k b there
    rw [List.getElem?_append_left (List.getElem?_eq_some_iff.mp there).1, there]
  refine ⟨keeps blank.1, blank.2.imp ?_ ?_⟩
  · exact fun ⟨second, last⟩ => ⟨keeps second, last⟩
  · exact fun ⟨second, third, last⟩ => ⟨keeps second, keeps third, last⟩

theorem blankAt_within {buf more : Bytes} {i hdrEnd : Nat} (blank : BlankAt (buf ++ more) i hdrEnd)
    (within : hdrEnd ≤ buf.length) : BlankAt buf i hdrEnd := by
  have keeps : ∀ {k : Nat} {b : UInt8}, k < hdrEnd → (buf ++ more)[k]? = some b → buf[k]? = some b := by
    intro k b before there
    rwa [List.getElem?_append_left (before.trans_le within)] at there
  have range := blankAt_range blank
  refine ⟨keeps (by omega) blank.1, blank.2.imp ?_ ?_⟩
  · exact fun ⟨second, last⟩ => ⟨keeps (by omega) second, last⟩
  · exact fun ⟨second, third, last⟩ => ⟨keeps (by omega) second, keeps (by omega) third, last⟩

/-- What comes after the first blank line does not matter to where it ends. -/
theorem blankLineEnd_append {buf more : Bytes} {hdrEnd : Nat} (within : hdrEnd ≤ buf.length) :
    blankLineEnd (buf ++ more) = some hdrEnd ↔ blankLineEnd buf = some hdrEnd := by
  rw [blankLineEnd_iff, blankLineEnd_iff]
  constructor
  · rintro ⟨i, held, first⟩
    exact ⟨i, blankAt_within held within, fun j before other blank => first j before other (blankAt_append blank more)⟩
  · rintro ⟨i, held, first⟩
    refine ⟨i, blankAt_append held more, fun j before other blank => first j before other (blankAt_within blank ?_)⟩
    have range := blankAt_range held
    have past := blankAt_range blank
    omega

theorem blankLineEnd_le {stream : Bytes} {hdrEnd : Nat} (found : blankLineEnd stream = some hdrEnd) :
    hdrEnd ≤ stream.length := by
  obtain ⟨i, held, _⟩ := (blankLineEnd_iff _ _).mp found
  exact (blankAt_range held).2

inductive HeadStep (c : Connection) (buf : Bytes) : HeadRead → Prop
  | stalled : c.pending = [] → HeadStep c buf .stalled
  | ended : c.pending = [] → HeadStep c buf .ended
  | tooLarge : kHeaderReadCap ≤ buf.length → HeadStep c buf .tooLarge
  | found {chunk : Bytes} {rest : Connection} {hdrEnd : Nat} : c.pending = chunk ++ rest.pending → rest.closes = c.closes →
      blankLineEnd (buf ++ chunk) = some hdrEnd → HeadStep c buf (.found hdrEnd (buf ++ chunk) rest)
  | more {chunk : Bytes} {rest : Connection} : c.pending = chunk ++ rest.pending → rest.closes = c.closes →
      rest.pending.length < c.pending.length → blankLineEnd (buf ++ chunk) = none →
      HeadStep c buf (readUntilHeaders rest (buf ++ chunk))

theorem readUntilHeaders_cases (c : Connection) {buf : Bytes} (absent : blankLineEnd buf = none) :
    HeadStep c buf (readUntilHeaders c buf) := by
  have received := Connection.recv_cases (by decide : 0 < 1024) c
  rw [readUntilHeaders]
  split
  next =>
    split
    next stalls =>
      rw [stalls] at received
      cases received with
      | stalled empty _ => exact .stalled empty
    next chunk rest came =>
      rw [came] at received
      cases received with
      | ended empty _ =>
          rw [dif_pos rfl]
          exact .ended empty
      | chunk present _ whole closes =>
          rw [dif_neg present, findHeaderEnd_chunk absent]
          cases search : blankLineEnd (buf ++ chunk) with
          | none => exact .more whole closes (Connection.recv_shrinks (by decide) came present) search
          | some hdrEnd => exact .found whole closes search
  next full => exact .tooLarge (not_lt.mp full)

theorem readUntilHeaders_found {c rest : Connection} {buf read : Bytes} {hdrEnd : Nat} (absent : blankLineEnd buf = none)
    (found : readUntilHeaders c buf = .found hdrEnd read rest) :
    blankLineEnd (buf ++ c.pending) = some hdrEnd ∧ read ++ rest.pending = buf ++ c.pending ∧ hdrEnd ≤ read.length ∧
      rest.closes = c.closes := by
  induction length : c.pending.length using Nat.strong_induction_on generalizing c buf with
  | _ n ih =>
      have step := readUntilHeaders_cases c absent
      generalize result : readUntilHeaders c buf = outcome at found step
      cases step with
      | stalled => cases found
      | ended => cases found
      | tooLarge => cases found
      | @found chunk _ _ whole closes search =>
          cases found
          have range := blankLineEnd_le search
          rw [whole, ← List.append_assoc]
          exact ⟨(blankLineEnd_append range).mpr search, rfl, range, closes⟩
      | @more chunk later whole closes shorter search =>
          obtain ⟨first, same, range, kept⟩ := ih _ (length ▸ shorter) search found rfl
          rw [whole, ← List.append_assoc]
          exact ⟨first, same, range, kept.trans closes⟩

/-- How much is read before the `recv` that brings the last of the first `n` bytes. -/
def readBefore : List Nat → Nat → Nat
  | [], n => (n - 1) / 1024 * 1024
  | k :: pace, n => if n ≤ min 1024 (k + 1) then 0 else min 1024 (k + 1) + readBefore pace (n - min 1024 (k + 1))

theorem readBefore_lt (pace : List Nat) {n : Nat} (positive : 0 < n) : readBefore pace n < n := by
  induction pace generalizing n with
  | nil =>
      rw [readBefore]
      omega
  | cons k pace ih =>
      rw [readBefore]
      split
      · exact positive
      · have := @ih (n - min 1024 (k + 1)) (by omega)
        omega

theorem readBefore_recv {c rest : Connection} {chunk : Bytes} {n : Nat} (received : c.recv 1024 = some (chunk, rest))
    (present : chunk ≠ []) (within : n ≤ c.pending.length) :
    readBefore c.pace n = if n ≤ chunk.length then 0 else chunk.length + readBefore rest.pace (n - chunk.length) := by
  obtain ⟨pending, pace, closes⟩ := c
  rw [Connection.recv] at received
  split at received
  · split at received <;> cases received
    exact absurd rfl present
  · cases received
    simp only at within ⊢
    cases pace with
    | nil =>
        simp only [List.head?_nil, Option.map_none, Option.getD_none, List.length_take, List.tail_nil, readBefore]
        split
        · omega
        · have : min 1024 pending.length = 1024 := by omega
          rw [this]
          omega
    | cons k pace =>
        simp only [List.head?_cons, Option.map_some, Option.getD_some, List.length_take, List.tail_cons, readBefore]
        by_cases first : n ≤ min 1024 (k + 1)
        · rw [if_pos first, if_pos (by omega)]
        · rw [if_neg first, if_neg (by omega), show min (min 1024 (k + 1)) pending.length = min 1024 (k + 1) by omega]

/-- It does find it, exactly when the `recv` that brings its end comes before the cap is reached. -/
theorem readUntilHeaders_iff {c : Connection} {buf : Bytes} (absent : blankLineEnd buf = none) (hdrEnd : Nat) :
    (∃ read rest, readUntilHeaders c buf = .found hdrEnd read rest) ↔
      blankLineEnd (buf ++ c.pending) = some hdrEnd ∧
        buf.length + readBefore c.pace (hdrEnd - buf.length) < kHeaderReadCap := by
  induction length : c.pending.length using Nat.strong_induction_on generalizing c buf with
  | _ n ih =>
      have received := Connection.recv_cases (by decide : 0 < 1024) c
      have nothing : c.pending = [] → blankLineEnd (buf ++ c.pending) ≠ some hdrEnd := by
        intro empty
        rw [empty, List.append_nil, absent]
        exact fun same => by cases same
      rw [readUntilHeaders]
      split
      next room =>
        split
        next stalls =>
          rw [stalls] at received
          cases received with
          | stalled empty _ => exact iff_of_false (by simp) fun found => nothing empty found.1
        next chunk rest came =>
          rw [came] at received
          cases received with
          | ended empty _ =>
              rw [dif_pos rfl]
              exact iff_of_false (by simp) fun found => nothing empty found.1
          | chunk present _ whole _ =>
              have regroup : buf ++ c.pending = buf ++ chunk ++ rest.pending := by rw [whole, List.append_assoc]
              rw [dif_neg present, findHeaderEnd_chunk absent]
              cases search : blankLineEnd (buf ++ chunk) with
              | some last =>
                  have range := blankLineEnd_le search
                  rw [regroup, (blankLineEnd_append range).mpr search]
                  constructor
                  · rintro ⟨read, later, found⟩
                    cases found
                    rw [List.length_append] at range
                    have total : c.pending.length = chunk.length + rest.pending.length := by rw [whole, List.length_append]
                    rw [readBefore_recv came present (by omega), if_pos (by omega)]
                    exact ⟨rfl, room⟩
                  · rintro ⟨same, -⟩
                    cases same
                    exact ⟨_, _, rfl⟩
              | none =>
                  simp only
                  rw [ih _ (length ▸ Connection.recv_shrinks (by decide) came present) search rfl, regroup]
                  refine and_congr_right fun ends => ?_
                  have past : (buf ++ chunk).length < hdrEnd := by
                    by_contra within
                    rw [blankLineEnd_append (not_lt.mp within), search] at ends
                    cases ends
                  have range := blankLineEnd_le ends
                  have total : c.pending.length = chunk.length + rest.pending.length := by rw [whole, List.length_append]
                  simp only [List.length_append] at past range ⊢
                  rw [readBefore_recv came present (by omega), if_neg (by omega), Nat.sub_sub, Nat.add_assoc]
      next full =>
        refine iff_of_false (by simp) fun found => full ?_
        have before := found.2
        omega

/-- The first blank line of the stream ends at `hdrEnd`, and the `recv` that brings its end comes before the cap. -/
def HeadWithin (c : Connection) (hdrEnd : Nat) : Prop :=
  HeadEnds c.pending hdrEnd ∧ readBefore c.pace hdrEnd < kHeaderReadCap

theorem headWithin_iff {c : Connection} {hdrEnd : Nat} :
    (∃ read rest, readUntilHeaders c [] = .found hdrEnd read rest) ↔ HeadWithin c hdrEnd := by
  rw [readUntilHeaders_iff rfl, HeadWithin, ← blankLineEnd_iff, List.nil_append, List.length_nil, Nat.sub_zero,
    Nat.zero_add]

theorem readUntilHeaders_within {c : Connection} {hdrEnd : Nat} (ends : HeadEnds c.pending hdrEnd)
    (within : hdrEnd ≤ kHeaderReadCap) : ∃ read rest, readUntilHeaders c [] = .found hdrEnd read rest := by
  have positive : 0 < hdrEnd := by
    obtain ⟨i, held, _⟩ := ends
    have := blankAt_range held
    omega
  exact headWithin_iff.mpr ⟨ends, (readBefore_lt c.pace positive).trans_le within⟩

theorem readFull_eq (c : Connection) (want : Nat) :
    readFull c want = if want ≤ c.pending.length ∨ c.closes then some (c.pending.take want) else none := by
  induction length : c.pending.length using Nat.strong_induction_on generalizing c want with
  | _ n ih =>
      rw [readFull]
      split
      next zero => simp [zero]
      next positive =>
        have received := Connection.recv_cases (Nat.pos_of_ne_zero positive) c
        split
        next stalls =>
          rw [stalls] at received
          cases received with
          | stalled empty stalls =>
              rw [if_neg]
              simpa [← length, empty, stalls] using positive
        next chunk rest came =>
          rw [came] at received
          cases received with
          | ended empty closes =>
              rw [dif_pos rfl, if_pos (.inr closes), empty, List.take_nil]
          | chunk present most whole closes =>
              have shorter := Connection.recv_shrinks (Nat.pos_of_ne_zero positive) came present
              have total : c.pending.length = chunk.length + rest.pending.length := by rw [whole, List.length_append]
              have enough : want - chunk.length ≤ rest.pending.length ↔ want ≤ n := by omega
              rw [dif_neg present, ih _ (length ▸ shorter) rest _ rfl]
              simp only [closes, enough]
              split
              · rw [whole, List.take_append, List.take_of_length_le most, Option.map_some]
              · rfl

/-! The whole connection. -/

/-- What a stream comes to whose header block ends at `hdrEnd`, however its bytes arrive. -/
def served (peer stream : Bytes) (closes : Bool) (hdrEnd : Nat) : Handling :=
  match parseHeaders peer (stream.take hdrEnd) with
  | none => refuse 400 (text "bad request\n")
  | some req =>
      if req.header (text "Transfer-Encoding") ≠ [] then refuse 501 (text "transfer-encoding not supported\n")
      else
        match req.declaredLength with
        | none => refuse 400 (text "bad content-length\n")
        | some want =>
            if want > kMaxBodyBytes then refuse 413 (text "body too large\n")
            else if hdrEnd + want ≤ stream.length ∨ closes then
              .handler { req with body := (stream.drop hdrEnd).take want }
            else .closed

theorem handleClient_found {c rest : Connection} {read : Bytes} {hdrEnd : Nat} (peer : Bytes)
    (found : readUntilHeaders c [] = .found hdrEnd read rest) :
    handleClient peer c = served peer c.pending c.closes hdrEnd := by
  obtain ⟨_, whole, range, closes⟩ := readUntilHeaders_found rfl found
  rw [List.nil_append] at whole
  have head : c.pending.take hdrEnd = read.take hdrEnd := by rw [← whole, List.take_append_of_le_length range]
  have body : c.pending.drop hdrEnd = read.drop hdrEnd ++ rest.pending := by
    rw [← whole, List.drop_append_of_le_length range]
  have total : c.pending.length = read.length + rest.pending.length := by rw [← whole, List.length_append]
  unfold handleClient served
  rw [found, head, body]
  dsimp only
  cases parseHeaders peer (read.take hdrEnd) with
  | none => rfl
  | some req =>
      dsimp only
      split
      next => rfl
      next =>
        cases req.declaredLength with
        | none => rfl
        | some want =>
            dsimp only
            split
            next => rfl
            next =>
              split
              next short =>
                rw [readFull_eq, closes]
                rw [List.length_drop] at short ⊢
                have enough : want - (read.length - hdrEnd) ≤ rest.pending.length ↔ hdrEnd + want ≤ c.pending.length := by omega
                have cut : (read.drop hdrEnd ++ rest.pending).take want =
                    read.drop hdrEnd ++ rest.pending.take (want - (read.length - hdrEnd)) := by
                  rw [List.take_append, List.take_of_length_le (by rw [List.length_drop]; omega), List.length_drop]
                simp only [enough]
                by_cases comes : hdrEnd + want ≤ c.pending.length ∨ c.closes = true
                · rw [if_pos comes, if_pos comes, cut]
                · rw [if_neg comes, if_neg comes]
              next long =>
                rw [List.length_drop] at long
                rw [if_pos (.inl (by omega)), List.take_append_of_le_length (by rw [List.length_drop]; omega)]

/-- A request whose header block ends within the cap is read the same however its bytes arrive. -/
theorem reading_any_pace {stream : Bytes} {hdrEnd : Nat} (ends : HeadEnds stream hdrEnd) (within : hdrEnd ≤ kHeaderReadCap)
    (peer : Bytes) (pace pace' : List Nat) (closes : Bool) :
    handleClient peer ⟨stream, pace, closes⟩ = handleClient peer ⟨stream, pace', closes⟩ ∧
      handleClient peer ⟨stream, pace, closes⟩ = served peer stream closes hdrEnd ∧
      ∃ read rest, readUntilHeaders ⟨stream, pace, closes⟩ [] = .found hdrEnd read rest := by
  have found : ∀ pace, ∃ read rest, readUntilHeaders ⟨stream, pace, closes⟩ [] = .found hdrEnd read rest :=
    fun pace => readUntilHeaders_within ends within
  obtain ⟨read, rest, one⟩ := found pace
  obtain ⟨read', rest', two⟩ := found pace'
  rw [handleClient_found peer one, handleClient_found peer two]
  exact ⟨rfl, rfl, read, rest, one⟩

/-- The stream byte by byte, each search finding the two bytes before it, and in one piece. -/
theorem byte_by_byte :
    handleClient [] ⟨text "GET / HTTP/1.1\n\r\n", List.replicate 17 0, true⟩ =
        handleClient [] ⟨text "GET / HTTP/1.1\n\r\n", [], true⟩ ∧
      handleClient [] ⟨text "GET / HTTP/1.1\n\r\n", List.replicate 17 0, true⟩ =
        served [] (text "GET / HTTP/1.1\n\r\n") true 17 ∧
      ∃ read rest, readUntilHeaders ⟨text "GET / HTTP/1.1\n\r\n", List.replicate 17 0, true⟩ [] = .found 17 read rest :=
  reading_any_pace ((blankLineEnd_iff _ _).mp rfl) (by decide) [] (List.replicate 17 0) [] true

/-! What frames the body. -/

def fields (name : Bytes) (req : HttpRequest) : List Bytes :=
  (req.headers.filter fun kv => asciiIeq kv.1 name).map Prod.snd

/-- The length all `Content-Length` fields agree on, 0 when there is none. -/
def DeclaresLength (req : HttpRequest) (n : Nat) : Prop :=
  (∀ v ∈ fields (text "Content-Length") req, (v ≠ [] ∧ v.all isDigit = true) ∧ digitsValue v = n) ∧
    (fields (text "Content-Length") req = [] → n = 0)

/-- The handler is given the bytes the headers declare, or nothing. -/
def Framed (peer : Bytes) (c : Connection) : Prop :=
  ∀ req, handleClient peer c = .handler req →
    (∀ v ∈ fields (text "Transfer-Encoding") req, v = []) ∧
    ∃ n ≤ 65536, DeclaresLength req n ∧
      ∃ hdrEnd, HeadEnds c.pending hdrEnd ∧ hdrEnd + n ≤ c.pending.length ∧ req.body = (c.pending.drop hdrEnd).take n

theorem declaresLength_unique {req : HttpRequest} {n m : Nat} (one : DeclaresLength req n) (two : DeclaresLength req m) :
    n = m := by
  cases all : fields (text "Content-Length") req with
  | nil => rw [one.2 all, two.2 all]
  | cons v _ =>
      have held : v ∈ fields (text "Content-Length") req := by
        rw [all]
        exact List.mem_cons_self
      rw [← (one.1 v held).2, ← (two.1 v held).2]

theorem declaredLengthFrom_spec {headers : List (Bytes × Bytes)} {value : Option Nat} {n : Nat}
    (declared : declaredLengthFrom value headers = some n) :
    (∀ kv ∈ headers, asciiIeq kv.1 (text "Content-Length") = true →
      (kv.2 ≠ [] ∧ kv.2.all isDigit = true) ∧ digitsValue kv.2 = n) ∧
    (∀ m, value = some m → m = n) ∧
    (value = none → (∀ kv ∈ headers, asciiIeq kv.1 (text "Content-Length") = false) → n = 0) := by
  induction headers generalizing value with
  | nil =>
      cases declared
      refine ⟨by simp, ?_, ?_⟩
      · rintro m rfl
        rfl
      · rintro rfl _
        rfl
  | cons kv headers ih =>
      obtain ⟨key, v⟩ := kv
      rw [declaredLengthFrom] at declared
      split at declared
      next other =>
        rw [Bool.not_eq_true'] at other
        obtain ⟨all, same, zero⟩ := ih declared
        refine ⟨?_, same, fun absent nothing => zero absent fun kv held => nothing kv (List.mem_cons_of_mem _ held)⟩
        intro kv held length
        rcases List.mem_cons.mp held with rfl | later
        · rw [other] at length
          cases length
        · exact all kv later length
      next length =>
        rw [Bool.not_eq_true', Bool.not_eq_false] at length
        split at declared
        next => cases declared
        next digits =>
          simp only [not_or, Bool.not_eq_true', Bool.not_eq_false] at digits
          split at declared
          next => cases declared
          next agrees =>
            obtain ⟨all, same, _⟩ := ih declared
            have this := same _ rfl
            refine ⟨?_, ?_, fun _ nothing => ?_⟩
            · intro kv held length
              rcases List.mem_cons.mp held with rfl | later
              · exact ⟨⟨digits.1, digits.2.2⟩, this⟩
              · exact all kv later length
            · rintro m rfl
              rw [← this]
              simpa using agrees
            · have absent := nothing _ List.mem_cons_self
              rw [length] at absent
              cases absent

theorem declaredLength_spec {req : HttpRequest} {n : Nat} (declared : req.declaredLength = some n) : DeclaresLength req n := by
  obtain ⟨all, _, zero⟩ := declaredLengthFrom_spec declared
  constructor
  · intro v held
    obtain ⟨kv, among, rfl⟩ := List.mem_map.mp held
    obtain ⟨inside, length⟩ := List.mem_filter.mp among
    exact all kv inside length
  · intro absent
    rw [fields, List.map_eq_nil_iff, List.filter_eq_nil_iff] at absent
    exact zero rfl fun kv held => by simpa using absent kv held

theorem handler_served {peer stream : Bytes} {closes : Bool} {hdrEnd : Nat} {req : HttpRequest}
    (called : served peer stream closes hdrEnd = .handler req) :
    ∃ head n, parseHeaders peer (stream.take hdrEnd) = some head ∧ head.header (text "Transfer-Encoding") = [] ∧
      head.declaredLength = some n ∧ n ≤ kMaxBodyBytes ∧ (hdrEnd + n ≤ stream.length ∨ closes = true) ∧
      req = { head with body := (stream.drop hdrEnd).take n } := by
  unfold served at called
  split at called
  next => cases called
  next head parsed =>
    split at called
    next => cases called
    next plain =>
      split at called
      next => cases called
      next n declared =>
        split at called
        next => cases called
        next small =>
          split at called
          next comes =>
            cases called
            exact ⟨head, n, parsed, not_not.mp plain, declared, not_lt.mp small, comes, rfl⟩
          next => cases called

/-- The body is framed by the headers alone, exactly when no coding is declared after an empty first
`Transfer-Encoding` and the client does not close before its body is whole. -/
theorem framed_iff (peer : Bytes) (c : Connection) :
    Framed peer c ↔
      ∀ hdrEnd req n, HeadWithin c hdrEnd →
        parseHeaders peer (c.pending.take hdrEnd) = some req → req.header (text "Transfer-Encoding") = [] →
        req.declaredLength = some n → n ≤ kMaxBodyBytes → (hdrEnd + n ≤ c.pending.length ∨ c.closes = true) →
        (∀ v ∈ fields (text "Transfer-Encoding") req, v = []) ∧ hdrEnd + n ≤ c.pending.length := by
  constructor
  · intro framed hdrEnd head n within parsed plain declared small comes
    have ends := within.1
    obtain ⟨read, rest, found⟩ := headWithin_iff.mpr within
    have called : handleClient peer c = .handler { head with body := (c.pending.drop hdrEnd).take n } := by
      rw [handleClient_found peer found, served, parsed]
      dsimp only
      rw [if_neg (not_not.mpr plain), declared]
      dsimp only
      rw [if_neg (not_lt.mpr small), if_pos comes]
    obtain ⟨codings, m, _, declares, last, ends', whole, _⟩ := framed _ called
    obtain rfl : m = n := declaresLength_unique declares (declaredLength_spec declared)
    rw [← blankLineEnd_iff] at ends ends'
    obtain rfl : last = hdrEnd := Option.some_inj.mp (ends'.symm.trans ends)
    exact ⟨codings, whole⟩
  · intro condition req called
    cases result : readUntilHeaders c [] with
    | found hdrEnd read rest =>
        have within := headWithin_iff.mp ⟨read, rest, result⟩
        rw [handleClient_found peer result] at called
        obtain ⟨head, n, parsed, plain, declared, small, comes, rfl⟩ := handler_served called
        obtain ⟨codings, whole⟩ := condition hdrEnd head n within parsed plain declared small comes
        exact ⟨codings, n, small, declaredLength_spec declared, hdrEnd, within.1, whole, rfl⟩
    | stalled =>
        rw [handleClient, result] at called
        cases called
    | ended =>
        rw [handleClient, result] at called
        cases called
    | tooLarge =>
        rw [handleClient, result] at called
        cases called

/-- A coding declared after an empty field, and a body cut short. -/
def laterCoding : Bytes := text "POST / HTTP/1.1\nTransfer-Encoding:\nTransfer-Encoding: chunked\n\n"
def cutBody : Bytes := text "POST / HTTP/1.1\nContent-Length: 5\n\nab"

theorem handled_of (stream : Bytes) (hdrEnd : Nat) (req : HttpRequest) (ends : blankLineEnd stream = some hdrEnd)
    (within : hdrEnd ≤ kHeaderReadCap) (called : served [] stream true hdrEnd = .handler req) :
    handleClient [] ⟨stream, [], true⟩ = .handler req := by
  have ends' : HeadEnds stream hdrEnd := (blankLineEnd_iff _ _).mp ends
  obtain ⟨read, rest, found⟩ : ∃ read rest, readUntilHeaders ⟨stream, [], true⟩ [] = .found hdrEnd read rest :=
    readUntilHeaders_within ends' within
  rw [handleClient_found [] found]
  exact called

theorem not_framed : ¬Framed [] ⟨laterCoding, [], true⟩ ∧ ¬Framed [] ⟨cutBody, [], true⟩ := by
  constructor
  · intro framed
    have called := handled_of laterCoding 63
      { method := text "POST", path := text "/", query := [], peer := [],
        headers := [(text "Transfer-Encoding", []), (text "Transfer-Encoding", text "chunked")], body := [] }
      rfl (by decide) rfl
    have chunked := (framed _ called).1 (text "chunked") (by decide)
    cases chunked
  · intro framed
    have called := handled_of cutBody 35
      { method := text "POST", path := text "/", query := [], peer := [],
        headers := [(text "Content-Length", text "5")], body := text "ab" } rfl (by decide) rfl
    obtain ⟨_, n, _, declares, hdrEnd, _, whole, body⟩ := framed _ called
    have five : digitsValue (text "5") = n := (declares.1 (text "5") (by decide)).2
    have all : hdrEnd + n ≤ cutBody.length := whole
    have length : (text "ab").length = min n (cutBody.length - hdrEnd) := by
      rw [← List.length_drop, ← List.length_take]
      exact congrArg List.length body
    have two : (text "ab").length = 2 := rfl
    have value : digitsValue (text "5") = 5 := rfl
    omega

end Budyk.Proof
