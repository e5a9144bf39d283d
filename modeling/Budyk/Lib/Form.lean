import Budyk.Lib.Json

/-! `application/x-www-form-urlencoded`: the fields a receiver reads out of a body. -/

namespace Budyk.Lib

abbrev ampersand : UInt8 := 38
abbrev equals : UInt8 := 61
abbrev percent : UInt8 := 37

/-- `%` and two hex digits are a byte; a `%` without them stands for itself. -/
def percentDecode : List UInt8 → List UInt8
  | [] => []
  | b :: rest =>
      if b ≠ percent then b :: percentDecode rest
      else match rest with
        | h :: l :: after =>
            match hexNumber [h, l] with
            | some n => UInt8.ofNat n :: percentDecode after
            | none => b :: percentDecode (h :: l :: after)
        | short => b :: percentDecode short

def formText (s : List UInt8) : List UInt8 := percentDecode (s.map fun b => if b = 43 then 32 else b)

def formField (s : List UInt8) : List UInt8 × List UInt8 :=
  (formText (s.takeWhile (· ≠ equals)), formText (s.dropWhile (· ≠ equals)).tail)

def formFields (body : List UInt8) : List (List UInt8 × List UInt8) :=
  ((body.splitOn ampersand).filter (· ≠ [])).map formField

theorem formField_eq {name : List UInt8} (value : List UInt8) (noEquals : equals ∉ name) :
    formField (name ++ equals :: value) = (formText name, formText value) := by
  have passes : ∀ b ∈ name, decide (b ≠ equals) = true := by
    intro b held
    simp only [ne_eq, decide_not, Bool.not_eq_true', decide_eq_false_iff_not]
    rintro rfl
    exact noEquals held
  rw [formField, List.takeWhile_append_of_pos passes, List.dropWhile_append_of_pos passes]
  simp

/-- Fields joined by `&` are read one by one. -/
theorem formFields_join {fields : List (List UInt8 × List UInt8)} (present : fields ≠ [])
    (clean : ∀ field ∈ fields, equals ∉ field.1 ∧ ampersand ∉ field.1 ++ equals :: field.2) :
    formFields ([ampersand].intercalate (fields.map fun field => field.1 ++ equals :: field.2)) =
      fields.map fun field => (formText field.1, formText field.2) := by
  let parts := fields.map fun field => field.1 ++ equals :: field.2
  have split : ([ampersand].intercalate parts).splitOn ampersand = parts := by
    apply List.splitOn_intercalate
    · intro l held
      obtain ⟨field, among, rfl⟩ := List.mem_map.mp held
      exact (clean field among).2
    · simpa [parts] using present
  have all : ∀ l ∈ parts, decide (l ≠ []) = true := by
    intro l held
    obtain ⟨field, _, rfl⟩ := List.mem_map.mp held
    simp
  rw [formFields, split, List.filter_eq_self.mpr all, List.map_map]
  apply List.map_congr_left
  intro field among
  exact formField_eq field.2 (clean field among).1

theorem percentDecode_plain {b : UInt8} (noPercent : b ≠ percent) (rest : List UInt8) :
    percentDecode (b :: rest) = b :: percentDecode rest := by
  rw [percentDecode.eq_def]
  simp only [ne_eq, noPercent, not_false_eq_true, if_true]

theorem percentDecode_hex {h l : UInt8} {n : Nat} (number : hexNumber [h, l] = some n) (rest : List UInt8) :
    percentDecode (percent :: h :: l :: rest) = UInt8.ofNat n :: percentDecode rest := by
  rw [percentDecode.eq_def]
  simp only [ne_eq, not_true_eq_false, if_false, number]

end Budyk.Lib
