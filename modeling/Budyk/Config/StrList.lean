import Budyk.Rules.Watch

/-! A list of strings in the configuration, and the allowlists among them (`config/config.cpp`, `util/yaml_dom.cpp`). -/

namespace Budyk.Config
open Lib Rules

inductive YamlStyle
  | plain
  | singleQuoted
  | doubleQuoted
  | literal
  | folded
  deriving DecidableEq

/-- A node of a document names others by their place in it, from 1. -/
inductive YamlNode
  | scalar (value : List UInt8) (style : YamlStyle)
  | sequence (items : List Nat)
  | mapping (pairs : List (Nat × Nat))
  deriving DecidableEq

abbrev YamlDocument := List YamlNode

def getNode (d : YamlDocument) (index : Nat) : Option YamlNode := if index = 0 then none else d[index - 1]?

def yamlScalar : Option YamlNode → Option (List UInt8)
  | some (.scalar value _) => some (cString value)
  | _ => none

def yamlFindKey (d : YamlDocument) (map : Option YamlNode) (key : List UInt8) : Option YamlNode :=
  match map with
  | some (.mapping pairs) =>
      match pairs.find? fun pair => yamlScalar (getNode d pair.1) = some key with
      | some pair => getNode d pair.2
      | none => none
  | _ => none

def yamlNull : Option YamlNode → Bool
  | some (.scalar value style) =>
      let v := cString value
      style = .plain && (v = [] || v = text "~" || sameIgnoringCase v (text "null"))
  | _ => false

def kMatchesNothing : List UInt8 := text "(no usable entry in the allowlist)"

/-- The list, and what is said of it on stderr. -/
structure StrList where
  dst : List (List UInt8)
  reports : List (List UInt8)

def notAString (path : List UInt8) (index : Nat) : List UInt8 :=
  text "budyk config: " ++ path ++ text "[" ++ decimal index ++ text "]: not a string; left out\n"

/-- The loop over a sequence, with whether an item was dropped. -/
def readItems (d : YamlDocument) (path : List UInt8) : List Nat → Nat → StrList × Bool
  | [], _ => (⟨[], []⟩, false)
  | item :: items, index =>
      let (rest, dropped) := readItems d path items (index + 1)
      match yamlScalar (getNode d item) with
      | some s => ({ rest with dst := s :: rest.dst }, dropped)
      | none => ({ rest with reports := notAString path index :: rest.reports }, true)

/-- Nothing left of an allowlist that was written. -/
def closeList (path : List UInt8) (allowlist dropped : Bool) (list : StrList) : StrList :=
  if allowlist && dropped && list.dst.isEmpty then
    ⟨[kMatchesNothing], list.reports ++
      [text "budyk config: " ++ path ++ text ": no usable entry; it allows nothing (an empty list, [], allows any)\n"]⟩
  else list

def applyStrList (d : YamlDocument) (m : Option YamlNode) (key : List UInt8) (dst : List (List UInt8)) (path : List UInt8)
    (allowlist : Bool) : StrList :=
  match yamlFindKey d m key with
  | none => ⟨dst, []⟩
  | some seq =>
      if yamlNull seq then
        if allowlist then
          ⟨[kMatchesNothing], [text "budyk config: " ++ path ++ text (": empty (every entry commented out?); " ++
            "it allows nothing (an empty list, [], allows any)\n")]⟩
        else ⟨dst, []⟩
      else match seq with
        | .scalar value _ => ⟨[cString value], []⟩
        | .mapping _ =>
            closeList path allowlist true
              ⟨dst, [text "budyk config: " ++ path ++ text ": a mapping where a list belongs; ignored\n"]⟩
        | .sequence items => closeList path allowlist (readItems d path items 0).2 (readItems d path items 0).1

end Budyk.Config
