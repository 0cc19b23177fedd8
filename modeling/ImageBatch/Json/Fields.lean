import ImageBatch.Json.Basic
import ImageBatch.Sorted.Set

/-!
# Reading structures from JSON

A structure is an object of its fields, or the list of their values in order. Fields that it does
not know are passed over, and none that it knows may come twice. In a map a later entry takes the
place of an earlier one.
-/

namespace ImageBatch.Json

/-- The values of the fields that a structure knows, by name. -/
abbrev Known := List (String × Json)

/-- Takes the known fields out of an object; each may come once. -/
def pick (names : List String) : List (Option String × Json) → Known → Option Known
  | [], found => some found
  | (none, _) :: _, _ => none
  | (some name, x) :: fs, found =>
    if name ∈ names then
      if found.any (fun f => f.1 == name) then none else pick names fs ((name, x) :: found)
    else pick names fs found

/-- The known fields of a structure. -/
def known? (names : List String) : Json → Option Known
  | object fields => pick names fields []
  | list items => if items.length ≤ names.length then some (names.zip items) else none
  | _ => none

def required {α : Type} (k : Known) (name : String) (read : Json → Option α) : Option α :=
  (k.lookup name).bind read

/-- A field with a value to use when it is not there. -/
def withDefault {α : Type} (k : Known) (name : String) (default : α) (read : Json → Option α) :
    Option α :=
  match k.lookup name with
  | some x => read x
  | none => some default

/-- Null, or a value. -/
def nullable {α : Type} (read : Json → Option α) : Json → Option (Option α)
  | null => some none
  | x => (read x).map some

def items? {α : Type} (read : Json → Option α) : Json → Option (List α)
  | list xs => xs.mapM read
  | _ => none

/-- A list of texts as a set. -/
def names? (j : Json) : Option NameSet := (items? text? j).map SortedSet.ofList

/-- A member of an enumeration: its label, or an object with the label as its one name. -/
def choice? {α : Type} (ofLabel? : String → Option α) : Json → Option α
  | text s => ofLabel? s
  | object [(some s, null)] => ofLabel? s
  | _ => none

/-- The entries of a map; the keys are read from their names. -/
def entries? {κ α : Type} (key : String → Option κ) (read : Json → Option α) :
    Json → Option (List (κ × α))
  | object fields => fields.mapM fun f => do
    let name ← f.1
    some (← key name, ← read f.2)
  | _ => none

end ImageBatch.Json
