import Scim.Number.Binary64

/-!
# `Scim.Json.Basic`: JSON values

Numbers are integers or binary64 numbers, and the two are kept apart: `1` and `1.0` are different
values. The entries of an object have an order, which is the order in which they are written.

A decoder goes down from a value to its parts. `Json.size` counts the values in a value, so every
part is smaller than the whole: elements (`size_le_sizeAll`), entries (`size_le_sizeEntries`), and
what `Json.field?` finds (`size_lt_of_field?`). `field?` looks for a field in an object by its name
and in an array by its place, as both forms are accepted.
-/

set_option autoImplicit false

namespace Scim

/-- A JSON value. -/
inductive Json where
  | null
  | bool (value : Bool)
  | int (value : Int)
  | float (value : Number.Binary64)
  | string (text : String)
  | array (elements : List Json)
  | object (entries : List (String × Json))
  deriving Repr

namespace Json

/-- A text, or `null` where there is none. -/
def ofOption : Option String → Json
  | some text => .string text
  | none => .null

mutual
/-- The number of values in a JSON value, itself included. -/
def size : Json → Nat
  | .null | .bool _ | .int _ | .float _ | .string _ => 1
  | .array elements => 1 + sizeAll elements
  | .object entries => 1 + sizeEntries entries

/-- The number of values in the elements of an array. -/
def sizeAll : List Json → Nat
  | [] => 0
  | element :: elements => size element + sizeAll elements

/-- The number of values in the entries of an object. -/
def sizeEntries : List (String × Json) → Nat
  | [] => 0
  | (_, value) :: entries => size value + sizeEntries entries
end

/-- Every element of an array is no larger than all of them together, which is why decoding an array
ends. -/
theorem size_le_sizeAll {elements : List Json} {element : Json} (h : element ∈ elements) :
    element.size ≤ sizeAll elements := by
  induction elements with
  | nil => simp at h
  | cons first rest ih =>
    rcases List.mem_cons.mp h with rfl | h
    · simp only [sizeAll]; omega
    · have := ih h
      simp only [sizeAll]; omega

/-- Every value of an object is no larger than all its entries together. -/
theorem size_le_sizeEntries {entries : List (String × Json)} {entry : String × Json}
    (h : entry ∈ entries) : entry.2.size ≤ sizeEntries entries := by
  induction entries with
  | nil => simp at h
  | cons first rest ih =>
    rcases List.mem_cons.mp h with rfl | h
    · simp only [sizeEntries]; omega
    · have := ih h
      simp only [sizeEntries]; omega

/-- The part of a value that holds one of its fields: the entry of that name of an object, or the
element at that index of a list. -/
def field? (index : Nat) (name : String) : Json → Option Json
  | .object entries => entries.lookup name
  | .array elements => elements[index]?
  | _ => none

/-- An entry that is found by its name is one of the entries. -/
theorem mem_of_lookup {entries : List (String × Json)} {name : String} {value : Json}
    (h : entries.lookup name = some value) : (name, value) ∈ entries := by
  induction entries with
  | nil => simp at h
  | cons entry rest ih =>
    obtain ⟨name', value'⟩ := entry
    rw [List.lookup_cons] at h
    split at h
    · next heq =>
      simp only [Option.some.injEq] at h
      subst h
      simp [eq_of_beq heq]
    · exact List.mem_cons_of_mem _ (ih h)

/-- A field is smaller than the value it is in. Decoders that go down by fields end because of this.
-/
theorem size_lt_of_field? {index : Nat} {name : String} {json value : Json}
    (h : json.field? index name = some value) : value.size < json.size := by
  unfold field? at h
  split at h
  · have := size_le_sizeEntries (mem_of_lookup h)
    simp only [size] at this ⊢
    omega
  · have := size_le_sizeAll (List.mem_of_getElem? h)
    simp only [size]
    omega
  · contradiction

end Json

end Scim
