import Scim.Node.Render

/-!
# `Scim.Proofs.Node.SubAttributes`: sub-attributes of the selected members

A value path does not hold its collection. It holds the path that is addressed, which goes on to the
sub-attribute if there is one, and the collection is what is left of it without that name. Another
sub-attribute takes the place of the one before: a name is dropped and a name is appended.

`collection_withSubAttribute` is the step: the name that is dropped is always the one that was
appended, because a path can be taken apart behind its last name (`parent_join`). From it follow,
for any value path:

* `withSubAttribute_withSubAttribute`: a sub-attribute forgets the one before it.
* `foldl_withSubAttribute`: the last one of a sequence is all that counts, by induction on the
  sequence with the value path at its start left open.
* `render_withSubAttribute`: it is written behind the closing bracket.

`foldl_withSubAttribute_make` states this for a value path that starts from a collection and a
predicate, and says of each part of it what it is after the sequence.
-/

set_option autoImplicit false

namespace Scim

namespace AttributePath

/-- Below a path there is always a name to take away again. -/
@[simp]
theorem parent_join (p : AttributePath) (name : String) : (p.join name).parent = p := by
  simp [join, parent]

/-- Joining a name appends it. -/
@[simp]
theorem names_join (p : AttributePath) (name : String) : (p.join name).names = p.names ++ [name] :=
  rfl

/-- The names above the last one are those of a path. -/
theorem ofNames?_dropLast_join (p : AttributePath) (name : String) :
    ofNames? p.schema (p.join name).names.dropLast = some p := by
  rw [names_join, List.dropLast_concat]
  rfl

/-- A path is longer by the name that is joined to it. -/
theorem length_join (p : AttributePath) (name : String) : (p.join name).length = p.length + 1 := by
  simp [length]

end AttributePath

namespace ValuePath

/-- A sub-attribute leaves the collection as it is. -/
@[simp]
theorem collection_withSubAttribute (v : ValuePath) (name : String) :
    (v.withSubAttribute name).collection = v.collection :=
  AttributePath.parent_join v.collection name

/-- A sub-attribute takes the place of the one before. -/
theorem withSubAttribute_withSubAttribute (v : ValuePath) (name name' : String) :
    (v.withSubAttribute name).withSubAttribute name' = v.withSubAttribute name' := by
  show (⟨(v.withSubAttribute name).collection.join name', v.predicate, some name'⟩ : ValuePath) = _
  rw [collection_withSubAttribute]
  rfl

/-- The last one of a sequence of sub-attributes is the one that is addressed. -/
theorem foldl_withSubAttribute (v : ValuePath) (names : List String) (last : String) :
    (names ++ [last]).foldl withSubAttribute v = v.withSubAttribute last := by
  induction names generalizing v with
  | nil => rfl
  | cons name names ih =>
      rw [List.cons_append, List.foldl_cons, ih, withSubAttribute_withSubAttribute]

end ValuePath

/-- The collection is written, and the sub-attribute behind the closing bracket. -/
theorem render_withSubAttribute (collection : AttributePath) (predicate : Node) (name : String) :
    ((ValuePath.make collection predicate).withSubAttribute name).toNode.render
      = (ValuePath.make collection predicate).toNode.render ++ "." ++ name := by
  have hcollection : ValuePath.collectionOf
      ((ValuePath.make collection predicate).withSubAttribute name).path (some name)
      = collection :=
    ValuePath.collection_withSubAttribute (.make collection predicate) name
  simp only [ValuePath.toNode, Node.render, Node.renderIn, ValuePath.withSubAttribute]
    at hcollection ⊢
  rw [hcollection]
  rfl

namespace ValuePath

/-- After any sequence of sub-attributes a value path has the collection and the predicate it was
made from, and it addresses the last sub-attribute below that collection, in its path and in its
text. There is a name above the sub-attribute, so that the names above it are a path, and this path
is the collection. -/
theorem foldl_withSubAttribute_make (collection : AttributePath) (predicate : Node)
    (names : List String) (last : String) :
    let made := make collection predicate
    let v := (names ++ [last]).foldl withSubAttribute made
    v.collection = collection ∧ v.path = collection.join last ∧ v.subAttribute? = some last ∧
      v.predicate = predicate ∧ v = made.withSubAttribute last ∧
      v.toNode.render = made.toNode.render ++ "." ++ last ∧
      (PathExpression.value v).render = (PathExpression.value made).render ++ "." ++ last ∧
      1 < v.path.length ∧
      AttributePath.ofNames? v.path.schema v.path.names.dropLast = some collection := by
  intro made v
  have hv : v = made.withSubAttribute last := foldl_withSubAttribute made names last
  have hrender := render_withSubAttribute collection predicate last
  have hlength : 1 < (collection.join last).length := by
    rw [AttributePath.length_join]
    exact Nat.succ_lt_succ (Nat.succ_pos _)
  rw [hv]
  exact ⟨collection_withSubAttribute made last, rfl, rfl, rfl, rfl, hrender, hrender, hlength,
    AttributePath.ofNames?_dropLast_join collection last⟩

-- The second sub-attribute is below the collection, not below the first one.
example : (["value", "display"].foldl withSubAttribute
    (make ⟨some "urn:x", "emails", []⟩ (.comparison (.present ⟨some "urn:x", "emails", ["type"]⟩)))
    ).toNode.render = "urn:x:emails[type pr].display" := by decide +kernel

end ValuePath

end Scim
