import Scim.Json.Decode
import Scim.Proofs.Node.WellFormed
import Scim.Proofs.Number.Text

/-!
# `Scim.Proofs.Json.RoundTrip`: a tree is decoded from its JSON

Three things are `null` in JSON: the missing literal of `pr`, the literal `null`, and a float that
is not finite. The operator tells the first from the others, so all that is lost are the floats that
are not finite. `Node.mapValues` with `Value.inJson` is what is left of a tree, and nothing is lost
if every float is finite (`Node.FloatsFinite.mapValues_inJson`).

Decoding runs the constructors again. There is one lemma for each decoder, which says what it makes
of the fields that were written, whatever other entries stand beside them (`Holds`):

* `decodePath_of_holds` and `decodeComparison_of_holds` for the leaves. `decodeOption_literal` is
  about the literal, which is read as `null` where it was not kept.
* `decodeInner_of_lookup`, `decodeTrees_map`, `decodeOperands_of_lookup` and
  `decodeValuePath_of_holds` for what is around other trees, given that these are decoded.
* `decodeNodeIn_toJson` is the induction over the tree. In a connective that is well formed no
  operand is spliced, so it comes back as it was.

`decode_toJson` is the result for trees and for path expressions.
-/

set_option autoImplicit false

namespace Scim

/-! ### What JSON keeps -/

/-- What is left of a literal in JSON. -/
def Value.inJson : Value → Value
  | .float x => if x.isFinite then .float x else .null
  | v => v

/-- The comparison with another literal, if it has one. -/
def Comparison.mapValue (f : Value → Value) (c : Comparison) : Comparison :=
  { c with value? := c.value?.map f, value?_isSome := by rw [Option.isSome_map, c.value?_isSome] }

namespace Node

mutual
/-- The tree with other literals in its comparisons, those in value paths included. -/
def mapValues (f : Value → Value) : Node → Node
  | .attribute path => .attribute path
  | .comparison c => .comparison (c.mapValue f)
  | .negation inner => .negation (mapValues f inner)
  | .connective operator operands => .connective operator (mapValuesAll f operands)
  | .valuePath path predicate subAttribute? => .valuePath path (mapValues f predicate) subAttribute?

/-- The trees of a list with other literals. -/
def mapValuesAll (f : Value → Value) : List Node → List Node
  | [] => []
  | node :: nodes => mapValues f node :: mapValuesAll f nodes
end

/-- The trees of a list have their literals changed one by one. -/
@[simp]
theorem mapValuesAll_eq_map (f : Value → Value) (nodes : List Node) :
    mapValuesAll f nodes = nodes.map (mapValues f) := by
  induction nodes with
  | nil => rfl
  | cons node nodes ih => rw [mapValuesAll, ih, List.map_cons]

/-- The trees of a list are written one by one. -/
@[simp]
theorem toJsonAll_eq_map (nodes : List Node) : toJsonAll nodes = nodes.map toJson := by
  induction nodes with
  | nil => rfl
  | cons node nodes ih => rw [toJsonAll, ih, List.map_cons]

/-- Other literals leave a connective one of its kind. -/
theorem logicalOperator?_mapValues (f : Value → Value) (n : Node) :
    (n.mapValues f).logicalOperator? = n.logicalOperator? := by
  cases n <;> rfl

/-- A tree whose literals all stay the same stays the same. -/
theorem mapValues_eq_self {f : Value → Value} {n : Node}
    (h : ∀ c ∈ n.comparisons, ∀ v ∈ c.value?, f v = v) : n.mapValues f = n := by
  induction n with
  | attributePath path => rfl
  | comparison c =>
      have hc := h c (mem_comparisons_iff.mpr List.mem_cons_self)
      obtain ⟨path, operator, value?, hvalue?⟩ := c
      have hvalue : value?.map f = value? := by
        cases value? with
        | none => rfl
        | some v => exact congrArg some (hc v rfl)
      simp [mapValues, Comparison.mapValue, hvalue]
  | negation inner ih => rw [mapValues, ih h]
  | connective operator operands ih =>
      rw [mapValues, mapValuesAll_eq_map]
      have hmap : operands.map (mapValues f) = operands := by
        refine (List.map_congr_left fun o ho => ih o ho fun c hc => ?_).trans (List.map_id _)
        exact h c (by rw [comparisons_connective]; exact List.mem_flatMap.mpr ⟨o, ho, hc⟩)
      rw [hmap]
  | valuePath path predicate subAttribute? ih => rw [mapValues, ih h]

end Node

/-- The path expression with other literals in its predicate. -/
def PathExpression.mapValues (f : Value → Value) : PathExpression → PathExpression
  | .attribute path => .attribute path
  | .value v => .value { v with predicate := v.predicate.mapValues f }

/-- Every float in a tree is finite. -/
def Node.FloatsFinite (n : Node) : Prop :=
  ∀ c ∈ n.comparisons, ∀ x, c.value? = some (.float x) → x.isFinite = true

/-- A tree whose floats are finite is kept in JSON as it is. -/
theorem Node.FloatsFinite.mapValues_inJson {n : Node} (h : n.FloatsFinite) :
    n.mapValues Value.inJson = n := by
  refine mapValues_eq_self fun c hc v hv => ?_
  cases v with
  | float x => simp [Value.inJson, h c hc x hv]
  | _ => rfl

/-- So is a path expression. -/
theorem PathExpression.mapValues_inJson {e : PathExpression} (h : e.toNode.FloatsFinite) :
    e.mapValues Value.inJson = e := by
  match e, h with
  | .attribute path, _ => rfl
  | .value v, h =>
      have hpredicate : v.predicate.FloatsFinite := h
      rw [PathExpression.mapValues, hpredicate.mapValues_inJson]

namespace Json

/-! ### Fields -/

/-- A value that is there is handed on. -/
theorem ok_bind {α β : Type} (a : α) (f : α → Decoded β) : (Except.ok a >>= f) = f a :=
  rfl

/-- An object in which all of these fields are found. -/
def Holds (entries fields : List (String × Json)) : Prop :=
  ∀ field ∈ fields, entries.lookup field.1 = some field.2

/-- In entries of different names, each of them is found by its name. -/
theorem holds_of_subset {entries fields : List (String × Json)}
    (hnodup : (entries.map Prod.fst).Nodup) (h : fields ⊆ entries) : Holds entries fields := by
  rintro ⟨name, value⟩ hfield
  obtain ⟨before, after, rfl⟩ := List.append_of_mem (h hfield)
  rw [List.map_append, List.map_cons, List.nodup_append] at hnodup
  refine List.lookup_eq_some_iff.mpr ⟨before, after, rfl, fun entry hentry => ?_⟩
  -- No entry in front of the field has its name.
  have hne := hnodup.2.2 entry.1 (List.mem_map_of_mem hentry) name List.mem_cons_self
  simpa using hne.symm

/-- A field that an object has is found in it. -/
theorem Holds.field? {entries fields : List (String × Json)} (h : Holds entries fields)
    {name : String} {value : Json} (hfield : (name, value) ∈ fields) (index : Nat) :
    (Json.object entries).field? index name = some value :=
  h _ hfield

/-- Fields are found behind the type. -/
theorem holds_typed (name : String) {fields : List (String × Json)}
    (hnodup : ("type" :: fields.map Prod.fst).Nodup) :
    Holds (Node.typeEntry name :: fields) fields :=
  holds_of_subset hnodup (List.subset_cons_self _ _)

/-- A text that may be missing is decoded, missing or not. -/
theorem decodeOption_ofOption (text? : Option String) :
    decodeOption decodeString (.ofOption text?) = .ok text? := by
  cases text? <;> rfl

/-- Texts are decoded one by one. -/
theorem mapM_decodeString (texts : List String) :
    (texts.map Json.string).mapM decodeString = .ok texts := by
  induction texts with
  | nil => rfl
  | cons text texts ih =>
      rw [List.map_cons, List.mapM_cons, ih]
      rfl

/-- An attribute path is decoded from its three fields. -/
theorem decodePath_of_holds {entries : List (String × Json)} {p : AttributePath}
    (h : Holds entries p.fields) : decodePath (.object entries) = .ok p := by
  have hschema : (Json.object entries).field? 0 "schema" = some (.ofOption p.schema) :=
    h.field? (by simp [AttributePath.fields]) 0
  have hnames : (Json.object entries).field? 1 "names" = some (.array (p.names.map .string)) :=
    h.field? (by simp [AttributePath.fields]) 1
  unfold decodePath
  rw [hschema, hnames, decodeField?, decodeField?, decodeOption_ofOption, decodeList,
    mapM_decodeString]
  rfl

/-- So it is decoded from its own JSON. -/
theorem decodePath_toJson (p : AttributePath) : decodePath p.toJson = .ok p :=
  decodePath_of_holds (holds_of_subset (by simp [AttributePath.fields]) (List.Subset.refl _))

/-! ### Comparisons -/

/-- A literal is read again, and where none is read, `null` is what was written. -/
theorem decodeOption_toJson (v : Value) :
    ∃ v?, decodeOption decodeValue v.toJson = .ok v? ∧ v?.getD .null = v.inJson := by
  cases v with
  | string text => exact ⟨some (.string text), rfl, rfl⟩
  | integer n =>
      refine ⟨some (.integer n), ?_, rfl⟩
      rw [Value.toJson, decodeOption, decodeValue, Value.ofInt, Number.toInt64?_toInt]
      · rfl
      · simp
  | float x =>
      rw [Value.toJson, Value.inJson]
      split
      · exact ⟨some (.float x), rfl, rfl⟩
      · exact ⟨none, rfl, rfl⟩
  | boolean b => exact ⟨some (.boolean b), rfl, rfl⟩
  | null => exact ⟨none, rfl, rfl⟩

/-- An operator is decoded from its keyword, in a tree and outside of one. -/
theorem decodeKeyword_keyword (inTree : Bool) (operator : Operator) :
    decodeKeyword inTree Operator.all Operator.keyword (.string operator.keyword)
      = .ok operator := by
  cases operator <;> rfl

/-- The literal of a comparison, which has one exactly if the operator takes one. -/
theorem decodeOption_literal (c : Comparison) :
    ∃ v?, decodeOption decodeValue ((c.value?.map Value.toJson).getD .null) = .ok v? ∧
      Comparison.make c.path c.operator v? = c.mapValue Value.inJson := by
  obtain ⟨path, operator, value?, hvalue?⟩ := c
  cases value? with
  | none =>
      have hunary : operator.isUnary = true := by simpa using hvalue?
      refine ⟨none, rfl, ?_⟩
      simp [Comparison.make, Comparison.mapValue, Comparison.literalFor, hunary]
  | some v =>
      have hbinary : operator.isUnary = false := by simpa using hvalue?
      obtain ⟨v?, hdecode, hvalue⟩ := decodeOption_toJson v
      refine ⟨v?, hdecode, ?_⟩
      simp [Comparison.make, Comparison.mapValue, Comparison.literalFor, hbinary, hvalue]

/-- A comparison is decoded from its fields to what JSON keeps of it. -/
theorem decodeComparison_of_holds {entries : List (String × Json)} {c : Comparison}
    (h : Holds entries c.fields) (inTree : Bool) :
    decodeComparison inTree (.object entries) = .ok (c.mapValue Value.inJson) := by
  have hpath : (Json.object entries).field? 0 "attribute_path" = some c.path.toJson :=
    h.field? (by simp [Comparison.fields]) 0
  have hoperator : (Json.object entries).field? 1 "operator" = some (.string c.operator.keyword) :=
    h.field? (by simp [Comparison.fields]) 1
  have hvalue : (Json.object entries).field? 2 "value"
      = some ((c.value?.map Value.toJson).getD .null) :=
    h.field? (by simp [Comparison.fields]) 2
  obtain ⟨v?, hdecode, hmake⟩ := decodeOption_literal c
  unfold decodeComparison
  rw [hpath, hoperator, hvalue, decodeField?, decodeField?, decodeField?, decodePath_toJson,
    decodeKeyword_keyword, hdecode, ← hmake]
  rfl

/-! ### Trees -/

section
variable {entries : List (String × Json)} {decode : Smaller (.object entries)}

/-- A tree is decoded from the field that it is found in. -/
theorem decodeTree?_of_lookup {part : Json} {n : Node}
    (h : ∀ hpart, decode part hpart = .ok n) (index : Nat) {name : String}
    (hlookup : entries.lookup name = some part) :
    decodeTree? (.object entries) decode index name = .ok (some n) := by
  unfold decodeTree?
  split
  · next part' hfield =>
      have hpart : part' = part := Option.some.inj (hfield.symm.trans hlookup)
      subst hpart
      rw [h]
      rfl
  · next hfield =>
      have hnone : entries.lookup name = none := hfield
      rw [hlookup] at hnone
      contradiction

/-- The tree in a negation is decoded from its field. -/
theorem decodeInner_of_lookup {inner : Json} {n : Node}
    (h : ∀ hpart, decode inner hpart = .ok n) (hlookup : entries.lookup "inner" = some inner) :
    decodeInner (.object entries) decode = .ok n := by
  unfold decodeInner
  rw [decodeTree?_of_lookup h 0 hlookup]
  rfl

/-- Trees in a row are decoded if each of them is. -/
theorem decodeTrees_map {json : Json} {decode : Smaller json} {f : Node → Json} {g : Node → Node}
    {nodes : List Node} (h : ∀ node ∈ nodes, ∀ hpart, decode (f node) hpart = .ok (g node))
    (hsize : sizeAll (nodes.map f) < json.size) :
    decodeTrees json decode (nodes.map f) hsize = .ok (nodes.map g) := by
  induction nodes with
  | nil => rfl
  | cons node nodes ih =>
      rw [List.forall_mem_cons] at h
      simp only [List.map_cons, decodeTrees]
      rw [h.1, ok_bind, ih h.2]
      rfl

/-- Two or more operands are decoded if each of them is. -/
theorem decodeOperands_of_lookup {f : Node → Json} {g : Node → Node} {operands : List Node}
    (h : ∀ operand ∈ operands, ∀ hpart, decode (f operand) hpart = .ok (g operand))
    (htwo : 2 ≤ operands.length)
    (hlookup : entries.lookup "children" = some (.array (operands.map f))) :
    decodeOperands (.object entries) decode = .ok (operands.map g) := by
  unfold decodeOperands
  dsimp only
  split
  · next parts hparts =>
      -- The entry is a list. The two other cases do not occur.
      have heq : parts = operands.map f := by
        have harray : some (Json.array parts) = some (.array (operands.map f)) :=
          hparts.symm.trans hlookup
        simpa using harray
      subst heq
      rw [decodeTrees_map h]
      have hlength : ¬ (operands.map g).length < 2 := by
        rw [List.length_map]
        omega
      simp only [Except.map, ok_bind, required, atMost, if_neg hlength]
      rfl
  · next part hpart hfield =>
      have hfield : entries.lookup "children" = some part := hfield
      rw [hlookup] at hfield
      exact absurd (Option.some.inj hfield).symm (hpart _)
  · next hfield =>
      have hfield : entries.lookup "children" = none := hfield
      rw [hlookup] at hfield
      contradiction

/-- A value path is decoded from its fields if its predicate is. -/
theorem decodeValuePath_of_holds {path : AttributePath} {predicate : Json} {n : Node}
    {subAttribute? : Option String} (h : ∀ hpart, decode predicate hpart = .ok n)
    (hfields : Holds entries (ValuePath.fieldsOf path predicate subAttribute?)) :
    decodeValuePath (.object entries) decode = .ok ⟨path, n, subAttribute?⟩ := by
  have hpath : (Json.object entries).field? 0 "attribute_path" = some path.toJson :=
    hfields.field? (by simp [ValuePath.fieldsOf]) 0
  have hpredicate : entries.lookup "predicate" = some predicate :=
    hfields ("predicate", predicate) (by simp [ValuePath.fieldsOf])
  have hsub : (Json.object entries).field? 2 "sub_attribute" = some (.ofOption subAttribute?) :=
    hfields.field? (by simp [ValuePath.fieldsOf]) 2
  unfold decodeValuePath
  rw [hpath, hsub, decodeTree?_of_lookup h 1 hpredicate, decodeField?, decodeField?,
    decodePath_toJson, decodeOption_ofOption]
  rfl

end

/-- A tree that is well formed is decoded to what JSON keeps of it. -/
theorem decodeNodeIn_toJson {n : Node} (h : n.WellFormed) (nested : Bool) :
    decodeNodeIn nested n.toJson = .ok (n.mapValues Value.inJson) := by
  induction n generalizing nested with
  | attributePath path =>
      rw [Node.toJson, decodeNodeIn, tagged]
      -- The type is the first entry, and it tells how to go on.
      show (decodePath _ >>= _) = _
      rw [decodePath_of_holds (holds_typed _ (by simp [AttributePath.fields]))]
      rfl
  | comparison c =>
      rw [Node.toJson, decodeNodeIn, tagged]
      show (decodeComparison _ _ >>= _) = _
      rw [decodeComparison_of_holds (holds_typed _ (by simp [Comparison.fields]))]
      rfl
  | negation inner ih =>
      have hinner := ih (Node.wellFormed_negation_iff.mp h) true
      rw [Node.toJson, decodeNodeIn, tagged]
      show (decodeInner _ _ >>= _) = _
      rw [decodeInner_of_lookup (fun _ => hinner) rfl]
      rfl
  | connective operator operands ih =>
      obtain ⟨htwo, hoperands⟩ := Node.wellFormed_connective_iff.mp h
      have hdecode : ∀ o ∈ operands, decodeNodeIn true o.toJson = .ok (o.mapValues Value.inJson) :=
        fun o ho => ih o ho (hoperands o ho).2 true
      -- The decoded operands are no connectives of this kind either, so none is spliced.
      have hflat : Node.flattened operator (operands.map (Node.mapValues Value.inJson))
          = .connective operator (operands.map (Node.mapValues Value.inJson)) := by
        refine Node.flattened_of_ne fun o ho => ?_
        obtain ⟨operand, hoperand, rfl⟩ := List.mem_map.mp ho
        rw [Node.logicalOperator?_mapValues]
        exact (hoperands operand hoperand).1
      rw [Node.toJson, Node.toJsonAll_eq_map, decodeNodeIn, tagged, Node.mapValues,
        Node.mapValuesAll_eq_map, ← hflat]
      cases operator with
      | and =>
          show (decodeOperands _ _ >>= _) = _
          rw [decodeOperands_of_lookup (fun o ho _ => hdecode o ho) htwo rfl]
          rfl
      | or =>
          show (decodeOperands _ _ >>= _) = _
          rw [decodeOperands_of_lookup (fun o ho _ => hdecode o ho) htwo rfl]
          rfl
  | valuePath path predicate subAttribute? ih =>
      have hpredicate := ih (Node.wellFormed_valuePath_iff.mp h) true
      rw [Node.toJson, decodeNodeIn, tagged]
      show (decodeValuePath _ _ >>= _) = _
      rw [decodeValuePath_of_holds (fun _ => hpredicate)
        (holds_typed _ (by simp [ValuePath.fieldsOf]))]
      rfl

/-- A path expression is decoded to what JSON keeps of it. -/
theorem decodePathExpression_toJson {e : PathExpression} (h : e.toNode.WellFormed) :
    decodePathExpression e.toJson = .ok (e.mapValues Value.inJson) := by
  match e, h with
  | .attribute path, _ =>
      rw [PathExpression.toJson, decodePathExpression, tagged]
      show ((decodePath _) >>= _) = _
      rw [decodePath_of_holds (holds_typed _ (by simp [AttributePath.fields]))]
      rfl
  | .value v, h =>
      have hpredicate := decodeNodeIn_toJson (Node.wellFormed_valuePath_iff.mp h) true
      rw [PathExpression.toJson, decodePathExpression, tagged]
      show ((decodeValuePath _ _) >>= _) = _
      rw [decodeValuePath_of_holds (fun _ => hpredicate)
        (holds_typed _ (by simp [ValuePath.fieldsOf]))]
      rfl

end Json

/-- A tree that is well formed is decoded from its JSON, with `null` for every float that is not
finite, and so it is the same tree if all floats are finite. The same goes for path expressions. -/
theorem decode_toJson :
    (∀ n : Node, n.WellFormed →
      Json.decodeNode n.toJson = .ok (n.mapValues Value.inJson) ∧
      (n.FloatsFinite → Json.decodeNode n.toJson = .ok n)) ∧
    ∀ e : PathExpression, e.toNode.WellFormed →
      Json.decodePathExpression e.toJson = .ok (e.mapValues Value.inJson) ∧
      (e.toNode.FloatsFinite → Json.decodePathExpression e.toJson = .ok e) := by
  constructor
  · intro n h
    have hdecode := Json.decodeNodeIn_toJson h false
    refine ⟨hdecode, fun hfinite => ?_⟩
    rw [hfinite.mapValues_inJson] at hdecode
    exact hdecode
  · intro e h
    have hdecode := Json.decodePathExpression_toJson h
    refine ⟨hdecode, fun hfinite => ?_⟩
    rw [PathExpression.mapValues_inJson hfinite] at hdecode
    exact hdecode

/-- A tree with `null`, an infinite float and an integer, and a path with a sub-attribute and a
float without a fraction. -/
theorem decode_toJson_infinite :
    Json.decodeNode (Node.toJson (.connective .or [
        .valuePath (.ofSingle "a") (.connective .and [
          .comparison (.make ⟨none, "a", ["b"]⟩ .eq (some .null)),
          .comparison (.make ⟨none, "a", ["c"]⟩ .lt (some (.float ⟨0x7FF0000000000000⟩)))]) none,
        .negation (.comparison (.make (.ofSingle "d") .eq (some (.integer 1)))),
        .comparison (.present (.ofSingle "d"))]))
      = .ok (.connective .or [
        .valuePath (.ofSingle "a") (.connective .and [
          .comparison (.make ⟨none, "a", ["b"]⟩ .eq (some .null)),
          .comparison (.make ⟨none, "a", ["c"]⟩ .lt (some .null))]) none,
        .negation (.comparison (.make (.ofSingle "d") .eq (some (.integer 1)))),
        .comparison (.present (.ofSingle "d"))]) ∧
    Json.decodePathExpression (PathExpression.toJson (.value ⟨⟨none, "a", ["v"]⟩,
        .comparison (.make ⟨none, "a", ["b"]⟩ .ge (some (.float ⟨0x3FF0000000000000⟩))), some "v"⟩))
      = .ok (.value ⟨⟨none, "a", ["v"]⟩,
        .comparison (.make ⟨none, "a", ["b"]⟩ .ge (some (.float ⟨0x3FF0000000000000⟩))),
          some "v"⟩) := by
  refine ⟨(decode_toJson.1 _ ?_).1.trans ?_, (decode_toJson.2 _ ?_).2 ?_⟩
  · simp [Node.wellFormed_connective_iff, Node.wellFormed_valuePath_iff,
      Node.wellFormed_negation_iff, Node.wellFormed_comparison, Node.logicalOperator?]
  · decide +kernel
  · exact Node.wellFormed_valuePath_iff.mpr (Node.wellFormed_comparison _)
  · intro c hc x hx
    rw [List.mem_singleton.mp hc] at hx
    cases hx
    decide

end Scim
