import Mathlib.Data.List.Forall2
import Scim.Proofs.Json.RoundTrip
import Scim.Proofs.Obtainable

/-!
# `Scim.Proofs.Json.Drafts`: what decoding makes of the shape of a tree

A JSON value can have the shape of a tree and still be none: lists of names may be empty,
connectives may have any number of children, and children may be connectives of the same kind.
`Draft` is what such a value says, and `Draft.WrittenAs` how it says it. Entries may stand in any
order, others may stand beside them, and those that can be absent may be `null` as well.

There are two ways to say when a draft is a tree, and they agree (`Draft.isSome_build?_iff`):

* `Draft.build?` puts it together with the constructors of trees, from the leaves up.
* `Draft.Complete` says of the draft itself that every list of names has a name and every list of
  children two children or more. Children count before they are joined, as they are listed
  (`isSome_build?_connective_iff`).

Decoding does the same as building. `Decides` relates what is decoded to what is built: the tree, or
one of the two rules of the constructors where none is built. There is a lemma for each decoder,
from `decides_decodePath` to `decides_decodeValuePath`, and `decides_decodeNodeIn` is the induction
over the draft.

`decodeNode_of_writtenAs` is the result. A value of the shape of a tree is decoded exactly if its
draft is complete, to the tree that is built, and that tree is decoded from its own JSON again.
-/

set_option autoImplicit false

namespace Scim

open Number (Binary64)

/-! ### Drafts -/

/-- A JSON value that is neither an array nor an object. -/
inductive Scalar where
  | null
  | bool (value : Bool)
  | int (value : Int)
  | float (value : Binary64)
  | string (text : String)
  deriving DecidableEq

namespace Scalar

/-- The scalar as a JSON value. -/
def toJson : Scalar → Json
  | null => .null
  | bool b => .bool b
  | int n => .int n
  | float x => .float x
  | string text => .string text

/-- The literal that a scalar stands for. An integer that does not fit into 64 bits is a float. -/
def literal : Scalar → Value
  | null => .null
  | bool b => .boolean b
  | int n =>
    if -2 ^ 63 ≤ n ∧ n < 2 ^ 63 then .integer (Int64.ofInt n) else .float (Binary64.ofInt n)
  | float x => .float x
  | string text => .string text

end Scalar

/-- What stands for an attribute path. -/
structure PathDraft where
  schema? : Option String
  names : List String
  deriving DecidableEq

/-- What stands for a tree. -/
inductive Draft where
  | path (path : PathDraft)
  | comparison (path : PathDraft) (operator : Operator) (value? : Option Scalar)
  | negation (inner : Draft)
  | connective (operator : LogicalOperator) (children : List Draft)
  | valuePath (path : PathDraft) (predicate : Draft) (subAttribute? : Option String)

namespace Draft

/-- Induction over a draft, as over a tree. -/
@[elab_as_elim, induction_eliminator]
theorem ind {motive : Draft → Prop} (path : ∀ p, motive (.path p))
    (comparison : ∀ p operator value?, motive (.comparison p operator value?))
    (negation : ∀ inner, motive inner → motive (.negation inner))
    (connective : ∀ operator children, (∀ child ∈ children, motive child) →
      motive (.connective operator children))
    (valuePath : ∀ p predicate subAttribute?, motive predicate →
      motive (.valuePath p predicate subAttribute?)) (d : Draft) : motive d := by
  refine @Draft.rec motive (fun ds => ∀ d ∈ ds, motive d)
    path comparison negation connective valuePath ?_ ?_ d
  · intro d hd
    cases hd
  · intro d ds hd hds
    exact List.forall_mem_cons.mpr ⟨hd, hds⟩

end Draft

/-! ### Drafts in JSON -/

/-- Among these entries are those of an attribute path. -/
structure PathDraft.WrittenIn (d : PathDraft) (entries : List (String × Json)) : Prop where
  schema : (entries.lookup "schema").getD .null = .ofOption d.schema?
  names : entries.lookup "names" = some (.array (d.names.map .string))

/-- The kind of the connectives of an operator. -/
def LogicalOperator.nodeKind : LogicalOperator → NodeKind
  | .and => .conjunction
  | .or => .disjunction

namespace Draft

/-- A JSON value of the shape of a tree, and what it says. -/
inductive WrittenAs : Draft → Json → Prop
  | path {p : PathDraft} {entries : List (String × Json)}
      (htype : entries.lookup "type" = some (.string NodeKind.attributePath.name))
      (hpath : p.WrittenIn entries) : WrittenAs (.path p) (.object entries)
  | comparison {p : PathDraft} {operator : Operator} {value? : Option Scalar}
      {entries pathEntries : List (String × Json)}
      (htype : entries.lookup "type" = some (.string NodeKind.comparison.name))
      (hentry : entries.lookup "attribute_path" = some (.object pathEntries))
      (hpath : p.WrittenIn pathEntries)
      (hoperator : entries.lookup "operator" = some (.string operator.keyword))
      (hvalue : entries.lookup "value" = value?.map Scalar.toJson) :
      WrittenAs (.comparison p operator value?) (.object entries)
  | negation {inner : Draft} {entries : List (String × Json)} {part : Json}
      (htype : entries.lookup "type" = some (.string NodeKind.negation.name))
      (hentry : entries.lookup "inner" = some part)
      (hinner : WrittenAs inner part) : WrittenAs (.negation inner) (.object entries)
  | connective {operator : LogicalOperator} {children : List Draft}
      {entries : List (String × Json)} {parts : List Json}
      (htype : entries.lookup "type" = some (.string operator.nodeKind.name))
      (hentry : entries.lookup "children" = some (.array parts))
      (hchildren : List.Forall₂ WrittenAs children parts) :
      WrittenAs (.connective operator children) (.object entries)
  | valuePath {p : PathDraft} {predicate : Draft} {subAttribute? : Option String}
      {entries pathEntries : List (String × Json)} {part : Json}
      (htype : entries.lookup "type" = some (.string NodeKind.valuePath.name))
      (hentry : entries.lookup "attribute_path" = some (.object pathEntries))
      (hpath : p.WrittenIn pathEntries)
      (hpart : entries.lookup "predicate" = some part)
      (hpredicate : WrittenAs predicate part)
      (hsub : (entries.lookup "sub_attribute").getD .null = .ofOption subAttribute?) :
      WrittenAs (.valuePath p predicate subAttribute?) (.object entries)

end Draft

/-! ### Trees from drafts -/

/-- The attribute path that is meant, if there is a name. -/
def PathDraft.build? (d : PathDraft) : Option AttributePath :=
  AttributePath.ofNames? d.schema? d.names

namespace Draft

mutual
/-- The tree that the constructors make of a draft, from the leaves up. -/
def build? : Draft → Option Node
  | .path p => p.build?.map .attribute
  | .comparison p operator value? =>
    p.build?.map fun path => .comparison (.make path operator (value?.map Scalar.literal))
  | .negation inner => (build? inner).map .negation
  | .connective operator children => (buildAll? children).bind (Node.connective? operator)
  | .valuePath p predicate subAttribute? => do
    let path ← p.build?
    let node ← build? predicate
    return .valuePath path node subAttribute?

/-- The trees of drafts, if every one of them is a tree. -/
def buildAll? : List Draft → Option (List Node)
  | [] => some []
  | d :: ds => do
    let node ← build? d
    let nodes ← buildAll? ds
    return node :: nodes
end

/-- Every list of names has a name, and every list of children two children or more. -/
inductive Complete : Draft → Prop
  | path {p : PathDraft} (hnames : p.names ≠ []) : Complete (.path p)
  | comparison {p : PathDraft} {operator : Operator} {value? : Option Scalar}
      (hnames : p.names ≠ []) : Complete (.comparison p operator value?)
  | negation {inner : Draft} (hinner : Complete inner) : Complete (.negation inner)
  | connective {operator : LogicalOperator} {children : List Draft} (htwo : 2 ≤ children.length)
      (hchildren : ∀ child ∈ children, Complete child) : Complete (.connective operator children)
  | valuePath {p : PathDraft} {predicate : Draft} {subAttribute? : Option String}
      (hnames : p.names ≠ []) (hpredicate : Complete predicate) :
      Complete (.valuePath p predicate subAttribute?)

end Draft

/-! ### When there is a tree -/

/-- An attribute path needs a name, and nothing else. -/
theorem PathDraft.isSome_build?_iff (p : PathDraft) : p.build?.isSome ↔ p.names ≠ [] := by
  unfold build?
  cases p.names with
  | nil => simp [AttributePath.ofNames?]
  | cons name names => simp [AttributePath.ofNames?]

namespace Draft

/-- The children are trees if every one of them is. -/
theorem isSome_buildAll?_iff (ds : List Draft) :
    (buildAll? ds).isSome ↔ ∀ d ∈ ds, d.build?.isSome := by
  induction ds with
  | nil => simp [buildAll?]
  | cons d ds ih =>
      rw [List.forall_mem_cons, ← ih, buildAll?]
      cases d.build? <;> cases buildAll? ds <;> simp

/-- There are as many trees as children. -/
theorem length_of_buildAll? {ds : List Draft} {nodes : List Node} (h : buildAll? ds = some nodes) :
    nodes.length = ds.length := by
  induction ds generalizing nodes with
  | nil => cases h; rfl
  | cons d ds ih =>
      simp only [buildAll?, Option.bind_eq_bind, Option.bind_eq_some_iff] at h
      obtain ⟨node, -, rest, hrest, h⟩ := h
      cases h
      rw [List.length_cons, List.length_cons, ih hrest]

/-- The children count before they are joined, as they are listed. -/
theorem isSome_build?_connective_iff (operator : LogicalOperator) (children : List Draft) :
    (build? (.connective operator children)).isSome ↔
      2 ≤ children.length ∧ ∀ child ∈ children, child.build?.isSome := by
  rw [build?, ← isSome_buildAll?_iff]
  cases hall : buildAll? children with
  | none => simp
  | some nodes => simp [Node.connective?, length_of_buildAll? hall]

/-- There is a tree exactly if the draft is complete. -/
theorem isSome_build?_iff (d : Draft) : d.build?.isSome ↔ d.Complete := by
  induction d with
  | path p =>
      rw [build?, Option.isSome_map, p.isSome_build?_iff]
      exact ⟨.path, fun | .path hnames => hnames⟩
  | comparison p operator value? =>
      rw [build?, Option.isSome_map, p.isSome_build?_iff]
      exact ⟨.comparison, fun | .comparison hnames => hnames⟩
  | negation inner ih =>
      rw [build?, Option.isSome_map, ih]
      exact ⟨.negation, fun | .negation hinner => hinner⟩
  | connective operator children ih =>
      rw [isSome_build?_connective_iff]
      constructor
      · rintro ⟨htwo, hchildren⟩
        exact .connective htwo fun child hchild => (ih child hchild).mp (hchildren child hchild)
      · rintro (_ | _ | _ | ⟨htwo, hchildren⟩ | _)
        exact ⟨htwo, fun child hchild => (ih child hchild).mpr (hchildren child hchild)⟩
  | valuePath p predicate subAttribute? ih =>
      have hboth : (build? (.valuePath p predicate subAttribute?)).isSome
          ↔ p.build?.isSome ∧ predicate.build?.isSome := by
        rw [build?]
        cases p.build? <;> cases predicate.build? <;> simp
      rw [hboth, p.isSome_build?_iff, ih]
      exact ⟨fun h => .valuePath h.1 h.2, fun | .valuePath hnames hinner => ⟨hnames, hinner⟩⟩

end Draft

/-! ### Decoding builds -/

namespace Json

/-- What decoding gives where this is to be built: the same, or if nothing can be built, the rule
that stands against it. -/
inductive Decides {α : Type} : Decoded α → Option α → Prop
  | ok (a : α) : Decides (.ok a) (some a)
  | refused {e : DecodeError} (he : e ≠ .malformed) : Decides (.error e) none

/-- Either the same is decoded that is built, or one of the rules is broken and nothing is built. -/
theorem Decides.cases {α : Type} {r : Decoded α} {a? : Option α} (h : Decides r a?) :
    (∃ a, r = .ok a ∧ a? = some a) ∨ ∃ e, e ≠ .malformed ∧ r = .error e ∧ a? = none := by
  cases h with
  | ok a => exact .inl ⟨a, rfl, rfl⟩
  | refused he => exact .inr ⟨_, he, rfl, rfl⟩

/-- An entry with a text that may be absent or `null`. -/
theorem exists_decodeField?_optional {entries : List (String × Json)} {name : String}
    {text? : Option String} (h : (entries.lookup name).getD .null = .ofOption text?) (index : Nat) :
    ∃ found, decodeField? (decodeOption decodeString) ((Json.object entries).field? index name)
      = .ok found ∧ found.join = text? := by
  show ∃ found, decodeField? _ (entries.lookup name) = .ok found ∧ _
  cases hfound : entries.lookup name with
  | none =>
      rw [hfound] at h
      cases text? with
      | none => exact ⟨none, rfl, rfl⟩
      | some text => contradiction
  | some json =>
      rw [hfound] at h
      obtain rfl : json = .ofOption text? := h
      refine ⟨some text?, ?_, rfl⟩
      rw [decodeField?, decodeOption_ofOption]
      rfl

/-- An attribute path is decoded as it is built. -/
theorem decides_decodePath {p : PathDraft} {entries : List (String × Json)}
    (h : p.WrittenIn entries) : Decides (decodePath (.object entries)) p.build? := by
  obtain ⟨schema?, names⟩ := p
  obtain ⟨found, hschema, rfl⟩ := exists_decodeField?_optional h.schema 0
  have hnames : decodeField? (decodeList decodeString) ((Json.object entries).field? 1 "names")
      = .ok (some names) := by
    show decodeField? _ (entries.lookup "names") = _
    rw [h.names, decodeField?, decodeList, mapM_decodeString]
    rfl
  unfold decodePath
  rw [hschema, hnames]
  cases names with
  | nil => exact .refused (by decide)
  | cons name names => exact .ok _

/-! #### Comparisons -/

/-- An integer becomes the same literal, however large it is. -/
theorem ofInt_eq_literal (n : Int) : Value.ofInt n = (Scalar.int n).literal := by
  have hmin : Int64.minValue.toInt = -2 ^ 63 := by decide
  have hmax : Int64.maxValue.toInt = 2 ^ 63 - 1 := by decide
  rw [Value.ofInt, Number.toInt64?, hmin, hmax, Scalar.literal]
  by_cases h : -2 ^ 63 ≤ n ∧ n < 2 ^ 63
  · rw [if_pos h, if_pos (by omega)]
  · rw [if_neg h, if_neg (by omega)]

/-- A scalar other than `null` is decoded to its literal. -/
theorem decodeOption_scalar {scalar : Scalar} (h : scalar ≠ .null) :
    decodeOption decodeValue scalar.toJson = .ok (some scalar.literal) := by
  cases scalar with
  | null => contradiction
  | int n =>
      rw [← ofInt_eq_literal]
      rfl
  | _ => rfl

/-- A literal that is `null` is not read, but the comparison is the same as if it were. -/
theorem exists_decodeField?_value {entries : List (String × Json)} {value? : Option Scalar}
    (h : entries.lookup "value" = value?.map Scalar.toJson) :
    ∃ found, decodeField? (decodeOption decodeValue) ((Json.object entries).field? 2 "value")
      = .ok found ∧ ∀ path operator, Comparison.make path operator found.join
        = .make path operator (value?.map Scalar.literal) := by
  show ∃ found, decodeField? _ (entries.lookup "value") = .ok found ∧ _
  rw [h]
  cases value? with
  | none => exact ⟨none, rfl, fun _ _ => rfl⟩
  | some scalar =>
      by_cases hnull : scalar = .null
      · subst hnull
        exact ⟨some none, rfl, fun _ _ => rfl⟩
      · refine ⟨some (some scalar.literal), ?_, fun _ _ => rfl⟩
        rw [Option.map_some, decodeField?, decodeOption_scalar hnull]
        rfl

/-- A comparison is decoded as it is built. A path without names is the one thing that can be wrong
with it. -/
theorem decides_decodeComparison {p : PathDraft} {operator : Operator} {value? : Option Scalar}
    {entries pathEntries : List (String × Json)}
    (hentry : entries.lookup "attribute_path" = some (.object pathEntries))
    (hpath : p.WrittenIn pathEntries)
    (hoperator : entries.lookup "operator" = some (.string operator.keyword))
    (hvalue : entries.lookup "value" = value?.map Scalar.toJson) :
    Decides (decodeComparison true (.object entries))
      (p.build?.map fun path => .make path operator (value?.map Scalar.literal)) := by
  have hentry : (Json.object entries).field? 0 "attribute_path" = some (.object pathEntries) :=
    hentry
  have hoperator : (Json.object entries).field? 1 "operator" = some (.string operator.keyword) :=
    hoperator
  obtain ⟨found, hfound, hmake⟩ := exists_decodeField?_value hvalue
  unfold decodeComparison
  rw [hentry, hoperator, hfound, decodeField?, decodeField?, decodeKeyword_keyword]
  obtain ⟨path, hok, hbuild⟩ | ⟨e, he, herror, hbuild⟩ := (decides_decodePath hpath).cases
  · rw [hok, hbuild, Option.map_some, ← hmake]
    exact .ok _
  · rw [herror, hbuild]
    exact .refused he

/-! #### Trees -/

section
variable {entries : List (String × Json)} {decode : Smaller (.object entries)}

/-- A tree in a field is decoded like the tree itself. -/
theorem decodeTree?_eq {part : Json} {name : String} (hlookup : entries.lookup name = some part)
    (index : Nat) :
    decodeTree? (.object entries) decode index name
      = (decode part (@size_lt_of_field? index name _ _ hlookup)).map some := by
  unfold decodeTree?
  split
  · next part' hfield =>
      obtain rfl : part' = part := Option.some.inj (hfield.symm.trans hlookup)
      rfl
  · next hfield =>
      have hnone : entries.lookup name = none := hfield
      rw [hlookup] at hnone
      contradiction

/-- A negation is decoded as it is built if what it negates is. -/
theorem decides_decodeInner {inner : Draft} {part : Json}
    (hentry : entries.lookup "inner" = some part)
    (h : ∀ hpart, Decides (decode part hpart) inner.build?) :
    Decides (decodeInner (.object entries) decode) inner.build? := by
  unfold decodeInner
  rw [decodeTree?_eq hentry]
  obtain ⟨node, hok, hbuild⟩ | ⟨e, he, herror, hbuild⟩ := (h _).cases
  · rw [hok, hbuild]
    exact .ok _
  · rw [herror, hbuild]
    exact .refused he

/-- Children are decoded as they are built if each of them is. -/
theorem decides_decodeTrees {json : Json} {decode : Smaller json} {children : List Draft}
    {parts : List Json}
    (h : List.Forall₂ (fun child part => ∀ hpart, Decides (decode part hpart) child.build?)
      children parts) (hsize : sizeAll parts < json.size) :
    Decides (decodeTrees json decode parts hsize) (Draft.buildAll? children) := by
  induction h with
  | nil => exact .ok []
  | @cons child part children parts hchild hchildren ih =>
      rw [decodeTrees, Draft.buildAll?]
      obtain ⟨node, hok, hbuild⟩ | ⟨e, he, herror, hbuild⟩ := (hchild _).cases
      · rw [hok, hbuild]
        -- The first tree is there, so the others decide.
        obtain ⟨nodes, hok, hbuild⟩ | ⟨e, he, herror, hbuild⟩ := (ih _).cases
        · rw [ok_bind, hok, hbuild]
          exact .ok _
        · rw [ok_bind, herror, hbuild]
          exact .refused he
      · rw [herror, hbuild]
        exact .refused he

/-- Operands are decoded one by one and then counted. -/
theorem decodeOperands_eq {parts : List Json}
    (hentry : entries.lookup "children" = some (.array parts))
    (hsize : sizeAll parts < (Json.object entries).size) :
    decodeOperands (.object entries) decode
      = (decodeTrees (.object entries) decode parts hsize >>= fun operands =>
          if operands.length < 2 then .error .tooFewOperands else .ok operands) := by
  unfold decodeOperands
  dsimp only
  split
  · next parts' hparts =>
      -- The entry is a list. The two other cases do not occur.
      obtain rfl : parts' = parts := by simpa using hparts.symm.trans hentry
      cases decodeTrees (.object entries) decode parts' hsize <;> rfl
  · next part hpart hfield =>
      have hfield : entries.lookup "children" = some part := hfield
      rw [hentry] at hfield
      exact absurd (Option.some.inj hfield).symm (hpart _)
  · next hfield =>
      have hfield : entries.lookup "children" = none := hfield
      rw [hentry] at hfield
      contradiction

/-- Operands are counted as they are listed, and only then spliced. -/
theorem decides_decodeOperands {operator : LogicalOperator} {children : List Draft}
    {parts : List Json} (hentry : entries.lookup "children" = some (.array parts))
    (h : List.Forall₂ (fun child part => ∀ hpart, Decides (decode part hpart) child.build?)
      children parts) :
    Decides (decodeOperands (.object entries) decode >>= fun operands =>
      .ok (.flattened operator operands)) (Draft.build? (.connective operator children)) := by
  have hsize : sizeAll parts < (Json.object entries).size := by
    have hpart := @size_lt_of_field? 0 "children" (.object entries) _ hentry
    simp only [size] at hpart ⊢
    omega
  rw [decodeOperands_eq hentry hsize, Draft.build?]
  obtain ⟨nodes, hok, hbuild⟩ | ⟨e, he, herror, hbuild⟩ := (decides_decodeTrees h hsize).cases
  · -- Both sides count the operands before they are joined.
    rw [hok, hbuild, ok_bind, Option.bind_some, Node.connective?]
    split
    · next hfew =>
        rw [if_neg (by omega)]
        exact .refused (by decide)
    · next htwo =>
        rw [if_pos (by omega)]
        exact .ok _
  · rw [herror, hbuild]
    exact .refused he

/-- A value path is decoded as it is built if its predicate is. -/
theorem decides_decodeValuePath {p : PathDraft} {predicate : Draft} {subAttribute? : Option String}
    {pathEntries : List (String × Json)} {part : Json}
    (hentry : entries.lookup "attribute_path" = some (.object pathEntries))
    (hpath : p.WrittenIn pathEntries) (hpart : entries.lookup "predicate" = some part)
    (h : ∀ hpart, Decides (decode part hpart) predicate.build?)
    (hsub : (entries.lookup "sub_attribute").getD .null = .ofOption subAttribute?) :
    Decides (decodeValuePath (.object entries) decode >>= fun v => .ok v.toNode)
      (Draft.build? (.valuePath p predicate subAttribute?)) := by
  have hentry : (Json.object entries).field? 0 "attribute_path" = some (.object pathEntries) :=
    hentry
  obtain ⟨found, hfound, rfl⟩ := exists_decodeField?_optional hsub 2
  unfold decodeValuePath
  rw [hentry, hfound, decodeTree?_eq hpart, decodeField?, Draft.build?]
  obtain ⟨path, hok, hbuild⟩ | ⟨e, he, herror, hbuild⟩ := (decides_decodePath hpath).cases
  · rw [hok, hbuild]
    obtain ⟨node, hok, hbuild⟩ | ⟨e, he, herror, hbuild⟩ := (h _).cases
    · rw [hok, hbuild]
      exact .ok _
    · rw [herror, hbuild]
      exact .refused he
  · rw [herror, hbuild]
    exact .refused he

end

/-- Decodes the fields of a tree of a kind. -/
def decodeFields (kind : NodeKind) (fields : Json) : Decoded Node :=
  let decode : Smaller fields := fun part _ => decodeNodeIn true part
  match kind with
  | .attributePath => decodePath fields >>= fun path => .ok (.attribute path)
  | .comparison => decodeComparison true fields >>= fun c => .ok (.comparison c)
  | .negation => decodeInner fields decode >>= fun inner => .ok (.negation inner)
  | .conjunction => decodeOperands fields decode >>= fun os => .ok (.flattened .and os)
  | .disjunction => decodeOperands fields decode >>= fun os => .ok (.flattened .or os)
  | .valuePath => decodeValuePath fields decode >>= fun v => .ok v.toNode

/-- The type of an object tells how its fields are decoded. -/
theorem decodeNodeIn_object {entries : List (String × Json)} {kind : NodeKind}
    (htype : entries.lookup "type" = some (.string kind.name)) (nested : Bool) :
    decodeNodeIn nested (.object entries) = decodeFields kind (.object entries) := by
  rw [decodeNodeIn, tagged, htype]
  cases kind <;> rfl

/-- What is decoded as it is built stays so under a function. -/
theorem Decides.map {α β : Type} {r : Decoded α} {a? : Option α} (h : Decides r a?) (f : α → β) :
    Decides (r >>= fun a => .ok (f a)) (a?.map f) := by
  cases h with
  | ok a => exact .ok _
  | refused he => exact .refused he

/-- Decoding a value of the shape of a tree builds the tree. -/
theorem decides_decodeNodeIn {d : Draft} {json : Json} (h : d.WrittenAs json) (nested : Bool) :
    Decides (decodeNodeIn nested json) d.build? := by
  induction d generalizing json nested with
  | path p =>
      cases h with
      | path htype hpath =>
          rw [decodeNodeIn_object htype, Draft.build?]
          exact (decides_decodePath hpath).map _
  | comparison p operator value? =>
      cases h with
      | comparison htype hentry hpath hoperator hvalue =>
          rw [decodeNodeIn_object htype, Draft.build?]
          have hmap := (decides_decodeComparison hentry hpath hoperator hvalue).map Node.comparison
          rwa [Option.map_map] at hmap
  | negation inner ih =>
      cases h with
      | negation htype hentry hinner =>
          rw [decodeNodeIn_object htype, Draft.build?]
          exact (decides_decodeInner hentry fun _ => ih hinner true).map _
  | connective operator children ih =>
      cases h with
      | @connective _ _ entries parts htype hentry hchildren =>
          -- The induction hypotheses, along the list of the children.
          have hparts : List.Forall₂ (fun (child : Draft) part =>
              part.size < (Json.object entries).size →
                Decides (decodeNodeIn true part) child.build?) children parts := by
            refine ((List.forall₂_and_left _ _).mpr ⟨ih, hchildren⟩).imp ?_
            rintro child part ⟨ihchild, hchild⟩ -
            exact ihchild hchild true
          rw [decodeNodeIn_object htype]
          cases operator with
          | and => exact decides_decodeOperands hentry hparts
          | or => exact decides_decodeOperands hentry hparts
  | valuePath p predicate subAttribute? ih =>
      cases h with
      | valuePath htype hentry hpath hpart hpredicate hsub =>
          rw [decodeNodeIn_object htype]
          exact decides_decodeValuePath hentry hpath hpart (fun _ => ih hpredicate true) hsub

end Json

/-- Decoding enforces the rules of the constructors. Take a JSON value of the shape of a tree.

1. It is decoded exactly if every list of names has a name and every list of children, as it is
   written, has two children or more.
2. What it is decoded to is what the constructors build from the leaves up.
3. If it is refused, the error names one of the two rules.
4. The tree that it is decoded to is decoded again from its own JSON, if its floats are finite. -/
theorem decodeNode_of_writtenAs {d : Draft} {json : Json} (h : d.WrittenAs json) :
    ((∃ n, Json.decodeNode json = .ok n) ↔ d.Complete) ∧
    (∀ n, Json.decodeNode json = .ok n ↔ d.build? = some n) ∧
    (∀ e, Json.decodeNode json = .error e → e = .emptyPath ∨ e = .tooFewOperands) ∧
    ∀ n : Node, Json.decodeNode json = .ok n → n.FloatsFinite →
      Json.decodeNode n.toJson = .ok n := by
  have hdecides := Json.decides_decodeNodeIn h false
  have hok : ∀ n, Json.decodeNode json = .ok n ↔ d.build? = some n := by
    intro n
    unfold Json.decodeNode
    obtain ⟨node, hok, hbuild⟩ | ⟨e, -, herror, hbuild⟩ := hdecides.cases
    · rw [hok, hbuild, Except.ok.injEq, Option.some.injEq]
    · rw [herror, hbuild]
      simp
  refine ⟨?_, hok, fun e he => ?_, fun n hn hfinite => ?_⟩
  · rw [← d.isSome_build?_iff, Option.isSome_iff_exists]
    exact exists_congr hok
  · obtain ⟨node, hok, -⟩ | ⟨e', hne, herror, -⟩ := hdecides.cases
    · rw [Json.decodeNode, hok] at he
      contradiction
    · rw [Json.decodeNode, herror] at he
      cases he
      cases e with
      | malformed => contradiction
      | emptyPath => exact .inl rfl
      | tooFewOperands => exact .inr rfl
  · -- Whatever has been decoded is well formed, and then the round trip applies.
    have hround := Json.decodeNodeIn_toJson (Json.wellFormed_of_decodeNodeIn hn) false
    rw [hfinite.mapValues_inJson] at hround
    exact hround

/-- A conjunction in a conjunction, with entries in another order, an entry that means nothing, an
integer of 64 bits and no sign, a literal for `pr`, and none for `eq`. And a conjunction of a single
conjunction, which would have two operands if it were spliced first. -/
theorem decodeNode_of_writtenAs_nested :
    let named (name : String) : Json := .object [("names", .array [.string name])]
    let a : Json := .object [("type", .string "comparison"), ("attribute_path", named "a"),
      ("operator", .string "eq"), ("value", .int (2 ^ 63))]
    let b : Json := .object [("value", .int 1), ("operator", .string "pr"),
      ("attribute_path", named "b"), ("note", .null), ("type", .string "comparison")]
    let c : Json := .object [("type", .string "comparison"), ("attribute_path", named "c"),
      ("operator", .string "eq")]
    let both : Json := .object [("type", .string "conjunction"), ("children", .array [a, b])]
    let node : Node := .connective .and [
      .comparison (.make (.ofSingle "a") .eq (some (.float ⟨0x43E0000000000000⟩))),
      .comparison (.present (.ofSingle "b")),
      .comparison (.make (.ofSingle "c") .eq (some .null))]
    Json.decodeNode (.object [("type", .string "conjunction"), ("children", .array [both, c])])
        = .ok node ∧
      Json.decodeNode node.toJson = .ok node ∧
      ¬ ∃ n, Json.decodeNode
        (.object [("type", .string "conjunction"), ("children", .array [both])]) = .ok n := by
  intro named a b c both node
  have ha : Draft.WrittenAs (.comparison ⟨none, ["a"]⟩ .eq (some (.int (2 ^ 63)))) a :=
    .comparison rfl rfl ⟨rfl, rfl⟩ rfl rfl
  have hb : Draft.WrittenAs (.comparison ⟨none, ["b"]⟩ .pr (some (.int 1))) b :=
    .comparison rfl rfl ⟨rfl, rfl⟩ rfl rfl
  have hc : Draft.WrittenAs (.comparison ⟨none, ["c"]⟩ .eq none) c :=
    .comparison rfl rfl ⟨rfl, rfl⟩ rfl rfl
  have hboth : Draft.WrittenAs (.connective .and [.comparison ⟨none, ["a"]⟩ .eq
      (some (.int (2 ^ 63))), .comparison ⟨none, ["b"]⟩ .pr (some (.int 1))]) both :=
    .connective rfl rfl (.cons ha (.cons hb .nil))
  have hwhole : Draft.WrittenAs (.connective .and [.connective .and [.comparison ⟨none, ["a"]⟩ .eq
      (some (.int (2 ^ 63))), .comparison ⟨none, ["b"]⟩ .pr (some (.int 1))],
      .comparison ⟨none, ["c"]⟩ .eq none])
      (.object [("type", .string "conjunction"), ("children", .array [both, c])]) :=
    .connective rfl rfl (.cons hboth (.cons hc .nil))
  have hsingle : Draft.WrittenAs (.connective .and [.connective .and [.comparison ⟨none, ["a"]⟩ .eq
      (some (.int (2 ^ 63))), .comparison ⟨none, ["b"]⟩ .pr (some (.int 1))]])
      (.object [("type", .string "conjunction"), ("children", .array [both])]) :=
    .connective rfl rfl (.cons hboth .nil)
  obtain ⟨-, hok, -, hround⟩ := decodeNode_of_writtenAs hwhole
  have hnode := (hok node).mpr (by decide +kernel)
  refine ⟨hnode, hround node hnode ?_, fun hexists => ?_⟩
  · -- Only the first literal is a float.
    intro comparison hcomparison x hx
    simp only [node, Node.comparisons_connective, List.mem_flatMap, List.mem_cons,
      List.not_mem_nil, or_false] at hcomparison
    obtain ⟨_, rfl | rfl | rfl, hcomparison⟩ := hcomparison
    all_goals
      rw [List.mem_singleton.mp hcomparison] at hx
      cases hx
    decide
  · cases (decodeNode_of_writtenAs hsingle).1.mp hexists with
    | connective htwo _ => exact absurd htwo (by decide)

end Scim
