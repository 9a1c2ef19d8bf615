import Scim.Proofs.Node.Writable
import Scim.Proofs.Parse.Grammar
import Scim.Proofs.Token.Written

/-!
# `Scim.Proofs.Parse.RoundTrip`: a filter is read back from its text

The text of a tree is followed piece by piece: each piece is scanned as one token, and the tokens of
a node derive that node. `ReadAs` is what is shown of every node, once for the node as an expression
and once for the node as an operand, where a connective stands between parentheses. It holds in
front of every delimiter, so that the texts of the parts can be put together.

* `readAs_comparison`, for comparisons, from `lexeme?_literal` and the lemmas about single tokens.
* `ReadAs.enclosed`, `ReadAs.negation`, `ReadAs.joined` and `ReadAs.valuePath`, one lemma for each
  rule of the grammar that puts an expression together.
* `readAs_operands`, for the operands of a connective, by induction on them. The reader joins two at
  a time, and what comes out of it is the connective (`joined_chained`).
* `readAs_of_built`, for all trees, by induction on the tree. It leaves open what value paths may
  hold, since predicates are trees of the same kind and come first (`readAs_of_isPredicate`).

The result is `parseFilter_render`.
-/

set_option autoImplicit false

namespace Scim

open Text Recogniser Number

/-! ### Parentheses in derivations -/

/-- Matching parentheses can be put in a row. -/
theorem Balanced.append {ts us : List Token} (hts : Balanced ts) (hus : Balanced us) :
    Balanced (ts ++ us) := by
  induction hts with
  | nil => exact hus
  | plain hopen hclose _ ih => exact .plain hopen hclose ih
  | enclosed hopen hbody hclose _ _ ih =>
      rw [List.cons_append, List.append_assoc, List.cons_append]
      exact .enclosed hopen hbody hclose ih

/-- A token that is no parenthesis has none to match. -/
theorem Balanced.single {t : Token} (hopen : t.kind ≠ .parenOpen) (hclose : t.kind ≠ .parenClose) :
    Balanced [t] :=
  .plain hopen hclose .nil

/-- The parentheses of everything that derives from the grammar match. -/
theorem Derives.balanced {nt : Nonterminal} {v : Bool} {ts : List Token} {n : Node}
    (h : Derives nt v ts n) : Balanced ts := by
  induction h with
  | single h ih => exact ih
  | joined hleft hword hread hright ihleft ihright =>
      exact ihleft.append (.plain (by simp [hword]) (by simp [hword]) ihright)
  | enclosed hopen hbody hignored hmatch hclose ih => exact .enclosed hopen hmatch hclose .nil
  | group h ih => exact ih
  | negation hword h ih => exact .plain (by simp [hword]) (by simp [hword]) ih
  | present hname hword hread =>
      exact .plain (by simp [hname]) (by simp [hname]) (.single (by simp [hword]) (by simp [hword]))
  | comparison hname hword hread hoperator hliteral hvalue =>
      have hparens : ∀ kind ∈ TokenKind.literals, kind ≠ .parenOpen ∧ kind ≠ .parenClose := by
        decide
      obtain ⟨hopen, hclose⟩ := hparens _ hliteral
      exact .plain (by simp [hname]) (by simp [hname])
        (.plain (by simp [hword]) (by simp [hword]) (.single hopen hclose))
  | valuePath hname hsingle hopen hbody hplain hclose ih =>
      exact .plain (by simp [hname]) (by simp [hname]) (.plain (by simp [hopen]) (by simp [hopen])
        (ih.append (.single (by simp [hclose]) (by simp [hclose]))))

/-! ### Pieces of text -/

/-- In front of any delimiter, the text is scanned to tokens that derive the node. -/
def ReadAs (nt : Nonterminal) (v : Bool) (text : String) (n : Node) : Prop :=
  ∀ rest, Delimited rest → Yields (text.toList ++ rest) rest fun ts => Derives nt v ts n

/-- The end of the text ends every token. -/
theorem delimited_nil : Delimited [] := by
  simp [Delimited]

/-- A bracket ends every token. -/
theorem delimited_bracket {c : Char} (hc : c ∈ brackets) (rest : List Char) :
    Delimited (c :: rest) := by
  intro d hd
  obtain rfl : c = d := by simpa using hd
  exact endsName_of_bracket hc

/-- A space ends every token. -/
theorem delimited_space (rest : List Char) : Delimited (' ' :: rest) := by
  intro d hd
  obtain rfl : ' ' = d := by simpa using hd
  exact endsName_of_blank (by decide)

/-- Whatever derives from the grammar starts with a parenthesis, `not` or a name. -/
theorem Derives.exists_first {nt : Nonterminal} {v : Bool} {ts : List Token} {n : Node}
    (h : Derives nt v ts n) :
    ∃ t us, ts = t :: us ∧ t.kind ∈ [TokenKind.parenOpen, .negation, .name] := by
  induction h with
  | single h ih => exact ih
  | joined hleft hword hread hright ihleft ihright =>
      obtain ⟨t, us, rfl, hkind⟩ := ihleft
      exact ⟨t, _, rfl, hkind⟩
  | enclosed hopen => exact ⟨_, _, rfl, by simp [hopen]⟩
  | group h ih => exact ih
  | negation hword => exact ⟨_, _, rfl, by simp [hword]⟩
  | present hname => exact ⟨_, _, rfl, by simp [hname]⟩
  | comparison hname => exact ⟨_, _, rfl, by simp [hname]⟩
  | valuePath hname => exact ⟨_, _, rfl, by simp [hname]⟩

/-- No part of an expression starts with a blank. -/
theorem ReadAs.unspaced {nt : Nonterminal} {v : Bool} {text : String} {n : Node}
    (h : ReadAs nt v text n) (rest : List Char) : Unspaced (text.toList ++ rest) := by
  obtain ⟨ts, hscan, hderives⟩ := h [] delimited_nil 0
  rw [List.append_nil] at hscan
  obtain ⟨t, us, rfl, hkind⟩ := hderives.exists_first
  cases hscan with
  | step hlex _ =>
      refine unspaced_of_lexeme? hlex ?_ rest
      revert hkind
      simp only [List.mem_cons, List.not_mem_nil, or_false]
      rintro (rfl | rfl | rfl) <;> decide

/-- A literal is scanned as one token, and the token has its value. -/
theorem lexeme?_literal {v : Value} (hv : v.Writable) {rest : List Char} (hrest : Delimited rest) :
    ∃ kind ∈ TokenKind.literals,
      lexeme? .filter (v.render.toList ++ rest) = some (kind, v.render.toList, rest) ∧
      ∀ offset, (Token.mk kind v.render offset).literal? = some v := by
  cases v with
  | string text =>
      have hrender : (Value.string text).render.toList = '"' :: (text.toList ++ ['"']) := by
        simp [Value.render]
      refine ⟨.string, by decide, ?_, fun offset => ?_⟩
      · rw [hrender]
        exact lexeme?_string hv rest
      · simp [Token.literal?, Token.unquoted, hrender]
  | integer n =>
      have hdigits : (Value.integer n).render.toList = digits n.toInt.natAbs := by
        have hn : ¬ n.toInt < 0 := Int.not_lt.mpr hv
        simp [Value.render, integerText, hn]
      refine ⟨.number, by decide, ?_, fun offset => Value.ofNumber?_integerText hv⟩
      rw [hdigits]
      exact lexeme?_number (number_digits (digits_digits _)) hrest
  | float x =>
      -- A finite float without a sign is written as two runs of digits with a point between them.
      obtain ⟨hfinite, hsign⟩ := hv
      obtain ⟨whole, fraction, htext, hwhole, hfraction, -⟩ := writeFinite_writes hfinite
      have hrender : (Value.float x).render.toList = whole ++ '.' :: fraction := by
        rw [Value.render, write_eq hfinite hsign, htext, String.toList_ofList]
      refine ⟨.number, by decide, ?_, fun offset => Value.ofNumber?_write hfinite hsign⟩
      rw [hrender]
      exact lexeme?_number (number_point hwhole hfraction) hrest
  | boolean b =>
      refine ⟨.boolean, by decide, lexeme?_boolean (endsWord_of_delimited hrest) ?_,
        fun offset => ?_⟩
      · cases b <;> decide
      · have hread : Text.sameIgnoringCase (Value.boolean b).render "true" = b := by
          cases b <;> decide
        exact congrArg (some ∘ Value.boolean) hread
  | null =>
      exact ⟨.null, by decide, lexeme?_null (endsWord_of_delimited hrest) (by decide),
        fun offset => rfl⟩

/-- No literal starts with a blank. -/
theorem unspaced_literal {v : Value} (hv : v.Writable) (rest : List Char) :
    Unspaced (v.render.toList ++ rest) := by
  obtain ⟨kind, hkind, hlex, -⟩ := lexeme?_literal hv delimited_nil
  rw [List.append_nil] at hlex
  have hliterals : ∀ kind ∈ TokenKind.literals,
      kind ≠ .logicalOperator ∧ kind ≠ .comparisonOperator := by
    decide
  exact unspaced_of_lexeme? hlex (hliterals kind hkind) rest

/-- The text of a path that is scanned as a name is a name. -/
theorem AttributePath.Lexable.isName {p : AttributePath} (h : p.Lexable) : IsName p.render.toList :=
  isName_iff.mpr h.scan

/-- In front of a space, the path of a comparison is scanned as a name. -/
theorem AttributePath.Comparable.lexeme?_space {p : AttributePath} (h : p.Comparable)
    (more : List Char) :
    lexeme? .filter (p.render.toList ++ ' ' :: more)
      = some (.name, p.render.toList, ' ' :: more) := by
  refine h.isName.lexeme?_blank ?_ (by decide) more
  have hnot := h.not_negation
  simpa [sameIgnoringCase] using hnot

/-- A comparison is read back. -/
theorem readAs_comparison {c : Comparison} (hc : c.Writable) (v : Bool) :
    ReadAs .primary v (c.render none) (.comparison c) := by
  obtain ⟨path, operator, value?, hvalue?⟩ := c
  have hpath := hc.path
  intro rest hrest
  cases value? with
  | none =>
      obtain rfl : operator = .pr := by
        cases operator <;> first | rfl | simp [Operator.isUnary] at hvalue?
      have htext : (Comparison.render none ⟨path, .pr, none, hvalue?⟩).toList ++ rest
          = path.render.toList ++ (" pr".toList ++ rest) := by
        simp [Comparison.render, Operator.keyword]
      rw [htext]
      -- A name and `pr`, which only needs something behind it that ends a word.
      refine .step (hpath.lexeme?_space _) fun name hname hnametext => ?_
      refine .step (lexeme?_present hrest) fun word hword hwordtext => .done ?_
      have hread : Operator.read word.text = .ok .pr := by
        rw [hwordtext]
        decide
      have hderives := Derives.present (v := v) hname hword hread
      rw [hnametext, String.ofList_toList, hpath.ofName_render] at hderives
      exact hderives
  | some value =>
      have hbinary : operator ≠ .pr := by
        rintro rfl
        simp [Operator.isUnary] at hvalue?
      have hvalue := hc.value value rfl
      have htext : (Comparison.render none ⟨path, operator, some value, hvalue?⟩).toList ++ rest
          = path.render.toList ++ (operator.spaced ++ (value.render.toList ++ rest)) := by
        simp [Comparison.render, Operator.spaced]
      -- A name, an operator with the spaces around it, and a literal.
      obtain ⟨kind, hkind, hlex, hliteral⟩ := lexeme?_literal hvalue hrest
      rw [htext]
      refine .step (hpath.lexeme?_space _) fun name hname hnametext => ?_
      refine .step (lexeme?_binary hbinary (unspaced_literal hvalue rest))
        fun word hword hwordtext => ?_
      refine .step hlex fun literal hliteralkind hliteraltext => .done ?_
      have hread : Operator.read word.text = .ok operator := by
        rw [hwordtext]
        exact read_spaced_operator operator
      have hlit : literal.literal? = some value := by
        obtain ⟨_, _, offset⟩ := literal
        rw [String.ofList_toList] at hliteraltext
        cases hliteralkind
        cases hliteraltext
        exact hliteral offset
      have hderives := Derives.comparison (v := v) hname hword hread hbinary
        (hliteralkind ▸ hkind) hlit
      rw [hnametext, String.ofList_toList, hpath.ofName_render] at hderives
      have hmake : Comparison.make path operator (some value)
          = ⟨path, operator, some value, hvalue?⟩ := by
        have hunary : operator.isUnary = false := by simpa using hvalue?
        simp [Comparison.make, Comparison.literalFor, hunary]
      rw [hmake] at hderives
      exact hderives

/-! ### Trees -/

/-- An expression between parentheses is read back. -/
theorem ReadAs.enclosed {v : Bool} {text : String} {n : Node} (h : ReadAs .expression v text n) :
    ReadAs .enclosed v ("(" ++ text ++ ")") n := by
  intro rest hrest
  have htext : ("(" ++ text ++ ")").toList ++ rest = '(' :: (text.toList ++ ')' :: rest) := by
    simp
  rw [htext]
  refine .step (lexeme?_bracket .filter (by decide : (.parenOpen, '(') ∈ decisive.dropLast) _)
    fun opening hopen _ => ?_
  refine .append (h _ (delimited_bracket (by decide) rest)) fun body hbody => ?_
  refine .step (lexeme?_bracket .filter (by decide : (.parenClose, ')') ∈ decisive.dropLast) rest)
    fun closing hclose _ => .done ?_
  -- Nothing is ignored in a body that was written.
  have hends : EndsBefore [] := by simp [EndsBefore]
  have hmatch : Balanced (body ++ []) := by simpa using hbody.balanced
  have hderives := Derives.enclosed hopen hbody hends hmatch hclose
  rwa [List.append_nil] at hderives

/-- A group is an operand, inside a value path or not. -/
theorem ReadAs.group {text : String} {n : Node} (h : ReadAs .enclosed false text n) (v : Bool) :
    ReadAs .primary v text n :=
  fun rest hrest => (h rest hrest).mono fun _ => .group

/-- A negation is read back if what it negates is read back as a group. -/
theorem ReadAs.negation {v : Bool} {text : String} {n : Node} (h : ReadAs .enclosed v text n) :
    ReadAs .primary v ("not " ++ text) (.negation n) := by
  intro rest hrest
  rw [String.toList_append, List.append_assoc]
  refine .step (lexeme?_negation (h.unspaced rest)) fun word hword _ => ?_
  exact (h rest hrest).mono fun _ => .negation hword

/-- An operand is an expression. -/
theorem ReadAs.single {v : Bool} {text : String} {n : Node} (h : ReadAs .primary v text n) :
    ReadAs .expression v text n :=
  fun rest hrest => (h rest hrest).mono fun _ => .single

/-- A logical operator joins an operand and an expression. -/
theorem ReadAs.joined {v : Bool} {left right : String} {n m : Node}
    (hleft : ReadAs .primary v left n) (hright : ReadAs .expression v right m)
    (operator : LogicalOperator) :
    ReadAs .expression v (left ++ " " ++ operator.keyword ++ " " ++ right)
      (.joined operator n m) := by
  intro rest hrest
  have htext : (left ++ " " ++ operator.keyword ++ " " ++ right).toList ++ rest
      = left.toList ++ (operator.spaced ++ (right.toList ++ rest)) := by
    simp [LogicalOperator.spaced]
  rw [htext]
  refine .append (hleft _ (delimited_space _)) fun ts hts => ?_
  refine .step (lexeme?_logicalOperator operator (hright.unspaced rest))
    fun word hword hwordtext => ?_
  refine (hright rest hrest).mono fun us hus => ?_
  refine .joined hts hword ?_ hus
  rw [hwordtext]
  exact read_spaced_logicalOperator operator

/-- The tokens of a name with an expression in brackets behind it. -/
def Bracketed (name : String) (n : Node) (ts : List Token) : Prop :=
  ∃ first opening body closing, ts = first :: opening :: (body ++ [closing]) ∧
    first.kind = .name ∧ first.text = name ∧ opening.kind = .bracketOpen ∧ opening.text = "[" ∧
    Derives .expression true body n ∧ closing.kind = .bracketClose

/-- A name with an expression in brackets behind it is scanned to these tokens, whatever comes next:
no token goes on behind a closing bracket. -/
theorem ReadAs.bracketed {name text : String} {n : Node} (hname : IsName name.toList)
    (h : ReadAs .expression true text n) (rest : List Char) :
    Yields ((name ++ "[" ++ text ++ "]").toList ++ rest) rest (Bracketed name n) := by
  have htext : (name ++ "[" ++ text ++ "]").toList ++ rest
      = name.toList ++ '[' :: (text.toList ++ ']' :: rest) := by
    simp
  rw [htext]
  refine .step (hname.lexeme?_bracketOpen _) fun first hfirst hfirsttext => ?_
  refine .step (lexeme?_bracket .filter (by decide : (.bracketOpen, '[') ∈ decisive.dropLast) _)
    fun opening hopen hopentext => ?_
  refine .append (h _ (delimited_bracket (by decide) rest)) fun body hbody => ?_
  refine .step
    (lexeme?_bracket .filter (by decide : (.bracketClose, ']') ∈ decisive.dropLast) rest)
    fun closing hclose _ => .done ?_
  rw [String.ofList_toList] at hfirsttext
  exact ⟨first, opening, body, closing, rfl, hfirst, hfirsttext, hopen, hopentext, hbody, hclose⟩

/-- A value path is read back if its predicate is, relative to the collection. -/
theorem ReadAs.valuePath {name text : String} {n : Node} (hname : IsName name.toList)
    (hsingle : (AttributePath.ofName name).length = 1) (hsimple : n.Simple)
    (h : ReadAs .expression true text n) :
    ReadAs .primary false (name ++ "[" ++ text ++ "]")
      (.valuePath (.ofName name) (n.under (.ofName name)) none) := by
  intro rest hrest
  refine (h.bracketed hname rest).mono ?_
  rintro _ ⟨first, opening, body, closing, rfl, hfirst, rfl, hopen, -, hbody, hclose⟩
  exact .valuePath hfirst hsingle hopen hbody (fun m hm => (hsimple m hm).2) hclose

/-- What reading operands of one operator makes of them: a connective, unless there is just one. -/
def chained (operator : LogicalOperator) : List Node → Node
  | [operand] => operand
  | operands => .connective operator operands

/-- Joining one more operand gives the connective of all of them. -/
theorem joined_chained {operator : LogicalOperator} {operand : Node} {operands : List Node}
    (hne : operands ≠ [])
    (hkind : ∀ o ∈ operand :: operands, o.logicalOperator? ≠ some operator) :
    Node.joined operator operand (chained operator operands)
      = .connective operator (operand :: operands) := by
  have hfirst := Node.spliced_of_ne (hkind operand List.mem_cons_self)
  match operands, hne with
  | [last], _ =>
      have hlast := Node.spliced_of_ne (hkind last (by simp))
      simp [chained, Node.joined, Node.flattened, hfirst, hlast]
  | second :: third :: others, _ =>
      simp [chained, Node.joined, Node.flattened, hfirst, Node.spliced_connective]

/-- Operands are read back together if each of them is. None of them is a connective of the same
operator, so that nothing is spliced. -/
theorem readAs_operands {v : Bool} {operator : LogicalOperator} {operands : List Node}
    (hne : operands ≠ []) (hkind : ∀ o ∈ operands, o.logicalOperator? ≠ some operator)
    (h : ∀ o ∈ operands, ReadAs .primary v (o.asOperand o.render) o) :
    ReadAs .expression v (Node.renderOperands none operator operands)
      (chained operator operands) := by
  induction operands with
  | nil => contradiction
  | cons operand operands ih =>
      have hfirst := h operand List.mem_cons_self
      cases operands with
      | nil => exact hfirst.single
      | cons second others =>
          have hkind' : ∀ o ∈ second :: others, o.logicalOperator? ≠ some operator :=
            fun o ho => hkind o (List.mem_cons_of_mem operand ho)
          have hrest := ih (by simp) hkind' fun o ho => h o (List.mem_cons_of_mem operand ho)
          -- The text is read from the right: the first operand is joined to what the others gave.
          show ReadAs _ _ _ (.connective operator (operand :: second :: others))
          rw [← joined_chained (by simp) hkind]
          exact hfirst.joined hrest operator

/-- Every tree that is built from comparisons that are read back, and value paths that are read back
outside of value paths, is read back. -/
theorem readAs_of_built {V : AttributePath → Node → Prop} {n : Node}
    (h : n.Built Comparison.Writable V) (v : Bool)
    (hV : ∀ path predicate, V path predicate → v = false ∧
      ReadAs .primary false (Node.render (.valuePath path predicate none))
        (.valuePath path predicate none)) :
    ReadAs .expression v n.render n ∧ ReadAs .primary v (n.asOperand n.render) n := by
  induction h generalizing v with
  | comparison hc =>
      have hprimary := readAs_comparison hc v
      exact ⟨hprimary.single, hprimary⟩
  | @negation inner hinner ih =>
      have hprimary := (ih v hV).1.enclosed.negation
      have htext : "not " ++ ("(" ++ inner.render ++ ")") = Node.render (.negation inner) := by
        rw [← String.append_assoc, ← String.append_assoc]
        rfl
      rw [htext] at hprimary
      exact ⟨hprimary.single, hprimary⟩
  | @connective operator operands htwo hkind hoperands ih =>
      have hne : operands ≠ [] := by
        rintro rfl
        simp at htwo
      have hchained : chained operator operands = .connective operator operands := by
        match operands, htwo with
        | _ :: _ :: _, _ => rfl
      have hexpression : ∀ v, (∀ path predicate, V path predicate → v = false ∧
          ReadAs .primary false (Node.render (.valuePath path predicate none))
            (.valuePath path predicate none)) →
          ReadAs .expression v (Node.render (.connective operator operands))
            (.connective operator operands) := by
        intro v hV
        have hoperands := readAs_operands hne hkind fun o ho => (ih o ho v hV).2
        rw [hchained] at hoperands
        exact hoperands
      refine ⟨hexpression v hV, ?_⟩
      -- The parentheses around an operand forget about the value path.
      exact ReadAs.group
        (hexpression false fun path predicate hv => ⟨rfl, (hV path predicate hv).2⟩).enclosed v
  | valuePath hv =>
      obtain ⟨rfl, hprimary⟩ := hV _ _ hv
      exact ⟨hprimary.single, hprimary⟩

/-- A predicate is read back wherever it stands. -/
theorem readAs_of_isPredicate {n : Node} (h : n.IsPredicate Comparison.Writable) (v : Bool) :
    ReadAs .expression v n.render n :=
  (readAs_of_built h v fun _ _ hv => hv.elim).1

/-- A value path is read back if its predicate is a predicate of its collection. -/
theorem readAs_valuePath {collection : AttributePath} {predicate : Node}
    (hcollection : collection.Lexable) (hsingle : collection.length = 1)
    (hpredicate : predicate.IsPredicate (Comparison.WritableIn collection)) :
    ReadAs .primary false (Node.render (.valuePath collection predicate none))
      (.valuePath collection predicate none) := by
  -- What is between the brackets is the text of the predicate without the collection.
  have hrelative : (predicate.relativeTo collection).IsPredicate Comparison.Writable :=
    hpredicate.mapPaths fun c hc => hc.relative
  have hunder : (predicate.relativeTo collection).under collection = predicate :=
    hpredicate.mapPaths_cancel fun c hc => hc.prefixedBy_relative
  have hpath := hcollection.ofName_render
  have hread := ReadAs.valuePath hcollection.isName (by rw [hpath, hsingle]) hrelative.simple
    (readAs_of_isPredicate hrelative true)
  rw [hpath, hunder, ← Node.renderIn_eq_render_relativeTo collection hpredicate] at hread
  exact hread

/-- The tree of a filter is read back if it can be written. -/
theorem readAs_of_writable {n : Node} (h : n.Writable) : ReadAs .expression false n.render n := by
  refine (readAs_of_built h false ?_).1
  rintro collection predicate ⟨hcollection, hsingle, hpredicate⟩
  exact ⟨rfl, readAs_valuePath hcollection hsingle hpredicate⟩

/-- The whole of a text is a filter if the text is read as a tree in front of every delimiter, as
the end of the text is one. -/
theorem parseFilter_of_readAs {text : String} {n : Node}
    (h : ReadAs .expression false text n) : parseFilter text = .ok (some n) := by
  obtain ⟨ts, hscan, hderives⟩ := h [] delimited_nil 0
  rw [List.append_nil, ← tokensFrom_eq_ok_iff, ← List.append_nil ts] at hscan
  exact parseFilter_of_derives hscan (by simp [EndsBefore]) hderives

/-- A tree whose parts can be written is read back from its text. -/
theorem parseFilter_render {n : Node} (h : n.Writable) : parseFilter n.render = .ok (some n) :=
  parseFilter_of_readAs (readAs_of_writable h)

/-- A connective in a connective, and a value path that is negated. -/
theorem parseFilter_render_nested :
    ∃ n : Node, n.Writable ∧
      n.render = "urn:a:x.y pr and (not (emails[type eq \"w )\" or pr-1 le 4.5]) or b ge 7)" ∧
      parseFilter n.render = .ok (some n) := by
  have hcomparable : ∀ p ∈ [(⟨some "urn:a", "x", ["y"]⟩ : AttributePath), .ofSingle "b",
      .ofSingle "type", .ofSingle "pr-1"], p.Comparable := by
    simp only [List.forall_mem_cons, List.not_mem_nil, false_implies, implies_true, and_true]
    refine ⟨?_, ?_, ?_, ?_⟩ <;> exact ⟨⟨by decide +kernel, by decide +kernel⟩, by decide +kernel⟩
  have hpair : ∀ {P : Node → Prop} {a b : Node}, P a → P b → ∀ o ∈ [a, b], P o := by
    simp +contextual
  have hemails : (AttributePath.ofSingle "emails").Lexable :=
    ⟨by decide +kernel, by decide +kernel⟩
  -- The two comparisons in the value path, and the path as a whole.
  have htype : Comparison.WritableIn (.ofSingle "emails")
      (.make ⟨none, "emails", ["type"]⟩ .eq (some (.string "w )"))) :=
    ⟨⟨.ofSingle "type", rfl, hcomparable _ (by simp), rfl⟩, by
      simp [Comparison.make, Comparison.literalFor, Operator.isUnary, Value.Writable]⟩
  have hscore : Comparison.WritableIn (.ofSingle "emails")
      (.make ⟨none, "emails", ["pr-1"]⟩ .le (some (.float ⟨0x4012000000000000⟩))) :=
    ⟨⟨.ofSingle "pr-1", rfl, hcomparable _ (by simp), rfl⟩, by
      simp only [Comparison.make, Comparison.literalFor, Operator.isUnary, Option.mem_def]
      rintro v ⟨rfl⟩
      exact ⟨by decide +kernel, by decide +kernel⟩⟩
  have hn : Node.Writable (.connective .and [.comparison (.present ⟨some "urn:a", "x", ["y"]⟩),
      .connective .or [
        .negation (.valuePath (.ofSingle "emails") (.connective .or [
          .comparison (.make ⟨none, "emails", ["type"]⟩ .eq (some (.string "w )"))),
          .comparison (.make ⟨none, "emails", ["pr-1"]⟩ .le
            (some (.float ⟨0x4012000000000000⟩)))]) none),
        .comparison (.make (.ofSingle "b") .ge (some (.integer 7)))]]) := by
    refine .connective (by simp) (by simp [Node.logicalOperator?]) (hpair ?_ ?_)
    · exact .comparison ⟨hcomparable _ List.mem_cons_self, by simp [Comparison.present,
        Comparison.make, Comparison.literalFor, Operator.isUnary]⟩
    · refine .connective (by simp) (by simp [Node.logicalOperator?])
        (hpair (.negation (.valuePath ⟨hemails, rfl, ?_⟩)) (.comparison ⟨?_, ?_⟩))
      · exact .connective (by simp) (by simp [Node.logicalOperator?])
          (hpair (.comparison htype) (.comparison hscore))
      · exact hcomparable _ (by simp [Comparison.make])
      · simp only [Comparison.make, Comparison.literalFor, Operator.isUnary, Option.mem_def]
        rintro v ⟨rfl⟩
        show 0 ≤ (7 : Int64).toInt
        decide
  exact ⟨_, hn, by decide +kernel, parseFilter_render hn⟩

end Scim
