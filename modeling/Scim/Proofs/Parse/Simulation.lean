import Scim.Parse.Filter
import Scim.Parse.Path
import Scim.Proofs.Parse.Steps

/-!
# `Scim.Proofs.Parse.Simulation`: other ways to carry out the grammar

The grammar is written once, for any operations and any way to read a body. Here is what that is
good for: to compare another way with that of the program it is enough to compare the operations.

`Simulation` is a relation between what is read in another way and an attempt of the program. All
that it must do is to hold of values and to be kept by steps in a row. The rest is one condition for
each operation, `Operations.Simulates`, and for reading what is inside of an expression,
`Reading.Simulates`. The results:

* `Reading.Simulates.expression`: then the expressions are related too. There is one lemma for each
  rule of the grammar, from `Operations.Simulates.comparison` to `Reading.Simulates.connective`.
* `Parser.Simulates.filter` and `Parser.Simulates.path`: so are the results on whole texts.
* `Policy.Simulates.expression` and `Policy.Simulates.parser`: for reading from lists with another
  policy, it is enough to compare what happens to bodies and errors. This ties the knot, by
  induction on the weight.

It is enough to compare on tokens that come from a scan, since the program has no others. An error
that needs a literal without a value, or a logical operator that is none, is compared only where
there are some (`Fault.Raised`).
-/

set_option autoImplicit false

namespace Scim

open Attempt

/-- A relation between what is read in some way and an attempt to read it, which steps in a row
keep. What follows a step only counts where the attempt succeeds. -/
structure Simulation (m : Type → Type) [Monad m] where
  Rel : {α : Type} → m α → Attempt α → Prop
  rel_pure : ∀ {α : Type} (x : α), Rel (pure x) (pure x)
  rel_bind : ∀ {α β : Type} {g : m α} {a : Attempt α} {k : α → m β} {k' : α → Attempt β},
    Rel g a → (∀ x, a.outcome = .ok x → Rel (k x) (k' x)) → Rel (g >>= k) (a >>= k')

/-- What can be wrong on tokens of a scan. A literal must have no value, and a logical operator must
not be read. -/
def Fault.Raised (mode : Mode) : Fault → Prop
  | .literal t =>
    (∃ ts, Scanned mode (t :: ts)) ∧ t.kind ∈ TokenKind.literals ∧ t.literal? = none
  | .connective t =>
    (∃ ts, Scanned mode (t :: ts)) ∧ t.kind ∈ [TokenKind.logicalOperator] ∧
      ∀ o, LogicalOperator.read t.text ≠ .ok o
  | _ => True

variable {m : Type → Type} [Monad m]

/-- Operations that do, up to a relation, what those of the program do on the tokens of a scan. -/
structure Operations.Simulates (sim : Simulation m) (mode : Mode) (ops : Operations m) :
    Prop where
  scan : ∀ input,
    sim.Rel (ops.scan mode input) ((Policy.rescanning mode).operations.scan mode input)
  take : ∀ kinds s, sim.Rel (ops.take kinds s) (takeToken kinds s)
  pathOf : ∀ name, sim.Rel (ops.pathOf name) (pure (.ofName name))
  literal? : ∀ {t ts}, Scanned mode (t :: ts) → sim.Rel (ops.literal? t) (pure t.literal?)
  subAttribute : ∀ {t ts}, Scanned mode (t :: ts) → t.kind = .subAttribute →
    sim.Rel (ops.subAttribute t) (pure (String.ofList t.text.toList.tail))
  remaining : ∀ s, sim.Rel (ops.remaining s) (pure s.rest.length)
  note : ∀ e, sim.Rel (ops.note e) (.note e)
  refuse : ∀ {α : Type} s fault, fault.Raised mode →
    sim.Rel (ops.refuse s fault : m α) (.fail (s.error fault))

/-- What is known of the streams that are read from, their tokens coming from a scan. It must stay
true wherever reading leads to. -/
structure Invariant (mode : Mode) where
  Holds : TokenStream → Prop
  scanned : ∀ {s}, Holds s → Scanned mode s.rest
  follow : ∀ {s t : TokenStream}, Holds s → t.Follows s → Holds t

/-- A reading that does, up to a relation, what that of the program does: its operations and what it
reads inside of an expression. -/
structure Reading.Simulates {mode : Mode} (sim : Simulation m) (inv : Invariant mode)
    {s : TokenStream} (r : Reading m s) (read : Lighter Attempt s) : Prop extends
    r.toOperations.Simulates sim mode where
  enclosed : ∀ empty t ht v, inv.Holds t → sim.Rel (r.enclosed empty t ht v)
    (((Policy.rescanning mode).reading s read).enclosed empty t ht v)
  read : ∀ t ht v, inv.Holds t → sim.Rel (r.read t ht v) (read t ht v)

variable {sim : Simulation m} {mode : Mode} {s : TokenStream}

/-! ### Expressions -/

/-- A comparison reads nothing but tokens. -/
theorem Operations.Simulates.comparison {ops : Operations m} (h : ops.Simulates sim mode)
    (hs : Scanned mode s.rest) (path : AttributePath) :
    sim.Rel (ops.comparison path s) ((Policy.rescanning mode).operations.comparison path s) := by
  refine sim.rel_bind (h.take _ s) fun word _ => ?_
  cases Operator.read word.value.text with
  | error e => exact h.refuse s _ trivial
  | ok operator =>
      dsimp only
      split
      · exact sim.rel_pure _
      · refine sim.rel_bind (h.take _ word.rest) fun literal hliteral => ?_
        obtain ⟨hrest, hkind⟩ := rest_of_takeToken hliteral
        have hscanned := word.follows.scanned hs
        rw [hrest] at hscanned
        refine sim.rel_bind (h.literal? hscanned) fun value? hvalue => ?_
        obtain rfl : literal.value.literal? = value? := Except.ok.inj hvalue
        cases hnone : literal.value.literal? with
        | none => exact h.refuse s _ ⟨⟨_, hscanned⟩, hkind, hnone⟩
        | some value => exact sim.rel_pure _

/-- A sub-attribute is read alike, since its text is that of a token of the scan. -/
theorem Operations.Simulates.withSubAttribute {ops : Operations m} (h : ops.Simulates sim mode)
    (hs : Scanned mode s.rest) (valuePath : ValuePath) :
    sim.Rel (ops.withSubAttribute valuePath s)
      ((Policy.rescanning mode).operations.withSubAttribute valuePath s) := by
  unfold Operations.withSubAttribute
  split
  · refine sim.rel_bind (h.take _ s) fun sub hsub => ?_
    obtain ⟨hrest, hkind⟩ := rest_of_takeToken hsub
    rw [hrest] at hs
    exact sim.rel_bind (h.subAttribute hs (List.mem_singleton.mp hkind)) fun _ _ => sim.rel_pure _
  · exact sim.rel_pure _

namespace Reading.Simulates

variable {inv : Invariant mode} {r : Reading m s} {read : Lighter Attempt s}

/-- Behind a step there are only fewer streams to compare on. -/
theorem after (h : r.Simulates sim inv read) {α : Type} (step : Step s α) :
    (r.after step).Simulates sim inv fun t ht => read t (Nat.lt_trans ht step.lighter) where
  toSimulates := h.toSimulates
  read t _ v ht := h.read t _ v ht
  enclosed empty t _ v ht := h.enclosed empty t _ v ht

variable (h : r.Simulates sim inv read) (hs : inv.Holds s)
include h hs

/-- A value path reads two tokens and a predicate between them. -/
theorem valuePath (collection : AttributePath) :
    sim.Rel (r.valuePath collection)
      (((Policy.rescanning mode).reading s read).valuePath collection) := by
  refine sim.rel_bind (h.take _ s) fun bracket _ => ?_
  refine sim.rel_bind (h.read _ _ true (inv.follow hs bracket.follows)) fun predicate _ => ?_
  refine sim.rel_bind (h.take _ predicate.rest) fun closing _ => ?_
  cases predicate.value.bind (Node.rootedAt? collection) with
  | none => exact sim.rel_bind (h.note _) fun _ _ => h.refuse _ _ trivial
  | some rooted => exact sim.rel_pure _

/-- What starts with a name is read alike, whichever of the two it is. -/
theorem named (v : Bool) :
    sim.Rel (r.named v) (((Policy.rescanning mode).reading s read).named v) := by
  refine sim.rel_bind (h.take _ s) fun name _ => ?_
  refine sim.rel_bind (h.pathOf _) fun path _ => ?_
  have hname := inv.follow hs name.follows
  split
  · split
    · exact h.refuse _ _ trivial
    · exact sim.rel_bind ((h.after name).valuePath hname path) fun _ _ => sim.rel_pure _
  · exact sim.rel_bind (h.comparison (inv.scanned hname) path) fun _ _ => sim.rel_pure _

/-- A negation reads its keyword and a group. -/
theorem negation (v : Bool) :
    sim.Rel (r.negation v) (((Policy.rescanning mode).reading s read).negation v) := by
  refine sim.rel_bind (h.take _ s) fun word _ => ?_
  exact sim.rel_bind (h.enclosed _ _ _ v (inv.follow hs word.follows)) fun _ _ => sim.rel_pure _

/-- The first operand is told by the same token. -/
theorem primary (v : Bool) :
    sim.Rel (r.primary v) (((Policy.rescanning mode).reading s read).primary v) := by
  unfold Reading.primary
  split
  · exact h.enclosed _ s _ false hs
  split
  · exact h.negation hs v
  split
  · exact sim.rel_bind (h.named hs v) fun _ _ => sim.rel_pure _
  · exact h.refuse s _ trivial

/-- The right operand is an expression further on. A logical operator that cannot be read is an
error that only counts if there is one. -/
theorem connective (left : Node) (v : Bool) :
    sim.Rel (r.connective left v)
      (((Policy.rescanning mode).reading s read).connective left v) := by
  refine sim.rel_bind (h.take _ s) fun word hword => ?_
  obtain ⟨hrest, hkind⟩ := rest_of_takeToken hword
  have hscanned := inv.scanned hs
  rw [hrest] at hscanned
  cases hread : LogicalOperator.read word.value.text with
  | error e => exact h.refuse s _ ⟨⟨_, hscanned⟩, hkind, by simp [hread]⟩
  | ok operator =>
      refine sim.rel_bind (h.read _ _ v (inv.follow hs word.follows)) fun right _ => ?_
      cases right.value with
      | none => exact sim.rel_bind (h.note _) fun _ _ => h.refuse _ _ trivial
      | some node => exact sim.rel_pure _

/-- Readings whose operations are related, and what they read inside of an expression, read related
expressions. -/
theorem expression (v : Bool) :
    sim.Rel (r.expression v) (((Policy.rescanning mode).reading s read).expression v) := by
  refine sim.rel_bind (h.primary hs v) fun first _ => ?_
  cases first.value with
  | none => exact sim.rel_pure _
  | some left =>
      dsimp only
      split
      · exact sim.rel_bind ((h.after first).connective (inv.follow hs first.follows) left v)
          fun _ _ => sim.rel_pure _
      · exact sim.rel_pure _

/-- So are filters, whatever is recorded about the tokens that are left. -/
theorem filter (input : String) :
    sim.Rel (r.filter input) (((Policy.rescanning mode).reading s read).filter input) := by
  refine sim.rel_bind (h.expression hs false) fun step _ => ?_
  split
  · refine sim.rel_bind (h.remaining _) fun count _ => ?_
    exact sim.rel_bind (h.note _) fun _ _ => sim.rel_pure _
  · exact sim.rel_pure _

/-- So are paths. They read tokens, a predicate, and a sub-attribute behind it. -/
theorem path : sim.Rel r.path ((Policy.rescanning mode).reading s read).path := by
  unfold Reading.path
  split
  · exact h.refuse _ _ trivial
  refine sim.rel_bind (h.take _ _) fun name _ => ?_
  refine sim.rel_bind (h.pathOf _) fun path _ => ?_
  -- A path may be refused before, between and behind its parts, for the same fault in both.
  have hname := inv.follow hs name.follows
  split
  · exact sim.rel_pure _
  split
  · exact h.refuse _ _ trivial
  split
  · exact h.refuse _ _ trivial
  refine sim.rel_bind ((h.after name).valuePath hname path) fun step _ => ?_
  have hstep := inv.scanned (inv.follow hname step.follows)
  refine sim.rel_bind (h.withSubAttribute hstep step.value) fun found _ => ?_
  dsimp only
  split
  · exact h.refuse _ _ trivial
  · exact sim.rel_pure _

end Reading.Simulates

/-! ### Whole texts -/

/-- A parser that does, up to a relation, what that of the program does on a text. What it knows of
a stream may depend on the stream that the text was divided into. -/
structure Parser.Simulates (sim : Simulation m) (mode : Mode) (input : String) (p : Parser m) :
    Prop extends p.toOperations.Simulates sim mode where
  reading : ∀ {tokens}, (Scim.scan mode input 0 input.toList).outcome = .ok tokens →
    ∃ inv : Invariant mode, inv.Holds tokens.val ∧
      (p.reading tokens.val).Simulates sim inv fun t _ => (Policy.rescanning mode).expression t

/-- The stream that a text is divided into is that of a scan. -/
theorem exists_scan_of_operations_scan {policy : Policy} {input : String} {s : TokenStream}
    (h : (policy.operations.scan mode input).outcome = .ok s) :
    ∃ tokens, (scan mode input 0 input.toList).outcome = .ok tokens ∧ tokens.val = s := by
  obtain ⟨tokens, htokens, hs⟩ := outcome_bind_eq_ok_iff.mp h
  exact ⟨tokens, htokens, Except.ok.inj hs⟩

/-- A parser that does what the program does on a text reads a related filter from it. -/
theorem Parser.Simulates.filter {p : Parser m} {input : String}
    (h : p.Simulates sim .filter input) : sim.Rel (p.filter input) (attemptFilter input) := by
  refine sim.rel_bind (h.note _) fun _ _ => ?_
  refine sim.rel_bind (h.scan input) fun s hs => ?_
  obtain ⟨tokens, htokens, rfl⟩ := exists_scan_of_operations_scan hs
  obtain ⟨inv, hinv, hread⟩ := h.reading htokens
  exact hread.filter hinv input

/-- And a related path. -/
theorem Parser.Simulates.path {p : Parser m} {input : String} (h : p.Simulates sim .path input) :
    sim.Rel (p.path input) (attemptPath input) := by
  refine sim.rel_bind (h.note _) fun _ _ => ?_
  refine sim.rel_bind (h.scan input) fun s hs => ?_
  obtain ⟨tokens, htokens, rfl⟩ := exists_scan_of_operations_scan hs
  obtain ⟨inv, hinv, hread⟩ := h.reading htokens
  exact hread.path hinv

/-! ### Other policies -/

/-- All that is known of a stream is that its tokens come from a scan. -/
def Invariant.ofScan (mode : Mode) : Invariant mode where
  Holds s := Scanned mode s.rest
  scanned := id
  follow h ht := ht.scanned h

/-- A policy that does, up to a relation, what that of the program does with bodies and errors. -/
structure Policy.Simulates (sim : Simulation Attempt) (mode : Mode) (policy : Policy) : Prop where
  rel_refl : ∀ {α : Type} (a : Attempt α), sim.Rel a a
  error : ∀ {α : Type} s fault, fault.Raised mode →
    sim.Rel (.fail (policy.error s fault) : Attempt α) (.fail (s.error fault))
  body : ∀ {s} {read read' : Lighter Attempt s} (group : Group s) (v : Bool),
    Scanned mode s.rest →
    (∀ t ht v, Scanned mode t.rest → sim.Rel (read t ht v) (read' t ht v)) →
    sim.Rel (policy.body s read group v) (readBody mode s read' group v)

namespace Policy.Simulates

variable {sim : Simulation Attempt} {policy : Policy} (h : policy.Simulates sim mode)
include h

/-- The steps do not depend on the policy, apart from errors. -/
theorem operations : policy.operations.Simulates sim mode where
  scan _ := h.rel_refl _
  take _ _ := h.rel_refl _
  pathOf _ := h.rel_refl _
  literal? _ := h.rel_refl _
  subAttribute _ _ := h.rel_refl _
  remaining _ := h.rel_refl _
  note _ := h.rel_refl _
  refuse := h.error

/-- A group is found in the same way, so it is read alike if its body is. -/
theorem enclosed {read read' : Lighter Attempt s} (hs : Scanned mode s.rest)
    (hread : ∀ t ht v, Scanned mode t.rest → sim.Rel (read t ht v) (read' t ht v))
    (empty : Nat → Event) (v : Bool) :
    sim.Rel (policy.enclosed s read empty v) ((rescanning mode).enclosed s read' empty v) := by
  refine sim.rel_bind (h.rel_refl _) fun group _ => ?_
  split
  · exact h.rel_refl _
  · exact sim.rel_bind (h.body group v hs hread) fun _ _ => sim.rel_pure _

/-- Reading with the policy simulates reading with that of the program, if it does on lighter
streams. -/
theorem reading {read read' : Lighter Attempt s}
    (hread : ∀ t ht v, Scanned mode t.rest → sim.Rel (read t ht v) (read' t ht v)) :
    (policy.reading s read).Simulates sim (.ofScan mode) read' where
  toSimulates := h.operations
  read := hread
  enclosed empty _ _ v ht := h.enclosed ht (fun u _ v hu => hread u _ v hu) empty v

/-- The expressions that are read with such a policy are related. -/
theorem expression (hs : Scanned mode s.rest) (v : Bool) :
    sim.Rel (policy.expression s v) ((rescanning mode).expression s v) := by
  -- Both recur on lighter streams, so the weight carries the induction.
  induction hw : s.weight using Nat.strongRecOn generalizing s v with
  | ind w ih =>
      subst hw
      rw [Policy.expression, Policy.expression]
      refine (h.reading ?_).expression hs v
      intro t ht v hscanned
      exact ih t.weight ht hscanned v rfl

/-- So does the parser, since a text is divided in the same way. -/
theorem parser (input : String) : policy.parser.Simulates sim mode input where
  toSimulates := h.operations
  reading htokens :=
    ⟨.ofScan mode, scanned_of_scan htokens, h.reading fun _ _ v ht => h.expression ht v⟩

end Policy.Simulates

end Scim
