import Mathlib.Data.List.Induction
import Mathlib.Data.List.Lex
import Scim.Node.Ancestry
import Scim.Proofs.Node.Shape

/-!
# `Scim.Proofs.Node.Ancestry`: the index of parents is exact

An `Ancestry` is a list of entries that refer to each other by number. `Ancestry.Mirrors` says what
this list has to do with a tree: every node is on it once, in the order of the walk, and following
the numbers up from a node leads to the node whose address is one index shorter, and so on to the
root. `mirrors_ofTree` is the result.

The walk treats every kind of node in the same way (`record_eq`), so there is one induction over it,
`walk_ind`, and each fact about the walk is a case of it:

* `map_node_record`: the nodes are recorded in the order of the traversal.
* `recorded_iff`: an address is recorded if it leads down to a node, and with that node.
* `pairwise_record`: addresses are recorded in lexicographic order, so none twice.
* `linked_record`: an entry has its parent further up on the list. Numbers count from where a walk
  starts, so a fact about them has to move along with the list it is about (`LinkedAt`).

For the whole tree these become statements about what an index answers:

* `number?_eq_some_iff`, `contains_iff`, `parent?_append`: which nodes there are, under which number
  and below which parent.
* `ancestorNumbers_eq` and `ancestors_eq`: the ancestors are the parent and its ancestors. A parent
  stands in front of its children (`parentNumber?_lt`), which is why following the numbers ends and
  is never cut short.
* `hasParent_iff` and `hasParent_ancestor_iff`: what is asked of a parent, or of any ancestor, is
  answered by the tree.
-/

set_option autoImplicit false

namespace Scim

namespace Node

/-- Induction over a tree, child by child. -/
theorem ind_children {motive : Node → Prop}
    (step : ∀ node : Node, (∀ child ∈ node.children, motive child) → motive node) (node : Node) :
    motive node := by
  induction node with
  | attributePath path => exact step _ (by simp [children])
  | comparison c => exact step _ (by simp [children])
  | negation inner ih => exact step _ (by simpa [children] using ih)
  | connective operator operands ih => exact step _ ih
  | valuePath path predicate sub ih => exact step _ (by simpa [children] using ih)

/-- The traversal is the node and the traversals of its children. -/
theorem preorder_eq (node : Node) : node.preorder = node :: node.children.flatMap preorder := by
  cases node <;> simp [preorder, children]

/-- A way down can be gone in two parts. -/
theorem get?_append (node : Node) (address way : List Nat) :
    node.get? (address ++ way) = (node.get? address).bind (·.get? way) := by
  induction address generalizing node with
  | nil => rfl
  | cons i address ih =>
      rw [List.cons_append, get?, get?, Option.bind_assoc]
      simp only [ih]

end Node

namespace Ancestry

/-! ### The walk -/

/-- A node is recorded in front of its children, and these one after the other. -/
theorem record_eq (address : List Nat) (parent? : Option Nat) (number : Nat) (node : Node) :
    record address parent? number node
      = ⟨address, node, parent?⟩ :: recordAll address number 0 (number + 1) node.children := by
  cases node <;> simp [record, recordAll, Node.children]

/-- Induction over a walk: what holds of the entries of children, one after the other, holds of the
entries of the node. -/
theorem walk_ind {P : List Nat → Option Nat → Nat → Node → List Entry → Prop}
    {Q : List Nat → Nat → Nat → Nat → List Node → List Entry → Prop}
    (node : ∀ address parent? number node entries,
      Q address number 0 (number + 1) node.children entries →
        P address parent? number node (⟨address, node, parent?⟩ :: entries))
    (nil : ∀ address parent index number, Q address parent index number [] [])
    (cons : ∀ address parent index number child nodes first others,
      P (address ++ [index]) (some parent) number child first →
        Q address parent (index + 1) (number + first.length) nodes others →
          Q address parent index number (child :: nodes) (first ++ others))
    (root : Node) (address : List Nat) (parent? : Option Nat) (number : Nat) :
    P address parent? number root (record address parent? number root) := by
  induction root using Node.ind_children generalizing address parent? number with
  | step root ih =>
      -- The children are walked over from left to right, each by the hypothesis for a child.
      have hall : ∀ (nodes : List Node) (index next : Nat),
          (∀ child ∈ nodes, child ∈ root.children) →
          Q address number index next nodes (recordAll address number index next nodes) := by
        intro nodes
        induction nodes with
        | nil =>
            intro index next _
            exact nil address number index next
        | cons child nodes ihnodes =>
            intro index next hnodes
            rw [List.forall_mem_cons] at hnodes
            rw [recordAll]
            exact cons _ _ _ _ _ _ _ _ (ih child hnodes.1 _ _ _) (ihnodes _ _ hnodes.2)
      rw [record_eq]
      exact node _ _ _ _ _ (hall _ _ _ fun _ hchild => hchild)

/-- Nodes are recorded in the order of the traversal. -/
theorem map_node_record (root : Node) (address : List Nat) (parent? : Option Nat) (number : Nat) :
    (record address parent? number root).map (·.node) = root.preorder := by
  refine walk_ind (P := fun _ _ _ node entries => entries.map (·.node) = node.preorder)
    (Q := fun _ _ _ _ nodes entries => entries.map (·.node) = nodes.flatMap Node.preorder)
    ?_ ?_ ?_ root address parent? number
  · intro address parent? number node entries hentries
    rw [List.map_cons, hentries, Node.preorder_eq]
  · intro address parent index number
    rfl
  · intro address parent index number child nodes first others hfirst hothers
    rw [List.map_append, hfirst, hothers, List.flatMap_cons]

/-! ### Addresses -/

/-- A node is recorded at an address if that leads from the start of the walk down to the node. -/
theorem recorded_iff (root : Node) (address : List Nat) (parent? : Option Nat) (number : Nat)
    (place : List Nat) (node : Node) :
    (∃ e ∈ record address parent? number root, e.address = place ∧ e.node = node) ↔
      ∃ way, place = address ++ way ∧ root.get? way = some node := by
  refine walk_ind
    (P := fun address _ _ root entries => ∀ place node,
      (∃ e ∈ entries, e.address = place ∧ e.node = node) ↔
        ∃ way, place = address ++ way ∧ root.get? way = some node)
    (Q := fun address _ index _ nodes entries => ∀ place node,
      (∃ e ∈ entries, e.address = place ∧ e.node = node) ↔
        ∃ i way child, nodes[i]? = some child ∧ place = address ++ (index + i) :: way ∧
          child.get? way = some node)
    ?_ ?_ ?_ root address parent? number place node
  · intro address parent? number root entries hentries place node
    rw [List.exists_mem_cons_iff, hentries]
    constructor
    · rintro (⟨rfl, rfl⟩ | ⟨i, way, child, hchild, rfl, hway⟩)
      · exact ⟨[], (List.append_nil address).symm, rfl⟩
      · refine ⟨i :: way, by simp, ?_⟩
        rw [Node.get?, hchild]
        exact hway
    · rintro ⟨way, rfl, hway⟩
      cases way with
      | nil => exact .inl ⟨(List.append_nil address).symm, Option.some.inj hway⟩
      | cons i way =>
          rw [Node.get?] at hway
          obtain ⟨child, hchild, hway⟩ := Option.bind_eq_some_iff.mp hway
          exact .inr ⟨i, way, child, hchild, by simp, hway⟩
  · intro address parent index number place node
    simp
  · intro address parent index number child nodes first others hfirst hothers place node
    -- Of the children, the first one is at the index, and the others are further on.
    simp only [List.mem_append, or_and_right, exists_or, hfirst, hothers]
    constructor
    · rintro (⟨way, rfl, hway⟩ | ⟨i, way, child', hchild, rfl, hway⟩)
      · exact ⟨0, way, child, rfl, by simp, hway⟩
      · exact ⟨i + 1, way, child', hchild, by simp; omega, hway⟩
    · rintro ⟨i, way, child', hchild, rfl, hway⟩
      cases i with
      | zero =>
          cases hchild
          exact .inl ⟨way, by simp, hway⟩
      | succ i => exact .inr ⟨i, way, child', hchild, by simp; omega, hway⟩

/-- Addresses are recorded in lexicographic order, so none twice. -/
theorem pairwise_record (root : Node) (address : List Nat) (parent? : Option Nat) (number : Nat) :
    (record address parent? number root).Pairwise (·.address < ·.address) := by
  -- What is below a child starts with the index of that child, so the children are ordered by it.
  have hbelow : ∀ (address way : List Nat) (i : Nat), address < address ++ i :: way := by
    intro address way i
    have hlex := List.Lex.append_left (· < ·) (List.Lex.nil (a := i) (l := way)) address
    rwa [List.append_nil] at hlex
  have hbeside : ∀ (address way way' : List Nat) (i j : Nat), i < j →
      address ++ i :: way < address ++ j :: way' := by
    intro address way way' i j hij
    exact List.Lex.append_left (· < ·) (List.Lex.rel hij) address
  refine (walk_ind
    (P := fun address _ _ _ entries => entries.Pairwise (·.address < ·.address) ∧
      ∀ e ∈ entries, ∃ way, e.address = address ++ way)
    (Q := fun address _ index _ _ entries => entries.Pairwise (·.address < ·.address) ∧
      ∀ e ∈ entries, ∃ i way, index ≤ i ∧ e.address = address ++ i :: way)
    ?_ ?_ ?_ root address parent? number).1
  · intro address parent? number node entries hentries
    refine ⟨List.pairwise_cons.mpr ⟨?_, hentries.1⟩, List.forall_mem_cons.mpr ⟨?_, ?_⟩⟩
    · intro e he
      obtain ⟨i, way, -, hway⟩ := hentries.2 e he
      rw [hway]
      exact hbelow address way i
    · exact ⟨[], (List.append_nil address).symm⟩
    · intro e he
      obtain ⟨i, way, -, hway⟩ := hentries.2 e he
      exact ⟨i :: way, hway⟩
  · intro address parent index number
    simp
  · intro address parent index number child nodes first others hfirst hothers
    have hchild : ∀ e ∈ first, ∃ way, e.address = address ++ index :: way := by
      intro e he
      obtain ⟨way, hway⟩ := hfirst.2 e he
      exact ⟨way, by simpa using hway⟩
    refine ⟨List.pairwise_append.mpr ⟨hfirst.1, hothers.1, ?_⟩, ?_⟩
    · intro e he f hf
      obtain ⟨way, hway⟩ := hchild e he
      obtain ⟨i, way', hi, hway'⟩ := hothers.2 f hf
      rw [hway, hway']
      exact hbeside address way way' index i hi
    · intro e he
      cases List.mem_append.mp he with
      | inl he =>
          obtain ⟨way, hway⟩ := hchild e he
          exact ⟨index, way, Nat.le_refl index, hway⟩
      | inr he =>
          obtain ⟨i, way, hi, hway⟩ := hothers.2 e he
          exact ⟨i, way, by omega, hway⟩

/-! ### Numbers -/

/-- The entry `e`, which has the given place on the list, has its parent further up on it, where the
entries are numbered from `start` on. -/
def LinkedAt (entries : List Entry) (start place : Nat) (e : Entry) : Prop :=
  ∃ above f i, above < place ∧ entries[above]? = some f ∧ e.parent? = some (start + above) ∧
    e.address = f.address ++ [i]

/-- More entries behind an entry change nothing for it. -/
theorem LinkedAt.append {entries : List Entry} {start place : Nat} {e : Entry}
    (h : LinkedAt entries start place e) (others : List Entry) :
    LinkedAt (entries ++ others) start place e := by
  obtain ⟨above, f, i, habove, hf, hparent, haddress⟩ := h
  have hlength := (List.getElem?_eq_some_iff.mp hf).1
  refine ⟨above, f, i, habove, ?_, hparent, haddress⟩
  rw [List.getElem?_append_left hlength, hf]

/-- With more entries in front of it, an entry and its parent move on alike. -/
theorem LinkedAt.prepend {entries : List Entry} {start place : Nat} {e : Entry}
    (first : List Entry) (h : LinkedAt entries (start + first.length) place e) :
    LinkedAt (first ++ entries) start (first.length + place) e := by
  obtain ⟨above, f, i, habove, hf, hparent, haddress⟩ := h
  refine ⟨first.length + above, f, i, by omega, ?_, ?_, haddress⟩
  · rw [List.getElem?_append_right (Nat.le_add_right _ _), Nat.add_sub_cancel_left, hf]
  · rw [hparent, Nat.add_assoc]

/-- The first entry of a walk has the parent it is given, and every other one has its parent on the
list in front of it. -/
theorem linked_record (root : Node) (address : List Nat) (parent? : Option Nat) (number : Nat) :
    ∀ place e, (record address parent? number root)[place]? = some e →
      (place = 0 ∧ e = ⟨address, root, parent?⟩) ∨
        LinkedAt (record address parent? number root) number place e := by
  refine walk_ind
    (P := fun address parent? number node entries => ∀ place e, entries[place]? = some e →
      (place = 0 ∧ e = ⟨address, node, parent?⟩) ∨ LinkedAt entries number place e)
    (Q := fun address parent _ number _ entries => ∀ place e, entries[place]? = some e →
      (e.parent? = some parent ∧ ∃ i, e.address = address ++ [i]) ∨
        LinkedAt entries number place e)
    ?_ ?_ ?_ root address parent? number
  · -- The node is recorded first, and its children have it as their parent.
    intro address parent? number node entries hentries place e he
    cases place with
    | zero =>
        cases he
        exact .inl ⟨rfl, rfl⟩
    | succ place =>
        right
        rcases hentries place e he with ⟨hparent, i, haddress⟩ | hlinked
        · exact ⟨0, _, i, by omega, rfl, hparent, haddress⟩
        · rw [Nat.add_comm]
          exact hlinked.prepend [⟨address, node, parent?⟩]
  · intro address parent index number place e he
    simp at he
  · -- The walk over the other children starts with the number behind the first one.
    intro address parent index number child nodes first others hfirst hothers place e he
    by_cases hplace : place < first.length
    · rw [List.getElem?_append_left hplace] at he
      rcases hfirst place e he with ⟨-, rfl⟩ | hlinked
      · exact .inl ⟨rfl, index, rfl⟩
      · exact .inr (hlinked.append others)
    · rw [List.getElem?_append_right (Nat.not_lt.mp hplace)] at he
      rcases hothers _ e he with hchild | hlinked
      · exact .inl hchild
      · right
        have hprepend := hlinked.prepend first
        rwa [Nat.add_sub_cancel' (Nat.not_lt.mp hplace)] at hprepend

/-! ### The whole tree -/

/-- The entries of an index are the nodes of the tree at their addresses. -/
theorem exists_entry_iff (tree : Nat) {root : Node} {place : List Nat} {node : Node} :
    (∃ e ∈ (ofTree tree root).entries, e.address = place ∧ e.node = node) ↔
      root.get? place = some node := by
  show (∃ e ∈ record [] none 0 root, e.address = place ∧ e.node = node) ↔ _
  rw [recorded_iff]
  simp

section
variable {tree : Nat} {root : Node}

/-- The entry of a number is the first one at its address, as there is no other one. -/
theorem number?_eq_some_iff {o : Occurrence} {number : Nat} :
    (ofTree tree root).number? o = some number ↔
      o.tree = tree ∧
        ∃ e, (ofTree tree root).entries[number]? = some e ∧ e.address = o.address := by
  have hsorted := List.pairwise_iff_getElem.mp (pairwise_record root [] none 0)
  show (if o.tree = tree then
    (record [] none 0 root).findIdx? (fun e => e.address == o.address) else none) = _ ↔
      _ ∧ ∃ e, (record [] none 0 root)[number]? = some e ∧ _
  by_cases htree : o.tree = tree
  · rw [if_pos htree, List.findIdx?_eq_some_iff_getElem]
    constructor
    · intro h
      obtain ⟨hnumber, haddress, -⟩ := h
      exact ⟨htree, _, List.getElem?_eq_getElem hnumber, eq_of_beq haddress⟩
    · intro h
      obtain ⟨-, e, he, haddress⟩ := h
      obtain ⟨hnumber, rfl⟩ := List.getElem?_eq_some_iff.mp he
      refine ⟨hnumber, beq_iff_eq.mpr haddress, ?_⟩
      -- No entry in front of it has the same address, because addresses ascend.
      intro j hj hbefore
      have hlt := hsorted j number (by omega) hnumber hj
      rw [eq_of_beq hbefore, haddress] at hlt
      exact lt_irrefl _ hlt
  · rw [if_neg htree]
    simp [htree]

/-- An index has the nodes of its tree and no others. -/
theorem contains_iff {o : Occurrence} :
    (ofTree tree root).contains o = true ↔ o.tree = tree ∧ (root.get? o.address).isSome := by
  rw [contains, Option.isSome_iff_exists, Option.isSome_iff_exists]
  simp only [number?_eq_some_iff, ← exists_entry_iff tree, exists_and_left]
  refine and_congr_right fun _ => ?_
  constructor
  · intro h
    obtain ⟨number, e, he, haddress⟩ := h
    exact ⟨e.node, e, List.mem_of_getElem? he, haddress, rfl⟩
  · intro h
    obtain ⟨node, e, he, haddress, -⟩ := h
    obtain ⟨number, he⟩ := List.getElem?_of_mem he
    exact ⟨number, e, he, haddress⟩

/-- The number of a parent is the one of an entry further up, whose address is one index shorter.
The root alone has none. -/
theorem parentNumber?_cases {number : Nat} {e : Entry}
    (he : (ofTree tree root).entries[number]? = some e) :
    (e.address = [] ∧ (ofTree tree root).parentNumber? number = none) ∨
      ∃ above f i, above < number ∧ (ofTree tree root).entries[above]? = some f ∧
        (ofTree tree root).parentNumber? number = some above ∧ e.address = f.address ++ [i] := by
  have hparent : (ofTree tree root).parentNumber? number = e.parent? := by
    rw [parentNumber?, he, Option.bind_some]
  rcases linked_record root [] none 0 number e he with ⟨-, rfl⟩ | hlinked
  · exact .inl ⟨rfl, hparent⟩
  · obtain ⟨above, f, i, habove, hf, habove', haddress⟩ := hlinked
    rw [Nat.zero_add] at habove'
    exact .inr ⟨above, f, i, habove, hf, hparent.trans habove', haddress⟩

/-- A parent has a lower number than its child. -/
theorem parentNumber?_lt {number parent : Nat}
    (h : (ofTree tree root).parentNumber? number = some parent) : parent < number := by
  obtain ⟨e, he, -⟩ := Option.bind_eq_some_iff.mp h
  rcases parentNumber?_cases he with ⟨-, hnone⟩ | ⟨above, f, i, habove, -, hsome, -⟩
  · rw [hnone] at h
    cases h
  · rw [hsome] at h
    cases h
    exact habove

/-- Numbers fall, so following them is never cut short. -/
theorem ancestorNumbers_eq (number : Nat) :
    (ofTree tree root).ancestorNumbers number =
      match (ofTree tree root).parentNumber? number with
      | none => []
      | some parent => parent :: (ofTree tree root).ancestorNumbers parent := by
  rw [ancestorNumbers]
  cases hparent : (ofTree tree root).parentNumber? number with
  | none => rfl
  | some parent => exact if_pos (parentNumber?_lt hparent)

/-- The root has no parent. -/
theorem parent?_nil : (ofTree tree root).parent? ⟨tree, []⟩ = none := by
  rw [parent?]
  cases hnumber : (ofTree tree root).number? ⟨tree, []⟩ with
  | none => rfl
  | some number =>
      obtain ⟨-, e, he, haddress⟩ := number?_eq_some_iff.mp hnumber
      rcases parentNumber?_cases he with ⟨-, hnone⟩ | ⟨above, f, i, -, -, -, hne⟩
      · rw [Option.bind_some, hnone, Option.bind_none]
      · rw [haddress] at hne
        simp at hne

/-- The number of a node, and the one of its parent, when the way down to the node is not empty. -/
theorem exists_number_append (tree : Nat) {address : List Nat} {i : Nat}
    (h : (root.get? (address ++ [i])).isSome) :
    ∃ number above, (ofTree tree root).number? ⟨tree, address ++ [i]⟩ = some number ∧
      (ofTree tree root).number? ⟨tree, address⟩ = some above ∧
      (ofTree tree root).parentNumber? number = some above := by
  obtain ⟨node, hnode⟩ := Option.isSome_iff_exists.mp h
  obtain ⟨e, he, haddress, -⟩ := (exists_entry_iff tree).mpr hnode
  obtain ⟨number, he⟩ := List.getElem?_of_mem he
  rcases parentNumber?_cases he with ⟨hnil, -⟩ | ⟨above, f, j, -, hf, hparent, hsplit⟩
  · rw [hnil] at haddress
    simp at haddress
  · rw [haddress] at hsplit
    obtain ⟨hf', -⟩ := List.append_inj' hsplit rfl
    exact ⟨number, above, number?_eq_some_iff.mpr ⟨rfl, e, he, haddress⟩,
      number?_eq_some_iff.mpr ⟨rfl, f, hf, hf'.symm⟩, hparent⟩

/-- A number that is found for a node leads back to the node. -/
theorem occurrence?_of_number? {o : Occurrence} {number : Nat}
    (h : (ofTree tree root).number? o = some number) :
    (ofTree tree root).occurrence? number = some o := by
  obtain ⟨rfl, e, he, haddress⟩ := number?_eq_some_iff.mp h
  rw [occurrence?, he, Option.map_some, haddress]
  rfl

/-- The parent of a child is the node at the address without the last index. -/
theorem parent?_append {address : List Nat} {i : Nat}
    (h : (root.get? (address ++ [i])).isSome) :
    (ofTree tree root).parent? ⟨tree, address ++ [i]⟩ = some ⟨tree, address⟩ := by
  obtain ⟨number, above, hnumber, habove, hparent⟩ := exists_number_append tree h
  rw [parent?, hnumber, Option.bind_some, hparent, Option.bind_some,
    occurrence?_of_number? habove]

/-- The ancestors of a node are its parent and the ancestors of that. -/
theorem ancestors_eq (o : Occurrence) :
    (ofTree tree root).ancestors o =
      match (ofTree tree root).parent? o with
      | none => []
      | some p => p :: (ofTree tree root).ancestors p := by
  rw [ancestors, parent?]
  cases hnumber : (ofTree tree root).number? o with
  | none => rfl
  | some number =>
      obtain ⟨-, e, he, -⟩ := number?_eq_some_iff.mp hnumber
      show ((ofTree tree root).ancestorNumbers number).filterMap _ = _
      rw [ancestorNumbers_eq, Option.bind_some]
      rcases parentNumber?_cases he with ⟨-, hnone⟩ | ⟨above, f, i, -, hf, hparent, -⟩
      · rw [hnone]
        rfl
      · have habove : (ofTree tree root).number? ⟨tree, f.address⟩ = some above :=
          number?_eq_some_iff.mpr ⟨rfl, f, hf, rfl⟩
        have hoccurrence := occurrence?_of_number? habove
        rw [hparent, Option.bind_some, hoccurrence]
        show List.filterMap _ (above :: _) = ⟨tree, f.address⟩ :: (ofTree tree root).ancestors _
        rw [List.filterMap_cons_some hoccurrence, ancestors, habove]

/-- The ways down to the ancestors of a node are shorter and shorter starts of the way down to
it. -/
theorem ancestors_address {address : List Nat} (h : (root.get? address).isSome) :
    (ofTree tree root).ancestors ⟨tree, address⟩ =
      (List.range address.length).reverse.map fun k => ⟨tree, address.take k⟩ := by
  induction address using List.reverseRecOn with
  | nil =>
      rw [ancestors_eq, parent?_nil]
      rfl
  | append_singleton address i ih =>
      have habove : (root.get? address).isSome := by
        rw [Node.get?_append] at h
        exact Option.isSome_of_isSome_bind h
      rw [ancestors_eq, parent?_append h]
      show _ :: (ofTree tree root).ancestors _ = _
      rw [ih habove, List.length_append, List.length_singleton, List.range_succ,
        List.reverse_append, List.reverse_singleton, List.singleton_append, List.map_cons,
        List.take_left]
      -- What is above the parent is named by shorter prefixes, which the last index does not touch.
      congr 1
      refine List.map_congr_left fun k hk => ?_
      have hk : k < address.length := List.mem_range.mp (List.mem_reverse.mp hk)
      rw [List.take_append_of_le_length (Nat.le_of_lt hk)]

/-- What is not in the tree has no parent there. -/
theorem parent?_eq_none_of_not_contains {o : Occurrence}
    (h : (ofTree tree root).contains o = false) : (ofTree tree root).parent? o = none := by
  have hnone : (ofTree tree root).number? o = none := by simpa [contains] using h
  rw [parent?, hnone, Option.bind_none, Option.bind_none]

/-! ### What is asked of a parent -/

/-- The node at an address is what is asked for. -/
def ParentQuery.MetAt (tree : Nat) (root : Node) (address : List Nat) : ParentQuery → Prop
  | .any => True
  | .ofKind kind => (root.get? address).map Node.kind = some kind
  | .exactly occurrence => occurrence = ⟨tree, address⟩

/-- The kind of a node is that of the node in the tree. -/
theorem kind?_eq {address : List Nat} :
    (ofTree tree root).kind? ⟨tree, address⟩ = (root.get? address).map Node.kind := by
  rw [kind?]
  cases hnumber : (ofTree tree root).number? ⟨tree, address⟩ with
  | none =>
      have hout : ¬(ofTree tree root).contains ⟨tree, address⟩ = true := by
        rw [contains, hnumber]
        decide
      rw [contains_iff] at hout
      have hget : root.get? address = none := by simpa using hout
      rw [hget]
      rfl
  | some number =>
      obtain ⟨-, e, he, haddress⟩ := number?_eq_some_iff.mp hnumber
      have hget := (exists_entry_iff tree).mp ⟨e, List.mem_of_getElem? he, haddress, rfl⟩
      rw [hget, Option.bind_some, he]
      rfl

/-- A question about a node is answered by the node at its address. -/
theorem satisfies_iff {query : ParentQuery} {address : List Nat} :
    (ofTree tree root).satisfies query ⟨tree, address⟩ = true ↔ query.MetAt tree root address := by
  cases query with
  | any => simp [satisfies, ParentQuery.MetAt]
  | ofKind kind => rw [satisfies, beq_iff_eq, kind?_eq, ParentQuery.MetAt]
  | exactly o => rw [satisfies, beq_iff_eq, ParentQuery.MetAt, eq_comm]

/-- What is asked of the parent alone is asked of the node one index above. -/
theorem hasParent_iff {address : List Nat} {query : ParentQuery}
    (h : (root.get? address).isSome) :
    (ofTree tree root).hasParent ⟨tree, address⟩ query false = true ↔
      ∃ above i, address = above ++ [i] ∧ query.MetAt tree root above := by
  rw [hasParent, if_neg (by decide)]
  rcases List.eq_nil_or_concat' address with rfl | ⟨address, i, rfl⟩
  · simp [parent?_nil]
  · rw [parent?_append h, Option.any_some, satisfies_iff]
    constructor
    · intro hmet
      exact ⟨address, i, rfl, hmet⟩
    · intro hmet
      obtain ⟨above, j, hsplit, hmet⟩ := hmet
      obtain ⟨rfl, -⟩ := List.append_inj' hsplit rfl
      exact hmet

/-- What is asked of all ancestors is asked of the nodes at all shorter starts of the address. -/
theorem hasParent_ancestor_iff {address : List Nat} {query : ParentQuery}
    (h : (root.get? address).isSome) :
    (ofTree tree root).hasParent ⟨tree, address⟩ query true = true ↔
      ∃ above, above <+: address ∧ above ≠ address ∧ query.MetAt tree root above := by
  rw [hasParent, if_pos rfl, ancestors_address h, List.any_map, List.any_eq_true]
  simp only [List.mem_reverse, List.mem_range, Function.comp_apply, satisfies_iff]
  constructor
  · intro hmet
    obtain ⟨k, hk, hmet⟩ := hmet
    refine ⟨address.take k, List.take_prefix k address, ?_, hmet⟩
    intro htake
    have hlength := congrArg List.length htake
    rw [List.length_take] at hlength
    omega
  · intro hmet
    obtain ⟨above, hstart, hne, hmet⟩ := hmet
    refine ⟨above.length, ?_, ?_⟩
    · by_contra hlong
      exact hne (hstart.eq_of_length_le (Nat.not_lt.mp hlong))
    · rwa [List.prefix_iff_eq_take.mp hstart] at hmet

end

/-- An index describes a tree: its nodes, who is above whom, and what is asked about that. Nodes are
told apart by their occurrence, so what is said here holds for trees that hold the same node
twice. -/
structure Mirrors (a : Ancestry) (tree : Nat) (root : Node) : Prop where
  /-- Nodes are recorded in the order of the traversal. -/
  nodes : a.entries.map (·.node) = root.preorder
  /-- Each of them counts. -/
  length : a.length = root.preorder.length
  /-- Addresses only grow, a parent before its children and these one after the other, so none is
  recorded twice. -/
  ordered : a.entries.Pairwise (·.address < ·.address)
  /-- Each of them is recorded at its place. -/
  placed : ∀ e ∈ a.entries, root.get? e.address = some e.node
  /-- The index holds what the tree holds. -/
  contains : ∀ o, a.contains o = true ↔ o.tree = tree ∧ (root.get? o.address).isSome
  /-- Numbers of parents fall. -/
  falling : ∀ number parent, a.parentNumber? number = some parent → parent < number
  /-- The root has no parent. -/
  parent_root : a.parent? ⟨tree, []⟩ = none
  /-- The parent of a node is one step up from it. -/
  parent : ∀ address i, (root.get? (address ++ [i])).isSome →
    a.parent? ⟨tree, address ++ [i]⟩ = some ⟨tree, address⟩
  /-- The ancestors of a node are on the way down to it, the nearest first. -/
  ancestors : ∀ address, (root.get? address).isSome →
    a.ancestors ⟨tree, address⟩
      = (List.range address.length).reverse.map fun k => ⟨tree, address.take k⟩
  /-- They are reached by going from parent to parent. -/
  ancestors_step : ∀ o, a.ancestors o =
    match a.parent? o with
    | none => []
    | some p => p :: a.ancestors p
  /-- A parent is asked about by its place. -/
  hasParent : ∀ address query, (root.get? address).isSome →
    (a.hasParent ⟨tree, address⟩ query false = true ↔
      ∃ above i, address = above ++ [i] ∧ query.MetAt tree root above)
  /-- And so are the ancestors. -/
  hasAncestor : ∀ address query, (root.get? address).isSome →
    (a.hasParent ⟨tree, address⟩ query true = true ↔
      ∃ above, above <+: address ∧ above ≠ address ∧ query.MetAt tree root above)
  /-- Nothing is above what does not belong to the tree. -/
  outside : ∀ o, ¬(o.tree = tree ∧ (root.get? o.address).isSome) →
    a.parent? o = none ∧ a.ancestors o = [] ∧
      ∀ query anyAncestor, a.hasParent o query anyAncestor = false

/-- The walk over a tree gives an index that describes it. -/
theorem mirrors_ofTree (tree : Nat) (root : Node) : (ofTree tree root).Mirrors tree root where
  nodes := map_node_record root [] none 0
  length := by
    rw [← map_node_record root [] none 0, List.length_map]
    rfl
  ordered := pairwise_record root [] none 0
  placed := by
    intro e he
    exact (exists_entry_iff tree).mp ⟨e, he, rfl, rfl⟩
  contains := fun _ => contains_iff
  falling := fun _ _ => parentNumber?_lt
  parent_root := parent?_nil
  parent := fun _ _ => parent?_append
  ancestors := fun _ => ancestors_address
  ancestors_step := ancestors_eq
  hasParent := fun _ _ => hasParent_iff
  hasAncestor := fun _ _ => hasParent_ancestor_iff
  outside := by
    intro o hout
    rw [← contains_iff, Bool.not_eq_true] at hout
    have hparent := parent?_eq_none_of_not_contains hout
    have hancestors : (ofTree tree root).ancestors o = [] := by rw [ancestors_eq, hparent]
    refine ⟨hparent, hancestors, ?_⟩
    intro query anyAncestor
    rw [hasParent, hancestors, hparent]
    cases anyAncestor <;> rfl

-- The same node stands at three places here, below two different parents.
example :
    let leaf : Node := .comparison ⟨⟨none, "title", []⟩, .pr, none, rfl⟩
    let index := ofTree 0 (.connective .or [.connective .and [leaf, leaf], leaf])
    index.parent? ⟨0, [0, 1]⟩ = some ⟨0, [0]⟩ ∧ index.parent? ⟨0, [1]⟩ = some ⟨0, []⟩ ∧
      index.parent? ⟨1, [1]⟩ = none := by
  decide

end Ancestry

end Scim
