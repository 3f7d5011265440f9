import SwiftDraft.Proofs.Lines
import SwiftDraft.Proofs.Stamp
import SwiftDraft.Proofs.TreeEncoding
import SwiftDraft.Proofs.Words

/-!
# Walks over trees

A walk takes one node after the other from a stack of trees and puts the children of each on top,
the first one uppermost (`next?`). What it yields is the recursive order of the nodes, each before
its children (`yields_iff`). In that order every node stands once, at the place that its way from
the root has among all ways (`placed`), and the outline has a line for it there, indented by the
length of the way (`outline_eq_unlines`).
-/

namespace SwiftDraft.Tree

open Text

mutual

/-- The nodes of a tree, each before its children, by recursion. -/
def preorder : Tree → List Tree
  | node kind name line children attributes =>
    node kind name line children attributes :: preorders children

def preorders : List Tree → List Tree
  | [] => []
  | t :: ts => t.preorder ++ preorders ts

end

section

variable {stack stack' ts ns ms : List Tree}

theorem preorders_append (ts us : List Tree) :
    preorders (ts ++ us) = preorders ts ++ preorders us := by
  induction ts with
  | nil => rfl
  | cons t ts ih => rw [List.cons_append, preorders, preorders, ih, List.append_assoc]

theorem preorder_eq (t : Tree) : t.preorder = t :: preorders t.children := by
  cases t
  rw [preorder, children]

theorem walkFrom_eq_preorders (stack : List Tree) : walkFrom stack = preorders stack := by
  induction stack using walkFrom.induct with
  | case1 => rw [walkFrom, preorders]
  | case2 t stack ih =>
    rw [walkFrom_cons, ih, preorders_append, preorders, preorder_eq, List.cons_append]

theorem walk_eq_preorder (t : Tree) : t.walk = t.preorder := by
  rw [walk, walkFrom_eq_preorders, preorders, preorders, List.append_nil]

theorem length_preorders (sized : ∀ t ∈ ts, t.preorder.length = t.size) :
    (preorders ts).length = sizes ts := by
  induction ts with
  | nil => rfl
  | cons t ts ih =>
    obtain ⟨first, sized⟩ := List.forall_mem_cons.1 sized
    rw [preorders, List.length_append, first, ih sized, sizes]

theorem length_preorder (t : Tree) : t.preorder.length = t.size := by
  induction t using Tree.induction with
  | node kind name line children attributes ih =>
    rw [preorder, List.length_cons, length_preorders ih, size]

/-- Takes the tree at the end of a stack, and puts its children there, the first of them last. -/
def next? (stack : List Tree) : Option (Tree × List Tree) :=
  stack.getLast?.map fun t => (t, stack.dropLast ++ t.children.reverse)

/-- The nodes that are taken from a stack until it is empty. -/
inductive Yields : List Tree → List Tree → Prop
  | done {stack : List Tree} (empty : next? stack = none) : Yields stack []
  | step {stack stack' ns : List Tree} {t : Tree} (taken : next? stack = some (t, stack'))
      (rest : Yields stack' ns) : Yields stack (t :: ns)

theorem next?_concat (stack : List Tree) (t : Tree) :
    next? (stack ++ [t]) = some (t, stack ++ t.children.reverse) := by
  simp [next?]

/-- The stack from its top is what is still to come: a step takes the first node of the order of
these trees. -/
theorem yields_preorders (ts : List Tree) : Yields ts.reverse (preorders ts) := by
  induction ts using walkFrom.induct with
  | case1 => exact .done rfl
  | case2 t ts ih =>
    rw [preorders, preorder_eq, List.cons_append, ← preorders_append, List.reverse_cons]
    refine .step (next?_concat ts.reverse t) ?_
    rwa [List.reverse_append] at ih

theorem Yields.unique (yields : Yields stack ns) (again : Yields stack ms) : ns = ms := by
  induction yields generalizing ms with
  | done empty =>
    cases again with
    | done => rfl
    | step taken => rw [empty] at taken; cases taken
  | step taken _ ih =>
    cases again with
    | done empty => rw [empty] at taken; cases taken
    | step other rest =>
      rw [taken] at other
      cases other
      rw [ih rest]

theorem yields_iff (t : Tree) (ns : List Tree) : Yields [t] ns ↔ ns = t.preorder := by
  have single : Yields [t] t.preorder := by
    have yields := yields_preorders [t]
    rwa [preorders, preorders, List.append_nil, List.reverse_singleton] at yields
  constructor
  · exact fun yields => yields.unique single
  · rintro rfl
    exact single

end

/-- Which child to take, from the root on. -/
abbrev Way := List Nat

/-- The node that a way leads to. -/
def at? : Way → Tree → Option Tree
  | [], t => some t
  | i :: way, t => t.children[i]?.bind (at? way)

mutual

/-- The nodes of a tree with their ways, each before its children. -/
def placed : Tree → List (Way × Tree)
  | node kind name line children attributes =>
    ([], node kind name line children attributes) :: placedFrom 0 children

/-- The nodes of children, the first of which has the number `i`. -/
def placedFrom (i : Nat) : List Tree → List (Way × Tree)
  | [] => []
  | t :: ts => t.placed.map (fun (way, n) => (i :: way, n)) ++ placedFrom (i + 1) ts

end

section

variable {ts : List Tree} {way : Way} {n : Tree} {i : Nat}

theorem map_snd_placedFrom (known : ∀ t ∈ ts, t.placed.map Prod.snd = t.preorder) (i : Nat) :
    (placedFrom i ts).map Prod.snd = preorders ts := by
  induction ts generalizing i with
  | nil => rfl
  | cons t ts ih =>
    obtain ⟨first, known⟩ := List.forall_mem_cons.1 known
    rw [placedFrom, List.map_append, List.map_map, ih known, preorders, ← first]
    rfl

theorem map_snd_placed (t : Tree) : t.placed.map Prod.snd = t.preorder := by
  induction t using Tree.induction with
  | node kind name line children attributes ih =>
    rw [placed, List.map_cons, map_snd_placedFrom ih, preorder]

theorem mem_placedFrom (known : ∀ t ∈ ts, ∀ way n, (way, n) ∈ t.placed ↔ t.at? way = some n) :
    (way, n) ∈ placedFrom i ts ↔
      ∃ j rest, way = (i + j) :: rest ∧ ts[j]?.bind (at? rest) = some n := by
  induction ts generalizing i with
  | nil => simp [placedFrom]
  | cons t ts ih =>
    obtain ⟨first, known⟩ := List.forall_mem_cons.1 known
    rw [placedFrom, List.mem_append, ih known]
    constructor
    · rintro (here | ⟨j, rest, rfl, found⟩)
      · obtain ⟨⟨rest, m⟩, mem, same⟩ := List.mem_map.1 here
        cases same
        exact ⟨0, rest, rfl, (first rest n).1 mem⟩
      · exact ⟨j + 1, rest, by rw [Nat.add_right_comm, Nat.add_assoc], found⟩
    · rintro ⟨j, rest, rfl, found⟩
      cases j with
      | zero => exact Or.inl (List.mem_map.2 ⟨(rest, n), (first rest n).2 found, rfl⟩)
      | succ j => exact Or.inr ⟨j, rest, by rw [Nat.add_right_comm, Nat.add_assoc], found⟩

/-- Every node has its way in the order, and no other. -/
theorem mem_placed (t : Tree) (way : Way) (n : Tree) :
    (way, n) ∈ t.placed ↔ t.at? way = some n := by
  induction t using Tree.induction generalizing way n with
  | node kind name line children attributes ih =>
    rw [placed, List.mem_cons, mem_placedFrom ih]
    cases way with
    | nil => simp [at?, eq_comm]
    | cons i rest => simp [at?, Tree.children]

/-- Ways that start with the number `i` or a later one. -/
theorem le_of_mem_placedFrom (mem : (way, n) ∈ placedFrom i ts) :
    ∃ j rest, i ≤ j ∧ way = j :: rest := by
  induction ts generalizing i with
  | nil => cases mem
  | cons t ts ih =>
    rw [placedFrom, List.mem_append] at mem
    rcases mem with here | behind
    · obtain ⟨⟨rest, m⟩, -, same⟩ := List.mem_map.1 here
      cases same
      exact ⟨i, rest, Nat.le_refl i, rfl⟩
    · obtain ⟨j, rest, later, rfl⟩ := ih behind
      exact ⟨j, rest, Nat.le_of_succ_le later, rfl⟩

theorem ascending_placedFrom (known : ∀ t ∈ ts, (t.placed.map Prod.fst).Pairwise (· < ·))
    (i : Nat) : ((placedFrom i ts).map Prod.fst).Pairwise (· < ·) := by
  induction ts generalizing i with
  | nil => exact List.Pairwise.nil
  | cons t ts ih =>
    obtain ⟨first, known⟩ := List.forall_mem_cons.1 known
    rw [placedFrom, List.map_append, List.map_map]
    have own : (t.placed.map (Prod.fst ∘ fun (way, n) => (i :: way, n))).Pairwise (· < ·) := by
      rw [List.pairwise_map] at first ⊢
      exact first.imp fun less => List.cons_lt_cons_self.2 less
    refine List.pairwise_append.2 ⟨own, ih known (i + 1), ?_⟩
    intro way here way' behind
    obtain ⟨⟨rest, n⟩, -, rfl⟩ := List.mem_map.1 here
    obtain ⟨⟨_, n'⟩, mem, rfl⟩ := List.mem_map.1 behind
    obtain ⟨j, rest', later, rfl⟩ := le_of_mem_placedFrom mem
    exact List.Lex.rel later

/-- A node stands before its children, and these in their order with all that is below them. -/
theorem ascending_placed (t : Tree) : (t.placed.map Prod.fst).Pairwise (· < ·) := by
  induction t using Tree.induction with
  | node kind name line children attributes ih =>
    rw [placed, List.map_cons]
    refine List.pairwise_cons.2 ⟨?_, ascending_placedFrom ih 0⟩
    intro way listed
    obtain ⟨⟨_, n⟩, mem, rfl⟩ := List.mem_map.1 listed
    obtain ⟨j, rest, -, rfl⟩ := le_of_mem_placedFrom mem
    exact List.nil_lt_cons j rest

/-- The line of a node that is `depth` levels deeper than its way is long. -/
def entryAt (depth : Nat) : Way × Tree → Text
  | (way, n) => List.replicate (2 * (depth + way.length)) ' ' ++ n.label

/-- The line of a node: two spaces for each step of its way, and its label. -/
def entry : Way × Tree → Text
  | (way, n) => List.replicate (2 * way.length) ' ' ++ n.label

theorem entryAt_cons (depth i : Nat) (way : Way) (n : Tree) :
    entryAt depth (i :: way, n) = entryAt (depth + 1) (way, n) := by
  rw [entryAt, entryAt, List.length_cons, Nat.add_right_comm, Nat.add_assoc]

theorem entryAt_zero : entryAt 0 = entry := by
  funext ⟨way, n⟩
  rw [entryAt, entry, Nat.zero_add]

theorem outlinesAt_eq
    (known : ∀ t ∈ ts, ∀ depth, t.outlineAt depth = unlines (t.placed.map (entryAt depth)))
    (depth i : Nat) :
    outlinesAt (depth + 1) ts = unlines ((placedFrom i ts).map (entryAt depth)) := by
  induction ts generalizing i with
  | nil => rfl
  | cons t ts ih =>
    obtain ⟨first, known⟩ := List.forall_mem_cons.1 known
    have below : (t.placed.map fun (way, n) => (i :: way, n)).map (entryAt depth) =
        t.placed.map (entryAt (depth + 1)) := by
      rw [List.map_map]
      exact List.map_congr_left fun (way, n) _ => entryAt_cons depth i way n
    rw [outlinesAt, first, ih known (i + 1), placedFrom, List.map_append, below, unlines, unlines,
      ← List.flatMap_append]
    rfl

theorem outlineAt_eq (t : Tree) (depth : Nat) :
    t.outlineAt depth = unlines (t.placed.map (entryAt depth)) := by
  induction t using Tree.induction generalizing depth with
  | node kind name line children attributes ih =>
    rw [outlineAt, outlinesAt_eq ih depth 0, placed, List.map_cons]
    simp [unlines, entryAt]

theorem outline_eq_unlines (t : Tree) : t.outline = unlines (t.placed.map entry) := by
  rw [outline, outlineAt_eq, entryAt_zero]

theorem splitOn_unlines {ls : List Text} (plain : ∀ l ∈ ls, '\n' ∉ l) :
    (unlines ls).splitOn '\n' = ls ++ [[]] := by
  induction ls with
  | nil => rfl
  | cons l ls ih =>
    obtain ⟨first, plain⟩ := List.forall_mem_cons.1 plain
    have split : unlines (l :: ls) = l ++ '\n' :: unlines ls := by simp [unlines]
    have whole : l.splitOnP (· == '\n') = [l] :=
      List.splitOnP_eq_singleton fun c mem => by
        rw [beq_eq_false_iff_ne]
        exact ne_of_mem_of_not_mem mem first
    have behind : (l ++ '\n' :: unlines ls).splitOnP (· == '\n') =
        l.splitOnP (· == '\n') ++ (unlines ls).splitOnP (· == '\n') :=
      List.splitOnP_append_cons l (unlines ls) (beq_self_eq_true '\n')
    rw [List.splitOn_eq_splitOnP] at ih ⊢
    rw [split, behind, whole, ih plain]
    rfl

/-- The line of a node holds a newline only if its kind or its name does. -/
theorem newline_mem_entry :
    '\n' ∈ entry (way, n) ↔ '\n' ∈ n.kind ∨ ∃ s ∈ n.name, '\n' ∈ s := by
  have digits : ∀ k, '\n' ∉ ofNat k := fun k mem =>
    absurd (isDigit_of_mem_ofNat mem) (by decide)
  rw [entry, label]
  cases n.name <;> cases n.line <;> simp [digits]

/-- The lines of the outline are those of the nodes, exactly if no kind and no name holds a
newline. -/
theorem splitOn_outline_iff (t : Tree) :
    t.outline.splitOn '\n' = t.placed.map entry ++ [[]] ↔
      ∀ n ∈ t.preorder, '\n' ∉ n.kind ∧ ∀ s ∈ n.name, '\n' ∉ s := by
  have plain_iff : (∀ l ∈ t.placed.map entry, '\n' ∉ l) ↔
      ∀ n ∈ t.preorder, '\n' ∉ n.kind ∧ ∀ s ∈ n.name, '\n' ∉ s := by
    rw [← map_snd_placed, List.forall_mem_map, List.forall_mem_map]
    exact forall₂_congr fun (way, n) _ => by simp [newline_mem_entry]
  rw [← plain_iff, outline_eq_unlines]
  constructor
  · intro split l mem newline
    have piece : l ∈ (unlines (t.placed.map entry)).splitOn '\n' :=
      split ▸ List.mem_append_left _ mem
    rw [List.splitOn_eq_splitOnP] at piece
    exact absurd (of_mem_splitOnP piece _ newline) (by decide)
  · exact splitOn_unlines

end

/-- The walk yields the nodes of a tree in the recursive order, in which every node stands once, at
the place of its way from the root; their number is the size of the tree, and what is found in a
tree is found in that order. The outline has an entry for each node there, indented by two spaces
for each level, and these are its lines exactly if no kind and no name holds a newline. -/
theorem walk_in_order (t : Tree) :
    (∀ ns, Yields [t] ns ↔ ns = t.preorder) ∧ t.walk = t.preorder ∧
      (t.placed.map Prod.snd = t.preorder ∧ (t.placed.map Prod.fst).Pairwise (· < ·) ∧
        ∀ way n, (way, n) ∈ t.placed ↔ t.at? way = some n) ∧
      t.nodeCount = t.size ∧
      (∀ kind, t.findAll kind = t.preorder.filter fun n => n.kind = kind) ∧
      t.functionNames = (t.preorder.filter isFunction).filterMap name ∧
      t.classNames = (t.preorder.filter isClass).filterMap name ∧
      t.outline = unlines (t.placed.map entry) ∧
      (t.outline.splitOn '\n' = t.placed.map entry ++ [[]] ↔
        ∀ n ∈ t.preorder, '\n' ∉ n.kind ∧ ∀ s ∈ n.name, '\n' ∉ s) := by
  have ordered := walk_eq_preorder t
  refine ⟨yields_iff t, ordered, ⟨map_snd_placed t, ascending_placed t, mem_placed t⟩, ?_, ?_, ?_,
    ?_, outline_eq_unlines t, splitOn_outline_iff t⟩
  · rw [nodeCount, ordered, length_preorder]
  · intro kind
    rw [findAll, ordered]
  · rw [functionNames, ordered]
  · rw [classNames, ordered]

/-- One node without a name, whose kind takes two lines of the outline. -/
theorem kind_takes_two_lines :
    let t := node "A\nB".toList none none [] Attributes.empty
    (∀ n ∈ t.preorder, ∀ s ∈ n.name, '\n' ∉ s) ∧ t.nodeCount = 1 ∧
      lines t.outline = ["A".toList, "B".toList] := by
  intro t
  have single : t.preorder = [t] := rfl
  refine ⟨?_, ?_, by decide⟩
  · rw [single]
    exact List.forall_mem_singleton.2 nofun
  · rw [nodeCount, walk_eq_preorder, single]
    rfl

end SwiftDraft.Tree
