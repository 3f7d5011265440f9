import SwiftDraft.Script.Nesting
import Mathlib.Data.List.Basic

/-!
# The statements of a script in order

The statements of a tree, headers in front of their bodies. Placing a statement and closing blocks
keep the order of what was there, so the tree of a script lists its logical lines (`preorder_nest`).
-/

namespace SwiftDraft.Script

mutual

/-- The statements of a node in the order of the text, each with its line. -/
def Node.preorder : Node → List (Nat × Statement)
  | .leaf n s => [(n, .simple s)]
  | .block n h body => (n, .header h) :: preorder body

/-- The statements of a tree in the order of the text, each with its line. -/
def preorder : List Node → List (Nat × Statement)
  | [] => []
  | n :: ns => n.preorder ++ preorder ns

end

/-- Induction over a tree: for a block, over its body and over what follows it. -/
theorem forest_induction {motive : List Node → Prop} (nil : motive [])
    (leaf : ∀ n s ns, motive ns → motive (.leaf n s :: ns))
    (block : ∀ n h body ns, motive body → motive ns → motive (.block n h body :: ns)) :
    ∀ ns, motive ns
  | [] => nil
  | .leaf n s :: ns => leaf n s ns (forest_induction nil leaf block ns)
  | .block n h body :: ns =>
    block n h body ns (forest_induction nil leaf block body) (forest_induction nil leaf block ns)

@[simp] theorem preorder_nil : preorder [] = [] := rfl

@[simp] theorem preorder_leaf (n : Nat) (s : Simple) (ns : List Node) :
    preorder (.leaf n s :: ns) = (n, .simple s) :: preorder ns := rfl

@[simp] theorem preorder_block (n : Nat) (h : Header) (body ns : List Node) :
    preorder (.block n h body :: ns) = (n, .header h) :: preorder body ++ preorder ns := rfl

@[simp] theorem preorder_append (ns ms : List Node) :
    preorder (ns ++ ms) = preorder ns ++ preorder ms := by
  induction ns with
  | nil => rfl
  | cons n ns ih => rw [List.cons_append, preorder, preorder, ih, List.append_assoc]

theorem append_splitTrailingBlanks (ns : List Node) :
    (splitTrailingBlanks ns).1 ++ (splitTrailingBlanks ns).2 = ns := by
  unfold splitTrailingBlanks
  rw [← List.reverse_append, List.takeWhile_append_dropWhile, List.reverse_reverse]

/-- What the open blocks hold, the outermost first. -/
def openPreorder : List OpenBlock → List (Nat × Statement)
  | [] => []
  | b :: bs => openPreorder bs ++ (b.line, .header b.header) :: preorder b.body

namespace Nesting

/-- All statements placed so far, in order. -/
def preorder (n : Nesting) : List (Nat × Statement) :=
  Script.preorder n.outer ++ openPreorder n.blocks

@[simp] theorem preorder_warn (n : Nesting) (w : Warning) : (n.warn w).preorder = n.preorder := rfl

@[simp] theorem preorder_append (n : Nesting) (nodes : List Node) :
    (n.append nodes).preorder = n.preorder ++ Script.preorder nodes := by
  unfold append preorder
  split
  · next outermost => simp [outermost, openPreorder]
  · next b bs innermost => simp [innermost, openPreorder]

@[simp] theorem level_warn (n : Nesting) (w : Warning) : (n.warn w).level = n.level := rfl

@[simp] theorem level_append (n : Nesting) (nodes : List Node) :
    (n.append nodes).level = n.level := by
  unfold append level
  split
  · rfl
  · next b bs innermost => simp [innermost]

theorem close_of_blocks {n : Nesting} {b : OpenBlock} {bs : List OpenBlock}
    (innermost : n.blocks = b :: bs) :
    n.close =
      (if (splitTrailingBlanks b.body).1.isEmpty then
          Nesting.warn { n with blocks := bs } (emptyBlock b.line)
        else { n with blocks := bs }).append
      (.block b.line b.header (splitTrailingBlanks b.body).1 :: (splitTrailingBlanks b.body).2) := by
  unfold close
  rw [innermost]

@[simp] theorem level_close (n : Nesting) : n.close.level = n.level - 1 := by
  cases innermost : n.blocks with
  | nil => simp [close, innermost, level]
  | cons b bs =>
    rw [close_of_blocks innermost, level_append]
    split <;> simp [level, warn, innermost]

@[simp] theorem preorder_close (n : Nesting) : n.close.preorder = n.preorder := by
  cases innermost : n.blocks with
  | nil => simp [close, innermost]
  | cons b bs =>
    -- The blanks move behind the block, where the order has them anyway.
    have body := congrArg Script.preorder (append_splitTrailingBlanks b.body)
    rw [Script.preorder_append] at body
    rw [close_of_blocks innermost, preorder_append, preorder_block, List.cons_append, body]
    split <;> simp [preorder, warn, innermost, openPreorder]

theorem level_closeMany (k : Nat) (n : Nesting) : (closeMany k n).level = n.level - k := by
  induction k generalizing n with
  | zero => rfl
  | succ k ih => rw [closeMany, ih, level_close, Nat.sub_sub, Nat.add_comm]

@[simp] theorem preorder_closeMany (k : Nat) (n : Nesting) :
    (closeMany k n).preorder = n.preorder := by
  induction k generalizing n with
  | zero => rfl
  | succ k ih => rw [closeMany, ih, preorder_close]

theorem level_closeTo (n : Nesting) (level : Nat) :
    (n.closeTo level).level = min n.level level := by
  rw [closeTo, level_closeMany]
  omega

@[simp] theorem preorder_closeTo (n : Nesting) (level : Nat) :
    (n.closeTo level).preorder = n.preorder :=
  preorder_closeMany _ n

@[simp] theorem preorder_place (n : Nesting) (line : Nat) (s : Statement) :
    (n.place line s).preorder = n.preorder ++ [(line, s)] := by
  cases s with
  | simple s => simp [place]
  | header h => simp [place, preorder, openPreorder]

/-- A logical line comes behind everything placed before it, wherever its indentation puts it. -/
theorem preorder_add (unit : Nat) (n : Nesting) (l : LogicalLine) :
    (n.add unit l).preorder = n.preorder ++ [(l.line, l.statement)] := by
  unfold add
  split
  · exact preorder_place n l.line l.statement
  · rw [preorder_place]
    congr 1
    split <;> split <;> simp

theorem preorder_foldl (unit : Nat) (items : List LogicalLine) (n : Nesting) :
    (items.foldl (add unit) n).preorder =
      n.preorder ++ items.map fun l => (l.line, l.statement) := by
  induction items generalizing n with
  | nil => simp
  | cons l items ih => rw [List.foldl_cons, ih, preorder_add, List.map_cons, List.append_assoc,
      List.singleton_append]

theorem preorder_outer {n : Nesting} (closed : n.level = 0) :
    Script.preorder n.outer = n.preorder := by
  simp [preorder, List.length_eq_zero_iff.1 closed, openPreorder]

end Nesting

/-- The tree of a script lists its logical lines, each once and in order. -/
theorem preorder_nest (unit : Nat) (source : Text) :
    preorder (nest unit source).nodes =
      (logicalLines unit source).map fun l => (l.line, l.statement) := by
  have closed : (((logicalLines unit source).foldl (Nesting.add unit) Nesting.start).closeTo 0).level
      = 0 := by
    rw [Nesting.level_closeTo, Nat.min_zero]
  unfold nest
  rw [Nesting.preorder_outer closed, Nesting.preorder_closeTo, Nesting.preorder_foldl]
  rfl

end SwiftDraft.Script
