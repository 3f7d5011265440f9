import SwiftDraft.Script.LogicalLine

/-!
# Nesting

Builds the tree of a script from the indentation of its logical lines. An indentation that is not a
multiple of the unit counts as the level below it; a line deeper than its block allows belongs to
the innermost open block. Both are warned about, and so is a block without a body. Blank lines at
the end of a block stand after it. Columns are counted with overflow checks (`nest?`) or without
(`nest`), as the program was built.
-/

namespace SwiftDraft.Script

/-- A block that is still open: its header and the nodes of its body so far. -/
structure OpenBlock where
  line : Nat
  header : Header
  body : List Node

/-- The nodes at the outermost level and the open blocks, innermost first. -/
structure Nesting where
  outer : List Node
  blocks : List OpenBlock
  warnings : List Warning

namespace Nesting

def start : Nesting := ⟨[], [], []⟩

/-- The level of the statements of the innermost open block. -/
def level (n : Nesting) : Nat := n.blocks.length

/-- Adds nodes to the innermost open block. -/
def append (n : Nesting) (nodes : List Node) : Nesting :=
  match n.blocks with
  | [] => { n with outer := n.outer ++ nodes }
  | b :: bs => { n with blocks := { b with body := b.body ++ nodes } :: bs }

def warn (n : Nesting) (w : Warning) : Nesting := { n with warnings := n.warnings ++ [w] }

end Nesting

/-- The nodes without the blank ones at their end, and those. -/
def splitTrailingBlanks (nodes : List Node) : List Node × List Node :=
  ((nodes.reverse.dropWhile Node.isBlank).reverse, (nodes.reverse.takeWhile Node.isBlank).reverse)

def emptyBlock (line : Nat) : Warning := ⟨line, "block has no body".toList⟩

def unexpectedIndent (line : Nat) : Warning :=
  ⟨line, "unexpected indentation; attached to the enclosing block".toList⟩

def misaligned (line width unit : Nat) : Warning :=
  ⟨line, "indentation of ".toList ++ Text.ofNat width ++ " columns is not a multiple of ".toList ++
    Text.ofNat unit ++ "; treated as level ".toList ++ Text.ofNat (width / unit)⟩

namespace Nesting

/-- Closes the innermost open block. -/
def close (n : Nesting) : Nesting :=
  match n.blocks with
  | [] => n
  | b :: bs =>
    let (body, blanks) := splitTrailingBlanks b.body
    let rest : Nesting := { n with blocks := bs }
    let rest := if body.isEmpty then rest.warn (emptyBlock b.line) else rest
    rest.append (.block b.line b.header body :: blanks)

/-- Closes the `k` innermost open blocks. -/
def closeMany : Nat → Nesting → Nesting
  | 0, n => n
  | k + 1, n => closeMany k n.close

/-- Closes the innermost open blocks until at most `level` are open. -/
def closeTo (n : Nesting) (level : Nat) : Nesting := closeMany (n.level - level) n

/-- Adds a statement at the innermost open level. -/
def place (n : Nesting) (line : Nat) : Statement → Nesting
  | .simple s => n.append [.leaf line s]
  | .header h => { n with blocks := ⟨line, h, []⟩ :: n.blocks }

/-- Adds a logical line of a script indented by `unit` columns. -/
def add (unit : Nat) (n : Nesting) (l : LogicalLine) : Nesting :=
  match l.indent with
  | none => n.place l.line l.statement
  | some width =>
    let n := if width % unit = 0 then n else n.warn (misaligned l.line width unit)
    let n := n.closeTo (width / unit)
    let n := if n.level < width / unit then n.warn (unexpectedIndent l.line) else n
    n.place l.line l.statement

end Nesting

/-- A script as a tree of statements, with the warnings about its indentation. -/
structure Reading where
  nodes : List Node
  warnings : List Warning

/-- The tree of a script whose blocks are indented by `unit` columns. -/
def nest (unit : Nat) (source : Text) : Reading :=
  let n := ((logicalLines unit source).foldl (Nesting.add unit) Nesting.start).closeTo 0
  ⟨n.outer, n.warnings⟩

/-- The physical lines whose columns are counted: those with which logical lines start. -/
def measuredLines (unit : Nat) (source : Text) : List Text :=
  (logicalLines unit source).map fun l => (Text.lines source).getD (l.line - 1) []

/-- The tree of a script as a build with overflow checks makes it: it stops at a line whose columns
are more than a machine word holds. -/
def nest? (unit : Nat) (source : Text) : Option Reading :=
  if (measuredLines unit source).all fun l => (Text.columns? unit l).isSome then
    some (nest unit source)
  else none

end SwiftDraft.Script
