import SwiftDraft.Draft.Declarations
import SwiftDraft.Skeleton.Sample

/-!
# Test skeletons

One unit test for each function that Swift text declares, and one integration test if there are at
least two. A suite is an `XCTestCase` class with the tests as its methods.
-/

namespace SwiftDraft.Skeleton

open Text
open Draft (DeclaredFunction DeclaredParameter)

inductive Kind where
  | unit
  | integration
  deriving DecidableEq, Repr

def Kind.text : Kind → Text
  | .unit => "unit".toList
  | .integration => "integration".toList

/-- A test: its body is the whole text of its method, which is not indented. -/
structure Test where
  name : Text
  body : Text
  kind : Kind
  deriving DecidableEq, Repr

/-- The text of a method with the given lines. -/
def method (name : Text) (body : List Text) : Text :=
  "func ".toList ++ name ++ "() \x7b\n".toList ++
  body.flatMap (fun l => "    ".toList ++ l ++ ['\n']) ++ "\x7d\n".toList

/-- A call of a function; a method is called on a new value of its type. -/
def call (f : DeclaredFunction) (arguments : List Text) : Text :=
  let receiver := match f.owner with
    | some owner => owner ++ "().".toList
    | none => []
  receiver ++ f.name ++ '(' :: join ", " arguments ++ [')']

def argument (p : DeclaredParameter) (value : Text) : Text :=
  match p.label with
  | some label => label ++ ": ".toList ++ value
  | none => value

/-- The text without the copies of `suffix` at its end. `suffix` is not empty. -/
def dropSuffixes (suffix : Text) (s : Text) : Text :=
  (go s.length s.reverse).reverse
where
  go : Nat → Text → Text
    | 0, r => r
    | n + 1, r =>
      match suffix.reverse.isPrefixOf? r with
      | some rest => go n rest
      | none => r

/-- The type of a local without a sample value. -/
def wrappedType (type : Option Text) : Text :=
  match type with
  | some t => trimEndWhere (· == '?') (dropSuffixes "...".toList t)
  | none => "Any".toList

/-- Whether `->` stands in a type. -/
def isFunctionType (type : Text) : Bool := (cutAt? "->".toList type).isSome

/-- The `let` line that binds a parameter's local. -/
def binding (p : DeclaredParameter) : Text :=
  let literal := sample p.type
  if literal = "nil".toList then
    let type := wrappedType p.type
    let type := if isFunctionType type then '(' :: type ++ [')'] else type
    "let ".toList ++ p.name ++ ": ".toList ++ type ++ "? = nil".toList
  else "let ".toList ++ p.name ++ " = ".toList ++ literal

/-- The lines of a function's unit test. -/
def unitLines (f : DeclaredFunction) : List Text :=
  let made := call f (f.parameters.map fun p => argument p p.name)
  f.parameters.map binding ++
  match f.returnType with
  | some type =>
    ["let result = ".toList ++ made, "XCTAssertNotNil(result)".toList] ++
    (if type = "String".toList then ["XCTAssertFalse(result.isEmpty)".toList] else [])
  | none => [made, "// ".toList ++ f.name ++ " returns no value; nothing to assert".toList]

/-- The name with its first letter in upper case. Names start with an ASCII letter or `_`. -/
def capitalized : Text → Text
  | [] => []
  | c :: r => c.toUpper :: r

/-- The first name that is not taken: `base` itself, or else `base` with the least number from `n`
on. Among `taken.length + 1` numbers one is free. -/
def freshName (taken : List Text) (base : Text) : Text :=
  if base ∈ taken then go taken.length 2 else base
where
  go : Nat → Nat → Text
    | 0, n => base ++ ofNat n
    | k + 1, n => if base ++ ofNat n ∈ taken then go k (n + 1) else base ++ ofNat n

def unitTest (taken : List Text) (f : DeclaredFunction) : Test :=
  let name := freshName taken ("test".toList ++ capitalized f.name)
  ⟨name, method name (unitLines f), .unit⟩

/-- The unit tests of functions, none of which takes a name in `taken`. -/
def unitTests (taken : List Text) : List DeclaredFunction → List Test
  | [] => []
  | f :: fs =>
    let test := unitTest taken f
    test :: unitTests (test.name :: taken) fs

/-- A call with sample values. -/
def sampleCall (f : DeclaredFunction) : Text :=
  call f (f.parameters.map fun p => argument p (sample p.type))

def integrationTest (first second : DeclaredFunction) : Test :=
  let name := "testIntegration".toList
  ⟨name,
    method name
      ["let first = ".toList ++ sampleCall first, "let second = ".toList ++ sampleCall second,
        "XCTAssertNotNil(first)".toList, "XCTAssertNotNil(second)".toList],
    .integration⟩

/-- The tests of declared functions. -/
def testsOf (functions : List DeclaredFunction) : List Test :=
  unitTests [] functions ++
  match functions with
  | first :: second :: _ => [integrationTest first second]
  | _ => []

/-- The test skeletons of Swift text. -/
def tests (swift : Text) : List Test := testsOf (Draft.declarations swift).functions

/-- A line of a method inside a class. -/
def suiteLine (l : Text) : Text := if l = [] then ['\n'] else "    ".toList ++ l ++ ['\n']

def suiteMethod (t : Test) : Text := (lines t.body).flatMap suiteLine

/-- Tests as one `XCTestCase` class, with a blank line between two methods. -/
def suite (className : Text) (tests : List Test) : Text :=
  "import XCTest\n\nfinal class ".toList ++ className ++ ": XCTestCase \x7b\n".toList ++
  join "\n" (tests.map suiteMethod) ++ "\x7d\n".toList

end SwiftDraft.Skeleton
