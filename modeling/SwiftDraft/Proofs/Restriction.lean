import SwiftDraft.Proofs.TreeEncoding
import SwiftDraft.Proofs.Views
import SwiftDraft.Workbench.Provider

/-!
# The statements of a provider's tree

A tree that a provider gives is a module. The statements of a sketched one are imports, functions
and classes (`restricted_sketch`). The statements of an interpreter's tree are the ones that it
printed, of whatever kind (`kinds_of_decode?`): only the root is looked at.
-/

namespace SwiftDraft

namespace Tree

open Json (Value)

/-- A module whose statements are of the kinds that are expanded at the top of a script. -/
def Restricted (t : Tree) : Prop := t.isModule ∧ ∀ c ∈ t.children, c.kind ∈ topLevelKinds

theorem restricted_sketch (source : Text) : (sketch source).Restricted := by
  refine ⟨rfl, fun c mem => ?_⟩
  obtain ⟨⟨number, raw⟩, inLines, made⟩ := List.mem_filterMap.1 mem
  exact (agrees_of_ofLine? inLines made).topLevel

/-- The type of a printed node. -/
def printedKind? (v : Value) : Option Text := (v.field? "type".toList).bind Value.text?

/-- The types of the children of a printed node. -/
def listedKinds (v : Value) : List Text :=
  match v.field? "children".toList with
  | some (.array items) => items.filterMap printedKind?
  | _ => []

theorem kind_of_decode? {v : Value} {t : Tree} (h : decode? v = some t) :
    printedKind? v = some t.kind := by
  obtain ⟨fields, children, rfl, -, read⟩ := decode?_eq_some h
  obtain ⟨kind, name, line, found, -, -, rfl⟩ := ofFields?_eq_some read
  rw [printedKind?, found]
  rfl

theorem kinds_of_each {items : List Value} {ts : List Tree}
    (each : List.Forall₂ (fun v t => decode? v = some t) items ts) :
    ts.map kind = items.filterMap printedKind? := by
  induction each with
  | nil => rfl
  | cons first _ ih => rw [List.map_cons, List.filterMap_cons, kind_of_decode? first, ih]

/-- The children of a node that is read are those that were printed, each of its printed type. -/
theorem kinds_of_decode? {v : Value} {t : Tree} (h : decode? v = some t) :
    t.children.map kind = listedKinds v := by
  obtain ⟨fields, children, rfl, listed, read⟩ := decode?_eq_some h
  obtain ⟨kind, name, line, -, -, -, rfl⟩ := ofFields?_eq_some read
  obtain ⟨items, found, each⟩ := decodeChildren?_eq_some listed
  rw [listedKinds, found]
  cases items with
  | none =>
    cases each
    rfl
  | some items => exact kinds_of_each each

theorem restricted_iff_of_decode? {v : Value} {t : Tree} (h : decode? v = some t)
    (root : t.isModule) : t.Restricted ↔ ∀ kind ∈ listedKinds v, kind ∈ topLevelKinds := by
  rw [← kinds_of_decode? h, List.forall_mem_map]
  exact and_iff_right root

end Tree

namespace Interpreter

open Text

/-- The value that was printed, if what was printed is one. -/
def printed? (stdout : Bytes) : Option Json.Value :=
  (decodeUtf8? stdout).bind fun printed => Json.read? (trim printed)

theorem read?_nil : Json.read? [] = none := rfl

theorem treeOf_eq_ok_iff {v : Json.Value} {t : Tree} :
    treeOf v = .ok t ↔ v.field? "error".toList = none ∧ Tree.decode? v = some t ∧ t.isModule := by
  unfold treeOf
  cases v.field? "error".toList with
  | some error => simp
  | none =>
    cases Tree.decode? v with
    | none => simp
    | some u =>
      have same : u = t → t.isModule = u.isModule := by
        rintro rfl
        rfl
      cases root : u.isModule with
      | true => simpa [root] using fun here => (same here).trans root
      | false => simpa [root] using fun here => (same here).trans root

theorem decodeOutput_eq_ok_iff {stdout : Bytes} {t : Tree} :
    decodeOutput stdout = .ok t ↔ ∃ v, printed? stdout = some v ∧ treeOf v = .ok t := by
  unfold decodeOutput printed?
  cases decodeUtf8? stdout with
  | none => simp
  | some printed =>
    simp only [Option.bind_some]
    split
    · next blank => simp [blank, read?_nil]
    · cases Json.read? (trim printed) with
      | none => simp
      | some v => simp

/-- A tree is taken of an interpreter that ends well and prints a module without a report of an
error. -/
theorem outcome_eq_ok_iff {f : Finished} {t : Tree} :
    outcome f = .ok t ↔ f.exit = 0 ∧ ∃ v, printed? f.stdout = some v ∧
      v.field? "error".toList = none ∧ Tree.decode? v = some t ∧ t.isModule := by
  have ends : outcome f = .ok t ↔ f.exit = 0 ∧ decodeOutput f.stdout = .ok t := by
    unfold outcome
    split
    · next refused => simp [refused]
    · split
      · next ended => simp [ended]
      · next failed => simp [failed]
  simp only [ends, decodeOutput_eq_ok_iff, treeOf_eq_ok_iff]

end Interpreter

namespace Workbench

open Text
open Interpreter (Finished printed?)
open Files (Fault)

theorem interpreting_eq_ok_iff {path : Text} {start : Text → Except Fault Finished} {source : Text}
    {t : Tree} : (Provider.interpreting path start).tree source = .ok t ↔
      ∃ f, start (Interpreter.script source) = .ok f ∧ Interpreter.outcome f = .ok t := by
  unfold Provider.interpreting
  dsimp only
  cases start (Interpreter.script source) with
  | error fault => simp
  | ok f => simp

/-- The trees of providers. A sketched one is restricted. An interpreter's tree is had exactly if it
ends well and prints a module without a report of an error, and then it is restricted exactly if the
printed statements are. -/
theorem provided_trees (path : Text) (start : Text → Except Fault Finished) (source : Text) :
    (∃ t, Provider.sketching.tree source = .ok t ∧ t.Restricted) ∧
      ∀ t, (Provider.interpreting path start).tree source = .ok t ↔
        ∃ f v, start (Interpreter.script source) = .ok f ∧ f.exit = 0 ∧
          printed? f.stdout = some v ∧ v.field? "error".toList = none ∧
          Tree.decode? v = some t ∧ t.isModule ∧ t.children.map Tree.kind = Tree.listedKinds v ∧
          (t.Restricted ↔ ∀ kind ∈ Tree.listedKinds v, kind ∈ Tree.topLevelKinds) := by
  refine ⟨⟨Tree.sketch source, rfl, Tree.restricted_sketch source⟩, fun t => ?_⟩
  rw [interpreting_eq_ok_iff]
  constructor
  · rintro ⟨f, started, taken⟩
    obtain ⟨ended, v, printed, noError, read, root⟩ := Interpreter.outcome_eq_ok_iff.1 taken
    exact ⟨f, v, started, ended, printed, noError, read, root, Tree.kinds_of_decode? read,
      Tree.restricted_iff_of_decode? read root⟩
  · rintro ⟨f, v, started, ended, printed, noError, read, root, -, -⟩
    exact ⟨f, started, Interpreter.outcome_eq_ok_iff.2 ⟨ended, v, printed, noError, read, root⟩⟩

/-- A module with an expression for its statement, as an interpreter may print it. -/
def exprModule : Text :=
  "\x7b\"type\": \"Module\", \"children\": [\x7b\"type\": \"Expr\"\x7d]\x7d".toList

theorem outcome_exprModule : (Interpreter.outcome ⟨encodeUtf8 exprModule, [], 0⟩).toOption.any
    fun t => t.children.any fun c => !Tree.topLevelKinds.contains c.kind := by decide +kernel

/-- A module is taken though its statement is neither an import nor a function nor a class. -/
theorem unrestricted_tree_taken :
    ∃ t, (Provider.interpreting "python3".toList fun _ =>
        .ok ⟨encodeUtf8 exprModule, [], 0⟩).tree [] = .ok t ∧ ¬t.Restricted := by
  have found := outcome_exprModule
  cases taken : Interpreter.outcome ⟨encodeUtf8 exprModule, [], 0⟩ with
  | error fault =>
    rw [taken] at found
    cases found
  | ok t =>
    rw [taken] at found
    obtain ⟨c, mem, other⟩ := List.any_eq_true.1 (show t.children.any _ = true from found)
    refine ⟨t, interpreting_eq_ok_iff.2 ⟨_, rfl, taken⟩, fun restricted => ?_⟩
    have listed := restricted.2 c mem
    simp [listed] at other

end Workbench

end SwiftDraft
