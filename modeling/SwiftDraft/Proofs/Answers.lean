import SwiftDraft.Proofs.Restriction

/-!
# What the end of an interpreter means

What an interpreter printed and how it ended decide its answer (`answer_of_finished`). A report of
an error refuses the script, however the interpreter ended. Without one, an end that is no success
is a failure, whatever was printed; and if the interpreter ended well, a printed module is the tree
and anything else is malformed.
-/

namespace SwiftDraft

namespace Interpreter

open Text
open Json (Value)

/-- An object was printed that reports an error. -/
def ReportsError (stdout : Bytes) (message : Text) : Prop :=
  ∃ fields error, printed? stdout = some (.object fields) ∧
    (Value.object fields).field? "error".toList = some error ∧ message = reported error

/-- A module was printed in the shape of a node. -/
def PrintsModule (stdout : Bytes) (t : Tree) : Prop :=
  ∃ v, printed? stdout = some v ∧ Tree.decode? v = some t ∧ t.isModule

/-- Why what was printed is no module. -/
inductive Flawed (stdout : Bytes) : Malformed → Prop
  | notUtf8 (undecoded : decodeUtf8? stdout = none) : Flawed stdout .notUtf8
  | empty {s : Text} (decoded : decodeUtf8? stdout = some s) (blank : trim s = []) :
      Flawed stdout .empty
  | notJson {s : Text} (decoded : decodeUtf8? stdout = some s) (filled : trim s ≠ [])
      (unread : Json.read? (trim s) = none) : Flawed stdout .notJson
  | shape {v : Value} (printed : printed? stdout = some v) (noNode : Tree.decode? v = none) :
      Flawed stdout .shape
  | root {v : Value} {t : Tree} (printed : printed? stdout = some v)
      (node : Tree.decode? v = some t) (other : t.isModule = false) : Flawed stdout (.root t.kind)

section

variable {stdout : Bytes} {v : Value} {t : Tree} {message status stderr : Text} {reason : Malformed}
  {f : Finished}

theorem printed?_eq_some {s : Text} (decoded : decodeUtf8? stdout = some s) :
    printed? stdout = Json.read? (trim s) := by
  rw [printed?, decoded, Option.bind_some]

/-- Only an object has a field. -/
theorem exists_of_field? {key : Text} {e : Value} (h : v.field? key = some e) :
    ∃ fields, v = .object fields := by
  cases v with
  | object fields => exact ⟨fields, rfl⟩
  | null | bool | number | string | array => cases h

theorem reportsError_iff : ReportsError stdout message ↔
    ∃ v error, printed? stdout = some v ∧ v.field? "error".toList = some error ∧
      message = reported error := by
  constructor
  · rintro ⟨fields, error, found⟩
    exact ⟨.object fields, error, found⟩
  · rintro ⟨v, error, printed, found, said⟩
    obtain ⟨fields, rfl⟩ := exists_of_field? found
    exact ⟨fields, error, printed, found, said⟩

theorem reportsError_iff_of_printed (printed : printed? stdout = some v) :
    (∃ message, ReportsError stdout message) ↔ v.field? "error".toList ≠ none := by
  simp only [reportsError_iff, printed, Option.some.injEq, Option.ne_none_iff_exists']
  constructor
  · rintro ⟨_, _, error, rfl, found, -⟩
    exact ⟨error, found⟩
  · rintro ⟨error, found⟩
    exact ⟨_, v, error, rfl, found, rfl⟩

/-- What is no value has a flaw, and that is what is said of it. -/
theorem decodeOutput_of_not_printed (h : printed? stdout = none) :
    ∃ reason, Flawed stdout reason ∧ decodeOutput stdout = .error (.malformed reason) := by
  unfold decodeOutput
  cases decoded : decodeUtf8? stdout with
  | none => exact ⟨_, .notUtf8 decoded, rfl⟩
  | some s =>
    by_cases blank : trim s = []
    · exact ⟨_, .empty decoded blank, if_pos blank⟩
    · have unread : Json.read? (trim s) = none := (printed?_eq_some decoded).symm.trans h
      refine ⟨_, .notJson decoded blank unread, ?_⟩
      simp only [if_neg blank, unread]

theorem decodeOutput_of_printed (printed : printed? stdout = some v) :
    decodeOutput stdout = treeOf v := by
  obtain ⟨s, decoded, read⟩ := Option.bind_eq_some_iff.1 printed
  have filled : trim s ≠ [] := by
    intro blank
    rw [blank, read?_nil] at read
    cases read
  simp only [decodeOutput, decoded, if_neg filled, read]

/-- What was printed either is a module or has a flaw. -/
theorem exists_flawed_iff : (∃ reason, Flawed stdout reason) ↔ ¬∃ t, PrintsModule stdout t := by
  constructor
  · rintro ⟨reason, flawed⟩ ⟨t, v, printed, node, root⟩
    cases flawed with
    | notUtf8 undecoded => simp [printed?, undecoded] at printed
    | empty decoded blank => simp [printed?_eq_some decoded, blank, read?_nil] at printed
    | notJson decoded filled unread => simp [printed?_eq_some decoded, unread] at printed
    | shape printed' noNode => simp_all
    | root printed' node' other => simp_all
  · intro noModule
    cases printed : printed? stdout with
    | none =>
      obtain ⟨reason, flawed, -⟩ := decodeOutput_of_not_printed printed
      exact ⟨reason, flawed⟩
    | some v =>
      cases node : Tree.decode? v with
      | none => exact ⟨_, .shape printed node⟩
      | some t =>
        refine ⟨_, .root printed node ?_⟩
        by_contra root
        exact noModule ⟨t, v, printed, node, by simpa using root⟩

theorem treeOf_eq_refused_iff : treeOf v = .error (.refused message) ↔
    ∃ error, v.field? "error".toList = some error ∧ message = reported error := by
  unfold treeOf
  cases v.field? "error".toList with
  | some error => simp [eq_comm]
  | none =>
    cases Tree.decode? v with
    | none => simp
    | some t => cases root : t.isModule <;> simp [root]

theorem treeOf_eq_malformed_iff : treeOf v = .error (.malformed reason) ↔
    v.field? "error".toList = none ∧ ((Tree.decode? v = none ∧ reason = .shape) ∨
      ∃ t, Tree.decode? v = some t ∧ t.isModule = false ∧ reason = .root t.kind) := by
  unfold treeOf
  cases v.field? "error".toList with
  | some error => simp
  | none =>
    cases Tree.decode? v with
    | none => simpa using eq_comm
    | some t =>
      cases root : t.isModule with
      | true => simp [root]
      | false => simpa [root] using eq_comm

theorem decodeOutput_eq_refused_iff : decodeOutput stdout = .error (.refused message) ↔
    ReportsError stdout message := by
  rw [reportsError_iff]
  cases printed : printed? stdout with
  | some v => simp [decodeOutput_of_printed printed, treeOf_eq_refused_iff]
  | none =>
    obtain ⟨reason, -, malformed⟩ := decodeOutput_of_not_printed printed
    simp [malformed]

theorem decodeOutput_eq_malformed_iff : decodeOutput stdout = .error (.malformed reason) ↔
    (¬∃ message, ReportsError stdout message) ∧ Flawed stdout reason := by
  constructor
  · intro malformed
    cases printed : printed? stdout with
    | none =>
      obtain ⟨reason', flawed, malformed'⟩ := decodeOutput_of_not_printed printed
      rw [malformed'] at malformed
      cases malformed
      refine ⟨?_, flawed⟩
      rintro ⟨message, fields, error, found, -⟩
      rw [printed] at found
      cases found
    | some v =>
      rw [decodeOutput_of_printed printed, treeOf_eq_malformed_iff] at malformed
      rw [reportsError_iff_of_printed printed, not_not]
      obtain ⟨noError, ⟨noNode, rfl⟩ | ⟨t, node, other, rfl⟩⟩ := malformed
      · exact ⟨noError, .shape printed noNode⟩
      · exact ⟨noError, .root printed node other⟩
  · rintro ⟨noError, flawed⟩
    have silent : ∀ {v}, printed? stdout = some v → v.field? "error".toList = none := by
      intro v printed
      simpa [reportsError_iff_of_printed printed] using noError
    cases flawed with
    | notUtf8 undecoded => simp [decodeOutput, undecoded]
    | empty decoded blank => simp [decodeOutput, decoded, blank]
    | notJson decoded filled unread => simp [decodeOutput, decoded, filled, unread]
    | shape printed noNode =>
      rw [decodeOutput_of_printed printed, treeOf_eq_malformed_iff]
      exact ⟨silent printed, Or.inl ⟨noNode, rfl⟩⟩
    | root printed node other =>
      rw [decodeOutput_of_printed printed, treeOf_eq_malformed_iff]
      exact ⟨silent printed, Or.inr ⟨_, node, other, rfl⟩⟩

theorem decodeOutput_cases (stdout : Bytes) : (∃ t, decodeOutput stdout = .ok t) ∨
    (∃ message, decodeOutput stdout = .error (.refused message)) ∨
    ∃ reason, decodeOutput stdout = .error (.malformed reason) := by
  cases printed : printed? stdout with
  | none =>
    obtain ⟨reason, -, malformed⟩ := decodeOutput_of_not_printed printed
    exact Or.inr (Or.inr ⟨reason, malformed⟩)
  | some v =>
    rw [decodeOutput_of_printed printed, treeOf]
    cases v.field? "error".toList with
    | some error => simp
    | none =>
      cases Tree.decode? v with
      | none => simp
      | some t => cases root : t.isModule <;> simp [root]

/-- Without a report of an error the exit decides whether what was printed counts. -/
theorem outcome_of_no_error (noError : ¬∃ message, ReportsError f.stdout message) :
    outcome f = if f.exit = 0 then decodeOutput f.stdout
      else .error (.failed (exitText f.exit) (trim (decodeLossy f.stderr))) := by
  unfold outcome
  split
  · next message refused => exact absurd ⟨message, decodeOutput_eq_refused_iff.1 refused⟩ noError
  · rfl

theorem outcome_of_error (h : ReportsError f.stdout message) :
    outcome f = .error (.refused message) := by
  rw [outcome, decodeOutput_eq_refused_iff.2 h]

theorem outcome_eq_refused_iff :
    outcome f = .error (.refused message) ↔ ReportsError f.stdout message := by
  refine ⟨fun refused => ?_, outcome_of_error⟩
  by_cases noError : ∃ message, ReportsError f.stdout message
  · obtain ⟨message', reports⟩ := noError
    rw [outcome_of_error reports] at refused
    cases refused
    exact reports
  · rw [outcome_of_no_error noError] at refused
    split at refused
    · exact decodeOutput_eq_refused_iff.1 refused
    · cases refused

theorem outcome_eq_failed_iff : outcome f = .error (.failed status stderr) ↔
    (¬∃ message, ReportsError f.stdout message) ∧ f.exit ≠ 0 ∧ status = exitText f.exit ∧
      stderr = trim (decodeLossy f.stderr) := by
  by_cases noError : ∃ message, ReportsError f.stdout message
  · obtain ⟨message, reports⟩ := noError
    rw [outcome_of_error reports]
    exact iff_of_false nofun fun failed => failed.1 ⟨message, reports⟩
  · rw [outcome_of_no_error noError]
    by_cases ended : f.exit = 0
    · rw [if_pos ended]
      refine iff_of_false ?_ fun failed => failed.2.1 ended
      intro failed
      obtain ⟨t, read⟩ | ⟨message, read⟩ | ⟨reason, read⟩ := decodeOutput_cases f.stdout
      all_goals
        rw [read] at failed
        cases failed
    · rw [if_neg ended]
      constructor
      · rintro ⟨⟩
        exact ⟨noError, ended, rfl, rfl⟩
      · rintro ⟨-, -, rfl, rfl⟩
        rfl

theorem outcome_eq_malformed_iff : outcome f = .error (.malformed reason) ↔
    (¬∃ message, ReportsError f.stdout message) ∧ f.exit = 0 ∧ Flawed f.stdout reason := by
  by_cases noError : ∃ message, ReportsError f.stdout message
  · obtain ⟨message, reports⟩ := noError
    rw [outcome_of_error reports]
    exact iff_of_false nofun fun malformed => malformed.1 ⟨message, reports⟩
  · rw [outcome_of_no_error noError]
    by_cases ended : f.exit = 0
    · rw [if_pos ended, decodeOutput_eq_malformed_iff]
      simp [ended]
    · rw [if_neg ended]
      exact iff_of_false nofun fun malformed => ended malformed.2.1

theorem outcome_eq_tree_iff : outcome f = .ok t ↔
    (¬∃ message, ReportsError f.stdout message) ∧ f.exit = 0 ∧ PrintsModule f.stdout t := by
  rw [outcome_eq_ok_iff]
  constructor
  · rintro ⟨ended, v, printed, noError, node, root⟩
    refine ⟨?_, ended, v, printed, node, root⟩
    rw [reportsError_iff_of_printed printed, not_not]
    exact noError
  · rintro ⟨noError, ended, v, printed, node, root⟩
    rw [reportsError_iff_of_printed printed, not_not] at noError
    exact ⟨ended, v, printed, noError, node, root⟩

/-- An interpreter that was started is answered for in one of four ways. -/
theorem outcome_cases (f : Finished) : (∃ t, outcome f = .ok t) ∨
    (∃ message, outcome f = .error (.refused message)) ∨
    (∃ status stderr, outcome f = .error (.failed status stderr)) ∨
    ∃ reason, outcome f = .error (.malformed reason) := by
  simp only [outcome_eq_tree_iff, outcome_eq_refused_iff, outcome_eq_failed_iff,
    outcome_eq_malformed_iff]
  by_cases noError : ∃ message, ReportsError f.stdout message
  · exact Or.inr (Or.inl noError)
  · by_cases ended : f.exit = 0
    · by_cases module : ∃ t, PrintsModule f.stdout t
      · obtain ⟨t, module⟩ := module
        exact Or.inl ⟨t, noError, ended, module⟩
      · obtain ⟨reason, flawed⟩ := exists_flawed_iff.2 module
        exact Or.inr (Or.inr (Or.inr ⟨reason, noError, ended, flawed⟩))
    · exact Or.inr (Or.inr (Or.inl ⟨_, _, noError, ended, rfl, rfl⟩))

end

end Interpreter

namespace Workbench

open Text
open Interpreter
open Files (Fault)

theorem tree_of_finished {path : Text} {start : Text → Except Fault Finished} {source : Text}
    {f : Finished} (started : start (Interpreter.script source) = .ok f) :
    (Provider.interpreting path start).tree source = outcome f := by
  unfold Provider.interpreting
  dsimp only
  rw [started]

/-- The answer of a provider whose interpreter was started and came to its end. The script is
refused exactly if an error was reported. Without a report the interpreter failed exactly if its end
is no success, a tree is had exactly if it ended well and printed a module, and its output is
malformed exactly if it ended well and what it printed has a flaw, which everything has that is no
module. No other answer is given. -/
theorem answer_of_finished (path : Text) (start : Text → Except Fault Finished) (source : Text)
    {f : Finished} (started : start (Interpreter.script source) = .ok f) :
    let answer := (Provider.interpreting path start).tree source
    let noError := ¬∃ message, ReportsError f.stdout message
    (∀ message, answer = .error (.refused message) ↔ ReportsError f.stdout message) ∧
    (∀ status stderr, answer = .error (.failed status stderr) ↔
      noError ∧ f.exit ≠ 0 ∧ status = exitText f.exit ∧ stderr = trim (decodeLossy f.stderr)) ∧
    (∀ t, answer = .ok t ↔ noError ∧ f.exit = 0 ∧ PrintsModule f.stdout t) ∧
    (∀ reason, answer = .error (.malformed reason) ↔
      noError ∧ f.exit = 0 ∧ Flawed f.stdout reason) ∧
    ((∃ reason, Flawed f.stdout reason) ↔ ¬∃ t, PrintsModule f.stdout t) ∧
    ∀ interpreter fault, answer ≠ .error (.spawn interpreter fault) := by
  intro answer noError
  have whole : answer = outcome f := tree_of_finished started
  rw [whole]
  refine ⟨fun _ => outcome_eq_refused_iff, fun _ _ => outcome_eq_failed_iff,
    fun _ => outcome_eq_tree_iff, fun _ => outcome_eq_malformed_iff, exists_flawed_iff, ?_⟩
  intro interpreter fault spawned
  obtain ⟨t, other⟩ | ⟨message, other⟩ | ⟨status, stderr, other⟩ | ⟨reason, other⟩ :=
    outcome_cases f
  all_goals
    rw [other] at spawned
    cases spawned

/-- What an interpreter leaves that was killed behind a report of an error. -/
def killedBehindError : Finished :=
  ⟨encodeUtf8 "\x7b\"error\": \"bad\"\x7d".toList, [], .signal 9 false⟩

theorem decodeOutput_killedBehindError :
    (match decodeOutput killedBehindError.stdout with
      | .error e => decide (e = .refused "bad".toList)
      | .ok _ => false) = true := by decide +kernel

theorem reportsError_killedBehindError :
    ReportsError killedBehindError.stdout "bad".toList := by
  have read := decodeOutput_killedBehindError
  rw [← decodeOutput_eq_refused_iff]
  split at read
  · next e found => rw [found, of_decide_eq_true read]
  · cases read

/-- A report of an error counts although the interpreter was killed. -/
theorem answer_of_killed :
    (Provider.interpreting [] fun _ => .ok killedBehindError).tree [] =
      .error (.refused "bad".toList) :=
  ((answer_of_finished [] (fun _ => .ok killedBehindError) [] rfl).1 _).2
    reportsError_killedBehindError

end Workbench

end SwiftDraft
