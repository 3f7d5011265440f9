import SwiftDraft.Shell.Command

/-!
# Arguments

What the arguments of the program ask for. Options and file names may be mixed; after `--` there are
only file names. An option that takes a value has it attached, or in the next argument. No option
may be given twice.
-/

namespace SwiftDraft.CommandLine

open Text

/-- The options that take a value. -/
inductive Valued where
  | out
  | python
  | indent
  deriving DecidableEq, Repr

/-- The options that are only given or not. -/
inductive Flag where
  | heuristicTree
  | debug
  deriving DecidableEq, Repr

/-- Requests that are answered at once. -/
inductive Notice where
  | help
  | version
  deriving DecidableEq, Repr

structure Arguments where
  files : List Text
  out : Option Text
  python : Option Text
  indent : Option Nat
  heuristicTree : Bool
  debug : Bool
  deriving DecidableEq, Repr

def Arguments.start : Arguments := ⟨[], none, none, none, false, false⟩

/-- Why arguments cannot be made sense of, or need not be. -/
inductive Stop where
  | notice (n : Notice)
  | refused
  deriving DecidableEq, Repr

/-- What a long option is, by the name after its dashes. -/
def longOption? (name : Text) : Option (Valued ⊕ Flag ⊕ Notice) :=
  if name = "out".toList then some (.inl .out)
  else if name = "python".toList then some (.inl .python)
  else if name = "indent".toList then some (.inl .indent)
  else if name = "heuristic-ast".toList then some (.inr (.inl .heuristicTree))
  else if name = "debug".toList then some (.inr (.inl .debug))
  else if name = "help".toList then some (.inr (.inr .help))
  else if name = "version".toList then some (.inr (.inr .version))
  else none

namespace Arguments

/-- Takes the value of an option, unless the option has one. -/
def withValue (a : Arguments) (option : Valued) (value : Text) : Except Stop Arguments :=
  match option with
  | .out => if a.out.isSome then .error .refused else .ok { a with out := some value }
  | .python => if a.python.isSome then .error .refused else .ok { a with python := some value }
  | .indent =>
    if a.indent.isSome then .error .refused
    else match Shell.natural? value with
      | some n => .ok { a with indent := some n }
      | none => .error .refused

def withFlag (a : Arguments) : Flag → Except Stop Arguments
  | .heuristicTree =>
    if a.heuristicTree then .error .refused else .ok { a with heuristicTree := true }
  | .debug => if a.debug then .error .refused else .ok { a with debug := true }

def withFile (a : Arguments) (file : Text) : Arguments := { a with files := a.files ++ [file] }

end Arguments

/-- An argument that is read as an option: two dashes, or one dash and more. -/
def looksLikeOption (argument : Text) : Bool := startsWith argument "-" && argument ≠ ['-']

/-- Reads arguments one after the other. `pending` is an option that waits for its value. -/
def readFrom (pending : Option Valued) (a : Arguments) : List Text → Except Stop Arguments
  | [] => if pending.isSome then .error .refused else .ok a
  | argument :: rest =>
    if looksLikeOption argument then
      if pending.isSome then .error .refused
      else if argument = "--".toList then .ok (rest.foldl Arguments.withFile a)
      else match after? "--" argument with
        | some long =>
          let (name, attached) := match splitOnce? '=' long with
            | some (name, value) => (name, some value)
            | none => (long, none)
          match longOption? name, attached with
          | some (.inl option), some value =>
            match a.withValue option value with
            | .ok a => readFrom none a rest
            | .error stop => .error stop
          | some (.inl option), none => readFrom (some option) a rest
          | some (.inr (.inl flag)), none =>
            match a.withFlag flag with
            | .ok a => readFrom none a rest
            | .error stop => .error stop
          | some (.inr (.inr notice)), none => .error (.notice notice)
          | _, _ => .error .refused
        | none =>
          match argument with
          | [_, 'o'] => readFrom (some .out) a rest
          | _ :: 'o' :: attached =>
            match a.withValue .out ((after? "=" attached).getD attached) with
            | .ok a => readFrom none a rest
            | .error stop => .error stop
          | _ :: 'h' :: _ => .error (.notice .help)
          | _ :: 'V' :: _ => .error (.notice .version)
          | _ => .error .refused
    else match pending with
      | some option =>
        match a.withValue option argument with
        | .ok a => readFrom none a rest
        | .error stop => .error stop
      | none => readFrom none (a.withFile argument) rest

def Arguments.read (arguments : List Text) : Except Stop Arguments :=
  readFrom none Arguments.start arguments

end SwiftDraft.CommandLine
