import SwiftDraft.Text.Quoted

/-!
# The interpreter's script

What a Python interpreter is given to read: a program that parses a script, held in it as a string
literal, and prints its syntax tree as JSON.
-/

namespace SwiftDraft.Interpreter

open Text

/-- Replaces each occurrence of `mark` in a text, from the left; `skip` characters belong to the
occurrence before. -/
def replaceFrom (mark replacement : Text) (skip : Nat) : Text → Text
  | [] => []
  | c :: r =>
    match skip with
    | n + 1 => replaceFrom mark replacement n r
    | 0 =>
      if mark.isPrefixOf (c :: r) then replacement ++ replaceFrom mark replacement (mark.length - 1) r
      else c :: replaceFrom mark replacement 0 r

def replaceAll (mark replacement s : Text) : Text := replaceFrom mark replacement 0 s

/-- Where the script's literal goes. -/
def placeholder : Text := "__PYSWIFT_SOURCE__".toList

def templateLines : List String := [
  "import ast",
  "import json",
  "import sys",
  "",
  "SOURCE = __PYSWIFT_SOURCE__",
  "TOP_LEVEL = (ast.Import, ast.ImportFrom, ast.FunctionDef, ast.AsyncFunctionDef, ast.ClassDef)",
  "",
  "",
  "def convert(node):",
  "    kind = type(node).__name__",
  "    if isinstance(node, ast.Import):",
  "        return \x7b\"type\": kind, \"line\": node.lineno, \"names\": [a.name for a in node.names]\x7d",
  "    if isinstance(node, ast.ImportFrom):",
  "        return \x7b",
  "            \"type\": kind,",
  "            \"line\": node.lineno,",
  "            \"module\": node.module or \"\",",
  "            \"level\": node.level,",
  "            \"names\": [a.name for a in node.names],",
  "        \x7d",
  "    if isinstance(node, (ast.FunctionDef, ast.AsyncFunctionDef)):",
  "        return \x7b",
  "            \"type\": kind,",
  "            \"name\": node.name,",
  "            \"line\": node.lineno,",
  "            \"args\": [a.arg for a in node.args.args],",
  "            \"children\": [convert(c) for c in node.body],",
  "        \x7d",
  "    if isinstance(node, ast.ClassDef):",
  "        return \x7b",
  "            \"type\": kind,",
  "            \"name\": node.name,",
  "            \"line\": node.lineno,",
  "            \"bases\": [getattr(b, \"id\", type(b).__name__) for b in node.bases],",
  "            \"children\": [convert(c) for c in node.body],",
  "        \x7d",
  "    return \x7b\"type\": kind\x7d",
  "",
  "",
  "try:",
  "    tree = ast.parse(SOURCE)",
  "except SyntaxError as exc:",
  "    print(json.dumps(\x7b\"error\": \"%s (line %s)\" % (exc.msg, exc.lineno)\x7d))",
  "    sys.exit(0)",
  "",
  "print(json.dumps(\x7b\"type\": \"Module\", \"children\": " ++
    "[convert(n) for n in tree.body if isinstance(n, TOP_LEVEL)]\x7d))"]

def template : Text := templateLines.flatMap fun l => l.toList ++ ['\n']

/-- The program that prints the tree of `source`. A literal of JSON is one of Python too. -/
def script (source : Text) : Text := replaceAll placeholder (Quoted.encode source) template

end SwiftDraft.Interpreter
