/-!
# Fragments

A statement is written as a list of fragments: first the indent, then every token with a
space behind it; the keyword of a header stands bare, and a statement without control flow
of its own ends in a line feed.
-/

namespace Flowgraph.Fragment

/-- The fragment with which every statement opens. -/
def indent : String := "    "

/-- Every token with a space behind it. -/
def ofTokens (tokens : List String) : List String := tokens.map (· ++ " ")

/-- The bare keywords that open a header. -/
def isKeyword (fragment : String) : Bool :=
  fragment == "if" || fragment == "while" || fragment == "for"

/-- A statement without control flow of its own. -/
def statement (tokens : List String) : List String := indent :: ofTokens tokens ++ ["\n"]

/-- A clause of a `for` header, written as a statement of its own. -/
def clause (tokens : List String) : List String := indent :: ofTokens tokens ++ ["; ", "\n"]

/-- The header of an `if`. -/
def ifHeader (condition : List String) : List String :=
  [indent, "if", "( "] ++ ofTokens condition ++ [") "]

/-- The header of a `while`. -/
def whileHeader (condition : List String) : List String :=
  [indent, "while", "( "] ++ ofTokens condition ++ [") "]

/-- The header of a `for`, whose other two clauses stand elsewhere. -/
def forHeader (condition : List String) : List String :=
  [indent, "for", "( ", "; "] ++ ofTokens condition ++ ["; ", ") "]

end Flowgraph.Fragment
