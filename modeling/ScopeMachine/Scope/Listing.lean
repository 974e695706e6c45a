/-
# Listing of a scope

A listing shows the names of a scope in key order, each with the lines on which
it was seen behind a column for names. The lines of a name whose bytes do not
fit that column start on a row of their own.

The lines are printed as numbers of four columns, as many to a row as the print
width has room for behind the indent. A row always takes one number, however
narrow the page, and a number of more than four digits is written in full.
-/

import ScopeMachine.Scope.Basic

namespace ScopeMachine.References

/-- How many columns a line number is given. -/
def cellWidth : Nat := 4

/-- One line number in its column. -/
def cell (line : Nat) : String :=
  Text.alignRight cellWidth (toString line)

/-- The break before a new row. -/
def rowBreak (indent : Nat) : String :=
  "\n" ++ Text.spaces indent

/-- Print line numbers from `column` on. Whenever the next number would run past
`width`, and the row is not empty, a new row begins. -/
def cellsFrom (width indent : Nat) : (column : Nat) → List Nat → String
  | _, [] => ""
  | column, line :: rest =>
    if width < column + cellWidth ∧ indent < column then
      rowBreak indent ++ cell line ++ cellsFrom width indent (indent + cellWidth) rest
    else cell line ++ cellsFrom width indent (column + cellWidth) rest

/-- Print line numbers behind a text that ends at column `indent`; with `wrap`
they start on a row of their own. No line break ends the result, unless it is the
break of `wrap` itself, with no number and no indent behind it. -/
def print (width : Nat) (wrap : Bool) (indent : Nat) (lines : List Nat) : String :=
  (if wrap then rowBreak indent else "") ++ cellsFrom width indent indent lines

end ScopeMachine.References

namespace ScopeMachine.Scope

/-- The width of the column for names. -/
def nameColumn : Nat := 16

/-- Whether the lines of a name start on a row of their own. -/
def wrapsAfter (name : String) : Bool :=
  nameColumn < name.utf8ByteSize

/-- The lines of a listing for one symbol. -/
def listingOf (width : Nat) (symbol : Symbol) : String :=
  Text.alignLeft nameColumn symbol.name ++
    References.print width (wrapsAfter symbol.name) nameColumn symbol.references.toList ++ "\n"

/-- The symbols in key order. -/
def inKeyOrder (scope : Scope) : List Symbol :=
  scope.names.entries.filterMap scope.symbol?

/-- The listing of a scope. -/
def listing (scope : Scope) (settings : Settings) : String :=
  String.join (scope.inKeyOrder.map (listingOf settings.printWidth))

end ScopeMachine.Scope
