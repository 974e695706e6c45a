/-
# Output of a running program

What a program writes to its standard output and what the trace announces go
through one sink, piece by piece, so that their order is kept. A piece remembers
which hook announced it. Only a buffer keeps its pieces; the other destinations
let them go.
-/

import ScopeMachine.Text.Utf8
import ScopeMachine.Trace.Flags

namespace ScopeMachine

/-- A piece of output. -/
inductive Piece where
  /-- A routine was entered. -/
  | entered (routine : String)
  /-- A routine was left. -/
  | exited (routine : String)
  /-- The statement on a line was reached. -/
  | reached (line : Nat)
  /-- A value was fetched; values without a text end neither text nor line. -/
  | fetched (subject : String) (value : Option String)
  /-- A value is stored; values without a text end neither text nor line. -/
  | stored (subject : String) (value : Option String)
  /-- The program wrote a text. -/
  | written (text : String)
deriving DecidableEq

namespace Piece

/-- The hook that announces a piece; what the program writes has none. -/
def hook? : Piece → Option Hook
  | .entered _ => some .routine
  | .exited _ => some .routine
  | .reached _ => some .statement
  | .fetched _ _ => some .fetch
  | .stored _ _ => some .store
  | .written _ => none

/-- A value at the end of an announcement, with the line break that follows. -/
def endText : Option String → String
  | some value => value ++ "\n"
  | none => ""

/-- The text of a piece. -/
def text : Piece → String
  | .entered routine => ">> Entering routine " ++ routine ++ "\n"
  | .exited routine => ">> Exiting routine " ++ routine ++ "\n"
  | .reached line => ">>  At " ++ toString line ++ "\n"
  | .fetched subject value => ">>   " ++ subject ++ ": " ++ endText value
  | .stored subject value => ">>   " ++ subject ++ " <== " ++ endText value
  | .written text => text

end Piece

/-- Where output goes. -/
inductive Destination where
  | standardOutput
  | buffer
  | silent
deriving DecidableEq

/-- A destination with the pieces it has kept. -/
structure Sink where
  /-- Where output goes. -/
  destination : Destination := .buffer
  /-- The pieces kept so far. -/
  pieces : Array Piece := #[]
deriving DecidableEq

namespace Sink

/-- Send a piece to the sink. -/
def append (sink : Sink) (piece : Piece) : Sink :=
  match sink.destination with
  | .buffer => { sink with pieces := sink.pieces.push piece }
  | _ => sink

/-- Sending a piece leaves the destination as it is. -/
@[simp]
theorem destination_append (sink : Sink) (piece : Piece) :
    (sink.append piece).destination = sink.destination := by
  cases hdestination : sink.destination <;> simp [append, hdestination]

/-- A buffer keeps a piece behind those that it has. -/
theorem pieces_append {sink : Sink} (hbuffer : sink.destination = .buffer) (piece : Piece) :
    (sink.append piece).pieces = sink.pieces.push piece := by
  simp [append, hbuffer]

/-- Any other destination keeps nothing. -/
theorem append_of_ne_buffer {sink : Sink} (hother : sink.destination ≠ .buffer)
    (piece : Piece) : sink.append piece = sink := by
  cases hdestination : sink.destination with
  | buffer => exact absurd hdestination hother
  | standardOutput | silent => simp [append, hdestination]

/-- Send a text. -/
def print (sink : Sink) (text : String) : Sink :=
  sink.append (.written text)

/-- Send a text and a line break. -/
def printLine (sink : Sink) (text : String) : Sink :=
  sink.print (text ++ "\n")

/-- Send bytes, read leniently as UTF-8 by themselves. -/
def write (sink : Sink) (bytes : List UInt8) : Sink :=
  sink.print (Text.decode bytes)

/-- Forget what was kept. -/
def clear (sink : Sink) : Sink :=
  { sink with pieces := #[] }

/-- The text of a sequence of pieces. -/
def textOf (pieces : List Piece) : String :=
  String.join (pieces.map Piece.text)

/-- Everything that was kept, as one text. -/
def text (sink : Sink) : String :=
  textOf sink.pieces.toList

/-- The text of pieces put together is that of the parts put together. -/
@[simp]
theorem textOf_append (first second : List Piece) :
    textOf (first ++ second) = textOf first ++ textOf second := by
  simp [textOf, String.join_append]

/-- What was kept after the first `count` pieces, as one text. -/
def textAfter (sink : Sink) (count : Nat) : String :=
  textOf (sink.pieces.toList.drop count)

end Sink

end ScopeMachine
