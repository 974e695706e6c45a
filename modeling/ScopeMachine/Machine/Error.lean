/-
# Errors of running code

Code that a compiler made from a well-formed program meets few of these. They
guard the stack, the addresses and the types against code that was made in
another way.
-/

import ScopeMachine.Scope.Error
import ScopeMachine.Types.Store
import ScopeMachine.Value

namespace ScopeMachine

/-- What an operand had to be. -/
inductive Expectation where
  | scalarConstant
  | receiver
  | number
  | stream
  | array
  | int
deriving DecidableEq

namespace Expectation

/-- The words for what was expected. -/
def name : Expectation → String
  | .scalarConstant => "scalar constant"
  | .receiver => "member receiver"
  | .number => "number"
  | .stream => "file"
  | .array => "array"
  | .int => "int"

end Expectation

/-- Why code cannot be run on. -/
inductive EvalError where
  /-- A value was wanted from an empty stack. -/
  | stackUnderflow
  /-- An operand was of the wrong kind, or missing. -/
  | typeMismatch (expected : Expectation) (found : Option ValueKind)
  /-- A symbol was called that has no code to run. -/
  | notARoutine (name : String)
  /-- A variable was fetched before anything was stored in it. -/
  | unboundVariable (name : String)
  /-- A routine found fewer arguments than it takes. -/
  | arityMismatch (routine : String) (expected found : Nat)
  /-- As many routines are active as may be. -/
  | callDepthExceeded (limit : Nat)
  /-- A stream value names no slot. -/
  | notAStream (id : StreamId)
  /-- A reference or an address leads nowhere. -/
  | scope (refusal : ScopeError)
  /-- A question about a type has no answer. -/
  | types (refusal : TypeRefusal)
  /-- More bytes were cut off an array than it has. -/
  | outOfRange (wanted length : Nat)
deriving DecidableEq

namespace EvalError

/-- The message for an error. -/
def message : EvalError → String
  | .stackUnderflow => "evaluation stack underflow"
  | .typeMismatch expected found =>
    "type mismatch: expected " ++ expected.name ++ ", found " ++
      (found.map ValueKind.name).getD "none"
  | .notARoutine name => "`" ++ name ++ "` is not a callable routine"
  | .unboundVariable name => "variable `" ++ name ++ "` has no value"
  | .arityMismatch routine expected found =>
    "`" ++ routine ++ "` takes " ++ toString expected ++ " stack operand(s), only " ++
      toString found ++ " present"
  | .callDepthExceeded limit => "maximum call depth of " ++ toString limit ++ " exceeded"
  | .notAStream id => "stream error: " ++ id.text ++ " is not a stream slot"
  | .scope refusal => refusal.message
  | .types refusal => refusal.message
  | .outOfRange wanted length =>
    toString wanted ++ " bytes wanted from an array of " ++ toString length

end EvalError

end ScopeMachine
