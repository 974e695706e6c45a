/-
# Sessions

A session holds everything that outlives one run of the machine: the context,
the symbols and types of the program, the installed members and the files. A
machine is started from a session and hands its line, its types and its files
back when it is done.
-/

import ScopeMachine.Machine.Run
import ScopeMachine.Member.Tables

namespace ScopeMachine

/-- The state of a compilation and of the runs of its code. -/
structure Session where
  /-- The settings and the current line. -/
  context : Context := {}
  /-- The symbols and types. -/
  declarations : Declarations := {}
  /-- The installed members, if they are. -/
  members : Option MemberTables := none
  /-- The files. -/
  disk : Disk := {}
  /-- What can still be read from the standard input. -/
  input : List UInt8 := []
  /-- Where arrays stand that are shown. -/
  places : Places := .apart

namespace Session

/-- What a machine of the session reads. -/
def environment (session : Session) : Environment where
  scopes := session.declarations.scopes
  settings := session.context.toSettings
  places := session.places

/-- A machine at the start of a run. -/
def machine (session : Session) (destination : Destination) : Machine where
  channels := { disk := session.disk, input := session.input, sink := { destination } }
  types := session.declarations.types
  line := session.context.line

/-- The session after a run. -/
def afterRun (session : Session) (machine : Machine) : Session :=
  { session with
    context.line := machine.line
    declarations.types := machine.types
    disk := machine.channels.disk
    input := machine.channels.input }

/-- Work on the symbol tables of the session. -/
def onScopes {α : Type} (session : Session) (work : ScopeM α) :
    Except ScopeError α × Session :=
  match work session.declarations.scopes with
  | .ok answer scopes => (.ok answer, { session with declarations.scopes := scopes })
  | .error refusal scopes => (.error refusal, { session with declarations.scopes := scopes })

/-- Install the members of built-in values. After a refusal the members that were
installed before, if any, stay. -/
def install (session : Session) : Except InstallError MemberTables × Session :=
  match MemberTables.install session.context session.declarations with
  | .ok tables declarations =>
    (.ok tables, { session with declarations, members := some tables })
  | .error refusal declarations => (.error refusal, { session with declarations })

end Session

end ScopeMachine
