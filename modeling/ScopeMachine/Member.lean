/-
# Members of built-in values

Values of the scalar types and streams have members that the machine carries
out itself. This module lists them in the order in which they are installed,
with the parameters and the result of each. How many arguments the machine takes
for a member is a table of its own; the two have to agree for the members to be
installed.
-/

namespace ScopeMachine

/-- A member of a built-in value. -/
inductive Member where
  /-- The size of the value's type. -/
  | size
  /-- The number of elements. -/
  | length
  /-- The value as a text. -/
  | toStr
  /-- The value as a text of wide characters. -/
  | toWstr
  /-- The value as an integer. -/
  | toInt
  /-- The value as a character. -/
  | toChr
  /-- The value as a floating-point number. -/
  | toFlt
  /-- The value as a truth value. -/
  | toBool
  /-- The value as a wide character. -/
  | toWchr
  /-- The value as a byte. -/
  | toByte
  /-- Write a line of text to a stream. -/
  | puts
  /-- Open a file. -/
  | open
  /-- Close a stream and open a file in its place. -/
  | reopen
  /-- Close a stream. -/
  | close
  /-- Deliver what was written. -/
  | flush
  /-- Choose or ask for the orientation of a stream. -/
  | wide
  /-- Read from a stream. -/
  | read
  /-- Write to a stream. -/
  | write
deriving DecidableEq

/-- The kind of values that a member belongs to. -/
inductive MemberOwner where
  | scalar
  | stream
deriving DecidableEq

/-- What a member takes for a parameter. -/
inductive ParameterKind where
  | int
  | charArray
  | byteArray
deriving DecidableEq

/-- What a member returns. -/
inductive ResultKind where
  | int
  | float
  | bool
  | char
  | wideChar
  | byte
  | charArray
  | wideCharArray
deriving DecidableEq

/-- A parameter of a member. -/
structure Parameter where
  /-- The name under which it is entered. -/
  name : String
  /-- What it takes. -/
  kind : ParameterKind
deriving DecidableEq

namespace Member

/-- The members of scalar values, in the order of installation. -/
def scalars : List Member :=
  [.size, .length, .toStr, .toWstr, .toInt, .toChr, .toFlt, .toBool, .toWchr, .toByte]

/-- The members of streams, in the order of installation. -/
def streams : List Member :=
  [.puts, .open, .reopen, .close, .flush, .wide, .read, .write]

/-- Every member, in the order of installation. -/
def all : List Member :=
  scalars ++ streams

/-- The members of one kind of value, in the order of installation. -/
def ofOwner : MemberOwner → List Member
  | .scalar => scalars
  | .stream => streams

/-- The name of a member. -/
def name : Member → String
  | .size => "size"
  | .length => "length"
  | .toStr => "to_str"
  | .toWstr => "to_wstr"
  | .toInt => "to_int"
  | .toChr => "to_chr"
  | .toFlt => "to_flt"
  | .toBool => "to_bool"
  | .toWchr => "to_wchr"
  | .toByte => "to_byte"
  | .puts => "puts"
  | .open => "open"
  | .reopen => "reopen"
  | .close => "close"
  | .flush => "flush"
  | .wide => "wide"
  | .read => "read"
  | .write => "write"

/-- The parameters of a member, without the value it is called on. -/
def parameters : Member → List Parameter
  | .puts => [⟨"str", .charArray⟩]
  | .open => [⟨"filename", .charArray⟩, ⟨"mode", .charArray⟩]
  | .reopen => [⟨"filename", .charArray⟩, ⟨"mode", .charArray⟩]
  | .wide => [⟨"mode", .int⟩]
  | .read => [⟨"size", .int⟩, ⟨"count", .int⟩]
  | .write => [⟨"buffer", .byteArray⟩, ⟨"size", .int⟩, ⟨"count", .int⟩]
  | _ => []

/-- What a member returns. -/
def result : Member → ResultKind
  | .size => .int
  | .length => .int
  | .toStr => .charArray
  | .toWstr => .wideCharArray
  | .toInt => .int
  | .toChr => .char
  | .toFlt => .float
  | .toBool => .bool
  | .toWchr => .wideChar
  | .toByte => .byte
  | .puts => .bool
  | .open => .bool
  | .reopen => .bool
  | .close => .bool
  | .flush => .bool
  | .wide => .int
  | .read => .charArray
  | .write => .int

/-- How many parameters a member has, without the value it is called on. -/
def arity (member : Member) : Nat :=
  member.parameters.length

/-- How many arguments the machine takes for a member, without the value it is
called on. -/
def handlerArity : Member → Nat
  | .size | .length | .toStr | .toWstr | .toInt | .toChr | .toFlt | .toBool | .toWchr
  | .toByte | .close | .flush => 0
  | .puts | .wide => 1
  | .open | .reopen | .read => 2
  | .write => 3

/-- The machine takes as many arguments as a member has parameters. -/
@[simp]
theorem handlerArity_eq (member : Member) : member.handlerArity = member.arity := by
  cases member <;> rfl

/-- The place of a member in the order of installation. -/
def index (member : Member) : Nat :=
  all.idxOf member

/-- The member with a name. -/
def named? (name : String) : Option Member :=
  all.find? (·.name == name)

/-- Every member is in the list of all members. -/
theorem mem_all (member : Member) : member ∈ all := by
  cases member <;> decide

end Member

end ScopeMachine
