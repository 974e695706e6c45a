/-
# Characters, fields and columns

The blanks are the code points that carry the Unicode property `White_Space`;
core's own `Char.isWhitespace` knows the ASCII ones only, so the whole table
stands here. Lists of names are cut at every occurrence of one separator, which
makes one field more than there are separators, and the blanks around a name are
trimmed.

In a listing a text is set flush left or right in a column by filling up with
spaces. A text wider than its column is written in full, and widths count
characters.

Strings of the running program are byte arrays that end at their first NUL.
Where the machine looks at one as a text it takes each byte for the character
of the same number, whatever encoding the bytes were written in.
-/

namespace ScopeMachine.Text

/-! ## Blanks -/

/-- Whether `c` has the Unicode property `White_Space`. -/
def isBlank (c : Char) : Bool :=
  let n := c.toNat
  (0x9 ≤ n && n ≤ 0xd) || n == 0x20 || n == 0x85 || n == 0xa0 || n == 0x1680 ||
    (0x2000 ≤ n && n ≤ 0x200a) || n == 0x2028 || n == 0x2029 || n == 0x202f ||
    n == 0x205f || n == 0x3000

/-- Drop the blanks at the end of a text. -/
def trimEnd (text : List Char) : List Char :=
  (text.reverse.dropWhile isBlank).reverse

/-- Drop the blanks at both ends of a text; those between other characters stay. -/
def trim (text : List Char) : List Char :=
  trimEnd (text.dropWhile isBlank)

/-! ## Fields between separators -/

/-- The stretches of `text` between occurrences of `separator`, in order. -/
def fields (separator : Char) : List Char → List (List Char)
  | [] => [[]]
  | c :: rest =>
    if c = separator then [] :: fields separator rest
    else
      match fields separator rest with
      | [] => [[c]]
      | field :: others => (c :: field) :: others

/-- There is always a first field. -/
theorem fields_ne_nil (separator : Char) (text : List Char) :
    fields separator text ≠ [] := by
  cases text with
  | nil => simp [fields]
  | cons c rest =>
    simp only [fields]
    split
    · simp
    · split <;> simp

/-- Joining two texts by a separator joins their fields. -/
theorem fields_append (separator : Char) (first second : List Char) :
    fields separator (first ++ separator :: second) =
      fields separator first ++ fields separator second := by
  induction first with
  | nil => simp [fields]
  | cons c rest ih =>
    simp only [List.cons_append, fields, ih]
    split
    · rfl
    · cases h : fields separator rest with
      | nil => exact absurd h (fields_ne_nil separator rest)
      | cons field others => rfl

/-- A text without a separator is one field. -/
theorem fields_of_not_mem {separator : Char} {text : List Char} (hnone : separator ∉ text) :
    fields separator text = [text] := by
  induction text with
  | nil => rfl
  | cons c rest ih =>
    obtain ⟨hc, hrest⟩ := List.ne_and_not_mem_of_not_mem_cons hnone
    simp only [fields, if_neg hc.symm, ih hrest]

/-! ## Columns -/

/-- A run of spaces. -/
def spaces (count : Nat) : String :=
  String.ofList (List.replicate count ' ')

/-- Set `text` flush left in a column of `width` characters. -/
def alignLeft (width : Nat) (text : String) : String :=
  text ++ spaces (width - text.length)

/-- Set `text` flush right in a column of `width` characters. -/
def alignRight (width : Nat) (text : String) : String :=
  spaces (width - text.length) ++ text

/-! ## Bytes as characters -/

/-- The character with the number of `byte`. -/
def charOfByte (byte : UInt8) : Char :=
  Char.ofNat byte.toNat

/-- The bytes in front of the first NUL; all of them if there is none. -/
def beforeNul (bytes : List UInt8) : List UInt8 :=
  bytes.takeWhile (· != 0)

/-- The text whose characters have the numbers of `bytes`. -/
def ofBytes (bytes : List UInt8) : String :=
  String.ofList (bytes.map charOfByte)

end ScopeMachine.Text
