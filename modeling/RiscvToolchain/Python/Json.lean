import RiscvToolchain.Python.Str

/- The text `json.dump(value, file, indent=2)` writes. A list or a dictionary is
   written one item a line, two blanks deeper than the bracket that closes it. -/
namespace Python

/-- `n` as four hexadecimal digits. -/
def hex4 (n : Nat) : Str :=
  let digit (k : Nat) : Char := Nat.digitChar (k % 16)
  [digit (n / 4096), digit (n / 256), digit (n / 16), digit n]

def jsonUnicode (n : Nat) : Str := ['\\', 'u'] ++ hex4 n

/-- A character of a string literal (`ensure_ascii`). -/
def jsonChar (c : Char) : Str :=
  let n := c.toNat
  if c = '"' then ['\\', '"']
  else if c = '\\' then ['\\', '\\']
  else if c = '\n' then ['\\', 'n']
  else if c = '\r' then ['\\', 'r']
  else if c = '\t' then ['\\', 't']
  else if n = 0x0c then ['\\', 'f']
  else if n = 0x08 then ['\\', 'b']
  else if 0x20 ≤ n ∧ n ≤ 0x7e then [c]
  else if n < 0x10000 then jsonUnicode n
  -- outside the basic plane: a surrogate pair
  else jsonUnicode (0xd800 + (n - 0x10000) / 0x400) ++ jsonUnicode (0xdc00 + (n - 0x10000) % 0x400)

def jsonString (s : Str) : Str := '"' :: s.flatMap jsonChar ++ ['"']

def newlineIndent (level : Nat) : Str := '\n' :: List.replicate (2 * level) ' '

/-- Items that are already written, between brackets at a level of indentation. -/
def jsonBlock (opening closing : Char) (level : Nat) : List Str → Str
  | [] => [opening, closing]
  | items => opening :: newlineIndent (level + 1) ++
      join (',' :: newlineIndent (level + 1)) items ++ newlineIndent level ++ [closing]

def jsonList (level : Nat) (items : List Str) : Str := jsonBlock '[' ']' level items

def jsonDict (level : Nat) (items : List (Str × Str)) : Str :=
  jsonBlock (Char.ofNat 0x7b) (Char.ofNat 0x7d) level
    (items.map fun item => jsonString item.1 ++ [':', ' '] ++ item.2)

/-- The bytes of a text file opened with `encoding="utf-8"`. -/
def encodeUtf8 (s : Str) : List UInt8 := s.flatMap String.utf8EncodeChar

end Python
