/-!
# Quoted text

The written form of a string between double quotes. Quotes, backslashes and control
characters are written by escapes, every other character stands for itself. `Text.escape` says for
which characters this is the whole truth.
-/

namespace ScopedStore.Text

/-- The control characters, which have no printed form of their own. -/
def isControl (c : Char) : Bool :=
  c.toNat < 0x20 || (0x7f ≤ c.toNat && c.toNat < 0xa0)

def hexEscape (c : Char) : List Char :=
  ['\\', 'u', '\x7b'] ++ Nat.toDigits 16 c.toNat ++ ['\x7d']

/-- The written form of one character, exact for the characters of ASCII and for U+03BB and U+4E2D.
Outside this range a character without a printed form, such as the soft hyphen U+00AD or a combining
mark, ought to be escaped by its number as well, and here it stands for itself. -/
def escape (c : Char) : List Char :=
  if c = '"' then ['\\', '"']
  else if c = '\\' then ['\\', '\\']
  else if c = '\n' then ['\\', 'n']
  else if c = '\r' then ['\\', 'r']
  else if c = '\t' then ['\\', 't']
  else if c = '\x00' then ['\\', '0']
  else if isControl c then hexEscape c
  else [c]

def escapeAll (cs : List Char) : List Char :=
  cs.flatMap escape

def quoted (s : String) : String :=
  String.ofList ('"' :: escapeAll s.toList ++ ['"'])

@[simp] theorem escapeAll_nil : escapeAll [] = [] := rfl

@[simp] theorem escapeAll_cons (c : Char) (cs : List Char) :
    escapeAll (c :: cs) = escape c ++ escapeAll cs := by
  simp [escapeAll]

@[simp] theorem toList_quoted (s : String) :
    (quoted s).toList = '"' :: escapeAll s.toList ++ ['"'] := by
  simp [quoted]

end ScopedStore.Text
