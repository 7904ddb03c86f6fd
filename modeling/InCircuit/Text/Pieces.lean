/-!
# Pieces of a text

Text is cut at a separator, into lines, and trimmed of the blanks around it.
-/
namespace InCircuit.Text

/-- The text before the first separator, and the text after it if there is one. -/
def cut (separator : Char) : List Char → List Char × Option (List Char)
  | [] => ([], none)
  | c :: rest =>
    if c = separator then ([], some rest)
    else
      let (before, after?) := cut separator rest
      (c :: before, after?)

/-- The pieces between the separators, one more than there are separators. -/
def split (separator : Char) : List Char → List (List Char)
  | [] => [[]]
  | c :: rest =>
    if c = separator then [] :: split separator rest
    else
      match split separator rest with
      | piece :: others => (c :: piece) :: others
      | [] => [[c]]

/-! ## Lines

A line ends at a line feed, with a carriage return directly before it dropped. What follows the
last line feed is a line too, unless it is empty; a carriage return at its end stays. -/

/-- A finished line, given in reverse, without the carriage return at its end. -/
def closeLine : List Char → List Char
  | '\r' :: line => line.reverse
  | line => line.reverse

/-- The lines of the text, of which `line` has been read, in reverse. -/
def linesAfter (line : List Char) : List Char → List (List Char)
  | [] => if line.isEmpty then [] else [line.reverse]
  | c :: rest =>
    if c = '\n' then closeLine line :: linesAfter [] rest else linesAfter (c :: line) rest

def lines (text : List Char) : List (List Char) := linesAfter [] text

/-! ## Blanks -/

/-- Whether the character has the Unicode property `White_Space`. -/
def isBlank (c : Char) : Bool :=
  let n := c.toNat
  (9 ≤ n && n ≤ 13) || n == 0x20 || n == 0x85 || n == 0xA0 || n == 0x1680
    || (0x2000 ≤ n && n ≤ 0x200A) || n == 0x2028 || n == 0x2029 || n == 0x202F || n == 0x205F
    || n == 0x3000

def trim (cs : List Char) : List Char :=
  ((cs.dropWhile isBlank).reverse.dropWhile isBlank).reverse

end InCircuit.Text
