/-!
# Numbers as text

Digits are upper case. A width is a minimum: a number that needs more digits keeps them all.
-/
namespace InCircuit.Text

def digits (base width n : Nat) : String :=
  String.ofList (((Nat.toDigits base n).map Char.toUpper).leftpad width '0')

def decimal (n : Nat) : String := digits 10 0 n

def hex (width n : Nat) : String := digits 16 width n

def binary (width n : Nat) : String := digits 2 width n

def blanks (n : Nat) : String := String.ofList (List.replicate n ' ')

def flushLeft (width : Nat) (s : String) : String := s ++ blanks (width - s.length)

def flushRight (width : Nat) (s : String) : String := blanks (width - s.length) ++ s

def hexValue? (c : Char) : Option Nat :=
  if '0' ≤ c ∧ c ≤ '9' then some (c.toNat - '0'.toNat)
  else if 'A' ≤ c ∧ c ≤ 'F' then some (c.toNat - 'A'.toNat + 10)
  else if 'a' ≤ c ∧ c ≤ 'f' then some (c.toNat - 'a'.toNat + 10)
  else none

/-- The number that a run of digits denotes in a base of at most 16; the empty run denotes 0. -/
def ofDigits? (base : Nat) : List Char → Option Nat :=
  go 0
where
  go (acc : Nat) : List Char → Option Nat
    | [] => some acc
    | c :: rest =>
      match hexValue? c with
      | some v => if v < base then go (acc * base + v) rest else none
      | none => none

/-- A number below `bound`: digits, at least one, after an optional plus sign. -/
def ofUnsigned? (base bound : Nat) (text : List Char) : Option Nat :=
  let run :=
    match text with
    | '+' :: rest => rest
    | _ => text
  match run with
  | [] => none
  | _ => (ofDigits? base run).filter (· < bound)

end InCircuit.Text
