import InCircuit.Image
import InCircuit.Text.Digits

/-!
# Listing an image

The code in rows of sixteen bytes in device word order, then the known configuration bytes.
-/
namespace InCircuit.Image

open Text

/-- The list cut into pieces of `n` (at least 1), the last one perhaps shorter. -/
def chunks {α : Type} (n : Nat) (xs : List α) : List (List α) :=
  match xs with
  | [] => []
  | x :: rest => (x :: rest.take (n - 1)) :: chunks n (rest.drop (n - 1))
termination_by xs.length
decreasing_by simp only [List.length_drop, List.length_cons]; omega

/-- One row: the device address of its first byte, then the bytes. -/
def row (address : Nat) (bytes : List UInt8) : String :=
  hex 6 address ++ ":" ++ String.join (bytes.map fun b => " " ++ hex 2 b.toNat)

def listing (i : Image) : List String :=
  let rows := (chunks 16 (i.code.toList.take (2 * i.words))).zipIdx.map fun (bytes, n) =>
    row (i.origin + 16 * n) bytes
  let known := i.knownConfig.map fun (offset, value) =>
    "  [" ++ digits 10 2 offset ++ "] " ++ hex 2 value.toNat
  rows ++ if known.isEmpty then [] else "config:" :: known

end InCircuit.Image
