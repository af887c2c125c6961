import Hacp.Foreign
import Hacp.V2.Json

/-!
# The canonical form and the protocol digest

Every digest is SHA-256 over the canonical text of a JSON value: no whitespace,
members sorted by key bytes, integers only, minimal escapes. Rendering fails
exactly on a number written with a fraction or exponent, and names its path.
-/
namespace Hacp.V2
open Lib

inductive CanonError where
  | nonIntegerNumber (value path : String)
  | badTimestamp (found path : String)
  deriving DecidableEq

/-- Integers print their decimal text. `is_f64` holds of no text without a fraction mark,
so the test of the source is the test for the three characters. -/
def writeNumber (n : Number) (path : String) : Except CanonError (List Char) :=
  if n.text.toList.any isFractionMark then .error (.nonIntegerNumber n.text path)
  else .ok n.text.toList

def controlEscape (c : Char) : List Char :=
  ['\\', 'u', '0', '0', hexDigit (c.toNat / 16), hexDigit (c.toNat % 16)]

def escapeChar (c : Char) : List Char :=
  if c = '"' then ['\\', '"']
  else if c = '\\' then ['\\', '\\']
  else if c.toNat ≤ 0x1F then controlEscape c
  else [c]

def writeString (s : String) : List Char := '"' :: (s.toList.flatMap escapeChar ++ ['"'])

/-- `key:value` for each member in order, or the first failure. -/
def writePairs : List (String × Except CanonError (List Char)) →
    Except CanonError (List (List Char))
  | [] => .ok []
  | (key, item) :: pairs => do
    let text ← item
    let rest ← writePairs pairs
    .ok ((writeString key ++ ':' :: text) :: rest)

mutual
def writeValue (path : String) : Json → Except CanonError (List Char)
  | .null => .ok ['n', 'u', 'l', 'l']
  | .bool true => .ok ['t', 'r', 'u', 'e']
  | .bool false => .ok ['f', 'a', 'l', 's', 'e']
  | .number n => writeNumber n path
  | .string s => .ok (writeString s)
  | .array items => do
    let texts ← writeItems path 0 items
    .ok ('[' :: [','].intercalate texts ++ [']'])
  | .object members => do
    -- sorted before the values are looked at, so the first failing key is reported
    let texts ← writePairs (Json.sortMembers (writeMembers path members))
    .ok ('{' :: [','].intercalate texts ++ ['}'])

def writeItems (path : String) (i : ℕ) : List Json → Except CanonError (List (List Char))
  | [] => .ok []
  | item :: items => do
    let text ← writeValue (path ++ "[" ++ toString i ++ "]") item
    let texts ← writeItems path (i + 1) items
    .ok (text :: texts)

def writeMembers (path : String) :
    List (String × Json) → List (String × Except CanonError (List Char))
  | [] => []
  | (key, item) :: members =>
    (key, writeValue (path ++ "." ++ key) item) :: writeMembers path members
end

def canonicalJson (value : Json) : Except CanonError String := do
  let out ← writeValue "$" value
  .ok (String.ofList out)

def hexLower (bytes : Bytes) : String := hexText bytes

section Digests
variable (F : Foreign)

/-- SHA-256 over bytes that are already canonical. -/
def digestCanonical (canonical : String) : String := hexLower (F.sha256 (asBytes canonical))

def digestOf (value : Json) : Except CanonError String := do
  let canonical ← canonicalJson value
  .ok (digestCanonical F canonical)

/-- The positions of `YYYY-MM-DDTHH:MM:SSZ` that hold a fixed character. -/
def timestampMarks : List (ℕ × UInt8) :=
  [(4, 45), (7, 45), (10, 84), (13, 58), (16, 58), (19, 90)]

def timestampDigits : List ℕ := [0, 1, 2, 3, 5, 6, 8, 9, 11, 12, 14, 15, 17, 18]

def validateTimestamp (s : String) : Except CanonError Unit :=
  let err := CanonError.badTimestamp s "<timestamp argument>"
  let bytes := asBytes s
  if bytes.length ≠ 20 ∨ timestampMarks.any (fun m => bytes[m.1]? ≠ some m.2) then .error err
  else if !(timestampDigits.all fun i => (bytes[i]?).any isAsciiDigit) then .error err
  else if F.naiveDateTime s then .ok () else .error err

end Digests

end Hacp.V2
