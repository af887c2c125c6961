import Hacp.Lib.Appender
import Hacp.V2.CanonicalForm

/-!
# The independent peer

The Python peer shares no code with the reference implementation. It appends chunks to
an output list, tests truth values before integers, formats escapes and sorts encoded
keys in its own way, and refuses floats. Integers have unlimited precision in Python, but
not every one is printed: the interpreter bounds the digits of a printed integer and the
calls under way at one time, and the peer leaves both bounds as they are.
-/
namespace Hacp.Interop
open Lib V2

inductive PyValue where
  | none
  | bool (b : Bool)
  | int (value : ℤ)
  /-- A number written with a fraction or an exponent; which double it is plays no role. -/
  | float (literal : String)
  | str (s : String)
  | list (items : List PyValue)
  | dict (items : List (String × PyValue))

/-- What the peer raises, and what the interpreter raises in it. -/
inductive PyException where
  | protocolError (message : String)
  | valueError (message : String)
  | recursionError (message : String)

/-- `_write` and its parts append to `out`. -/
abbrev Out := Appender PyException String

/-- `sys.get_int_max_str_digits()`. -/
def maxStrDigits : ℕ := 4300

/-- `sys.getrecursionlimit()`. -/
def recursionLimit : ℕ := 1000

def str (value : ℤ) : Except PyException String :=
  if maxStrDigits < (Nat.toDigits 10 value.natAbs).length then
    .error (.valueError "Exceeds the limit (4300 digits) for integer string conversion")
  else .ok (toString value)

def exceeded : PyException := .recursionError "maximum recursion depth exceeded"

/-- `f"{n:04x}"`. -/
def format04x (n : ℕ) : String := String.ofList (List.leftpad 4 '0' (Nat.toDigits 16 n))

/-- What `_write_string` appends for one character. -/
def stringChunk (ch : Char) : String :=
  if ch = '"' then "\\\""
  else if ch = '\\' then "\\\\"
  else if ch.toNat < 0x20 then "\\u" ++ format04x ch.toNat
  else ch.toString

def writeChars : List Char → Out
  | [], out => .ok out
  | ch :: chars, out => writeChars chars (out ++ [stringChunk ch])

def writeString : ℕ → String → Out
  | 0, _, _ => .error exceeded
  | _ + 1, s, out => do
    let out ← writeChars s.toList (out ++ ["\""])
    .ok (out ++ ["\""])

/-- `sorted(items, key=lambda kv: kv[0].encode("utf-8"))`, which calls the key on every item. -/
def sortedByKey {α : Type} (free : ℕ) (items : List (String × α)) :
    Except PyException (List (String × α)) :=
  if free = 0 ∧ ¬items.isEmpty then .error exceeded
  else .ok (items.mergeSort fun p q => (compare (asBytes p.1) (asBytes q.1)).isLE)

/-- `if i: out.append(",")`. -/
def comma (i : ℕ) : Out := fun out => .ok (if i = 0 then out else out ++ [","])

/-- The loop over the sorted entries of a dict, from the entry number `i`. -/
def writeEntries (free i : ℕ) : List (String × Out) → Out
  | [], out => .ok out
  | (key, item) :: entries, out => do
    let out ← comma i out
    let out ← writeString free key out
    let out ← item (out ++ [":"])
    writeEntries free (i + 1) entries out

mutual
/-- `_write`, with so many frames left for the call and for those it makes. -/
def write : PyValue → ℕ → Out
  | _, 0, _ => .error exceeded
  | .none, _ + 1, out => .ok (out ++ ["null"])
  | .bool true, _ + 1, out => .ok (out ++ ["true"])
  | .bool false, _ + 1, out => .ok (out ++ ["false"])
  | .int value, _ + 1, out => do
    let text ← str value
    .ok (out ++ [text])
  | .float _, _ + 1, _ => .error (.protocolError "canonical form carries integers only (§5.1)")
  | .str s, free + 1, out => writeString free s out
  | .list items, free + 1, out => do
    let out ← writeItems free 0 items (out ++ ["["])
    .ok (out ++ ["]"])
  | .dict items, free + 1, out => do
    let entries ← sortedByKey free (entryWriters free items)
    let out ← writeEntries free 0 entries (out ++ ["\x7b"])
    .ok (out ++ ["\x7d"])

def writeItems (free i : ℕ) : List PyValue → Out
  | [], out => .ok out
  | item :: items, out => do
    let out ← comma i out
    let out ← write item free out
    writeItems free (i + 1) items out

def entryWriters (free : ℕ) : List (String × PyValue) → List (String × Out)
  | [] => []
  | (key, item) :: items => (key, write item free) :: entryWriters free items
end

/-- `canonical`, which is a call itself. -/
def canonical : ℕ → PyValue → Except PyException String
  | 0, _ => .error exceeded
  | free + 1, value => do
    let out ← write value free []
    .ok (String.join out)

mutual
/-- The value the peer reads where the reference implementation reads `v`. -/
def loads : Json → PyValue
  | .null => .none
  | .bool b => .bool b
  | .number (.integer value) => .int value
  | .number (.fractional text _) => .float text
  | .string s => .str s
  | .array items => .list (loadsItems items)
  | .object members => .dict (loadsMembers members)

def loadsItems : List Json → List PyValue
  | [] => []
  | v :: vs => loads v :: loadsItems vs

def loadsMembers : List (String × Json) → List (String × PyValue)
  | [] => []
  | (key, v) :: ms => (key, loads v) :: loadsMembers ms
end

end Hacp.Interop
