import PaymentService.Python.Str
import PaymentService.Lib.Numeral
import Mathlib.Data.List.Sort
import Mathlib.Data.List.Lex
import Mathlib.Order.Fin.Basic

/-!
# `json`

The values `json.loads` gives, and the text `json.dumps` makes of one with sorted keys, without
blanks and with every character beyond ASCII as it is. The text of a finite float is Python's
`repr`, which is a parameter here.
-/

namespace Python

/-- A float is its 64 bits, a `dict` its items in insertion order. -/
inductive PyJson
  | null
  | bool (b : Bool)
  | int (i : ℤ)
  | float (bits : BitVec 64)
  | str (s : PyStr)
  | arr (items : List PyJson)
  | obj (fields : List (PyStr × PyJson))

namespace PyJson

def isFinite (bits : BitVec 64) : Bool := bits >>> 52 &&& 0x7FF#64 ≠ 0x7FF#64

/-! ## Predicates on all parts -/

mutual

/-- Every string satisfies `p`, a key or not, and every float `q`. -/
def all (p : PyStr → Bool) (q : BitVec 64 → Bool) : PyJson → Bool
  | .float bits => q bits
  | .str s => p s
  | .arr items => itemsAll p q items
  | .obj fields => fieldsAll p q fields
  | _ => true

def itemsAll (p : PyStr → Bool) (q : BitVec 64 → Bool) : List PyJson → Bool
  | [] => true
  | x :: xs => x.all p q && itemsAll p q xs

def fieldsAll (p : PyStr → Bool) (q : BitVec 64 → Bool) : List (PyStr × PyJson) → Bool
  | [] => true
  | (k, x) :: xs => p k && x.all p q && fieldsAll p q xs

end

mutual

/-- No `dict` has a key twice. -/
def keysOk : PyJson → Bool
  | .arr items => itemsKeysOk items
  | .obj fields => decide (fields.map Prod.fst).Nodup && fieldsKeysOk fields
  | _ => true

def itemsKeysOk : List PyJson → Bool
  | [] => true
  | x :: xs => x.keysOk && itemsKeysOk xs

def fieldsKeysOk : List (PyStr × PyJson) → Bool
  | [] => true
  | (_, x) :: xs => x.keysOk && fieldsKeysOk xs

end

/-! ## Nesting -/

section

variable (scalar : ℕ)

mutual

/-- How many values stand within one another, the outermost included; one that is no array and no
object counts as `scalar`. -/
def depth : PyJson → ℕ
  | .arr items => itemsDepth items + 1
  | .obj fields => fieldsDepth fields + 1
  | _ => scalar

def itemsDepth : List PyJson → ℕ
  | [] => 0
  | x :: xs => max x.depth (itemsDepth xs)

def fieldsDepth : List (PyStr × PyJson) → ℕ
  | [] => 0
  | (_, x) :: xs => max x.depth (fieldsDepth xs)

end

end

/-! ## Equality of values -/

mutual

/-- Equality as JSON values: the order of a `dict`'s items does not matter. -/
def Same : PyJson → PyJson → Prop
  | .null, .null => True
  | .bool b, .bool c => b = c
  | .int i, .int j => i = j
  | .float x, .float y => x = y
  | .str s, .str t => s = t
  | .arr xs, .arr ys => SameItems xs ys
  | .obj fs, .obj gs => fs.length = gs.length ∧ SameFields fs gs
  | _, _ => False

def SameItems : List PyJson → List PyJson → Prop
  | [], [] => True
  | x :: xs, y :: ys => Same x y ∧ SameItems xs ys
  | _, _ => False

/-- Each of the first items is among the second ones. -/
def SameFields : List (PyStr × PyJson) → List (PyStr × PyJson) → Prop
  | [], _ => True
  | (k, x) :: fs, gs => (∃ y, (k, y) ∈ gs ∧ Same x y) ∧ SameFields fs gs

end

/-! ## `json.dumps` -/

def byKey (f g : PyStr × PyJson) : Prop := f.1 ≤ g.1

instance : DecidableRel byKey := fun f g => inferInstanceAs (Decidable (f.1 ≤ g.1))

mutual

/-- The value with the items of every `dict` in the order of their keys. -/
def sortKeys : PyJson → PyJson
  | .arr items => .arr (sortItems items)
  | .obj fields => .obj ((sortFields fields).insertionSort byKey)
  | j => j

def sortItems : List PyJson → List PyJson
  | [] => []
  | x :: xs => x.sortKeys :: sortItems xs

def sortFields : List (PyStr × PyJson) → List (PyStr × PyJson)
  | [] => []
  | (k, x) :: xs => (k, x.sortKeys) :: sortFields xs

end

def lit (cs : List Char) : PyStr := cs.map .ofChar

/-- The text of a character within a string. -/
def escapeChar (c : CodePoint) : PyStr :=
  if c = .ofChar '"' then lit ['\\', '"']
  else if c = .ofChar '\\' then lit ['\\', '\\']
  else if c = .ofChar '\n' then lit ['\\', 'n']
  else if c = .ofChar '\r' then lit ['\\', 'r']
  else if c = .ofChar '\t' then lit ['\\', 't']
  else if c.val = 12 then lit ['\\', 'f']
  else if c.val = 8 then lit ['\\', 'b']
  else if c.val < 32 then
    lit ['\\', 'u', '0', '0', Nat.digitChar (c.val / 16), Nat.digitChar (c.val % 16)]
  else [c]

def quote (s : PyStr) : PyStr := .ofChar '"' :: (s.flatMap escapeChar ++ [.ofChar '"'])

def intChars (i : ℤ) : List Char :=
  if i < 0 then '-' :: Numeral.toChars i.natAbs else Numeral.toChars i.natAbs

section

variable (floatRepr : BitVec 64 → List Char)

def floatChars (bits : BitVec 64) : List Char :=
  if isFinite bits then floatRepr bits
  else if bits &&& 0xFFFFFFFFFFFFF#64 ≠ 0#64 then ['N', 'a', 'N']
  else if bits.getLsbD 63 then ['-', 'I', 'n', 'f', 'i', 'n', 'i', 't', 'y']
  else ['I', 'n', 'f', 'i', 'n', 'i', 't', 'y']

/-- The comma before an item or a field that is not the first. -/
def comma (first : Bool) : PyStr := if first then [] else [.ofChar ',']

mutual

/-- The text of a value, its items in the order they have. -/
def render : PyJson → PyStr
  | .null => lit ['n', 'u', 'l', 'l']
  | .bool true => lit ['t', 'r', 'u', 'e']
  | .bool false => lit ['f', 'a', 'l', 's', 'e']
  | .int i => lit (intChars i)
  | .float bits => lit (floatChars floatRepr bits)
  | .str s => quote s
  | .arr items => .ofChar '[' :: renderItems true items
  | .obj fields => .ofChar '{' :: renderFields true fields

/-- The rest of an array. -/
def renderItems : Bool → List PyJson → PyStr
  | _, [] => [.ofChar ']']
  | first, x :: xs => comma first ++ (render x ++ renderItems false xs)

/-- The rest of an object. -/
def renderFields : Bool → List (PyStr × PyJson) → PyStr
  | _, [] => [.ofChar '}']
  | first, (k, x) :: xs =>
    comma first ++ (quote k ++ .ofChar ':' :: (render x ++ renderFields false xs))

end

/-- `json.dumps(value, sort_keys=True, ensure_ascii=False, separators=(",", ":"))`. -/
def dumps (j : PyJson) : PyStr := render floatRepr j.sortKeys

end

end PyJson

end Python
