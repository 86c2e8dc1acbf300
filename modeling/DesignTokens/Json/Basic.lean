import DesignTokens.Binary64.Decimal
import DesignTokens.Entries

namespace DesignTokens

inductive Number
  | int (n : Int)
  | float (x : Finite64)
  deriving DecidableEq, Repr

inductive Json
  | null
  | bool (b : Bool)
  | num (n : Number)
  | str (s : String)
  | arr (items : List Json)
  | obj (entries : List (String × Json))
  deriving Inhabited, Repr

/-- Numeric equality.  Integers and binary64 numbers are never equal. -/
def Number.equal : Number → Number → Bool
  | .int a, .int b => a == b
  | .float x, .float y => x.equal y
  | _, _ => false

def Number.toBinary64 : Number → Binary64
  | .int n => .ofInt n
  | .float x => .finite x

namespace Json

mutual

def equal : Json → Json → Bool
  | .null, .null => true
  | .bool a, .bool b => a == b
  | .num a, .num b => a.equal b
  | .str a, .str b => a == b
  | .arr a, .arr b => equalItems a b
  | .obj a, .obj b => a.length == b.length && equalEntries a b
  | _, _ => false

def equalItems : List Json → List Json → Bool
  | [], [] => true
  | a :: as, b :: bs => equal a b && equalItems as bs
  | _, _ => false

def equalEntries : List (String × Json) → List (String × Json) → Bool
  | [], _ => true
  | (key, value) :: rest, others =>
    (match Entries.get? others key with
      | some other => equal value other
      | none => false) && equalEntries rest others

end

mutual

def decideEq : (a b : Json) → Decidable (a = b)
  | .null, .null => isTrue rfl
  | .bool a, .bool b =>
    if h : a = b then isTrue (h ▸ rfl) else isFalse fun e => h (by injection e)
  | .num a, .num b =>
    if h : a = b then isTrue (h ▸ rfl) else isFalse fun e => h (by injection e)
  | .str a, .str b =>
    if h : a = b then isTrue (h ▸ rfl) else isFalse fun e => h (by injection e)
  | .arr a, .arr b =>
    match decideItems a b with
    | isTrue h => isTrue (h ▸ rfl)
    | isFalse h => isFalse fun e => h (by injection e)
  | .obj a, .obj b =>
    match decideEntries a b with
    | isTrue h => isTrue (h ▸ rfl)
    | isFalse h => isFalse fun e => h (by injection e)
  | .null, .bool _ | .null, .num _ | .null, .str _ | .null, .arr _ | .null, .obj _
  | .bool _, .null | .bool _, .num _ | .bool _, .str _ | .bool _, .arr _ | .bool _, .obj _
  | .num _, .null | .num _, .bool _ | .num _, .str _ | .num _, .arr _ | .num _, .obj _
  | .str _, .null | .str _, .bool _ | .str _, .num _ | .str _, .arr _ | .str _, .obj _
  | .arr _, .null | .arr _, .bool _ | .arr _, .num _ | .arr _, .str _ | .arr _, .obj _
  | .obj _, .null | .obj _, .bool _ | .obj _, .num _ | .obj _, .str _ | .obj _, .arr _ =>
    isFalse nofun

def decideItems : (a b : List Json) → Decidable (a = b)
  | [], [] => isTrue rfl
  | a :: as, b :: bs =>
    match decideEq a b, decideItems as bs with
    | isTrue h, isTrue hs => isTrue (h ▸ hs ▸ rfl)
    | isFalse h, _ => isFalse fun e => h (by injection e)
    | _, isFalse hs => isFalse fun e => hs (by injection e)
  | [], _ :: _ | _ :: _, [] => isFalse nofun

def decideEntries : (a b : List (String × Json)) → Decidable (a = b)
  | [], [] => isTrue rfl
  | (j, a) :: as, (k, b) :: bs =>
    match decEq j k, decideEq a b, decideEntries as bs with
    | isTrue hk, isTrue h, isTrue hs => isTrue (hk ▸ h ▸ hs ▸ rfl)
    | isFalse hk, _, _ => isFalse fun e => hk (by simp_all)
    | _, isFalse h, _ => isFalse fun e => h (by simp_all)
    | _, _, isFalse hs => isFalse fun e => hs (by injection e)
  | [], _ :: _ | _ :: _, [] => isFalse nofun

end

instance : DecidableEq Json := decideEq

mutual

/-- The value with every object reduced to distinct keys: a repeated key keeps its first position
and its last value. -/
def withDistinctKeys : Json → Json
  | .arr items => .arr (itemsWithDistinctKeys items)
  | .obj entries => .obj (Entries.ofList (entriesWithDistinctKeys entries))
  | value => value

def itemsWithDistinctKeys : List Json → List Json
  | [] => []
  | item :: rest => withDistinctKeys item :: itemsWithDistinctKeys rest

/-- Every value of an entry list with distinct keys; the list itself is left as it is. -/
def entriesWithDistinctKeys : List (String × Json) → List (String × Json)
  | [] => []
  | (key, value) :: rest => (key, withDistinctKeys value) :: entriesWithDistinctKeys rest

end

mutual

def size : Json → Nat
  | .arr items => sizeOfItems items + 1
  | .obj entries => sizeOfEntries entries + 1
  | _ => 1

def sizeOfItems : List Json → Nat
  | [] => 0
  | item :: rest => size item + sizeOfItems rest

def sizeOfEntries : List (String × Json) → Nat
  | [] => 0
  | (_, value) :: rest => size value + sizeOfEntries rest

end

def typeName : Json → String
  | .null => "null"
  | .bool _ => "a boolean"
  | .num _ => "a number"
  | .str _ => "a string"
  | .arr _ => "an array"
  | .obj _ => "an object"

def asString? : Json → Option String
  | .str s => some s
  | _ => none

def asObject? : Json → Option (Entries Json)
  | .obj entries => some entries
  | _ => none

def asStrings? : Json → Option (List String)
  | .arr items => items.mapM asString?
  | _ => none

def ofStrings (texts : List String) : Json := .arr (texts.map .str)

end Json

end DesignTokens
