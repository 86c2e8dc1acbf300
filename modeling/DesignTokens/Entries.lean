
universe u v

namespace DesignTokens

/-- Entries of an ordered map, in declaration order.  The operations below keep the keys distinct.
-/
abbrev Entries (α : Type u) := List (String × α)

namespace Entries

variable {α : Type u} {β : Type v}

def get? : Entries α → String → Option α
  | [], _ => none
  | (k, value) :: rest, key => if k = key then some value else get? rest key

def contains (m : Entries α) (key : String) : Bool := (get? m key).isSome

def keys (m : Entries α) : List String := m.map Prod.fst

def position? : Entries α → String → Option Nat
  | [], _ => none
  | (k, _) :: rest, key => if k = key then some 0 else (position? rest key).map (· + 1)

/-- Sets the value under a key.  A key that is present keeps its position, a new one goes last. -/
def insert : Entries α → String → α → Entries α
  | [], key, value => [(key, value)]
  | (k, old) :: rest, key, value =>
    if k = key then (key, value) :: rest else (k, old) :: insert rest key value

def erase (m : Entries α) (key : String) : Entries α := m.filter (·.1 ≠ key)

def modify : Entries α → String → (α → α) → Entries α
  | [], _, _ => []
  | (k, value) :: rest, key, f =>
    if k = key then (k, f value) :: rest else (k, value) :: modify rest key f

def merge (m new : Entries α) : Entries α := new.foldl (fun acc e => insert acc e.1 e.2) m

/-- Entries without repeated keys: a repeated key keeps its first position and its last value. -/
def ofList (entries : List (String × α)) : Entries α := merge [] entries

def mapValues (f : α → β) (m : Entries α) : Entries β := m.map fun e => (e.1, f e.2)

def Distinct (m : Entries α) : Prop := (keys m).Nodup

@[simp] theorem get?_insert_self (m : Entries α) (key : String) (value : α) :
    get? (insert m key value) key = some value := by
  induction m with
  | nil => simp [insert, get?]
  | cons e rest ih =>
    by_cases h : e.1 = key
    · simp [insert, get?, h]
    · simp [insert, get?, h, ih]

theorem get?_insert_of_ne (m : Entries α) {key other : String} (value : α) (h : other ≠ key) :
    get? (insert m key value) other = get? m other := by
  induction m with
  | nil => simp [insert, get?, Ne.symm h]
  | cons e rest ih =>
    obtain ⟨k, old⟩ := e
    by_cases hk : k = key
    · simp [insert, get?, hk, Ne.symm h]
    · simp [insert, get?, hk, ih]

theorem keys_insert (m : Entries α) (key : String) (value : α) :
    keys (insert m key value) = if key ∈ keys m then keys m else keys m ++ [key] := by
  induction m with
  | nil => simp [insert, keys]
  | cons e rest ih =>
    by_cases h : e.1 = key
    · simp [insert, keys, h]
    · have h' : key ≠ e.1 := fun he => h he.symm
      simp only [keys] at ih
      simp only [insert, keys, h, if_false, List.map_cons, List.mem_cons, h', false_or, ih]
      split <;> simp [*]

theorem Distinct.insert {m : Entries α} (hm : Distinct m) (key : String) (value : α) :
    Distinct (Entries.insert m key value) := by
  unfold Distinct at *
  rw [keys_insert]
  split
  · exact hm
  · next hk =>
    rw [List.nodup_append]
    exact ⟨hm, by simp, fun a ha b hb he => by simp at hb; exact hk (hb ▸ he ▸ ha)⟩

end Entries

end DesignTokens
