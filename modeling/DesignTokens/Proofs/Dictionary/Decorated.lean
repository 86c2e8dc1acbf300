import DesignTokens.Proofs.Dictionary.Place

namespace DesignTokens

def Node.isDecorator : Node → Bool
  | .decorator _ => true
  | _ => false

mutual

/-- Below a node, what stands under a key that names a decorator is one. -/
def Node.Decorated : Node → Prop
  | .branch entries => Dictionary.Decorated entries
  | _ => True

def Dictionary.Decorated : Dictionary → Prop
  | [] => True
  | (key, node) :: rest =>
    (namesDecorator key = true → node.isDecorator = true) ∧ node.Decorated ∧
      Dictionary.Decorated rest

end

mutual

def Node.decideDecorated : ∀ n : Node, Decidable n.Decorated
  | .branch entries => Dictionary.decideDecorated entries
  | .token _ | .decorator _ | .literal _ => isTrue trivial

def Dictionary.decideDecorated : ∀ d : Dictionary, Decidable d.Decorated
  | [] => isTrue trivial
  | (_, node) :: rest =>
    @instDecidableAnd _ _ inferInstance
      (@instDecidableAnd _ _ node.decideDecorated (Dictionary.decideDecorated rest))

end

instance (d : Dictionary) : Decidable d.Decorated := d.decideDecorated

namespace Dictionary

variable {d : Dictionary} {key : String} {node : Node}

theorem decorated_iff : d.Decorated ↔
    ∀ e ∈ d, (namesDecorator e.1 = true → e.2.isDecorator = true) ∧ e.2.Decorated := by
  induction d with
  | nil => simp [Decorated]
  | cons e rest ih => simp [Decorated, ih, and_assoc]

theorem Decorated.get? (h : d.Decorated) (hget : Entries.get? d key = some node) :
    (namesDecorator key = true → node.isDecorator = true) ∧ node.Decorated :=
  decorated_iff.mp h _ (Entries.mem_of_get?_eq_some hget)

theorem Decorated.insert (h : d.Decorated)
    (hkey : namesDecorator key = true → node.isDecorator = true) (hnode : node.Decorated) :
    Decorated (Entries.insert d key node) := by
  refine decorated_iff.mpr fun e he => ?_
  rcases Entries.mem_insert he with he | rfl
  · exact decorated_iff.mp h e he
  · exact ⟨hkey, hnode⟩

end Dictionary

theorem Node.isDecorator_ofEntry {key : String} (h : namesDecorator key = true) (value : Json) :
    (Node.ofEntry key value).isDecorator = true := by
  rw [Node.ofEntry.eq_def, if_pos h]
  rfl

mutual

theorem Node.decorated_ofEntry (key : String) : ∀ value : Json, (Node.ofEntry key value).Decorated
  | .null | .bool _ | .num _ | .str _ | .arr _ => by
    simp only [Node.ofEntry]
    split <;> trivial
  | .obj entries => by
    rw [Node.ofEntry]
    split
    · trivial
    · split
      · trivial
      · exact Dictionary.decorated_ofEntries entries

theorem Dictionary.decorated_ofEntries : ∀ entries : List (String × Json),
    (Dictionary.ofEntries entries).Decorated
  | [] => trivial
  | (key, value) :: rest =>
    ⟨fun hkey => Node.isDecorator_ofEntry hkey value, Node.decorated_ofEntry key value,
      Dictionary.decorated_ofEntries rest⟩

end

theorem Dictionary.decorated_of_ofJson {value : Json} {d : Dictionary}
    (hd : Dictionary.ofJson value = .ok d) : d.Decorated := by
  cases value with
  | obj entries =>
    cases hd
    exact decorated_ofEntries entries
  | _ => cases hd

namespace Node

variable {n new : Node} {path : List String} {branch : Dictionary}

theorem Decorated.not_namesDecorator (h : n.Decorated) (hat : n.at? path = some (.branch branch)) :
    ∀ key ∈ path, namesDecorator key = false := by
  induction path generalizing n with
  | nil => simp
  | cons key rest ih =>
    obtain ⟨entries, child, rfl, hget, hchild⟩ := at?_cons_eq_some_iff.mp hat
    obtain ⟨hkey, hbelow⟩ := Dictionary.Decorated.get? h hget
    refine List.forall_mem_cons.mpr ⟨?_, ih hbelow hchild⟩
    rw [← Bool.not_eq_true]
    intro hnames
    have hdecorator := hkey hnames
    cases child with
    | decorator value => cases rest <;> simp [at?] at hchild
    | _ => cases hdecorator

theorem Decorated.at? (h : n.Decorated) {m : Node} (hat : n.at? path = some m) : m.Decorated := by
  induction path generalizing n with
  | nil =>
    obtain rfl : n = m := by simpa using hat
    exact h
  | cons key rest ih =>
    obtain ⟨entries, child, rfl, hget, hchild⟩ := at?_cons_eq_some_iff.mp hat
    exact ih (Dictionary.Decorated.get? h hget).2 hchild

theorem Decorated.withNode (h : n.Decorated) (hat : n.at? path = some (.branch branch))
    (hnew : new.Decorated) : (n.withNode path new).Decorated := by
  have hkeys := h.not_namesDecorator hat
  induction path generalizing n with
  | nil => simpa using hnew
  | cons key rest ih =>
    obtain ⟨entries, child, rfl, hget, hchild⟩ := at?_cons_eq_some_iff.mp hat
    rw [List.forall_mem_cons] at hkeys
    rw [withNode_branch_cons hget]
    exact Dictionary.Decorated.insert h (by simp [hkeys.1])
      (ih (Dictionary.Decorated.get? h hget).2 hchild hkeys.2)

end Node

end DesignTokens
