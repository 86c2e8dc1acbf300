import DesignTokens.Proofs.Dictionary.Tokens

namespace DesignTokens

namespace Node

def withNode : Node → List String → Node → Node
  | _, [], new => new
  | .branch entries, key :: rest, new =>
    match Entries.get? entries key with
    | some child => .branch (Entries.insert entries key (child.withNode rest new))
    | none => .branch entries
  | node, _ :: _, _ => node

variable {n new old : Node} {entries : Dictionary} {path more other : List String} {key : String}

@[simp] theorem at?_nil (n : Node) : n.at? [] = some n := by
  cases n <;> rfl

@[simp] theorem at?_branch_cons (entries : Dictionary) (key : String) (rest : List String) :
    (Node.branch entries).at? (key :: rest) = (Entries.get? entries key).bind (·.at? rest) :=
  Dictionary.nodeAt?_cons entries key rest

theorem at?_cons_eq_some_iff {rest : List String} {m : Node} : n.at? (key :: rest) = some m ↔
    ∃ entries child, n = .branch entries ∧ Entries.get? entries key = some child ∧
      child.at? rest = some m := by
  cases n with
  | branch entries => simp [Option.bind_eq_some_iff]
  | _ => simp [at?]

theorem at?_append (n : Node) (path more : List String) :
    n.at? (path ++ more) = (n.at? path).bind (·.at? more) := by
  induction path generalizing n with
  | nil => simp
  | cons key rest ih =>
    cases n with
    | branch entries =>
      rw [List.cons_append, at?_branch_cons, at?_branch_cons, Option.bind_assoc]
      exact congrArg _ (funext ih)
    | _ => rfl

@[simp] theorem withNode_nil (n new : Node) : n.withNode [] new = new := by
  cases n <;> rfl

theorem withNode_branch_cons {rest : List String} {child : Node}
    (h : Entries.get? entries key = some child) : (Node.branch entries).withNode (key :: rest) new =
      .branch (Entries.insert entries key (child.withNode rest new)) := by
  rw [withNode, h]

theorem withNode_of_at?_eq_none (h : n.at? path = none) : n.withNode path new = n := by
  induction path generalizing n with
  | nil => simp at h
  | cons key rest ih =>
    cases n with
    | branch entries =>
      rw [at?_branch_cons] at h
      rw [withNode]
      split
      · next child hget =>
        rw [hget, Option.bind_some] at h
        rw [ih h, Entries.insert_eq_self hget]
      · rfl
    | _ => rfl

theorem withNode_self (h : n.at? path = some old) : n.withNode path old = n := by
  induction path generalizing n with
  | nil => simpa using h.symm
  | cons key rest ih =>
    obtain ⟨entries, child, rfl, hget, hchild⟩ := at?_cons_eq_some_iff.mp h
    rw [withNode_branch_cons hget, ih hchild, Entries.insert_eq_self hget]

theorem withNode_withNode (n first second : Node) (path : List String) :
    (n.withNode path first).withNode path second = n.withNode path second := by
  induction path generalizing n with
  | nil => simp
  | cons key rest ih =>
    cases n with
    | branch entries =>
      cases hget : Entries.get? entries key with
      | none => simp [withNode, hget]
      | some child =>
        rw [withNode_branch_cons hget, withNode_branch_cons hget,
          withNode_branch_cons (Entries.get?_insert_self _ _ _), ih, Entries.insert_insert]
    | _ => rfl

theorem withNode_append (h : n.at? path = some old) :
    n.withNode (path ++ more) new = n.withNode path (old.withNode more new) := by
  induction path generalizing n with
  | nil =>
    obtain rfl : n = old := by simpa using h
    simp
  | cons key rest ih =>
    obtain ⟨entries, child, rfl, hget, hchild⟩ := at?_cons_eq_some_iff.mp h
    rw [List.cons_append, withNode_branch_cons hget, withNode_branch_cons hget, ih hchild]

theorem withNode_concat (h : n.at? path = some (.branch entries))
    (hold : Entries.get? entries key = some old) :
    n.withNode (path ++ [key]) new =
      n.withNode path (.branch (Entries.insert entries key new)) := by
  rw [withNode_append h, withNode_branch_cons hold, withNode_nil]

theorem at?_withNode (h : n.at? path = some old) (more : List String) :
    (n.withNode path new).at? (path ++ more) = new.at? more := by
  induction path generalizing n with
  | nil => simp
  | cons key rest ih =>
    obtain ⟨entries, child, rfl, hget, hchild⟩ := at?_cons_eq_some_iff.mp h
    rw [withNode_branch_cons hget, List.cons_append, at?_branch_cons, Entries.get?_insert_self]
    exact ih hchild

theorem at?_withNode_self (h : n.at? path = some old) :
    (n.withNode path new).at? path = some new := by
  have hmore : (n.withNode path new).at? (path ++ []) = new.at? [] := at?_withNode h []
  simpa using hmore

theorem at?_withNode_of_apart (hdown : ¬ path <+: other) (hup : ¬ other <+: path) :
    (n.withNode path new).at? other = n.at? other := by
  induction path generalizing n other with
  | nil => exact absurd List.nil_prefix hdown
  | cons key rest ih =>
    cases other with
    | nil => exact absurd List.nil_prefix hup
    | cons first others =>
      cases n with
      | branch entries =>
        cases hget : Entries.get? entries key with
        | none => rw [withNode, hget]
        | some child =>
          rw [withNode_branch_cons hget, at?_branch_cons, at?_branch_cons, Entries.get?_insert]
          split
          · next hkey =>
            subst hkey
            rw [List.cons_prefix_cons] at hdown hup
            rw [hget]
            exact ih (fun h => hdown ⟨rfl, h⟩) fun h => hup ⟨rfl, h⟩
          · rfl
      | _ => rfl

/-- Two nodes that differ in what stands at a path, and in nothing else: on the way there all other
entries are the same, and stand where they stood. -/
inductive Replaces (old new : Node) : List String → Node → Node → Prop
  | here : Replaces old new [] old new
  | inside {before after : Dictionary} {key : String} {rest : List String} {child other : Node}
      (hnew : key ∉ Entries.keys before) (h : Replaces old new rest child other) :
      Replaces old new (key :: rest) (.branch (before ++ (key, child) :: after))
        (.branch (before ++ (key, other) :: after))

theorem replaces_withNode (h : n.at? path = some old) (new : Node) :
    Replaces old new path n (n.withNode path new) := by
  induction path generalizing n with
  | nil =>
    rw [at?_nil, Option.some.injEq] at h
    rw [h, withNode_nil]
    exact .here
  | cons key rest ih =>
    obtain ⟨entries, child, rfl, hget, hchild⟩ := at?_cons_eq_some_iff.mp h
    obtain ⟨before, after, hnew, hentries, hinsert⟩ := Entries.exists_append_of_get? hget
    rw [withNode_branch_cons hget, hinsert, hentries]
    exact .inside hnew (ih hchild)

end Node

namespace Dictionary

variable {d changed : Dictionary} {path : List String} {f : Dictionary → Dictionary}

theorem branchAt?_eq_some_iff {branch : Dictionary} :
    d.branchAt? path = some branch ↔ (Node.branch d).at? path = some (.branch branch) := by
  induction path generalizing d with
  | nil => simp [branchAt?]
  | cons key rest ih =>
    rw [branchAt?, Node.at?_branch_cons]
    cases Entries.get? d key with
    | none => simp
    | some node =>
      cases node with
      | branch entries => exact ih
      | _ => cases rest <;> simp [Node.at?]

theorem branch_modifyBranch? {branch : Dictionary} (h : d.branchAt? path = some branch)
    (hchanged : d.modifyBranch? path f = some changed) :
    Node.branch changed = (Node.branch d).withNode path (.branch (f branch)) := by
  induction path generalizing d changed with
  | nil =>
    cases h
    cases hchanged
    simp
  | cons key rest ih =>
    rw [branchAt?] at h
    rw [modifyBranch?] at hchanged
    split at h
    · next child hget =>
      rw [hget] at hchanged
      obtain ⟨inner, hinner, rfl⟩ := Option.map_eq_some_iff.mp hchanged
      rw [Node.withNode_branch_cons hget, ← ih h hinner]
    · cases h

end Dictionary

end DesignTokens
