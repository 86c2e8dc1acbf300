import DesignTokens.Diagnostic.Collector
import DesignTokens.Proofs.Reference.Fill
import DesignTokens.Reference.Report

/-! Resolution step by step.  One state goes through all tokens and all placeholders: the stack, the
cycles that have been reported, and the collector.  Recursion stops with no result when it would
need more levels than it is given.  An action that comes to an end, gives back the stack that it was
given, and files its problems in order does so also as a part of others; so filling in step by step
comes to what `fill` comes to at once. -/

namespace DesignTokens

namespace Reference

structure Account where
  cycles : List (List String)
  collector : Collector

/-- Files a problem; a cycle through the tokens of one that has been reported is dropped. -/
def Account.file (a : Account) : ReferenceProblem → Account
  | .missing context path =>
    { a with
      collector := a.collector.add .references (ReferenceProblem.missing context path).diagnostic }
  | .cycle members closing =>
    if a.cycles.any members.isPerm then a
    else ⟨a.cycles ++ [members],
      a.collector.add .references (ReferenceProblem.cycle members closing).diagnostic⟩

/-- The state of a resolution. -/
structure Session where
  stack : List String
  past : List (List String)
  account : Account

namespace Session

def withStack (s : Session) (stack : List String) : Session :=
  { s with stack := stack, past := s.past ++ [stack] }

def file (s : Session) (problem : ReferenceProblem) : Session :=
  { s with account := s.account.file problem }

end Session

/-- A part of a resolution: it changes the session, and may need more levels than there are. -/
abbrev Resolving := StateT Session Option

namespace Resolving

def enter (name : String) : Resolving Unit := modify fun s => s.withStack (s.stack ++ [name])

def leave : Resolving Unit := modify fun s => s.withStack s.stack.dropLast

def report (problem : ReferenceProblem) : Resolving Unit := modify (·.file problem)

variable (replace : String → Resolving (Option Json))

def fillPieces : List Piece → Resolving (List Char)
  | [] => return []
  | .plain text :: pieces => return text ++ (← fillPieces pieces)
  | .hole inner :: pieces => do
    let value ← replace (Piece.target inner)
    let rest ← fillPieces pieces
    return match value with
      | some value => value.spliceText.toList ++ rest
      | none => (Piece.hole inner).source ++ rest

def fillText (text : String) : Resolving Json :=
  match Piece.ofText text.toList with
  | [.hole inner] => return (← replace (Piece.target inner)).getD (.str text)
  | pieces => return .str (String.ofList (← fillPieces replace pieces))

mutual

def fill : Json → Resolving Json
  | .str s => fillText replace s
  | .arr items => return .arr (← fillItems items)
  | .obj entries => return .obj (← fillEntries entries)
  | value => return value

def fillItems : List Json → Resolving (List Json)
  | [] => return []
  | item :: rest => return (← fill item) :: (← fillItems rest)

def fillEntries : List (String × Json) → Resolving (List (String × Json))
  | [] => return []
  | (key, value) :: rest => return (key, ← fill value) :: (← fillEntries rest)

end

/-- What stands for a placeholder in the token `context`. -/
def follow (d : Dictionary) (ignored : List String) :
    (levels : Nat) → (context path : String) → Resolving (Option Json)
  | levels, context, path => do
    if isIgnored ignored path then return none
    match d.lookup (pathSegments path) with
    | none =>
      report (.missing context path)
      return none
    | some ⟨value, none⟩ => return some value
    | some ⟨value, some token⟩ =>
      if !value.hasReference then return some value
      let stack := (← get).stack
      if stack.contains token then
        report (.cycle (stack.dropWhile (· ≠ token)) token)
        return none
      match levels with
      | 0 => failure
      | levels + 1 =>
        enter token
        let value ← fill (follow d ignored levels token) value
        leave
        return if value.hasReference then none else some value

/-- Resolves tokens one after the other, and writes what they come to into a tree. -/
def fillEach (d : Dictionary) (ignored : List String) (levels : Nat) :
    List (List String × Token) → Dictionary → Resolving Dictionary
  | [], tree => return tree
  | (path, t) :: rest, tree => do
    if t.hasReference then
      modify (·.withStack [dottedName path])
      let value ← fill (follow d ignored levels (dottedName path)) t.value
      fillEach d ignored levels rest ((tree.modifyToken? path ({ · with value })).getD tree)
    else fillEach d ignored levels rest tree

/-- What a part of a resolution leaves in the session: problems are filed in order, and each stack
that there has been is of the kind `P`. -/
structure Leaves (P : List String → Prop) (problems : List ReferenceProblem) (s s' : Session) :
    Prop where
  past : ∃ more, s'.past = s.past ++ more ∧ ∀ stack ∈ more, P stack
  account : s'.account = problems.foldl Account.file s.account

structure Passes (P : List String → Prop) (problems : List ReferenceProblem) (s s' : Session) :
    Prop extends Leaves P problems s s' where
  stack : s'.stack = s.stack

/-- An action comes to an end with a result and problems. -/
def Ends {α : Type} (P : List String → Prop) (action : Resolving α) (s : Session)
    (result : Reported α) : Prop :=
  ∃ s', action.run s = some (result.1, s') ∧ Passes P result.2 s s'

variable {P : List String → Prop} {α β : Type} {s s' s'' : Session}
  {problems more : List ReferenceProblem}

theorem Leaves.refl (P : List String → Prop) (s : Session) : Leaves P [] s s where
  past := ⟨[], by simp⟩
  account := rfl

theorem Leaves.trans (h : Leaves P problems s s') (h' : Leaves P more s' s'') :
    Leaves P (problems ++ more) s s'' where
  past := by
    obtain ⟨first, hfirst, hgood⟩ := h.past
    obtain ⟨second, hsecond, hgood'⟩ := h'.past
    exact ⟨first ++ second, by simp [hfirst, hsecond],
      List.forall_mem_append.mpr ⟨hgood, hgood'⟩⟩
  account := by rw [List.foldl_append, ← h.account, h'.account]

theorem leaves_withStack {stack : List String} (h : P stack) :
    Leaves P [] s (s.withStack stack) where
  past := ⟨[stack], rfl, by simpa using h⟩
  account := rfl

theorem Passes.trans (h : Passes P problems s s') (h' : Passes P more s' s'') :
    Passes P (problems ++ more) s s'' where
  toLeaves := h.toLeaves.trans h'.toLeaves
  stack := h'.stack.trans h.stack

theorem run_modify_bind (f : Session → Session) (next : Resolving α) :
    (do modify f; next : Resolving α).run s = next.run (f s) := rfl

theorem ends_pure (a : α) : Ends P (pure a) s (a, []) := ⟨s, rfl, .refl P s, rfl⟩

theorem Ends.bind {action : Resolving α} {next : α → Resolving β} {a : α} {b : β}
    (h : Ends P action s (a, problems))
    (hnext : ∀ s', s'.stack = s.stack → Ends P (next a) s' (b, more)) :
    Ends P (action >>= next) s (b, problems ++ more) := by
  obtain ⟨s', hrun, hpasses⟩ := h
  obtain ⟨s'', hrun', hpasses'⟩ := hnext s' hpasses.stack
  refine ⟨s'', ?_, hpasses.trans hpasses'⟩
  rw [StateT.run_bind, hrun]
  exact hrun'

theorem Ends.map {action : Resolving α} {a : α} (h : Ends P action s (a, problems)) (f : α → β) :
    Ends P (do return f (← action)) s (f a, problems) := by
  rw [← List.append_nil problems]
  exact h.bind fun _ _ => ends_pure (f a)

theorem ends_report (problem : ReferenceProblem) (s : Session) :
    Ends P (report problem) s ((), [problem]) :=
  ⟨s.file problem, rfl, ⟨⟨[], by simp [Session.file], by simp⟩, rfl⟩, rfl⟩

section Fill

variable {replace : String → Resolving (Option Json)} {replacement : Replacement}
  {stack : List String}

theorem fillPieces_ends (ps : List Piece)
    (h : ∀ ref ∈ ps.filterMap Piece.target?, ∀ s, s.stack = stack →
      Ends P (replace ref) s (replacement ref)) (hs : s.stack = stack) :
    Ends P (fillPieces replace ps) s (Reference.fillPieces replacement ps) := by
  induction ps generalizing s with
  | nil => exact ends_pure []
  | cons p ps ih =>
    cases p with
    | plain text => exact (ih h hs).map (text ++ ·)
    | hole inner =>
      simp only [Piece.filterMap_target?_hole, List.forall_mem_cons] at h
      rw [fillPieces, Reference.fillPieces]
      refine (h.1 s hs).bind fun s' hs' => ?_
      have hrest := ih h.2 (hs'.trans hs)
      cases hvalue : (replacement (Piece.target inner)).1 with
      | none => exact hrest.map ((Piece.hole inner).source ++ ·)
      | some value => exact hrest.map (value.spliceText.toList ++ ·)

theorem fillText_ends (text : String)
    (h : ∀ ref ∈ referencedPaths text, ∀ s, s.stack = stack →
      Ends P (replace ref) s (replacement ref)) (hs : s.stack = stack) :
    Ends P (fillText replace text) s (Reference.fillText replacement text) := by
  rcases fillText_cases replacement text with ⟨inner, hps, hfill⟩ | ⟨hmany, hfill⟩
  · have hin : Piece.target inner ∈ referencedPaths text :=
      mem_referencedPaths.mpr ⟨inner, by simp [hps], rfl⟩
    simp only [fillText, hps, hfill]
    exact (h _ hin s hs).map (·.getD (.str text))
  · rw [fillText, hfill]
    split
    · next inner hps => exact absurd hps (hmany inner)
    · exact (fillPieces_ends _ h hs).map fun filled => Json.str (String.ofList filled)

mutual

theorem fill_ends : ∀ (v : Json) (s : Session),
    (∀ ref ∈ v.references, ∀ s, s.stack = stack → Ends P (replace ref) s (replacement ref)) →
      s.stack = stack → Ends P (fill replace v) s (Reference.fill replacement v)
  | .null, _, _, _ => ends_pure _
  | .bool _, _, _, _ => ends_pure _
  | .num _, _, _, _ => ends_pure _
  | .str text, _, h, hs => fillText_ends text h hs
  | .arr items, s, h, hs => (fillItems_ends items s h hs).map Json.arr
  | .obj entries, s, h, hs => (fillEntries_ends entries s h hs).map Json.obj

theorem fillItems_ends : ∀ (items : List Json) (s : Session),
    (∀ ref ∈ Json.itemReferences items, ∀ s, s.stack = stack →
      Ends P (replace ref) s (replacement ref)) → s.stack = stack →
        Ends P (fillItems replace items) s (Reference.fillItems replacement items)
  | [], _, _, _ => ends_pure _
  | item :: rest, s, h, hs => by
    rw [Json.itemReferences, List.forall_mem_append] at h
    refine (fill_ends item s h.1 hs).bind fun s' hs' => ?_
    exact (fillItems_ends rest s' h.2 (hs'.trans hs)).map ((Reference.fill replacement item).1 :: ·)

theorem fillEntries_ends : ∀ (entries : List (String × Json)) (s : Session),
    (∀ ref ∈ Json.entryReferences entries, ∀ s, s.stack = stack →
      Ends P (replace ref) s (replacement ref)) → s.stack = stack →
        Ends P (fillEntries replace entries) s (Reference.fillEntries replacement entries)
  | [], _, _, _ => ends_pure _
  | (key, value) :: rest, s, h, hs => by
    rw [Json.entryReferences, List.forall_mem_append] at h
    refine (fill_ends value s h.1 hs).bind fun s' hs' => ?_
    exact (fillEntries_ends rest s' h.2 (hs'.trans hs)).map
      ((key, (Reference.fill replacement value).1) :: ·)

end

end Fill

end Resolving

end Reference

end DesignTokens
