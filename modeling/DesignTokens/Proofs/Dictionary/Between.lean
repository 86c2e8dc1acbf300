import DesignTokens.Proofs.Dictionary.AsRead
import DesignTokens.Proofs.Dictionary.Place

/-! Trees between two others, which have at each place what one of the two has there.  A look-up
that finds the same in both finds it in between. -/

namespace DesignTokens

inductive Node.Between : Node → Node → Node → Prop
  | first (x z : Node) : Between x x z
  | last (x z : Node) : Between x z z
  | branch {a b c : Dictionary} (hdistinct : Entries.Distinct a)
      (hmiddle : Entries.keys b = Entries.keys a) (hlast : Entries.keys c = Entries.keys a)
      (hbelow : ∀ {key x y z}, Entries.get? a key = some x → Entries.get? b key = some y →
        Entries.get? c key = some z → Between x y z) :
      Between (.branch a) (.branch b) (.branch c)

structure Dictionary.Halfway (a b c : Dictionary) : Prop where
  distinct : Entries.Distinct a
  middle : Entries.keys b = Entries.keys a
  last : Entries.keys c = Entries.keys a
  either : ∀ key, Entries.get? b key = Entries.get? a key ∨ Entries.get? b key = Entries.get? c key

namespace Dictionary

variable {a b c : Dictionary} {key : String}

theorem Halfway.first (hdistinct : Entries.Distinct a) (hlast : Entries.keys c = Entries.keys a) :
    Halfway a a c :=
  ⟨hdistinct, rfl, hlast, fun _ => .inl rfl⟩

theorem Halfway.distinct_middle (h : Halfway a b c) : Entries.Distinct b := by
  rw [Entries.Distinct, h.middle]
  exact h.distinct

theorem Halfway.distinct_last (h : Halfway a b c) : Entries.Distinct c := by
  rw [Entries.Distinct, h.last]
  exact h.distinct

theorem Halfway.insert (h : Halfway a b c) {z : Node} (hz : Entries.get? c key = some z) :
    Halfway (Entries.insert a key z) (Entries.insert b key z) c := by
  obtain ⟨x, hx⟩ := Entries.exists_get?_of_keys_eq h.last.symm hz
  obtain ⟨y, hy⟩ := Entries.exists_get?_of_keys_eq h.middle hx
  have ha := Entries.keys_insert_of_get? hx z
  refine ⟨h.distinct.insert key z, ?_, h.last.trans ha.symm, fun other => ?_⟩
  · rw [ha, Entries.keys_insert_of_get? hy, h.middle]
  · rw [Entries.get?_insert, Entries.get?_insert]
    split
    · exact .inl rfl
    · exact h.either other

theorem Halfway.between_insert (h : Halfway a b c) {x y z : Node}
    (hz : Entries.get? c key = some z) (hbetween : x.Between y z) :
    (Node.branch (Entries.insert a key x)).Between (.branch (Entries.insert b key y))
      (.branch c) := by
  obtain ⟨old, hold⟩ := Entries.exists_get?_of_keys_eq h.last.symm hz
  obtain ⟨middle, hmiddle⟩ := Entries.exists_get?_of_keys_eq h.middle hold
  have ha := Entries.keys_insert_of_get? hold x
  refine .branch (h.distinct.insert key x) ?_ (h.last.trans ha.symm) ?_
  · rw [ha, Entries.keys_insert_of_get? hmiddle, h.middle]
  · intro other u v w hu hv hw
    rw [Entries.get?_insert] at hu hv
    split at hu
    · next hkey =>
      rw [hkey, hz] at hw
      rw [if_pos hkey] at hv
      cases hu
      cases hv
      cases hw
      exact hbetween
    · next hkey =>
      rw [if_neg hkey] at hv
      rcases h.either other with hsame | hsame
      · rw [hsame, hu] at hv
        cases hv
        exact .first u w
      · rw [hsame, hw] at hv
        cases hv
        exact .last u _

end Dictionary

theorem Token.value_referent? (t : Token) (name other : String) (rest : List String) :
    (t.referent? name rest).map Referent.value = (t.referent? other rest).map Referent.value := by
  cases rest with
  | nil => rfl
  | cons key rest =>
    cases hfield : t.field? key with
    | none => simp [referent?, hfield]
    | some part => cases hpart : part.descend? rest <;> simp [referent?, hfield, hpart]

/-- The value that a path leads to. -/
def Dictionary.found (d : Dictionary) (path : List String) : Option Json :=
  (d.lookup path).map Referent.value

/-- The value that the rest of a path leads to from a node. -/
def Node.found (rest : List String) : Node → Option Json
  | .branch child =>
    if rest.isEmpty then some (Dictionary.toJson child) else Dictionary.found child rest
  | .token t => (t.referent? "" rest).map Referent.value
  | .decorator value | .literal value => value.descend? rest

namespace Dictionary

theorem value_lookupFrom (d : Dictionary) (walked path : List String) :
    (d.lookupFrom walked path).map Referent.value = d.found path := by
  rw [found, lookup]
  generalize [] = other
  induction path generalizing d walked other with
  | nil => rfl
  | cons key rest ih =>
    rw [lookupFrom, lookupFrom]
    cases Entries.get? d key with
    | none => rfl
    | some node =>
      cases node with
      | branch child =>
        dsimp only
        split
        · rfl
        · exact ih child _ _
      | token t => exact t.value_referent? _ _ rest
      | _ => rfl

theorem found_cons (d : Dictionary) (key : String) (rest : List String) :
    d.found (key :: rest) = (Entries.get? d key).bind (·.found rest) := by
  rw [found, lookup, lookupFrom]
  cases Entries.get? d key with
  | none => rfl
  | some node =>
    cases node with
    | branch child =>
      dsimp only [Option.bind_some, Node.found]
      split
      · rfl
      · exact value_lookupFrom child _ rest
    | token t => exact t.value_referent? _ _ rest
    | _ => simp [Node.found, Function.comp_def]

end Dictionary

theorem Node.Between.toJson_eq {x y z : Node} (h : x.Between y z) (heq : x.toJson = z.toJson) :
    y.toJson = x.toJson := by
  induction h with
  | first => rfl
  | last => exact heq.symm
  | @branch a b c hdistinct hmiddle hlast hbelow ih =>
    have hentries : a.toEntries = c.toEntries := Json.obj.inj heq
    have hkeys : Entries.keys b.toEntries = Entries.keys a.toEntries := by
      rw [Dictionary.keys_toEntries, Dictionary.keys_toEntries, hmiddle]
    have hread : Entries.Distinct a.toEntries := by
      rwa [Entries.Distinct, Dictionary.keys_toEntries]
    refine congrArg Json.obj (hread.ext hkeys fun key => ?_)
    rw [Dictionary.get?_toEntries, Dictionary.get?_toEntries]
    cases hx : Entries.get? a key with
    | none =>
      rw [Entries.get?_eq_none_iff, ← hmiddle, ← Entries.get?_eq_none_iff] at hx
      rw [hx]
    | some x =>
      obtain ⟨y, hy⟩ := Entries.exists_get?_of_keys_eq hmiddle hx
      obtain ⟨z, hz⟩ := Entries.exists_get?_of_keys_eq hlast hx
      have hwritten := congrArg (Entries.get? · key) hentries
      simp only [Dictionary.get?_toEntries, hx, hz, Option.map_some, Option.some.injEq] at hwritten
      rw [hy, Option.map_some, Option.map_some, ih hx hy hz hwritten]

theorem Dictionary.found_of_between {a b c : Dictionary} {path : List String}
    (h : (Node.branch a).Between (.branch b) (.branch c)) (heq : a.found path = c.found path) :
    b.found path = a.found path := by
  induction path generalizing a b c with
  | nil => rfl
  | cons key rest ih =>
    rw [found_cons, found_cons] at heq ⊢
    cases h with
    | first => rfl
    | last => exact heq.symm
    | branch hdistinct hmiddle hlast hbelow =>
      cases hx : Entries.get? a key with
      | none =>
        rw [Entries.get?_eq_none_iff, ← hmiddle, ← Entries.get?_eq_none_iff] at hx
        rw [hx]
      | some x =>
        obtain ⟨y, hy⟩ := Entries.exists_get?_of_keys_eq hmiddle hx
        obtain ⟨z, hz⟩ := Entries.exists_get?_of_keys_eq hlast hx
        rw [hx, hz] at heq
        rw [hy]
        have hchild := hbelow hx hy hz
        cases hchild with
        | first => rfl
        | last => exact heq.symm
        | branch hinner hsame hother hunder =>
          simp only [Option.bind_some, Node.found] at heq ⊢
          split at heq
          · next hempty =>
            have hwritten := Option.some.inj heq
            rw [if_pos hempty, if_pos hempty]
            exact congrArg some
              (Node.Between.toJson_eq (.branch hinner hsame hother hunder) hwritten)
          · next hempty =>
            rw [if_neg hempty, if_neg hempty]
            exact ih (.branch hinner hsame hother hunder) heq

end DesignTokens
