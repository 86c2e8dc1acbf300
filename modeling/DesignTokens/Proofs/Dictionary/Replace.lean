import DesignTokens.Proofs.Dictionary.AsRead
import DesignTokens.Proofs.Reference.Landing

namespace DesignTokens

namespace Dictionary

/-- A tree with another value in the token at a path. -/
def withValue (d : Dictionary) (path : List String) (v : Json) : Dictionary :=
  d.mapTokens fun p t => if p = path then { t with value := v } else t

variable {d : Dictionary} {path other : List String} {t : Token} {v w : Json} {ref : String}

theorem tokenAt?_withValue_of_ne (h : other ≠ path) :
    (d.withValue path v).tokenAt? other = d.tokenAt? other := by
  rw [withValue, tokenAt?_mapTokens]
  simp [h]

variable {key : String} {node : Node} {walked : List String}

theorem mapTokensFrom_eq_insert {f : List String → Token → Token} (hd : Entries.Distinct d)
    (hget : Entries.get? d key = some node)
    (hf : ∀ p u, ¬ walked ++ [key] <+: p → f p u = u) :
    mapTokensFrom f walked d = Entries.insert d key (Node.mapTokensFrom f (walked ++ [key]) node) := by
  induction d with
  | nil => cases hget
  | cons entry others ih =>
    obtain ⟨first, child⟩ := entry
    have hnew : first ∉ Entries.keys others := (List.nodup_cons.mp hd).1
    rw [Entries.get?] at hget
    rw [mapTokensFrom, Entries.insert]
    split at hget
    · next hkey =>
      subst hkey
      obtain rfl := Option.some.inj hget
      rw [if_pos rfl, mapTokensFrom_congr (g := fun _ u => u), mapTokensFrom_id]
      intro e he
      apply hf
      rintro ⟨more, hmore⟩
      obtain ⟨other, hother, below, hpath⟩ := exists_of_mem_tokensFrom walked others he
      obtain ⟨rfl, _⟩ : first = other ∧ more = below := by simpa [hpath] using hmore
      exact hnew hother
    · next hkey =>
      rw [if_neg hkey, ih (List.nodup_cons.mp hd).2 hget,
        Node.mapTokensFrom_congr (g := fun _ u => u), Node.mapTokensFrom_id]
      intro e he
      apply hf
      rintro ⟨more, hmore⟩
      obtain ⟨below, hpath⟩ := Node.exists_of_mem_tokensFrom _ child he
      simp only [hpath, List.append_assoc, List.append_cancel_left_eq, List.singleton_append,
        List.cons.injEq] at hmore
      exact hkey hmore.1.symm

theorem DistinctBelow.of_get? (h : d.DistinctBelow) (hget : Entries.get? d key = some node) :
    node.DistinctKeys := by
  induction d with
  | nil => cases hget
  | cons entry others ih =>
    rw [Entries.get?] at hget
    split at hget
    · cases hget
      exact h.1
    · exact ih h.2 hget

theorem modifyToken?_eq_mapTokensFrom {g : Token → Token} (walked : List String)
    (hd : d.DistinctKeys) (ht : d.nodeAt? path = some (.token t)) : d.modifyToken? path g =
      some (mapTokensFrom (fun p u => if p = walked ++ path then g u else u) walked d) := by
  induction path generalizing d walked with
  | nil => cases ht
  | cons key rest ih =>
    rw [nodeAt?_cons, Option.bind_eq_some_iff] at ht
    obtain ⟨node, hget, hat⟩ := ht
    rw [mapTokensFrom_eq_insert hd.1 hget]
    · cases rest with
      | nil =>
        cases hat
        simp [modifyToken?, hget, Node.mapTokensFrom]
      | cons next rest =>
        cases node with
        | branch entries =>
          have hinner := ih (walked ++ [key]) (hd.2.of_get? hget) hat
          simp only [List.append_assoc, List.singleton_append] at hinner
          simp [modifyToken?, hget, hinner, Node.mapTokensFrom]
        | _ => cases hat
    · intro p u hp
      rw [if_neg]
      rintro rfl
      exact hp ⟨rest, by simp⟩

theorem modifyToken?_eq_withValue (hd : d.DistinctKeys) (ht : d.tokenAt? path = some t) :
    d.modifyToken? path ({ · with value := v }) = some (d.withValue path v) :=
  modifyToken?_eq_mapTokensFrom [] hd (tokenAt?_eq_some_iff.mp ht)

/-- A reference path gets at the value of the token at a path without standing for it: it ends at a
branch around the token, or goes further into the value. -/
def Bypasses (path : List String) (ref : String) : Prop :=
  (pathSegments ref <+: path ∧ pathSegments ref ≠ path) ∨
    (path ++ [valueKey] <+: pathSegments ref ∧ pathSegments ref ≠ path ++ [valueKey])

instance (path : List String) (ref : String) : Decidable (Bypasses path ref) :=
  inferInstanceAs (Decidable (_ ∨ _))

theorem mapTokensFrom_withValue {walked : List String} (h : ¬ (walked <+: path ∧ walked ≠ path))
    (entries : Dictionary) :
    mapTokensFrom (fun p t => if p = path then { t with value := v } else t) walked entries =
      mapTokensFrom (fun p t => if p = path then { t with value := w } else t) walked entries := by
  apply mapTokensFrom_congr
  intro e he
  obtain ⟨key, _, rest, hpath⟩ := exists_of_mem_tokensFrom walked entries he
  have hne : e.1 ≠ path := by
    rintro rfl
    apply h
    rw [hpath]
    exact ⟨List.prefix_append _ _, by simp⟩
  simp [hne]

theorem referent?_withValue {name : String} {rest : List String} (hnil : rest ≠ [])
    (hvalue : ∀ more, rest ≠ valueKey :: more) :
    { t with value := v }.referent? name rest = t.referent? name rest := by
  cases rest with
  | nil => exact absurd rfl hnil
  | cons key rest =>
    have hkey : key ≠ valueKey := by
      rintro rfl
      exact hvalue rest rfl
    simp [Token.referent?, Token.field?, hkey]

theorem lookup_withValue (hbypass : ¬ Bypasses path ref) (hpath : pathSegments ref ≠ path)
    (hvalue : pathSegments ref ≠ path ++ [valueKey]) :
    (d.withValue path v).lookup (pathSegments ref) =
      (d.withValue path w).lookup (pathSegments ref) := by
  rw [withValue, withValue, lookup_eq, lookup_eq, landing?_mapTokens, landing?_mapTokens]
  cases hlanding : d.landing? (pathSegments ref) with
  | none => rfl
  | some l =>
    obtain ⟨walked, node, rest⟩ := l
    have hwhole : pathSegments ref = walked ++ rest := eq_append_of_landing? hlanding
    simp only [Option.map_some, Option.bind_some]
    cases node with
    | branch entries =>
      obtain rfl : rest = [] := rest_eq_nil_of_landing? hlanding rfl
      have haround : ¬ (walked <+: path ∧ walked ≠ path) := by
        rw [List.append_nil] at hwhole
        rw [← hwhole]
        exact fun h => hbypass (.inl h)
      simp only [Node.mapTokensFrom, Node.referent?]
      rw [mapTokensFrom_withValue haround]
    | token t =>
      by_cases hwalked : walked = path
      · subst hwalked
        have hnil : rest ≠ [] := by
          rintro rfl
          exact hpath (by simpa using hwhole)
        have hmore : ∀ more, rest ≠ valueKey :: more := by
          rintro more rfl
          exact hbypass (.inr ⟨⟨more, by simp [hwhole]⟩, hvalue⟩)
        simp only [Node.mapTokensFrom, Node.referent?, if_true]
        exact (referent?_withValue hnil hmore).trans (referent?_withValue hnil hmore).symm
      · simp [Node.mapTokensFrom, hwalked]
    | decorator value => rfl
    | literal value => rfl

end Dictionary

end DesignTokens
