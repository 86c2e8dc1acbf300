import DesignTokens.Proofs.Export.Bookkeeping
import DesignTokens.Proofs.Export.Namesakes

namespace DesignTokens

/-- What an export may make of the token at a path: it sets the path, and keeps what the token
declares and each of its attributes, whatever it then stands for. -/
structure Token.Framed (path : List String) (t u : Token) : Prop where
  path : u.path = path
  fields : u.fields = t.fields
  attributes : Entries.keys t.attributes <+: Entries.keys u.attributes

theorem Token.framed_withPath (path : List String) (t : Token) :
    t.Framed path { t with path := path } :=
  ⟨rfl, rfl, List.prefix_rfl⟩

theorem Token.Framed.tokenAfter {path : List String} {t u : Token} (h : t.Framed path u)
    (platform : Platform) (p : Progress) (v : Json) :
    t.Framed path { p.tokenAfter platform path u with value := v } := by
  rw [Progress.tokenAfter]
  split
  · exact ⟨h.path, h.fields, h.attributes⟩
  · refine ⟨Platform.transformInPass_path _, ?_, ?_⟩
    · rw [← h.fields]
      exact Platform.transformInPass_fields _
    · exact h.attributes.trans
        (platform.keys_attributes_prefix_transformInPass { u with path := path })

/-- Without group transforms, an exported tree is the tree with its mixins applied but for values,
names, attributes and paths of tokens; each token has its path, and has lost no attribute. -/
theorem Export.run_keeps_frame {depth maxPasses : Nat} {platform : Platform}
    {d expanded : Dictionary} {faults : List MixinFault} {outcome : Exported}
    (hmixin : Mixin.apply depth d = some (expanded, faults))
    (hgroup : ∀ transform ∈ platform.transforms, transform.kind ≠ .group)
    (hok : Export.run depth platform maxPasses d = .ok outcome) :
    expanded.Corresponds Token.Framed outcome.dictionary := by
  have hprepared : preparedTree? depth platform d = some (expanded.propagateMeta platform) := by
    rw [preparedTree?, hmixin]
    rfl
  obtain ⟨_, hdictionary, _⟩ := Export.of_run_eq_ok hprepared hok
  have hplaced : expanded.Corresponds Token.Framed (expanded.propagateMeta platform) := by
    rw [Dictionary.propagateMeta_eq_mapTokens hgroup]
    have hsame : expanded.Corresponds (fun _ t u => u = t) expanded :=
      Dictionary.corresponds_self (r := fun _ t u => u = t) (fun _ _ => rfl) expanded
    exact hsame.mapTokens fun path t u hu => hu ▸ t.framed_withPath path
  rw [hdictionary, (Run.ofTree_records platform maxPasses _).last]
  exact Stage.corresponds_after (s := .start (expanded.propagateMeta platform)) hplaced
    (fun p _ _ _ v h => h.tokenAfter platform p v) _

def Dictionary.annotated : Dictionary :=
  [("@group", .decorator (.obj [("unit", .str "px")])),
  ("note", .literal (.str "\x7bsize.base\x7d")),
  ("size", .branch [
    ("alias", .token (.new (.str "\x7bsize.base\x7d"))),
    ("base", .token ⟨.num (.int 4), none, [], [("item", .str "own")], [("comment", .null)]⟩)])]

theorem Export.annotated_keeps_frame :
    ∃ outcome, Export.run 2 .pixels 2 .annotated = .ok outcome ∧
      Dictionary.annotated.Corresponds Token.Framed outcome.dictionary := by
  have hmixin : Mixin.apply 2 .annotated = some (.annotated, []) := rfl
  have hsome : (Export.run 2 .pixels 2 .annotated).toOption.isSome = true := by decide +kernel
  obtain ⟨outcome, hok⟩ := exists_ok_of_isSome hsome
  exact ⟨outcome, hok, run_keeps_frame hmixin (by decide) hok⟩

end DesignTokens
