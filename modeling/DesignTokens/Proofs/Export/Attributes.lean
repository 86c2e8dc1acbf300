import DesignTokens.Proofs.Export.Success
import DesignTokens.Proofs.Mixin.Keys
import DesignTokens.Proofs.Transform.Attributes

namespace DesignTokens

namespace Stage

variable {platform : Platform} {d : Dictionary} {path : List String} {t : Token}
  (hbuiltin : ∀ transform ∈ platform.transforms, transform ∈ Registry.builtinTransforms)
  (hcti : Attribute.cti ∈ platform.transforms)

include hbuiltin hcti

theorem attributes_tokenAfter {p : Progress} (hopen : p.isSettled (dottedName path) = false) :
    (p.tokenAfter platform path t).attributes = Attribute.withPath { t with path := path } := by
  rw [Progress.tokenAfter, hopen]
  exact Platform.attributes_transformInPass hbuiltin hcti _

theorem attributes_tokenAfter_again (p : Progress) {u : Token}
    (hu : u.attributes = Attribute.withPath { t with path := path }) :
    (p.tokenAfter platform path u).attributes = Attribute.withPath { t with path := path } := by
  cases hsettled : p.isSettled (dottedName path) with
  | true => rw [Progress.tokenAfter, hsettled, if_pos rfl, hu]
  | false =>
    rw [attributes_tokenAfter hbuiltin hcti hsettled]
    exact Attribute.withPath_again rfl hu

theorem exists_after_start_attributes (hnames : d.names.Nodup) (n : Nat) :
    ∃ g : List String → Token → Token, ((start d).after platform (n + 1)).tree = d.mapTokens g ∧
      ∀ path t, (g path t).attributes = Attribute.withPath { t with path := path } := by
  induction n with
  | zero =>
    rw [after_start_succ hnames]
    exact ⟨_, rfl, fun _ _ => attributes_tokenAfter hbuiltin hcti rfl⟩
  | succ n ih =>
    obtain ⟨g, htree, hg⟩ := ih
    rw [after_start_succ hnames]
    exact ⟨_, following_tree htree, fun path t =>
      attributes_tokenAfter_again hbuiltin hcti _ (hg path t)⟩

end Stage

/-- What a token has under a key: what it declares, or else what the nearest group around it that
has the key declares, or else the key of its path at that level. -/
def Dictionary.attribute? (d : Dictionary) (path : List String) (t : Token) (key : String) :
    Option Json :=
  (Entries.get? t.attributes key).or
    ((d.groupValue? path key).or ((Attribute.segment? path key).map .str))

/-- Where a platform adds attributes from groups and from paths, in whatever order, the attributes
of each exported token are those that it declares, those that groups around it declare and those
that its path gives, and the first of these to have a key decide. -/
theorem Export.run_attributes_by_precedence {depth maxPasses : Nat} {name : String}
    {declared : PlatformDeclaration} {platform : Platform} {d expanded : Dictionary}
    {faults : List MixinFault} {outcome : Exported} (hread : d.AsRead)
    (hbuild : Registry.builtin.build name declared = .ok platform)
    (hgroup : Attribute.ofGroup ∈ platform.transforms)
    (hcti : Attribute.cti ∈ platform.transforms)
    (hmixin : Mixin.apply depth d = some (expanded, faults))
    (hfree : d.DotFreeThroughout ∨ expanded.DotFree)
    (hok : Export.run depth platform maxPasses d = .ok outcome) (path : List String) :
    Option.Rel (fun t u => Entries.Distinct u.attributes ∧
        ∀ key, Entries.get? u.attributes key = expanded.attribute? path t key)
      (expanded.tokenAt? path) (outcome.dictionary.tokenAt? path) := by
  have hbuiltin := Registry.mem_builtinTransforms_of_build hbuild
  have hexpanded := Mixin.asRead_apply hread hmixin
  have hprepared : preparedTree? depth platform d = some (expanded.propagateMeta platform) := by
    rw [preparedTree?, hmixin]
    rfl
  have hnames : (expanded.propagateMeta platform).names.Nodup := by
    rw [Dictionary.names_propagateMeta]
    exact Dictionary.nodup_names hexpanded.wellFormed.distinct
      (hfree.elim (fun hall => hall.dotFree_apply hread hmixin) id)
  obtain ⟨_, hdictionary, _⟩ := of_run_eq_ok hprepared hok
  have hrun := Run.ofTree_records platform maxPasses (expanded.propagateMeta platform)
  obtain ⟨n, hn⟩ := Nat.exists_eq_add_one.mpr hrun.pos
  obtain ⟨g, htree, hg⟩ := Stage.exists_after_start_attributes hbuiltin hcti hnames n
  rw [hdictionary, hrun.last, hn, htree, Dictionary.tokenAt?_mapTokens]
  refine Option.Rel.map_right (Option.Rel.imp
    (Dictionary.attributes_propagateMeta hexpanded hbuiltin hgroup path) ?_)
  rintro t u - ⟨hdistinct, hu⟩
  rw [hg]
  refine ⟨hdistinct.merge _, fun key => ?_⟩
  have hadded := Attribute.get?_withPath (t := { u with path := path }) hdistinct key
  rw [hadded, hu, Dictionary.attribute?, Option.or_assoc]

def Platform.labels : Platform :=
  ⟨"labels", [Attribute.cti, Measure.sizePx, Attribute.ofGroup], []⟩

def Dictionary.nested : Dictionary :=
  [("@group", .decorator (.obj [("theme", .str "dark"), ("unit", .str "px")])),
  ("size", .branch [
    ("@group", .decorator (.obj [("unit", .str "rem"), ("type", .str "length")])),
    ("alias", .token (.new (.str "{size.base}"))),
    ("base", .token ⟨.num (.int 4), none, [], [("type", .str "own")], []⟩)])]

theorem Dictionary.asRead_nested : Dictionary.nested.AsRead := by
  have hnone : (Json.obj []).DistinctKeys := ⟨.nil, trivial⟩
  exact ⟨by decide, ⟨by decide, trivial, trivial, trivial⟩,
    ⟨by decide, by decide, ⟨by decide, trivial, trivial, trivial⟩, ⟨trivial, hnone, hnone⟩,
      ⟨trivial, ⟨by decide, trivial, trivial⟩, hnone⟩, trivial⟩, trivial⟩

theorem Export.nested_by_precedence :
    ∃ outcome base other, Export.run 2 .labels 3 .nested = .ok outcome ∧
      outcome.dictionary.tokenAt? ["size", "base"] = some base ∧
      outcome.dictionary.tokenAt? ["size", "alias"] = some other ∧
      Entries.get? base.attributes "category" = some (.str "size") ∧
      Entries.get? base.attributes "type" = some (.str "own") ∧
      Entries.get? base.attributes "unit" = some (.str "rem") ∧
      Entries.get? base.attributes "theme" = some (.str "dark") ∧
      Entries.get? base.attributes "item" = none ∧
      Entries.get? other.attributes "type" = some (.str "length") := by
  have hbuild : Registry.builtin.build "labels"
      ⟨none, ["attribute/cti", "size/px", "group/attributes"], []⟩ = .ok .labels := rfl
  have hmixin : Mixin.apply 2 .nested = some (.nested, []) := rfl
  have hsome : (Export.run 2 .labels 3 .nested).toOption.isSome = true := by decide +kernel
  obtain ⟨outcome, hok⟩ := exists_ok_of_isSome hsome
  have hattributes := run_attributes_by_precedence Dictionary.asRead_nested hbuild
    (by simp [Platform.labels]) (by simp [Platform.labels]) hmixin (.inr (by decide)) hok
  obtain ⟨base, hbase, _, hkeys⟩ := Option.Rel.exists_of_some (hattributes ["size", "base"])
  obtain ⟨other, hother, _, htype⟩ := Option.Rel.exists_of_some (hattributes ["size", "alias"])
  refine ⟨outcome, base, other, hok, hbase, hother, ?_⟩
  simp only [hkeys, htype]
  decide +kernel

end DesignTokens
