import DesignTokens.Proofs.Diagnostic.Collector
import DesignTokens.Proofs.Dictionary.AsRead
import DesignTokens.Proofs.Dictionary.Correspondence
import DesignTokens.Proofs.Dictionary.Metadata
import DesignTokens.Proofs.Dictionary.Place
import Mathlib.Data.List.Infix

/-! Metadata that tokens inherit.  The walk that hands metadata down shows each token those of the
groups around it, the nearer over the farther, and nothing of any other group.  Metadata that are no
object are passed over and reported. -/

namespace DesignTokens

def GroupMeta.layered (inherited : GroupMeta) (groups : List GroupMeta) : GroupMeta :=
  groups.foldr (fun own outer => Entries.merge outer own) inherited

namespace GroupMeta

variable {inherited : GroupMeta} {groups : List GroupMeta}

theorem layered_append (inherited : GroupMeta) (near far : List GroupMeta) :
    layered inherited (near ++ far) = layered (layered inherited far) near :=
  List.foldr_append

theorem get?_layered (h : ∀ own ∈ groups, Entries.Distinct own) (key : String) :
    Entries.get? (layered inherited groups) key =
      (groups.findSome? (Entries.get? · key)).or (Entries.get? inherited key) := by
  induction groups with
  | nil => rfl
  | cons own outer ih =>
    rw [List.forall_mem_cons] at h
    have houter := ih h.2
    rw [layered, List.foldr_cons, ← layered, Entries.get?_merge, h.1.get?_reverse, houter,
      List.findSome?_cons]
    cases Entries.get? own key <;> rfl

end GroupMeta

namespace Dictionary

def groupsAround (d : Dictionary) (path : List String) : List GroupMeta :=
  (path.dropLast.inits.filterMap d.branchAt?).reverse.map ownMeta

/-- What the metadata around a path say about a key: the nearest that say anything decide. -/
def groupValue? (d : Dictionary) (path : List String) (key : String) : Option Json :=
  (d.groupsAround path).findSome? (Entries.get? · key)

/-- The metadata that reach a path. -/
def metaAt (d : Dictionary) (path : List String) : GroupMeta :=
  GroupMeta.layered [] (d.groupsAround path)

end Dictionary

namespace Dictionary

variable {d branch : Dictionary} {path : List String} {key : String} {node : Node}

theorem distinctKeys_toJson_get? (h : d.toJson.DistinctKeys)
    (hget : Entries.get? d key = some node) : node.toJson.DistinctKeys := by
  have hentry : Entries.get? d.toEntries key = some node.toJson := by
    rw [get?_toEntries, hget, Option.map_some]
  exact Json.DistinctKeys.get? h hentry

theorem distinctKeys_toJson_branchAt? (h : d.toJson.DistinctKeys)
    (hbranch : d.branchAt? path = some branch) : branch.toJson.DistinctKeys := by
  induction path generalizing d with
  | nil =>
    cases hbranch
    exact h
  | cons key rest ih =>
    rw [branchAt?] at hbranch
    split at hbranch
    · next child hget => exact ih (distinctKeys_toJson_get? h hget) hbranch
    · cases hbranch

theorem distinct_ownMeta (h : d.toJson.DistinctKeys) : Entries.Distinct d.ownMeta := by
  rw [ownMeta]
  split
  · next own hget => exact (distinctKeys_toJson_get? h hget).1
  · exact List.nodup_nil

theorem distinct_of_mem_groupsAround (h : d.toJson.DistinctKeys) :
    ∀ own ∈ d.groupsAround path, Entries.Distinct own := by
  intro own hown
  obtain ⟨branch, hbranch, rfl⟩ := List.mem_map.mp hown
  obtain ⟨_, _, hat⟩ := List.mem_filterMap.mp (List.mem_reverse.mp hbranch)
  exact distinct_ownMeta (distinctKeys_toJson_branchAt? h hat)

end Dictionary

mutual

theorem Node.distinctKeys_of_toJson : ∀ n : Node, n.toJson.DistinctKeys → n.DistinctKeys
  | .branch entries, h => by
    have hkeys : Entries.Distinct (Dictionary.toEntries entries) := h.1
    rw [Entries.Distinct, Dictionary.keys_toEntries] at hkeys
    exact ⟨hkeys, Dictionary.distinctBelow_of_toEntries entries h.2⟩
  | .token _, _ | .decorator _, _ | .literal _, _ => trivial

theorem Dictionary.distinctBelow_of_toEntries : ∀ d : Dictionary,
    Json.DistinctEntries d.toEntries → d.DistinctBelow
  | [], _ => trivial
  | (_, node) :: rest, h =>
    ⟨Node.distinctKeys_of_toJson node h.1, Dictionary.distinctBelow_of_toEntries rest h.2⟩

end

def Node.groupsAround : Node → List String → List GroupMeta
  | .branch entries, path => Dictionary.groupsAround entries path
  | _, _ => []

theorem Dictionary.groupsAround_cons {d : Dictionary} {key : String} {node : Node}
    {rest : List String} {t : Token} (hget : Entries.get? d key = some node)
    (hat : node.at? rest = some (.token t)) :
    d.groupsAround (key :: rest) = node.groupsAround rest ++ [d.ownMeta] := by
  have hroot : d.branchAt? [] = some d := rfl
  cases rest with
  | nil =>
    rw [Node.at?_nil, Option.some.injEq] at hat
    subst hat
    rfl
  | cons next more =>
    obtain ⟨child, _, rfl, _, _⟩ := Node.at?_cons_eq_some_iff.mp hat
    have hbranch : (fun path => d.branchAt? (key :: path)) = branchAt? child := by
      funext path
      simp only [branchAt?, hget]
    rw [groupsAround, List.dropLast_cons_of_ne_nil (List.cons_ne_nil _ _), List.inits_cons,
      List.filterMap_cons_some hroot, List.filterMap_map]
    simp [Node.groupsAround, groupsAround, hbranch]

section Walk

variable {platform : Platform} {g : List String → Token → Token}

mutual

theorem Node.showMeta_eq_of_groupsAround (inherited : GroupMeta) (path : List String) :
    ∀ n : Node, n.DistinctKeys →
      (∀ rest t, n.at? rest = some (.token t) → g (path ++ rest) t = platform.transformInGroup
        (.layered inherited (n.groupsAround rest)) { t with path := path ++ rest }) →
      Node.showMeta platform inherited path n = Node.mapTokensFrom g path n
  | .branch entries, hd, h => by
    rw [Node.showMeta, Node.mapTokensFrom]
    refine congrArg Node.branch
      (Dictionary.showMeta_eq_of_groupsAround _ path entries hd.2 fun e he rest t hat => ?_)
    have hget := hd.1.get?_eq_some he
    have htoken : (Node.branch entries).at? (e.1 :: rest) = some (.token t) := by
      rw [Node.at?_branch_cons, hget, Option.bind_some, hat]
    rw [h _ t htoken, Node.groupsAround, Dictionary.groupsAround_cons hget hat,
      GroupMeta.layered_append]
    rfl
  | .token t, _, h => by
    have htoken := h [] t rfl
    rw [List.append_nil] at htoken
    exact congrArg Node.token htoken.symm
  | .decorator _, _, _ | .literal _, _, _ => rfl

theorem Dictionary.showMeta_eq_of_groupsAround (groupMeta : GroupMeta) (path : List String) :
    ∀ d : Dictionary, d.DistinctBelow →
      (∀ e ∈ d, ∀ rest t, e.2.at? rest = some (.token t) →
        g (path ++ e.1 :: rest) t = platform.transformInGroup
          (.layered groupMeta (e.2.groupsAround rest)) { t with path := path ++ e.1 :: rest }) →
      Dictionary.showMeta platform groupMeta path d = Dictionary.mapTokensFrom g path d
  | [], _, _ => rfl
  | (key, node) :: rest, hd, h => by
    rw [List.forall_mem_cons] at h
    rw [Dictionary.showMeta, Dictionary.mapTokensFrom,
      Dictionary.showMeta_eq_of_groupsAround groupMeta path rest hd.2 h.2,
      Node.showMeta_eq_of_groupsAround groupMeta (path ++ [key]) node hd.1 ?_]
    intro more t hat
    rw [List.append_assoc, List.singleton_append]
    exact h.1 more t hat

end

end Walk

namespace Dictionary

variable {d e : Dictionary} {path : List String}

def withMeta (platform : Platform) (d : Dictionary) (path : List String) (t : Token) : Token :=
  platform.transformInGroup (d.metaAt path) { t with path := path }

theorem propagateMeta_eq_withMeta (platform : Platform) (h : d.toJson.DistinctKeys) :
    d.propagateMeta platform = d.mapTokens (withMeta platform d) := by
  have hroot : Entries.merge [] d.ownMeta = d.ownMeta :=
    Entries.merge_eq_append (distinct_ownMeta h)
  have hwalk : Node.showMeta platform [] [] (.branch d) =
      Node.mapTokensFrom (withMeta platform d) [] (.branch d) :=
    Node.showMeta_eq_of_groupsAround [] [] (.branch d) (Node.distinctKeys_of_toJson (.branch d) h)
      fun _ _ _ => rfl
  rw [Node.showMeta, hroot] at hwalk
  exact Node.branch.inj hwalk

/-- Under each key there is what the nearest group that has the key declares. -/
theorem get?_metaAt (h : d.toJson.DistinctKeys) (path : List String) (key : String) :
    Entries.get? (d.metaAt path) key = d.groupValue? path key := by
  rw [metaAt, GroupMeta.get?_layered (distinct_of_mem_groupsAround h)]
  exact Option.or_none

end Dictionary

/-- A branch has a `@group` entry that is no object. -/
structure Dictionary.MalformedGroup (branch : Dictionary) (found : Json) : Prop where
  get? : Entries.get? branch groupKey = some (.decorator found)
  noObject : found.asObject? = none

namespace Dictionary

variable {branch : Dictionary} {path : List String} {found : Json} {fault : GroupFault}

theorem mem_ownFaults_iff : fault ∈ branch.ownFaults path ↔
    fault.location = path ∧ branch.MalformedGroup fault.found := by
  rw [ownFaults]
  split
  · next own hget =>
    refine ⟨nofun, fun ⟨_, hfound, hobject⟩ => ?_⟩
    rw [hget, Option.some.injEq, Node.decorator.injEq] at hfound
    rw [← hfound] at hobject
    cases hobject
  · next other hother hget =>
    rw [List.mem_singleton]
    constructor
    · rintro rfl
      refine ⟨rfl, hget, ?_⟩
      cases other with
      | obj own => exact absurd rfl (hother own)
      | _ => rfl
    · rintro ⟨rfl, hfound, _⟩
      rw [hget, Option.some.injEq, Node.decorator.injEq] at hfound
      rw [hfound]
  · next hother =>
    refine ⟨nofun, fun ⟨_, hfound, _⟩ => ?_⟩
    exact absurd hfound (hother fault.found)

end Dictionary

mutual

theorem Node.mem_metaFaults_iff {fault : GroupFault} (path : List String) : ∀ n : Node,
    n.DistinctKeys → (fault ∈ n.metaFaults path ↔ ∃ rest branch, fault.location = path ++ rest ∧
      n.at? rest = some (.branch branch) ∧ Dictionary.MalformedGroup branch fault.found)
  | .branch entries, h => by
    rw [Node.metaFaults, List.mem_append, Dictionary.mem_ownFaults_iff,
      Dictionary.mem_entryFaults_iff path entries h.2]
    constructor
    · rintro (⟨hplace, hfault⟩ | ⟨e, he, rest, branch, hplace, hat, hfault⟩)
      · exact ⟨[], entries, by rw [hplace, List.append_nil], rfl, hfault⟩
      · refine ⟨e.1 :: rest, branch, hplace, ?_, hfault⟩
        rw [Node.at?_branch_cons, h.1.get?_eq_some he, Option.bind_some, hat]
    · rintro ⟨rest, branch, hplace, hat, hfault⟩
      cases rest with
      | nil =>
        rw [Node.at?_nil, Option.some.injEq, Node.branch.injEq] at hat
        rw [List.append_nil] at hplace
        exact .inl ⟨hplace, hat ▸ hfault⟩
      | cons key rest =>
        obtain ⟨_, child, heq, hget, hchild⟩ := Node.at?_cons_eq_some_iff.mp hat
        cases heq
        exact .inr ⟨(key, child), Entries.mem_of_get?_eq_some hget, rest, branch, hplace, hchild,
          hfault⟩
  | .token _, _ | .decorator _, _ | .literal _, _ => by
    refine ⟨nofun, ?_⟩
    rintro ⟨rest, _, _, hat, _⟩
    cases rest <;> cases hat

theorem Dictionary.mem_entryFaults_iff {fault : GroupFault} (path : List String) :
    ∀ d : Dictionary, d.DistinctBelow → (fault ∈ d.entryFaults path ↔ ∃ e ∈ d, ∃ rest branch,
      fault.location = path ++ e.1 :: rest ∧ e.2.at? rest = some (.branch branch) ∧
        Dictionary.MalformedGroup branch fault.found)
  | [], _ => by simp [Dictionary.entryFaults]
  | (key, node) :: others, h => by
    rw [Dictionary.entryFaults, List.mem_append, Node.mem_metaFaults_iff (path ++ [key]) node h.1,
      Dictionary.mem_entryFaults_iff path others h.2, List.exists_mem_cons_iff]
    simp only [List.append_assoc, List.singleton_append]

end

namespace Dictionary

variable {d : Dictionary}

theorem mem_metaFaults_iff (h : d.DistinctKeys) {fault : GroupFault} : fault ∈ d.metaFaults ↔
    ∃ branch, d.branchAt? fault.location = some branch ∧ branch.MalformedGroup fault.found := by
  have hroot : d.metaFaults = Node.metaFaults [] (.branch d) := rfl
  rw [hroot, Node.mem_metaFaults_iff [] (.branch d) h]
  constructor
  · rintro ⟨rest, branch, rfl, hat, hfault⟩
    exact ⟨branch, branchAt?_eq_some_iff.mpr hat, hfault⟩
  · rintro ⟨branch, hbranch, hfault⟩
    exact ⟨_, branch, rfl, branchAt?_eq_some_iff.mp hbranch, hfault⟩

end Dictionary

def Dictionary.branded : Dictionary :=
  [("@group", .decorator (.obj [("brand", .str "own"),
    ("theme", .obj [("mode", .str "dark"), ("contrast", .str "high")])])),
  ("button", .branch [
    ("hover", .branch [("@group", .decorator (.str "hover")), ("edge", .token (.new .null))]),
    ("@group", .decorator (.obj [("theme", .obj [("mode", .str "light")])]))]),
  ("card", .branch [("@group", .decorator (.obj [("brand", .str "card")]))])]

end DesignTokens
