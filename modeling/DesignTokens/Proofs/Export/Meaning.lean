import DesignTokens.Proofs.Dictionary.Metadata
import DesignTokens.Proofs.Export.PassCount
import DesignTokens.Proofs.Reference.Substitution
import DesignTokens.Proofs.Transform.Builtin
import DesignTokens.Proofs.Transform.Groups

/-! What an export computes.  Each token comes out as if it had been transformed once, with its
placeholders replaced by the values of other tokens as they come out, however many passes its
references took and in whatever order they were replaced. -/

namespace DesignTokens

namespace Stage

open Classical in
noncomputable def known (d : Dictionary) (n : Nat) (s : Stage) : Reference.Replacement := fun ref =>
  (if ∃ target, d.Addresses ref target ∧ d.depth target < n then some (s.tree.valueOf ref)
    else none, [])

/-- The tokens of a tree after `n` passes, as a function of the tokens that the passes started
from.  A token that is put off has taken the values of settled tokens, and differs from the original
in nothing that a later transform would not set again. -/
structure Evaluates (platform : Platform) (d : Dictionary) (n : Nat)
    (g : List String → Token → Token) (s : Stage) : Prop where
  atDepth : s.AtDepth d n g
  final : ∀ path t, d.tokenAt? path = some t → d.depth path < n →
    g path t = platform.transformInPass
      { t with value := (Reference.fill (known d n s) t.value).1 }
  value : ∀ path t, d.tokenAt? path = some t → n ≤ d.depth path →
    (g path t).value = (Reference.fill (known d n s) t.value).1
  path : ∀ path t, d.tokenAt? path = some t → n ≤ d.depth path → (g path t).path = path
  resumes : ∀ path t, d.tokenAt? path = some t → n ≤ d.depth path → ∀ v,
    platform.transformInPass { g path t with value := v } =
      platform.transformInPass { t with value := v }

section Known

variable {platform : Platform} {d : Dictionary} {n : Nat} {g : List String → Token → Token}
  {s : Stage} {ref : String} {target : List String} {u : Token}

theorem known_eq_valueOf (haddr : d.Addresses ref target) (hlt : d.depth target < n) :
    (known d n s ref).1 = some (s.tree.valueOf ref) := by
  rw [known, if_pos ⟨target, haddr, hlt⟩]

theorem known_of_lt (htree : s.tree = d.mapTokens g) (haddr : d.Addresses ref target)
    (hu : d.tokenAt? target = some u) (hlt : d.depth target < n) :
    (known d n s ref).1 = some (g target u).value := by
  rw [known_eq_valueOf haddr hlt, htree,
    ((Dictionary.addresses_mapTokens g).mpr haddr).valueOf]
  rw [Dictionary.tokenAt?_mapTokens, hu]
  rfl

theorem known_of_le (haddr : d.Addresses ref target) (hle : n ≤ d.depth target) :
    (known d n s ref).1 = none := by
  rw [known, if_neg]
  rintro ⟨other, hother, hlt⟩
  rw [haddr.unique hother] at hle
  omega

end Known

namespace Evaluates

variable {platform : Platform} {d : Dictionary} {n : Nat} {g : List String → Token → Token}
  {s : Stage} {ref : String} {path target : List String} {t u : Token}

section Step

variable (h : s.Evaluates platform d n g) (hd : d.Layered) (hclears : s.Clears platform d n)

include h

theorem mid_eq (ht : d.tokenAt? path = some t) (hle : n ≤ d.depth path) :
    AtDepth.mid platform s g path t = platform.transformInPass (g path t) := by
  have hsame : ∀ u : Token, u.path = path → { u with path := path } = u := by
    rintro u rfl
    rfl
  rw [h.atDepth.mid_of_le ht hle, hsame _ (h.path path t ht hle)]

theorem mid_eq_of_known (ht : d.tokenAt? path = some t) (hle : n ≤ d.depth path) :
    AtDepth.mid platform s g path t =
      platform.transformInPass { t with value := (Reference.fill (known d n s) t.value).1 } := by
  rw [h.mid_eq ht hle, ← h.value path t ht hle]
  exact h.resumes path t ht hle (g path t).value

theorem admits_of_known (haddr : d.Addresses ref target) {v : Json}
    (hv : (known d n s ref).1 = some v) : d.Admits target v := by
  rcases Nat.lt_or_ge (d.depth target) n with hlt | hge
  · obtain ⟨u, hu⟩ := haddr.1
    rw [known_of_lt h.atDepth.tree haddr hu hlt] at hv
    cases hv
    exact h.atDepth.admits target u hu hlt
  · rw [known_of_le haddr hge] at hv
    cases hv

theorem clean_known (hd : d.Layered) (ht : d.tokenAt? path = some t) :
    Reference.Clean (known d n s) t.value where
  whole := by
    intro ref href w hw
    obtain ⟨target, haddr⟩ := hd.addressed path t ht ref href
    exact (h.admits_of_known haddr hw).whole
  spliced := by
    intro ref href w hw
    obtain ⟨target, haddr⟩ :=
      hd.addressed path t ht ref (Json.mem_references_of_mem_spliced href)
    exact (h.admits_of_known haddr hw).spliced path t ht ref href haddr

theorem fill_known_eq_substitute (hd : d.Layered) {value : String → Json}
    (hvalue : ∀ ref ∈ t.value.references, ∀ w, (known d n s ref).1 = some w → w = value ref)
    (ht : d.tokenAt? path = some t) (hle : d.depth path ≤ n) :
    (Reference.fill (known d n s) t.value).1 = t.value.substitute value := by
  refine Reference.fill_eq_substitute fun ref href => ?_
  obtain ⟨target, haddr⟩ := hd.addressed path t ht ref href
  obtain ⟨u, hu⟩ := haddr.1
  have hlt := Dictionary.depth_lt_of_refers hd.wellFormed.distinct hd.acyclic
    ⟨t, ht, ref, href, haddr⟩
  have hknown := known_of_lt h.atDepth.tree haddr hu (hlt.trans_le hle)
  rw [hknown, hvalue ref href _ hknown]

theorem clears (hd : d.Layered) {value : String → Json}
    (hvalue : ∀ path t, d.tokenAt? path = some t → ∀ ref ∈ t.value.references,
      ∀ w, (known d n s ref).1 = some w → w = value ref)
    (hclear : ∀ path t, d.tokenAt? path = some t → d.depth path = n →
      d.Admits path (platform.transformInPass { t with value := t.value.substitute value }).value) :
    s.Clears platform d n := by
  intro path u hu hdepth
  rw [h.atDepth.tree, Dictionary.tokenAt?_mapTokens] at hu
  obtain ⟨t, ht, rfl⟩ := Option.map_eq_some_iff.mp hu
  have hmid := h.mid_eq_of_known ht hdepth.ge
  rw [h.fill_known_eq_substitute hd (hvalue path t ht) ht hdepth.le, AtDepth.mid] at hmid
  rw [hmid]
  exact hclear path t ht hdepth

include hclears

theorem tokenNext_of_lt (ht : d.tokenAt? path = some t) (hlt : d.depth path < n) :
    s.tokenNext platform path (g path t) = g path t := by
  rw [h.atDepth.tokenNext_of_le hclears ht hlt.le, h.atDepth.mid_of_lt ht hlt]

theorem known_following_of_lt (haddr : d.Addresses ref target) (hlt : d.depth target < n) :
    (known d (n + 1) (s.following platform) ref).1 = (known d n s ref).1 := by
  obtain ⟨u, hu⟩ := haddr.1
  rw [known_of_lt (following_tree h.atDepth.tree) haddr hu (Nat.lt_succ_of_lt hlt),
    known_of_lt h.atDepth.tree haddr hu hlt, h.tokenNext_of_lt hclears hu hlt]

include hd

theorem fill_known_of_le (ht : d.tokenAt? path = some t) (hle : d.depth path ≤ n) :
    (Reference.fill (known d (n + 1) (s.following platform)) t.value).1 =
      (Reference.fill (known d n s) t.value).1 := by
  refine Reference.fill_fst_congr t.value fun ref href => ?_
  obtain ⟨target, haddr⟩ := hd.addressed path t ht ref href
  have hlt := Dictionary.depth_lt_of_refers hd.wellFormed.distinct hd.acyclic
    ⟨t, ht, ref, href, haddr⟩
  exact h.known_following_of_lt hclears haddr (by omega)

theorem tokenNext_value (hmargin : Reference.LeavesMargin (known d n s) t.value)
    (ht : d.tokenAt? path = some t) (hlt : n < d.depth path) :
    (s.tokenNext platform path (g path t)).value =
      (Reference.fill (known d (n + 1) (s.following platform)) t.value).1 := by
  have hnew : ∀ ref ∈ (g path t).value.references,
      (Reference.follow (s.transformed platform) s.noted.ignoredPaths
        (s.transformed platform).tokens.length (dottedName path) [dottedName path] ref).1 =
      (known d (n + 1) (s.following platform) ref).1 := by
    intro ref href
    obtain ⟨_, target, haddr, _⟩ := (h.atDepth.references path t ht hlt.le ref).mp href
    obtain ⟨u, hu⟩ := haddr.1
    rcases Nat.lt_or_ge n (d.depth target) with hlt | hge
    · rw [h.atDepth.follow_of_lt hd haddr hlt, known_of_le haddr hlt]
    · rw [h.atDepth.follow_of_le hd hclears haddr hu hge,
        known_of_lt (following_tree h.atDepth.tree) haddr hu (Nat.lt_succ_of_le hge),
        h.atDepth.tokenNext_of_le hclears hu hge]
  -- the pass fills in what has become known, after earlier ones have filled in what was known
  rw [h.atDepth.tokenNext_value_of_lt hd ht hlt, Reference.fill_fst_congr _ hnew,
    h.value path t ht hlt.le]
  refine Reference.fill_fill (hd.proper path t ht) hmargin (h.clean_known hd ht) fun ref href => ?_
  obtain ⟨target, haddr⟩ := hd.addressed path t ht ref href
  obtain ⟨u, hu⟩ := haddr.1
  rcases Nat.lt_or_ge (d.depth target) n with hlt | hge
  · rw [h.known_following_of_lt hclears haddr hlt, known_of_lt h.atDepth.tree haddr hu hlt]
    rfl
  · rw [known_of_le (s := s) haddr hge, Option.none_or]

theorem next
    (hmargin : ∀ path t, d.tokenAt? path = some t → Reference.LeavesMargin (known d n s) t.value)
    (hresumes : platform.Resumes)
    (hnoted : (s.following platform).noted.PutsOffRestOf d.names) :
    (s.following platform).Evaluates platform d (n + 1)
      fun path t => s.tokenNext platform path (g path t) where
  atDepth := h.atDepth.next hd hclears hnoted
  final := by
    intro path t ht hlt
    rw [h.fill_known_of_le hd hclears ht (Nat.le_of_lt_succ hlt)]
    rcases (Nat.le_of_lt_succ hlt).lt_or_eq with hlt | heq
    · rw [h.tokenNext_of_lt hclears ht hlt]
      exact h.final path t ht hlt
    · rw [h.atDepth.tokenNext_of_le hclears ht heq.le]
      exact h.mid_eq_of_known ht heq.ge
  value := fun path t ht hle => h.tokenNext_value hd hclears (hmargin path t ht) ht hle
  path := by
    intro path t ht hle
    have hpath : (AtDepth.mid platform s g path t).path = path := by
      rw [h.mid_eq ht (by omega), Platform.transformInPass_path, h.path path t ht (by omega)]
    exact hpath
  resumes := by
    intro path t ht hle v
    have href := h.atDepth.hasReference_of_lt hd ht hle
    have hmid := h.mid_eq ht (by omega)
    rw [← h.resumes path t ht (by omega) v, ← hresumes (g path t) v href, ← hmid]
    rfl

end Step

end Evaluates

section Passes

variable {platform : Platform} {d : Dictionary} (hd : d.Layered)

include hd

theorem evaluates_start (hpaths : ∀ path t, d.tokenAt? path = some t → t.path = path) :
    (start d).Evaluates platform d 0 fun _ t => t where
  atDepth := atDepth_start hd
  final := nofun
  value := by
    intro path t ht _
    refine (Reference.fill_of_forall_eq_none t.value fun ref href => ?_).symm
    obtain ⟨target, haddr⟩ := hd.addressed path t ht ref href
    exact known_of_le haddr (Nat.zero_le _)
  path := fun path t ht _ => hpaths path t ht
  resumes := fun _ _ _ _ _ => rfl

variable (hresumes : platform.Resumes)
  (hpaths : ∀ path t, d.tokenAt? path = some t → t.path = path)

include hresumes hpaths

theorem exists_evaluates {bound : Nat}
    (hstep : ∀ n < bound, ∀ g, ((start d).after platform n).Evaluates platform d n g →
      ((start d).after platform n).Clears platform d n ∧ ∀ path t, d.tokenAt? path = some t →
        Reference.LeavesMargin (known d n ((start d).after platform n)) t.value)
    {n : Nat} (hn : n ≤ bound) : ∃ g, ((start d).after platform n).Evaluates platform d n g := by
  have hnames := hd.nodupNames
  induction n with
  | zero => exact ⟨_, evaluates_start hd hpaths⟩
  | succ n ih =>
    obtain ⟨g, h⟩ := ih (Nat.le_of_succ_le hn)
    obtain ⟨hclears, hmargin⟩ := hstep n hn g h
    rw [after_start_succ hnames]
    exact ⟨_, h.next hd hclears hmargin hresumes (putsOffRestOf_noted_following hnames n)⟩

end Passes

end Stage

section Outcome

variable {platform : Platform} {d : Dictionary} {n : Nat}

theorem Stage.Evaluates.tree_eq {g : List String → Token → Token} {s : Stage}
    (h : s.Evaluates platform d n g) (hd : d.Layered) (hn : d.longestChain < n) :
    s.tree = d.mapTokens fun _ t =>
      platform.transformInPass { t with value := t.value.substitute s.tree.valueOf } := by
  have hdepth : ∀ path, d.depth path < n := fun path =>
    (Dictionary.depth_le_longestChain hd.wellFormed.distinct hd.acyclic path).trans_lt hn
  rw [h.atDepth.tree]
  refine Dictionary.mapTokens_congr fun e he => ?_
  have ht := Dictionary.tokenAt?_of_mem_tokens hd.wellFormed.distinct he
  rw [← h.atDepth.tree, h.final e.1 e.2 ht (hdepth e.1)]
  rw [Reference.fill_eq_substitute fun ref href => ?_]
  obtain ⟨target, haddr⟩ := hd.addressed e.1 e.2 ht ref href
  exact Stage.known_eq_valueOf haddr (hdepth target)

end Outcome

end DesignTokens
