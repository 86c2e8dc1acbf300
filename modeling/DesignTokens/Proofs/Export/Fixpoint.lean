import DesignTokens.Proofs.Export.Meaning
import DesignTokens.Proofs.Export.Success

/-! What an export computes, as the solution of an equation.  A tree solves it if each token is the
original with its references replaced by values of the tree itself, transformed once.  There is one
solution, and the passes lead to it. -/

namespace DesignTokens

namespace Platform

variable {platform : Platform} {d solution : Dictionary} {value : String → Json}

/-- Each token of a tree is that of `d` with the values of the tree in place of its references,
transformed once. -/
def Solves (platform : Platform) (d solution : Dictionary) : Prop :=
  solution = d.mapTokens fun _ t =>
    platform.transformInPass { t with value := t.value.substitute solution.valueOf }

/-- With these values in place of its references no token has an opening brace, neither before it is
transformed nor afterwards. -/
def ClearWith (platform : Platform) (d : Dictionary) (value : String → Json) : Prop :=
  ∀ path t, d.tokenAt? path = some t → (t.value.substitute value).hasReference = false ∧
    (platform.transformInPass { t with value := t.value.substitute value }).hasReference = false

theorem ClearWith.admits (h : platform.ClearWith d value) {path : List String} {t : Token}
    (ht : d.tokenAt? path = some t)
    (hvalue : ∀ ref, d.Addresses ref path → value ref =
      (platform.transformInPass { t with value := t.value.substitute value }).value) :
    d.Admits path
      (platform.transformInPass { t with value := t.value.substitute value }).value where
  whole := (h path t ht).2
  spliced := by
    intro source u hu ref href haddr
    rw [← hvalue ref haddr]
    exact Json.openBrace_not_mem_of_substitute (h source u hu).1 href

namespace Solves

variable {path : List String} {t : Token}

theorem tokenAt?_eq (h : platform.Solves d solution) (ht : d.tokenAt? path = some t) :
    solution.tokenAt? path =
      some (platform.transformInPass { t with value := t.value.substitute solution.valueOf }) := by
  have htoken := congrArg (·.tokenAt? path) h
  beta_reduce at htoken
  rw [Dictionary.tokenAt?_mapTokens, ht] at htoken
  exact htoken

theorem addresses (h : platform.Solves d solution) {ref : String} (haddr : d.Addresses ref path) :
    solution.Addresses ref path := by
  rw [h]
  exact (Dictionary.addresses_mapTokens _).mpr haddr

theorem valueOf (h : platform.Solves d solution) {ref : String} (haddr : d.Addresses ref path)
    (ht : d.tokenAt? path = some t) : solution.valueOf ref =
      (platform.transformInPass { t with value := t.value.substitute solution.valueOf }).value :=
  (h.addresses haddr).valueOf (h.tokenAt?_eq ht)

end Solves

end Platform

namespace Stage

section Solution

variable {platform : Platform} {d solution : Dictionary} {n : Nat}
  {g : List String → Token → Token} {s : Stage} {path : List String} {t : Token}
  (h : s.Evaluates platform d n g) (hd : d.Layered) (hsolves : platform.Solves d solution)

include h hd hsolves

theorem Evaluates.tokenAt?_of_solves (ht : d.tokenAt? path = some t) (hlt : d.depth path < n) :
    solution.tokenAt? path = some (g path t) := by
  -- on the depth: what a token refers to has been settled before it
  induction hk : d.depth path using Nat.strongRecOn generalizing path t with
  | ind k ih =>
    subst hk
    have hvalue : (Reference.fill (known d n s) t.value).1 =
        t.value.substitute solution.valueOf := by
      refine Reference.fill_eq_substitute fun ref href => ?_
      obtain ⟨target, haddr⟩ := hd.addressed path t ht ref href
      obtain ⟨u, hu⟩ := haddr.1
      have hdepth := Dictionary.depth_lt_of_refers hd.wellFormed.distinct hd.acyclic
        ⟨t, ht, ref, href, haddr⟩
      have hu' := ih _ hdepth hu (hdepth.trans hlt) rfl
      rw [known_of_lt h.atDepth.tree haddr hu (hdepth.trans hlt),
        (hsolves.addresses haddr).valueOf hu']
    rw [hsolves.tokenAt?_eq ht, h.final path t ht hlt, hvalue]

theorem Evaluates.known_of_solves (ht : d.tokenAt? path = some t) :
    ∀ ref ∈ t.value.references, ∀ w, (known d n s ref).1 = some w → w = solution.valueOf ref := by
  intro ref href w hw
  obtain ⟨target, haddr⟩ := hd.addressed path t ht ref href
  obtain ⟨u, hu⟩ := haddr.1
  rcases Nat.lt_or_ge (d.depth target) n with hlt | hge
  · rw [known_of_lt h.atDepth.tree haddr hu hlt] at hw
    rw [(hsolves.addresses haddr).valueOf (h.tokenAt?_of_solves hd hsolves hu hlt)]
    exact (Option.some.inj hw).symm
  · rw [known_of_le haddr hge] at hw
    cases hw

end Solution

structure RestsAt (s : Stage) (path : List String) (u : Token) : Prop where
  token : s.tree.tokenAt? path = some u
  settled : s.progress.isSettled (dottedName path) = true
  clear : u.hasReference = false

section Rest

variable {platform : Platform} {d : Dictionary} {path : List String} {u : Token}

theorem RestsAt.following {s : Stage} (h : s.RestsAt path u) (hnames : s.tree.names.Nodup) :
    (s.following platform).RestsAt path u where
  token := by
    have hafter : s.progress.tokenAfter platform path u = u := by
      rw [Progress.tokenAfter, if_pos h.settled]
    rw [Dictionary.tokenAt?_mapTokens, h.token, Option.map_some,
      tokenNext_of_not_hasReference (by rw [hafter, h.clear]), hafter]
  settled := (isSettled_noted hnames (Dictionary.mem_tokens_of_tokenAt? h.token)).mpr
    (.inl h.settled)
  clear := h.clear

theorem RestsAt.after_start_of_le {n m : Nat} (h : ((start d).after platform n).RestsAt path u)
    (hnames : d.names.Nodup) (hle : n ≤ m) : ((start d).after platform m).RestsAt path u := by
  induction m, hle using Nat.le_induction with
  | base => exact h
  | succ m _ ih =>
    rw [after_start_succ hnames]
    exact ih.following (by rwa [names_after_start hnames])

theorem AtDepth.restsAt {n : Nat} {g : List String → Token → Token} {s : Stage}
    (h : s.AtDepth d n g) {t : Token} (ht : d.tokenAt? path = some t) (hlt : d.depth path < n) :
    s.RestsAt path (g path t) where
  token := h.tokenAt?_tree ht
  settled := (h.settled path t ht).mpr hlt
  clear := (h.admits path t ht hlt).whole

theorem Evaluates.restsAt_following {n : Nat} {g : List String → Token → Token} {s : Stage}
    (h : s.Evaluates platform d n g) (hd : d.Layered) {t : Token} (ht : d.tokenAt? path = some t)
    (hdepth : d.depth path = n) (hclear : (AtDepth.mid platform s g path t).hasReference = false) :
    (s.following platform).RestsAt path (AtDepth.mid platform s g path t) where
  token := by
    rw [following_tree h.atDepth.tree, Dictionary.tokenAt?_mapTokens, ht, Option.map_some,
      tokenNext_of_not_hasReference hclear]
  settled := (h.atDepth.isSettled_noted hd ht).mpr (by omega)
  clear := hclear

end Rest

end Stage

theorem Platform.Solves.clears {platform : Platform} {d solution : Dictionary}
    (hsolves : platform.Solves d solution) (hd : d.Layered) (hresumes : platform.Resumes)
    (hpaths : ∀ path t, d.tokenAt? path = some t → t.path = path)
    (hmargin : ∀ path t, d.tokenAt? path = some t → t.value.hasMarginWith solution.valueOf = true)
    (hclear : platform.ClearWith d solution.valueOf) : platform.Clears d := by
  have hstep : ∀ n g, ((Stage.start d).after platform n).Evaluates platform d n g →
      ((Stage.start d).after platform n).Clears platform d n := fun n g h =>
    h.clears hd (fun _ _ ht => h.known_of_solves hd hsolves ht) fun path t ht _ =>
      hclear.admits ht fun _ haddr => hsolves.valueOf haddr ht
  intro n
  obtain ⟨g, h⟩ := Stage.exists_evaluates hd hresumes hpaths (fun k _ g h =>
    ⟨hstep k g h, fun path t ht => Reference.leavesMargin_of_hasMarginWith (hmargin path t ht)
      (h.known_of_solves hd hsolves ht)⟩) (le_refl n)
  exact hstep n g h

namespace Run

variable {platform : Platform} {maxPasses : Nat} {d solution : Dictionary} (hd : d.Layered)
  (hresumes : platform.Resumes) (hpaths : ∀ path t, d.tokenAt? path = some t → t.path = path)

include hd hresumes hpaths

/-- Where there is a solution, the passes lead to it. -/
theorem last_tree_of_solves (hclears : platform.Clears d) (hsolves : platform.Solves d solution)
    (hmargin : ∀ path t, d.tokenAt? path = some t →
      t.value.hasMarginWith solution.valueOf = true)
    (hending : (ofTree platform maxPasses d).ending = .converged) :
    (ofTree platform maxPasses d).last.tree = solution := by
  have hrun := ofTree_records platform maxPasses d
  obtain ⟨g, h⟩ := Stage.exists_evaluates hd hresumes hpaths (fun n _ g h =>
    ⟨hclears n, fun path t ht => Reference.leavesMargin_of_hasMarginWith (hmargin path t ht)
      (h.known_of_solves hd hsolves ht)⟩) (le_refl (d.longestChain + 1))
  rw [hrun.last, hrun.passes_eq hd hclears hending, h.atDepth.tree, hsolves]
  refine Dictionary.mapTokens_congr fun e he => ?_
  have ht := Dictionary.tokenAt?_of_mem_tokens hd.wellFormed.distinct he
  have hdepth := Dictionary.depth_le_longestChain hd.wellFormed.distinct hd.acyclic e.1
  have hsettled := h.tokenAt?_of_solves hd hsolves ht (Nat.lt_succ_of_le hdepth)
  exact Option.some.inj (hsettled.symm.trans (hsolves.tokenAt?_eq ht))

omit hresumes hpaths in
theorem eq_valueOf_of_known {n : Nat} {g : List String → Token → Token}
    (h : ((Stage.start d).after platform n).Evaluates platform d n g)
    (hle : n ≤ (ofTree platform maxPasses d).passes) {path : List String} {t : Token}
    (ht : d.tokenAt? path = some t) : ∀ ref ∈ t.value.references,
      ∀ w, (Stage.known d n ((Stage.start d).after platform n) ref).1 = some w →
        w = (ofTree platform maxPasses d).last.tree.valueOf ref := by
  intro ref href w hw
  obtain ⟨target, haddr⟩ := hd.addressed path t ht ref href
  obtain ⟨u, hu⟩ := haddr.1
  rcases Nat.lt_or_ge (d.depth target) n with hlt | hge
  · rw [Stage.known_of_lt h.atDepth.tree haddr hu hlt] at hw
    have hrest := (h.atDepth.restsAt hu hlt).after_start_of_le hd.nodupNames hle
    rw [← (ofTree_records platform maxPasses d).last] at hrest
    have haddr' : (ofTree platform maxPasses d).last.tree.Addresses ref target :=
      ⟨⟨_, hrest.token⟩, haddr.2⟩
    rw [haddr'.valueOf hrest.token]
    exact (Option.some.inj hw).symm
  · rw [Stage.known_of_le haddr hge] at hw
    cases hw

omit hresumes hpaths in
theorem clears_of_clearWith {n : Nat} {g : List String → Token → Token}
    (h : ((Stage.start d).after platform n).Evaluates platform d n g)
    (hlt : n < (ofTree platform maxPasses d).passes)
    (hclear : platform.ClearWith d (ofTree platform maxPasses d).last.tree.valueOf) :
    ((Stage.start d).after platform n).Clears platform d n := by
  have hvalue : ∀ path t, d.tokenAt? path = some t → _ := fun path t ht =>
    eq_valueOf_of_known hd h hlt.le ht
  refine h.clears hd hvalue fun path t ht hdepth => hclear.admits ht fun ref haddr => ?_
  have hmid := h.mid_eq_of_known ht hdepth.ge
  rw [h.fill_known_eq_substitute hd (hvalue path t ht) ht hdepth.le] at hmid
  -- what comes out of this pass rests, so that it is the value that the run ends with
  have hrest := h.restsAt_following hd ht hdepth (by rw [hmid]; exact (hclear path t ht).2)
  rw [← Stage.after_start_succ hd.nodupNames] at hrest
  replace hrest := hrest.after_start_of_le hd.nodupNames hlt
  rw [← (ofTree_records platform maxPasses d).last, hmid] at hrest
  have haddr' : (ofTree platform maxPasses d).last.tree.Addresses ref path :=
    ⟨⟨_, hrest.token⟩, haddr.2⟩
  exact haddr'.valueOf hrest.token

/-- What the passes lead to is a solution. -/
theorem solves_last_tree
    (hmargin : ∀ path t, d.tokenAt? path = some t →
      t.value.hasMarginWith (ofTree platform maxPasses d).last.tree.valueOf = true)
    (hclear : platform.ClearWith d (ofTree platform maxPasses d).last.tree.valueOf)
    (hending : (ofTree platform maxPasses d).ending = .converged) :
    platform.Solves d (ofTree platform maxPasses d).last.tree := by
  have hrun := ofTree_records platform maxPasses d
  have hnames := hd.nodupNames
  obtain ⟨g, h⟩ := Stage.exists_evaluates hd hresumes hpaths (fun n hlt g h =>
    ⟨clears_of_clearWith hd h hlt hclear, fun path t ht => Reference.leavesMargin_of_hasMarginWith
      (hmargin path t ht) (eq_valueOf_of_known hd h hlt.le ht)⟩) le_rfl
  rw [hrun.last]
  refine h.tree_eq hd ?_
  -- no token is put off after the last pass, so that none is deeper than the passes reach
  obtain ⟨n, hn⟩ := Nat.exists_eq_add_one.mpr hrun.pos
  have hnil := hrun.converged.mp hending
  rw [hrun.last] at hnil
  by_contra hlong
  obtain ⟨path, ⟨t, ht⟩, hdepth⟩ := Dictionary.exists_token_depth_eq hd.wellFormed.distinct
    hd.acyclic (by omega) (not_lt.mp hlong)
  have hputOff : ((Stage.start d).after platform (n + 1)).progress.PutsOffRestOf d.names :=
    Stage.putsOffRestOf_after_start hnames n
  rw [← hn] at hputOff
  have hsettled := hputOff.isSettled_of_deferred_eq_nil hnil (Dictionary.dottedName_mem_names ht)
  exact (((h.atDepth.settled path t ht).mp hsettled).ne) hdepth

end Run

end DesignTokens
