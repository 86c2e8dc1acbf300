import DesignTokens.Proofs.Export.Depth
import DesignTokens.Proofs.Export.Problems

namespace DesignTokens

namespace Progress

theorem equal_eq_false {p q : Progress} {name : String} (hp : p.isSettled name = true)
    (hq : q.isSettled name = false) : p.equal q = false := by
  rw [isSettled, List.contains_iff_mem] at hp
  have hnot : p.transformed.all q.transformed.contains = false := by
    rw [List.all_eq_false]
    exact ⟨name, hp, by simpa [isSettled] using hq⟩
  simp [equal, sameMembers, hnot]

end Progress

namespace Run

def progressAfter (r : Run) : Nat → Progress
  | 0 => .start
  | n + 1 => ((r.stages[n]?).map Stage.progress).getD .start

/-- A pass of a run notes a token as transformed that no pass before it has noted so. -/
def SettlesIn (r : Run) (name : String) : Nat → Prop
  | 0 => False
  | n + 1 => (r.progressAfter (n + 1)).isSettled name = true ∧
    (r.progressAfter n).isSettled name = false

variable {platform : Platform} {left : Nat} {d : Dictionary} {r : Run}

theorem Records.progressAfter_of_le (h : Records platform left (.start d) r) {n : Nat}
    (hn : n ≤ r.passes) : r.progressAfter n = ((Stage.start d).after platform n).progress := by
  cases n with
  | zero => rfl
  | succ n =>
    have hlt : n < r.passes := hn
    simp [progressAfter, h.stages, hlt]

theorem progressAfter_of_lt {n : Nat} (hn : r.passes < n) : r.progressAfter n = .start := by
  cases n with
  | zero => rfl
  | succ n =>
    have hnone : r.stages[n]? = none := List.getElem?_eq_none (Nat.le_of_lt_succ hn)
    simp [progressAfter, hnone]

end Run

namespace Stage

variable {platform : Platform} {d : Dictionary} (hd : d.Layered) (hclears : platform.Clears d)

include hd hclears

theorem isSettled_after_start {path : List String} {t : Token} (ht : d.tokenAt? path = some t)
    (n : Nat) : ((start d).after platform n).progress.isSettled (dottedName path) = true ↔
      d.depth path < n := by
  obtain ⟨g, h⟩ := exists_atDepth_after_start hd hclears n
  exact h.settled path t ht

/-- Tokens are put off until as many passes have been made as the longest chain has references. -/
theorem deferred_after_start_eq_nil (n : Nat) :
    ((start d).after platform (n + 1)).progress.deferred = [] ↔ d.longestChain ≤ n := by
  have hnames := hd.nodupNames
  have hputOff : ((start d).after platform (n + 1)).progress.PutsOffRestOf d.names :=
    putsOffRestOf_after_start hnames n
  rw [List.eq_nil_iff_forall_not_mem]
  constructor
  · intro hnone
    by_contra hlt
    obtain ⟨path, ⟨t, ht⟩, hdepth⟩ := Dictionary.exists_token_depth_eq hd.wellFormed.distinct
      hd.acyclic (by omega) (le_refl d.longestChain)
    apply hnone (dottedName path)
    rw [hputOff.mem_deferred, ← Bool.not_eq_true, isSettled_after_start hd hclears ht]
    exact ⟨Dictionary.dottedName_mem_names ht, by omega⟩
  · intro hle name hmem
    obtain ⟨hname, hsettled⟩ := hputOff.mem_deferred.mp hmem
    obtain ⟨e, he, rfl⟩ := List.mem_map.mp hname
    rw [← Bool.not_eq_true, isSettled_after_start hd hclears
      (Dictionary.tokenAt?_of_mem_tokens hd.wellFormed.distinct he)] at hsettled
    have hdepth := Dictionary.depth_le_longestChain hd.wellFormed.distinct hd.acyclic e.1
    omega

theorem equal_after_start {n : Nat} (hn : n < d.longestChain) :
    ((start d).after platform (n + 1)).equal ((start d).after platform n) = false := by
  obtain ⟨path, ⟨t, ht⟩, hdepth⟩ := Dictionary.exists_token_depth_eq hd.wellFormed.distinct
    hd.acyclic (by omega) hn.le
  have hnew := (isSettled_after_start hd hclears ht (n + 1)).mpr (by omega)
  have hold : ((start d).after platform n).progress.isSettled (dottedName path) = false := by
    rw [← Bool.not_eq_true, isSettled_after_start hd hclears ht]
    omega
  rw [equal, Progress.equal_eq_false hnew hold, Bool.and_false]

end Stage

namespace Run

variable {platform : Platform} {left maxPasses : Nat} {d : Dictionary} {r : Run}

section Layered

variable (hd : d.Layered) (hclears : platform.Clears d)

include hd hclears

theorem Records.passes_le (h : Records platform left (.start d) r) :
    r.passes ≤ d.longestChain + 1 := by
  by_contra hlt
  obtain ⟨n, hn⟩ := Nat.exists_eq_add_of_lt (not_le.mp hlt)
  have hgoing := h.going d.longestChain (by omega)
  rw [Ne, Stage.deferred_after_start_eq_nil hd hclears] at hgoing
  exact hgoing.1 le_rfl

theorem Records.converged_iff (h : Records platform left (.start d) r) :
    r.ending = .converged ↔ d.longestChain ≤ left := by
  obtain ⟨n, hn⟩ := Nat.exists_eq_add_one.mpr h.pos
  have hpasses := h.passes_le hd hclears
  have hlimit := h.le
  have hconverged : r.ending = .converged ↔ d.longestChain ≤ n := by
    rw [h.converged, h.last, hn, Stage.deferred_after_start_eq_nil hd hclears]
  rw [hconverged]
  constructor
  · intro hle
    omega
  · intro hle
    by_contra hlt
    cases hending : r.ending with
    | converged => exact hlt (hconverged.mp hending)
    | stalled =>
      obtain ⟨k, hk, hequal⟩ := h.stalled hending
      rw [Stage.equal_after_start hd hclears (by omega)] at hequal
      cases hequal
    | passLimit =>
      have := h.passLimit hending
      omega

theorem Records.passes_eq (h : Records platform left (.start d) r)
    (hending : r.ending = .converged) : r.passes = d.longestChain + 1 := by
  obtain ⟨n, hn⟩ := Nat.exists_eq_add_one.mpr h.pos
  have hpasses := h.passes_le hd hclears
  rw [h.converged, h.last, hn, Stage.deferred_after_start_eq_nil hd hclears] at hending
  omega

theorem Records.problems_eq_nil (h : Records platform left (.start d) r) : r.problems = [] := by
  rw [h.problems, List.flatMap_eq_nil_iff]
  exact fun n _ => Stage.next_after_start_snd hd hclears n

theorem Records.settlesIn_iff (h : Records platform left (.start d) r)
    (hending : r.ending = .converged) {path : List String} {t : Token}
    (ht : d.tokenAt? path = some t) (pass : Nat) :
    r.SettlesIn (dottedName path) pass ↔ pass = d.depth path + 1 := by
  have hpasses := h.passes_eq hd hclears hending
  have hdepth := Dictionary.depth_le_longestChain hd.wellFormed.distinct hd.acyclic path
  cases pass with
  | zero => simp [SettlesIn]
  | succ n =>
    rw [SettlesIn, ← Bool.not_eq_true]
    rcases Nat.lt_or_ge r.passes (n + 1) with hlt | hle
    · rw [progressAfter_of_lt hlt]
      simp only [Progress.isSettled_start]
      constructor
      · rintro ⟨h, _⟩
        cases h
      · intro heq
        omega
    · rw [h.progressAfter_of_le hle, h.progressAfter_of_le (by omega),
        Stage.isSettled_after_start hd hclears ht, Stage.isSettled_after_start hd hclears ht]
      omega

end Layered

end Run

/-- An export of tidy values succeeds exactly when no reference dangles, none leads round, and the
limit leaves one pass for each reference of the longest chain and one more.  It then takes just that
many passes, and each token is settled in the pass after those for the references below it. -/
theorem Export.run_ok_iff {depth maxPasses : Nat} {platform : Platform} {d tree : Dictionary}
    (hread : d.AsRead) (hprepared : preparedTree? depth platform d = some tree)
    (hfree : tree.DotFree)
    (htidy : ∀ e ∈ tree.tokens, e.2.value.isTidy = true)
    (hrefs : ∀ e ∈ tree.tokens, ∀ ref ∈ e.2.value.references,
      (∃ path, tree.Addresses ref path) ∨ tree.Dangling ref)
    (hkeeps : platform.Keeps fun v => v.isPlain = true) :
    ((∃ outcome, Export.run depth platform maxPasses d = .ok outcome) ↔
      (∀ e ∈ tree.tokens, ∀ ref ∈ e.2.value.references, ¬ tree.Dangling ref) ∧ tree.Acyclic ∧
        tree.longestChain + 1 ≤ max 1 maxPasses) ∧
    ∀ outcome, Export.run depth platform maxPasses d = .ok outcome →
      outcome.passes = tree.longestChain + 1 ∧
      (Run.ofTree platform maxPasses tree).passes = outcome.passes ∧
      ∀ e ∈ tree.tokens, ∀ pass,
        (Run.ofTree platform maxPasses tree).SettlesIn (dottedName e.1) pass ↔
          pass = tree.depth e.1 + 1 := by
  have hwell := wellFormed_of_preparedTree? hread hprepared
  have hnames := Dictionary.nodup_names hwell.distinct hfree
  have hrun := Run.ofTree_records platform maxPasses tree
  have hclean : (Run.ofTree platform maxPasses tree).ending = .converged → _ :=
    Run.of_ending_eq_converged hwell.distinct hnames
  have hresolvable : (∀ e ∈ tree.tokens, ∀ ref ∈ e.2.value.references, ¬ tree.Dangling ref) →
      tree.Acyclic → tree.Resolvable := fun hnone =>
    Dictionary.resolvable_of_tokens hwell hfree htidy fun e he ref href =>
      (hrefs e he ref href).resolve_right (hnone e he ref href)
  have hlimit : tree.longestChain + 1 ≤ max 1 maxPasses ↔ tree.longestChain ≤ maxPasses - 1 := by
    omega
  constructor
  · constructor
    · rintro ⟨outcome, hok⟩
      obtain ⟨hending, _, _⟩ := of_run_eq_ok hprepared hok
      obtain ⟨hnone, hacyclic⟩ := hclean hending
      refine ⟨hnone, hacyclic, hlimit.mpr ?_⟩
      exact (hrun.converged_iff (hresolvable hnone hacyclic).layered
        ((hresolvable hnone hacyclic).clears hkeeps)).mp hending
    · rintro ⟨hnone, hacyclic, hle⟩
      have hd := hresolvable hnone hacyclic
      exact run_eq_ok hprepared
        ((hrun.converged_iff hd.layered (hd.clears hkeeps)).mpr (hlimit.mp hle))
        (hrun.problems_eq_nil hd.layered (hd.clears hkeeps))
  · intro outcome hok
    obtain ⟨hending, _, hpasses⟩ := of_run_eq_ok hprepared hok
    obtain ⟨hnone, hacyclic⟩ := hclean hending
    have hd := hresolvable hnone hacyclic
    refine ⟨hpasses.trans (hrun.passes_eq hd.layered (hd.clears hkeeps) hending), hpasses.symm,
      fun e he pass => ?_⟩
    exact hrun.settlesIn_iff hd.layered (hd.clears hkeeps) hending
      (Dictionary.tokenAt?_of_mem_tokens hwell.distinct he) pass

def Dictionary.chained : Dictionary :=
  [("size", .branch [
    ("large", .token ⟨.str "\x7bsize.base\x7d", none, ["size", "large"], [], []⟩),
    ("base", .token ⟨.str "calc(\x7bsize.unit.value\x7d)", none, ["size", "base"], [], []⟩),
    ("unit", .token ⟨.num (.int 4), none, ["size", "unit"], [], []⟩)])]

theorem Dictionary.asRead_chained : Dictionary.chained.AsRead := by
  have hnone : (Json.obj []).DistinctKeys := ⟨.nil, trivial⟩
  refine ⟨by decide, ⟨by decide, by decide, ?_⟩, trivial⟩
  exact ⟨⟨trivial, hnone, hnone⟩, ⟨trivial, hnone, hnone⟩, ⟨trivial, hnone, hnone⟩, trivial⟩

theorem Dictionary.addresses_chained : ∀ e ∈ Dictionary.chained.tokens,
    ∀ ref ∈ e.2.value.references, ∃ path, Dictionary.chained.Addresses ref path :=
  exists_addresses_of_listed (by decide) (by decide +kernel)

theorem Run.chained_converges : (ofTree (.new "plain") 3 .chained).ending = .converged := by
  decide +kernel

theorem Dictionary.resolvable_chained : Dictionary.chained.Resolvable := by
  obtain ⟨_, hacyclic⟩ := Run.of_ending_eq_converged (by decide) (by decide) Run.chained_converges
  exact resolvable_of_tokens (by decide) (by decide) (by decide +kernel) addresses_chained hacyclic

theorem Dictionary.longestChain_chained : Dictionary.chained.longestChain ≤ 2 := by
  have hplain : (Platform.new "plain").Keeps fun v => v.isPlain = true := nofun
  exact ((Run.ofTree_records (.new "plain") 3 .chained).converged_iff resolvable_chained.layered
    (resolvable_chained.clears hplain)).mp Run.chained_converges

theorem Export.chained_takes_its_passes :
    ∃ outcome, Export.run 2 (.new "plain") 3 .chained = .ok outcome ∧
      outcome.passes = Dictionary.chained.longestChain + 1 := by
  have hkeeps : (Platform.new "plain").Keeps fun v => v.isPlain = true := nofun
  have hprepared : preparedTree? 2 (.new "plain") .chained = some .chained := rfl
  have hsome : (Export.run 2 (.new "plain") 3 .chained).toOption.isSome = true := by decide +kernel
  cases hrun : Export.run 2 (.new "plain") 3 .chained with
  | error e =>
    rw [hrun] at hsome
    cases hsome
  | ok outcome =>
    exact ⟨outcome, rfl, ((run_ok_iff Dictionary.asRead_chained hprepared (by decide)
      (by decide +kernel) (fun e he ref href => .inl (Dictionary.addresses_chained e he ref href))
      hkeeps).2 outcome hrun).1⟩

end DesignTokens
