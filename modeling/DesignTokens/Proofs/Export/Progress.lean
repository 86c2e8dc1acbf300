import DesignTokens.Progress
import DesignTokens.Proofs.Dictionary.Tokens

namespace DesignTokens

/-- The names of the tokens, in declaration order. -/
def Dictionary.names (d : Dictionary) : List String := d.tokens.map fun e => dottedName e.1

theorem Dictionary.names_eq_map_fst (d : Dictionary) :
    d.names = (d.tokens.map Prod.fst).map dottedName := by
  simp [names, Function.comp_def]

@[simp] theorem Dictionary.names_mapTokens (f : List String → Token → Token) (d : Dictionary) :
    (d.mapTokens f).names = d.names := by
  simp [names, Function.comp_def]

theorem Dictionary.mem_names {d : Dictionary} {e : List String × Token} (he : e ∈ d.tokens) :
    dottedName e.1 ∈ d.names :=
  List.mem_map_of_mem (f := fun e => dottedName e.1) he

theorem Dictionary.eq_of_mem_tokens {d : Dictionary} (h : d.names.Nodup)
    {e other : List String × Token} (he : e ∈ d.tokens) (hother : other ∈ d.tokens)
    (heq : dottedName e.1 = dottedName other.1) : e = other :=
  List.inj_on_of_nodup_map h he hother heq

theorem Dictionary.dottedName_mem_names {d : Dictionary} {path : List String} {t : Token}
    (ht : d.tokenAt? path = some t) : dottedName path ∈ d.names :=
  mem_names (mem_tokens_of_tokenAt? ht)

namespace Progress

theorem mem_addOnce {names : List String} {name other : String} :
    other ∈ addOnce names name ↔ other ∈ names ∨ other = name := by
  rw [addOnce]
  split
  · next h =>
    rw [List.contains_iff_mem] at h
    exact ⟨.inl, fun hor => hor.elim id fun heq => heq ▸ h⟩
  · simp

@[simp] theorem isSettled_start (name : String) : start.isSettled name = false := rfl

theorem isSettled_settle {p : Progress} {name other : String} :
    (p.settle name).isSettled other = true ↔ p.isSettled other = true ∨ other = name := by
  simp only [isSettled, settle, List.contains_iff_mem]
  exact mem_addOnce

theorem isSettled_visit {p : Progress} {name other : String} {t : Token} :
    (p.visit name t).isSettled other = true ↔
      p.isSettled other = true ∨ other = name ∧ t.hasReference = false := by
  rw [visit]
  split
  · next h =>
    refine ⟨.inl, fun hor => hor.elim id ?_⟩
    rintro ⟨rfl, _⟩
    exact h
  · split
    · next href => simp [putOff, isSettled, href]
    · next href =>
      rw [isSettled_settle]
      simp [href]

def visitAll (p : Progress) (ts : List (List String × Token)) : Progress :=
  ts.foldl (fun p e => p.visit (dottedName e.1) e.2) p

@[simp] theorem visitAll_nil (p : Progress) : p.visitAll [] = p := rfl

@[simp] theorem visitAll_cons (p : Progress) (e : List String × Token)
    (ts : List (List String × Token)) :
    p.visitAll (e :: ts) = (p.visit (dottedName e.1) e.2).visitAll ts := rfl

theorem visitAll_append (p : Progress) (ts us : List (List String × Token)) :
    p.visitAll (ts ++ us) = (p.visitAll ts).visitAll us := List.foldl_append

theorem isSettled_visitAll {p : Progress} {ts : List (List String × Token)} {name : String} :
    (p.visitAll ts).isSettled name = true ↔
      p.isSettled name = true ∨ ∃ e ∈ ts, dottedName e.1 = name ∧ e.2.hasReference = false := by
  induction ts generalizing p with
  | nil => simp
  | cons e ts ih =>
    rw [visitAll_cons, ih, isSettled_visit, or_assoc, List.exists_mem_cons_iff]
    simp only [eq_comm]

theorem isSettled_visitAll_of_not_mem {p : Progress} {ts : List (List String × Token)}
    {name : String} (h : name ∉ ts.map fun e => dottedName e.1) :
    (p.visitAll ts).isSettled name = p.isSettled name := by
  rw [Bool.eq_iff_iff, isSettled_visitAll]
  refine ⟨fun hor => hor.elim id ?_, .inl⟩
  rintro ⟨e, he, rfl, _⟩
  exact absurd (List.mem_map_of_mem he) h

def PutsOffRestOf (p : Progress) (names : List String) : Prop :=
  p.deferred = names.filter fun name => !p.isSettled name

theorem start_putsOffRestOf_nil : start.PutsOffRestOf [] := rfl

theorem PutsOffRestOf.mem_deferred {p : Progress} {names : List String}
    (h : p.PutsOffRestOf names) {name : String} :
    name ∈ p.deferred ↔ name ∈ names ∧ p.isSettled name = false := by
  rw [h, List.mem_filter, Bool.not_eq_true']

theorem PutsOffRestOf.keep {p : Progress} {names : List String} (h : p.PutsOffRestOf names)
    {name : String} (hsettled : p.isSettled name = true) :
    p.PutsOffRestOf (addOnce names name) := by
  rw [PutsOffRestOf, addOnce]
  split
  · exact h
  · rw [List.filter_append, ← h]
    simp [hsettled]

theorem PutsOffRestOf.putOff {p : Progress} {names : List String} (h : p.PutsOffRestOf names)
    {name : String} (hsettled : p.isSettled name = false) :
    (p.putOff name).PutsOffRestOf (addOnce names name) := by
  have hmem : name ∈ p.deferred ↔ name ∈ names := by simp [h.mem_deferred, hsettled]
  have hsame : (p.putOff name).isSettled = p.isSettled := rfl
  rw [PutsOffRestOf, hsame]
  simp only [Progress.putOff, addOnce, List.contains_iff_mem, hmem]
  split
  · exact h
  · rw [List.filter_append, ← h]
    simp [hsettled]

theorem PutsOffRestOf.settle {p : Progress} {names : List String} (h : p.PutsOffRestOf names)
    (name : String) : (p.settle name).PutsOffRestOf (addOnce names name) := by
  have hsettle : ∀ other, (p.settle name).isSettled other =
      (p.isSettled other || decide (other = name)) := by
    intro other
    rw [Bool.eq_iff_iff, isSettled_settle]
    simp
  have hdeferred : (p.settle name).deferred =
      names.filter fun other => !(p.settle name).isSettled other := by
    have hfilter : (p.settle name).deferred = p.deferred.filter (· ≠ name) := rfl
    rw [hfilter, h, List.filter_filter]
    refine List.filter_congr fun other _ => ?_
    rw [hsettle, Bool.not_or, Bool.and_comm]
    simp
  rw [PutsOffRestOf, addOnce]
  split
  · exact hdeferred
  · rw [List.filter_append, ← hdeferred]
    simp [hsettle]

theorem PutsOffRestOf.visit {p : Progress} {names : List String} (h : p.PutsOffRestOf names)
    (name : String) (t : Token) : (p.visit name t).PutsOffRestOf (addOnce names name) := by
  rw [Progress.visit]
  split
  · next hsettled => exact h.keep hsettled
  · next hsettled =>
    split
    · exact h.putOff (by simpa using hsettled)
    · exact h.settle name

theorem PutsOffRestOf.visitAll {p : Progress} {names : List String} (h : p.PutsOffRestOf names)
    (ts : List (List String × Token)) :
    (p.visitAll ts).PutsOffRestOf ((ts.map fun e => dottedName e.1).foldl addOnce names) := by
  induction ts generalizing p names with
  | nil => exact h
  | cons e ts ih => exact ih (h.visit (dottedName e.1) e.2)

theorem foldl_addOnce_of_nodup {old new : List String} (h : (old ++ new).Nodup) :
    new.foldl addOnce old = old ++ new := by
  induction new generalizing old with
  | nil => simp
  | cons name rest ih =>
    have hnew : name ∉ old := fun hmem =>
      (List.nodup_append.mp h).2.2 name hmem name (by simp) rfl
    rw [List.foldl_cons, addOnce, if_neg (by simpa using hnew), ih (by simpa using h)]
    simp

theorem foldl_addOnce_of_subset {old new : List String} (h : ∀ name ∈ new, name ∈ old) :
    new.foldl addOnce old = old := by
  induction new with
  | nil => rfl
  | cons name rest ih =>
    rw [List.forall_mem_cons] at h
    rw [List.foldl_cons, addOnce, if_pos (by simpa using h.1), ih h.2]

theorem putsOffRestOf_visitAll_start {ts : List (List String × Token)}
    (h : (ts.map fun e => dottedName e.1).Nodup) :
    (start.visitAll ts).PutsOffRestOf (ts.map fun e => dottedName e.1) := by
  have hvisit := start_putsOffRestOf_nil.visitAll ts
  rwa [foldl_addOnce_of_nodup (by simpa using h), List.nil_append] at hvisit

theorem PutsOffRestOf.visitAll_same {p : Progress} {ts : List (List String × Token)}
    (h : p.PutsOffRestOf (ts.map fun e => dottedName e.1)) :
    (p.visitAll ts).PutsOffRestOf (ts.map fun e => dottedName e.1) := by
  have hvisit := h.visitAll ts
  rwa [foldl_addOnce_of_subset fun _ hmem => hmem] at hvisit

end Progress

end DesignTokens
