import DesignTokens.Proofs.Dictionary.AsRead
import Mathlib.Data.List.Perm.Basic

namespace DesignTokens

theorem Json.eq_str_of_asString? {v : Json} {text : String} (h : v.asString? = some text) :
    v = .str text := by
  cases v <;> simp_all [Json.asString?]

theorem Json.eq_obj_of_asObject? {v : Json} {entries : Entries Json}
    (h : v.asObject? = some entries) : v = .obj entries := by
  cases v <;> simp_all [Json.asObject?]

theorem Json.eq_ofStrings_of_asStrings? {v : Json} {texts : List String}
    (h : v.asStrings? = some texts) : v = .ofStrings texts := by
  cases v with
  | arr items =>
    rw [Json.asStrings?] at h
    rw [Json.ofStrings]
    induction items generalizing texts with
    | nil =>
      cases h
      rfl
    | cons item rest ih =>
      rw [List.mapM_cons, Option.bind_eq_bind, Option.bind_eq_some_iff] at h
      obtain ⟨text, hitem, hrest⟩ := h
      obtain ⟨others, hothers, heq⟩ := Option.bind_eq_some_iff.mp hrest
      cases heq
      have htail := ih hothers
      rw [Json.arr.injEq] at htail
      rw [Json.eq_str_of_asString? hitem, htail, List.map_cons]
  | _ => cases h

namespace Token

variable {α : Type} {entries : Entries Json} {key other : String} {shape : Json → Option α}
  {value : Json} {t : Token}

def misfit (entries : Entries Json) (key : String) (shape : Json → Option α) : Entries Json :=
  (Entries.entryAt entries key).filter fun e => (shape e.2).isNone

theorem lift_fst (entries : Entries Json) (key : String) (shape : Json → Option α) :
    (lift entries key shape).1 = (Entries.get? entries key).bind shape := by
  rw [lift]
  cases Entries.get? entries key with
  | none => rfl
  | some value => cases hshape : shape value <;> simp [hshape]

theorem lift_snd (entries : Entries Json) (key : String) (shape : Json → Option α) :
    (lift entries key shape).2 = Entries.erase entries key ++ misfit entries key shape := by
  have hnew : key ∉ Entries.keys (Entries.erase entries key) := by
    rw [← Entries.get?_eq_none_iff, Entries.get?_erase, if_pos rfl]
  rw [lift, misfit, Entries.entryAt]
  cases hget : Entries.get? entries key with
  | none => simp [Entries.erase_eq_self (Entries.get?_eq_none_iff.mp hget)]
  | some value => cases hshape : shape value <;> simp [hshape, Entries.insert_eq_append hnew]

theorem key_of_mem_misfit {e : String × Json} (h : e ∈ misfit entries key shape) : e.1 = key := by
  have hat := List.mem_of_mem_filter h
  rw [Entries.entryAt, Option.mem_toList, Option.map_eq_some_iff] at hat
  obtain ⟨value, _, rfl⟩ := hat
  rfl

theorem keys_misfit (h : other ≠ key) : other ∉ Entries.keys (misfit entries key shape) := by
  intro hmem
  obtain ⟨e, he, rfl⟩ := List.mem_map.mp hmem
  exact h (key_of_mem_misfit he)

theorem get?_lift (h : other ≠ key) :
    Entries.get? (lift entries key shape).2 other = Entries.get? entries other := by
  rw [lift_snd, Entries.get?_append, Entries.get?_erase, if_neg h,
    Entries.get?_eq_none_iff.mpr (keys_misfit h), Option.or_none]

theorem misfit_lift {β : Type} {form : Json → Option β} (h : other ≠ key) :
    misfit (lift entries key shape).2 other form = misfit entries other form := by
  rw [misfit, misfit, Entries.entryAt, Entries.entryAt, get?_lift h]

def namesPart (key : String) : Bool := key = "name" || key = "attributes" || key = "path"

/-- The declared entries under other keys than those of parts. -/
def others (entries : Entries Json) : Entries Json := entries.filter fun e => !namesPart e.1

def misfits (entries : Entries Json) : Entries Json :=
  misfit entries "name" Json.asString? ++ misfit entries "attributes" Json.asObject? ++
    misfit entries "path" Json.asStrings?

theorem others_eq_erase (entries : Entries Json) : others entries =
    Entries.erase (Entries.erase (Entries.erase entries "name") "attributes") "path" := by
  simp only [others, Entries.erase, List.filter_filter, namesPart]
  refine List.filter_congr fun e _ => ?_
  by_cases hname : e.1 = "name" <;> by_cases hattributes : e.1 = "attributes" <;>
    by_cases hpath : e.1 = "path" <;> simp_all

theorem ofParts_eq (value : Json) (entries : Entries Json) : ofParts value entries =
    { value
      name := (Entries.get? entries "name").bind Json.asString?
      path := ((Entries.get? entries "path").bind Json.asStrings?).getD []
      attributes := ((Entries.get? entries "attributes").bind Json.asObject?).getD []
      fields := others entries ++ misfits entries } := by
  simp only [ofParts, lift_fst]
  rw [get?_lift (by decide), get?_lift (by decide), get?_lift (by decide)]
  congr 1
  rw [lift_snd, misfit_lift (by decide), misfit_lift (by decide), lift_snd, misfit_lift (by decide),
    lift_snd, Entries.erase_append, Entries.erase_append, Entries.erase_append, others_eq_erase,
    Entries.erase_eq_self (keys_misfit (by decide)), Entries.erase_eq_self (keys_misfit (by decide)),
    Entries.erase_eq_self (keys_misfit (by decide)), misfits]
  simp only [List.append_assoc]

/-- What is written for a token besides its value. -/
def declared (t : Token) : Entries Json :=
  t.fields ++ t.nameEntry ++ t.attributesEntry ++ t.pathEntry

def isEmptyPart (e : String × Json) : Bool := e = ("attributes", .obj []) || e = ("path", .arr [])

theorem isEmptyPart_of_asObject? {v : Json} (h : v.asObject? = none) :
    isEmptyPart ("attributes", v) = false := by
  simp only [isEmptyPart, Prod.mk.injEq, Bool.or_eq_false_iff, decide_eq_false_iff_not]
  refine ⟨?_, by simp⟩
  rintro ⟨_, rfl⟩
  cases h

theorem isEmptyPart_of_asStrings? {v : Json} (h : v.asStrings? = none) :
    isEmptyPart ("path", v) = false := by
  simp only [isEmptyPart, Prod.mk.injEq, Bool.or_eq_false_iff, decide_eq_false_iff_not]
  refine ⟨by simp, ?_⟩
  rintro ⟨_, rfl⟩
  cases h

theorem misfit_congr {m : Entries Json} (hget : Entries.get? m key =
      (Entries.get? entries key).filter fun v => !isEmptyPart (key, v))
    (hkeep : ∀ v, shape v = none → isEmptyPart (key, v) = false) :
    misfit m key shape = misfit entries key shape := by
  rw [misfit, misfit, Entries.entryAt, Entries.entryAt, hget]
  cases Entries.get? entries key with
  | none => rfl
  | some v =>
    cases hshape : shape v with
    | none => rw [Option.filter_some, hkeep v hshape, Bool.not_false, if_pos rfl]
    | some part => cases hsays : isEmptyPart (key, v) <;> simp [Option.filter_some, hshape, hsays]

theorem getD_bind_filter {found : Option Json} {default : α}
    (h : ∀ v, isEmptyPart (key, v) = true → shape v = some default) :
    ((found.filter fun v => !isEmptyPart (key, v)).bind shape).getD default =
      (found.bind shape).getD default := by
  cases found with
  | none => rfl
  | some v => cases hsays : isEmptyPart (key, v) <;> simp [Option.filter_some, hsays, h v]

theorem misfit_append {write : α → Json} (hread : ∀ v part, shape v = some part → v = write part)
    (hkeep : ∀ v, shape v = none → isEmptyPart (key, v) = false) :
    misfit entries key shape ++ (((Entries.get? entries key).bind shape).toList.map
        fun part => (key, write part)).filter (fun e => !isEmptyPart e) =
      (Entries.entryAt entries key).filter fun e => !isEmptyPart e := by
  rw [misfit, Entries.entryAt]
  cases hget : Entries.get? entries key with
  | none => rfl
  | some value =>
    cases hshape : shape value with
    | none => simp [hshape, hkeep value hshape]
    | some part => simp [hshape, ← hread value part hshape]

theorem nameEntry_eq (t : Token) : t.nameEntry =
    (t.name.toList.map fun name => ("name", .str name)).filter fun e => !isEmptyPart e := by
  rw [nameEntry]
  cases t.name <;> simp [isEmptyPart]

theorem attributesEntry_eq {part : Option (Entries Json)} (h : t.attributes = part.getD []) :
    t.attributesEntry = (part.toList.map fun attributes => ("attributes", .obj attributes)).filter
      fun e => !isEmptyPart e := by
  rw [attributesEntry, h]
  obtain _ | _ | _ := part <;> simp [isEmptyPart]

theorem pathEntry_eq {part : Option (List String)} (h : t.path = part.getD []) :
    t.pathEntry = (part.toList.map fun path => ("path", .ofStrings path)).filter
      fun e => !isEmptyPart e := by
  rw [pathEntry, h]
  obtain _ | _ | _ := part <;> simp [isEmptyPart, Json.ofStrings]

theorem perm_others (h : Entries.Distinct entries) :
    (others entries ++ (Entries.entryAt entries "name" ++ Entries.entryAt entries "attributes" ++
      Entries.entryAt entries "path")).Perm entries := by
  have hat : ∀ {m : Entries Json} {key other : String}, other ≠ key →
      Entries.entryAt (Entries.erase m key) other = Entries.entryAt m other := by
    intro m key other hne
    rw [Entries.entryAt, Entries.get?_erase, if_neg hne, Entries.entryAt]
  have hname := Entries.perm_erase_append h "name"
  have hattributes := Entries.perm_erase_append (h.erase "name") "attributes"
  have hpath := Entries.perm_erase_append ((h.erase "name").erase "attributes") "path"
  rw [hat (by decide)] at hattributes
  rw [hat (by decide), hat (by decide), ← others_eq_erase] at hpath
  refine .trans ?_ (((hpath.append_right _).trans hattributes).append_right _ |>.trans hname)
  rw [List.perm_iff_count]
  intro e
  simp only [List.count_append]
  omega

theorem perm_declared (value : Json) (h : Entries.Distinct entries) :
    (ofParts value entries).declared.Perm (entries.filter fun e => !isEmptyPart e) := by
  have hkeep : (others entries).filter (fun e => !isEmptyPart e) = others entries := by
    refine List.filter_eq_self.mpr fun e he => ?_
    have hpart := (List.mem_filter.mp he).2
    simp only [namesPart, Bool.not_eq_true', Bool.or_eq_false_iff, decide_eq_false_iff_not] at hpart
    simp [isEmptyPart, Prod.ext_iff, hpart]
  have hname : misfit entries "name" Json.asString? ++ (ofParts value entries).nameEntry =
      (Entries.entryAt entries "name").filter fun e => !isEmptyPart e := by
    rw [nameEntry_eq, ofParts_eq]
    exact misfit_append (fun _ _ => Json.eq_str_of_asString?) fun _ _ => by simp [isEmptyPart]
  have hattributes : misfit entries "attributes" Json.asObject? ++
      (ofParts value entries).attributesEntry =
      (Entries.entryAt entries "attributes").filter fun e => !isEmptyPart e := by
    rw [attributesEntry_eq (by rw [ofParts_eq])]
    exact misfit_append (fun _ _ => Json.eq_obj_of_asObject?) fun _ => isEmptyPart_of_asObject?
  have hpath : misfit entries "path" Json.asStrings? ++ (ofParts value entries).pathEntry =
      (Entries.entryAt entries "path").filter fun e => !isEmptyPart e := by
    rw [pathEntry_eq (by rw [ofParts_eq])]
    exact misfit_append (fun _ _ => Json.eq_ofStrings_of_asStrings?) fun _ =>
      isEmptyPart_of_asStrings?
  have hparts := (perm_others h).filter fun e => !isEmptyPart e
  rw [List.filter_append, List.filter_append, List.filter_append, hkeep, ← hname, ← hattributes,
    ← hpath] at hparts
  have hfields : (ofParts value entries).fields = others entries ++ misfits entries := by
    rw [ofParts_eq]
  refine .trans ?_ hparts
  rw [declared, hfields, misfits, List.perm_iff_count]
  intro e
  simp only [List.count_append]
  omega

theorem others_declared (value : Json) (entries : Entries Json) :
    others (ofParts value entries).declared = others entries := by
  have hnil : ∀ {m : Entries Json}, (∀ e ∈ m, namesPart e.1 = true) → others m = [] :=
    fun h => List.filter_eq_nil_iff.mpr fun e he => by simp [h e he]
  have hmisfits : others (misfits entries) = [] := hnil fun e he => by
    simp only [misfits, List.mem_append] at he
    rcases he with (he | he) | he <;> rw [key_of_mem_misfit he] <;> rfl
  have hname : others (ofParts value entries).nameEntry = [] := hnil fun e he => by
    rw [nameEntry] at he
    split at he <;> simp_all [namesPart]
  have hattributes : others (ofParts value entries).attributesEntry = [] := hnil fun e he => by
    rw [attributesEntry] at he
    split at he <;> simp_all [namesPart]
  have hpath : others (ofParts value entries).pathEntry = [] := hnil fun e he => by
    rw [pathEntry] at he
    split at he <;> simp_all [namesPart]
  rw [others] at hmisfits hname hattributes hpath
  rw [declared, others, List.filter_append, List.filter_append, List.filter_append, hname,
    hattributes, hpath, ofParts_eq, List.filter_append, hmisfits, others, List.filter_filter]
  simp

theorem ofParts_declared (value : Json) (h : Entries.Distinct entries) :
    ofParts value (ofParts value entries).declared = ofParts value entries := by
  have hperm := perm_declared value h
  have hget : ∀ key, Entries.get? (ofParts value entries).declared key =
      (Entries.get? entries key).filter fun v => !isEmptyPart (key, v) := fun key =>
    (((h.filter _).perm hperm.symm).get?_eq_of_perm hperm key).trans (h.get?_filter _ key)
  have hname : ∀ v, isEmptyPart ("name", v) = false := fun v => by simp [isEmptyPart]
  have hattributes : ∀ v, isEmptyPart ("attributes", v) = true → v.asObject? = some [] :=
    fun v hv => by
      obtain rfl : v = .obj [] := by simpa [isEmptyPart] using hv
      rfl
  have hpath : ∀ v, isEmptyPart ("path", v) = true → v.asStrings? = some [] := fun v hv => by
    obtain rfl : v = .arr [] := by simpa [isEmptyPart] using hv
    rfl
  rw [ofParts_eq, others_declared, misfits, misfit_congr (hget _) fun v _ => hname v,
    misfit_congr (hget _) fun _ => isEmptyPart_of_asObject?,
    misfit_congr (hget _) fun _ => isEmptyPart_of_asStrings?, ← misfits, hget, hget, hget,
    getD_bind_filter hattributes, getD_bind_filter hpath, ofParts_eq value entries]
  cases Entries.get? entries "name" <;> simp [Option.filter_some, hname]

theorem valueKey_not_mem_declared (value : Json) (h : Entries.Distinct entries)
    (hvalue : valueKey ∉ Entries.keys entries) :
    valueKey ∉ Entries.keys (ofParts value entries).declared := by
  intro hmem
  have hkept := ((perm_declared value h).map Prod.fst).mem_iff.mp hmem
  exact hvalue ((List.filter_sublist.map Prod.fst).subset hkept)

theorem toEntries_ofParts (value : Json) (h : Entries.Distinct entries)
    (hvalue : valueKey ∉ Entries.keys entries) :
    (ofParts value entries).toEntries = (valueKey, value) :: (ofParts value entries).declared := by
  refine Entries.merge_eq_append (List.nodup_cons.mpr ⟨?_, ?_⟩)
  · exact valueKey_not_mem_declared value h hvalue
  · exact (h.filter _).perm (perm_declared value h).symm

theorem ofEntries?_toEntries (h : Entries.Distinct entries) (ht : ofEntries? entries = some t) :
    ofEntries? t.toEntries = some t := by
  obtain ⟨value, _, rfl⟩ := Option.map_eq_some_iff.mp ht
  have hnew : valueKey ∉ Entries.keys (Entries.erase entries valueKey) := by
    rw [← Entries.get?_eq_none_iff, Entries.get?_erase, if_pos rfl]
  have hdeclared := valueKey_not_mem_declared value (h.erase valueKey) hnew
  rw [toEntries_ofParts value (h.erase valueKey) hnew, ofEntries?, Entries.get?, if_pos rfl,
    Option.map_some, Entries.erase, List.filter_cons_of_neg (by simp), ← Entries.erase,
    Entries.erase_eq_self hdeclared, ofParts_declared value (h.erase valueKey)]

theorem perm_toEntries (h : Entries.Distinct entries) (ht : ofEntries? entries = some t) :
    t.toEntries.Perm (entries.filter fun e => !isEmptyPart e) := by
  obtain ⟨value, hget, rfl⟩ := Option.map_eq_some_iff.mp ht
  have hnew : valueKey ∉ Entries.keys (Entries.erase entries valueKey) := by
    rw [← Entries.get?_eq_none_iff, Entries.get?_erase, if_pos rfl]
  have hwhole := (Entries.perm_erase_append h valueKey).filter fun e => !isEmptyPart e
  rw [toEntries_ofParts value (h.erase valueKey) hnew]
  refine .trans ?_ hwhole
  rw [List.filter_append, Entries.entryAt, hget]
  refine .trans ((perm_declared value (h.erase valueKey)).cons _) ?_
  exact List.perm_append_singleton _ _ |>.symm

end Token

end DesignTokens
