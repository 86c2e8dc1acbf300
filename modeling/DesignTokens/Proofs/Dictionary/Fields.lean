import DesignTokens.Proofs.Dictionary.Parts

namespace DesignTokens

namespace Token

variable {entries : Entries Json} {key : String} {v : Json} {t : Token}

/-- Whether a value can be the part of a token that its key names.  A key that names none of the
lifted parts takes any value. -/
def fits (key : String) (v : Json) : Bool :=
  if key = "name" then v.asString?.isSome
  else if key = "attributes" then v.asObject?.isSome
  else if key = "path" then v.asStrings?.isSome
  else true

theorem keys_misfits (hpart : namesPart key = false) : key ∉ Entries.keys (misfits entries) := by
  simp only [namesPart, Bool.or_eq_false_iff, decide_eq_false_iff_not] at hpart
  obtain ⟨⟨hname, hattributes⟩, hpath⟩ := hpart
  rw [misfits, Entries.keys, List.map_append, List.map_append]
  simp only [List.mem_append, not_or]
  exact ⟨⟨keys_misfit hname, keys_misfit hattributes⟩, keys_misfit hpath⟩

theorem field?_ofParts (hvalue : key ≠ valueKey) (hpart : namesPart key = false) (value : Json)
    (entries : Entries Json) : (ofParts value entries).field? key = Entries.get? entries key := by
  have hothers : Entries.get? (others entries) key = Entries.get? entries key := by
    rw [others, Entries.get?_filter_keys entries (fun key => !namesPart key), hpart]
    rfl
  have hmisfits : Entries.get? (misfits entries) key = none :=
    Entries.get?_eq_none_iff.mpr (keys_misfits hpart)
  simp only [namesPart, Bool.or_eq_false_iff, decide_eq_false_iff_not] at hpart
  obtain ⟨⟨hname, hattributes⟩, hpath⟩ := hpart
  rw [field?, if_neg hvalue, if_neg hname, if_neg hattributes, if_neg hpath, ofParts_eq,
    Entries.get?_append, hothers, hmisfits, Option.or_none]

theorem elim_shape {α : Type} {shape : Json → Option α} {write : α → Json}
    (hread : ∀ part, shape v = some part → v = write part) (default : Option Json) :
    ((shape v).elim default fun part => some (write part)) =
      if (shape v).isSome then some v else default := by
  cases hshape : shape v with
  | none => rfl
  | some part => exact congrArg some (hread part hshape).symm

theorem field?_of_ofEntries? (ht : ofEntries? entries = some t)
    (hget : Entries.get? entries key = some v) :
    t.field? key = if fits key v then some v else (new t.value).field? key := by
  obtain ⟨value, hvalue, rfl⟩ := Option.map_eq_some_iff.mp ht
  by_cases hkey : key = valueKey
  · subst hkey
    obtain rfl : value = v := Option.some.inj (hvalue.symm.trans hget)
    rw [ofParts_eq]
    rfl
  have hrest : Entries.get? (Entries.erase entries valueKey) key = some v := by
    rw [Entries.get?_erase, if_neg hkey, hget]
  cases hpart : namesPart key with
  | false =>
    rw [field?_ofParts hkey hpart, hrest]
    simp only [namesPart, Bool.or_eq_false_iff, decide_eq_false_iff_not] at hpart
    simp [fits, hpart]
  | true =>
    -- each part is read by its own shape
    simp only [namesPart, Bool.or_eq_true, decide_eq_true_eq] at hpart
    obtain (rfl | rfl) | rfl := hpart
    · have hname : (ofParts value (Entries.erase entries valueKey)).field? "name" =
          v.asString?.elim none fun name => some (.str name) := by
        rw [ofParts_eq, hrest, Option.bind_some]
        cases v.asString? <;> rfl
      exact hname.trans (elim_shape (fun _ => Json.eq_str_of_asString?) none)
    · have hattributes : (ofParts value (Entries.erase entries valueKey)).field? "attributes" =
          v.asObject?.elim (some (.obj [])) fun attributes => some (.obj attributes) := by
        rw [ofParts_eq, hrest, Option.bind_some]
        cases v.asObject? <;> rfl
      exact hattributes.trans (elim_shape (fun _ => Json.eq_obj_of_asObject?) _)
    · have hpath : (ofParts value (Entries.erase entries valueKey)).field? "path" =
          v.asStrings?.elim (some (.ofStrings [])) fun path => some (.ofStrings path) := by
        rw [ofParts_eq, hrest, Option.bind_some]
        cases v.asStrings? <;> rfl
      exact hpath.trans (elim_shape (fun _ => Json.eq_ofStrings_of_asStrings?) _)

theorem field?_new_ne (hfits : fits key v = false) (value : Json) :
    (new value).field? key ≠ some v := by
  rw [fits] at hfits
  split at hfits
  · next hname =>
    subst hname
    nofun
  split at hfits
  · next _ hattributes =>
    subst hattributes
    rintro ⟨⟩
    cases hfits
  split at hfits
  · next _ _ hpath =>
    subst hpath
    rintro ⟨⟩
    cases hfits
  · cases hfits

theorem field?_eq_some_iff (ht : ofEntries? entries = some t)
    (hget : Entries.get? entries key = some v) : t.field? key = some v ↔ fits key v = true := by
  rw [field?_of_ofEntries? ht hget]
  cases hfits : fits key v with
  | true => simp
  | false => simpa using field?_new_ne hfits t.value

/-- What an object with a value declares can be looked up in the token that is read from it, by its
key and by references to it, if it fits the key, and only then. -/
theorem declared_is_found_iff (hvalue : valueKey ∈ Entries.keys entries) :
    ∃ t, ofEntries? entries = some t ∧ ∀ key v, Entries.get? entries key = some v →
      (t.field? key = some v ↔ fits key v = true) ∧
      ∀ (d : Dictionary) path, d.tokenAt? path = some t →
        ((d.lookup (path ++ [key])).map Referent.value = some v ↔ fits key v = true) ∧
        (fits key v = true → ∀ more, d.lookup (path ++ key :: more) =
          (v.descend? more).map fun inner =>
            ⟨inner, if key = valueKey then some (dottedName path) else none⟩) := by
  obtain ⟨value, hget⟩ := Entries.exists_get?_iff.mpr hvalue
  have ht : ofEntries? entries = some (ofParts value (Entries.erase entries valueKey)) := by
    rw [ofEntries?, hget, Option.map_some]
  refine ⟨_, ht, fun key v hdeclared => ⟨field?_eq_some_iff ht hdeclared, fun d path hat => ?_⟩⟩
  refine ⟨?_, fun hfits more => ?_⟩
  · rw [Dictionary.lookup_append hat, referent?_cons, ← field?_eq_some_iff ht hdeclared]
    cases Token.field? _ key <;> simp [Json.descend?]
  · rw [Dictionary.lookup_append hat, referent?_cons, (field?_eq_some_iff ht hdeclared).mpr hfits,
      Option.bind_some]

def labelled : Entries Json :=
  [("comment", .obj [("by", .str "me")]), ("name", .num (.int 5)), ("path", .arr [.str "old"]),
    ("value", .arr [.null, .bool true]), ("attributes", .obj [])]

theorem labelled_is_found_but_for_its_name : valueKey ∈ Entries.keys labelled ∧
    ∃ t, ofEntries? labelled = some t ∧ t.field? "path" = some (.arr [.str "old"]) ∧
      t.field? "name" ≠ some (.num (.int 5)) ∧
      Dictionary.lookup [("a", .branch [("b", .token t)])] ["a", "b", "comment", "by"] =
        some ⟨.str "me", none⟩ ∧
      Dictionary.lookup [("a", .branch [("b", .token t)])] ["a", "b", "value", "1"] =
        some ⟨.bool true, some "a.b"⟩ := by
  have hvalue : valueKey ∈ Entries.keys labelled := by decide
  obtain ⟨t, ht, hall⟩ := declared_is_found_iff hvalue
  have hat : Dictionary.tokenAt? [("a", .branch [("b", .token t)])] ["a", "b"] = some t := rfl
  refine ⟨hvalue, t, ht, (hall _ _ rfl).1.mpr rfl, ?_, ?_, ?_⟩
  · rw [ne_eq, (hall _ _ rfl).1]
    decide
  · exact ((hall "comment" _ rfl).2 _ _ hat).2 rfl ["by"]
  · exact ((hall "value" _ rfl).2 _ _ hat).2 rfl ["1"]

/-- A name that is a number is kept, and neither the token nor a reference has it. -/
theorem misnamed_is_not_found : ∃ d t,
    Dictionary.ofJson (.obj [("a", .obj [("value", .num (.int 1)), ("name", .num (.int 5))])]) =
      .ok d ∧ d.tokenAt? ["a"] = some t ∧ Entries.get? t.fields "name" = some (.num (.int 5)) ∧
      t.field? "name" = none ∧ d.lookup ["a", "name"] = none :=
  ⟨_, _, rfl, rfl, rfl, rfl, rfl⟩

end Token

end DesignTokens
