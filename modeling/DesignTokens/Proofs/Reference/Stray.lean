import DesignTokens.Proofs.Json.Braces
import DesignTokens.Proofs.Reference.Graph
import DesignTokens.Proofs.Reference.Sound

/-! Placeholders that filling makes.  Where the text of a value stands for a placeholder, the string
is not looked at again; read afresh, it may have placeholders that were not there.  Each of them
starts at a brace of a plain piece: one that the text of an object brings along, or one of the
string's own that stands in front of a placeholder and that nothing has closed. -/

namespace DesignTokens

theorem Json.openBrace_not_mem_spliceText_of_hasObject (v : Json) (href : v.hasReference = false)
    (hobject : v.hasObject = false) : openBrace ∉ v.spliceText.toList := by
  cases v with
  | str s => simpa [spliceText, hasReference] using href
  | _ => simpa [spliceText, compact] using openBrace_not_mem_compactChars _ href hobject

namespace Piece

/-- The characters since an opening brace that no brace has come after, backwards, once a text has
been read. -/
def leftOpen : Option (List Char) → List Char → Option (List Char)
  | state, [] => state
  | none, c :: rest => if c = openBrace then leftOpen (some []) rest else leftOpen none rest
  | some pending, c :: rest =>
    if c = openBrace then leftOpen (some []) rest
    else if c = closeBrace then leftOpen none rest
    else leftOpen (some (c :: pending)) rest

def caught? : Option (List Char) → List Char → Option String
  | none, _ => none
  | some _, [] => none
  | some pending, c :: rest =>
    if c = openBrace then none
    else if c = closeBrace then
      if pending.isEmpty then none else some (target pending.reverse)
    else caught? (some (c :: pending)) rest

def strays : List Piece → List String
  | [] => []
  | .plain text :: rest =>
    (ofText text).filterMap target? ++
      ((caught? (leftOpen none text) (sourceAll rest)).toList ++ strays rest)
  | .hole _ :: rest => strays rest

def leavesOpen : List Piece → Bool
  | [] => false
  | .plain text :: rest => (!rest.isEmpty && (leftOpen none text).isSome) || leavesOpen rest
  | .hole _ :: rest => leavesOpen rest

theorem filterMap_target?_scan_append (state : Option (List Char)) (xs ys : List Char) :
    (scan state (xs ++ ys)).filterMap target? =
      (scan state xs).filterMap target? ++ (scan (leftOpen state xs) ys).filterMap target? := by
  fun_induction scan state xs with
  | case1 => rfl
  | case2 pending => simp [leftOpen]
  | case3 rest ih => simpa [scan, leftOpen] using ih
  | case4 c rest h ih => simpa [scan, leftOpen, h] using ih
  | case5 pending rest ih => simpa [scan, leftOpen] using ih
  | case6 pending rest hp hc ih => simpa [scan, leftOpen, hp, hc] using ih
  | case7 pending rest hc hp ih => simpa [scan, leftOpen, hp, hc] using ih
  | case8 pending c rest ho hc ih => simpa [scan, leftOpen, ho, hc] using ih

theorem filterMap_target?_scan (state : Option (List Char)) (cs : List Char) :
    (scan state cs).filterMap target? =
      (caught? state cs).toList ++ (ofText cs).filterMap target? := by
  fun_induction caught? state cs with
  | case1 => simp [ofText]
  | case2 pending => simp [ofText, scan]
  | case3 pending rest => simp [ofText, scan]
  | case4 pending rest hc hp => simp [ofText, scan, hp, hc]
  | case5 pending rest hc hp => simp [ofText, scan, hp, hc]
  | case6 pending c rest ho hc ih => simpa [ofText, scan, ho, hc] using ih

theorem perm_ofText_sourceAll {ps : List Piece}
    (h : ∀ inner, .hole inner ∈ ps → (hole inner).Proper) :
    ((ofText (sourceAll ps)).filterMap target?).Perm (ps.filterMap target? ++ strays ps) := by
  induction ps with
  | nil => rfl
  | cons p ps ih =>
    have hrest := ih fun inner hin => h inner (List.mem_cons_of_mem p hin)
    cases p with
    | plain text =>
      rw [sourceAll_cons, source, ofText, filterMap_target?_scan_append, ← ofText,
        filterMap_target?_scan, filterMap_target?_plain, strays]
      simp only [List.perm_iff_count, List.count_append] at hrest ⊢
      intro ref
      have hcount := hrest ref
      omega
    | hole inner =>
      rw [sourceAll_cons, source, List.append_assoc, List.cons_append, ofText, scan, if_pos rfl]
      rw [List.singleton_append, scan_placeholder (h inner List.mem_cons_self)]
      exact hrest.cons (target inner)

/-- Scanning leaves no placeholder in a plain piece, nor one that starts in it. -/
theorem strays_ofText (cs : List Char) : strays (ofText cs) = [] := by
  -- the pieces cover the text itself, which has no more placeholders than they have
  have hproper : ∀ inner, .hole inner ∈ ofText cs → (hole inner).Proper := fun _ =>
    proper_of_hole_mem
  have hperm := (perm_ofText_sourceAll hproper).length_eq
  rw [sourceAll_ofText, List.length_append] at hperm
  exact List.eq_nil_of_length_eq_zero (by omega)

theorem mem_strays_of_plain_mem {ps : List Piece} {text : List Char} {ref : String}
    (h : .plain text ∈ ps) (href : ref ∈ (ofText text).filterMap target?) : ref ∈ strays ps := by
  induction ps with
  | nil => cases h
  | cons p ps ih =>
    cases p with
    | plain own =>
      simp only [strays, List.mem_append]
      rcases List.mem_cons.mp h with heq | h
      · cases heq
        exact .inl href
      · exact .inr (.inr (ih h))
    | hole inner => exact ih (by simpa using h)

theorem filterMap_target?_of_plain_mem {cs text : List Char} (h : .plain text ∈ ofText cs) :
    (ofText text).filterMap target? = [] := by
  rw [List.eq_nil_iff_forall_not_mem]
  intro ref href
  have hin := mem_strays_of_plain_mem h href
  rw [strays_ofText] at hin
  cases hin

theorem leftOpen_of_not_mem {cs : List Char} (h : openBrace ∉ cs) : leftOpen none cs = none := by
  induction cs with
  | nil => rfl
  | cons c cs ih =>
    rw [List.mem_cons, not_or] at h
    rw [leftOpen, if_neg (Ne.symm h.1)]
    exact ih h.2

@[simp] theorem caught?_none (cs : List Char) : caught? none cs = none := by
  rw [caught?]

@[simp] theorem caught?_nil (state : Option (List Char)) : caught? state [] = none := by
  cases state <;> rfl

end Piece

namespace Reference

variable {replace : Replacement}

theorem strays_map_filled {ps : List Piece}
    (hown : ∀ text, .plain text ∈ ps → (Piece.ofText text).filterMap Piece.target? = [])
    (hopen : Piece.leavesOpen ps = false)
    (hfill : ∀ inner, .hole inner ∈ ps → ∀ w, (replace (Piece.target inner)).1 = some w →
      openBrace ∉ w.spliceText.toList) : Piece.strays (ps.map (filled replace)) = [] := by
  induction ps with
  | nil => rfl
  | cons p ps ih =>
    cases p with
    | plain text =>
      rw [Piece.leavesOpen, Bool.or_eq_false_iff] at hopen
      have hrest := ih (fun text h => hown text (List.mem_cons_of_mem _ h)) hopen.2
        fun inner h => hfill inner (List.mem_cons_of_mem _ h)
      have hcaught : Piece.caught? (Piece.leftOpen none text)
          (Piece.sourceAll (ps.map (filled replace))) = none := by
        cases ps with
        | nil => exact Piece.caught?_nil _
        | cons next ps =>
          obtain hshut : Piece.leftOpen none text = none := by simpa using hopen.1
          rw [hshut, Piece.caught?_none]
      rw [List.map_cons, filled, Piece.strays, hown text List.mem_cons_self, hcaught, hrest]
      rfl
    | hole inner =>
      have hrest := ih (fun text h => hown text (List.mem_cons_of_mem _ h)) hopen
        fun inner h => hfill inner (List.mem_cons_of_mem _ h)
      rw [List.map_cons, filled]
      split
      · next w hw =>
        have hnone := hfill inner List.mem_cons_self w hw
        rw [Piece.strays, Piece.leftOpen_of_not_mem hnone, Piece.ofText_of_not_mem hnone, hrest]
        simp
      · exact hrest

/-- The paths of the placeholders that filling a text makes. -/
def made (replace : Replacement) (text : String) : List String :=
  match Piece.ofText text.toList with
  | [.hole _] => []
  | ps => Piece.strays (ps.map (filled replace))

theorem made_of_ne {text : String} (hmany : ∀ inner, Piece.ofText text.toList ≠ [.hole inner]) :
    made replace text = Piece.strays ((Piece.ofText text.toList).map (filled replace)) := by
  rw [made]
  split
  · next inner hps => exact absurd hps (hmany inner)
  · rfl

theorem proper_of_hole_mem_filled {cs inner : List Char}
    (h : .hole inner ∈ (Piece.ofText cs).map (filled replace)) : (Piece.hole inner).Proper := by
  obtain ⟨p, hp, hpiece⟩ := List.mem_map.mp h
  cases p with
  | plain own => cases hpiece
  | hole own =>
    rw [filled] at hpiece
    split at hpiece
    · cases hpiece
    · exact hpiece ▸ Piece.proper_of_hole_mem hp

theorem perm_references_fillText {text : String}
    (h : ∀ ref ∈ referencedPaths text, ∀ w, (replace ref).1 = some w → w.hasReference = false) :
    (fillText replace text).1.references.Perm
      ((referencedPaths text).filter (fun ref => (replace ref).1.isNone) ++ made replace text) := by
  rcases fillText_cases replace text with ⟨inner, hps, hfill⟩ | ⟨hmany, hfill⟩
  · have hpaths : referencedPaths text = [Piece.target inner] := by
      rw [referencedPaths, hps]
      rfl
    rw [hfill, made, hps, hpaths, List.append_nil]
    cases hvalue : (replace (Piece.target inner)).1 with
    | none => simp [Json.references, hpaths, hvalue]
    | some w =>
      have hnone : w.references = [] := Json.references_eq_nil
        (h _ (hpaths ▸ List.mem_singleton_self _) w hvalue)
      simp [hnone, hvalue]
  · have hproper : ∀ inner, .hole inner ∈ (Piece.ofText text.toList).map (filled replace) →
        (Piece.hole inner).Proper := fun _ => proper_of_hole_mem_filled
    have hfound := Piece.perm_ofText_sourceAll hproper
    rw [filterMap_target?_filled] at hfound
    rw [hfill, made_of_ne hmany, fillPieces_fst]
    simpa [Json.references, referencedPaths] using hfound

/-- Whether no brace can close another one when a text is filled: it is one placeholder and nothing
else, or it leaves no brace open in front of a placeholder, and no object comes in. -/
def isSecure (replace : Replacement) (text : String) : Bool :=
  match Piece.ofText text.toList with
  | [.hole _] => true
  | ps => !Piece.leavesOpen ps &&
    (referencedPaths text).all fun ref => (replace ref).1.all fun w => !w.hasObject

theorem made_eq_nil {text : String} (h : isSecure replace text = true)
    (hfill : ∀ ref ∈ referencedPaths text, ∀ w, (replace ref).1 = some w →
      w.hasReference = false) : made replace text = [] := by
  rw [isSecure] at h
  rw [made]
  split
  · rfl
  · next hmany =>
    split at h
    · next inner hps => exact absurd hps (hmany inner)
    · rw [Bool.and_eq_true, Bool.not_eq_true', List.all_eq_true] at h
      refine strays_map_filled (fun own hown => Piece.filterMap_target?_of_plain_mem hown) h.1
        fun inner hin w hw => ?_
      have href := mem_referencedPaths.mpr ⟨inner, hin, rfl⟩
      have hobject : w.hasObject = false := by simpa [hw] using h.2 _ href
      exact w.openBrace_not_mem_spliceText_of_hasObject (hfill _ href w hw) hobject

end Reference

namespace Reference

variable {replace : Replacement}

theorem perm_references_fill (v : Json)
    (h : ∀ ref ∈ v.references, ∀ w, (replace ref).1 = some w → w.hasReference = false) :
    (fill replace v).1.references.Perm
      (v.references.filter (fun ref => (replace ref).1.isNone) ++
        v.texts.flatMap (made replace)) := by
  rw [references_fill_fst, Json.references_eq_flatMap, List.filter_flatMap]
  refine .trans (List.Perm.flatMap_left _ fun s hs => ?_) (List.flatMap_append_perm _ _ _).symm
  exact perm_references_fillText fun ref href => h ref (Json.mem_references.mpr ⟨s, hs, href⟩)

theorem hasReference_of_follow {d : Dictionary} {ignored stack target : List String} {fuel : Nat}
    {context ref : String} {w : Json} (haddr : d.Addresses ref target)
    (h : (follow d ignored fuel context stack ref).1 = some w) : w.hasReference = false := by
  obtain ⟨t, ht⟩ := haddr.1
  have hfound := haddr.lookup ht
  have houtcome := follow_outcome d ignored fuel context stack ref
  generalize follow d ignored fuel context stack ref = result at houtcome h
  cases houtcome with
  | value _ hlookup hplain =>
    obtain ⟨rfl, rfl⟩ : _ = t.value ∧ _ = some (dottedName target) := by
      simpa [hfound] using hlookup.symm
    obtain rfl : t.value = w := by simpa using h
    simpa using hplain
  | through =>
    split at h
    · cases h
    · next hclear =>
      obtain rfl := Option.some.inj h
      simpa using hclear
  | _ => cases h

end Reference

namespace Dictionary

/-- What the placeholders in the token at a path are replaced by. -/
def replacement (d : Dictionary) (ignored path : List String) : Reference.Replacement :=
  Reference.follow d ignored d.tokens.length (dottedName path) [dottedName path]

variable {d : Dictionary} {path : List String} {t : Token}

/-- Where all placeholders stand for whole values of tokens, those of a resolved value are the ones
that are left in place and the ones that stray braces make.  If no string leaves a brace open in
front of a placeholder, and no object comes into a longer string, there are none of the latter:
each placeholder was there before. -/
theorem references_fillReferences (ignored : List String) (ht : d.tokenAt? path = some t)
    (haddressed : ∀ ref ∈ t.value.references, ∃ target, d.Addresses ref target) :
    ∃ u, (d.fillReferences ignored).1.tokenAt? path = some u ∧
      u.value.references.Perm
        (t.value.references.filter (fun ref => (d.replacement ignored path ref).1.isNone) ++
          t.value.texts.flatMap (Reference.made (d.replacement ignored path))) ∧
      ((∀ text ∈ t.value.texts, Reference.isSecure (d.replacement ignored path) text = true) →
        t.value.texts.flatMap (Reference.made (d.replacement ignored path)) = [] ∧
        ∀ ref ∈ u.value.references, ref ∈ t.value.references) := by
  have hfill : ∀ ref ∈ t.value.references, ∀ w, (d.replacement ignored path ref).1 = some w →
      w.hasReference = false := fun ref href w hw => by
    obtain ⟨target, haddr⟩ := haddressed ref href
    exact Reference.hasReference_of_follow haddr hw
  have hperm := Reference.perm_references_fill t.value hfill
  refine ⟨{ t with value := (Reference.fillToken d ignored path t.value).1 }, ?_, ?_,
    fun hsecure => ?_⟩
  · rw [fillReferences, tokenAt?_mapTokens, ht]
    rfl
  · rw [Reference.fillToken_eq_fill]
    exact hperm
  · have hnone : t.value.texts.flatMap (Reference.made (d.replacement ignored path)) = [] := by
      rw [List.flatMap_eq_nil_iff]
      intro text htext
      refine Reference.made_eq_nil (hsecure text htext) fun ref href => hfill ref ?_
      rw [Json.references_eq_flatMap]
      exact List.mem_flatMap.mpr ⟨text, htext, href⟩
    refine ⟨hnone, fun ref href => ?_⟩
    rw [Reference.fillToken_eq_fill] at href
    rw [hnone, List.append_nil] at hperm
    exact List.mem_of_mem_filter (hperm.mem_iff.mp href)

def braced : Dictionary :=
  [("word", .token (.new (.str "late"))),
  ("box", .token (.new (.obj [("late", .num (.int 1))]))),
  ("nested", .token (.new (.str "\x7b\x7bword\x7d\x7d"))),
  ("boxed", .token (.new (.str "in \x7bbox\x7d"))),
  ("secure", .token (.new (.arr [.str "\x7bbox\x7d",
    .str "\x7b\x7d\x7bword\x7d \x7bnested\x7d\x7d",
    .obj [("\x7bword\x7d", .str "\x7bword\x7d\x7b")]])))]

theorem braced_addresses : ∀ e ∈ braced.tokens, ∀ ref ∈ e.2.value.references,
    ∃ target, braced.Addresses ref target := by
  have hall : ∀ e ∈ braced.tokens, ∀ ref ∈ e.2.value.references,
      (braced.tokenAt? (pathSegments ref)).isSome = true := by decide +kernel
  intro e he ref href
  exact ⟨_, Option.isSome_iff_exists.mp (hall e he ref href), .inl rfl⟩

/-- What is filled in is read as a placeholder together with what stands around it. -/
theorem braced_makes_references : ¬ ∀ path t u, braced.tokenAt? path = some t →
    (∀ ref ∈ t.value.references, ∃ target, braced.Addresses ref target) →
      (braced.fillReferences []).1.tokenAt? path = some u →
        ∀ ref ∈ u.value.references, ref ∈ t.value.references := by
  intro h
  have ht : braced.tokenAt? ["nested"] = some (.new (.str "\x7b\x7bword\x7d\x7d")) := rfl
  have hu : (braced.fillReferences []).1.tokenAt? ["nested"] =
      some (.new (.str "\x7blate\x7d")) := by decide +kernel
  have hin := h _ _ _ ht (braced_addresses _ (mem_tokens_of_tokenAt? ht)) hu "late"
    (by decide +kernel)
  revert hin
  decide +kernel

theorem braced_references :
    (∃ u, (braced.fillReferences []).1.tokenAt? ["boxed"] = some u ∧
      u.value.references.Perm ["\"late\":1"]) ∧
    ∃ u, (braced.fillReferences ["nested.value"]).1.tokenAt? ["secure"] = some u ∧
      u.value.references.Perm ["nested"] ∧
      ∀ ref ∈ u.value.references, ref ∈ ["box", "word", "nested", "word"] := by
  have hboxed : braced.tokenAt? ["boxed"] = some (.new (.str "in \x7bbox\x7d")) := rfl
  obtain ⟨u, hu, hperm, _⟩ := references_fillReferences [] hboxed
    (braced_addresses _ (mem_tokens_of_tokenAt? hboxed))
  refine ⟨⟨u, hu, hperm.trans (.of_eq (by decide +kernel))⟩, ?_⟩
  have hsecure : braced.tokenAt? ["secure"] = some (.new (.arr [.str "\x7bbox\x7d",
    .str "\x7b\x7d\x7bword\x7d \x7bnested\x7d\x7d",
    .obj [("\x7bword\x7d", .str "\x7bword\x7d\x7b")]])) := rfl
  obtain ⟨w, hw, hkept, hclear⟩ := references_fillReferences ["nested.value"] hsecure
    (braced_addresses _ (mem_tokens_of_tokenAt? hsecure))
  refine ⟨w, hw, hkept.trans (.of_eq (by decide +kernel)), fun ref href => ?_⟩
  have hin := (hclear (by decide +kernel)).2 ref href
  have hrefs : (Json.arr [.str "\x7bbox\x7d", .str "\x7b\x7d\x7bword\x7d \x7bnested\x7d\x7d",
    .obj [("\x7bword\x7d", .str "\x7bword\x7d\x7b")]]).references =
      ["box", "word", "nested", "word"] := by decide +kernel
  rwa [← hrefs]

end Dictionary

end DesignTokens
