import DesignTokens.Proofs.Reference.Fill
import DesignTokens.Proofs.Text.Slice

namespace DesignTokens

/-- A placeholder in a text: the bytes from the opening brace to behind the closing one, and what
stands between the braces. -/
structure Span where
  start : Nat
  stop : Nat
  inner : List Char
  deriving DecidableEq, Repr

namespace Span

def ofHole (offset : Nat) (inner : List Char) : Span :=
  ⟨offset, offset + String.utf8Len (Piece.hole inner).source, inner⟩

/-- The grammar of placeholders: the part of a text between two byte offsets that is an opening
brace, characters other than braces, one at least, and a closing brace. -/
def StandsIn (s : Span) (cs : List Char) : Prop :=
  ∃ before after, cs = before ++ (openBrace :: s.inner ++ [closeBrace]) ++ after ∧
    s.inner ≠ [] ∧ (∀ c ∈ s.inner, c ≠ openBrace ∧ c ≠ closeBrace) ∧
    s.start = String.utf8Len before ∧
    s.stop = String.utf8Len (before ++ (openBrace :: s.inner ++ [closeBrace]))

end Span

namespace Piece

def spansFrom : Nat → List Piece → List Span
  | _, [] => []
  | offset, .plain text :: ps => spansFrom (offset + String.utf8Len text) ps
  | offset, .hole inner :: ps =>
    .ofHole offset inner :: spansFrom (offset + String.utf8Len (hole inner).source) ps

/-- The placeholders that scanning a text finds. -/
def spans (cs : List Char) : List Span := spansFrom 0 (ofText cs)

@[simp] theorem spansFrom_consPlain (offset : Nat) (c : Char) (ps : List Piece) :
    spansFrom offset (consPlain c ps) = spansFrom (offset + c.utf8Size) ps := by
  cases ps with
  | nil => rfl
  | cons p ps =>
    cases p with
    | plain text =>
      rw [consPlain, spansFrom, spansFrom, String.utf8Len_cons, Nat.add_comm _ c.utf8Size,
        Nat.add_assoc]
    | hole inner =>
      change spansFrom (offset + String.utf8Len [c]) _ = _
      rw [String.utf8Len_cons, String.utf8Len_nil, Nat.zero_add]

@[simp] theorem spansFrom_prependPlain (offset : Nat) (cs : List Char) (ps : List Piece) :
    spansFrom offset (prependPlain cs ps) = spansFrom (offset + String.utf8Len cs) ps := by
  induction cs generalizing offset with
  | nil => rfl
  | cons c cs ih =>
    rw [prependPlain_cons, spansFrom_consPlain, ih, String.utf8Len_cons, Nat.add_assoc,
      Nat.add_comm c.utf8Size]

theorem map_target_spansFrom (offset : Nat) (ps : List Piece) :
    (spansFrom offset ps).map (fun s => target s.inner) = ps.filterMap target? := by
  induction ps generalizing offset with
  | nil => rfl
  | cons p ps ih =>
    cases p with
    | plain text => rw [spansFrom, ih, filterMap_target?_plain]
    | hole inner => rw [spansFrom, List.map_cons, ih, filterMap_target?_hole, Span.ofHole]

theorem le_start_of_mem_spansFrom {offset : Nat} {ps : List Piece} {s : Span}
    (h : s ∈ spansFrom offset ps) : offset ≤ s.start := by
  induction ps generalizing offset with
  | nil => cases h
  | cons p ps ih =>
    cases p with
    | plain text => exact (Nat.le_add_right ..).trans (ih h)
    | hole inner =>
      rcases List.mem_cons.mp h with rfl | h
      · exact Nat.le_refl _
      · exact (Nat.le_add_right ..).trans (ih h)

theorem pairwise_spansFrom (offset : Nat) (ps : List Piece) :
    (spansFrom offset ps).Pairwise fun a b => a.stop ≤ b.start := by
  induction ps generalizing offset with
  | nil => exact .nil
  | cons p ps ih =>
    cases p with
    | plain text => exact ih _
    | hole inner => exact .cons (fun s hs => le_start_of_mem_spansFrom hs) (ih _)

theorem spansFrom_foldr_join (offset : Nat) (ps qs : List Piece) :
    spansFrom offset (ps.foldr join qs) =
      spansFrom offset ps ++ spansFrom (offset + String.utf8Len (sourceAll ps)) qs := by
  induction ps generalizing offset with
  | nil => rfl
  | cons p ps ih =>
    cases p with
    | plain text =>
      rw [List.foldr_cons, join, spansFrom_prependPlain, ih, spansFrom, sourceAll_cons, source,
        String.utf8Len_append, Nat.add_assoc]
    | hole inner =>
      rw [List.foldr_cons, join, spansFrom, ih, spansFrom, sourceAll_cons, String.utf8Len_append,
        Nat.add_assoc, List.cons_append]

@[simp] theorem foldr_join_consPlain (c : Char) (ps qs : List Piece) :
    (consPlain c ps).foldr join qs = consPlain c (ps.foldr join qs) := by
  cases ps with
  | nil => rfl
  | cons p ps => cases p <;> rfl

@[simp] theorem foldr_join_prependPlain (cs : List Char) (ps qs : List Piece) :
    (prependPlain cs ps).foldr join qs = prependPlain cs (ps.foldr join qs) := by
  induction cs with
  | nil => rfl
  | cons c cs ih => rw [prependPlain_cons, foldr_join_consPlain, ih, prependPlain_cons]

theorem scan_none_cons (c : Char) (rest : List Char) : scan none (c :: rest) =
    if c = openBrace then scan (some []) rest else consPlain c (scan none rest) := by
  rw [scan]

theorem scan_some_cons (pending : List Char) (c : Char) (rest : List Char) :
    scan (some pending) (c :: rest) =
      if c = openBrace then prependPlain (openBrace :: pending.reverse) (scan (some []) rest)
      else if c = closeBrace then
        if pending.isEmpty then prependPlain [openBrace, closeBrace] (scan none rest)
        else .hole pending.reverse :: scan none rest
      else scan (some (c :: pending)) rest := by
  rw [scan]

theorem scan_append_openBrace (state : Option (List Char)) (xs ys : List Char) :
    scan state (xs ++ openBrace :: ys) = (scan state xs).foldr join (scan (some []) ys) := by
  fun_induction scan state xs with
  | case1 => simp [scan]
  | case2 pending => simp [scan]
  | case3 rest ih => simpa [scan] using ih
  | case4 c rest h ih => simp [scan, h, ih]
  | case5 pending rest ih => simp [scan, ih]
  | case6 pending rest hp hc ih => simp [scan, hp, hc, ih]
  | case7 pending rest hc hp ih => simp [scan, hp, hc, ih, join]
  | case8 pending c rest ho hc ih => simp [scan, ho, hc, ih]

theorem ofText_append_hole {inner : List Char} (h : (hole inner).Proper)
    (before after : List Char) :
    ofText (before ++ (hole inner).source ++ after) =
      (ofText before).foldr join (.hole inner :: ofText after) := by
  have htext : before ++ (hole inner).source ++ after =
      before ++ openBrace :: (inner ++ closeBrace :: after) := by
    simp [source]
  rw [htext, ofText, scan_append_openBrace, scan_placeholder h]
  rfl

theorem ofText_source {inner : List Char} (h : (hole inner).Proper) :
    ofText (hole inner).source = [.hole inner] := by
  have hall := ofText_append_hole h [] []
  rwa [List.nil_append, List.append_nil] at hall

theorem spans_append_hole {inner : List Char} (h : (hole inner).Proper)
    (before after : List Char) :
    spans (before ++ (hole inner).source ++ after) =
      spans before ++ .ofHole (String.utf8Len before) inner ::
        spansFrom (String.utf8Len (before ++ (hole inner).source)) (ofText after) := by
  rw [spans, ofText_append_hole h, spansFrom_foldr_join, sourceAll_ofText, Nat.zero_add, spansFrom,
    String.utf8Len_append]
  rfl

theorem exists_of_mem_spansFrom {offset : Nat} {ps : List Piece} {s : Span}
    (h : s ∈ spansFrom offset ps) : ∃ before after, ps = before ++ .hole s.inner :: after ∧
      s = .ofHole (offset + String.utf8Len (sourceAll before)) s.inner := by
  induction ps generalizing offset with
  | nil => cases h
  | cons p ps ih =>
    cases p with
    | plain text =>
      obtain ⟨before, after, rfl, hs⟩ := ih h
      refine ⟨.plain text :: before, after, rfl, ?_⟩
      rw [sourceAll_cons, String.utf8Len_append, ← Nat.add_assoc]
      exact hs
    | hole inner =>
      rcases List.mem_cons.mp h with rfl | h
      · exact ⟨[], ps, rfl, rfl⟩
      · obtain ⟨before, after, rfl, hs⟩ := ih h
        refine ⟨.hole inner :: before, after, rfl, ?_⟩
        rw [sourceAll_cons, String.utf8Len_append, ← Nat.add_assoc]
        exact hs

theorem proper_hole_iff {inner : List Char} : (hole inner).Proper ↔
    inner ≠ [] ∧ ∀ c ∈ inner, c ≠ openBrace ∧ c ≠ closeBrace := by
  simp only [Proper, isBrace, Bool.or_eq_false_iff, beq_eq_false_iff_ne]

/-- Scanning finds what the grammar allows, and nothing else. -/
theorem mem_spans_iff {cs : List Char} {s : Span} : s ∈ spans cs ↔ s.StandsIn cs := by
  constructor
  · intro h
    obtain ⟨before, after, hps, hs⟩ := exists_of_mem_spansFrom h
    have hmem : hole s.inner ∈ ofText cs := by simp [hps]
    have hproper : (hole s.inner).Proper := proper_of_hole_mem hmem
    have hcs : cs = sourceAll before ++ (hole s.inner).source ++ sourceAll after := by
      rw [← sourceAll_ofText cs, hps]
      simp [sourceAll]
    obtain ⟨hne, hinner⟩ := proper_hole_iff.mp hproper
    rw [Nat.zero_add] at hs
    refine ⟨sourceAll before, sourceAll after, hcs, hne, hinner, congrArg Span.start hs, ?_⟩
    rw [String.utf8Len_append]
    exact congrArg Span.stop hs
  · rintro ⟨before, after, rfl, hne, hinner, hstart, hstop⟩
    have hs : s = .ofHole (String.utf8Len before) s.inner := by
      obtain ⟨start, stop, inner⟩ := s
      rw [String.utf8Len_append] at hstop
      exact congrArg₂ (Span.mk · · inner) hstart hstop
    have hspans := spans_append_hole (proper_hole_iff.mpr ⟨hne, hinner⟩) before after
    rw [source] at hspans
    rw [hspans, ← hs]
    simp

theorem ofText_of_whole {cs : List Char} {s : Span} (h : s ∈ spans cs) (hstart : s.start = 0)
    (hstop : s.stop = String.utf8Len cs) : ofText cs = [.hole s.inner] := by
  obtain ⟨before, after, rfl, hne, hinner, hbefore, hwhole⟩ := mem_spans_iff.mp h
  obtain rfl : before = [] := String.utf8Len_eq_zero.mp (hbefore ▸ hstart)
  obtain rfl : after = [] := by
    rw [hwhole, String.utf8Len_append _ after] at hstop
    exact String.utf8Len_eq_zero.mp (Nat.left_eq_add.mp hstop)
  rw [List.nil_append, List.append_nil]
  exact ofText_source (proper_hole_iff.mpr ⟨hne, hinner⟩)

/-- What matching the pattern of a placeholder again and again gives: where there is a match it is
taken and the search goes on behind it, and otherwise the search goes on with the next character. -/
inductive LeftmostFrom : Nat → List Char → List Span → Prop
  | done (offset : Nat) : LeftmostFrom offset [] []
  | found {offset : Nat} {inner rest : List Char} {ss : List Span} : (hole inner).Proper →
      LeftmostFrom (offset + String.utf8Len (hole inner).source) rest ss →
      LeftmostFrom offset ((hole inner).source ++ rest) (.ofHole offset inner :: ss)
  | skipped {offset : Nat} {c : Char} {rest : List Char} {ss : List Span} :
      (∀ inner, (hole inner).Proper → ¬ (hole inner).source <+: c :: rest) →
      LeftmostFrom (offset + c.utf8Size) rest ss → LeftmostFrom offset (c :: rest) ss

theorem spansFrom_scan_pending {rest : List Char} (offset : Nat) (pending : List Char)
    (h : ∀ inner, (∀ c ∈ inner, isBrace c = false) → pending.reverse ++ inner ≠ [] →
      ¬ inner ++ [closeBrace] <+: rest) :
    spansFrom offset (scan (some pending) rest) =
      spansFrom (offset + String.utf8Len (openBrace :: pending.reverse)) (scan none rest) := by
  induction rest generalizing pending with
  | nil =>
    change spansFrom offset (prependPlain (openBrace :: pending.reverse) []) = _
    rw [spansFrom_prependPlain]
    rfl
  | cons c rest ih =>
    by_cases ho : c = openBrace
    · rw [scan_some_cons, if_pos ho, spansFrom_prependPlain, scan_none_cons, if_pos ho]
    by_cases hc : c = closeBrace
    · subst hc
      obtain rfl : pending = [] := by
        by_contra hne
        exact h [] nofun (by simpa using hne) (by simp)
      rw [scan_some_cons, if_neg ho, if_pos rfl, List.isEmpty_nil, if_pos rfl,
        spansFrom_prependPlain, scan_none_cons, if_neg ho, spansFrom_consPlain]
      rfl
    · have hbrace : isBrace c = false := by simp [isBrace, ho, hc]
      rw [scan_some_cons, if_neg ho, if_neg hc, ih (c :: pending), scan_none_cons, if_neg ho,
        spansFrom_consPlain]
      · simp [Nat.add_comm, Nat.add_left_comm]
      · intro inner hinner hne hstarts
        refine h (c :: inner) (List.forall_mem_cons.mpr ⟨hbrace, hinner⟩) (by simp) ?_
        exact List.cons_prefix_cons.mpr ⟨rfl, hstarts⟩

theorem spansFrom_ofText_cons {c : Char} {rest : List Char}
    (h : ∀ inner, (hole inner).Proper → ¬ (hole inner).source <+: c :: rest) (offset : Nat) :
    spansFrom offset (ofText (c :: rest)) = spansFrom (offset + c.utf8Size) (ofText rest) := by
  rw [ofText, scan]
  split
  · next ho =>
    subst ho
    rw [spansFrom_scan_pending offset []]
    · simp [ofText]
    · intro inner hinner hne hstarts
      exact h inner ⟨by simpa using hne, hinner⟩ (List.cons_prefix_cons.mpr ⟨rfl, hstarts⟩)
  · exact spansFrom_consPlain offset c _

theorem LeftmostFrom.eq_spansFrom {offset : Nat} {cs : List Char} {ss : List Span}
    (h : LeftmostFrom offset cs ss) : ss = spansFrom offset (ofText cs) := by
  induction h with
  | done offset => rfl
  | found hproper _ ih =>
    rw [← List.nil_append ((hole _).source), ofText_append_hole hproper, ih]
    rfl
  | skipped hnone _ ih => rw [spansFrom_ofText_cons hnone, ih]

theorem exists_leftmostFrom (offset : Nat) (cs : List Char) : ∃ ss, LeftmostFrom offset cs ss := by
  induction hlength : cs.length using Nat.strong_induction_on generalizing offset cs with
  | _ n ih =>
    cases cs with
    | nil => exact ⟨[], .done offset⟩
    | cons c rest =>
      by_cases hmatch : ∃ inner, (hole inner).Proper ∧ (hole inner).source <+: c :: rest
      · obtain ⟨inner, hproper, behind, hrest⟩ := hmatch
        have hshort : behind.length < n := by
          rw [← hlength, ← hrest]
          simp [source]
          omega
        obtain ⟨ss, hss⟩ := ih _ hshort (offset + String.utf8Len (hole inner).source) behind rfl
        rw [← hrest]
        exact ⟨_, .found hproper hss⟩
      · obtain ⟨ss, hss⟩ := ih rest.length (by simp [← hlength]) (offset + c.utf8Size) rest rfl
        exact ⟨ss, .skipped (fun inner hproper hstarts => hmatch ⟨inner, hproper, hstarts⟩) hss⟩

/-- Scanning finds what leftmost matching finds. -/
theorem leftmostFrom_iff {cs : List Char} {ss : List Span} :
    LeftmostFrom 0 cs ss ↔ ss = spans cs := by
  refine ⟨LeftmostFrom.eq_spansFrom, ?_⟩
  rintro rfl
  obtain ⟨ss, hss⟩ := exists_leftmostFrom 0 cs
  rw [spans, ← hss.eq_spansFrom]
  exact hss

end Piece

namespace Reference

variable {replace : Replacement}

/-- A text with its placeholders replaced, cut at their offsets.  The text is read up to the offset
`last`; a part between offsets that do not lie between characters ends it. -/
def splice (replace : Replacement) (cs : List Char) :
    (last : Nat) → List Span → Option (Reported (List Char))
  | last, [] => (Text.slice? last (String.utf8Len cs) cs).map fun gap => (gap, [])
  | last, s :: ss => do
    let gap ← Text.slice? last s.start cs
    let own ← Text.slice? s.start s.stop cs
    let rest ← splice replace cs s.stop ss
    let (value, problems) := replace (Piece.target s.inner)
    let filled := (value.map fun v => v.spliceText.toList).getD own
    return (gap ++ (filled ++ rest.1), problems ++ rest.2)

/-- A string with its placeholders replaced.  A placeholder that is the whole string keeps the type
of its value; any others are cut out of the text. -/
def fillSpans (replace : Replacement) (text : String) : Option (Reported Json) :=
  match Piece.spans text.toList with
  | [] => some (.str text, [])
  | [s] =>
    if s.start = 0 ∧ s.stop = text.utf8ByteSize then
      let (value, problems) := replace (Piece.target s.inner)
      some (value.getD (.str text), problems)
    else spliced [s]
  | ss => spliced ss
where
  spliced (ss : List Span) : Option (Reported Json) :=
    (splice replace text.toList 0 ss).map fun (filled, problems) =>
      (.str (String.ofList filled), problems)

/-- Cutting a text at the offsets of its pieces comes to filling these.  Between the offset `last`
and the pieces stands what has been passed over since the last placeholder. -/
theorem splice_spansFrom (read gap : List Char) (ps : List Piece) :
    splice replace (read ++ (gap ++ Piece.sourceAll ps)) (String.utf8Len read)
        (Piece.spansFrom (String.utf8Len (read ++ gap)) ps) =
      some (gap ++ (fillPieces replace ps).1, (fillPieces replace ps).2) := by
  induction ps generalizing read gap with
  | nil =>
    have hgap := Text.slice?_utf8Len read gap []
    rw [Piece.spansFrom, splice, Piece.sourceAll, List.flatMap_nil, ← List.append_assoc,
      List.append_nil]
    rw [← List.append_assoc, List.append_nil] at hgap
    rw [hgap, fillPieces, List.append_nil]
    rfl
  | cons p ps ih =>
    cases p with
    | plain text =>
      have htext : gap ++ Piece.sourceAll (.plain text :: ps) =
          gap ++ text ++ Piece.sourceAll ps := by
        simp [Piece.source]
      rw [htext, Piece.spansFrom, ← String.utf8Len_append, List.append_assoc read, ih, fillPieces,
        List.append_assoc]
    | hole inner =>
      have hgap := Text.slice?_utf8Len read gap ((Piece.hole inner).source ++ Piece.sourceAll ps)
      have hown := Text.slice?_utf8Len (read ++ gap) (Piece.hole inner).source (Piece.sourceAll ps)
      have hrest := ih (read ++ gap ++ (Piece.hole inner).source) []
      have htext : read ++ (gap ++ ((Piece.hole inner).source ++ Piece.sourceAll ps)) =
          read ++ gap ++ ((Piece.hole inner).source ++ Piece.sourceAll ps) := by simp
      have htext' : read ++ (gap ++ ((Piece.hole inner).source ++ Piece.sourceAll ps)) =
          read ++ gap ++ (Piece.hole inner).source ++ ([] ++ Piece.sourceAll ps) := by simp
      rw [← htext] at hown
      rw [← htext', List.append_nil, List.nil_append] at hrest
      rw [Piece.sourceAll_cons, Piece.spansFrom, splice, Span.ofHole, ← String.utf8Len_append, hgap,
        hown, hrest, fillPieces]
      dsimp only
      rcases replace (Piece.target inner) with ⟨value | value, problems⟩ <;> rfl

theorem splice_spans (cs : List Char) :
    splice replace cs 0 (Piece.spans cs) = some (fillPieces replace (Piece.ofText cs)) := by
  have h : splice replace (Piece.sourceAll (Piece.ofText cs)) 0 (Piece.spans cs) =
      some (fillPieces replace (Piece.ofText cs)) := splice_spansFrom [] [] (Piece.ofText cs)
  rwa [Piece.sourceAll_ofText] at h

theorem splice_nil (cs : List Char) : splice replace cs 0 [] = some (cs, []) := by
  have hall := Text.slice?_utf8Len [] cs []
  rw [List.append_nil, List.nil_append, String.utf8Len_nil] at hall
  rw [splice, hall]
  rfl

theorem fillSpans_eq (text : String) : fillSpans replace text = some (fillText replace text) := by
  have hspliced : fillSpans.spliced replace text (Piece.spans text.toList) =
      some (.str (String.ofList (fillPieces replace (Piece.ofText text.toList)).1),
        (fillPieces replace (Piece.ofText text.toList)).2) := by
    rw [fillSpans.spliced, splice_spans]
    rfl
  rcases fillText_cases replace text with ⟨inner, hps, hfill⟩ | ⟨hmany, hfill⟩
  · have hsource : text.toList = (Piece.hole inner).source := by
      rw [← Piece.sourceAll_ofText text.toList, hps]
      simp [Piece.sourceAll]
    have hspans : Piece.spans text.toList = [.ofHole 0 inner] := by
      rw [Piece.spans, hps]
      rfl
    have hwhole : (Span.ofHole 0 inner).start = 0 ∧
        (Span.ofHole 0 inner).stop = text.utf8ByteSize := by
      refine ⟨rfl, ?_⟩
      rw [← String.ofList_toList (s := text), String.utf8ByteSize_ofList, hsource, Span.ofHole,
        Nat.zero_add]
    rw [fillSpans, hspans]
    dsimp only
    rw [if_pos hwhole, hfill]
    rfl
  · rw [hfill, ← hspliced, fillSpans]
    split
    · next hnone =>
      rw [hnone, fillSpans.spliced, splice_nil, Option.map_some]
      dsimp only
      rw [String.ofList_toList]
    · next s hone =>
      rw [if_neg, hone]
      rintro ⟨hstart, hstop⟩
      rw [← String.ofList_toList (s := text), String.utf8ByteSize_ofList] at hstop
      exact hmany s.inner (Piece.ofText_of_whole (hone ▸ List.mem_singleton_self s) hstart hstop)
    · rfl

theorem fillText_of_none {text : String}
    (h : ∀ ref ∈ referencedPaths text, (replace ref).1 = none) :
    (fillText replace text).1 = .str text := by
  have hholes : ∀ inner, .hole inner ∈ Piece.ofText text.toList →
      (replace (Piece.target inner)).1 = none := fun inner hin =>
    h _ (mem_referencedPaths.mpr ⟨inner, hin, rfl⟩)
  rcases fillText_cases replace text with ⟨inner, hps, hfill⟩ | ⟨_, hfill⟩
  · rw [hfill, hholes inner (hps ▸ List.mem_singleton_self _)]
    rfl
  · have hkept : (Piece.ofText text.toList).map (filled replace) = Piece.ofText text.toList := by
      refine (List.map_congr_left fun p hp => ?_).trans (List.map_id _)
      cases p with
      | plain own => rfl
      | hole inner => rw [filled, hholes inner hp, id]
    rw [hfill, fillPieces_fst, hkept, Piece.sourceAll_ofText, String.ofList_toList]

end Reference

/-- The law of placeholders.  The placeholders that scanning a text finds are the parts that the
grammar allows, all of them and nothing else; each ends before the next one starts; leftmost
matching finds the same; their paths are what stands between their braces, without blanks at the
ends.  Filling the text comes to cutting it at their offsets, which always lie between characters,
and if none of them is replaced the text is as it was. -/
theorem placeholders_are_scanned_exactly (text : String) :
    (∀ s, s ∈ Piece.spans text.toList ↔ s.StandsIn text.toList) ∧
    (Piece.spans text.toList).Pairwise (fun a b => a.stop ≤ b.start) ∧
    (∀ ss, Piece.LeftmostFrom 0 text.toList ss ↔ ss = Piece.spans text.toList) ∧
    referencedPaths text =
      (Piece.spans text.toList).map (fun s => String.ofList (Text.trim s.inner)) ∧
    ∀ replace, Reference.fillSpans replace text = some (Reference.fillText replace text) ∧
      ((∀ s ∈ Piece.spans text.toList, (replace (String.ofList (Text.trim s.inner))).1 = none) →
        (Reference.fillText replace text).1 = .str text) := by
  have hpaths : referencedPaths text =
      (Piece.spans text.toList).map (fun s => String.ofList (Text.trim s.inner)) :=
    (Piece.map_target_spansFrom 0 _).symm
  refine ⟨fun s => Piece.mem_spans_iff, Piece.pairwise_spansFrom 0 _,
    fun ss => Piece.leftmostFrom_iff, hpaths, fun replace => ⟨Reference.fillSpans_eq text, ?_⟩⟩
  intro hnone
  apply Reference.fillText_of_none
  rw [hpaths, List.forall_mem_map]
  exact hnone

def entangled : String := "\x7bä\x7b b \x7d\x7d\x7b\x7d\x7b\x7bü.x\x7d\x7b"

theorem entangled_is_scanned :
    (∀ s ∈ [Span.mk 3 8 [' ', 'b', ' '], Span.mk 12 18 ['ü', '.', 'x']],
      s.StandsIn entangled.toList) ∧
    referencedPaths entangled = ["b", "ü.x"] ∧
    (Reference.fillText (fun ref => (none, [.missing "t" ref])) entangled).1 = .str entangled := by
  obtain ⟨hmem, -, -, hpaths, hfill⟩ := placeholders_are_scanned_exactly entangled
  have hspans : Piece.spans entangled.toList =
      [Span.mk 3 8 [' ', 'b', ' '], Span.mk 12 18 ['ü', '.', 'x']] := by decide +kernel
  refine ⟨fun s hs => (hmem s).mp (hspans ▸ hs), ?_, (hfill _).2 fun s _ => rfl⟩
  rw [hpaths, hspans]
  decide

end DesignTokens
