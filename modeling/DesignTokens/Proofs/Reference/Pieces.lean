import DesignTokens.Reference.Resolution

/-! The pieces of a text.  Scanning loses nothing, finds every placeholder, and can be undone:
pieces with no stray opening brace are found again in the text that they cover, up to the joining of
plain neighbours.  So the text that filling leads to is understood without scanning it again. -/

namespace DesignTokens

namespace Piece

def Proper : Piece → Prop
  | .plain text => openBrace ∉ text
  | .hole inner => inner ≠ [] ∧ ∀ c ∈ inner, isBrace c = false

def sourceAll (ps : List Piece) : List Char := ps.flatMap source

/-- A piece in front of others, joined to a plain neighbour. -/
def join : Piece → List Piece → List Piece
  | .plain text, ps => prependPlain text ps
  | .hole inner, ps => .hole inner :: ps

def joinAll (ps : List Piece) : List Piece := ps.foldr join []

@[simp] theorem prependPlain_cons (c : Char) (cs : List Char) (ps : List Piece) :
    prependPlain (c :: cs) ps = consPlain c (prependPlain cs ps) := rfl

@[simp] theorem sourceAll_cons (p : Piece) (ps : List Piece) :
    sourceAll (p :: ps) = p.source ++ sourceAll ps := rfl

@[simp] theorem sourceAll_consPlain (c : Char) (ps : List Piece) :
    sourceAll (consPlain c ps) = c :: sourceAll ps := by
  cases ps with
  | nil => rfl
  | cons p ps => cases p <;> rfl

@[simp] theorem sourceAll_prependPlain (cs : List Char) (ps : List Piece) :
    sourceAll (prependPlain cs ps) = cs ++ sourceAll ps := by
  induction cs with
  | nil => rfl
  | cons c cs ih => simp [ih]

@[simp] theorem filterMap_target?_plain (text : List Char) (ps : List Piece) :
    (.plain text :: ps).filterMap target? = ps.filterMap target? := rfl

@[simp] theorem filterMap_target?_hole (inner : List Char) (ps : List Piece) :
    (.hole inner :: ps).filterMap target? = target inner :: ps.filterMap target? := rfl

@[simp] theorem filterMap_target?_consPlain (c : Char) (ps : List Piece) :
    (consPlain c ps).filterMap target? = ps.filterMap target? := by
  cases ps with
  | nil => rfl
  | cons p ps => cases p <;> rfl

@[simp] theorem filterMap_target?_prependPlain (cs : List Char) (ps : List Piece) :
    (prependPlain cs ps).filterMap target? = ps.filterMap target? := by
  induction cs with
  | nil => rfl
  | cons c cs ih => simp [ih]

@[simp] theorem hole_mem_consPlain {inner : List Char} {c : Char} {ps : List Piece} :
    .hole inner ∈ consPlain c ps ↔ .hole inner ∈ ps := by
  cases ps with
  | nil => simp [consPlain]
  | cons p ps => cases p <;> simp [consPlain]

@[simp] theorem hole_mem_prependPlain {inner cs : List Char} {ps : List Piece} :
    .hole inner ∈ prependPlain cs ps ↔ .hole inner ∈ ps := by
  induction cs with
  | nil => rfl
  | cons c cs ih => simp [ih]

theorem proper_consPlain {c : Char} (hc : c ≠ openBrace) {ps : List Piece}
    (h : ∀ p ∈ ps, p.Proper) : ∀ p ∈ consPlain c ps, p.Proper := by
  cases ps with
  | nil => simpa [consPlain, Proper] using Ne.symm hc
  | cons p ps =>
    cases p with
    | plain text =>
      simp only [List.forall_mem_cons] at h
      simp only [consPlain, List.forall_mem_cons]
      refine ⟨?_, h.2⟩
      simpa [Proper, Ne.symm hc] using h.1
    | hole inner =>
      simp only [consPlain, List.forall_mem_cons] at h ⊢
      exact ⟨by simpa [Proper] using Ne.symm hc, h⟩

theorem proper_prependPlain {cs : List Char} (hcs : openBrace ∉ cs) {ps : List Piece}
    (h : ∀ p ∈ ps, p.Proper) : ∀ p ∈ prependPlain cs ps, p.Proper := by
  induction cs with
  | nil => exact h
  | cons c cs ih =>
    rw [List.mem_cons, not_or] at hcs
    exact proper_consPlain (Ne.symm hcs.1) (ih hcs.2)

def pendingText : Option (List Char) → List Char
  | none => []
  | some pending => openBrace :: pending.reverse

theorem sourceAll_scan (state : Option (List Char)) (cs : List Char) :
    sourceAll (scan state cs) = pendingText state ++ cs := by
  fun_induction scan state cs with
  | case1 => rfl
  | case2 pending =>
    rw [sourceAll_prependPlain]
    rfl
  | case3 rest ih => simpa [pendingText] using ih
  | case4 c rest h ih => simpa [pendingText] using ih
  | case5 pending rest ih => simpa [pendingText] using ih
  | case6 pending rest hp _ ih =>
    obtain rfl : pending = [] := by simpa using hp
    simpa [pendingText] using ih
  | case7 pending rest h hp ih => simpa [pendingText, source] using ih
  | case8 pending c rest ho hc ih => simpa [pendingText] using ih

theorem sourceAll_ofText (cs : List Char) : sourceAll (ofText cs) = cs := sourceAll_scan none cs

theorem proper_of_hole_mem_scan {inner : List Char} {state : Option (List Char)} {cs : List Char}
    (hstate : ∀ pending ∈ state, ∀ c ∈ pending, isBrace c = false)
    (h : .hole inner ∈ scan state cs) : (hole inner).Proper := by
  fun_induction scan state cs with
  | case1 => simp at h
  | case2 pending => simp at h
  | case3 rest ih => exact ih (by simp) h
  | case4 c rest hc ih => exact ih (by simp) (by simpa using h)
  | case5 pending rest ih => exact ih (by simp) (by simpa using h)
  | case6 pending rest hp _ ih => exact ih (by simp) (by simpa using h)
  | case7 pending rest hp _ ih =>
    rcases List.mem_cons.mp h with heq | h
    · obtain rfl : inner = pending.reverse := by injection heq
      exact ⟨by simpa using hp, by simpa using hstate pending rfl⟩
    · exact ih (by simp) h
  | case8 pending c rest ho hc ih =>
    apply ih _ h
    intro q hq x hx
    obtain rfl : c :: pending = q := by simpa using hq
    rcases List.mem_cons.mp hx with rfl | hx
    · simp [isBrace, ho, hc]
    · exact hstate pending rfl x hx

theorem proper_of_hole_mem {inner cs : List Char} (h : .hole inner ∈ ofText cs) :
    (hole inner).Proper := proper_of_hole_mem_scan (by simp) h

theorem scan_pending {inner : List Char} (hinner : ∀ c ∈ inner, isBrace c = false)
    (pending rest : List Char) :
    scan (some pending) (inner ++ rest) = scan (some (inner.reverse ++ pending)) rest := by
  induction inner generalizing pending with
  | nil => rfl
  | cons c inner ih =>
    have hc := hinner c (by simp)
    simp only [isBrace, Bool.or_eq_false_iff, beq_eq_false_iff_ne] at hc
    rw [List.cons_append, scan, if_neg hc.1, if_neg hc.2,
      ih (fun x hx => hinner x (List.mem_cons_of_mem c hx))]
    simp

theorem scan_placeholder {inner : List Char} (h : (hole inner).Proper) (rest : List Char) :
    scan (some []) (inner ++ closeBrace :: rest) = .hole inner :: scan none rest := by
  have hne : inner.reverse.isEmpty = false := by simpa using h.1
  rw [scan_pending h.2, List.append_nil, scan, if_neg (by decide), if_pos rfl, hne]
  simp

theorem hole_mem_scan {inner : List Char} (h : (hole inner).Proper) (state : Option (List Char))
    (before after : List Char) :
    .hole inner ∈ scan state (before ++ (hole inner).source ++ after) := by
  induction before generalizing state with
  | nil =>
    have hplace := scan_placeholder h after
    cases state with
    | none => simp [source, scan, hplace]
    | some pending => simp [source, scan, hplace]
  | cons c before ih =>
    cases state with
    | none =>
      simp only [List.cons_append, scan]
      split
      · exact ih _
      · simpa using ih none
    | some pending =>
      simp only [List.cons_append, scan]
      split
      · simpa using ih (some [])
      · split
        · split
          · simpa using ih none
          · exact List.mem_cons_of_mem _ (ih none)
        · exact ih _

theorem hole_mem_ofText {inner : List Char} (h : (hole inner).Proper) (before after : List Char) :
    .hole inner ∈ ofText (before ++ (hole inner).source ++ after) :=
  hole_mem_scan h none before after

theorem plain_nil_not_mem_consPlain {c : Char} {ps : List Piece} (h : .plain [] ∉ ps) :
    .plain [] ∉ consPlain c ps := by
  cases ps with
  | nil => simp [consPlain]
  | cons p ps =>
    rw [List.mem_cons, not_or] at h
    cases p with
    | plain text => simpa [consPlain] using h.2
    | hole inner => simpa [consPlain] using h.2

theorem plain_nil_not_mem_prependPlain {cs : List Char} {ps : List Piece} (h : .plain [] ∉ ps) :
    .plain [] ∉ prependPlain cs ps := by
  induction cs with
  | nil => exact h
  | cons c cs ih => exact plain_nil_not_mem_consPlain ih

theorem plain_nil_not_mem_scan (state : Option (List Char)) (cs : List Char) :
    .plain [] ∉ scan state cs := by
  fun_induction scan state cs with
  | case1 => simp
  | case2 pending => exact plain_nil_not_mem_prependPlain (by simp)
  | case3 rest ih => exact ih
  | case4 c rest hc ih => exact plain_nil_not_mem_consPlain ih
  | case5 pending rest ih => exact plain_nil_not_mem_prependPlain ih
  | case6 pending rest hp _ ih => exact plain_nil_not_mem_prependPlain ih
  | case7 pending rest hp _ ih => simpa using ih
  | case8 pending c rest ho hc ih => exact ih

theorem ne_nil_of_plain_mem {text cs : List Char} (h : .plain text ∈ ofText cs) : text ≠ [] := by
  rintro rfl
  exact plain_nil_not_mem_scan none cs h

theorem ofText_append {cs : List Char} (h : openBrace ∉ cs) (rest : List Char) :
    ofText (cs ++ rest) = prependPlain cs (ofText rest) := by
  induction cs with
  | nil => rfl
  | cons c cs ih =>
    rw [List.mem_cons, not_or] at h
    have hrest := ih h.2
    simp only [ofText] at hrest ⊢
    rw [List.cons_append, scan, if_neg (Ne.symm h.1), hrest, prependPlain_cons]

/-- Proper pieces are found again in the text that they cover. -/
theorem ofText_sourceAll {ps : List Piece} (h : ∀ p ∈ ps, p.Proper) :
    ofText (sourceAll ps) = joinAll ps := by
  induction ps with
  | nil => rfl
  | cons p ps ih =>
    rw [List.forall_mem_cons] at h
    rw [sourceAll_cons, joinAll, List.foldr_cons, ← joinAll, ← ih h.2]
    cases p with
    | plain text => exact ofText_append h.1 _
    | hole inner =>
      rw [join, source, List.append_assoc, List.cons_append, ofText, scan, if_pos rfl]
      exact scan_placeholder h.1 _

theorem proper_joinAll {ps : List Piece} (h : ∀ p ∈ ps, p.Proper) : ∀ p ∈ joinAll ps, p.Proper := by
  induction ps with
  | nil => exact h
  | cons p ps ih =>
    rw [List.forall_mem_cons] at h
    rw [joinAll, List.foldr_cons, ← joinAll]
    cases p with
    | plain text => exact proper_prependPlain h.1 (ih h.2)
    | hole inner => exact List.forall_mem_cons.mpr ⟨h.1, ih h.2⟩

@[simp] theorem filterMap_target?_joinAll (ps : List Piece) :
    (joinAll ps).filterMap target? = ps.filterMap target? := by
  induction ps with
  | nil => rfl
  | cons p ps ih =>
    rw [joinAll, List.foldr_cons, ← joinAll]
    cases p with
    | plain text => simp [join, ih]
    | hole inner => simp [join, ih]

theorem exists_plain_mem_consPlain (c : Char) (ps : List Piece) :
    ∃ text, text ≠ [] ∧ .plain text ∈ consPlain c ps := by
  cases ps with
  | nil => exact ⟨[c], by simp, by simp [consPlain]⟩
  | cons p ps =>
    cases p with
    | plain text => exact ⟨c :: text, by simp, by simp [consPlain]⟩
    | hole inner => exact ⟨[c], by simp, by simp [consPlain]⟩

theorem exists_plain_mem_joinAll {ps : List Piece}
    (h : ∃ text, text ≠ [] ∧ .plain text ∈ ps) : ∃ text, text ≠ [] ∧ .plain text ∈ joinAll ps := by
  induction ps with
  | nil => exact h
  | cons p ps ih =>
    rw [joinAll, List.foldr_cons, ← joinAll]
    obtain ⟨text, hne, hmem⟩ := h
    cases p with
    | plain own =>
      cases own with
      | nil =>
        refine ih ⟨text, hne, ?_⟩
        simpa [hne] using hmem
      | cons c own => exact exists_plain_mem_consPlain c _
    | hole inner =>
      obtain ⟨whole, hwhole, hin⟩ := ih ⟨text, hne, by simpa using hmem⟩
      exact ⟨whole, hwhole, List.mem_cons_of_mem _ hin⟩

end Piece

end DesignTokens
