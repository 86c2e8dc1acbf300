import DesignTokens.Proofs.Json.NumberText

namespace DesignTokens

namespace Json

mutual

def hasObject : Json → Bool
  | .arr items => anyHasObject items
  | .obj _ => true
  | _ => false

def anyHasObject : List Json → Bool
  | [] => false
  | item :: rest => item.hasObject || anyHasObject rest

end

theorem openBrace_not_mem_escapeChar {c : Char} (h : c ≠ openBrace) :
    openBrace ∉ escapeChar c := by
  have hdigits : ∀ n < 16, openBrace ≠ Nat.digitChar n := by decide
  rw [escapeChar.eq_def]
  split
  case h_8 =>
    split
    · next hcontrol =>
      have hfirst := hdigits (c.toNat / 16) (by omega)
      have hsecond := hdigits (c.toNat % 16) (by omega)
      have hescape : openBrace ∉ ['\\', 'u', '0', '0'] := by decide
      simp only [List.mem_cons, List.not_mem_nil, or_false, not_or] at hescape ⊢
      exact ⟨hescape.1, hescape.2.1, hescape.2.2.1, hescape.2.2.2, hfirst, hsecond⟩
    · simpa using h.symm
  all_goals decide

theorem openBrace_not_mem_quoted {s : String} (h : openBrace ∉ s.toList) :
    openBrace ∉ quoted s := by
  have hquote : openBrace ≠ '"' := by decide
  simp only [quoted, List.cons_append, List.mem_cons, List.mem_append, List.mem_flatMap,
    List.not_mem_nil, or_false, hquote, false_or, not_exists, not_and]
  intro c hc
  exact openBrace_not_mem_escapeChar fun heq => h (heq ▸ hc)

mutual

theorem openBrace_not_mem_compactChars : ∀ v : Json, v.hasReference = false →
    v.hasObject = false → openBrace ∉ v.compactChars
  | .null, _, _ => by decide
  | .bool b, _, _ => by cases b <;> decide
  | .num n, _, _ => n.openBrace_not_mem_text
  | .str s, href, _ => openBrace_not_mem_quoted (by simpa [hasReference] using href)
  | .arr items, href, hobject => by
    have hitems := openBrace_not_mem_compactItems items href hobject
    have hopen : openBrace ≠ '[' := by decide
    have hclose : openBrace ≠ ']' := by decide
    simp [compactChars, hopen, hclose, hitems]

theorem openBrace_not_mem_compactItems : ∀ items : List Json, anyHasReference items = false →
    anyHasObject items = false → openBrace ∉ compactItems items
  | [], _, _ => by simp [compactItems]
  | [item], href, hobject => by
    rw [anyHasReference, Bool.or_eq_false_iff] at href
    rw [anyHasObject, Bool.or_eq_false_iff] at hobject
    exact openBrace_not_mem_compactChars item href.1 hobject.1
  | item :: next :: rest, href, hobject => by
    rw [anyHasReference, Bool.or_eq_false_iff] at href
    rw [anyHasObject, Bool.or_eq_false_iff] at hobject
    have hitem := openBrace_not_mem_compactChars item href.1 hobject.1
    have hrest := openBrace_not_mem_compactItems (next :: rest) href.2 hobject.2
    have hcomma : openBrace ≠ ',' := by decide
    simp [compactItems, hitem, hcomma, hrest]

end

end Json

end DesignTokens
