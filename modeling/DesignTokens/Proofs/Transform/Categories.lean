import DesignTokens.Proofs.Binary64.ReadBack
import DesignTokens.Proofs.Reference.Substitution
import DesignTokens.Proofs.Transform.Builtin
import DesignTokens.Proofs.Transform.Groups

namespace DesignTokens

namespace Measure

/-- What a group makes of a value in a category. -/
def inGroup (group : String) (category : Option String) (v : Json) : Json :=
  if category = some "size" then onNumber (fun n => n.text ++ "rem") v
  else if group = "js" then v
  else if category = some "time" then onNumber (fun n => (n.div (.ofInt 1000)).textFixed2 ++ "s") v
  else if category = some "content" then quote v
  else v

variable {group : String} {category : Option String} {v : Json}

theorem inGroup_of_untouched (hsize : category ≠ some "size")
    (h : group = "js" ∨ category ≠ some "time" ∧ category ≠ some "content") :
    inGroup group category v = v := by
  rw [inGroup, if_neg hsize]
  rcases h with hscript | ⟨htime, hcontent⟩
  · rw [if_pos hscript]
  · rw [if_neg htime, if_neg hcontent, ite_self]

theorem inGroup_idem (h : group = "js" ∨ category ≠ some "time" ∧ category ≠ some "content") :
    inGroup group category (inGroup group category v) = inGroup group category v := by
  by_cases hsize : category = some "size"
  · have hunit : EndsNumber "rem".toList := by decide
    simp only [inGroup, if_pos hsize]
    exact onNumber_text_idem hunit v
  · rw [inGroup_of_untouched hsize h, inGroup_of_untouched hsize h]

def Quotes (group : String) (category : Option String) : Prop :=
  group ≠ "js" ∧ category = some "content"

theorem inGroup_of_quotes (h : Quotes group category) : inGroup group category v = quote v := by
  obtain ⟨hscript, rfl⟩ := h
  simp [inGroup, hscript]

theorem inGroup_hasReference (h : ¬ Quotes group category) (hv : v.hasReference = false) :
    (inGroup group category v).hasReference = false := by
  have hkeeps : ∀ f : Binary64 → String, (∀ n, openBrace ∉ (f n).toList) →
      (onNumber f v).hasReference = false := fun f hf =>
    onNumber_keeps (P := fun v => v.hasReference = false)
      (fun s hs => by simpa [Json.hasReference] using hs) hf hv
  have hunit : openBrace ∉ "rem".toList ∧ openBrace ∉ "s".toList := by decide
  rw [inGroup]
  split
  · exact hkeeps _ fun n => openBrace_not_mem_append n.openBrace_not_mem_text hunit.1
  split
  · exact hv
  · next hscript =>
    split
    · exact hkeeps _ fun n =>
        openBrace_not_mem_append (Binary64.openBrace_not_mem_textFixed2 _) hunit.2
    · rw [if_neg fun hcontent => h ⟨hscript, hcontent⟩]
      exact hv

def Quoted (v : Json) : Prop := ∃ rest : String, v = .str ("'" ++ rest)

theorem quoted_quote (v : Json) : Quoted (quote v) := by
  cases v with
  | str s => exact ⟨s ++ "'", by rw [quote, String.append_assoc]⟩
  | _ => exact ⟨_, by simp only [quote, String.append_assoc]; rfl⟩

/-- What a group makes of values without references, and what resolving references makes of that.
Quotes may go around a text with references in it. -/
structure Result (group : String) (category : Option String) (v : Json) : Prop where
  quoted : Quotes group category → Quoted v
  made : ¬ Quotes group category →
    v.hasReference = false ∧ ∃ w, v = inGroup group category w

theorem result_inGroup (group : String) (category : Option String) (hv : v.hasReference = false) :
    Result group category (inGroup group category v) where
  quoted h := by
    rw [inGroup_of_quotes h]
    exact quoted_quote v
  made h := ⟨inGroup_hasReference h hv, v, rfl⟩

theorem Result.fillToken (h : Result group category v) (d : Dictionary) (ignored : List String)
    (path : List String) : Result group category (Reference.fillToken d ignored path v).1 := by
  rw [Reference.fillToken]
  split
  · next hreference =>
    refine ⟨fun hquotes => ?_, fun hnone => ?_⟩
    · obtain ⟨rest, rfl⟩ := h.quoted hquotes
      have hquote : "'".toList ≠ [] ∧ openBrace ∉ "'".toList := by decide
      exact Reference.exists_fill_append hquote.1 hquote.2
    · rw [(h.made hnone).1] at hreference
      cases hreference
  · exact h

theorem Result.inGroup_hasReference (h : Result group category v) (hv : v.hasReference = false) :
    (inGroup group category v).hasReference = false := by
  by_cases hquotes : Quotes group category
  · obtain ⟨rest, rfl⟩ := h.quoted hquotes
    have hquote : openBrace ∉ "'".toList := by decide
    have htext : openBrace ∉ ("'" ++ rest).toList := by simpa [Json.hasReference] using hv
    have hjoined := openBrace_not_mem_append (openBrace_not_mem_append hquote htext) hquote
    rw [inGroup_of_quotes hquotes, quote, Json.hasReference]
    simpa using hjoined
  · exact Measure.inGroup_hasReference hquotes hv

variable {options : Entries Json} {t : Token}

theorem step_numberTransform (name wanted : String) (f : Entries Json → Binary64 → String) :
    (numberTransform name wanted f).step ⟨options, none⟩ .pass false t =
      { t with value := if t.category? = some wanted then onNumber (f options) t.value
                        else t.value } := by
  by_cases hcategory : t.category? = some wanted
  · simp [Transform.step, Transform.runs, Transform.accepts, Transform.perform, numberTransform,
      hcategory]
  · simp [Transform.step, Transform.runs, Transform.accepts, numberTransform, hcategory]

theorem step_contentQuote :
    contentQuote.step ⟨options, none⟩ .pass false t =
      { t with value := if t.category? = some "content" then quote t.value else t.value } := by
  by_cases hcategory : t.category? = some "content"
  · simp [Transform.step, Transform.runs, Transform.accepts, Transform.perform, contentQuote,
      hcategory]
  · simp [Transform.step, Transform.runs, Transform.accepts, contentQuote, hcategory]

theorem foldl_groupValues (group : String) (options : Entries Json) (t : Token) :
    (Platform.groupValues group).foldl
        (fun u transform => transform.step ⟨options, none⟩ .pass false u) t =
      { t with value := inGroup group t.category? t.value } := by
  have hcategory : ∀ v, Token.category? { t with value := v } = t.category? := fun _ => rfl
  rw [Platform.groupValues]
  split
  · next hscript =>
    simp only [List.foldl_cons, List.foldl_nil, sizeRem, step_numberTransform, inGroup, hscript,
      if_true]
  · next hscript =>
    simp only [List.foldl_cons, List.foldl_nil, sizeRem, timeSeconds, step_numberTransform,
      step_contentQuote, hcategory, inGroup, hscript, if_false]
    -- a token has one category, so that one of the three has an effect
    generalize t.category? = category
    by_cases hsize : category = some "size"
    · simp [hsize]
    by_cases htime : category = some "time"
    · simp [htime]
    · simp [hsize, htime]

end Measure

def Platform.ByCategory (platform : Platform) (f : Option String → Json → Json) : Prop :=
  ∀ t, t.hasReference = false →
    (platform.transformInPass t).value = f (platform.transformInPass t).category? t.value

theorem Platform.byCategory_ofGroup (name : String) (options : Entries Json) (styleName : String)
    (style : List (List Char) → List Char) (group : String) :
    (ofGroup name options styleName style (groupValues group)).ByCategory
      (Measure.inGroup group) := by
  intro t ht
  rw [transformInPass_ofGroup, ht, Measure.foldl_groupValues]
  rfl

end DesignTokens
