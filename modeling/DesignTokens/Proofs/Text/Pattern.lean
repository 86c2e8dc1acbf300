import Mathlib.Data.List.TakeDrop
import Mathlib.Data.List.TakeWhile

/-! Patterns of characters, and what they find at the start of a text.  A pattern may be able to end
its match at several places; a repetition takes as much as it can and an optional part is taken if it
can be, unless what follows them in the pattern fits only behind a shorter match. -/

namespace DesignTokens.Text

inductive Pattern
  | one (test : Char → Bool)
  | many (test : Char → Bool)
  | maybe (p : Pattern)
  | seq (p q : Pattern)
  | either (p q : Pattern)

namespace Pattern

def behind (taken : List Char) (e : List Char × List Char) : List Char × List Char :=
  (taken ++ e.1, e.2)

def runs (test : Char → Bool) : List Char → List (List Char × List Char)
  | [] => [([], [])]
  | c :: rest => (if test c then (runs test rest).map (behind [c]) else []) ++ [([], c :: rest)]

def splits : Pattern → List Char → List (List Char × List Char)
  | one _, [] => []
  | one test, c :: rest => if test c then [([c], rest)] else []
  | many test, cs => runs test cs
  | maybe p, cs => p.splits cs ++ [([], cs)]
  | seq p q, cs => (p.splits cs).flatMap fun e => (q.splits e.2).map (behind e.1)
  | either p q, cs => p.splits cs ++ q.splits cs

/-- The match at the start of a text, and what is left of the text. -/
def find? (p : Pattern) (cs : List Char) : Option (List Char × List Char) := (p.splits cs).head?

def Accepts : Pattern → List Char → Prop
  | one test, cs => ∃ c, cs = [c] ∧ test c = true
  | many test, cs => ∀ c ∈ cs, test c = true
  | maybe p, cs => p.Accepts cs ∨ cs = []
  | seq p q, cs => ∃ xs ys, cs = xs ++ ys ∧ p.Accepts xs ∧ q.Accepts ys
  | either p q, cs => p.Accepts cs ∨ q.Accepts cs

variable {p q : Pattern} {test allowed : Char → Bool} {c : Char} {cs rest : List Char}
  {e : List Char × List Char}

theorem mem_runs_iff : e ∈ runs test cs ↔ (∀ c ∈ e.1, test c = true) ∧ e.1 ++ e.2 = cs := by
  obtain ⟨taken, left⟩ := e
  induction cs generalizing taken with
  | nil =>
    rw [runs, List.mem_singleton, Prod.mk.injEq, List.append_eq_nil_iff]
    exact ⟨fun h => ⟨by simp [h.1], h⟩, And.right⟩
  | cons c rest ih =>
    rw [runs, List.mem_append, List.mem_singleton, Prod.mk.injEq]
    cases taken with
    | nil =>
      have hlonger : ([], left) ∉
          if test c then (runs test rest).map (behind [c]) else [] := by
        split <;> simp [behind]
      simp [hlonger]
    | cons first more =>
      have hlonger : ((first :: more, left) ∈
          if test c then (runs test rest).map (behind [c]) else []) ↔
          test c = true ∧ c = first ∧ (more, left) ∈ runs test rest := by
        split
        · next hc =>
          rw [List.mem_map]
          simp only [hc, behind, List.singleton_append, Prod.mk.injEq, List.cons.injEq, true_and]
          constructor
          · rintro ⟨_, he, ⟨rfl, rfl⟩, rfl⟩
            exact ⟨rfl, he⟩
          · rintro ⟨rfl, he⟩
            exact ⟨_, he, ⟨rfl, rfl⟩, rfl⟩
        · next hc => simp [hc]
      rw [hlonger, ih, List.forall_mem_cons, List.cons_append, List.cons.injEq]
      simp only [reduceCtorEq, false_and, or_false]
      constructor
      · rintro ⟨hc, rfl, hmore, hrest⟩
        exact ⟨⟨hc, hmore⟩, rfl, hrest⟩
      · rintro ⟨⟨hc, hmore⟩, rfl, hrest⟩
        exact ⟨hc, rfl, hmore, hrest⟩

theorem mem_splits_iff : e ∈ p.splits cs ↔ p.Accepts e.1 ∧ e.1 ++ e.2 = cs := by
  obtain ⟨taken, left⟩ := e
  induction p generalizing cs taken left with
  | one test =>
    cases cs with
    | nil =>
      refine ⟨fun h => absurd h List.not_mem_nil, ?_⟩
      rintro ⟨⟨c, rfl, -⟩, h⟩
      cases h
    | cons c rest =>
      rw [splits, Accepts]
      constructor
      · intro h
        split at h
        · next hc =>
          obtain ⟨rfl, rfl⟩ := Prod.mk.inj (List.mem_singleton.mp h)
          exact ⟨⟨c, rfl, hc⟩, rfl⟩
        · cases h
      · rintro ⟨⟨first, rfl, hc⟩, h⟩
        obtain ⟨rfl, rfl⟩ := List.cons.inj h
        rw [if_pos hc]
        exact List.mem_singleton_self _
  | many test => exact mem_runs_iff
  | maybe p ih =>
    rw [splits, List.mem_append, ih, List.mem_singleton, Prod.mk.injEq, Accepts, or_and_right]
    refine or_congr_right ⟨?_, ?_⟩
    · rintro ⟨rfl, rfl⟩
      exact ⟨rfl, rfl⟩
    · rintro ⟨rfl, rfl⟩
      exact ⟨rfl, rfl⟩
  | seq p q ihp ihq =>
    simp only [splits, List.mem_flatMap, List.mem_map, behind, Prod.exists, Prod.mk.injEq, ihp,
      ihq, Accepts]
    constructor
    · rintro ⟨xs, _, ⟨hxs, rfl⟩, ys, left, ⟨hys, rfl⟩, rfl, rfl⟩
      exact ⟨⟨xs, ys, rfl, hxs, hys⟩, List.append_assoc xs ys left⟩
    · rintro ⟨⟨xs, ys, rfl, hxs, hys⟩, rfl⟩
      exact ⟨xs, ys ++ left, ⟨hxs, (List.append_assoc xs ys left).symm⟩, ys, left, ⟨hys, rfl⟩,
        rfl, rfl⟩
  | either p q ihp ihq =>
    rw [splits, List.mem_append, ihp, ihq, Accepts, or_and_right]

theorem accepts_of_find? (h : p.find? cs = some e) : p.Accepts e.1 :=
  (mem_splits_iff.mp (List.mem_of_mem_head? h)).1

theorem find?_either (p q : Pattern) (cs : List Char) :
    (either p q).find? cs = (p.find? cs).or (q.find? cs) :=
  List.head?_append

theorem find?_maybe (p : Pattern) (cs : List Char) :
    (maybe p).find? cs = some ((p.find? cs).getD ([], cs)) := by
  rw [find?, splits, List.head?_append, find?]
  cases (p.splits cs).head? <;> rfl

theorem find?_many (test : Char → Bool) (cs : List Char) :
    (many test).find? cs = some (cs.span test) := by
  rw [List.span_eq_takeWhile_dropWhile, find?, splits]
  induction cs with
  | nil => rfl
  | cons c rest ih =>
    rw [runs, List.head?_append]
    by_cases hc : test c = true
    · rw [if_pos hc, List.head?_map, ih, List.takeWhile_cons_of_pos hc,
        List.dropWhile_cons_of_pos hc]
      rfl
    · rw [if_neg hc, List.takeWhile_cons_of_neg hc, List.dropWhile_cons_of_neg hc]
      rfl

def extend? (q : Pattern) (e : List Char × List Char) : Option (List Char × List Char) :=
  (q.find? e.2).map (behind e.1)

theorem map_behind (taken more : List Char) (e : Option (List Char × List Char)) :
    (e.map (behind more)).map (behind taken) = e.map (behind (taken ++ more)) := by
  rw [Option.map_map]
  refine congrArg (e.map ·) (funext fun e => ?_)
  rw [Function.comp_apply, behind, behind, behind, List.append_assoc]

theorem extend?_nil (q : Pattern) (cs : List Char) : q.extend? ([], cs) = q.find? cs :=
  Option.map_id' ..

theorem extend?_behind (q : Pattern) (taken : List Char) (e : List Char × List Char) :
    q.extend? (behind taken e) = (q.extend? e).map (behind taken) :=
  (map_behind taken e.1 _).symm

theorem find?_seq (p q : Pattern) (cs : List Char) :
    (seq p q).find? cs = (p.splits cs).findSome? q.extend? := by
  rw [find?, splits, List.head?_flatMap]
  simp only [List.head?_map]
  rfl

theorem find?_seq_of_total (hq : ∀ cs, ∃ e, q.find? cs = some e) (p : Pattern) (cs : List Char) :
    (seq p q).find? cs = (p.find? cs).bind q.extend? := by
  rw [find?_seq, find?]
  cases p.splits cs with
  | nil => rfl
  | cons e others =>
    obtain ⟨e', he'⟩ := hq e.2
    rw [List.findSome?_cons, extend?, he', List.head?_cons, Option.bind_some, extend?, he']
    rfl

theorem find?_one_seq_cons (test : Char → Bool) (q : Pattern) (c : Char) (rest : List Char) :
    (seq (one test) q).find? (c :: rest) =
      if test c then (q.find? rest).map (behind [c]) else none := by
  rw [find?_seq, splits]
  split
  · exact List.findSome?_singleton
  · rfl

theorem find?_maybe_seq (p q : Pattern) (cs : List Char) :
    (seq (maybe p) q).find? cs = ((seq p q).find? cs).or (q.find? cs) := by
  rw [find?_seq, splits, List.findSome?_append, find?_seq, List.findSome?_singleton, extend?_nil]

theorem find?_many_seq (hq : ∀ c rest, test c = true → q.find? (c :: rest) = none)
    (cs : List Char) : (seq (many test) q).find? cs =
      (q.find? (cs.dropWhile test)).map (behind (cs.takeWhile test)) := by
  rw [find?_seq, splits]
  induction cs with
  | nil => exact List.findSome?_singleton
  | cons c rest ih =>
    rw [runs, List.findSome?_append, List.findSome?_singleton, extend?_nil]
    by_cases hc : test c = true
    · have hfirst : q.extend? ∘ behind [c] = Option.map (behind [c]) ∘ q.extend? :=
        funext (extend?_behind q [c])
      rw [if_pos hc, List.findSome?_map, hq c rest hc, Option.or_none, hfirst,
        ← List.map_findSome?, ih, map_behind, List.takeWhile_cons_of_pos hc,
        List.dropWhile_cons_of_pos hc, List.singleton_append]
    · rw [if_neg hc, List.takeWhile_cons_of_neg hc, List.dropWhile_cons_of_neg hc]
      exact (extend?_nil q (c :: rest)).symm

def only (allowed : Char → Bool) : Pattern → Pattern
  | one test => one fun c => test c && allowed c
  | many test => many fun c => test c && allowed c
  | maybe p => maybe (p.only allowed)
  | seq p q => seq (p.only allowed) (q.only allowed)
  | either p q => either (p.only allowed) (q.only allowed)

theorem accepts_only_iff :
    (p.only allowed).Accepts cs ↔ p.Accepts cs ∧ ∀ c ∈ cs, allowed c = true := by
  induction p generalizing cs with
  | one test =>
    simp only [only, Accepts, Bool.and_eq_true]
    constructor
    · rintro ⟨c, rfl, hc, hallowed⟩
      exact ⟨⟨c, rfl, hc⟩, by simpa using hallowed⟩
    · rintro ⟨⟨c, rfl, hc⟩, hallowed⟩
      exact ⟨c, rfl, hc, hallowed c List.mem_cons_self⟩
  | many test =>
    simp only [only, Accepts, Bool.and_eq_true]
    exact forall₂_and
  | maybe p ih =>
    simp only [only, Accepts, ih]
    constructor
    · rintro (h | rfl)
      · exact ⟨.inl h.1, h.2⟩
      · exact ⟨.inr rfl, List.forall_mem_nil _⟩
    · rintro ⟨h | rfl, hallowed⟩
      · exact .inl ⟨h, hallowed⟩
      · exact .inr rfl
  | seq p q ihp ihq =>
    simp only [only, Accepts, ihp, ihq]
    constructor
    · rintro ⟨xs, ys, rfl, ⟨hxs, hallowed⟩, hys, hallowed'⟩
      exact ⟨⟨xs, ys, rfl, hxs, hys⟩, List.forall_mem_append.mpr ⟨hallowed, hallowed'⟩⟩
    · rintro ⟨⟨xs, ys, rfl, hxs, hys⟩, hallowed⟩
      rw [List.forall_mem_append] at hallowed
      exact ⟨xs, ys, rfl, ⟨hxs, hallowed.1⟩, hys, hallowed.2⟩
  | either p q ihp ihq =>
    rw [only, Accepts, ihp, ihq, Accepts, or_and_right]

end Pattern

end DesignTokens.Text
