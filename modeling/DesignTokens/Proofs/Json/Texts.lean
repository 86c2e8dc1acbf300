import DesignTokens.Json.Basic

namespace DesignTokens.Json

mutual

/-- The strings inside a value; keys do not count. -/
def texts : Json → List String
  | .str s => [s]
  | .arr items => itemTexts items
  | .obj entries => entryTexts entries
  | _ => []

def itemTexts : List Json → List String
  | [] => []
  | item :: rest => item.texts ++ itemTexts rest

def entryTexts : List (String × Json) → List String
  | [] => []
  | (_, value) :: rest => value.texts ++ entryTexts rest

end

mutual

def mapTexts (f : String → Json) : Json → Json
  | .str s => f s
  | .arr items => .arr (mapItemTexts f items)
  | .obj entries => .obj (mapEntryTexts f entries)
  | v => v

def mapItemTexts (f : String → Json) : List Json → List Json
  | [] => []
  | item :: rest => item.mapTexts f :: mapItemTexts f rest

def mapEntryTexts (f : String → Json) : List (String × Json) → List (String × Json)
  | [] => []
  | (key, value) :: rest => (key, value.mapTexts f) :: mapEntryTexts f rest

end

variable {f g : String → Json}

mutual

theorem mapTexts_congr : ∀ v : Json, (∀ s ∈ v.texts, f s = g s) → v.mapTexts f = v.mapTexts g
  | .null, _ | .bool _, _ | .num _, _ => rfl
  | .str s, h => h s (List.mem_singleton_self s)
  | .arr items, h => congrArg Json.arr (mapItemTexts_congr items h)
  | .obj entries, h => congrArg Json.obj (mapEntryTexts_congr entries h)

theorem mapItemTexts_congr : ∀ items : List Json, (∀ s ∈ itemTexts items, f s = g s) →
    mapItemTexts f items = mapItemTexts g items
  | [], _ => rfl
  | item :: rest, h => by
    rw [itemTexts, List.forall_mem_append] at h
    rw [mapItemTexts, mapItemTexts, mapTexts_congr item h.1, mapItemTexts_congr rest h.2]

theorem mapEntryTexts_congr : ∀ entries : List (String × Json),
    (∀ s ∈ entryTexts entries, f s = g s) → mapEntryTexts f entries = mapEntryTexts g entries
  | [], _ => rfl
  | (key, value) :: rest, h => by
    rw [entryTexts, List.forall_mem_append] at h
    rw [mapEntryTexts, mapEntryTexts, mapTexts_congr value h.1, mapEntryTexts_congr rest h.2]

end

mutual

@[simp] theorem mapTexts_str : ∀ v : Json, v.mapTexts .str = v
  | .null | .bool _ | .num _ | .str _ => rfl
  | .arr items => congrArg Json.arr (mapItemTexts_str items)
  | .obj entries => congrArg Json.obj (mapEntryTexts_str entries)

theorem mapItemTexts_str : ∀ items : List Json, mapItemTexts .str items = items
  | [] => rfl
  | item :: rest => by rw [mapItemTexts, mapTexts_str item, mapItemTexts_str rest]

theorem mapEntryTexts_str : ∀ entries : List (String × Json), mapEntryTexts .str entries = entries
  | [] => rfl
  | (key, value) :: rest => by rw [mapEntryTexts, mapTexts_str value, mapEntryTexts_str rest]

end

mutual

theorem mapTexts_mapTexts : ∀ v : Json,
    (v.mapTexts f).mapTexts g = v.mapTexts fun s => (f s).mapTexts g
  | .null | .bool _ | .num _ | .str _ => rfl
  | .arr items => congrArg Json.arr (mapItemTexts_mapItemTexts items)
  | .obj entries => congrArg Json.obj (mapEntryTexts_mapEntryTexts entries)

theorem mapItemTexts_mapItemTexts : ∀ items : List Json,
    mapItemTexts g (mapItemTexts f items) = mapItemTexts (fun s => (f s).mapTexts g) items
  | [] => rfl
  | item :: rest => by
    simp only [mapItemTexts, mapTexts_mapTexts item, mapItemTexts_mapItemTexts rest]

theorem mapEntryTexts_mapEntryTexts : ∀ entries : List (String × Json),
    mapEntryTexts g (mapEntryTexts f entries) = mapEntryTexts (fun s => (f s).mapTexts g) entries
  | [] => rfl
  | (key, value) :: rest => by
    simp only [mapEntryTexts, mapTexts_mapTexts value, mapEntryTexts_mapEntryTexts rest]

end

mutual

theorem texts_mapTexts : ∀ v : Json, (v.mapTexts f).texts = v.texts.flatMap fun s => (f s).texts
  | .null | .bool _ | .num _ => rfl
  | .str s => by simp [mapTexts, texts]
  | .arr items => itemTexts_mapItemTexts items
  | .obj entries => entryTexts_mapEntryTexts entries

theorem itemTexts_mapItemTexts : ∀ items : List Json,
    itemTexts (mapItemTexts f items) = (itemTexts items).flatMap fun s => (f s).texts
  | [] => rfl
  | item :: rest => by
    simp only [mapItemTexts, itemTexts, List.flatMap_append, texts_mapTexts item,
      itemTexts_mapItemTexts rest]

theorem entryTexts_mapEntryTexts : ∀ entries : List (String × Json),
    entryTexts (mapEntryTexts f entries) = (entryTexts entries).flatMap fun s => (f s).texts
  | [] => rfl
  | (key, value) :: rest => by
    simp only [mapEntryTexts, entryTexts, List.flatMap_append, texts_mapTexts value,
      entryTexts_mapEntryTexts rest]

end

end DesignTokens.Json
