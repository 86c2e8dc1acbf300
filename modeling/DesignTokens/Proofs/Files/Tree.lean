import DesignTokens.Files.Tree
import DesignTokens.Proofs.Results
import Mathlib.Data.List.DropRight

namespace DesignTokens

namespace FilePath

/-- The place that a step leads to from another. -/
def follow (place : List String) : PathStep → List String
  | .root => []
  | .current => place
  | .parent => place.dropLast
  | .name text => place ++ [text]

/-- The place that a path names, if all directories on the way are there. -/
def place (working : List String) (p : FilePath) : List String := p.steps.foldl follow working

end FilePath

namespace FileNode

variable {entries : Entries FileNode} {p q : List String} {node : FileNode}

def below? : FileNode → List String → Option FileNode
  | .directory entries, names => descend? entries names
  | .file content, [] => some (.file content)
  | .file _, _ :: _ => none

theorem descend?_cons (entries : Entries FileNode) (name : String) (names : List String) :
    descend? entries (name :: names) = (Entries.get? entries name).bind (below? · names) := by
  cases hget : Entries.get? entries name with
  | none => cases names <;> simp [descend?, hget]
  | some node => cases node <;> cases names <;> simp [descend?, hget, below?]

theorem exists_descend?_dropLast (h : descend? entries p = some node) (hne : p ≠ []) :
    ∃ below, descend? entries p.dropLast = some (.directory below) := by
  induction p generalizing entries with
  | nil => exact absurd rfl hne
  | cons name names ih =>
    cases names with
    | nil => exact ⟨entries, by simp [descend?]⟩
    | cons next names =>
      rw [descend?_cons, Option.bind_eq_some_iff] at h
      obtain ⟨found, hget, hfound⟩ := h
      rw [List.dropLast_cons_of_ne_nil (List.cons_ne_nil _ _), descend?_cons, hget,
        Option.bind_some]
      cases found with
      | file content => cases hfound
      | directory below => exact ih hfound (List.cons_ne_nil _ _)

theorem place_cons_cons (entries : Entries FileNode) (name next : String) (names : List String)
    (node : FileNode) : place entries (name :: next :: names) node =
      match Entries.get? entries name with
      | some (.directory below) =>
        Entries.insert entries name (.directory (place below (next :: names) node))
      | _ => entries := by
  cases hget : Entries.get? entries name with
  | none => simp [place, hget]
  | some found => cases found <;> simp [place, hget]

theorem descend?_place_self (hne : p ≠ [])
    (hparent : ∃ below, descend? entries p.dropLast = some (.directory below)) :
    descend? (place entries p node) p = some node := by
  induction p generalizing entries with
  | nil => exact absurd rfl hne
  | cons name names ih =>
    cases names with
    | nil =>
      rw [place, descend?_cons, Entries.get?_insert_self]
      cases node <;> simp [below?, descend?]
    | cons next names =>
      obtain ⟨below, hbelow⟩ := hparent
      rw [List.dropLast_cons_of_ne_nil (List.cons_ne_nil _ _), descend?_cons,
        Option.bind_eq_some_iff] at hbelow
      obtain ⟨found, hget, hfound⟩ := hbelow
      cases found with
      | file content => cases names <;> simp [below?] at hfound
      | directory inner =>
        rw [place_cons_cons, hget, descend?_cons, Entries.get?_insert_self]
        exact ih (List.cons_ne_nil _ _) ⟨below, hfound⟩

def content? : FileNode → Option ByteArray
  | .file content => some content
  | .directory _ => none

/-- The content of the file at a place, if there is a file. -/
def contentAt? (entries : Entries FileNode) (place : List String) : Option ByteArray :=
  (descend? entries place).bind content?

def IsBare (node : FileNode) : Prop := ∀ below, node = .directory below → below = []

theorem below?_of_isBare (h : node.IsBare) {names : List String} (hne : names ≠ []) :
    node.below? names = none := by
  cases names with
  | nil => exact absurd rfl hne
  | cons name names =>
    cases node with
    | file content => rfl
    | directory below =>
      rw [below?, h below rfl, descend?_cons]
      rfl

theorem contentAt?_place_of_ne (hold : ∀ below, descend? entries p ≠ some (.directory below))
    (hnode : node.IsBare) (hne : q ≠ p) :
    contentAt? (place entries p node) q = contentAt? entries q := by
  induction p generalizing entries q with
  | nil => exact absurd (by rw [descend?]) (hold entries)
  | cons name names ih =>
    cases q with
    | nil =>
      rw [contentAt?, contentAt?, descend?, descend?]
      rfl
    | cons first others =>
      by_cases hfirst : first = name
      · subst hfirst
        cases names with
        | nil =>
          have hothers : others ≠ [] := by simpa using hne
          have hfound : ∀ found, Entries.get? entries first = some found → found.IsBare := by
            rintro found hget below rfl
            refine absurd ?_ (hold below)
            rw [descend?_cons, hget, Option.bind_some, below?, descend?]
          rw [place, contentAt?, contentAt?, descend?_cons, descend?_cons,
            Entries.get?_insert_self, Option.bind_some, below?_of_isBare hnode hothers]
          cases hget : Entries.get? entries first with
          | none => rfl
          | some found => rw [Option.bind_some, below?_of_isBare (hfound found hget) hothers]
        | cons next names =>
          rw [place_cons_cons]
          cases hget : Entries.get? entries first with
          | none => rfl
          | some found =>
            cases found with
            | file content => rfl
            | directory below =>
              rw [descend?_cons, hget] at hold
              have hinner := ih hold (by simpa using hne)
              rw [contentAt?, contentAt?, descend?_cons, descend?_cons, hget,
                Entries.get?_insert_self]
              exact hinner
      · have hget : Entries.get? (place entries (name :: names) node) first =
            Entries.get? entries first := by
          cases names with
          | nil => rw [place, Entries.get?_insert_of_ne _ _ hfirst]
          | cons next names =>
            rw [place_cons_cons]
            split
            · exact Entries.get?_insert_of_ne _ _ hfirst
            · rfl
        rw [contentAt?, contentAt?, descend?_cons, descend?_cons, hget]

end FileNode

namespace FilePath

variable {p : FilePath}

def followPiece (place : List String) (piece : List Char) : List String :=
  match PathStep.ofPiece? piece with
  | some step => follow place step
  | none => place

theorem head_pieces_of_isAbsolute (h : p.isAbsolute = true) :
    ∃ rest, p.pieces = [] :: rest := by
  rw [isAbsolute, beq_iff_eq, List.head?_eq_some_iff] at h
  obtain ⟨rest, hrest⟩ := h
  exact ⟨Text.splitAt '/' rest, by simp [pieces, hrest, Text.splitAt, Text.splitWhere]⟩

theorem foldl_followPiece (p : FilePath) (working : List String) :
    p.pieces.foldl followPiece (if p.isAbsolute then [] else working) = p.place working := by
  rw [place, steps]
  cases hpieces : p.pieces with
  | nil => exact absurd hpieces (Text.splitWhere_ne_nil _ _)
  | cons first rest =>
    have hfirst : (if p.isAbsolute then [PathStep.root] else if first = ['.'] then [.current]
          else (PathStep.ofPiece? first).toList).foldl follow working =
        followPiece (if p.isAbsolute then [] else working) first := by
      split_ifs with habsolute hpoint
      · obtain ⟨_, hnil⟩ := head_pieces_of_isAbsolute habsolute
        obtain rfl : first = [] := (List.cons.inj (hpieces.symm.trans hnil)).1
        rfl
      · subst hpoint
        rfl
      · rw [followPiece]
        cases PathStep.ofPiece? first <;> rfl
    rw [List.foldl_append, List.foldl_filterMap, List.foldl_cons, hfirst]
    congr 1
    funext before piece
    rw [followPiece]
    cases PathStep.ofPiece? piece <;> rfl

theorem foldl_followPiece_rdropWhile (pieces : List (List Char)) (place : List String) :
    (pieces.rdropWhile (·.isEmpty)).foldl followPiece place = pieces.foldl followPiece place := by
  induction pieces using List.reverseRecOn with
  | nil => rfl
  | append_singleton pieces piece ih =>
    rw [List.rdropWhile_concat]
    split
    · next hempty =>
      obtain rfl : piece = [] := by simpa using hempty
      rw [ih, List.foldl_append]
      rfl
    · rfl

theorem isAbsolute_of_pieces (htext : p.text.toList ≠ [])
    (h : ∀ piece ∈ p.pieces, piece = []) : p.isAbsolute = true := by
  rw [pieces, Text.splitAt] at h
  rw [isAbsolute]
  cases hcs : p.text.toList with
  | nil => exact absurd hcs htext
  | cons c rest =>
    rw [hcs, Text.splitWhere] at h
    by_cases hc : c = '/'
    · simp [hc]
    · rw [if_neg (by simpa using hc)] at h
      cases hrest : Text.splitWhere (· == '/') rest with
      | nil => simp [hrest, Text.consFirst] at h
      | cons piece pieces => simp [hrest, Text.consFirst] at h

end FilePath

namespace FileSystem

variable {fs fs' : FileSystem} {p : FilePath} {place : List String}

/-- The content of the file at a place, if there is a file. -/
def contentAt? (fs : FileSystem) (place : List String) : Option ByteArray :=
  FileNode.contentAt? fs.root place

def IsReached (fs : FileSystem) (place : List String) : Prop :=
  ∃ below, fs.nodeAt? place.dropLast = some (.directory below)

theorem isReached_nil (fs : FileSystem) : fs.IsReached [] := ⟨fs.root, by
  rw [nodeAt?, List.dropLast_nil, FileNode.descend?]⟩

theorem isReached_of_nodeAt? {node : FileNode} (h : fs.nodeAt? place = some node) :
    fs.IsReached place := by
  cases place with
  | nil => exact isReached_nil fs
  | cons name names => exact FileNode.exists_descend?_dropLast h (List.cons_ne_nil name names)

theorem isReached_dropLast (h : fs.IsReached place) : fs.IsReached place.dropLast :=
  isReached_of_nodeAt? h.choose_spec

theorem walk_eq_ok {place' : List String} {pieces : List (List Char)}
    (h : fs.walk place pieces = .ok place') (hstart : pieces = [] → fs.IsReached place) :
    place' = pieces.foldl FilePath.followPiece place ∧ fs.IsReached place' := by
  induction pieces generalizing place with
  | nil =>
    obtain rfl : place = place' := by simpa [walk] using h
    exact ⟨rfl, hstart rfl⟩
  | cons piece rest ih =>
    rw [walk] at h
    rw [List.foldl_cons]
    split at h
    · cases h
    · cases h
    · next entries hnode =>
      have hplace := isReached_of_nodeAt? hnode
      have hpiece : FilePath.followPiece place piece =
          if piece = [] ∨ piece = ['.'] then place
          else if piece = ['.', '.'] then place.dropLast else place ++ [String.ofList piece] := by
        rw [FilePath.followPiece, PathStep.ofPiece?]
        split_ifs <;> rfl
      rw [hpiece]
      split_ifs at h ⊢ with hnowhere hparent
      · exact ih h fun _ => hplace
      · exact ih h fun _ => isReached_dropLast hplace
      · dsimp only at h
        split_ifs at h
        refine ih h fun _ => ⟨entries, ?_⟩
        rw [List.dropLast_concat]
        exact hnode

theorem findNew_eq_ok {found : Option FileNode} (h : fs.findNew p = .ok (place, found)) :
    place = p.place fs.working ∧ found = fs.nodeAt? place ∧ fs.IsReached place := by
  rw [findNew] at h
  split at h
  · cases h
  · next hfault =>
    obtain ⟨reached, hwalk, h⟩ := Except.bind_eq_ok_iff.mp h
    obtain ⟨rfl, rfl⟩ := Prod.mk.inj (Except.ok.inj h)
    have htext : p.text.toList ≠ [] := by
      intro hempty
      rw [pathFault?, String.toList_eq_nil_iff.mp hempty] at hfault
      cases hfault
    have hend := walk_eq_ok hwalk fun hpieces => ?_
    · refine ⟨?_, rfl, hend.2⟩
      rw [hend.1, ← FilePath.foldl_followPiece]
      exact FilePath.foldl_followPiece_rdropWhile _ _
    · have hall : ∀ piece ∈ p.pieces, piece = [] := by
        intro piece hpiece
        have hdropped := List.rdropWhile_eq_nil_iff.mp hpieces piece hpiece
        simpa using hdropped
      rw [start, if_pos (FilePath.isAbsolute_of_pieces htext hall)]
      exact isReached_nil fs

theorem ne_nil_of_nodeAt? (h : ∀ below, fs.nodeAt? place ≠ some (.directory below)) :
    place ≠ [] := by
  rintro rfl
  exact h fs.root (by rw [nodeAt?, FileNode.descend?])

theorem contentAt?_place {node : FileNode}
    (hold : ∀ below, fs.nodeAt? place ≠ some (.directory below)) (hreached : fs.IsReached place)
    (hnode : node.IsBare) (other : List String) :
    FileNode.contentAt? (FileNode.place fs.root place node) other =
      if other = place then node.content? else fs.contentAt? other := by
  split
  · next hsame =>
    subst hsame
    rw [FileNode.contentAt?, FileNode.descend?_place_self (ne_nil_of_nodeAt? hold) hreached,
      Option.bind_some]
  · next hne => exact FileNode.contentAt?_place_of_ne hold hnode hne

theorem write_eq_ok {content : ByteArray} (h : fs.write p content = .ok fs') :
    fs'.working = fs.working ∧ ∀ place, fs'.contentAt? place =
      if place = p.place fs.working then some content else fs.contentAt? place := by
  obtain ⟨⟨target, found⟩, hfound, h⟩ := Except.bind_eq_ok_iff.mp h
  obtain ⟨rfl, rfl, hreached⟩ := findNew_eq_ok hfound
  split at h
  · cases h
  · next hnode heq =>
    obtain ⟨rfl, hsame⟩ := Prod.mk.inj heq
    obtain rfl := Except.ok.inj h
    refine ⟨rfl, contentAt?_place (fun below hbelow => ?_) hreached nofun⟩
    exact hnode below (hsame.symm.trans hbelow)

structure SameFiles (fs fs' : FileSystem) : Prop where
  working : fs'.working = fs.working
  content : ∀ place, fs'.contentAt? place = fs.contentAt? place

theorem SameFiles.refl (fs : FileSystem) : SameFiles fs fs := ⟨rfl, fun _ => rfl⟩

theorem SameFiles.trans {fs'' : FileSystem} (h : SameFiles fs fs') (h' : SameFiles fs' fs'') :
    SameFiles fs fs'' :=
  ⟨h'.working.trans h.working, fun place => (h'.content place).trans (h.content place)⟩

theorem sameFiles_of_makeDirectory (h : fs.makeDirectory p = .ok fs') : SameFiles fs fs' := by
  obtain ⟨⟨target, found⟩, hfound, h⟩ := Except.bind_eq_ok_iff.mp h
  obtain ⟨rfl, rfl, hreached⟩ := findNew_eq_ok hfound
  split at h
  · cases h
  · next heq =>
    obtain ⟨rfl, hnone⟩ := Prod.mk.inj heq
    obtain rfl := Except.ok.inj h
    refine ⟨rfl, fun place => ?_⟩
    have hbare : (FileNode.directory []).IsBare := by
      rintro below ⟨⟩
      rfl
    refine (contentAt?_place (by simp [hnone]) hreached hbare place).trans ?_
    split
    · next hplace =>
      rw [hplace, contentAt?, FileNode.contentAt?, ← nodeAt?, hnone]
      rfl
    · rfl

theorem sameFiles_of_settle (h : makeDirectoriesFrom.settle p fs = .ok fs') : SameFiles fs fs' := by
  rw [makeDirectoriesFrom.settle] at h
  split at h
  · next hmade => exact Except.ok.inj h ▸ sameFiles_of_makeDirectory hmade
  · split at h
    · exact Except.ok.inj h ▸ .refl fs
    · cases h

theorem sameFiles_of_makeDirectoriesFrom {parents : List FilePath}
    (h : fs.makeDirectoriesFrom p parents = .ok fs') : SameFiles fs fs' := by
  induction parents generalizing p fs' with
  | nil => exact sameFiles_of_settle h
  | cons parent rest ih =>
    rw [makeDirectoriesFrom] at h
    split at h
    · obtain ⟨made, hmade, h⟩ := Except.bind_eq_ok_iff.mp h
      exact (ih hmade).trans (sameFiles_of_settle h)
    · exact sameFiles_of_settle h

theorem sameFiles_of_makeDirectories (h : fs.makeDirectories p = .ok fs') : SameFiles fs fs' := by
  rw [makeDirectories] at h
  split at h
  · exact Except.ok.inj h ▸ .refl fs
  · exact sameFiles_of_makeDirectoriesFrom h

end FileSystem

end DesignTokens
