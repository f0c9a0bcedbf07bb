import Reprise.Program.Directory
import Reprise.Proofs.Ordered.Map

/-!
Folders that are made stay, so a data directory that has been opened opens again, with the table that
was found or saved in it.
-/
set_option autoImplicit false

namespace Reprise

namespace Directory

section Folders

theorem node?_put_self (d : Directory) (here : Place) (node : Node) :
    (d.put here node).node? here = some node := OrderedMap.get?_insert_self d.nodes here.text node

theorem node?_put_of_ne (d : Directory) {here other : Place} (node : Node)
    (apart : other.text ≠ here.text) : (d.put here node).node? other = d.node? other :=
  OrderedMap.get?_insert_of_ne d.nodes apart node

/-- The directory itself, what is above it and the root have no node of their own. -/
def HasNoNode (here : Place) : Prop :=
  here.getLast? = none ∨ here.getLast? = some ".." ∨ here.getLast? = some "/"

theorem isFolder_iff {d : Directory} {here : Place} :
    d.isFolder here = true ↔ HasNoNode here ∨ d.node? here = some .folder := by
  rw [isFolder, HasNoNode]
  split <;> simp_all

def Keeps (d d' : Directory) : Prop := ∀ here, d.isFolder here = true → d'.isFolder here = true

namespace Keeps

variable {d d' d'' : Directory}

theorem refl (d : Directory) : Keeps d d := fun _ => id

theorem trans (h : Keeps d d') (h' : Keeps d' d'') : Keeps d d'' := fun here folder =>
  h' here (h here folder)

theorem put_folder (d : Directory) (here : Place) : Keeps d (d.put here .folder) := by
  intro other folder
  by_cases same : other.text = here.text
  · have found : (d.put here .folder).node? other = some .folder := by
      rw [node?, same]
      exact d.node?_put_self here .folder
    exact isFolder_iff.mpr (Or.inr found)
  · rwa [isFolder, d.node?_put_of_ne .folder same]

theorem put (d : Directory) {here : Place} (node : Node) (no_folder : d.node? here ≠ some .folder) :
    Keeps d (d.put here node) := by
  intro other folder
  by_cases same : other.text = here.text
  · have other_node : d.node? other ≠ some .folder := by
      rw [node?, same]
      exact no_folder
    exact isFolder_iff.mpr (Or.inl ((isFolder_iff.mp folder).resolve_right other_node))
  · rwa [isFolder, d.node?_put_of_ne node same]

theorem enter (h : Keeps d d') {here next : Place} {step : String}
    (entered : d.enter here step = some next) : d'.enter here step = some next := by
  rw [Directory.enter] at entered ⊢
  split
  · rename_i dot
    rwa [if_pos dot] at entered
  · rename_i no_dot
    rw [if_neg no_dot] at entered
    split
    · rename_i up
      rwa [if_pos up] at entered
    · rename_i not_up
      rw [if_neg not_up] at entered
      split at entered
      · rename_i folder
        rw [if_pos (h _ folder)]
        exact entered
      · cases entered

theorem follow (h : Keeps d d') {here place : Place} {steps : List String}
    (followed : d.follow here steps = some place) : d'.follow here steps = some place := by
  induction steps generalizing here with
  | nil => exact followed
  | cons step rest ih =>
    obtain ⟨next, entered, later⟩ := Option.bind_eq_some_iff.mp followed
    exact Option.bind_eq_some_iff.mpr ⟨next, h.enter entered, ih later⟩

theorem filePlace? (h : Keeps d d') {path : String} {place : Place}
    (found : d.filePlace? path = some place) : d'.filePlace? path = some place := by
  simp only [Directory.filePlace?, Option.bind_eq_bind, Option.bind_eq_some_iff] at found ⊢
  obtain ⟨p, parsed, name, last, found⟩ := found
  refine ⟨p, parsed, name, last, ?_⟩
  split at found
  · cases found
  · rename_i is_file
    rw [if_neg is_file]
    obtain ⟨folder, followed, same⟩ := Option.bind_eq_some_iff.mp found
    exact Option.bind_eq_some_iff.mpr ⟨folder, h.follow followed, same⟩

end Keeps

end Folders

section Making

variable {d d' : Directory} {here place : Place} {steps : List String}

theorem keeps_followMaking (d : Directory) (here : Place) (steps : List String) :
    Keeps d (d.followMaking here steps).2 := by
  fun_induction followMaking d here steps with
  | case1 d here => exact .refl d
  | case2 d here step rest next entered ih => exact ih
  | case3 d here step rest missing next free ih => exact (Keeps.put_folder d next).trans ih
  | case4 d here step rest missing next occupied => exact .refl d

theorem enter_of_isFolder {step : String} (name : isName step = true)
    (folder : d.isFolder (here ++ [step]) = true) : d.enter here step = some (here ++ [step]) := by
  simp only [isName, Bool.and_eq_true, bne_iff_ne] at name
  rw [enter, if_neg name.1.1, if_neg name.1.2, if_pos folder]

theorem follow_of_followMaking (h : d.followMaking here steps = (some place, d')) :
    d'.follow here steps = some place := by
  fun_induction followMaking d here steps with
  | case1 d here =>
    cases h
    rfl
  | case2 d here step rest next entered ih =>
    have kept : Keeps d d' := by
      have later := keeps_followMaking d next rest
      rwa [h] at later
    exact Option.bind_eq_some_iff.mpr ⟨next, kept.enter entered, ih h⟩
  | case3 d here step rest missing next free ih =>
    have kept : Keeps (d.put next .folder) d' := by
      have later := keeps_followMaking (d.put next .folder) next rest
      rwa [h] at later
    have folder := kept next (isFolder_iff.mpr (Or.inr (d.node?_put_self next .folder)))
    have name := (Bool.and_eq_true_iff.mp free).1
    exact Option.bind_eq_some_iff.mpr ⟨next, enter_of_isFolder name folder, ih h⟩
  | case4 d here step rest missing next occupied => cases h

theorem followMaking_of_follow (h : d.follow here steps = some place) :
    d.followMaking here steps = (some place, d) := by
  induction steps generalizing here with
  | nil =>
    cases h
    rfl
  | cons step rest ih =>
    obtain ⟨next, entered, later⟩ := Option.bind_eq_some_iff.mp h
    rw [followMaking, entered]
    exact ih later

theorem follow_dropLast (h : (d.follow here steps).isSome) :
    ∃ folder, d.follow here steps.dropLast = some folder := by
  cases List.eq_nil_or_concat steps with
  | inl empty => exact ⟨here, by rw [empty]; rfl⟩
  | inr split =>
    obtain ⟨before, last, rfl⟩ := split
    rw [List.concat_eq_append] at h ⊢
    rw [List.dropLast_concat]
    rw [follow, List.foldlM_append] at h
    obtain ⟨place, followed⟩ := Option.isSome_iff_exists.mp h
    obtain ⟨folder, before_followed, -⟩ := Option.bind_eq_some_iff.mp followed
    exact ⟨folder, before_followed⟩

theorem makeFolders_again {path : String} {d'' : Directory} (h : d.makeFolders path = (true, d'))
    (kept : Keeps d' d'') : d''.makeFolders path = (true, d'') := by
  rw [makeFolders] at h ⊢
  cases parsed : Path.ofString? path with
  | none =>
    rw [parsed] at h
    cases h
  | some p =>
    rw [parsed] at h
    simp only at h ⊢
    by_cases whole : p.withoutDots.length = p.steps.length
    · rw [if_pos whole] at h ⊢
      obtain ⟨reached, same⟩ := Prod.mk.inj h
      obtain ⟨place, made⟩ := Option.isSome_iff_exists.mp reached
      have followed := follow_of_followMaking (Prod.ext made same)
      rw [followMaking_of_follow (kept.follow followed)]
      rfl
    · rw [if_neg whole] at h ⊢
      obtain ⟨reached, same⟩ := Prod.mk.inj h
      rw [same] at reached
      obtain ⟨place, followed⟩ := Option.isSome_iff_exists.mp reached
      have followed' := kept.follow followed
      have reached' : (d''.follow (start p) p.withoutDots).isSome = true := by rw [followed']; rfl
      obtain ⟨folder, before⟩ := follow_dropLast reached'
      rw [followMaking_of_follow before, reached']

end Making

section Opening

variable {d d₁ : Directory} {dir : String} {table : SortedTable}

/-- What an opened table leaves: its folder and its place, with the table in it. -/
structure Opened (d : Directory) (dir : String) (place : Place) (table : SortedTable) : Prop where
  made : ∀ d', Keeps d d' → d'.makeFolders dir = (true, d')
  placed : d.filePlace? (Path.join dir tableName) = some place
  there : d.node? place = some (.table table)

theorem opened_put {place : Place} (made : ∀ d', Keeps d d' → d'.makeFolders dir = (true, d'))
    (placed : d.filePlace? (Path.join dir tableName) = some place)
    (no_folder : d.node? place ≠ some .folder) (table : SortedTable) :
    Opened (d.put place (.table table)) dir place table := by
  have kept : Keeps d (d.put place (.table table)) := .put d _ no_folder
  exact ⟨fun d' kept' => made d' (kept.trans kept'), kept.filePlace? placed, d.node?_put_self place _⟩

theorem opened_of_openTable (h : d.openTable dir = (.ok table, d₁)) :
    ∃ place, Opened d₁ dir place table := by
  rw [openTable] at h
  split at h
  · cases h
  · rename_i d₂ made
    have again : ∀ d', Keeps d₂ d' → d'.makeFolders dir = (true, d') := fun d' kept =>
      makeFolders_again made kept
    simp only at h
    split at h
    · cases h
    · rename_i place placed
      split at h
      · rename_i entries there
        cases h
        exact ⟨place, again, placed, there⟩
      · rename_i free
        cases h
        exact ⟨place, opened_put again placed (by rw [free]; nofun) _⟩
      · rename_i empty
        cases h
        exact ⟨place, opened_put again placed (by rw [empty]; nofun) _⟩
      · cases h

theorem Opened.openTable {place : Place} (h : Opened d dir place table) :
    d.openTable dir = (.ok table, d) := by
  simp only [Directory.openTable, h.made d (.refl d), h.placed, h.there]

theorem Opened.save {place : Place} (h : Opened d dir place table) (table' : SortedTable) :
    Opened (d.saveTable dir table') dir place table' := by
  rw [saveTable, h.placed]
  exact opened_put h.made h.placed (by rw [h.there]; nofun) table'

end Opening

end Directory

end Reprise
