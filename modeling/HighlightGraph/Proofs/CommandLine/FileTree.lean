import HighlightGraph.CommandLine.FileTree
import HighlightGraph.Proofs.Result
import HighlightGraph.Proofs.Table
/-!
# Writing a file

What a file tree holds after a file has been written: the text at the place to which the path leads,
and at every other place what stood there before. The path still leads there, since no place on the
way to it is the file itself.
-/

namespace HighlightGraph.CommandLine.FileTree

variable {t after : FileTree}

theorem follow_eq_ok {place next : Place} {name : String} (h : t.follow place name = .ok next) :
    t.entry? place = some .directory := by
  unfold follow at h
  split at h
  · assumption
  · cases h
  · cases h

theorem read_of_locate {path : String} {place : Place} {content : ByteArray}
    (hplace : t.locate (.ofString path) = .ok place)
    (hentry : t.entry? place = some (.file content)) : t.read path = .ok content := by
  simp only [read, hplace, bind, Except.bind, hentry]
  rfl

section Directories

variable
  (hdirectories : ∀ place, t.entry? place = some .directory → after.entry? place = some .directory)

include hdirectories

theorem follow_of_directories {place next : Place} {name : String}
    (h : t.follow place name = .ok next) : after.follow place name = .ok next := by
  have hplace := follow_eq_ok h
  rw [follow, hplace] at h
  rw [follow, hdirectories place hplace]
  exact h

theorem foldlM_follow_of_directories {names : List String} {start place : Place}
    (h : names.foldlM t.follow start = .ok place) :
    names.foldlM after.follow start = .ok place := by
  induction names generalizing start with
  | nil => exact h
  | cons name rest ih =>
      rw [List.foldlM_cons] at h ⊢
      obtain ⟨next, hnext, hrest⟩ := bind_eq_ok h
      rw [follow_of_directories hdirectories hnext]
      exact ih hrest

/-- A path leads the same way in a tree that has the same directories. -/
theorem locate_of_directories {path : Path} {place : Place} (h : t.locate path = .ok place) :
    after.locate path = .ok place := by
  unfold locate at h ⊢
  split at h
  · cases h
  · next hlength =>
    rw [if_neg hlength]
    exact foldlM_follow_of_directories hdirectories h

end Directories

theorem write_eq_ok {path : String} {content : ByteArray} (h : t.write path content = .ok after) :
    ∃ place, t.locate (.ofString path) = .ok place ∧ t.entry? place ≠ some .directory ∧
      after = ⟨t.entries.insert place (.file content)⟩ := by
  obtain ⟨place, hplace, h⟩ := bind_eq_ok h
  refine ⟨place, hplace, ?_⟩
  split at h
  · cases h
  · next hentry =>
    cases h
    exact ⟨hentry, rfl⟩

theorem entry?_insert {place : Place} (hplace : t.entry? place ≠ some .directory)
    (hdevice : place ≠ Place.nullDevice) (entry : FileEntry) (other : Place) :
    FileTree.entry? ⟨t.entries.insert place entry⟩ other =
      if other = place then some entry else t.entry? other := by
  by_cases hother : other = place
  · subst hother
    have hsurrounding : other.isSurrounding ≠ true := fun h => hplace (if_pos h)
    rw [if_pos rfl, entry?, if_neg hsurrounding, if_neg hdevice, Table.get?_insert_self]
  · rw [if_neg hother, entry?, entry?, Table.get?_insert_of_ne _ hother]

/-- The file that was written holds the text, and nothing else has changed. -/
theorem read_of_write {path : String} {content : ByteArray}
    (h : t.write path content = .ok after)
    (hdevice : t.locate (.ofString path) ≠ .ok Place.nullDevice) :
    after.read path = .ok content ∧
      ∀ place, t.locate (.ofString path) ≠ .ok place → after.entry? place = t.entry? place := by
  obtain ⟨place, hplace, hentry, rfl⟩ := write_eq_ok h
  have hne : place ≠ Place.nullDevice := by
    rintro rfl
    exact hdevice hplace
  have hafter := entry?_insert hentry hne (.file content)
  -- The file does not stand where a directory was, so the way to it is still there.
  have hlocate : (⟨t.entries.insert place (.file content)⟩ : FileTree).locate (.ofString path) =
      .ok place := by
    apply locate_of_directories _ hplace
    intro other hother
    have hdistinct : other ≠ place := by
      rintro rfl
      exact hentry hother
    rw [hafter, if_neg hdistinct, hother]
  refine ⟨read_of_locate hlocate (by rw [hafter, if_pos rfl]), ?_⟩
  intro other hother
  rw [hafter, if_neg]
  rintro rfl
  exact hother hplace

end HighlightGraph.CommandLine.FileTree
