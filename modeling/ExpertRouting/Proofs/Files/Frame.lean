/-
  ExpertRouting.Proofs.Files.Frame — what stays when folders are made and a file is written.

  Folders are made only where nothing was, so every folder stays one, every file stays as it
  is, and no file is made (`makeFolders_keepsFiles`). Opening a trace may come no further than
  that; otherwise it writes one file, and its place is the only one where the files differ
  afterwards (`openForTrace_cases`). Whatever path led to a file elsewhere reads the same bytes
  as before (`KeepsFiles.read`).
-/

import ExpertRouting.Proofs.Files.Write

namespace ExpertRouting.Files

/-- Every folder is still one, and but for one place, if any, the files are the same. -/
structure KeepsFiles (except : Option Place) (fs fs' : Files) : Prop where
  folders : KeepsFolders fs fs'
  files : ∀ q, except ≠ some q → ∀ bytes, fs'.at? q = some (.file bytes) ↔ fs.at? q = some (.file bytes)

variable {except : Option Place} {fs fs' fs'' : Files}

theorem KeepsFiles.refl (except : Option Place) (fs : Files) : KeepsFiles except fs fs :=
  ⟨fun _ h => h, fun _ _ _ => Iff.rfl⟩

theorem KeepsFiles.trans (h : KeepsFiles except fs fs') (h' : KeepsFiles except fs' fs'') :
    KeepsFiles except fs fs'' :=
  ⟨fun q hq => h'.folders q (h.folders q hq), fun q hq bytes => (h'.files q hq bytes).trans (h.files q hq bytes)⟩

theorem KeepsFiles.weaken (h : KeepsFiles none fs fs') (except : Option Place) : KeepsFiles except fs fs' :=
  ⟨h.folders, fun q _ => h.files q nofun⟩

theorem put_keepsFiles {place : Place} (hplace : fs.at? place ≠ some .folder) (bytes : List UInt8) :
    KeepsFiles (some place) fs (fs.put place (.file bytes)) := by
  refine ⟨put_keepsFolders hplace _, fun q hq bytes' => ?_⟩
  rw [at?_put_of_ne fs fun h => hq (congrArg some h.symm)]

theorem read_ok_iff {p : Path} {bytes : List UInt8} :
    fs.read p = .ok bytes ↔
      p.folder = false ∧ ∃ place, fs.locate p = .ok place ∧ fs.at? place = some (.file bytes) := by
  unfold read find
  cases fs.locate p with
  | error e => simp [bind, Except.bind]
  | ok place =>
    cases hentry : fs.at? place with
    | none => simp [bind, Except.bind, hentry]
    | some entry =>
      cases entry with
      | folder => simp [bind, Except.bind, hentry]
      | file found => cases p.folder <;> simp [bind, Except.bind, hentry]

/-- A path that reads a file elsewhere reads it still. -/
theorem KeepsFiles.read (h : KeepsFiles except fs fs') {p : Path} {bytes : List UInt8} (hread : fs.read p = .ok bytes)
    (hother : ∀ place, except = some place → fs.locate p ≠ .ok place) : fs'.read p = .ok bytes := by
  obtain ⟨hfolder, place, hlocate, hfile⟩ := read_ok_iff.mp hread
  refine read_ok_iff.mpr ⟨hfolder, place, locate_keeps h.folders hlocate, (h.files place ?_ bytes).mpr hfile⟩
  exact fun hplace => hother place hplace hlocate

/-! ## Folders -/

theorem put_folder_keepsFiles {place : Place} (hplace : fs.at? place = none) :
    KeepsFiles none fs (fs.put place .folder) := by
  have hnone : fs.at? place ≠ some .folder := by
    rw [hplace]
    rintro ⟨⟩
  refine ⟨put_keepsFolders hnone _, fun q _ bytes => ?_⟩
  by_cases hq : q = place
  · subst hq
    rw [at?_put_self fs (not_isBase hnone), hplace]
    simp
  · rw [at?_put_of_ne fs hq]

theorem enter_notFound {folder : Place} {n : String} (h : fs.enter folder (.name n) = .error .notFound) :
    fs.at? (folder.child n) = none := by
  by_cases hlong : Path.longestName < n.utf8ByteSize
  · simp [enter, under, hlong, bind, Except.bind] at h
  · simp only [enter, under, if_neg hlong, bind, Except.bind] at h
    cases hentry : fs.at? (folder.child n) with
    | none => rfl
    | some entry =>
      rw [hentry] at h
      cases entry <;> cases h

theorem makeFoldersFrom_keepsFiles (fs : Files) (folder : Place) (parts : List Part) :
    KeepsFiles none fs (fs.makeFoldersFrom folder parts).1 := by
  induction parts generalizing fs folder with
  | nil => exact .refl none fs
  | cons p parts ih =>
    unfold makeFoldersFrom
    split
    · exact ih fs _
    · rename_i n henter
      exact (put_folder_keepsFiles (enter_notFound henter)).trans (ih _ _)
    · exact .refl none fs

theorem makeFolders_keepsFiles (fs : Files) (p : Path) : KeepsFiles none fs (fs.makeFolders p).1 := by
  unfold makeFolders
  split
  · exact .refl none fs
  · exact makeFoldersFrom_keepsFiles fs _ _

/-- Opening a trace makes folders, and then writes its file or is refused. -/
theorem openForTrace_cases (fs : Files) (p : Path) :
    ∃ made, KeepsFiles none fs made ∧
      ((∃ e, fs.openForTrace p = (made, .error e)) ∨
        ∃ place, made.creatable p = .ok place ∧ fs.openForTrace p = (made.put place (.file []), .ok place)) := by
  have hmade := makeFolders_keepsFiles fs p.parent
  rcases hfolders : fs.makeFolders p.parent with ⟨made, e | u⟩
  · rw [hfolders] at hmade
    exact ⟨made, hmade, .inl ⟨e, by rw [openForTrace, hfolders]⟩⟩
  · rw [hfolders] at hmade
    refine ⟨made, hmade, ?_⟩
    cases hplace : made.creatable p with
    | error e =>
      refine .inl ⟨e, ?_⟩
      simp only [openForTrace, hfolders, hplace]
    | ok place =>
      refine .inr ⟨place, rfl, ?_⟩
      simp only [openForTrace, hfolders, hplace]

end ExpertRouting.Files
