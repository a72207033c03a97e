/-
  ExpertRouting.Proofs.Files.Write — a file that was written is found again.

  A file is put only where no folder is, so every folder stays one (`KeepsFolders`) and a
  path that was walked before leads to the same place afterwards (`locate_keeps`). So the path
  that was written finds the bytes that were written (`find_write`), and writing it once more
  replaces them and nothing else (`write_write`). For the text of a document this says that the
  file is decoded from that very text (`decode_save`), and that saving it once more changes
  nothing (`save_save`).
-/

import ExpertRouting.Failure
import ExpertRouting.Proofs.Except
import ExpertRouting.Proofs.Text.Utf8

namespace ExpertRouting

namespace Files

/-! ## Places -/

theorem put_put (fs : Files) (p : Place) (e e' : Entry) : (fs.put p e).put p e' = fs.put p e' := by
  simp only [put, mk.injEq]
  funext q
  split <;> rfl

theorem at?_put_self (fs : Files) {p : Place} (hp : p.isBase = false) (e : Entry) : (fs.put p e).at? p = some e := by
  simp [at?, put, hp]

theorem at?_put_of_ne (fs : Files) {p q : Place} (h : q ≠ p) (e : Entry) : (fs.put p e).at? q = fs.at? q := by
  simp [at?, put, h]

theorem not_isBase {fs : Files} {p : Place} (h : fs.at? p ≠ some .folder) : p.isBase = false := by
  cases hbase : p.isBase with
  | false => rfl
  | true => simp [at?, hbase] at h

def KeepsFolders (fs fs' : Files) : Prop := ∀ q, fs.at? q = some .folder → fs'.at? q = some .folder

theorem put_keepsFolders {fs : Files} {p : Place} (hp : fs.at? p ≠ some .folder) (e : Entry) :
    KeepsFolders fs (fs.put p e) := by
  intro q hq
  have hne : q ≠ p := by
    rintro rfl
    exact hp hq
  rw [at?_put_of_ne fs hne, hq]

/-! ## Walks -/

variable {fs fs' : Files}

theorem enter_keeps (h : KeepsFolders fs fs') {folder place : Place} {p : Part} (hp : fs.enter folder p = .ok place) :
    fs'.enter folder p = .ok place := by
  cases p with
  | here => exact hp
  | up => exact hp
  | name n =>
    obtain ⟨next, hunder, hnext⟩ := bind_ok hp
    simp only [enter, hunder, bind, Except.bind]
    cases hentry : fs.at? next with
    | none =>
      rw [hentry] at hnext
      cases hnext
    | some entry =>
      rw [hentry] at hnext
      cases entry with
      | file bytes => cases hnext
      | folder =>
        rw [h next hentry]
        exact hnext

theorem walk_keeps (h : KeepsFolders fs fs') {parts : List Part} {folder place : Place}
    (hp : fs.walk folder parts = .ok place) : fs'.walk folder parts = .ok place := by
  induction parts generalizing folder with
  | nil => exact hp
  | cons p parts ih =>
    obtain ⟨next, henter, hnext⟩ := bind_ok hp
    rw [walk, enter_keeps h henter]
    exact ih hnext

theorem inside_keeps (h : KeepsFolders fs fs') {p : Path} {folder : Place} (hp : fs.inside p = .ok folder) :
    fs'.inside p = .ok folder := by
  unfold inside at hp ⊢
  split at hp
  · cases hp
  · exact walk_keeps h hp

/-- The last part of a path is not entered, so the place of a path needs folders only. -/
theorem locate_keeps (h : KeepsFolders fs fs') {p : Path} {place : Place} (hp : fs.locate p = .ok place) :
    fs'.locate p = .ok place := by
  obtain ⟨folder, hinside, hlast⟩ := bind_ok hp
  rw [locate, inside_keeps h hinside]
  exact hlast

/-! ## Writing -/

/-- A place may be written where a path that is no folder's leads, unless a folder is there. -/
theorem creatable_ok_iff {p : Path} {place : Place} :
    fs.creatable p = .ok place ↔ p.folder = false ∧ fs.locate p = .ok place ∧ fs.at? place ≠ some .folder := by
  unfold creatable
  cases p.folder with
  | true => cases fs.inside p <;> simp [bind, Except.bind]
  | false =>
    cases fs.locate p with
    | error e => simp [bind, Except.bind]
    | ok q =>
      simp only [Bool.false_eq_true, if_false, bind, Except.bind, true_and, Except.ok.injEq]
      constructor
      · intro h
        split at h
        · cases h
        · rename_i hq
          cases h
          exact ⟨rfl, hq⟩
      · rintro ⟨rfl, hq⟩
        split
        · rename_i hfolder
          exact absurd hfolder hq
        · rfl

theorem write_ok {p : Path} {place : Place} (h : fs.creatable p = .ok place) (bytes : List UInt8) :
    fs.write p bytes = .ok (fs.put place (.file bytes)) := by
  rw [write, h]
  rfl

theorem locate_put {p : Path} {place : Place} (h : fs.creatable p = .ok place) (e : Entry) :
    (fs.put place e).locate p = .ok place := by
  obtain ⟨-, hlocate, hplace⟩ := creatable_ok_iff.mp h
  exact locate_keeps (put_keepsFolders hplace e) hlocate

theorem at?_put_creatable {p : Path} {place : Place} (h : fs.creatable p = .ok place) (e : Entry) :
    (fs.put place e).at? place = some e := by
  obtain ⟨-, -, hplace⟩ := creatable_ok_iff.mp h
  exact at?_put_self fs (not_isBase hplace) e

theorem creatable_put {p : Path} {place : Place} (h : fs.creatable p = .ok place) (bytes : List UInt8) :
    (fs.put place (.file bytes)).creatable p = .ok place := by
  obtain ⟨hfolder, -, -⟩ := creatable_ok_iff.mp h
  refine creatable_ok_iff.mpr ⟨hfolder, locate_put h _, ?_⟩
  rw [at?_put_creatable h]
  exact fun hfile => Entry.noConfusion (Option.some.inj hfile)

theorem find_creatable {p : Path} {place : Place} (h : fs.creatable p = .ok place) {bytes : List UInt8}
    (hfile : fs.at? place = some (.file bytes)) : fs.find p = .ok (.file bytes) := by
  obtain ⟨hfolder, hlocate, -⟩ := creatable_ok_iff.mp h
  simp [find, hlocate, hfile, hfolder, bind, Except.bind]

theorem find_write {p : Path} {place : Place} (h : fs.creatable p = .ok place) (bytes : List UInt8) :
    (fs.put place (.file bytes)).find p = .ok (.file bytes) :=
  find_creatable (creatable_put h bytes) (at?_put_creatable h _)

theorem read_write {p : Path} {place : Place} (h : fs.creatable p = .ok place) (bytes : List UInt8) :
    (fs.put place (.file bytes)).read p = .ok bytes := by
  rw [read, find_write h]
  rfl

theorem write_write {p : Path} {place : Place} (h : fs.creatable p = .ok place) (bytes bytes' : List UInt8) :
    (fs.put place (.file bytes)).write p bytes' = .ok (fs.put place (.file bytes')) := by
  rw [write_ok (creatable_put h bytes), put_put]

/-- A file that is written at another place leaves a file where it was found. -/
theorem find_put_of_ne {p : Path} {place other : Place} (h : fs.creatable p = .ok place) {bytes : List UInt8}
    (hfile : fs.at? place = some (.file bytes)) (hother : fs.at? other ≠ some .folder) (hne : place ≠ other)
    (e : Entry) : (fs.put other e).find p = .ok (.file bytes) := by
  obtain ⟨hfolder, hlocate, -⟩ := creatable_ok_iff.mp h
  have hplace := locate_keeps (put_keepsFolders hother e) hlocate
  simp [find, hplace, at?_put_of_ne fs hne, hfile, hfolder, bind, Except.bind]

/-- A file in place of a file changes no walk. -/
theorem locate_put_iff {p : Path} {place q : Place} {bytes : List UInt8} (hfile : fs.at? place = some (.file bytes))
    (bytes' : List UInt8) : (fs.put place (.file bytes')).locate p = .ok q ↔ fs.locate p = .ok q := by
  have hplace : fs.at? place ≠ some .folder := by
    rw [hfile]
    rintro ⟨⟩
  have hback : KeepsFolders (fs.put place (.file bytes')) fs := by
    intro other hfolder
    by_cases hother : other = place
    · subst hother
      rw [at?_put_self fs (not_isBase hplace)] at hfolder
      cases hfolder
    · rwa [at?_put_of_ne fs hother] at hfolder
  exact ⟨locate_keeps hback, locate_keeps (put_keepsFolders hplace _)⟩

theorem openForTrace_ok {fs' : Files} {p : Path} {place : Place} (h : fs.openForTrace p = (fs', .ok place)) :
    fs'.creatable p = .ok place ∧ fs'.at? place = some (.file []) := by
  unfold openForTrace at h
  split at h
  · cases h
  · split at h
    · cases h
    · rename_i made hmade place' hcreatable
      cases h
      exact ⟨creatable_put hcreatable [], at?_put_creatable hcreatable _⟩

/-! ## Texts -/

def holding (fs : Files) (place : Place) (text : List Char) : Files := fs.put place (.file (Utf8.encode text))

theorem save_ok {p : Path} {place : Place} (h : fs.creatable p = .ok place) (notCreated : String) (text : List Char) :
    fs.save p notCreated text = .ok (fs.holding place text) := by
  rw [save, write_ok h]
  rfl

theorem save_error {p : Path} {e : FileError} (h : fs.creatable p = .error e) (notCreated : String)
    (text : List Char) : fs.save p notCreated text = .error (.ofFile notCreated p e) := by
  rw [save, write, h]
  rfl

/-- A text is saved where a file may be written, and nowhere else. -/
theorem creatable_of_save {p : Path} {notCreated : String} {text : List Char} {fs' : Files}
    (h : fs.save p notCreated text = .ok fs') : ∃ place, fs.creatable p = .ok place ∧ fs' = fs.holding place text := by
  unfold save at h
  split at h
  · cases h
  · rename_i hwrite
    obtain ⟨place, hcreatable, hput⟩ := bind_ok hwrite
    cases h
    cases hput
    exact ⟨place, hcreatable, rfl⟩

theorem decode_found {α : Type} {p : Path} {bytes : List UInt8} (h : fs.find p = .ok (.file bytes))
    (notFound notDecoded : String) (decode : List Symbol → Except Json.Fault α) :
    fs.decode p notFound notDecoded decode =
      (decode (Utf8.decode bytes)).mapError (Failure.ofText notDecoded p) := by
  rw [Files.decode, h]
  simp only
  cases decode (Utf8.decode bytes) <;> rfl

/-- A saved text is what its path is decoded from. -/
theorem decode_save {α : Type} {p : Path} {place : Place} (h : fs.creatable p = .ok place) (text : List Char)
    (notFound notDecoded : String) (decode : List Symbol → Except Json.Fault α) :
    (fs.holding place text).decode p notFound notDecoded decode =
      (decode (text.map .char)).mapError (Failure.ofText notDecoded p) := by
  rw [holding, decode_found (find_write h _), Utf8.decode_encode]

theorem save_save {p : Path} {place : Place} (h : fs.creatable p = .ok place) (notCreated : String)
    (text text' : List Char) : (fs.holding place text).save p notCreated text' = .ok (fs.holding place text') := by
  rw [save, holding, write_write h]
  rfl

end Files

end ExpertRouting
