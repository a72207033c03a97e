/-
  ExpertRouting.Proofs.Command.Capture — what the run that is timed leaves.

  The trace is opened before the shape is looked at, and everything is written to it before the
  timing file is. So there are three ways for the run to end (`Captures`): no trace was opened,
  and only folders were made; one was opened for a shape that is then refused, and it is
  empty, since the header is refused for the same shape; or it is the whole trace of the run. A
  run that ends does so in one of them (`capture_captures`), and in each of them all files but
  the trace are those from before (`Captures.keepsFiles`).
-/

import ExpertRouting.Proofs.Command.BatchSize
import ExpertRouting.Proofs.Files.Frame

namespace ExpertRouting.Command.Bench

variable {o : BenchOptions} {fs captured : Files} {result : Except Failure Unit}

/-- The bytes are parsed as the whole trace of a run, its header and a route for every token, and verified. -/
def WholeTrace (o : BenchOptions) (bytes : List UInt8) : Prop :=
  ∃ t, Trace.parse bytes = .ok t ∧ t.verify = .ok () ∧ t.header = (session o).header o.layer ∧
    t.routes.length = o.tokens.toNat

theorem wholeTrace_traceRecords {r r' : Router} {rows : List Row}
    (hrouter : Router.ofSeed? o.seed (session o).shape = some r)
    (hrows : r.routeBatch o.tokens.toNat = some (rows, r')) : WholeTrace o (Writer.lines (traceRecords o rows)) := by
  obtain ⟨t, hparse, hverify, hheader, hpositions⟩ := parse_traceRecords hrouter hrows
  exact ⟨t, hparse, hverify, hheader, by simpa using congrArg List.length hpositions⟩

/-- How the run that is timed ends, by the place of its trace if one was opened, with its result and
    the files after it. -/
inductive Captures (o : BenchOptions) (fs : Files) : Option Place → Except Failure Unit → Files → Prop
  | unopened {made : Files} (result : Except Failure Unit) : fs.KeepsFiles none made → (o.noLog = true → made = fs) →
      Captures o fs none result made
  | refused {made : Files} {place : Place} : fs.KeepsFiles none made → made.creatable o.output = .ok place →
      (session o).shape.sound = false →
      Captures o fs (some place) (.error ⟨Router.shapeMessage (session o).shape, none⟩) (made.put place (.file []))
  | written {made : Files} {place : Place} {r r' : Router} {rows : List Row} : fs.KeepsFiles none made →
      made.creatable o.output = .ok place → Router.ofSeed? o.seed (session o).shape = some r →
      r.routeBatch o.tokens.toNat = some (rows, r') →
      Captures o fs (some place) (.ok ()) (made.put place (.file (Writer.lines (traceRecords o rows))))

theorem Captures.keepsFiles {place : Option Place} (h : Captures o fs place result captured) :
    fs.KeepsFiles place captured := by
  cases h with
  | unopened _ hkeeps _ => exact hkeeps
  | refused hkeeps hplace _ =>
    exact (hkeeps.weaken _).trans (Files.put_keepsFiles (Files.creatable_ok_iff.mp hplace).2.2 _)
  | written hkeeps hplace _ _ =>
    exact (hkeeps.weaken _).trans (Files.put_keepsFiles (Files.creatable_ok_iff.mp hplace).2.2 _)

theorem capture_unopened {c : Capture} {made : Files} (hopen : Capture.openFile (settings o) fs = (c, none, made))
    (h : capture o fs = some (result, captured)) : captured = made := by
  unfold capture at h
  rw [hopen] at h
  simp only [Capture.stored] at h
  split at h
  · cases h
    rfl
  · split at h
    · cases h
    · cases h
      rfl

/-- A shape that is refused leaves an empty trace. -/
theorem capture_refused {opened : Files} {place : Place} (hlog : o.noLog = false)
    (hopen : fs.openForTrace o.output = (opened, .ok place)) (hshape : (session o).shape.sound = false) :
    capture o fs =
      some (.error ⟨Router.shapeMessage (session o).shape, none⟩, opened.put place (.file [])) := by
  have hheader : ((Capture.onto {} o.layer).writeHeader (session o)).2 = Capture.onto {} o.layer := by
    simp [Capture.writeHeader, Capture.onto, hshape]
  unfold capture
  simp only [openFile_of_opened hlog hopen, hheader, Router.ofSeed?, hshape, Bool.false_eq_true, if_false]
  rfl

theorem capture_captures (h : capture o fs = some (result, captured)) :
    Captures o fs (Capture.openFile (settings o) fs).2.1 result captured := by
  cases hlog : o.noLog with
  | true =>
    have hopened : Capture.openFile (settings o) fs = (.disabled o.layer, none, fs) := by
      simp [Capture.openFile, settings, hlog]
    obtain rfl := capture_unopened hopened h
    rw [hopened]
    exact .unopened result (.refl none _) fun _ => rfl
  | false =>
    obtain ⟨made, hkeeps, ⟨e, hopen⟩ | ⟨place, hplace, hopen⟩⟩ := Files.openForTrace_cases fs o.output
    · have hopened : Capture.openFile (settings o) fs = (.disabled o.layer, none, made) := by
        simp [Capture.openFile, settings, hlog, hopen]
      obtain rfl := capture_unopened hopened h
      rw [hopened]
      exact .unopened result hkeeps fun hno => absurd (hno.symm.trans hlog) (by decide)
    · rw [openFile_of_opened hlog hopen]
      cases hrouter : Router.ofSeed? o.seed (session o).shape with
      | none =>
        have hshape : (session o).shape.sound = false := by
          simpa [Router.ofSeed?] using hrouter
        rw [capture_refused hlog hopen hshape, Files.put_put] at h
        cases h
        exact .refused hkeeps hplace hshape
      | some r =>
        obtain ⟨rows, r', hrows⟩ := rows_of_capture hrouter (Option.isSome_iff_exists.mpr ⟨_, h⟩)
        rw [capture_eq hrouter hrows hlog hopen, Files.put_put] at h
        cases h
        exact .written hkeeps hplace hrouter hrows

end ExpertRouting.Command.Bench
