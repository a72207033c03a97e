/-
  ExpertRouting.Proofs.Timing.Rounds — the timing file over many runs.

  A run loads the file, replaces the entry of its mode and saves the file. So every round
  writes the other entry once more as it was read, and an entry has been read once for its own
  round and once for each one since. A round finds the file that the one before it left
  (`Holds.round`), so none fails, and after all of them the entry of a mode is the timing of
  its last round, with exactly its tokens and with its seconds read as often
  (`timing_file_keeps_the_last_of_each_mode`). Seconds that read back are thereby kept; the
  time of a run need not read back (`a_run_time_is_not_read_back`).
-/

import Mathlib.Logic.Function.Iterate
import ExpertRouting.Proofs.Files.Write
import ExpertRouting.Proofs.Timing.Codec

namespace ExpertRouting

namespace RunTiming

theorem reread_iterate (n : Nat) (t : RunTiming) : reread^[n] t = ⟨Json.reread^[n] t.seconds, t.tokens⟩ := by
  induction n generalizing t with
  | zero => rfl
  | succ n ih => rw [Function.iterate_succ_apply, Function.iterate_succ_apply, ih, reread]

theorem reread_iterate_of_readsBack {t : RunTiming} (h : Json.ReadsBack t.seconds) (n : Nat) : reread^[n] t = t :=
  Function.iterate_fixed (reread_of_readsBack h) n

end RunTiming

namespace TimingLog

/-- One round: the log is loaded, an entry replaced, and the log saved. -/
def round (fs : Files) (path : Path) (mode : RunMode) (t : RunTiming) : Except Failure Files := do
  let log ← load fs path
  (log.record mode t).save fs path

def rounds (fs : Files) (path : Path) : List (RunMode × RunTiming) → Except Failure Files
  | [] => .ok fs
  | (mode, t) :: rest => do
    let fs ← round fs path mode t
    rounds fs path rest

/-- A file may be written at the path, and what is loaded from it is the log. -/
structure Holds (path : Path) (place : Place) (log : TimingLog) (fs : Files) : Prop where
  creatable : fs.creatable path = .ok place
  load : TimingLog.load fs path = .ok log
  fits : log.Fits

variable {path : Path} {place : Place} {log : TimingLog} {fs : Files}

theorem holds_missing (hmissing : fs.missing path = true) (hpath : fs.creatable path = .ok place) :
    Holds path place {} fs := by
  refine ⟨hpath, ?_, ?_⟩
  · rw [TimingLog.load, if_pos hmissing]
  · intro mode t ht
    cases mode <;> cases ht

theorem load_found {bytes : List UInt8} (h : fs.find path = .ok (.file bytes)) : load fs path =
    (decode (Utf8.decode bytes)).mapError (Failure.ofText "Failed to parse timing file at " path) := by
  have hfound : fs.missing path = false := by rw [Files.missing, h]
  rw [load, if_neg (by rw [hfound]; decide), Files.decode_found h]

theorem load_holding (hpath : fs.creatable path = .ok place) (hfits : log.Fits) :
    load (fs.holding place log.text) path = .ok log.reread := by
  rw [Files.holding, load_found (Files.find_write hpath _), Utf8.decode_encode, decode_text hfits]
  rfl

/-- A round leaves a file that holds the log with its entry replaced, all read again. -/
theorem Holds.round (h : Holds path place log fs) (mode : RunMode) {t : RunTiming} (ht : t.Fits) :
    ∃ fs', TimingLog.round fs path mode t = .ok fs' ∧ Holds path place (log.record mode t).reread fs' := by
  have hfits := h.fits.record ht mode
  refine ⟨fs.holding place (log.record mode t).text, ?_, ?_⟩
  · rw [TimingLog.round, h.load]
    exact Files.save_ok h.creatable _ _
  · exact ⟨Files.creatable_put h.creatable _, load_holding h.creatable hfits, hfits.reread⟩

def after (log : TimingLog) (runs : List (RunMode × RunTiming)) : TimingLog :=
  runs.foldl (fun log run => (log.record run.1 run.2).reread) log

theorem Holds.rounds {runs : List (RunMode × RunTiming)} (hruns : ∀ run ∈ runs, run.2.Fits)
    (h : Holds path place log fs) :
    ∃ fs', TimingLog.rounds fs path runs = .ok fs' ∧ Holds path place (log.after runs) fs' := by
  induction runs generalizing log fs with
  | nil => exact ⟨fs, rfl, h⟩
  | cons run runs ih =>
    obtain ⟨mode, t⟩ := run
    obtain ⟨next, hround, hnext⟩ := h.round mode (hruns _ List.mem_cons_self)
    obtain ⟨fs', hrounds, hholds⟩ := ih (fun run hrun => hruns run (List.mem_cons_of_mem _ hrun)) hnext
    refine ⟨fs', ?_, hholds⟩
    rw [TimingLog.rounds, hround]
    exact hrounds

/-- Rounds of the other mode only read an entry again. -/
theorem entry_after_of_other {mode : RunMode} {runs : List (RunMode × RunTiming)} (h : ∀ run ∈ runs, run.1 ≠ mode)
    (log : TimingLog) : (log.after runs).entry mode = (log.entry mode).map RunTiming.reread^[runs.length] := by
  induction runs generalizing log with
  | nil => exact Option.map_id'.symm
  | cons run runs ih =>
    have hother := h run List.mem_cons_self
    have hrest := ih (fun run hrun => h run (List.mem_cons_of_mem _ hrun)) (log.record run.1 run.2).reread
    rw [entry_reread, entry_record_of_ne log hother.symm, Option.map_map] at hrest
    exact hrest

/-- The last round of a mode sets its entry; later rounds only read it again. -/
theorem entry_after_last {mode : RunMode} {later : List (RunMode × RunTiming)} (h : ∀ run ∈ later, run.1 ≠ mode)
    (before : List (RunMode × RunTiming)) (t : RunTiming) (log : TimingLog) :
    (log.after (before ++ (mode, t) :: later)).entry mode = some (RunTiming.reread^[later.length + 1] t) := by
  have hsplit : log.after (before ++ (mode, t) :: later) = (((log.after before).record mode t).reread).after later :=
    List.foldl_append
  rw [hsplit, entry_after_of_other h, entry_reread, entry_record_self]
  rfl

/-- Rounds on a path where no file is, but one may be written: any number of them, of either mode
    in any order, with any finite seconds and any tokens of 64 bits. None of them fails, and the log
    that is loaded at the end has no entry of a mode without a round, and otherwise that of its
    last round: its tokens, and its seconds read again once for that round and once for each one
    since. The entry is the timing of that round whenever its seconds read back. -/
theorem timing_file_keeps_the_last_of_each_mode {fs : Files} {path : Path} {place : Place}
    (hmissing : fs.missing path = true) (hpath : fs.creatable path = .ok place) {runs : List (RunMode × RunTiming)}
    (hruns : ∀ run ∈ runs, run.2.Fits) :
    ∃ fs' log, rounds fs path runs = .ok fs' ∧ load fs' path = .ok log ∧
      ∀ mode, ((∀ run ∈ runs, run.1 ≠ mode) → log.entry mode = none) ∧
        ∀ before t later, runs = before ++ (mode, t) :: later → (∀ run ∈ later, run.1 ≠ mode) →
          log.entry mode = some ⟨Json.reread^[later.length + 1] t.seconds, t.tokens⟩ ∧
            (Json.ReadsBack t.seconds → log.entry mode = some t) := by
  obtain ⟨fs', hrounds, hholds⟩ := (holds_missing hmissing hpath).rounds hruns
  refine ⟨fs', _, hrounds, hholds.load, fun mode => ⟨fun hnone => ?_, ?_⟩⟩
  · rw [entry_after_of_other hnone]
    cases mode <;> rfl
  · rintro before t later rfl hlater
    have hentry := entry_after_last hlater before t {}
    refine ⟨hentry.trans (congrArg some (RunTiming.reread_iterate _ t)), fun hback => ?_⟩
    rw [hentry, RunTiming.reread_iterate_of_readsBack hback]

/-- Three rounds, the last of them with the largest number of tokens. -/
theorem three_rounds_keep_both_modes :
    let quarter : Real64 := Binary.ofDecimal binary64 false 25 (-2)
    let runs : List (RunMode × RunTiming) :=
      [(.log, ⟨quarter, 64⟩), (.noLog, ⟨Binary.zero true, 7⟩), (.log, ⟨quarter, 18446744073709551615⟩)]
    ∃ fs' log, rounds Files.empty "timing.json" runs = .ok fs' ∧ load fs' "timing.json" = .ok log ∧
      log.log = some ⟨quarter, 18446744073709551615⟩ ∧ log.noLog = some ⟨Binary.zero true, 7⟩ := by
  intro quarter runs
  have hmissing : Files.empty.missing "timing.json" = true := by decide +kernel
  have hpath : Files.empty.creatable "timing.json" = .ok ⟨.above 0, ["timing.json"]⟩ := by decide +kernel
  have hquarter : Json.ReadsBack quarter := by decide +kernel
  have hzero : Json.ReadsBack (Binary.zero true) := by decide +kernel
  have hruns : ∀ run ∈ runs, run.2.Fits := by
    intro run hrun
    simp only [runs, List.mem_cons, List.not_mem_nil, or_false] at hrun
    clear_value quarter
    rcases hrun with rfl | rfl | rfl
    · exact ⟨hquarter.1, show 64 < UInt64.size by decide⟩
    · exact ⟨hzero.1, show 7 < UInt64.size by decide⟩
    · exact ⟨hquarter.1, show 18446744073709551615 < UInt64.size by decide⟩
  obtain ⟨fs', log, hrounds, hload, hentry⟩ :=
    timing_file_keeps_the_last_of_each_mode hmissing hpath hruns
  clear_value quarter
  refine ⟨fs', log, hrounds, hload, ?_, ?_⟩
  · exact ((hentry .log).2 (runs.take 2) _ [] rfl (by simp)).2 hquarter
  · exact ((hentry .noLog).2 (runs.take 1) _ (runs.drop 2) rfl (by simp [runs])).2 hzero

/-- A run of one second and fourteen hundredths. Its time in seconds is a neighbour of 1.14, and is
    loaded as 1.14 from the file that the run leaves; and a run of the other mode writes that back. -/
theorem a_run_time_is_not_read_back :
    let t := RunTiming.ofDuration (Duration.of 1 140000000) 64
    let t' : RunTiming := ⟨Binary.ofDecimal binary64 false 114 (-2), 64⟩
    let other : RunTiming := ⟨Binary.ofNat binary64 1, 64⟩
    let loaded := fun runs => (do load (← rounds Files.empty "timing.json" runs) "timing.json").toOption
    t ≠ t' ∧ t.Fits ∧ loaded [(.log, t)] = some { log := some t' } ∧
      loaded [(.log, t), (.noLog, other)] = some { log := some t', noLog := some other } := by
  refine ⟨by decide +kernel, ⟨by decide +kernel, by decide⟩, by decide +kernel, by decide +kernel⟩

end TimingLog

end ExpertRouting
