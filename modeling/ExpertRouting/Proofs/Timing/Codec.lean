/-
  ExpertRouting.Proofs.Timing.Codec — what a timing file is read as.

  An entry that is missing has no member, and its slot is left at none; an entry that is
  there is an object of its own (`decode_timing`). So a log is read from its text as the log
  with the seconds of either entry read again (`TimingLog.decode_text`), which fits a file
  again (`TimingLog.Fits.reread`).
-/

import ExpertRouting.Proofs.Json.Number
import ExpertRouting.Proofs.Json.Pretty
import ExpertRouting.Timing

namespace ExpertRouting

open Json

/-- A timing that a file can hold: finite seconds, and tokens that fit 64 bits. -/
structure RunTiming.Fits (t : RunTiming) : Prop where
  seconds : t.seconds.isFinite = true
  tokens : t.tokens < UInt64.size

/-- A timing as it comes back from its text. -/
def RunTiming.reread (t : RunTiming) : RunTiming := { t with seconds := Json.reread t.seconds }

namespace RunTiming

theorem Fits.reread {t : RunTiming} (h : t.Fits) : t.reread.Fits := ⟨(reread?_of_isFinite h.seconds).2, h.tokens⟩

theorem reread_of_readsBack {t : RunTiming} (h : ReadsBack t.seconds) : t.reread = t := by
  rw [RunTiming.reread, Json.reread, readsBack_iff.mp h]
  rfl

theorem decode_timing {t : RunTiming} (h : t.Fits) : ofReading t.toJson.reading = .ok t.reread := by
  have htokens : naturalBelow UInt64.size (Json.ofNat t.tokens).reading = .ok t.tokens :=
    naturalBelow_ofNat h.tokens (Nat.le_refl _)
  have hseconds : real (ofReal t.seconds).reading = .ok t.reread.seconds := by
    have hread := (reread?_of_isFinite h.seconds).1
    rw [reread?_eq] at hread
    cases hreal : real (ofReal t.seconds).reading with
    | error fault =>
      rw [hreal] at hread
      cases hread
    | ok seconds =>
      rw [hreal] at hread
      exact congrArg Except.ok (Option.some.inj hread)
  simp only [toJson, Json.reading, memberReadings, ofReading, foldMembers, Slots.take, fill, hseconds, htokens, bind,
    Except.bind, pure, Except.pure, Except.map]
  rfl

end RunTiming

namespace TimingLog

def entry (log : TimingLog) : RunMode → Option RunTiming
  | .log => log.log
  | .noLog => log.noLog

def Fits (log : TimingLog) : Prop := ∀ mode, ∀ t ∈ log.entry mode, t.Fits

def reread (log : TimingLog) : TimingLog := ⟨log.log.map RunTiming.reread, log.noLog.map RunTiming.reread⟩

@[simp] theorem entry_reread (log : TimingLog) (mode : RunMode) :
    log.reread.entry mode = (log.entry mode).map RunTiming.reread := by
  cases mode <;> rfl

@[simp] theorem entry_record_self (log : TimingLog) (mode : RunMode) (t : RunTiming) :
    (log.record mode t).entry mode = some t := by
  cases mode <;> rfl

theorem entry_record_of_ne (log : TimingLog) {mode mode' : RunMode} (h : mode ≠ mode') (t : RunTiming) :
    (log.record mode' t).entry mode = log.entry mode := by
  cases mode <;> cases mode' <;> first | rfl | exact absurd rfl h

theorem Fits.record {log : TimingLog} (h : log.Fits) {t : RunTiming} (ht : t.Fits) (mode : RunMode) :
    (log.record mode t).Fits := by
  intro mode' t' ht'
  by_cases hmode : mode' = mode
  · subst hmode
    rw [entry_record_self] at ht'
    cases ht'
    exact ht
  · rw [entry_record_of_ne log hmode] at ht'
    exact h mode' t' ht'

theorem Fits.reread {log : TimingLog} (h : log.Fits) : log.reread.Fits := by
  intro mode t ht
  rw [entry_reread] at ht
  obtain ⟨t', ht', rfl⟩ := Option.map_eq_some_iff.mp ht
  exact (h mode t' ht').reread

theorem toJson_sound (log : TimingLog) : log.toJson.Sound := by
  have htiming : ∀ t : RunTiming, t.toJson.Sound := fun t => ⟨ofReal_sound _, Numeral.ofNat_sound _, trivial⟩
  obtain ⟨l, n⟩ := log
  cases l <;> cases n
  · exact trivial
  · exact ⟨htiming _, trivial⟩
  · exact ⟨htiming _, trivial⟩
  · exact ⟨htiming _, htiming _, trivial⟩

/-- A log is decoded from its text as the log with the seconds of its entries read again. -/
theorem decode_text {log : TimingLog} (h : log.Fits) : decode (log.text.map .char) = .ok log.reread := by
  have hentry : ∀ mode, ∀ t ∈ log.entry mode, nullable RunTiming.ofReading t.toJson.reading = .ok (some t.reread) := by
    intro mode t ht
    show (RunTiming.ofReading t.toJson.reading).map some = _
    rw [RunTiming.decode_timing (h mode t ht)]
    rfl
  have hdecode : decodeText ofReading ((log.toJson.pretty ++ []).map .char) = ofReading log.toJson.reading :=
    decodeText_pretty ofReading log.toJson_sound (fun c hc => by cases hc)
  rw [List.append_nil] at hdecode
  rw [decode, text, hdecode]
  obtain ⟨l, n⟩ := log
  cases l with
  | none =>
    cases n with
    | none => rfl
    | some n =>
      have hn := hentry .noLog n rfl
      simp only [toJson, member, Json.reading, List.nil_append, memberReadings, ofReading, foldMembers, Slots.take, fill,
        hn, bind, Except.bind, pure, Except.pure, Except.map]
      rfl
  | some l =>
    have hl := hentry .log l rfl
    cases n with
    | none =>
      simp only [toJson, member, Json.reading, List.append_nil, memberReadings, ofReading, foldMembers, Slots.take, fill,
        hl, bind, Except.bind, pure, Except.pure, Except.map]
      rfl
    | some n =>
      have hn := hentry .noLog n rfl
      simp only [toJson, member, Json.reading, List.singleton_append, memberReadings, ofReading, foldMembers, Slots.take,
        fill, hl, hn, bind, Except.bind, pure, Except.pure, Except.map]
      rfl

end TimingLog

end ExpertRouting
