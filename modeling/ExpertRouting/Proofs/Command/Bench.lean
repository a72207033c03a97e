/-
  ExpertRouting.Proofs.Command.Bench — the trace that a bench run leaves.

  The sink of a run has the file of its trace for itself, and that is a stream that never
  fails; so the file gets the header and the routes of all rows (`capture_eq`), and it is
  parsed and verified. Afterwards the time is booked. That touches the trace only if the
  timing path leads to the same file: then the trace is read as a timing log, which fails as
  soon as it has a route, and nothing is written (`finish_keeps_trace`). A header alone is an
  object without entries, and is replaced (`a_run_without_tokens_loses_its_trace`). In every
  other run the trace is complete (`bench_trace_is_complete`).
-/

import ExpertRouting.Proofs.Command.Batches
import ExpertRouting.Proofs.Timing.Rounds
import ExpertRouting.Proofs.Trace.Reread

namespace ExpertRouting.Command

namespace Bench

/-! ## The trace -/

def sizes (o : BenchOptions) : List Nat := batchSizes (max o.batch.toNat 1) o.tokens.toNat

/-- The records of a run: its header, then the routes of its batches. -/
def traceRecords (o : BenchOptions) (rows : List Row) : List Record :=
  .header ((session o).header o.layer) :: (batchRoutes o.layer (sizes o) rows).map .route

theorem traceRoutes_positions {o : BenchOptions} {rows : List Row} (h : rows.length = o.tokens.toNat) :
    (batchRoutes o.layer (sizes o) rows).map (fun route => (route.requestId, route.token)) =
      (List.range o.tokens.toNat).map fun i =>
        (Capture.mintedId (i / max o.batch.toNat 1), UInt64.ofNat (i % max o.batch.toNat 1)) := by
  have hsum : (sizes o).sum = rows.length := (sum_batchSizes _ _).trans h.symm
  rw [batchRoutes_positions o.layer hsum, sizes, positions_batchSizes (by omega), List.map_map]
  rfl

theorem openFile_of_opened {o : BenchOptions} {fs opened : Files} {place : Place} (hlog : o.noLog = false)
    (hopen : fs.openForTrace o.output = (opened, .ok place)) :
    Capture.openFile (settings o) fs = (Capture.onto {} o.layer, some place, opened) := by
  simp only [Capture.openFile, settings, hlog, Bool.false_eq_true, if_false, hopen]

section

variable {o : BenchOptions} {rows : List Row} {r r' : Router}
  (hrouter : Router.ofSeed? o.seed (session o).shape = some r) (hrows : r.routeBatch o.tokens.toNat = some (rows, r'))

include hrouter hrows

theorem rows_fit : ∀ row ∈ rows, row.Fits (session o).shape := by
  obtain ⟨hsound, hshape⟩ := Router.ofSeed_eq_some hrouter
  have hfits := Router.routeBatch_fits (by rw [hshape]; exact Shape.numExperts_pos hsound) hrows
  rwa [hshape] at hfits

/-- A run whose file is opened and whose rows are drawn leaves its records in the file. -/
theorem capture_eq {fs fs' : Files} {place : Place} (hlog : o.noLog = false)
    (hopen : fs.openForTrace o.output = (fs', .ok place)) :
    capture o fs = some (.ok (), fs'.put place (.file (Writer.lines (traceRecords o rows)))) := by
  have hstream : ({} : Stream).NeverFails := ⟨by simp, by simp⟩
  have hsound := (Router.ofSeed_eq_some hrouter).1
  obtain ⟨hrecording, hminted⟩ := Capture.begun_recording hstream o.layer hsound
  obtain ⟨-, -, hheader⟩ := Capture.begun_logging hstream o.layer hsound
  have hsum : (sizes o).sum = o.tokens.toNat := sum_batchSizes _ _
  have hbytes := recording_batchCalls o.layer (hsum.trans (Router.length_routeBatch hrows).symm).ge
    (rows_fit hrouter hrows) (Router.routeBatch_isFinite hrows) hrecording hminted
  have hdrive := drive_eq o.layer (by rw [hsum]; exact hrows) (Capture.begun {} o.layer (session o))
  have hclosed : ∀ c : Capture, c.close.stored (some place) fs' = fs'.put place (.file c.bytes) := by
    intro c
    rw [← Capture.close_bytes c]
    rfl
  unfold capture
  rw [openFile_of_opened hlog hopen]
  simp only [hrouter]
  rw [show ((Capture.onto {} o.layer).writeHeader (session o)).2 = Capture.begun {} o.layer (session o) from rfl,
    show batchSizes (max o.batch.toNat 1) o.tokens.toNat = sizes o from rfl, hdrive]
  simp only [hclosed, hbytes, hheader, traceRecords]
  rw [show ({} : Stream).bytes = [] from rfl, List.nil_append, ← Writer.lines_append]
  rfl

/-- The bytes of a complete trace are parsed as the header of the run and a route for every token,
    each at its place, and the trace is verified. -/
theorem parse_traceRecords :
    ∃ t, Trace.parse (Writer.lines (traceRecords o rows)) = .ok t ∧ t.verify = .ok () ∧
      t.header = (session o).header o.layer ∧
      t.routes.map (fun route => (route.requestId, route.token)) =
        (List.range o.tokens.toNat).map fun i =>
          (Capture.mintedId (i / max o.batch.toNat 1), UInt64.ofNat (i % max o.batch.toNat 1)) := by
  have hlength := Router.length_routeBatch hrows
  have hsum : (sizes o).sum = o.tokens.toNat := sum_batchSizes _ _
  have hroutes := batchRoutes_sound o.layer (hsum.trans hlength.symm).ge (rows_fit hrouter hrows)
    (Router.routeBatch_isFinite hrows)
  obtain ⟨routes, hparse, hresembles⟩ :=
    Trace.parse_written ((session o).header o.layer) fun route hroute => (hroutes route hroute).1
  refine ⟨_, hparse, ?_, rfl, ?_⟩
  · exact Trace.verify_resembling hresembles fun route hroute => (hroutes route hroute).2
  · rw [Route.Resembles.positions hresembles, traceRoutes_positions hlength]

end

theorem at_position {routes : List Route} {b : Nat} {tokens : UInt64}
    (h : routes.map (fun route => (route.requestId, route.token)) =
      (List.range tokens.toNat).map fun i => (Capture.mintedId (i / b), UInt64.ofNat (i % b)))
    (i : Nat) (route : Route) (hroute : routes[i]? = some route) :
    route.requestId = "r" ++ decimal (i / b) ∧ route.token.toNat = i % b := by
  have hposition := congrArg (fun positions => positions[i]?) h
  simp only [List.getElem?_map, hroute, Option.map_some] at hposition
  obtain ⟨j, hj, hpair⟩ := Option.map_eq_some_iff.mp hposition.symm
  obtain ⟨hi, hj⟩ := List.getElem?_eq_some_iff.mp hj
  rw [List.length_range] at hi
  rw [List.getElem_range] at hj
  subst hj
  obtain ⟨hid, htoken⟩ := Prod.mk.inj hpair
  refine ⟨hid.symm, ?_⟩
  -- the number is no more than the position, so it is not cut
  have hlt : i % b < UInt64.size := (Nat.mod_le i b).trans_lt (hi.trans tokens.toNat_lt)
  rw [← htoken, UInt64.toNat_ofNat_of_lt' hlt]

/-! ## The time -/

/-- A run that ends fails before the time is booked, or books it. -/
theorem bench_cases {o : BenchOptions} {elapsed : Duration} {fs : Files} {outcome : Outcome}
    (h : bench o elapsed fs = some outcome) :
    ∃ result captured, capture o fs = some (result, captured) ∧
      ((∃ e, result = .error e ∧ outcome = { failure := some e, files := captured }) ∨
        result = .ok () ∧ outcome = finish o elapsed captured) := by
  unfold bench at h
  split at h
  · cases h
  · rename_i e captured hcapture
    cases h
    exact ⟨_, captured, hcapture, .inl ⟨e, rfl, rfl⟩⟩
  · rename_i captured hcapture
    cases h
    exact ⟨_, captured, hcapture, .inr ⟨rfl, rfl⟩⟩

/-- Booking the time fails and changes nothing, or writes the log with the new entry and nothing else. -/
theorem finish_cases (o : BenchOptions) (elapsed : Duration) (fs : Files) :
    (∃ e, (finish o elapsed fs).failure = some e ∧ (finish o elapsed fs).files = fs) ∨
      ∃ log place, TimingLog.load fs o.timing = .ok log ∧ fs.creatable o.timing = .ok place ∧
        (finish o elapsed fs).failure = none ∧
        (finish o elapsed fs).files =
          fs.holding place (log.record (mode o) (.ofDuration elapsed o.tokens.toNat)).text := by
  unfold finish
  simp only
  split
  · exact .inl ⟨_, rfl, rfl⟩
  · rename_i log hload
    split
    · exact .inl ⟨_, rfl, rfl⟩
    · rename_i saved hsave
      obtain ⟨place, htiming, rfl⟩ := Files.creatable_of_save hsave
      exact .inr ⟨log, place, hload, htiming, rfl, rfl⟩

/-- Booking the time leaves a file as it is unless that file is read as a timing log. -/
theorem finish_keeps_trace {o : BenchOptions} {fs : Files} {place : Place} {bytes : List UInt8}
    (hpath : fs.creatable o.output = .ok place) (hfile : fs.at? place = some (.file bytes))
    (hother : fs.locate o.timing = .ok place → ∀ log, TimingLog.decode (Utf8.decode bytes) ≠ .ok log)
    (elapsed : Duration) : (finish o elapsed fs).files.find o.output = .ok (.file bytes) := by
  rcases finish_cases o elapsed fs with ⟨e, -, hfiles⟩ | ⟨log, other, hload, htiming, -, hfiles⟩
  · rw [hfiles]
    exact Files.find_creatable hpath hfile
  · obtain ⟨-, hlocate, hplace⟩ := Files.creatable_ok_iff.mp htiming
    rw [hfiles]
    refine Files.find_put_of_ne hpath hfile hplace ?_ _
    rintro rfl
    -- the log was loaded from the very file
    rw [TimingLog.load_found (Files.find_creatable htiming hfile)] at hload
    cases hdecode : TimingLog.decode (Utf8.decode bytes) with
    | error fault =>
      rw [hdecode] at hload
      cases hload
    | ok found => exact hother hlocate found hdecode

theorem trace_not_timing {o : BenchOptions} {rows : List Row} (h : rows ≠ []) (hlength : rows.length = o.tokens.toNat)
    (log : TimingLog) : TimingLog.decode (Utf8.decode (Writer.lines (traceRecords o rows))) ≠ .ok log := by
  have hcount := congrArg List.length (traceRoutes_positions hlength)
  simp only [List.length_map, List.length_range] at hcount
  unfold traceRecords
  cases hroutes : batchRoutes o.layer (sizes o) rows with
  | nil =>
    rw [hroutes] at hcount
    exact absurd (List.eq_nil_of_length_eq_zero (hlength.trans hcount.symm)) h
  | cons route routes => exact Writer.lines_not_decoded _ _ _ _ log

/-- Booking the time leaves a written trace, unless it has no route and the timing path leads to it. -/
theorem finish_keeps_written {o : BenchOptions} {fs : Files} {place : Place} {r r' : Router} {rows : List Row}
    (hpath : fs.creatable o.output = .ok place) (hrows : r.routeBatch o.tokens.toNat = some (rows, r'))
    (hother : o.tokens = 0 →
      (fs.put place (.file (Writer.lines (traceRecords o rows)))).locate o.timing ≠ .ok place)
    (elapsed : Duration) :
    (finish o elapsed (fs.put place (.file (Writer.lines (traceRecords o rows))))).files.read o.output =
      .ok (Writer.lines (traceRecords o rows)) := by
  have hkept := finish_keeps_trace (Files.creatable_put hpath (Writer.lines (traceRecords o rows)))
    (Files.at?_put_creatable hpath _) (fun hlocate log => ?_) elapsed
  · rw [Files.read, hkept]
    rfl
  · refine trace_not_timing (fun hnone => ?_) (Router.length_routeBatch hrows) log
    have hzero : o.tokens = 0 := by
      rw [← UInt64.toNat_inj, ← Router.length_routeBatch hrows, hnone]
      rfl
    exact hother hzero hlocate

end Bench

/-- A bench run that captures, with any options and any files before it, whose output file can be
    opened, of a shape with at least one expert a token and no more than there are, whose router
    draws all its rows to their end; it takes any time, and books it in any file but its trace if
    it has no tokens. The run ends, however booking the time does. The file at the output path is
    then loaded as a trace and verified, with the layer, the shape and the seed in its header and as
    many routes as tokens. The route at position `i` is that of token `i % b` of request `i / b`,
    with `b` the batch size, or one if that is zero. -/
theorem bench_trace_is_complete {o : BenchOptions} {fs fs' : Files} {place : Place} (hlog : o.noLog = false)
    (hopen : fs.openForTrace o.output = (fs', .ok place)) (hleast : 1 ≤ o.topK) (hmost : o.topK ≤ o.experts)
    (hreturns : ∀ r, Router.ofSeed? o.seed ⟨o.topK, o.experts⟩ = some r →
      (r.routeBatch o.tokens.toNat).isSome = true)
    (hbooked : o.tokens = 0 → fs'.locate o.timing ≠ .ok place) (elapsed : Duration) :
    let b := max o.batch.toNat 1
    ∃ outcome t, bench o elapsed fs = some outcome ∧ Trace.load outcome.files o.output = .ok t ∧
      t.verify = .ok () ∧ t.header.layersLogged = [o.layer] ∧ t.header.topK = o.topK ∧
      t.header.numExperts = o.experts ∧ t.header.seed = some o.seed ∧ t.routes.length = o.tokens.toNat ∧
      ∀ (i : Nat) (route : Route), t.routes[i]? = some route →
        route.requestId = "r" ++ decimal (i / b) ∧ route.token.toNat = i % b := by
  intro b
  have hsound : Router.ofSeed? o.seed ⟨o.topK, o.experts⟩ = some ⟨o.seed ||| 1, ⟨o.topK, o.experts⟩⟩ := by
    have hpos : 0 < o.topK := UInt64.lt_iff_toNat_lt.mpr (UInt64.le_iff_toNat_le.mp hleast)
    simp [Router.ofSeed?, Shape.sound, hpos, hmost]
  obtain ⟨⟨rows, r'⟩, hrows⟩ := Option.isSome_iff_exists.mp (hreturns _ hsound)
  have hcapture := Bench.capture_eq hsound hrows hlog hopen
  obtain ⟨t, hparse, hverify, hheader, hpositions⟩ := Bench.parse_traceRecords hsound hrows
  obtain ⟨hcreatable, hempty⟩ := Files.openForTrace_ok hopen
  have hfile := Files.at?_put_creatable hcreatable (.file (Writer.lines (Bench.traceRecords o rows)))
  have hother : (fs'.put place (.file (Writer.lines (Bench.traceRecords o rows)))).locate o.timing = .ok place →
      ∀ log, TimingLog.decode (Utf8.decode (Writer.lines (Bench.traceRecords o rows))) ≠ .ok log := by
    intro hlocate
    refine Bench.trace_not_timing ?_ (Router.length_routeBatch hrows)
    intro hnone
    have hzero : o.tokens = 0 := by
      rw [← UInt64.toNat_inj, ← Router.length_routeBatch hrows, hnone]
      rfl
    exact hbooked hzero ((Files.locate_put_iff hempty _).mp hlocate)
  have hkept := Bench.finish_keeps_trace (Files.creatable_put hcreatable _) hfile hother elapsed
  refine ⟨_, t, by rw [bench, hcapture], ?_, hverify, ?_⟩
  · rw [Trace.load, Files.read, hkept]
    exact hparse
  · rw [hheader]
    refine ⟨rfl, rfl, rfl, rfl, ?_, Bench.at_position hpositions⟩
    simpa using congrArg List.length hpositions

theorem three_tokens_are_two_requests :
    let o : BenchOptions :=
      { output := "runs/moe_routes.jsonl", layer := 3, tokens := 3, batch := 2, topK := 2, experts := 3, seed := 7 }
    ∃ outcome header first second third, bench o ⟨1, 140000000, by decide⟩ Files.empty = some outcome ∧
      Trace.load outcome.files o.output = .ok ⟨header, [first, second, third]⟩ ∧ header.layersLogged = [3] ∧
      first.requestId = "r0" ∧ second.requestId = "r0" ∧ second.token.toNat = 1 ∧ third.requestId = "r1" ∧
      third.token.toNat = 0 := by
  intro o
  have hopened : (Files.empty.openForTrace o.output).2 = .ok ⟨.above 0, ["runs", "moe_routes.jsonl"]⟩ := by
    decide +kernel
  rcases hopen : Files.empty.openForTrace o.output with ⟨fs', opened⟩
  rw [hopen] at hopened
  obtain rfl : opened = _ := hopened
  have hseeded : Router.ofSeed? o.seed ⟨o.topK, o.experts⟩ = some ⟨7, ⟨2, 3⟩⟩ := by decide +kernel
  have hreturns : ∀ r, Router.ofSeed? o.seed ⟨o.topK, o.experts⟩ = some r →
      (r.routeBatch o.tokens.toNat).isSome = true := by
    intro r hr
    rw [← Option.some.inj (hseeded.symm.trans hr)]
    decide +kernel
  have hbooked : o.tokens = 0 → fs'.locate o.timing ≠ .ok ⟨.above 0, ["runs", "moe_routes.jsonl"]⟩ := by
    intro hzero
    exact absurd hzero (by decide)
  obtain ⟨outcome, ⟨header, routes⟩, hbench, hload, -, hlayers, -, -, -, hlength, hroutes⟩ :=
    bench_trace_is_complete (o := o) rfl hopen (by decide) (by decide) hreturns hbooked ⟨1, 140000000, by decide⟩
  obtain ⟨first, second, third, rfl⟩ := List.length_eq_three.mp hlength
  have hfirst := hroutes 0 first rfl
  have hsecond := hroutes 1 second rfl
  have hthird := hroutes 2 third rfl
  exact ⟨outcome, header, first, second, third, hbench, hload, hlayers, hfirst.1.trans (by decide +kernel),
    hsecond.1.trans (by decide +kernel), hsecond.2.trans (by decide), hthird.1.trans (by decide +kernel),
    hthird.2.trans (by decide)⟩

/-- A run of no tokens that books its time in its own trace: it succeeds, and the trace is gone. -/
theorem a_run_without_tokens_loses_its_trace :
    let o : BenchOptions := { output := "timing.json", tokens := 0 }
    (Files.empty.openForTrace o.output).2.toOption.isSome = true ∧
      (bench o ⟨0, 0, by decide⟩ Files.empty).map
        (fun outcome => (outcome.failure, (Trace.load outcome.files o.output).toOption)) = some (none, none) := by
  decide +kernel

end ExpertRouting.Command
