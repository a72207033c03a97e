/-
  ExpertRouting.Proofs.Command.BatchSize — the batch size only decides how requests are cut.

  A router goes on where it stopped, so rows drawn in two parts are the rows drawn together
  (`Router.routeBatch_add`). A bench run that ends has therefore drawn the rows of all its
  tokens, whatever the sizes of its batches (`drive_isSome`), and its routes choose what the
  rows do (`batchRoutes_choices`). What a trace is parsed as depends on nothing else as far as
  experts and weights go (`Trace.parse_lines_choices`), and of the report only the number of
  requests does (`batches_only_cut_requests`).
-/

import ExpertRouting.Proofs.Command.Bench
import ExpertRouting.Proofs.Report.Counts

namespace ExpertRouting

def Route.choice (r : Route) : List UInt32 × List Real64 := (r.experts, r.weights)

def Row.choice (row : Row) : List UInt32 × List Real64 :=
  (row.experts, (row.weights.map (Binary.convert binary64)).map roundWeight)

/-! ## Drawing -/

/-- Rows drawn in two parts, the second where the first stopped, are those drawn together. -/
theorem Router.routeBatch_add (r : Router) (m n : Nat) :
    r.routeBatch (m + n) = (r.routeBatch m).bind fun first =>
      (first.2.routeBatch n).map fun second => (first.1 ++ second.1, second.2) := by
  refine Option.ext fun ⟨rows, r'⟩ => ?_
  rw [Router.routeBatch_add_iff]
  simp only [Option.bind_eq_some_iff, Option.map_eq_some_iff, Prod.exists, Prod.mk.injEq]
  constructor
  · rintro ⟨first, next, second, hfirst, hsecond, rfl⟩
    exact ⟨first, next, hfirst, second, r', hsecond, rfl, rfl⟩
  · rintro ⟨first, next, hfirst, second, last, hsecond, rfl, rfl⟩
    exact ⟨first, next, second, hfirst, hsecond, rfl⟩

theorem Batch.ofRows_choices (rows : List Row) (requestId : String) (layer : UInt64) (first : Nat) :
    ((ofRows rows).routes requestId layer first).map Route.choice = rows.map Row.choice := by
  rw [routes, rows_ofRows, List.map_map, List.zipIdx_map, List.map_map]
  conv_rhs => rw [← List.zipIdx_map_fst 0 rows, List.map_map]
  rfl

/-! ## Reading -/

theorem Route.choice_of_reread {r r' : Route} (h : r.reread? = some r') :
    some r'.choice = (r.choice.2.mapM Json.reread?).map fun weights => (r.choice.1, weights) := by
  obtain ⟨weights, hweights, rfl⟩ := Option.map_eq_some_iff.mp h
  show _ = (r.weights.mapM Json.reread?).map _
  rw [hweights]
  rfl

theorem Trace.parse_lines_choices {records records' : List Record} {t t' : Trace}
    (ht : parse (Writer.lines records) = .ok t) (ht' : parse (Writer.lines records') = .ok t')
    (h : (records'.filterMap Record.route?).map Route.choice = (records.filterMap Record.route?).map Route.choice) :
    t'.routes.map Route.choice = t.routes.map Route.choice := by
  have hread : ∀ {records : List Record} {t : Trace}, parse (Writer.lines records) = .ok t →
      (t.routes.map Route.choice).map some = ((records.filterMap Record.route?).map Route.choice).map fun choice =>
        (choice.2.mapM Json.reread?).map fun weights => (choice.1, weights) := by
    intro records t ht
    rw [List.map_map, List.map_map]
    refine map_eq_of_forall₂ _ _ ?_ (parse_lines_iff.mp ht).2
    exact fun _ _ hr => Route.choice_of_reread hr
  refine List.map_injective_iff.mpr (Option.some_injective _) ?_
  rw [hread ht, hread ht', h]

namespace Command.Bench

theorem drive_isSome {layer : UInt64} {sizes : List Nat} {r : Router} {c : Capture}
    (h : (drive layer r c sizes).isSome = true) : (r.routeBatch sizes.sum).isSome = true := by
  induction sizes generalizing r c with
  | nil => rfl
  | cons n sizes ih =>
    rw [List.sum_cons, Router.routeBatch_add]
    rw [drive] at h
    cases hfirst : r.routeBatch n with
    | none =>
      rw [hfirst] at h
      cases h
    | some first =>
      rw [hfirst] at h
      rw [Option.bind_some, Option.isSome_map]
      exact ih h

theorem rows_of_capture {o : BenchOptions} {fs : Files} {r : Router}
    (hrouter : Router.ofSeed? o.seed (session o).shape = some r) (h : (capture o fs).isSome = true) :
    ∃ rows r', r.routeBatch o.tokens.toNat = some (rows, r') := by
  unfold capture at h
  simp only [hrouter] at h
  split at h
  · cases h
  · rename_i c hdrive
    have hrows := drive_isSome (Option.isSome_iff_exists.mpr ⟨c, hdrive⟩)
    rw [sum_batchSizes] at hrows
    obtain ⟨⟨rows, r'⟩, hrows⟩ := Option.isSome_iff_exists.mp hrows
    exact ⟨rows, r', hrows⟩

theorem batchRoutes_choices (layer : UInt64) {sizes : List Nat} {rows : List Row} (h : rows.length ≤ sizes.sum) :
    (batchRoutes layer sizes rows).map Route.choice = rows.map Row.choice := by
  have hpart : ∀ part : List Row × Nat,
      ((Batch.ofRows part.1).routes (Capture.mintedId part.2) layer 0).map Route.choice = part.1.map Row.choice :=
    fun part => Batch.ofRows_choices ..
  rw [batchRoutes, List.zipIdx_map, List.flatMap_map, List.map_flatMap]
  -- the parts, without the numbers of their batches, are the rows again
  conv_rhs => rw [← List.flatten_splitLengths rows sizes h, List.map_flatten,
    ← List.zipIdx_map_fst 0 (sizes.splitLengths rows), List.map_map, ← List.flatMap_def]
  exact List.flatMap_congr fun part _ => hpart part

/-! ## Two runs -/

/-- A run of an accepted shape that logs into a file, which could be opened, and ends. -/
structure Completes (o : BenchOptions) (elapsed : Duration) (fs opened : Files) (place : Place) (outcome : Outcome) :
    Prop where
  logs : o.noLog = false
  opens : fs.openForTrace o.output = (opened, .ok place)
  least : 1 ≤ o.topK
  most : o.topK ≤ o.experts
  ends : bench o elapsed fs = some outcome

/-- The trace of a run can be loaded when it is captured, and when the run has ended; only a run
    without tokens that books its time in its trace loses it. -/
structure Leaves (o : BenchOptions) (fs opened : Files) (place : Place) (outcome : Outcome) (t : Trace) : Prop where
  captured : ∃ files, capture o fs = some (.ok (), files) ∧ Trace.load files o.output = .ok t
  kept : (o.tokens = 0 → opened.locate o.timing ≠ .ok place) → Trace.load outcome.files o.output = .ok t

structure DrawAlike (o o' : BenchOptions) : Prop where
  seed : o'.seed = o.seed
  topK : o'.topK = o.topK
  experts : o'.experts = o.experts
  tokens : o'.tokens = o.tokens

variable {o : BenchOptions} {elapsed : Duration} {fs opened : Files} {place : Place} {outcome : Outcome}

theorem Completes.rows (h : Completes o elapsed fs opened place outcome) :
    ∃ r rows r', Router.ofSeed? o.seed ⟨o.topK, o.experts⟩ = some r ∧
      r.routeBatch o.tokens.toNat = some (rows, r') := by
  have hpos : 0 < o.topK := UInt64.lt_iff_toNat_lt.mpr (UInt64.le_iff_toNat_le.mp h.least)
  have hrouter : Router.ofSeed? o.seed ⟨o.topK, o.experts⟩ = some ⟨o.seed ||| 1, ⟨o.topK, o.experts⟩⟩ := by
    simp [Router.ofSeed?, Shape.sound, hpos, h.most]
  have hcapture : (capture o fs).isSome = true := by
    obtain ⟨result, captured, hcapture, -⟩ := bench_cases h.ends
    rw [hcapture]
    rfl
  obtain ⟨rows, r', hrows⟩ := rows_of_capture hrouter hcapture
  exact ⟨_, rows, r', hrouter, hrows⟩

/-- The trace that a run leaves is that of its records. -/
theorem Completes.leaves (h : Completes o elapsed fs opened place outcome) {r r' : Router} {rows : List Row}
    (hrouter : Router.ofSeed? o.seed ⟨o.topK, o.experts⟩ = some r)
    (hrows : r.routeBatch o.tokens.toNat = some (rows, r')) {t : Trace}
    (ht : Trace.parse (Writer.lines (traceRecords o rows)) = .ok t) : Leaves o fs opened place outcome t := by
  have hcapture := capture_eq hrouter hrows h.logs h.opens
  obtain ⟨hcreatable, hempty⟩ := Files.openForTrace_ok h.opens
  refine ⟨⟨_, hcapture, ?_⟩, fun hbooked => ?_⟩
  · rw [Trace.load, Files.read_write hcreatable]
    exact ht
  · obtain rfl : finish o elapsed _ = outcome := by
      have hends := h.ends
      rw [bench, hcapture] at hends
      exact Option.some.inj hends
    have hkept := finish_keeps_written hcreatable hrows (fun hzero hlocate => ?_) elapsed
    · rw [Trace.load, hkept]
      exact ht
    · exact hbooked hzero ((Files.locate_put_iff hempty _).mp hlocate)

theorem traceRecords_choices {rows : List Row} (h : rows.length = o.tokens.toNat) :
    ((traceRecords o rows).filterMap Record.route?).map Route.choice = rows.map Row.choice := by
  have hroutes : (traceRecords o rows).filterMap Record.route? = batchRoutes o.layer (sizes o) rows :=
    Trace.filterMap_route _
  have hsum : (sizes o).sum = o.tokens.toNat := sum_batchSizes _ _
  rw [hroutes, batchRoutes_choices o.layer (h.trans hsum.symm).le]

end Command.Bench

/-- A router in any state draws, in two parts, the rows that it draws together and ends in the same
    state, if it ends at all. Two bench runs that end, of the same seed, shape and number of tokens
    and with whatever else, the batch size too, leave traces with the same experts and the same
    weights in order, and the reports on them are the same but for the number of requests. -/
theorem Command.batches_only_cut_requests :
    (∀ (r : Router) (m n : Nat), r.routeBatch (m + n) =
      (r.routeBatch m).bind fun first =>
        (first.2.routeBatch n).map fun second => (first.1 ++ second.1, second.2)) ∧
    ∀ {o o' : BenchOptions} {elapsed elapsed' : Duration} {fs fs' opened opened' : Files} {place place' : Place}
      {outcome outcome' : Outcome}, Bench.DrawAlike o o' → Bench.Completes o elapsed fs opened place outcome →
      Bench.Completes o' elapsed' fs' opened' place' outcome' →
      ∃ t t', Bench.Leaves o fs opened place outcome t ∧ Bench.Leaves o' fs' opened' place' outcome' t' ∧
        t'.routes.map (fun route => (route.experts, route.weights)) =
          t.routes.map (fun route => (route.experts, route.weights)) ∧
        Report.ofTrace t' = { Report.ofTrace t with requests := t'.requestCount } := by
  refine ⟨Router.routeBatch_add, fun halike hdone hdone' => ?_⟩
  obtain ⟨r, rows, last, hrouter, hrows⟩ := hdone.rows
  have hrouter' := hrouter
  have hrows' := hrows
  rw [← halike.seed, ← halike.topK, ← halike.experts] at hrouter'
  rw [← halike.tokens] at hrows'
  obtain ⟨t, ht, -⟩ := Bench.parse_traceRecords hrouter hrows
  obtain ⟨t', ht', -⟩ := Bench.parse_traceRecords hrouter' hrows'
  have hchoices : t'.routes.map Route.choice = t.routes.map Route.choice := by
    refine Trace.parse_lines_choices ht ht' ?_
    rw [Bench.traceRecords_choices (Router.length_routeBatch hrows),
      Bench.traceRecords_choices (Router.length_routeBatch hrows')]
  refine ⟨t, t', hdone.leaves hrouter hrows ht, hdone'.leaves hrouter' hrows' ht', hchoices, ?_⟩
  have hexperts := congrArg (List.map Prod.fst) hchoices
  rw [List.map_map, List.map_map] at hexperts
  exact Report.ofTrace_chosen hexperts

/-- Three tokens in batches of two, and one by one into another file and of another layer. -/
theorem Command.two_batches_choose_what_three_do :
    let o : BenchOptions := { tokens := 3, batch := 2, topK := 2, experts := 3, seed := 7 }
    let o' : BenchOptions := { o with output := "runs/single.jsonl", layer := 3, batch := 0 }
    let elapsed : Duration := ⟨1, 140000000, by decide⟩
    ∃ outcome outcome' t t', bench o elapsed Files.empty = some outcome ∧ bench o' elapsed Files.empty = some outcome' ∧
      Trace.load outcome.files o.output = .ok t ∧ Trace.load outcome'.files o'.output = .ok t' ∧
      t'.routes.map (fun route => (route.experts, route.weights)) =
        t.routes.map (fun route => (route.experts, route.weights)) ∧
      Report.ofTrace t' = { Report.ofTrace t with requests := t'.requestCount } := by
  intro o o' elapsed
  have hplace : (Files.empty.openForTrace o.output).2 = .ok ⟨.above 0, ["moe_routes.jsonl"]⟩ := by decide +kernel
  have hplace' : (Files.empty.openForTrace o'.output).2 = .ok ⟨.above 0, ["runs", "single.jsonl"]⟩ := by decide +kernel
  have hends : (bench o elapsed Files.empty).isSome = true := by decide +kernel
  have hends' : (bench o' elapsed Files.empty).isSome = true := by decide +kernel
  rcases hopens : Files.empty.openForTrace o.output with ⟨opened, result⟩
  rw [hopens] at hplace
  obtain rfl : result = _ := hplace
  rcases hopens' : Files.empty.openForTrace o'.output with ⟨opened', result'⟩
  rw [hopens'] at hplace'
  obtain rfl : result' = _ := hplace'
  obtain ⟨outcome, hends⟩ := Option.isSome_iff_exists.mp hends
  obtain ⟨outcome', hends'⟩ := Option.isSome_iff_exists.mp hends'
  have halike : Bench.DrawAlike o o' := ⟨rfl, rfl, rfl, rfl⟩
  have hdone : Bench.Completes o elapsed Files.empty opened _ outcome := ⟨rfl, hopens, by decide, by decide, hends⟩
  have hdone' : Bench.Completes o' elapsed Files.empty opened' _ outcome' :=
    ⟨rfl, hopens', by decide, by decide, hends'⟩
  obtain ⟨t, t', hleaves, hleaves', hchoices, hreport⟩ := batches_only_cut_requests.2 halike hdone hdone'
  exact ⟨outcome, outcome', t, t', hends, hends', hleaves.kept fun hzero => absurd hzero (by decide),
    hleaves'.kept fun hzero => absurd hzero (by decide), hchoices, hreport⟩

end ExpertRouting
