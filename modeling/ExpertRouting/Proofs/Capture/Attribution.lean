/-
  ExpertRouting.Proofs.Capture.Attribution — when two requests share an id.

  Minted ids and supplied ones live in one space of names, and the sink does not compare them.
  A written route carries the id that came with its call, or the one that was minted for it
  (`routes_attributed`), and no id is minted twice; so a minted id is met in another call
  exactly where that call supplied it, before or after
  (`minted_ids_return_only_where_supplied`). Where nobody supplies an id of the minted form,
  two calls share an id only if both supplied it, and the parsed trace has the ids that were
  written. An id that is supplied and minted as well makes one request out of two
  (`a_supplied_id_is_minted_again`).
-/

import ExpertRouting.Proofs.Capture.Minting
import ExpertRouting.Proofs.Trace.Reread

namespace ExpertRouting.Capture

/-- The id of a written route was minted for its call, or came with it. -/
theorem routes_attributed {e : Entry} {r : Route} (hr : r ∈ e.routes) :
    (e.mints = true ∧ e.call.supplied? = none ∧ r.requestId = mintedId e.before.minted) ∨
      e.call.supplied? = some r.requestId := by
  rcases routes_cases e.before e.call with ⟨hnil, -⟩ | ⟨sub, w, ht, hroutes, -⟩
  · rw [show e.routes = [] from hnil] at hr
    cases hr
  · rw [show e.routes = e.before.routesOf sub from hroutes] at hr
    have hid : r.requestId = (e.before.origin sub.requestId).1 := Batch.routes_requestId r hr
    rw [Call.supplied_of_submission ht.submits]
    cases hsub : sub.requestId with
    | none =>
      rw [hsub, origin_none] at hid
      exact Or.inl ⟨(mints_iff e.before e.call).mpr ⟨sub, ht, hsub⟩, rfl, hid⟩
    | some id =>
      rw [hsub, origin_some] at hid
      exact Or.inr (congrArg some hid.symm)

/-- A minted id is that of another call's route exactly if the other call supplied it. -/
theorem requestId_eq_minted_iff {c : Capture} {calls : List Call} {i j : Nat} {e e' : Entry} (hij : i ≠ j)
    (he : (c.journal calls)[i]? = some e) (he' : (c.journal calls)[j]? = some e') (hm : e.mints = true) {r : Route}
    (hr : r ∈ e'.routes) :
    r.requestId = mintedId e.before.minted ↔ e'.call.supplied? = some (mintedId e.before.minted) := by
  rcases routes_attributed hr with ⟨hm', hnone, hid⟩ | hsupplied
  · rw [hid, hnone]
    refine iff_of_false (minted_ne hij he he' hm hm').symm ?_
    rintro ⟨⟩
  · rw [hsupplied, Option.some.injEq]

/-- Without minted forms among the supplied ids, calls that share an id have both supplied it. -/
theorem shared_requestId {c : Capture} {calls : List Call} (hs : NoneMinted calls) {i j : Nat} {e e' : Entry}
    (hij : i ≠ j) (he : (c.journal calls)[i]? = some e) (he' : (c.journal calls)[j]? = some e') {r r' : Route}
    (hr : r ∈ e.routes) (hr' : r' ∈ e'.routes) (hid : r.requestId = r'.requestId) :
    e.call.supplied? = some r.requestId ∧ e'.call.supplied? = some r.requestId := by
  have hforeign : ∀ {k : Nat} {entry : Entry}, (c.journal calls)[k]? = some entry →
      ∀ n, entry.call.supplied? ≠ some (mintedId n) := by
    intro k entry hentry n hn
    have hcall : entry.call ∈ calls := by
      rw [← journal_calls c calls]
      exact List.mem_map_of_mem (List.mem_of_getElem? hentry)
    exact hs entry.call hcall _ hn n rfl
  rcases routes_attributed hr with ⟨hm, -, hminted⟩ | hsupplied
  · refine absurd ((requestId_eq_minted_iff hij he he' hm hr').mp ?_) (hforeign he' _)
    rw [← hid, hminted]
  rcases routes_attributed hr' with ⟨hm', -, hminted'⟩ | hsupplied'
  · refine absurd ((requestId_eq_minted_iff hij.symm he' he hm' hr).mp ?_) (hforeign he _)
    rw [hid, hminted']
  · exact ⟨hsupplied, hid ▸ hsupplied'⟩

/-- A run from a fresh sink on a stream that never fails. The id that is minted for a call is
    the id of a route that another call wrote exactly if that other call supplied it. Where no
    supplied id has the minted form, two calls share an id only if both supplied it. The parsed
    trace has the written routes in order, each with its id, so the same holds of its groups. -/
theorem minted_ids_return_only_where_supplied {stream : Stream} (hs : stream.NeverFails) (hempty : stream.bytes = [])
    (layer : UInt64) (calls : List Call) :
    let entries := (onto stream layer).journal calls
    (∀ (i j : Nat) (e e' : Entry), i ≠ j → entries[i]? = some e → entries[j]? = some e' → e.mints = true →
      ∀ r ∈ e'.routes,
        r.requestId = mintedId e.before.minted ↔ e'.call.supplied? = some (mintedId e.before.minted)) ∧
    (NoneMinted calls → ∀ (i j : Nat) (e e' : Entry), i ≠ j → entries[i]? = some e → entries[j]? = some e' →
      ∀ r ∈ e.routes, ∀ r' ∈ e'.routes, r.requestId = r'.requestId →
        e.call.supplied? = some r.requestId ∧ e'.call.supplied? = some r.requestId) ∧
    ∀ t, Trace.parse ((onto stream layer).run calls).2.bytes = .ok t →
      List.Forall₂ Route.Resembles (entries.flatMap Entry.routes) t.routes := by
  intro entries
  refine ⟨fun i j e e' hij he he' hm r hr => requestId_eq_minted_iff hij he he' hm hr,
    fun hnone i j e e' hij he he' r hr r' hr' hid => shared_requestId hnone hij he he' hr hr' hid, ?_⟩
  intro t ht
  have hbytes : ((onto stream layer).run calls).2.bytes = Writer.lines ((onto stream layer).runRecords calls) := by
    rw [run_bytes_neverFails (c := onto stream layer) hs]
    exact (congrArg (· ++ _) hempty).trans (List.nil_append _)
  rw [hbytes] at ht
  have hroutes : ((onto stream layer).runRecords calls).filterMap Record.route? = entries.flatMap Entry.routes :=
    List.filterMap_flatMap
  rw [← hroutes]
  exact Trace.parse_lines_resembles ht

/-- Two batches of one request between two without an id, on a stream that takes few bytes at a
    time: the parsed trace has three requests. -/
theorem unattributed_batches_stay_apart :
    let row : Batch := ⟨[[2, 0]], [[Binary.zero false, Binary.zero false]]⟩
    let session : Session := { modelId := "m", shape := ⟨2, 4⟩, device := "cpu" }
    let calls : List Call :=
      [.header session, .batch 0 row none, .batch 0 row (some "r01"), .batch 0 row (some "r01"), .batch 0 row none]
    let stream : Stream := { writes := [.short 3, .interrupted] }
    let entries := (onto stream 0).journal calls
    (∀ (i j : Nat) (e e' : Entry), i ≠ j → entries[i]? = some e → entries[j]? = some e' → e.mints = true →
      ∀ r ∈ e'.routes,
        r.requestId = mintedId e.before.minted ↔ e'.call.supplied? = some (mintedId e.before.minted)) ∧
    ∃ t, Trace.parse ((onto stream 0).run calls).2.bytes = .ok t ∧
      List.Forall₂ Route.Resembles (entries.flatMap Entry.routes) t.routes ∧
      t.routes.map (·.requestId) = ["r0", "r01", "r01", "r1"] ∧ t.requestCount = 3 := by
  intro row session calls stream entries
  have hs : stream.NeverFails := ⟨by simp [stream, WriteReply.Accepting], by simp [stream]⟩
  obtain ⟨hfresh, -, hparse⟩ := minted_ids_return_only_where_supplied hs rfl 0 calls
  have hparsed : (Trace.parse ((onto stream 0).run calls).2.bytes).toOption.map
      (fun t => (t.routes.map (·.requestId), t.requestCount)) = some (["r0", "r01", "r01", "r1"], 3) := by
    decide +kernel
  cases ht : Trace.parse ((onto stream 0).run calls).2.bytes with
  | error e =>
    rw [ht] at hparsed
    cases hparsed
  | ok t =>
    rw [ht] at hparsed
    obtain ⟨hids, hcount⟩ := Prod.mk.inj (Option.some.inj hparsed)
    exact ⟨hfresh, t, rfl, hparse t ht, hids, hcount⟩

/-- The id of a batch, and the same id minted for another one, after it and before it: the trace
    that is parsed has one request. -/
theorem a_supplied_id_is_minted_again :
    let row : Batch := ⟨[[2, 0]], [[Binary.zero false, Binary.zero false]]⟩
    let session : Session := { modelId := "m", shape := ⟨2, 4⟩, device := "cpu" }
    let named : Call := .batch 0 row (some "r0")
    let unnamed : Call := .batch 0 row none
    let ids := fun calls => ((onto {} 0).journal calls).map fun e => (e.mints, e.routes.map (·.requestId))
    let requests := fun calls => (Trace.parse ((onto {} 0).run calls).2.bytes).toOption.map Trace.requestCount
    ids [.header session, named, unnamed] = [(false, []), (false, ["r0"]), (true, ["r0"])] ∧
      requests [.header session, named, unnamed] = some 1 ∧
      ids [.header session, unnamed, named] = [(false, []), (true, ["r0"]), (false, ["r0"])] ∧
      requests [.header session, unnamed, named] = some 1 := by
  decide +kernel

end ExpertRouting.Capture
