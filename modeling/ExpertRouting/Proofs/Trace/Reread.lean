/-
  ExpertRouting.Proofs.Trace.Reread — what the lines of any records are parsed as.

  A header is read from its text as itself, and a route as the route with each weight read
  again from its decimals (`Record.decode_toOption`); that is a route whenever the weights are
  finite, and differs from the first in the weights alone (`Route.Resembles`). The contents of
  written lines are the texts of the records, so they are parsed exactly when one of the records
  is a header and all routes are read again, as that header and those routes
  (`Trace.parse_lines_iff`).
-/

import ExpertRouting.Proofs.Capture.Batch
import ExpertRouting.Proofs.Trace.Codec
import ExpertRouting.Proofs.Trace.Contents

namespace ExpertRouting

/-- What is the same for two elements wherever they are related is the same for related lists. -/
theorem map_eq_of_forall₂ {α β γ : Type} {R : α → β → Prop} (f : α → γ) (g : β → γ) (hfg : ∀ a b, R a b → g b = f a)
    {as : List α} {bs : List β} (h : List.Forall₂ R as bs) : bs.map g = as.map f := by
  induction h with
  | nil => rfl
  | cons hab _ ih => rw [List.map_cons, List.map_cons, ih, hfg _ _ hab]

def Route.reread? (r : Route) : Option Route := (r.weights.mapM Json.reread?).map fun weights => { r with weights }

def Record.reread? : Record → Option Record
  | .header h => some (.header h)
  | .route r => r.reread?.map .route

/-- Two routes that may differ in their weights, but not in the number of them. -/
structure Route.Resembles (r r' : Route) : Prop where
  requestId : r'.requestId = r.requestId
  token : r'.token = r.token
  layer : r'.layer = r.layer
  experts : r'.experts = r.experts
  weights : r'.weights.length = r.weights.length

theorem Route.reread?_isSome_iff (r : Route) : r.reread?.isSome = true ↔ ∀ w ∈ r.weights, w.isFinite = true := by
  rw [reread?, Option.isSome_map, Json.mapM_isSome_iff]
  exact forall₂_congr fun w _ => Json.reread?_isSome_iff w

theorem Route.resembles_of_reread {r r' : Route} (h : r.reread? = some r') : r.Resembles r' := by
  obtain ⟨ws, hws, rfl⟩ := Option.map_eq_some_iff.mp h
  exact ⟨rfl, rfl, rfl, rfl, Json.mapM_length hws⟩

/-- A route fits a header with its weights read again where it did before. -/
theorem Route.Resembles.misfit {r r' : Route} (h : r.Resembles r') (header : Header) :
    Trace.misfit? header r' = Trace.misfit? header r := by
  unfold Trace.misfit? Route.width
  rw [h.experts, h.weights, h.layer]

theorem Route.Resembles.positions {routes routes' : List Route} (h : List.Forall₂ Route.Resembles routes routes') :
    routes'.map (fun r => (r.requestId, r.token)) = routes.map fun r => (r.requestId, r.token) :=
  map_eq_of_forall₂ _ _ (fun _ _ hr => by rw [hr.requestId, hr.token]) h

theorem Record.decode_toOption (r : Record) : (decode (r.text.map .char)).toOption = r.reread? := by
  cases r with
  | header h =>
    rw [decode_header]
    rfl
  | route r =>
    have hweights : r.weights.mapM Json.reread? =
        (r.weights.mapM fun w => Json.real (Json.ofReal w).reading).toOption := by
      rw [Json.mapM_toOption]
      exact Json.mapM_congr fun w _ => Json.reread?_eq w
    rw [decode_route_eq, reread?, Route.reread?, hweights]
    cases r.weights.mapM fun w => Json.real (Json.ofReal w).reading <;> rfl

namespace Trace

theorem content_text (r : Record) : content? (r.text.map .char) = some r.text := by
  rw [content?, Utf8.chars_map, Option.map_some, Record.trim_text]

theorem contents_lines (records : List Record) : contents (Writer.lines records) = records.map fun r => some r.text := by
  have htexts : (Text.lines (Utf8.decode (Writer.lines records))).map content? = records.map fun r => some r.text := by
    rw [Writer.lines_text, List.map_map]
    exact List.map_congr_left fun r _ => content_text r
  rw [contents, contentsOf, htexts, List.filter_eq_self, List.forall_mem_map]
  intro r _
  obtain ⟨hhead, -⟩ := r.text_ends
  have hne : r.text ≠ [] := by
    intro h
    rw [h] at hhead
    cases hhead
  simp [hne]

theorem spells_text_iff (r r' : Record) : Spells (some r.text) r' ↔ r.reread? = some r' := by
  rw [← Record.decode_toOption]
  constructor
  · rintro ⟨cs, hcs, hr'⟩
    cases hcs
    rw [hr']
    rfl
  · intro h
    refine ⟨r.text, rfl, ?_⟩
    cases hd : Record.decode (r.text.map .char) with
    | error fault =>
      rw [hd] at h
      cases h
    | ok found =>
      rw [hd] at h
      exact congrArg Except.ok (Option.some.inj h)

theorem reread_records {records : List Record} {headers : List Header} {routes : List Route} :
    (∃ records', List.Forall₂ (fun r r' => r.reread? = some r') records records' ∧
        records'.filterMap Record.header? = headers ∧ records'.filterMap Record.route? = routes) ↔
      records.filterMap Record.header? = headers ∧
        List.Forall₂ (fun r r' => r.reread? = some r') (records.filterMap Record.route?) routes := by
  induction records generalizing headers routes with
  | nil =>
    constructor
    · rintro ⟨records', hreread, rfl, rfl⟩
      cases hreread
      exact ⟨rfl, .nil⟩
    · rintro ⟨rfl, hroutes⟩
      cases hroutes
      exact ⟨[], .nil, rfl, rfl⟩
  | cons r records ih =>
    cases r with
    | header h =>
      constructor
      · rintro ⟨records', hreread, rfl, rfl⟩
        cases hreread with
        | @cons _ r' _ rest hr hrest =>
          obtain rfl : Record.header h = r' := Option.some.inj hr
          obtain ⟨hheaders, hroutes⟩ := ih.mp ⟨rest, hrest, rfl, rfl⟩
          exact ⟨congrArg (h :: ·) hheaders, hroutes⟩
      · rintro ⟨rfl, hroutes⟩
        obtain ⟨records', hreread, hheaders, hroutes⟩ := ih.mpr ⟨rfl, hroutes⟩
        exact ⟨.header h :: records', .cons rfl hreread, congrArg (h :: ·) hheaders, hroutes⟩
    | route r =>
      constructor
      · rintro ⟨records', hreread, rfl, rfl⟩
        cases hreread with
        | @cons _ r' _ rest hr hrest =>
          obtain ⟨found, hfound, rfl⟩ := Option.map_eq_some_iff.mp hr
          obtain ⟨hheaders, hroutes⟩ := ih.mp ⟨rest, hrest, rfl, rfl⟩
          exact ⟨hheaders, .cons hfound hroutes⟩
      · rintro ⟨rfl, hroutes⟩
        cases hroutes with
        | @cons _ found _ rest hfound hrest =>
          obtain ⟨records', hreread, hheaders, hroutes⟩ := ih.mpr ⟨rfl, hrest⟩
          have hr : (Record.route r).reread? = some (.route found) := Option.map_eq_some_iff.mpr ⟨found, hfound, rfl⟩
          exact ⟨.route found :: records', .cons hr hreread, hheaders, congrArg (found :: ·) hroutes⟩

/-- Written lines are parsed exactly when one record is a header and all routes are read again. -/
theorem parse_lines_iff {records : List Record} {t : Trace} :
    parse (Writer.lines records) = .ok t ↔ records.filterMap Record.header? = [t.header] ∧
      List.Forall₂ (fun r r' => r.reread? = some r') (records.filterMap Record.route?) t.routes := by
  rw [parse_ok_iff, contents_lines, ← reread_records]
  simp only [List.forall₂_map_left_iff, spells_text_iff]

/-- The routes of parsed lines are those written, but for their weights. -/
theorem parse_lines_resembles {records : List Record} {t : Trace} (h : parse (Writer.lines records) = .ok t) :
    List.Forall₂ Route.Resembles (records.filterMap Record.route?) t.routes :=
  (parse_lines_iff.mp h).2.imp fun _ _ => Route.resembles_of_reread

theorem parse_written (header : Header) {routes : List Route} (h : ∀ r ∈ routes, ∀ w ∈ r.weights, w.isFinite = true) :
    ∃ routes', parse (Writer.lines (.header header :: routes.map .route)) = .ok ⟨header, routes'⟩ ∧
      List.Forall₂ Route.Resembles routes routes' := by
  have hreread : ∃ routes', List.Forall₂ (fun r r' => r.reread? = some r') routes routes' := by
    induction routes with
    | nil => exact ⟨[], .nil⟩
    | cons r routes ih =>
      obtain ⟨hr, hrest⟩ := List.forall_mem_cons.mp h
      obtain ⟨r', hr'⟩ := Option.isSome_iff_exists.mp (r.reread?_isSome_iff.mpr hr)
      obtain ⟨routes', hroutes'⟩ := ih hrest
      exact ⟨r' :: routes', .cons hr' hroutes'⟩
  obtain ⟨routes', hroutes'⟩ := hreread
  have hroutes : (Record.header header :: routes.map Record.route).filterMap Record.route? = routes :=
    filterMap_route routes
  have hheaders : (Record.header header :: routes.map Record.route).filterMap Record.header? = [header] := by
    show header :: (routes.map Record.route).filterMap Record.header? = [header]
    rw [List.filterMap_map]
    exact congrArg (header :: ·) (List.filterMap_eq_nil_iff.mpr fun _ _ => rfl)
  refine ⟨routes', parse_lines_iff.mpr ⟨hheaders, ?_⟩, hroutes'.imp fun _ _ => Route.resembles_of_reread⟩
  rw [hroutes]
  exact hroutes'

theorem verify_resembling {header : Header} {routes routes' : List Route}
    (h : List.Forall₂ Route.Resembles routes routes') (hfit : ∀ r ∈ routes, misfit? header r = none) :
    verify ⟨header, routes'⟩ = .ok () := by
  refine verify_ok ?_
  show ∀ r ∈ routes', misfit? header r = none
  induction h with
  | nil => exact fun r hr => absurd hr List.not_mem_nil
  | cons hr _ ih =>
    obtain ⟨hfirst, hrest⟩ := List.forall_mem_cons.mp hfit
    exact List.forall_mem_cons.mpr ⟨(hr.misfit header).trans hfirst, ih hrest⟩

end Trace

end ExpertRouting
