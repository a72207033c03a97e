/-
  ExpertRouting.Proofs.Report.LineOrder — the report does not depend on the order of lines.

  Traces with the same contents in another order are parsed to the same header and the same
  routes in another order (`Trace.parse_perm`). A verification only asks whether every
  route fits, the histogram and the number of requests only count, and all else in a report
  follows from those; so both are verified or neither, and their reports are equal
  (`report_ignores_line_order`).
-/

import ExpertRouting.Proofs.Capture.Batch
import ExpertRouting.Proofs.Trace.Contents
import ExpertRouting.Proofs.Usage.Histogram
import ExpertRouting.Report.Basic

namespace ExpertRouting

theorem nodup_eraseDups {α : Type} [BEq α] [LawfulBEq α] (as : List α) : as.eraseDups.Nodup := by
  induction hn : as.length using Nat.strongRecOn generalizing as with
  | _ n ih =>
    cases as with
    | nil => exact List.nodup_nil
    | cons a as =>
      have hlt : (as.filter fun b => !b == a).length < n := by
        rw [← hn, List.length_cons]
        exact Nat.lt_succ_of_le (List.length_filter_le _ _)
      rw [List.eraseDups_cons, List.nodup_cons]
      refine ⟨fun hmem => ?_, ih _ hlt _ rfl⟩
      have hkept := (List.mem_filter.mp (List.mem_eraseDups.mp hmem)).2
      simp at hkept

namespace Trace

theorem requestCount_perm {t t' : Trace} (h : t.routes.Perm t'.routes) : t.requestCount = t'.requestCount := by
  have hmem : ∀ id, id ∈ (t.routes.map (·.requestId)).eraseDups ↔ id ∈ (t'.routes.map (·.requestId)).eraseDups := by
    intro id
    rw [List.mem_eraseDups, List.mem_eraseDups]
    exact (h.map _).mem_iff
  exact ((List.perm_ext_iff_of_nodup (nodup_eraseDups _) (nodup_eraseDups _)).mpr hmem).length_eq

/-- Every request has a route of its own. -/
theorem requestCount_le (t : Trace) : t.requestCount ≤ t.routes.length := by
  have hsub : (t.routes.map (·.requestId)).eraseDups ⊆ t.routes.map (·.requestId) := fun _ => List.mem_eraseDups.mp
  have h := (List.subperm_of_subset (nodup_eraseDups _) hsub).length_le
  rwa [List.length_map] at h

theorem verify_perm {t t' : Trace} (hheader : t.header = t'.header) (h : t.routes.Perm t'.routes) :
    t.verify = .ok () ↔ t'.verify = .ok () := by
  rw [verify_ok_iff, verify_ok_iff, hheader]
  exact ⟨fun hall r hr => hall r (h.mem_iff.mpr hr), fun hall r hr => hall r (h.mem_iff.mp hr)⟩

end Trace

theorem Report.ofTrace_perm {t t' : Trace} (h : t.routes.Perm t'.routes) : ofTrace t = ofTrace t' := by
  unfold ofTrace
  rw [Histogram.build_perm h, Trace.requestCount_perm h, Trace.tokens, h.length_eq]
  rfl

/-- Two traces whose lines, without white space around them and without the blank ones, are
    the same up to their order. Either both are parsed or neither; and then they have the
    same header and the same routes up to their order, both are verified or neither, and
    their reports are equal in every field. -/
theorem report_ignores_line_order {a b : List UInt8} (h : (Trace.contents a).Perm (Trace.contents b)) :
    ((∃ t, Trace.parse a = .ok t) ↔ ∃ t, Trace.parse b = .ok t) ∧
      ∀ t t', Trace.parse a = .ok t → Trace.parse b = .ok t' →
        t.header = t'.header ∧ t.routes.Perm t'.routes ∧ (t.verify = .ok () ↔ t'.verify = .ok ()) ∧
          Report.ofTrace t = Report.ofTrace t' := by
  refine ⟨⟨?_, ?_⟩, ?_⟩
  · rintro ⟨t, ht⟩
    obtain ⟨t', ht', -⟩ := Trace.parse_perm h ht
    exact ⟨t', ht'⟩
  · rintro ⟨t, ht⟩
    obtain ⟨t', ht', -⟩ := Trace.parse_perm h.symm ht
    exact ⟨t', ht'⟩
  · intro t t' ht ht'
    obtain ⟨t₂, ht₂, hheader, hroutes⟩ := Trace.parse_perm h ht
    obtain rfl : t₂ = t' := Except.ok.inj (ht₂.symm.trans ht')
    exact ⟨hheader.symm, hroutes.symm, Trace.verify_perm hheader.symm hroutes.symm, Report.ofTrace_perm hroutes.symm⟩

/-- A trace, and another with its header last, its routes the other way round, blank lines, line
    ends of two characters and several kinds of white space. -/
theorem a_shuffled_trace_has_the_same_report :
    let header : Header := { modelId := "m", engineVersion := "e", runtimeVersion := "r", device := "cpu", seed := none,
                             layersLogged := [0], topK := 2, numExperts := 4 }
    let half := Binary.ofDecimal binary64 false 5 (-1)
    let first : Route := { requestId := "a", token := 0, layer := 0, experts := [3, 1], weights := [half, half] }
    let second : Route := { requestId := "b", token := 0, layer := 0, experts := [1, 2], weights := [half, half] }
    let a := Utf8.encode ((Record.header header).text ++ ['\n'] ++ (Record.route first).text ++ ['\n'] ++
      (Record.route second).text ++ ['\n'])
    let b := Utf8.encode (['\n', '\t'] ++ (Record.route second).text ++ [' ', '\r', '\n', '\u00a0'] ++
      (Record.route first).text ++ ['\u2003', '\r', '\n', '\u3000', '\n'] ++ (Record.header header).text)
    (Trace.contents a).Perm (Trace.contents b) ∧
      Trace.parse a = .ok ⟨header, [first, second]⟩ ∧ Trace.parse b = .ok ⟨header, [second, first]⟩ ∧
      Report.ofTrace ⟨header, [first, second]⟩ = Report.ofTrace ⟨header, [second, first]⟩ := by
  intro header half first second a b
  have h : (Trace.contents a).Perm (Trace.contents b) := by decide +kernel
  have ha : Trace.parse a = .ok ⟨header, [first, second]⟩ := by decide +kernel
  have hb : Trace.parse b = .ok ⟨header, [second, first]⟩ := by decide +kernel
  obtain ⟨-, -, -, hreport⟩ := (report_ignores_line_order h).2 _ _ ha hb
  exact ⟨h, ha, hb, hreport⟩

end ExpertRouting
