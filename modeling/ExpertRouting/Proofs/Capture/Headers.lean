/-
  ExpertRouting.Proofs.Capture.Headers — the headers written decide whether a trace is parsed.

  A sink takes any number of headers, whenever they come, and says of each whether it was
  written. On a stream that never fails every record reported as written is one line, and
  each line is read as a record of the same kind (`readLines_header`, `readLines_legible`).
  So a reader that has come to a call has read as many lines as the calls before it reported
  (`readLines_run`): it finds no header if none was written, exactly one if one was, and
  stops at the line of the second (`headers_decide_parsing`).
-/

import ExpertRouting.Proofs.Capture.Lossless
import ExpertRouting.Proofs.Capture.WeightRange

namespace ExpertRouting

/-- The headers that some calls wrote, by the replies to them. -/
def writtenHeaders (calls : List Call) (replies : List Reply) : Nat :=
  (calls.zip replies).countP fun answered => answered.1.isHeader && answered.2.accepted

/-! ## Lines -/

namespace Trace

def linesOf (records : List Record) : List (List Symbol) := records.map fun r => r.text.map .char

/-- A line after others, which were read without an error. -/
theorem readLines_append {d next : Draft} {number : Nat} {lines : List (List Symbol)}
    (h : readLines d number lines = .ok next) (rest : List (List Symbol)) :
    readLines d number (lines ++ rest) = readLines next (number + lines.length) rest := by
  induction lines generalizing d number with
  | nil =>
    cases h
    rfl
  | cons line lines ih =>
    rw [List.cons_append, List.length_cons, show number + (lines.length + 1) = number + 1 + lines.length by omega]
    rw [readLines] at h ⊢
    cases hline : readLine number line with
    | error e => rw [hline] at h; cases h
    | ok content =>
      rw [hline] at h
      cases content with
      | none => exact ih h
      | some r =>
        simp only [bind, Except.bind] at h ⊢
        cases hadd : d.add number r with
        | error e => rw [hadd] at h; cases h
        | ok d' => rw [hadd] at h; exact ih h

theorem readLine_header (number : Nat) (h : Header) :
    readLine number ((Record.header h).text.map .char) = .ok (some (.header h)) := by
  rw [readLine_text, Record.decode_header]

theorem readLines_header (d : Draft) (number : Nat) (h : Header) (rest : List (List Symbol)) :
    readLines d number (linesOf [.header h] ++ rest) =
      if d.header.isSome then .error (.duplicateHeader number)
      else readLines { d with header := some h } (number + 1) rest := by
  rw [linesOf, List.map_singleton, List.singleton_append, readLines, readLine_header]
  by_cases hd : d.header.isSome = true
  · simp [bind, Except.bind, Draft.add, hd]
  · simp [bind, Except.bind, Draft.add, hd]

/-- Routes whose weights are finite are read as routes, if not with the same weights. -/
theorem readLines_legible {routes : List Route} (h : ∀ r ∈ routes, ∀ w ∈ r.weights, w.isFinite = true) (d : Draft)
    (number : Nat) :
    ∃ read, readLines d number (linesOf (routes.map .route)) = .ok { d with routes := read } := by
  induction routes generalizing d number with
  | nil => exact ⟨d.routes, rfl⟩
  | cons r routes ih =>
    obtain ⟨r', hr'⟩ := (readLine_route_iff r number).mpr (h r List.mem_cons_self)
    obtain ⟨read, hread⟩ :=
      ih (fun r₂ hr₂ => h r₂ (List.mem_cons_of_mem _ hr₂)) { d with routes := r' :: d.routes } (number + 1)
    refine ⟨read, ?_⟩
    rw [linesOf, List.map_cons, List.map_cons, readLines, hr']
    exact hread

end Trace

namespace Capture

/-! ## Reading what a run wrote -/

theorem writtenHeaders_cons (c : Capture) (k : Call) (calls : List Call) :
    writtenHeaders (k :: calls) (c.run (k :: calls)).1 =
      (if k.isHeader && (c.call k).1.accepted then 1 else 0) + writtenHeaders calls ((c.call k).2.run calls).1 := by
  show List.countP _ ((k, (c.call k).1) :: calls.zip ((c.call k).2.run calls).1) = _
  rw [List.countP_cons, Nat.add_comm]
  rfl

theorem writtenHeaders_append (c : Capture) (a b : List Call) :
    writtenHeaders (a ++ b) (c.run (a ++ b)).1 =
      writtenHeaders a (c.run a).1 + writtenHeaders b ((c.run a).2.run b).1 := by
  induction a generalizing c with
  | nil => exact (Nat.zero_add _).symm
  | cons k a ih =>
    rw [List.cons_append, writtenHeaders_cons, writtenHeaders_cons, ih, Nat.add_assoc]
    rfl

/-- What comes of reading the lines of a run, numbered from `number`, on top of a draft. -/
inductive Outcome (c : Capture) (calls : List Call) (d : Trace.Draft) (number : Nat) :
    Except Trace.Error Trace.Draft → Prop
  /-- All of them are read, and every header written is in the draft, which holds one at most. -/
  | read (d' : Trace.Draft) :
      d'.header.toList.length = d.header.toList.length + writtenHeaders calls (c.run calls).1 →
      Outcome c calls d number (.ok d')
  /-- The reader stops at a header that was written when there was one already. -/
  | second (before : List Call) (s : Session) (after : List Call) : calls = before ++ .header s :: after →
      d.header.toList.length + writtenHeaders before (c.run before).1 = 1 →
      ((c.run before).2.call (.header s)).1 = .status (.written 1) →
      Outcome c calls d number (.error (.duplicateHeader (number + ((c.run before).1.map Reply.count).sum)))

/-- A call before a run: what it wrote was read into the draft, as many lines as it reported. -/
theorem Outcome.cons {c : Capture} {k : Call} {calls : List Call} {d next : Trace.Draft} {number : Nat}
    {result : Except Trace.Error Trace.Draft}
    (hnext : next.header.toList.length =
      d.header.toList.length + if k.isHeader && (c.call k).1.accepted then 1 else 0)
    (h : Outcome (c.call k).2 calls next (number + (c.call k).1.count) result) :
    Outcome c (k :: calls) d number result := by
  cases h with
  | read d' hd' =>
    refine .read d' ?_
    rw [hd', hnext, writtenHeaders_cons, Nat.add_assoc]
  | second before s after hcalls hone hwritten =>
    have hsum : ((c.run (k :: before)).1.map Reply.count).sum =
        (c.call k).1.count + (((c.call k).2.run before).1.map Reply.count).sum := rfl
    rw [Nat.add_assoc, ← hsum]
    refine .second (k :: before) s after ?_ ?_ hwritten
    · rw [hcalls, List.cons_append]
    · rw [writtenHeaders_cons, ← Nat.add_assoc, ← hnext]
      exact hone

/-- The induction is on the calls, with the draft and the number of the next line open. -/
theorem readLines_run {calls : List Call} {c : Capture} (hs : c.writer.stream.NeverFails)
    (hfinite : ∀ row ∈ writtenRows calls (c.run calls).1, ∀ w ∈ row.weights, (roundWeight w).isFinite = true)
    (d : Trace.Draft) (number : Nat) :
    Outcome c calls d number (Trace.readLines d number (Trace.linesOf (c.runRecords calls))) := by
  induction calls generalizing c d number with
  | nil => exact .read d rfl
  | cons k calls ih =>
    have hrows : writtenRows (k :: calls) (c.run (k :: calls)).1 =
        (if (c.call k).1.accepted then k.rows else []) ++ writtenRows calls ((c.call k).2.run calls).1 := rfl
    have hlines : Trace.linesOf (c.runRecords (k :: calls)) =
        Trace.linesOf (Entry.mk c k).written ++ Trace.linesOf ((c.call k).2.runRecords calls) := List.map_append
    have hcount : (c.call k).1.count = (Entry.mk c k).written.length := count_eq_length c k
    rw [hrows] at hfinite
    have hrest := fun next => ih (call_neverFails hs k).2
      (fun row hrow => hfinite row (List.mem_append_right _ hrow)) next (number + (c.call k).1.count)
    rw [hlines]
    rcases written_cases c k with ⟨s, rfl, hreply, hwritten⟩ | ⟨hheader, routes, hwritten, hkeeps⟩
    · rw [hwritten, Trace.readLines_header]
      split
      · rename_i hd
        obtain ⟨first, hfirst⟩ := Option.isSome_iff_exists.mp hd
        exact .second [] s calls rfl (by rw [hfirst]; rfl) hreply
      · rename_i hd
        have hnone : d.header = none := Option.not_isSome_iff_eq_none.mp hd
        have h := hrest { d with header := some (s.header c.layer) }
        rw [hreply] at h
        refine Outcome.cons ?_ (by rw [hreply]; exact h)
        rw [hnone, hreply]
        rfl
    · obtain ⟨read, hread⟩ := Trace.readLines_legible
        (weights_of_kept hkeeps fun row hrow => hfinite row (List.mem_append_left _ hrow)) d number
      have hlength : (Trace.linesOf (routes.map .route)).length = (c.call k).1.count := by
        rw [hcount, hwritten, Trace.linesOf, List.length_map]
      rw [hwritten, Trace.readLines_append hread, hlength]
      refine Outcome.cons ?_ (hrest _)
      rw [hheader]
      rfl

/-- Any run of calls on a sink whose stream holds nothing yet and never fails, with headers at
    any positions, whose written weights are finite once rounded. What the stream holds
    then is parsed exactly when one header was written; without one the header is missing,
    and with more than one the second is named as a duplicate, on the line after as many
    as the calls before it reported. -/
theorem headers_decide_parsing {c : Capture} (hs : c.writer.stream.NeverFails) (hempty : c.bytes = [])
    {calls : List Call}
    (hfinite : ∀ row ∈ writtenRows calls (c.run calls).1, ∀ w ∈ row.weights, (roundWeight w).isFinite = true) :
    ((∃ t, Trace.parse (c.run calls).2.bytes = .ok t) ↔ writtenHeaders calls (c.run calls).1 = 1) ∧
      (writtenHeaders calls (c.run calls).1 = 0 → Trace.parse (c.run calls).2.bytes = .error .missingHeader) ∧
      (2 ≤ writtenHeaders calls (c.run calls).1 → ∃ before s after, calls = before ++ .header s :: after ∧
        writtenHeaders before (c.run before).1 = 1 ∧
        ((c.run before).2.call (.header s)).1 = .status (.written 1) ∧
        Trace.parse (c.run calls).2.bytes =
          .error (.duplicateHeader (1 + ((c.run before).1.map Reply.count).sum))) := by
  have hparse : Trace.parse (c.run calls).2.bytes =
      (Trace.readLines {} 1 (Trace.linesOf (c.runRecords calls))).bind Trace.Draft.trace := by
    rw [run_bytes_neverFails hs, hempty, List.nil_append, Trace.parse, Writer.lines_text]
    rfl
  have hread := readLines_run hs hfinite {} 1
  rw [hparse]
  generalize Trace.readLines {} 1 (Trace.linesOf (c.runRecords calls)) = result at hread ⊢
  cases hread with
  | read d' hd' =>
    have hd : d'.header.toList.length = writtenHeaders calls (c.run calls).1 := hd'.trans (Nat.zero_add _)
    rw [← hd, Except.bind, Trace.Draft.trace]
    cases d'.header with
    | none =>
      refine ⟨iff_of_false ?_ Nat.zero_ne_one, fun _ => rfl, fun htwo => absurd htwo (by simp)⟩
      rintro ⟨t, ⟨⟩⟩
    | some h =>
      refine ⟨iff_of_true ⟨_, rfl⟩ rfl, fun hzero => ?_, fun htwo => absurd htwo (by simp)⟩
      cases hzero
  | second before s after hcalls hone hwritten =>
    have hbefore : writtenHeaders before (c.run before).1 = 1 := (Nat.zero_add _).symm.trans hone
    have htwo : 2 ≤ writtenHeaders calls (c.run calls).1 := by
      rw [hcalls, writtenHeaders_append, writtenHeaders_cons, hbefore, hwritten]
      simp only [Call.isHeader, Reply.accepted, Bool.and_self, if_true]
      omega
    refine ⟨iff_of_false ?_ (by omega), fun hz => by omega, fun _ => ⟨before, s, after, hcalls, hbefore, hwritten, rfl⟩⟩
    rintro ⟨t, ⟨⟩⟩

/-- A batch before any header, a header without a shape, a sound one, tensors of its shape, a
    header of another shape and a batch of that: the second header written is on line four. -/
theorem a_second_header_of_another_shape_is_named :
    let session (shape : Shape) : Session := { modelId := "m", shape, device := "cpu" }
    let half := Binary.ofDecimal binary64 false 5 (-1)
    let ids : Tensor := ⟨[1, 2], .u32 [1, 3], rfl⟩
    let weights : Tensor := ⟨[1, 2], .real binary16 [Binary.ofNat binary16 1, Binary.ofNat binary16 0], rfl⟩
    let before : List Call := [.batch 0 ⟨[[5]], [[half]]⟩ none, .header (session ⟨0, 4⟩), .header (session ⟨2, 4⟩),
      .finish "a", .tensors 0 ids weights (some "a"), .batch 0 ⟨[[1]], [[half]]⟩ none]
    let calls := before ++ [.header (session ⟨1, 8⟩), .batch 0 ⟨[[7]], [[half]]⟩ none]
    let c := onto { writes := [.short 3, .interrupted, .short 40] } 0
    writtenHeaders before (c.run before).1 = 1 ∧ ((c.run before).1.map Reply.count).sum = 3 ∧
      writtenHeaders calls (c.run calls).1 = 2 ∧ ∃ before s after, calls = before ++ .header s :: after ∧
        writtenHeaders before (c.run before).1 = 1 ∧
        ((c.run before).2.call (.header s)).1 = .status (.written 1) ∧
        Trace.parse (c.run calls).2.bytes =
          .error (.duplicateHeader (1 + ((c.run before).1.map Reply.count).sum)) := by
  intro session half ids weights before calls c
  have hs : c.writer.stream.NeverFails := ⟨by simp [c, onto, WriteReply.Accepting], by simp [c, onto]⟩
  have htwo : writtenHeaders calls (c.run calls).1 = 2 := by decide +kernel
  have hfinite : ∀ row ∈ writtenRows calls (c.run calls).1, ∀ w ∈ row.weights, (roundWeight w).isFinite = true := by
    decide +kernel
  have h := headers_decide_parsing hs rfl hfinite
  exact ⟨by decide +kernel, by decide +kernel, htwo, h.2.2 htwo.ge⟩

end Capture

end ExpertRouting
