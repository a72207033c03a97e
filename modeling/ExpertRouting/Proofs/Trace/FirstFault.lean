/-
  ExpertRouting.Proofs.Trace.FirstFault — a trace is parsed, or its first faulty line is named.

  A line of bytes holds nothing, holds a record, or is at fault by itself: it encodes no
  text, or its text spells no record (`holds_or_fault`). A line that holds a header is at
  fault if a line before it does. While no line is at fault the reader goes on, with a header
  once a line held one (`readLines_drop`), so it stops at the first that is
  (`readLines_first_fault`). Without any it reads to the end, and the header is missing if no line
  holds one (`parse_missing_iff`).
-/

import Mathlib.Data.List.ReduceOption
import Mathlib.Data.Nat.Find
import ExpertRouting.Proofs.Text.Decoding
import ExpertRouting.Proofs.Trace.Contents

namespace ExpertRouting.Trace

/-- What a line of bytes holds: nothing if it is white space, or the record that its text spells. -/
inductive Holds : List UInt8 → Option Record → Prop
  | blank {cs : List Char} : Text.trim cs = [] → Holds (Utf8.encode cs) none
  | record {cs : List Char} {r : Record} : Text.trim cs ≠ [] → Record.decode ((Text.trim cs).map .char) = .ok r →
      Holds (Utf8.encode cs) (some r)

inductive LineFault (number : Nat) : List UInt8 → Error → Prop
  | notText {line : List UInt8} : (∀ cs, line ≠ Utf8.encode cs) → LineFault number line (.unreadable .notText)
  | malformed {cs : List Char} {fault : Json.Fault} : Text.trim cs ≠ [] →
      Record.decode ((Text.trim cs).map .char) = .error fault →
      LineFault number (Utf8.encode cs) (.malformed number fault)

def HeaderAt (lines : List (List UInt8)) (i : Nat) : Prop :=
  ∃ line h, lines[i]? = some line ∧ Holds line (some (.header h))

/-- What is wrong with the line at an index; lines are numbered from one. -/
inductive Fault (lines : List (List UInt8)) (i : Nat) : Error → Prop
  | line {line : List UInt8} {e : Error} : lines[i]? = some line → LineFault (i + 1) line e → Fault lines i e
  | secondHeader {j : Nat} : j < i → HeaderAt lines j → HeaderAt lines i → Fault lines i (.duplicateHeader (i + 1))

/-! ## One line -/

theorem Holds.readLine {line : List UInt8} {content : Option Record} (h : Holds line content) (number : Nat) :
    readLine number (Utf8.decode line) = .ok content := by
  cases h with
  | blank hblank => simp only [Trace.readLine, Utf8.chars_decode_iff.mpr rfl, hblank]
  | record hne hr => simp only [Trace.readLine, Utf8.chars_decode_iff.mpr rfl, hr]

theorem LineFault.readLine {number : Nat} {line : List UInt8} {e : Error} (h : LineFault number line e) :
    readLine number (Utf8.decode line) = .error e := by
  cases h with
  | notText hnone =>
    have hchars : Utf8.chars? (Utf8.decode line) = none :=
      Option.eq_none_iff_forall_ne_some.mpr fun cs hcs => hnone cs (Utf8.chars_decode_iff.mp hcs)
    simp only [Trace.readLine, hchars]
  | malformed hne hfault => simp only [Trace.readLine, Utf8.chars_decode_iff.mpr rfl, hfault]

theorem Holds.unique {line : List UInt8} {content content' : Option Record} (h : Holds line content)
    (h' : Holds line content') : content = content' :=
  Except.ok.inj ((h.readLine 1).symm.trans (h'.readLine 1))

theorem holds_or_fault (number : Nat) (line : List UInt8) :
    (∃ content, Holds line content) ∨ ∃ e, LineFault number line e := by
  by_cases htext : ∃ cs, line = Utf8.encode cs
  case neg => exact Or.inr ⟨_, .notText fun cs hcs => htext ⟨cs, hcs⟩⟩
  obtain ⟨cs, rfl⟩ := htext
  by_cases hblank : Text.trim cs = []
  · exact Or.inl ⟨none, .blank hblank⟩
  cases hd : Record.decode ((Text.trim cs).map .char) with
  | ok r => exact Or.inl ⟨some r, .record hblank hd⟩
  | error fault => exact Or.inr ⟨_, .malformed hblank hd⟩

/-! ## The lines in order -/

theorem headerAt_iff {lines : List (List UInt8)} {i : Nat} {line : List UInt8} {content : Option Record}
    (hat : lines[i]? = some line) (h : Holds line content) :
    HeaderAt lines i ↔ ∃ header, content = some (.header header) := by
  constructor
  · rintro ⟨line', header, hat', hheader⟩
    obtain rfl := Option.some.inj (hat.symm.trans hat')
    exact ⟨header, h.unique hheader⟩
  · rintro ⟨header, rfl⟩
    exact ⟨line, header, hat, h⟩

/-- A line that holds something is at fault only as a second header. -/
theorem not_fault_of_holds {lines : List (List UInt8)} {i : Nat} {line : List UInt8} {content : Option Record}
    (hat : lines[i]? = some line) (h : Holds line content)
    (hfirst : (∃ header, content = some (.header header)) → ∀ j < i, ¬ HeaderAt lines j) {e : Error} :
    ¬ Fault lines i e := by
  rintro (⟨hat', he⟩ | ⟨hj, hearlier, hheader⟩)
  · obtain rfl := Option.some.inj (hat.symm.trans hat')
    have hread := h.readLine (i + 1)
    rw [he.readLine] at hread
    cases hread
  · exact hfirst ((headerAt_iff hat h).mp hheader) _ hj hearlier

theorem HeaderAt.lt_length {lines : List (List UInt8)} {i : Nat} (h : HeaderAt lines i) : i < lines.length := by
  obtain ⟨line, -, hat, -⟩ := h
  exact (List.getElem?_eq_some_iff.mp hat).1

/-- The reader passes the lines before one, none of which is at fault; the induction is on their number. -/
theorem readLines_drop {lines : List (List UInt8)} {i : Nat} (hi : i ≤ lines.length)
    (hsound : ∀ j < i, ∀ e, ¬ Fault lines j e) :
    ∃ d : Draft, (d.header.isSome = true ↔ ∃ j < i, HeaderAt lines j) ∧
      readLines {} 1 (lines.map Utf8.decode) = readLines d (i + 1) ((lines.drop i).map Utf8.decode) := by
  induction i with
  | zero => exact ⟨{}, by simp, rfl⟩
  | succ i ih =>
    obtain ⟨d, hheader, hread⟩ := ih (by omega) fun j hj => hsound j (by omega)
    have hat : lines[i]? = some lines[i] := List.getElem?_eq_getElem hi
    have hearlier : (∃ j < i + 1, HeaderAt lines j) ↔ d.header.isSome = true ∨ HeaderAt lines i := by
      rw [hheader]
      simp only [Nat.lt_succ_iff_lt_or_eq, or_and_right, exists_or, exists_eq_left]
    rw [List.drop_eq_getElem_cons hi, List.map_cons] at hread
    rw [hread, hearlier]
    generalize lines[i] = line at hat ⊢
    rcases holds_or_fault (i + 1) line with ⟨content, hcontent⟩ | ⟨e, he⟩
    case inr => exact absurd (.line hat he) (hsound i (Nat.lt_succ_self i) e)
    rw [headerAt_iff hat hcontent, readLines, hcontent.readLine]
    cases content with
    | none => exact ⟨d, by simp, rfl⟩
    | some r =>
      cases r with
      | route r => exact ⟨{ d with routes := r :: d.routes }, by simp, rfl⟩
      | header h =>
        have hnone : ¬ d.header.isSome = true := by
          intro hsome
          obtain ⟨j, hj, hfirst⟩ := hheader.mp hsome
          exact hsound i (Nat.lt_succ_self i) _ (.secondHeader hj hfirst ((headerAt_iff hat hcontent).mpr ⟨h, rfl⟩))
        refine ⟨{ d with header := some h }, by simp, ?_⟩
        simp [bind, Except.bind, Draft.add, hnone]

/-- The reader stops at the first line at fault. -/
theorem readLines_first_fault {lines : List (List UInt8)} {i : Nat} {e : Error} (h : Fault lines i e)
    (hfirst : ∀ j < i, ∀ e', ¬ Fault lines j e') : readLines {} 1 (lines.map Utf8.decode) = .error e := by
  have hi : i < lines.length := by
    cases h with
    | line hat _ => exact (List.getElem?_eq_some_iff.mp hat).1
    | secondHeader _ _ hheader => exact hheader.lt_length
  obtain ⟨d, hheader, hread⟩ := readLines_drop (Nat.le_of_lt hi) hfirst
  rw [hread, List.drop_eq_getElem_cons hi, List.map_cons, readLines]
  cases h with
  | line hat he =>
    rw [(List.getElem?_eq_some_iff.mp hat).2, he.readLine]
    rfl
  | @secondHeader j hj hearlier hsecond =>
    obtain ⟨line, header, hat, hcontent⟩ := hsecond
    have hsome : d.header.isSome = true := hheader.mpr ⟨j, hj, hearlier⟩
    rw [(List.getElem?_eq_some_iff.mp hat).2, hcontent.readLine]
    simp [bind, Except.bind, Draft.add, hsome]

theorem readLines_sound {lines : List (List UInt8)} (hsound : ∀ i e, ¬ Fault lines i e) :
    ∃ d : Draft, (d.header.isSome = true ↔ ∃ i, HeaderAt lines i) ∧
      readLines {} 1 (lines.map Utf8.decode) = .ok d := by
  obtain ⟨d, hheader, hread⟩ := readLines_drop (Nat.le_refl lines.length) fun i _ => hsound i
  rw [List.drop_length] at hread
  refine ⟨d, hheader.trans ?_, hread⟩
  exact ⟨fun ⟨i, _, h⟩ => ⟨i, h⟩, fun ⟨i, h⟩ => ⟨i, h.lt_length, h⟩⟩

theorem exists_first_fault {lines : List (List UInt8)} {i : Nat} {e : Error} (h : Fault lines i e) :
    ∃ i e, Fault lines i e ∧ ∀ j < i, ∀ e', ¬ Fault lines j e' := by
  classical
  have hex : ∃ i, ∃ e, Fault lines i e := ⟨i, e, h⟩
  obtain ⟨e, he⟩ := Nat.find_spec hex
  exact ⟨Nat.find hex, e, he, fun j hj e' he' => Nat.find_min hex hj ⟨e', he'⟩⟩

/-! ## Bytes -/

/-- Blank lines at the end change nothing. -/
theorem readLines_append_blank {blank : List (List Symbol)} (h : ∀ line ∈ blank, line = []) (d : Draft) (number : Nat)
    (lines : List (List Symbol)) : readLines d number (lines ++ blank) = readLines d number lines := by
  induction lines generalizing d number with
  | nil =>
    induction blank generalizing number with
    | nil => rfl
    | cons line blank ih =>
      obtain ⟨rfl, hblank⟩ := List.forall_mem_cons.mp h
      exact ih hblank (number + 1)
  | cons line lines ih => simp only [List.cons_append, readLines, ih]

theorem parse_eq (bytes : List UInt8) :
    parse bytes = (readLines {} 1 ((bytes.splitOn 0x0A).map Utf8.decode)).bind Draft.trace := by
  obtain ⟨blank, hblank, hlines⟩ := Text.lines_decode bytes
  rw [hlines, readLines_append_blank hblank]
  rfl

theorem contentsOf_splitOn (bytes : List UInt8) :
    contentsOf ((bytes.splitOn 0x0A).map Utf8.decode) = contents bytes := by
  obtain ⟨blank, hblank, hlines⟩ := Text.lines_decode bytes
  have hnone : contentsOf blank = [] := by
    rw [contentsOf, List.filter_eq_nil_iff, List.forall_mem_map]
    intro line hline
    rw [hblank line hline]
    decide
  rw [hlines, contents]
  simp only [contentsOf, List.map_append, List.filter_append] at hnone ⊢
  rw [hnone, List.append_nil]

theorem Holds.held_cons {line : List UInt8} {content : Option Record} (h : Holds line content)
    {lines : List (List UInt8)} {p : List (Option Record) → Prop} :
    (∃ held, List.Forall₂ Holds (line :: lines) held ∧ p held) ↔
      ∃ held, List.Forall₂ Holds lines held ∧ p (content :: held) := by
  constructor
  · rintro ⟨held, hheld, hp⟩
    obtain ⟨content', held', hcontent, hrest, rfl⟩ := List.forall₂_cons_left_iff.mp hheld
    obtain rfl := h.unique hcontent
    exact ⟨held', hrest, hp⟩
  · rintro ⟨held, hheld, hp⟩
    exact ⟨content :: held, .cons h hheld, hp⟩

/-- Contents that spell some records are what the lines hold, without the blank ones. -/
theorem spells_contentsOf {lines : List (List UInt8)} {records : List Record} :
    List.Forall₂ Spells (contentsOf (lines.map Utf8.decode)) records ↔
      ∃ held, List.Forall₂ Holds lines held ∧ held.reduceOption = records := by
  induction lines generalizing records with
  | nil =>
    constructor
    · rintro ⟨⟩
      exact ⟨[], .nil, rfl⟩
    · rintro ⟨held, hheld, rfl⟩
      cases hheld
      exact .nil
  | cons line lines ih =>
    have hreads := readLine_reads 1 (Utf8.decode line)
    rw [List.map_cons]
    rcases holds_or_fault 1 line with ⟨content, hcontent⟩ | ⟨e, he⟩
    · rw [hcontent.held_cons]
      rw [hcontent.readLine] at hreads
      cases hreads with
      | blank hblank =>
        simp only [contentsOf_blank hblank, List.reduceOption_cons_of_none]
        exact ih
      | record r hne hr =>
        simp only [contentsOf_cons hne, List.forall₂_cons_left_iff, List.reduceOption_cons_of_some]
        constructor
        · rintro ⟨r', rest, hr', hrest, rfl⟩
          obtain ⟨held, hheld, rfl⟩ := ih.mp hrest
          exact ⟨held, hheld, by rw [hr.unique hr']⟩
        · rintro ⟨held, hheld, rfl⟩
          exact ⟨r, _, hr, ih.mpr ⟨held, hheld, rfl⟩, rfl⟩
    · rw [he.readLine] at hreads
      cases hreads with
      | fault _ hne hnone =>
        rw [contentsOf_cons hne, List.forall₂_cons_left_iff]
        refine iff_of_false ?_ ?_
        · rintro ⟨r, -, hr, -⟩
          exact hnone r hr
        · rintro ⟨held, hheld, -⟩
          obtain ⟨content, -, hcontent, -⟩ := List.forall₂_cons_left_iff.mp hheld
          have hread := he.readLine
          rw [hcontent.readLine] at hread
          cases hread

theorem parse_missing_iff {bytes : List UInt8} :
    parse bytes = .error .missingHeader ↔
      (∀ i e, ¬ Fault (bytes.splitOn 0x0A) i e) ∧ ∀ i, ¬ HeaderAt (bytes.splitOn 0x0A) i := by
  rw [parse_eq]
  generalize bytes.splitOn 0x0A = lines
  have hend : ∀ d : Draft, d.trace = .error .missingHeader ↔ ¬ d.header.isSome = true := by
    rintro ⟨header, routes⟩
    cases header <;> simp [Draft.trace]
  constructor
  · intro h
    have hsound : ∀ i e, ¬ Fault lines i e := by
      intro i e he
      obtain ⟨i, e, he, hfirst⟩ := exists_first_fault he
      rw [readLines_first_fault he hfirst] at h
      -- no line at fault is one where the header is missing
      cases h
      cases he with
      | line _ he => cases he
    obtain ⟨d, hheader, hread⟩ := readLines_sound hsound
    rw [hread] at h
    exact ⟨hsound, fun i hi => (hend d).mp h (hheader.mpr ⟨i, hi⟩)⟩
  · rintro ⟨hsound, hnone⟩
    obtain ⟨d, hheader, hread⟩ := readLines_sound hsound
    rw [hread]
    exact (hend d).mpr fun hsome => (hheader.mp hsome).elim hnone

/-- Any bytes, cut into lines at every line feed. They are parsed exactly when every line is white
    space or the text of a record and one of the records is a header; the trace then has that
    header and all routes in order. A fault of the first line that has one is what is reported
    otherwise: a line that is no text, whose text is no record, or that holds a header when a
    line before it does. The header is missing where no line is at fault and none holds one. -/
theorem parse_reports_first_fault (bytes : List UInt8) :
    let lines := bytes.splitOn 0x0A
    (∀ t, parse bytes = .ok t ↔ ∃ held, List.Forall₂ Holds lines held ∧
        held.reduceOption.filterMap Record.header? = [t.header] ∧
        held.reduceOption.filterMap Record.route? = t.routes) ∧
      (∀ i e, Fault lines i e → (∀ j < i, ∀ e', ¬ Fault lines j e') → parse bytes = .error e) ∧
      (parse bytes = .error .missingHeader ↔ (∀ i e, ¬ Fault lines i e) ∧ ∀ i, ¬ HeaderAt lines i) := by
  intro lines
  refine ⟨fun t => ?_, fun i e he hfirst => ?_, parse_missing_iff⟩
  · rw [parse_ok_iff, ← contentsOf_splitOn]
    constructor
    · rintro ⟨records, hspells, ht⟩
      obtain ⟨held, hheld, rfl⟩ := spells_contentsOf.mp hspells
      exact ⟨held, hheld, ht⟩
    · rintro ⟨held, hheld, ht⟩
      exact ⟨_, spells_contentsOf.mpr ⟨held, hheld, rfl⟩, ht⟩
  · rw [parse_eq, readLines_first_fault he hfirst]
    rfl

/-- A second header, under a line end of two characters and two blank lines, and then a line that is
    no text: the header is named, on its line. -/
theorem a_second_header_is_the_first_fault :
    let header : Header := { modelId := "m", engineVersion := "e", runtimeVersion := "r", device := "cpu", seed := none,
                             layersLogged := [0], topK := 2, numExperts := 4 }
    let text := (Record.header header).text
    let bytes := Utf8.encode (text ++ ['\r', '\n', '\u2003', '\n', '\n'] ++ text ++ ['\n']) ++ [0xC3, 0x0A]
    let lines := bytes.splitOn 0x0A
    Fault lines 3 (.duplicateHeader 4) ∧ (∀ j < 3, ∀ e', ¬ Fault lines j e') ∧
      parse bytes = .error (.duplicateHeader 4) := by
  intro header text bytes lines
  have hlines : lines = [Utf8.encode (text ++ ['\r']), Utf8.encode ['\u2003'], Utf8.encode [], Utf8.encode text,
      [0xC3], []] := by
    decide +kernel
  have hfirst : Holds (Utf8.encode (text ++ ['\r'])) (some (.header header)) :=
    .record (by decide +kernel) (by decide +kernel)
  have hspace : Holds (Utf8.encode ['\u2003']) none := .blank (by decide +kernel)
  have hnothing : Holds (Utf8.encode []) none := .blank rfl
  have hsecond : Holds (Utf8.encode text) (some (.header header)) := .record (by decide +kernel) (by decide +kernel)
  have hfault : Fault lines 3 (.duplicateHeader 4) :=
    .secondHeader (by decide : 0 < 3) ⟨_, _, by rw [hlines]; rfl, hfirst⟩ ⟨_, _, by rw [hlines]; rfl, hsecond⟩
  have hsound : ∀ j < 3, ∀ e', ¬ Fault lines j e' := by
    intro j hj e'
    obtain rfl | rfl | rfl : j = 0 ∨ j = 1 ∨ j = 2 := by omega
    · exact not_fault_of_holds (by rw [hlines]; rfl) hfirst fun _ j hj => absurd hj (Nat.not_lt_zero j)
    · exact not_fault_of_holds (by rw [hlines]; rfl) hspace fun ⟨_, h⟩ => nomatch h
    · exact not_fault_of_holds (by rw [hlines]; rfl) hnothing fun ⟨_, h⟩ => nomatch h
  exact ⟨hfault, hsound, (parse_reports_first_fault bytes).2.1 3 _ hfault hsound⟩

end ExpertRouting.Trace
