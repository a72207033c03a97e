/-
  ExpertRouting.Proofs.Trace.Contents — what a trace holds, whatever its lines look like.

  The content of a line is its text without white space at either end, and blank lines have
  none; so two traces have the same contents when they differ in blank lines, line ends and
  indents only. A trace is parsed exactly when every content is the text of a record and
  one of the records is a header; the header is that one, and the routes are the others in
  order (`parse_ok_iff`). So a trace whose contents come in another order is parsed too,
  with the same header and the same routes in another order (`parse_perm`).
-/

import Mathlib.Data.List.Perm.Basic
import ExpertRouting.Trace.Basic

namespace ExpertRouting.Trace

/-- The characters of a line without white space at either end; none if the line is no text. -/
def content? (line : List Symbol) : Option (List Char) := (Utf8.chars? line).map Text.trim

def contentsOf (lines : List (List Symbol)) : List (Option (List Char)) := (lines.map content?).filter (· ≠ some [])

def contents (bytes : List UInt8) : List (Option (List Char)) := contentsOf (Text.lines (Utf8.decode bytes))

def Spells (content : Option (List Char)) (r : Record) : Prop :=
  ∃ cs, content = some cs ∧ Record.decode (cs.map .char) = .ok r

theorem Spells.unique {content : Option (List Char)} {r r' : Record} (h : Spells content r) (h' : Spells content r') :
    r = r' := by
  obtain ⟨cs, rfl, hr⟩ := h
  obtain ⟨cs', hcs, hr'⟩ := h'
  cases hcs
  rw [hr] at hr'
  exact Except.ok.inj hr'

/-! ## One line -/

/-- Everything that can come of a line with some content. -/
inductive Reads (content : Option (List Char)) : Except Error (Option Record) → Prop
  | blank : content = some [] → Reads content (.ok none)
  | record (r : Record) : content ≠ some [] → Spells content r → Reads content (.ok (some r))
  | fault (e : Error) : content ≠ some [] → (∀ r, ¬ Spells content r) → Reads content (.error e)

theorem readLine_reads (number : Nat) (line : List Symbol) : Reads (content? line) (readLine number line) := by
  unfold readLine content?
  cases Utf8.chars? line with
  | none =>
    refine .fault _ (fun he => by cases he) ?_
    rintro r ⟨cs, hcs, -⟩
    cases hcs
  | some cs =>
    simp only [Option.map_some]
    split
    · rename_i hblank
      exact .blank (by rw [hblank])
    · rename_i hne
      have hcontent : some (Text.trim cs) ≠ some [] := fun he => hne (Option.some.inj he)
      cases hd : Record.decode ((Text.trim cs).map .char) with
      | ok r => exact .record r hcontent ⟨_, rfl, hd⟩
      | error fault =>
        refine .fault _ hcontent ?_
        rintro r ⟨cs', hcs', hr⟩
        cases hcs'
        rw [hd] at hr
        cases hr

theorem contentsOf_blank {line : List Symbol} (h : content? line = some []) (lines : List (List Symbol)) :
    contentsOf (line :: lines) = contentsOf lines := by
  simp [contentsOf, h]

theorem contentsOf_cons {line : List Symbol} (h : content? line ≠ some []) (lines : List (List Symbol)) :
    contentsOf (line :: lines) = content? line :: contentsOf lines := by
  simp [contentsOf, h]

/-! ## All lines -/

theorem filterMap_route (routes : List Route) : (routes.map Record.route).filterMap Record.route? = routes := by
  rw [List.filterMap_map]
  exact List.filterMap_some

/-- A draft holds, on top of another, exactly the records given; no more than one of all is a header. -/
structure Draft.Adds (d : Draft) (records : List Record) (d' : Draft) : Prop where
  header : d.header.toList ++ records.filterMap Record.header? = d'.header.toList
  routes : d'.routes = (records.filterMap Record.route?).reverse ++ d.routes

theorem Draft.adds_nil {d d' : Draft} : d.Adds [] d' ↔ d = d' := by
  obtain ⟨header, routes⟩ := d
  obtain ⟨header', routes'⟩ := d'
  constructor
  · rintro ⟨hheader, hroutes⟩
    simp only [List.filterMap_nil, List.append_nil, List.reverse_nil, List.nil_append] at hheader hroutes
    have hsome : ∀ h, header = some h ↔ header' = some h := by
      intro h
      rw [← Option.mem_toList, ← Option.mem_toList, hheader]
    rw [hroutes, Option.ext hsome]
  · rintro ⟨⟩
    exact ⟨List.append_nil _, rfl⟩

/-- A draft takes one record and then others exactly where it takes them all. -/
theorem Draft.adds_cons {d d' : Draft} {r : Record} {records : List Record} (number : Nat) :
    d.Adds (r :: records) d' ↔ ∃ next, d.add number r = .ok next ∧ next.Adds records d' := by
  obtain ⟨header, routes⟩ := d
  cases r with
  | route route =>
    constructor
    · rintro ⟨hheader, hroutes⟩
      exact ⟨_, rfl, hheader, by simpa [Record.route?] using hroutes⟩
    · rintro ⟨next, ⟨⟩, hheader, hroutes⟩
      exact ⟨hheader, by simpa [Record.route?] using hroutes⟩
  | header h =>
    cases header with
    | none =>
      constructor
      · rintro ⟨hheader, hroutes⟩
        exact ⟨_, rfl, hheader, hroutes⟩
      · rintro ⟨next, ⟨⟩, hheader, hroutes⟩
        exact ⟨hheader, hroutes⟩
    | some first =>
      -- two headers are more than a draft has room for
      refine iff_of_false ?_ ?_
      · rintro ⟨hheader, -⟩
        have hlength := congrArg List.length hheader
        have hroom : d'.header.toList.length ≤ 1 := by
          cases d'.header <;> simp
        rw [← hlength] at hroom
        simp [Record.header?] at hroom
      · rintro ⟨next, hadd, -⟩
        cases hadd

theorem readLines_ok_iff {d d' : Draft} {number : Nat} {lines : List (List Symbol)} :
    readLines d number lines = .ok d' ↔
      ∃ records, List.Forall₂ Spells (contentsOf lines) records ∧ d.Adds records d' := by
  induction lines generalizing d number with
  | nil =>
    constructor
    · rintro ⟨⟩
      exact ⟨[], .nil, Draft.adds_nil.mpr rfl⟩
    · rintro ⟨records, hspells, hadds⟩
      cases hspells
      rw [Draft.adds_nil.mp hadds]
      rfl
  | cons line lines ih =>
    have hline := readLine_reads number line
    rw [readLines]
    generalize readLine number line = result at hline ⊢
    cases hline with
    | blank hblank =>
      rw [contentsOf_blank hblank]
      exact ih
    | record r hne hr =>
      rw [contentsOf_cons hne]
      have hadd : (do readLines (← d.add number r) (number + 1) lines) = .ok d' ↔
          ∃ next, d.add number r = .ok next ∧ readLines next (number + 1) lines = .ok d' := by
        cases d.add number r <;> simp [bind, Except.bind]
      refine hadd.trans ⟨?_, ?_⟩
      · rintro ⟨next, hnext, hrest⟩
        obtain ⟨records, hspells, hadds⟩ := ih.mp hrest
        exact ⟨r :: records, .cons hr hspells, (Draft.adds_cons number).mpr ⟨next, hnext, hadds⟩⟩
      · rintro ⟨records, hspells, hadds⟩
        cases hspells with
        | cons hr' hspells =>
          cases hr.unique hr'
          obtain ⟨next, hnext, hadds⟩ := (Draft.adds_cons number).mp hadds
          exact ⟨next, hnext, ih.mpr ⟨_, hspells, hadds⟩⟩
    | fault e hne hnone =>
      rw [contentsOf_cons hne]
      refine iff_of_false (fun h => by cases h) ?_
      rintro ⟨records, hspells, -⟩
      cases hspells with
      | cons hr _ => exact hnone _ hr

/-- A trace is parsed exactly when its contents are records with one header among them. -/
theorem parse_ok_iff {bytes : List UInt8} {t : Trace} :
    parse bytes = .ok t ↔ ∃ records, List.Forall₂ Spells (contents bytes) records ∧
      records.filterMap Record.header? = [t.header] ∧ records.filterMap Record.route? = t.routes := by
  have hparse : parse bytes = .ok t ↔
      ∃ d, readLines {} 1 (Text.lines (Utf8.decode bytes)) = .ok d ∧ d.trace = .ok t := by
    unfold parse
    cases readLines {} 1 (Text.lines (Utf8.decode bytes)) <;> simp [bind, Except.bind]
  have htrace : ∀ d : Draft, d.trace = .ok t ↔ d.header = some t.header ∧ d.routes.reverse = t.routes := by
    rintro ⟨header, routes⟩
    obtain ⟨h, rs⟩ := t
    cases header <;> simp [Draft.trace]
  rw [hparse]
  constructor
  · rintro ⟨d, hread, hd⟩
    obtain ⟨records, hspells, hheader, hroutes⟩ := readLines_ok_iff.mp hread
    obtain ⟨hd, hrs⟩ := (htrace d).mp hd
    refine ⟨records, hspells, ?_, ?_⟩
    · rw [hd] at hheader
      exact hheader
    · rw [← hrs, hroutes]
      simp
  · rintro ⟨records, hspells, hheader, hroutes⟩
    refine ⟨⟨some t.header, t.routes.reverse⟩, readLines_ok_iff.mpr ⟨records, hspells, hheader, ?_⟩, ?_⟩
    · rw [hroutes]
      exact (List.append_nil _).symm
    · exact (htrace _).mpr ⟨rfl, List.reverse_reverse _⟩

/-- The same contents in another order are parsed alike. -/
theorem parse_perm {a b : List UInt8} (h : (contents a).Perm (contents b)) {t : Trace} (ht : parse a = .ok t) :
    ∃ t', parse b = .ok t' ∧ t'.header = t.header ∧ t'.routes.Perm t.routes := by
  obtain ⟨records, hspells, hheader, hroutes⟩ := parse_ok_iff.mp ht
  obtain ⟨records', hspells', hperm⟩ := List.perm_comp_forall₂ h.symm hspells
  refine ⟨⟨t.header, records'.filterMap Record.route?⟩, parse_ok_iff.mpr ⟨records', hspells', ?_, rfl⟩, rfl, ?_⟩
  · have hp := hperm.filterMap Record.header?
    rw [hheader] at hp
    exact List.perm_singleton.mp hp
  · rw [← hroutes]
    exact hperm.filterMap Record.route?

end ExpertRouting.Trace
