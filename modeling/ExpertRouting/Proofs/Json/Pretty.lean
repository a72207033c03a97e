/-
  ExpertRouting.Proofs.Json.Pretty — the text with a line for each part says the same.

  Between tokens white space is passed over (`scan_space`), and there is none inside a
  token, so the text of a value with new lines and indents is scanned into the tokens that
  spell the value, at any depth and whatever follows (`scan_pretty`). A file holds that
  text and perhaps a line end after it, and is decoded as the value is
  (`decodeText_pretty`).
-/

import ExpertRouting.Proofs.Json.Reading

namespace ExpertRouting.Json

/-! ## White space -/

theorem scan_space {cs : List Char} (h : ∀ c ∈ cs, isSpace c = true) (rest : List Symbol) :
    scan .between (cs.map .char ++ rest) = scan .between rest := by
  induction cs with
  | nil => rfl
  | cons c cs ih =>
    have hstep : step .between (.char c) = .on [] .between := if_pos (h c List.mem_cons_self)
    rw [List.map_cons, List.cons_append, scan_on hstep, List.nil_append, ih fun c hc => h c (List.mem_cons_of_mem _ hc)]

theorem isSpace_newLine (depth : Nat) : ∀ c ∈ newLine depth, isSpace c = true := by
  intro c hc
  rcases List.mem_cons.mp hc with rfl | hc
  · decide
  · rw [List.eq_of_mem_replicate hc]
    decide

theorem scan_newLine (depth : Nat) (rest : List Symbol) :
    scan .between ((newLine depth).map .char ++ rest) = scan .between rest := scan_space (isSpace_newLine depth) rest

theorem scan_blank (rest : List Symbol) : scan .between (.char ' ' :: rest) = scan .between rest := by
  have hstep : step .between (.char ' ') = .on [] .between := rfl
  exact scan_on hstep rest

/-! ## Values -/

theorem delimited_prettyMoreItems (depth : Nat) (items : List Json) (rest : List Symbol) :
    Delimited ((prettyMoreItems depth items).map .char ++ rest) := by
  cases items <;> exact ⟨rfl, by decide, by decide, by decide⟩

theorem delimited_prettyMoreMembers (depth : Nat) (members : List (String × Json)) (rest : List Symbol) :
    Delimited ((prettyMoreMembers depth members).map .char ++ rest) := by
  cases members <;> exact ⟨rfl, by decide, by decide, by decide⟩

mutual

theorem scan_pretty : ∀ (v : Json) (depth : Nat), v.Sound → ∀ (rest : List Symbol), Delimited rest →
    scan .between ((v.prettyAt depth).map .char ++ rest) = v.spelled ++ scan .between rest
  | .null, _, _, _, _ => rfl
  | .bool b, _, _, _, _ => by cases b <;> rfl
  | .number _, _, hv, _, hr => scan_numeral hv hr
  | .string s, _, _, rest, _ => scan_quote s rest
  | .array items, depth, hv, rest, _ => by
    rw [prettyAt, List.map_cons, List.cons_append, scan_mark (t := .beginArray) rfl,
      scan_prettyItems items depth hv rest]
    rfl
  | .object members, depth, hv, rest, _ => by
    rw [prettyAt, List.map_cons, List.cons_append, scan_mark (t := .beginObject) rfl,
      scan_prettyMembers members depth hv rest]
    rfl

theorem scan_prettyItems : ∀ (items : List Json) (depth : Nat), ItemsSound items → ∀ (rest : List Symbol),
    scan .between ((prettyItems depth items).map .char ++ rest) = spelledItems items ++ scan .between rest
  | [], _, _, _ => rfl
  | v :: items, depth, hv, rest => by
    rw [prettyItems, List.map_append, List.map_append, List.append_assoc, List.append_assoc, scan_newLine,
      scan_pretty v (depth + 1) hv.1 _ (delimited_prettyMoreItems _ _ _), scan_prettyMoreItems items depth hv.2 rest,
      spelledItems, List.append_assoc]

theorem scan_prettyMoreItems : ∀ (items : List Json) (depth : Nat), ItemsSound items → ∀ (rest : List Symbol),
    scan .between ((prettyMoreItems depth items).map .char ++ rest) = spelledMoreItems items ++ scan .between rest
  | [], depth, _, rest => by
    rw [prettyMoreItems, List.map_append, List.append_assoc, scan_newLine]
    rfl
  | v :: items, depth, hv, rest => by
    rw [prettyMoreItems, List.map_cons, List.cons_append, scan_mark (t := .comma) rfl, List.map_append,
      List.map_append, List.append_assoc, List.append_assoc, scan_newLine,
      scan_pretty v (depth + 1) hv.1 _ (delimited_prettyMoreItems _ _ _), scan_prettyMoreItems items depth hv.2 rest,
      spelledMoreItems, List.cons_append, List.append_assoc]

theorem scan_prettyMembers : ∀ (members : List (String × Json)) (depth : Nat), MembersSound members →
    ∀ (rest : List Symbol),
    scan .between ((prettyMembers depth members).map .char ++ rest) = spelledMembers members ++ scan .between rest
  | [], _, _, _ => rfl
  | (key, v) :: members, depth, hv, rest => by
    have hmore := scan_pretty v (depth + 1) hv.1 ((prettyMoreMembers depth members).map .char ++ rest)
      (delimited_prettyMoreMembers _ _ _)
    rw [scan_prettyMoreMembers members depth hv.2 rest] at hmore
    simp only [prettyMembers, spelledMembers, List.map_append, List.map_cons, List.append_assoc, List.cons_append,
      scan_newLine, scan_quote, scan_mark (c := ':') (t := .colon) rfl, scan_blank, hmore]

theorem scan_prettyMoreMembers : ∀ (members : List (String × Json)) (depth : Nat), MembersSound members →
    ∀ (rest : List Symbol),
    scan .between ((prettyMoreMembers depth members).map .char ++ rest) =
      spelledMoreMembers members ++ scan .between rest
  | [], depth, _, rest => by
    rw [prettyMoreMembers, List.map_append, List.append_assoc, scan_newLine]
    rfl
  | (key, v) :: members, depth, hv, rest => by
    have hmore := scan_pretty v (depth + 1) hv.1 ((prettyMoreMembers depth members).map .char ++ rest)
      (delimited_prettyMoreMembers _ _ _)
    rw [scan_prettyMoreMembers members depth hv.2 rest] at hmore
    simp only [prettyMoreMembers, spelledMoreMembers, List.map_append, List.map_cons, List.append_assoc,
      List.cons_append, scan_mark (c := ',') (t := .comma) rfl, scan_newLine, scan_quote,
      scan_mark (c := ':') (t := .colon) rfl, scan_blank, hmore]

end

/-- A value is decoded from its lines, with white space after them, as it is decoded itself. -/
theorem decodeText_pretty {α : Type} (decode : Decoder α) {v : Json} (hv : v.Sound) {after : List Char}
    (hafter : ∀ c ∈ after, isSpace c = true) :
    decodeText decode ((v.pretty ++ after).map .char) = decode v.reading := by
  refine decodeText_spelled decode ?_
  have hdelimited : Delimited (after.map .char) := by
    cases after with
    | nil => trivial
    | cons c after =>
      have hc := hafter c List.mem_cons_self
      simp only [isSpace, Bool.or_eq_true, beq_iff_eq] at hc
      rcases hc with ((rfl | rfl) | rfl) | rfl <;> exact ⟨rfl, by decide, by decide, by decide⟩
  have hend : scan .between (after.map .char) = [] := by
    have h := scan_space hafter []
    rwa [List.append_nil] at h
  rw [List.map_append]
  show scan .between _ = _
  rw [pretty, scan_pretty v 0 hv _ hdelimited, hend, List.append_nil]

end ExpertRouting.Json
