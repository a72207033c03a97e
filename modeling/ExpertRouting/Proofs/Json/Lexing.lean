/-
  ExpertRouting.Proofs.Json.Lexing — the tokens of a value's text.

  A value is spelled by a list of tokens (`Json.spelled`), and its text without white space
  is scanned into them, whatever follows, as long as a number is not continued
  (`scan_compact`). Behind that stand the two tokens of more than one letter: a sound
  numeral (`scan_numeral`), scanned part by part, and a quoted string (`scan_quote`), in
  which every escape is undone. The text of a value is one line (`newline_not_mem_compact`).
-/

import ExpertRouting.Json.Token
import ExpertRouting.Json.Value
import ExpertRouting.Proofs.Decimal.Layout

namespace ExpertRouting.Json

/-- A text in front of which a number ends. -/
def Delimited : List Symbol → Prop
  | [] => True
  | s :: _ => s.char?.bind Digit.ofChar? = none ∧ s ≠ .char '.' ∧ s ≠ .char 'e' ∧ s ≠ .char 'E'

@[simp] theorem step_number (place : Place) (n : Spelling) (s : Symbol) :
    step (.number place n) s = inNumber place n s := rfl
@[simp] theorem step_quoted (q : Quote) (s : Symbol) : step (.quoted q) s = inQuote q s := rfl

theorem scan_on {q next : Scanner} {s : Symbol} {made : List Token} (h : step q s = .on made next)
    (rest : List Symbol) : scan q (s :: rest) = made ++ scan next rest := by
  simp only [scan, h]

/-! ## Numbers -/

def Place.complete : Place → Bool
  | .zero | .whole | .fraction | .power => true
  | _ => false

theorem scan_endNumber {place : Place} (hp : place.complete = true) (n : Spelling) {rest : List Symbol}
    (hr : Delimited rest) : scan (.number place n) rest = .number (n.numeral place) :: scan .between rest := by
  cases rest with
  | nil =>
    cases place with
    | sign | point | mark | markSign => cases hp
    | zero | whole | fraction | power => rfl
  | cons s rest =>
    obtain ⟨hdigit, hpoint, he, hE⟩ := hr
    have hend : step (.number place n) s = endNumber place n s := by
      rw [step_number]
      unfold inNumber
      cases place with
      | sign | point | mark | markSign => cases hp
      | zero | whole | fraction | power => simp [hdigit, hpoint, he, hE]
    rw [scan, hend, endNumber, scan, show step .between s = between s from rfl]
    cases between s <;> rfl

/-- A run of digits, each of which the reader puts in front of those before it. -/
theorem scan_digits {reader : List Digit → Scanner}
    (h : ∀ before d, step (reader before) (.char d.char) = .on [] (reader (d :: before)))
    (before ds : List Digit) (rest : List Symbol) :
    scan (reader before) ((ds.map Digit.char).map .char ++ rest) = scan (reader (ds.reverse ++ before)) rest := by
  induction ds generalizing before with
  | nil => rfl
  | cons d ds ih =>
    rw [List.map_cons, List.map_cons, List.cons_append, scan_on (h before d), List.nil_append, ih]
    simp

def wholePlace (whole : List Digit) : Place := if whole = [.zero] then .zero else .whole

/-- What a digit adds to a number is told by the place it stands at. -/
theorem inNumber_digit (place : Place) (n : Spelling) (d : Digit) :
    inNumber place n (.char d.char) =
      match place with
      | .sign => .on [] (.number (wholePlace [d]) { n with whole := [d] })
      | .zero => .halt [.broken .malformed]
      | .whole => .on [] (.number .whole { n with whole := d :: n.whole })
      | .point => .on [] (.number .fraction { n with fraction := [d] })
      | .fraction => .on [] (.number .fraction { n with fraction := d :: n.fraction })
      | .mark | .markSign => .on [] (.number .power { n with power := [d] })
      | .power => .on [] (.number .power { n with power := d :: n.power }) := by
  unfold inNumber
  cases place <;> simp [Symbol.char?, wholePlace]

theorem whole_step (n : Spelling) (before : List Digit) (d : Digit) :
    step (.number .whole { n with whole := before }) (.char d.char) =
      .on [] (.number .whole { n with whole := d :: before }) := inNumber_digit .whole { n with whole := before } d

theorem fraction_step (n : Spelling) (before : List Digit) (d : Digit) :
    step (.number .fraction { n with fraction := before }) (.char d.char) =
      .on [] (.number .fraction { n with fraction := d :: before }) :=
  inNumber_digit .fraction { n with fraction := before } d

theorem power_step (n : Spelling) (before : List Digit) (d : Digit) :
    step (.number .power { n with power := before }) (.char d.char) =
      .on [] (.number .power { n with power := d :: before }) := inNumber_digit .power { n with power := before } d

def fractionPlace (n : Numeral) : Place := if n.fraction = [] then wholePlace n.whole else .fraction

theorem fractionPlace_cases (n : Numeral) :
    fractionPlace n = .zero ∨ fractionPlace n = .whole ∨ fractionPlace n = .fraction := by
  unfold fractionPlace wholePlace
  split
  · split
    · exact .inl rfl
    · exact .inr (.inl rfl)
  · exact .inr (.inr rfl)

theorem first_digit (d : Digit) :
    step .between (.char d.char) = .on [] (.number (wholePlace [d]) { negative := false, whole := [d] }) := by
  have hd : d = 0 ∨ d = 1 ∨ d = 2 ∨ d = 3 ∨ d = 4 ∨ d = 5 ∨ d = 6 ∨ d = 7 ∨ d = 8 ∨ d = 9 := by revert d; decide
  rcases hd with rfl | rfl | rfl | rfl | rfl | rfl | rfl | rfl | rfl | rfl <;> rfl

theorem scan_whole {n : Numeral} (hn : n.Sound) (rest : List Symbol) :
    scan .between (((if n.negative then ['-'] else []) ++ n.whole.map Digit.char).map .char ++ rest) =
      scan (.number (wholePlace n.whole) { negative := n.negative, whole := n.whole.reverse }) rest := by
  obtain ⟨d, ds, hw⟩ := List.exists_cons_of_ne_nil hn.whole
  have hfront : d = .zero → ds = [] := by
    rintro rfl
    have := hn.front (by rw [hw]; rfl)
    rw [hw] at this
    exact (List.cons.inj this).2
  -- the first digit decides between a lone zero and a number that goes on
  have hmore : scan (.number (wholePlace [d]) { negative := n.negative, whole := [d] })
      ((ds.map Digit.char).map .char ++ rest) =
      scan (.number (wholePlace n.whole) { negative := n.negative, whole := n.whole.reverse }) rest := by
    rw [hw]
    by_cases hd : d = .zero
    · rw [hfront hd]
      rfl
    · have hplace : ∀ ds, wholePlace (d :: ds) = .whole := by
        intro ds
        simp [wholePlace, hd]
      rw [hplace, hplace, scan_digits (whole_step { negative := n.negative })]
      simp
  rw [← hmore, hw]
  cases n.negative with
  | false =>
    simp only [Bool.false_eq_true, if_false, List.nil_append, List.map_cons, List.cons_append]
    rw [scan_on (first_digit d), List.nil_append]
  | true =>
    have hminus : step .between (.char '-') = .on [] (.number .sign { negative := true }) := rfl
    have hsign : step (.number .sign { negative := true }) (.char d.char) =
        .on [] (.number (wholePlace [d]) { negative := true, whole := [d] }) := inNumber_digit .sign { negative := true } d
    simp only [if_true, List.cons_append, List.nil_append, List.map_cons]
    rw [scan_on hminus, List.nil_append, scan_on hsign, List.nil_append]

theorem scan_fraction (n : Numeral) (rest : List Symbol) :
    scan (.number (wholePlace n.whole) { negative := n.negative, whole := n.whole.reverse })
        ((Numeral.fractionChars n.fraction).map .char ++ rest) =
      scan (.number (fractionPlace n)
        { negative := n.negative, whole := n.whole.reverse, fraction := n.fraction.reverse }) rest := by
  unfold fractionPlace
  cases hf : n.fraction with
  | nil => rfl
  | cons d ds =>
    generalize hs : ({ negative := n.negative, whole := n.whole.reverse } : Spelling) = spelling
    have hpoint : step (.number (wholePlace n.whole) spelling) (.char '.') = .on [] (.number .point spelling) := by
      unfold wholePlace
      split <;> rfl
    have hfirst : step (.number .point spelling) (.char d.char) =
        .on [] (.number .fraction { spelling with fraction := [d] }) := inNumber_digit .point spelling d
    simp only [Numeral.fractionChars, List.map_cons, List.cons_append]
    rw [scan_on hpoint, List.nil_append, scan_on hfirst, List.nil_append, scan_digits (fraction_step spelling), ← hs]
    simp

/-- The power of ten, where the spelling before it may end. -/
theorem scan_power {place : Place} (hplace : place = .zero ∨ place = .whole ∨ place = .fraction) {n : Spelling}
    (hn : n.powerNegative = false) {p : PowerOfTen} (hp : p.digits ≠ []) (rest : List Symbol) :
    scan (.number place n) ((Numeral.powerChars (some p)).map .char ++ rest) =
      scan (.number .power { n with powerNegative := p.negative, power := p.digits.reverse }) rest := by
  obtain ⟨d, ds, hds⟩ := List.exists_cons_of_ne_nil hp
  have hmark : step (.number place n) (.char 'e') = .on [] (.number .mark n) := by
    rcases hplace with rfl | rfl | rfl <;> rfl
  have hsign : step (.number .mark n) (.char (if p.negative then '-' else '+')) =
      .on [] (.number .markSign { n with powerNegative := p.negative }) := by
    cases n
    subst hn
    cases p.negative <;> rfl
  have hfirst : step (.number .markSign { n with powerNegative := p.negative }) (.char d.char) =
      .on [] (.number .power { n with powerNegative := p.negative, power := [d] }) :=
    inNumber_digit .markSign { n with powerNegative := p.negative } d
  simp only [Numeral.powerChars, List.map_cons, List.cons_append, hds]
  rw [scan_on hmark, List.nil_append, scan_on hsign, List.nil_append, scan_on hfirst, List.nil_append,
    scan_digits (power_step { n with powerNegative := p.negative })]
  simp

/-- A numeral is scanned as itself where it is not continued. -/
theorem scan_numeral {n : Numeral} (hn : n.Sound) {rest : List Symbol} (hr : Delimited rest) :
    scan .between (n.chars.map .char ++ rest) = .number n :: scan .between rest := by
  unfold Numeral.chars
  rw [List.map_append, List.map_append, List.append_assoc, List.append_assoc, scan_whole hn, scan_fraction]
  have hplace := fractionPlace_cases n
  cases hp : n.power with
  | none =>
    have hc : (fractionPlace n).complete = true ∧ fractionPlace n ≠ .power := by
      rcases hplace with h | h | h <;> rw [h] <;> exact ⟨rfl, Place.noConfusion⟩
    simp only [Numeral.powerChars, List.map_nil, List.nil_append]
    rw [scan_endNumber hc.1 _ hr]
    simp [Spelling.numeral, hc.2, ← hp]
  | some p =>
    rw [scan_power hplace rfl (hn.power p hp), scan_endNumber rfl _ hr]
    simp [Spelling.numeral, ← hp]

/-! ## Strings -/

theorem hexDigit_read : ∀ k < 16, hexValue? (hexDigit k) = some k ∧ (hexDigit k).utf8Size = 1 := by decide

/-- The four digits of a control character, of which the first two are zeros. -/
theorem scan_hex (c : Char) (h : c.toNat < 0x20) (before : List Char) (rest : List Symbol) :
    scan (.quoted { spot := .hex 2 (some 0), text := before })
        (.char (hexDigit (c.toNat / 16)) :: .char (hexDigit (c.toNat % 16)) :: rest) =
      scan (.quoted { text := c :: before }) rest := by
  obtain ⟨hhigh, hsize⟩ := hexDigit_read (c.toNat / 16) (by omega)
  obtain ⟨hlow, hsize'⟩ := hexDigit_read (c.toNat % 16) (by omega)
  have hthird : step (.quoted { spot := .hex 2 (some 0), text := before }) (.char (hexDigit (c.toNat / 16))) =
      .on [] (.quoted { spot := .hex 3 (some (c.toNat / 16)), text := before }) := by
    simp [inQuote, Symbol.char?, Symbol.size, hhigh, hsize]
  have hcode : 16 * (c.toNat / 16) + c.toNat % 16 = c.toNat := Nat.div_add_mod _ _
  have hlast : step (.quoted { spot := .hex 3 (some (c.toNat / 16)), text := before })
      (.char (hexDigit (c.toNat % 16))) = .on [] (.quoted { text := c :: before }) := by
    have hsmall : ¬ 0xD800 ≤ c.toNat ∧ ¬ 0xDC00 ≤ c.toNat := by omega
    simp [inQuote, Symbol.char?, Symbol.size, hlow, hsize', hcode, Quote.unit, hsmall.1, hsmall.2]
  rw [scan_on hthird, List.nil_append, scan_on hlast, List.nil_append]

theorem scan_escapeChar (c : Char) (before : List Char) (rest : List Symbol) :
    scan (.quoted { text := before }) ((escapeChar c).map .char ++ rest) =
      scan (.quoted { text := c :: before }) rest := by
  unfold escapeChar
  by_cases h : c = '"'
  · subst h; rfl
  by_cases h' : c = '\\'
  · subst h'; rfl
  rw [if_neg h, if_neg h']
  by_cases hb : c = '\x08'
  · subst hb; rfl
  by_cases ht : c = '\t'
  · subst ht; rfl
  rw [if_neg hb, if_neg ht]
  by_cases hn : c = '\n'
  · subst hn; rfl
  by_cases hf : c = '\x0c'
  · subst hf; rfl
  by_cases hr : c = '\r'
  · subst hr; rfl
  rw [if_neg hn, if_neg hf, if_neg hr]
  by_cases hcontrol : c.toNat < 0x20
  · rw [if_pos hcontrol, ← scan_hex c hcontrol before rest]
    rfl
  · rw [if_neg hcontrol]
    have hplain : step (.quoted { text := before }) (.char c) = .on [] (.quoted { text := c :: before }) := by
      simp [inQuote, Quote.alone, h, h', hcontrol]
    rw [List.map_singleton, List.singleton_append, scan_on hplain, List.nil_append]

theorem scan_escaped (cs before : List Char) (rest : List Symbol) :
    scan (.quoted { text := before }) ((cs.flatMap escapeChar).map .char ++ rest) =
      scan (.quoted { text := cs.reverse ++ before }) rest := by
  induction cs generalizing before with
  | nil => rfl
  | cons c cs ih =>
    rw [List.flatMap_cons, List.map_append, List.append_assoc, scan_escapeChar, ih]
    simp

theorem scan_quote (s : String) (rest : List Symbol) :
    scan .between ((quote s).map .char ++ rest) = .string (some s) :: scan .between rest := by
  have hopen : step .between (.char '"') = .on [] (.quoted {}) := rfl
  have hclose : ∀ text, step (.quoted { text }) (.char '"') =
      .on [.string (some (String.ofList text.reverse))] .between := fun _ => rfl
  unfold quote
  rw [List.map_cons, List.cons_append, scan_on hopen, List.nil_append, List.map_append, List.append_assoc,
    scan_escaped, List.map_singleton, List.singleton_append, scan_on (hclose _)]
  simp

/-! ## Values -/

mutual

def Sound : Json → Prop
  | .number n => n.Sound
  | .array items => ItemsSound items
  | .object members => MembersSound members
  | _ => True

def ItemsSound : List Json → Prop
  | [] => True
  | v :: rest => v.Sound ∧ ItemsSound rest

def MembersSound : List (String × Json) → Prop
  | [] => True
  | (_, v) :: rest => v.Sound ∧ MembersSound rest

end

mutual

def spelled : Json → List Token
  | .null => [.null]
  | .bool b => [.bool b]
  | .number n => [.number n]
  | .string s => [.string (some s)]
  | .array items => .beginArray :: spelledItems items
  | .object members => .beginObject :: spelledMembers members

def spelledItems : List Json → List Token
  | [] => [.endArray]
  | v :: rest => v.spelled ++ spelledMoreItems rest

def spelledMoreItems : List Json → List Token
  | [] => [.endArray]
  | v :: rest => .comma :: (v.spelled ++ spelledMoreItems rest)

def spelledMembers : List (String × Json) → List Token
  | [] => [.endObject]
  | (key, v) :: rest => .string (some key) :: .colon :: (v.spelled ++ spelledMoreMembers rest)

def spelledMoreMembers : List (String × Json) → List Token
  | [] => [.endObject]
  | (key, v) :: rest => .comma :: .string (some key) :: .colon :: (v.spelled ++ spelledMoreMembers rest)

end

theorem delimited_moreItems (items : List Json) (rest : List Symbol) :
    Delimited ((compactMoreItems items).map .char ++ rest) := by
  cases items <;> exact ⟨rfl, by decide, by decide, by decide⟩

theorem delimited_moreMembers (members : List (String × Json)) (rest : List Symbol) :
    Delimited ((compactMoreMembers members).map .char ++ rest) := by
  cases members <;> exact ⟨rfl, by decide, by decide, by decide⟩

theorem scan_mark {c : Char} {t : Token} (h : step .between (.char c) = .on [t] .between) (rest : List Symbol) :
    scan .between (.char c :: rest) = t :: scan .between rest := scan_on h rest

mutual

theorem scan_compact : ∀ (v : Json), v.Sound → ∀ (rest : List Symbol), Delimited rest →
    scan .between (v.compact.map .char ++ rest) = v.spelled ++ scan .between rest
  | .null, _, _, _ => rfl
  | .bool b, _, _, _ => by cases b <;> rfl
  | .number _, hv, _, hr => scan_numeral hv hr
  | .string s, _, rest, _ => scan_quote s rest
  | .array items, hv, rest, _ => by
    rw [compact, List.map_cons, List.cons_append, scan_mark (t := .beginArray) rfl, scan_items items hv rest]
    rfl
  | .object members, hv, rest, _ => by
    rw [compact, List.map_cons, List.cons_append, scan_mark (t := .beginObject) rfl, scan_members members hv rest]
    rfl

theorem scan_items : ∀ (items : List Json), ItemsSound items → ∀ (rest : List Symbol),
    scan .between ((compactItems items).map .char ++ rest) = spelledItems items ++ scan .between rest
  | [], _, _ => rfl
  | v :: items, hv, rest => by
    rw [compactItems, List.map_append, List.append_assoc, scan_compact v hv.1 _ (delimited_moreItems _ _),
      scan_moreItems items hv.2 rest, spelledItems, List.append_assoc]

theorem scan_moreItems : ∀ (items : List Json), ItemsSound items → ∀ (rest : List Symbol),
    scan .between ((compactMoreItems items).map .char ++ rest) = spelledMoreItems items ++ scan .between rest
  | [], _, _ => rfl
  | v :: items, hv, rest => by
    rw [compactMoreItems, List.map_cons, List.cons_append, scan_mark (t := .comma) rfl, List.map_append,
      List.append_assoc, scan_compact v hv.1 _ (delimited_moreItems _ _), scan_moreItems items hv.2 rest,
      spelledMoreItems, List.cons_append, List.append_assoc]

theorem scan_members : ∀ (members : List (String × Json)), MembersSound members → ∀ (rest : List Symbol),
    scan .between ((compactMembers members).map .char ++ rest) = spelledMembers members ++ scan .between rest
  | [], _, _ => rfl
  | (key, v) :: members, hv, rest => by
    rw [compactMembers, List.map_append, List.append_assoc, scan_quote, List.map_cons, List.cons_append,
      scan_mark (t := .colon) rfl, List.map_append, List.append_assoc,
      scan_compact v hv.1 _ (delimited_moreMembers _ _), scan_moreMembers members hv.2 rest, spelledMembers]
    simp

theorem scan_moreMembers : ∀ (members : List (String × Json)), MembersSound members → ∀ (rest : List Symbol),
    scan .between ((compactMoreMembers members).map .char ++ rest) = spelledMoreMembers members ++ scan .between rest
  | [], _, _ => rfl
  | (key, v) :: members, hv, rest => by
    rw [compactMoreMembers, List.map_cons, List.cons_append, scan_mark (t := .comma) rfl, List.map_append,
      List.append_assoc, scan_quote, List.map_cons, List.cons_append, scan_mark (t := .colon) rfl, List.map_append,
      List.append_assoc, scan_compact v hv.1 _ (delimited_moreMembers _ _), scan_moreMembers members hv.2 rest,
      spelledMoreMembers]
    simp

end

theorem tokens_compact {v : Json} (hv : v.Sound) : tokens (v.compact.map .char) = v.spelled := by
  have h := scan_compact v hv [] trivial
  rwa [List.append_nil, show scan .between [] = [] from rfl, List.append_nil] at h

/-! ## One line -/

theorem newline_not_mem_digits (ds : List Digit) : '\n' ∉ ds.map Digit.char := by
  have hd : ∀ d : Digit, d.char ≠ '\n' := by decide
  simp only [List.mem_map, not_exists, not_and]
  exact fun d _ => hd d

theorem newline_not_mem_numeral (n : Numeral) : '\n' ∉ n.chars := by
  have hsign : '\n' ∉ (if n.negative then ['-'] else []) := by cases n.negative <;> decide
  have hfraction : '\n' ∉ Numeral.fractionChars n.fraction := by
    cases n.fraction with
    | nil => exact List.not_mem_nil
    | cons d ds => exact List.not_mem_cons_of_ne_of_not_mem (by decide) (newline_not_mem_digits (d :: ds))
  have hpower : '\n' ∉ Numeral.powerChars n.power := by
    cases n.power with
    | none => exact List.not_mem_nil
    | some p =>
      refine List.not_mem_cons_of_ne_of_not_mem (by decide) ?_
      exact List.not_mem_cons_of_ne_of_not_mem (by cases p.negative <;> decide) (newline_not_mem_digits _)
  simp only [Numeral.chars, List.mem_append, not_or]
  exact ⟨⟨⟨hsign, newline_not_mem_digits _⟩, hfraction⟩, hpower⟩

theorem newline_not_mem_escapeChar (c : Char) : '\n' ∉ escapeChar c := by
  have hhex : ∀ k < 16, hexDigit k ≠ '\n' := by decide
  by_cases hn : c = '\n'
  · subst hn; decide
  unfold escapeChar
  rw [if_neg hn]
  -- the escapes of one letter, then the control characters
  iterate 6 refine iteInduction (motive := fun chars => '\n' ∉ chars) (fun _ => by decide) fun _ => ?_
  refine iteInduction (motive := fun chars => '\n' ∉ chars) (fun hcontrol => ?_) fun _ => ?_
  · have hhigh := hhex (c.toNat / 16) (by omega)
    have hlow := hhex (c.toNat % 16) (by omega)
    simp [hhigh.symm, hlow.symm]
  · simpa using Ne.symm hn

theorem newline_not_mem_quote (s : String) : '\n' ∉ quote s := by
  simp only [quote, List.mem_cons, List.mem_append, List.mem_flatMap, List.not_mem_nil, or_false, not_or, not_exists,
    not_and]
  exact ⟨by decide, fun c _ => newline_not_mem_escapeChar c, by decide⟩

mutual

theorem newline_not_mem_compact : ∀ v : Json, '\n' ∉ v.compact
  | .null => by decide
  | .bool b => by cases b <;> decide
  | .number n => newline_not_mem_numeral n
  | .string s => newline_not_mem_quote s
  | .array items => List.not_mem_cons_of_ne_of_not_mem (by decide) (newline_not_mem_items items)
  | .object members => List.not_mem_cons_of_ne_of_not_mem (by decide) (newline_not_mem_members members)

theorem newline_not_mem_items : ∀ items : List Json, '\n' ∉ compactItems items
  | [] => by decide
  | v :: items => by
    rw [compactItems, List.mem_append, not_or]
    exact ⟨newline_not_mem_compact v, newline_not_mem_moreItems items⟩

theorem newline_not_mem_moreItems : ∀ items : List Json, '\n' ∉ compactMoreItems items
  | [] => by decide
  | v :: items => by
    simp only [compactMoreItems, List.mem_cons, List.mem_append, not_or]
    exact ⟨by decide, newline_not_mem_compact v, newline_not_mem_moreItems items⟩

theorem newline_not_mem_members : ∀ members : List (String × Json), '\n' ∉ compactMembers members
  | [] => by decide
  | (key, v) :: members => by
    simp only [compactMembers, List.mem_cons, List.mem_append, not_or]
    exact ⟨newline_not_mem_quote key, by decide, newline_not_mem_compact v, newline_not_mem_moreMembers members⟩

theorem newline_not_mem_moreMembers : ∀ members : List (String × Json), '\n' ∉ compactMoreMembers members
  | [] => by decide
  | (key, v) :: members => by
    simp only [compactMoreMembers, List.mem_cons, List.mem_append, not_or]
    exact ⟨by decide, newline_not_mem_quote key, by decide, newline_not_mem_compact v,
      newline_not_mem_moreMembers members⟩

end

end ExpertRouting.Json
