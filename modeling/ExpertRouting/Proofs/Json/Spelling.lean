/-
  ExpertRouting.Proofs.Json.Spelling — every text of a value is read as the value.

  The texts of a value follow the grammar of JSON (`ValueText`): white space on both sides of
  every mark, a power of ten with either mark and perhaps a sign, and in a string each
  character as itself, by a letter, by its sixteen-bit unit, or by the two units of a pair
  (`CharText`). Half a pair is no character, so a string that holds one is no text of a
  value. All texts of a value are scanned into the tokens that spell it (`scan_valueText`),
  and so are decoded alike, with white space around them (`decodeText_valueText`).
-/

import ExpertRouting.Proofs.Json.Pretty

namespace ExpertRouting.Json

/-! ## The grammar -/

def Space (cs : List Char) : Prop := ∀ c ∈ cs, isSpace c = true

/-- Four hexadecimal digits, in capitals or not. -/
def HexText (unit : Nat) (cs : List Char) : Prop :=
  ∃ a b c d w x y z, cs = [a, b, c, d] ∧ hexValue? a = some w ∧ hexValue? b = some x ∧ hexValue? c = some y ∧
    hexValue? d = some z ∧ unit = 16 * (16 * (16 * w + x) + y) + z

inductive CharText : Char → List Char → Prop
  | plain (c : Char) : c ≠ '"' → c ≠ '\\' → 0x20 ≤ c.toNat → CharText c [c]
  | letter {e c : Char} : escaped? e = some c → CharText c ['\\', e]
  | unit {c : Char} {cs : List Char} : HexText c.toNat cs → CharText c ('\\' :: 'u' :: cs)
  /-- The two units of a pair, for what is beyond sixteen bits. -/
  | pair {c : Char} {high low : Nat} {cs ds : List Char} : 0xD800 ≤ high ∧ high ≤ 0xDBFF → 0xDC00 ≤ low ∧ low ≤ 0xDFFF →
      c.toNat = 0x10000 + (high - 0xD800) * 0x400 + (low - 0xDC00) → HexText high cs → HexText low ds →
      CharText c ('\\' :: 'u' :: (cs ++ '\\' :: 'u' :: ds))

inductive CharsText : List Char → List Char → Prop
  | nil : CharsText [] []
  | cons {c : Char} {cs ds es : List Char} : CharText c ds → CharsText cs es → CharsText (c :: cs) (ds ++ es)

inductive StringText : String → List Char → Prop
  | quoted {s : String} {cs : List Char} : CharsText s.toList cs → StringText s ('"' :: (cs ++ ['"']))

/-- The sign of a power of ten; plus may be left out. -/
def SignText (negative : Bool) (cs : List Char) : Prop :=
  cs = (if negative then ['-'] else ['+']) ∨ negative = false ∧ cs = []

inductive PowerText : Option PowerOfTen → List Char → Prop
  | none : PowerText none []
  | some {p : PowerOfTen} {mark : Char} {sign : List Char} : mark = 'e' ∨ mark = 'E' → SignText p.negative sign →
      PowerText (some p) (mark :: (sign ++ p.digits.map Digit.char))

inductive NumberText : Numeral → List Char → Prop
  | spelled {n : Numeral} {power : List Char} : n.Sound → PowerText n.power power →
      NumberText n ((if n.negative then ['-'] else []) ++ n.whole.map Digit.char ++
        (Numeral.fractionChars n.fraction ++ power))

mutual

/-- The texts of a value. -/
inductive ValueText : Json → List Char → Prop
  | null : ValueText .null ['n', 'u', 'l', 'l']
  | bool (b : Bool) : ValueText (.bool b) (word b)
  | number {n : Numeral} {cs : List Char} : NumberText n cs → ValueText (.number n) cs
  | string {s : String} {cs : List Char} : StringText s cs → ValueText (.string s) cs
  | noItems {space : List Char} : Space space → ValueText (.array []) ('[' :: (space ++ [']']))
  | items {v : Json} {items : List Json} {space cs rest : List Char} : Space space → ValueText v cs →
      ItemsText items rest → ValueText (.array (v :: items)) ('[' :: (space ++ (cs ++ rest)))
  | noMembers {space : List Char} : Space space → ValueText (.object []) ('{' :: (space ++ ['}']))
  | members {key : String} {v : Json} {members : List (String × Json)} {space cs rest : List Char} : Space space →
      MemberText (key, v) cs → MembersText members rest →
      ValueText (.object ((key, v) :: members)) ('{' :: (space ++ (cs ++ rest)))

inductive ItemsText : List Json → List Char → Prop
  | nil {space : List Char} : Space space → ItemsText [] (space ++ [']'])
  | cons {v : Json} {items : List Json} {space space' cs rest : List Char} : Space space → Space space' →
      ValueText v cs → ItemsText items rest → ItemsText (v :: items) (space ++ ',' :: (space' ++ (cs ++ rest)))

inductive MemberText : String × Json → List Char → Prop
  | colon {key : String} {v : Json} {name space space' cs : List Char} : StringText key name → Space space →
      Space space' → ValueText v cs → MemberText (key, v) (name ++ (space ++ ':' :: (space' ++ cs)))

inductive MembersText : List (String × Json) → List Char → Prop
  | nil {space : List Char} : Space space → MembersText [] (space ++ ['}'])
  | cons {m : String × Json} {members : List (String × Json)} {space space' cs rest : List Char} : Space space →
      Space space' → MemberText m cs → MembersText members rest →
      MembersText (m :: members) (space ++ ',' :: (space' ++ (cs ++ rest)))

end

/-! ## Strings -/

theorem hexValue_size {c : Char} {n : Nat} (h : hexValue? c = some n) : c.utf8Size = 1 := by
  have hlast : c ≤ '\x7f' := by
    unfold hexValue? at h
    split_ifs at h with hdigit hsmall hcapital
    · exact hdigit.2.trans (by decide)
    · exact hsmall.2.trans (by decide)
    · exact hcapital.2.trans (by decide)
  exact if_pos hlast

theorem scan_hexText {unit : Nat} {cs : List Char} (h : HexText unit cs) {q : Quote} (hq : q.spot = .hex 0 (some 0))
    (rest : List Symbol) : scan (.quoted q) (cs.map .char ++ rest) = scan (.quoted (q.unit unit)) rest := by
  obtain ⟨a, b, c, d, w, x, y, z, rfl, ha, hb, hc, hd, rfl⟩ := h
  have hdigit : ∀ {e : Char} {v : Nat}, hexValue? e = some v → ∀ count code : Nat, count < 3 →
      step (.quoted { q with spot := .hex count (some code) }) (.char e) =
        .on [] (.quoted { q with spot := .hex (count + 1) (some (16 * code + v)) }) := by
    intro e v he count code hcount
    simp [inQuote, Symbol.char?, Symbol.size, he, hexValue_size he, hcount]
  have hlast : ∀ code : Nat, step (.quoted { q with spot := .hex 3 (some code) }) (.char d) =
      .on [] (.quoted (q.unit (16 * code + z))) := by
    intro code
    simp [inQuote, Symbol.char?, Symbol.size, hd, hexValue_size hd, Quote.unit]
  have hfirst := scan_on (hdigit ha 0 0 (by omega))
  simp only [← hq] at hfirst
  simp only [List.map_cons, List.map_nil, List.cons_append, List.nil_append]
  rw [hfirst, List.nil_append, scan_on (hdigit hb 1 _ (by omega)), List.nil_append, scan_on (hdigit hc 2 _ (by omega)),
    List.nil_append, scan_on (hlast _), List.nil_append]
  simp

theorem scan_unit {unit : Nat} {cs : List Char} (h : HexText unit cs) (before : List Char) (lead : Option Nat)
    (rest : List Symbol) :
    scan (.quoted { text := before, lead }) (('\\' :: 'u' :: cs).map .char ++ rest) =
      scan (.quoted (({ text := before, lead } : Quote).unit unit)) rest := by
  have hescape : step (.quoted { text := before, lead }) (.char '\\') =
      .on [] (.quoted { spot := .escape, text := before, lead }) := rfl
  have hmark : step (.quoted { spot := .escape, text := before, lead }) (.char 'u') =
      .on [] (.quoted { spot := .hex 0 (some 0), text := before, lead }) := rfl
  simp only [List.map_cons, List.cons_append]
  rw [scan_on hescape, List.nil_append, scan_on hmark, List.nil_append, scan_hexText h rfl]
  rfl

theorem scan_charText {c : Char} {cs : List Char} (h : CharText c cs) (before : List Char) (rest : List Symbol) :
    scan (.quoted { text := before }) (cs.map .char ++ rest) = scan (.quoted { text := c :: before }) rest := by
  cases h with
  | plain _ hquote hslash hcontrol =>
    have hplain : step (.quoted { text := before }) (.char c) = .on [] (.quoted { text := c :: before }) := by
      simp [inQuote, Quote.alone, hquote, hslash, hcontrol]
    exact scan_on hplain rest
  | letter he =>
    rename_i e
    have hne : e ≠ 'u' := by
      rintro rfl
      cases he
    have hescape : step (.quoted { text := before }) (.char '\\') =
        .on [] (.quoted { spot := .escape, text := before }) := rfl
    have hletter : step (.quoted { spot := .escape, text := before }) (.char e) =
        .on [] (.quoted { text := c :: before }) := by
      simp [inQuote, Quote.alone, Symbol.char?, he, hne]
    simp only [List.map_cons, List.map_nil, List.cons_append, List.nil_append]
    rw [scan_on hescape, List.nil_append, scan_on hletter, List.nil_append]
  | unit hc =>
    rw [scan_unit hc before none rest]
    have hvalid : c.toNat < 0xD800 ∨ 0xDFFF < c.toNat := c.valid.imp id And.left
    have hlead : ¬(0xD800 ≤ c.toNat ∧ c.toNat ≤ 0xDBFF) := by omega
    have htrail : ¬(0xDC00 ≤ c.toNat ∧ c.toNat ≤ 0xDFFF) := by omega
    simp only [Quote.unit, if_neg hlead, if_neg htrail, Char.ofNat_toNat]
  | pair hhigh hlow hc hcs hds =>
    rename_i high low cs ds
    have hfirst : ({ text := before } : Quote).unit high = { text := before, lead := some high } := by
      simp only [Quote.unit, if_pos hhigh]
    have hsecond : ({ text := before, lead := some high } : Quote).unit low = { text := c :: before } := by
      simp only [Quote.unit, if_pos hlow, ← hc, Char.ofNat_toNat]
    have hsplit : ('\\' :: 'u' :: (cs ++ '\\' :: 'u' :: ds)).map Symbol.char ++ rest =
        ('\\' :: 'u' :: cs).map Symbol.char ++ (('\\' :: 'u' :: ds).map Symbol.char ++ rest) := by simp
    rw [hsplit, scan_unit hcs before none, hfirst, scan_unit hds before (some high), hsecond]

theorem scan_charsText {cs text : List Char} (h : CharsText cs text) (before : List Char) (rest : List Symbol) :
    scan (.quoted { text := before }) (text.map .char ++ rest) =
      scan (.quoted { text := cs.reverse ++ before }) rest := by
  induction h generalizing before with
  | nil => rfl
  | cons hc _ ih =>
    rw [List.map_append, List.append_assoc, scan_charText hc, ih]
    simp

theorem scan_stringText {s : String} {cs : List Char} (h : StringText s cs) (rest : List Symbol) :
    scan .between (cs.map .char ++ rest) = .string (some s) :: scan .between rest := by
  obtain ⟨hchars⟩ := h
  have hopen : step .between (.char '"') = .on [] (.quoted {}) := rfl
  have hclose : ∀ text, step (.quoted { text }) (.char '"') =
      .on [.string (some (String.ofList text.reverse))] .between := fun _ => rfl
  rw [List.map_cons, List.cons_append, scan_on hopen, List.nil_append, List.map_append, List.append_assoc,
    scan_charsText hchars, List.map_singleton, List.singleton_append, scan_on (hclose _)]
  simp

/-! ## Numbers -/

theorem scan_powerText {place : Place} (hplace : place = .zero ∨ place = .whole ∨ place = .fraction) {n : Spelling}
    (hn : n.powerNegative = false) {p : PowerOfTen} (hp : p.digits ≠ []) {cs : List Char} (h : PowerText (some p) cs)
    (rest : List Symbol) :
    scan (.number place n) (cs.map .char ++ rest) =
      scan (.number .power { n with powerNegative := p.negative, power := p.digits.reverse }) rest := by
  obtain ⟨d, ds, hds⟩ := List.exists_cons_of_ne_nil hp
  cases h with
  | some hmark hsign =>
    rename_i mark sign
    have hmarked : step (.number place n) (.char mark) = .on [] (.number .mark n) := by
      rcases hplace with rfl | rfl | rfl <;> rcases hmark with rfl | rfl <;> rfl
    have hdigits : ∀ at' : Place, at' = .mark ∨ at' = .markSign → ∀ n' : Spelling,
        scan (.number at' n') ((p.digits.map Digit.char).map .char ++ rest) =
          scan (.number .power { n' with power := p.digits.reverse }) rest := by
      intro at' hat n'
      have hfirst : step (.number at' n') (.char d.char) = .on [] (.number .power { n' with power := [d] }) := by
        rcases hat with rfl | rfl <;> exact inNumber_digit _ n' d
      simp only [hds, List.map_cons, List.cons_append]
      rw [scan_on hfirst, List.nil_append, scan_digits (power_step n')]
      simp
    rw [List.map_cons, List.cons_append, scan_on hmarked, List.nil_append, List.map_append, List.append_assoc]
    rcases hsign with rfl | ⟨hpositive, rfl⟩
    · have hsigned : step (.number .mark n) (.char (if p.negative then '-' else '+')) =
          .on [] (.number .markSign { n with powerNegative := p.negative }) := by
        cases n
        subst hn
        cases p.negative <;> rfl
      rw [show (if p.negative then ['-'] else ['+']) = [if p.negative then '-' else '+'] by cases p.negative <;> rfl,
        List.map_singleton, List.singleton_append, scan_on hsigned, List.nil_append, hdigits _ (.inr rfl)]
    · rw [List.map_nil, List.nil_append, hdigits _ (.inl rfl), hpositive, ← hn]

/-- A number is scanned as its numeral where it is not continued. -/
theorem scan_numberText {n : Numeral} {cs : List Char} (h : NumberText n cs) {rest : List Symbol}
    (hr : Delimited rest) : scan .between (cs.map .char ++ rest) = .number n :: scan .between rest := by
  obtain ⟨hn, hpower⟩ := h
  rename_i power
  rw [List.map_append, List.append_assoc, scan_whole hn, List.map_append, List.append_assoc, scan_fraction]
  have hplace := fractionPlace_cases n
  cases hp : n.power with
  | none =>
    rw [hp] at hpower
    cases hpower
    have hc : (fractionPlace n).complete = true ∧ fractionPlace n ≠ .power := by
      rcases hplace with h | h | h <;> rw [h] <;> exact ⟨rfl, Place.noConfusion⟩
    rw [List.map_nil, List.nil_append, scan_endNumber hc.1 _ hr]
    simp [Spelling.numeral, hc.2, ← hp]
  | some p =>
    rw [hp] at hpower
    rw [scan_powerText hplace rfl (hn.power p hp) hpower, scan_endNumber rfl _ hr]
    simp [Spelling.numeral, ← hp]

/-! ## Values -/

theorem delimited_space {space : List Char} (h : Space space) {rest : List Symbol} (hr : Delimited rest) :
    Delimited (space.map .char ++ rest) := by
  cases space with
  | nil => exact hr
  | cons c space =>
    have hc := h c List.mem_cons_self
    simp only [isSpace, Bool.or_eq_true, beq_iff_eq] at hc
    rcases hc with ((rfl | rfl) | rfl) | rfl <;> exact ⟨rfl, by decide, by decide, by decide⟩

/-- Behind a value there may be white space and then a comma or a closing bracket. -/
theorem delimited_spaced {space : List Char} (h : Space space) {c : Char} (hc : c = ',' ∨ c = ']' ∨ c = '}')
    (cs : List Char) (rest : List Symbol) : Delimited ((space ++ c :: cs).map .char ++ rest) := by
  rw [List.map_append, List.append_assoc]
  refine delimited_space h ?_
  rcases hc with rfl | rfl | rfl <;> exact ⟨rfl, by decide, by decide, by decide⟩

theorem delimited_itemsText {items : List Json} {cs : List Char} (h : ItemsText items cs) (rest : List Symbol) :
    Delimited (cs.map .char ++ rest) := by
  cases h with
  | nil hspace => exact delimited_spaced hspace (.inr (.inl rfl)) _ _
  | cons hspace _ _ _ => exact delimited_spaced hspace (.inl rfl) _ _

theorem delimited_membersText {members : List (String × Json)} {cs : List Char} (h : MembersText members cs)
    (rest : List Symbol) : Delimited (cs.map .char ++ rest) := by
  cases h with
  | nil hspace => exact delimited_spaced hspace (.inr (.inr rfl)) _ _
  | cons hspace _ _ _ => exact delimited_spaced hspace (.inl rfl) _ _

theorem scan_spaced {space : List Char} (h : Space space) (cs : List Char) (rest : List Symbol) :
    scan .between ((space ++ cs).map .char ++ rest) = scan .between (cs.map .char ++ rest) := by
  rw [List.map_append, List.append_assoc, scan_space h]

theorem scan_marked {c : Char} {t : Token} (h : step .between (.char c) = .on [t] .between) (cs : List Char)
    (rest : List Symbol) : scan .between ((c :: cs).map .char ++ rest) = t :: scan .between (cs.map .char ++ rest) :=
  scan_mark h _

def spelledMember (m : String × Json) : List Token := .string (some m.1) :: .colon :: m.2.spelled

mutual

theorem scan_valueText : ∀ {v : Json} {cs : List Char}, ValueText v cs → ∀ (rest : List Symbol), Delimited rest →
    scan .between (cs.map .char ++ rest) = v.spelled ++ scan .between rest
  | _, _, .null, _, _ => rfl
  | _, _, .bool b, _, _ => by cases b <;> rfl
  | _, _, .number h, _, hr => scan_numberText h hr
  | _, _, .string h, rest, _ => scan_stringText h rest
  | _, _, .noItems hspace, rest, _ => by
    rw [scan_marked (t := .beginArray) rfl, scan_spaced hspace]
    rfl
  | _, _, .items hspace hv hitems, rest, _ => by
    rw [scan_marked (t := .beginArray) rfl, scan_spaced hspace, List.map_append, List.append_assoc,
      scan_valueText hv _ (delimited_itemsText hitems _), scan_itemsText hitems]
    simp [spelled, spelledItems]
  | _, _, .noMembers hspace, rest, _ => by
    rw [scan_marked (t := .beginObject) rfl, scan_spaced hspace]
    rfl
  | _, _, .members hspace hm hmembers, rest, _ => by
    rw [scan_marked (t := .beginObject) rfl, scan_spaced hspace, List.map_append, List.append_assoc,
      scan_memberText hm _ (delimited_membersText hmembers _), scan_membersText hmembers]
    simp [spelled, spelledMembers, spelledMember]

theorem scan_itemsText : ∀ {items : List Json} {cs : List Char}, ItemsText items cs → ∀ (rest : List Symbol),
    scan .between (cs.map .char ++ rest) = spelledMoreItems items ++ scan .between rest
  | _, _, .nil hspace, rest => by
    rw [scan_spaced hspace]
    rfl
  | _, _, .cons hspace hspace' hv hitems, rest => by
    rw [scan_spaced hspace, scan_marked (t := .comma) rfl, scan_spaced hspace', List.map_append, List.append_assoc,
      scan_valueText hv _ (delimited_itemsText hitems _), scan_itemsText hitems]
    simp [spelledMoreItems]

theorem scan_memberText : ∀ {m : String × Json} {cs : List Char}, MemberText m cs → ∀ (rest : List Symbol),
    Delimited rest → scan .between (cs.map .char ++ rest) = spelledMember m ++ scan .between rest
  | _, _, .colon hname hspace hspace' hv, rest, hr => by
    rw [List.map_append, List.append_assoc, scan_stringText hname, scan_spaced hspace,
      scan_marked (t := .colon) rfl, scan_spaced hspace', scan_valueText hv _ hr]
    rfl

theorem scan_membersText : ∀ {members : List (String × Json)} {cs : List Char}, MembersText members cs →
    ∀ (rest : List Symbol), scan .between (cs.map .char ++ rest) = spelledMoreMembers members ++ scan .between rest
  | _, _, .nil hspace, rest => by
    rw [scan_spaced hspace]
    rfl
  | _, _, .cons hspace hspace' hm hmembers, rest => by
    rw [scan_spaced hspace, scan_marked (t := .comma) rfl, scan_spaced hspace', List.map_append, List.append_assoc,
      scan_memberText hm _ (delimited_membersText hmembers _), scan_membersText hmembers]
    simp [spelledMoreMembers, spelledMember]

end

/-! ## The text without white space -/

theorem space_nil : Space [] := fun _ hc => absurd hc List.not_mem_nil

theorem space_singleton {c : Char} (h : isSpace c = true) : Space [c] := by
  intro d hd
  rw [List.mem_singleton.mp hd]
  exact h

theorem charText_escapeChar (c : Char) : CharText c (escapeChar c) := by
  unfold escapeChar
  split_ifs with hquote hslash hb ht hn hf hr hcontrol
  · subst hquote; exact .letter rfl
  · subst hslash; exact .letter rfl
  · subst hb; exact .letter rfl
  · subst ht; exact .letter rfl
  · subst hn; exact .letter rfl
  · subst hf; exact .letter rfl
  · subst hr; exact .letter rfl
  · obtain ⟨hhigh, -⟩ := hexDigit_read (c.toNat / 16) (by omega)
    obtain ⟨hlow, -⟩ := hexDigit_read (c.toNat % 16) (by omega)
    exact .unit ⟨'0', '0', _, _, 0, 0, _, _, rfl, rfl, rfl, hhigh, hlow, by omega⟩
  · exact .plain c hquote hslash (by omega)

theorem stringText_quote (s : String) : StringText s (quote s) := by
  have hchars : ∀ cs : List Char, CharsText cs (cs.flatMap escapeChar) := by
    intro cs
    induction cs with
    | nil => exact .nil
    | cons c cs ih => exact .cons (charText_escapeChar c) ih
  exact .quoted (hchars s.toList)

theorem memberText_compact (key : String) {v : Json} {cs : List Char} (hv : ValueText v cs) :
    MemberText (key, v) (quote key ++ ':' :: cs) := .colon (stringText_quote key) space_nil space_nil hv

theorem numberText_chars {n : Numeral} (hn : n.Sound) : NumberText n n.chars := by
  have hpower : PowerText n.power (Numeral.powerChars n.power) := by
    cases n.power with
    | none => exact .none
    | some p =>
      have hmarked : PowerText (some p) ('e' :: ((if p.negative then ['-'] else ['+']) ++ p.digits.map Digit.char)) :=
        .some (.inl rfl) (.inl rfl)
      cases hp : p.negative <;> simpa [Numeral.powerChars, hp] using hmarked
  unfold Numeral.chars
  rw [List.append_assoc]
  exact .spelled hn hpower

mutual

/-- What is written without white space is a text of the value. -/
theorem valueText_compact : ∀ {v : Json}, v.Sound → ValueText v v.compact
  | .null, _ => .null
  | .bool b, _ => .bool b
  | .number _, hv => .number (numberText_chars hv)
  | .string s, _ => .string (stringText_quote s)
  | .array [], _ => .noItems space_nil
  | .array (_ :: _), hv => .items space_nil (valueText_compact hv.1) (itemsText_compact hv.2)
  | .object [], _ => .noMembers space_nil
  | .object ((key, v) :: members), hv => by
    have hm := memberText_compact key (valueText_compact hv.1)
    simpa [compact, compactMembers] using ValueText.members space_nil hm (membersText_compact hv.2)

theorem itemsText_compact : ∀ {items : List Json}, ItemsSound items → ItemsText items (compactMoreItems items)
  | [], _ => .nil space_nil
  | _ :: _, hv => .cons space_nil space_nil (valueText_compact hv.1) (itemsText_compact hv.2)

theorem membersText_compact : ∀ {members : List (String × Json)}, MembersSound members →
    MembersText members (compactMoreMembers members)
  | [], _ => .nil space_nil
  | (key, v) :: members, hv => by
    have hm := memberText_compact key (valueText_compact hv.1)
    simpa [compactMoreMembers] using MembersText.cons space_nil space_nil hm (membersText_compact hv.2)

end

/-- A value is decoded from any of its texts, with white space around it, as it is decoded itself. -/
theorem decodeText_valueText {α : Type} (decode : Decoder α) {v : Json} {cs before after : List Char}
    (h : ValueText v cs) (hbefore : Space before) (hafter : Space after) :
    decodeText decode ((before ++ (cs ++ after)).map .char) = decode v.reading := by
  refine decodeText_spelled decode ?_
  have hend : scan .between (after.map .char) = [] := by
    have hspace := scan_space hafter []
    rwa [List.append_nil] at hspace
  have hdelimited : Delimited (after.map .char) := by
    have hspace : Delimited (after.map .char ++ []) := delimited_space hafter trivial
    rwa [List.append_nil] at hspace
  rw [tokens, List.map_append, scan_space hbefore, List.map_append, scan_valueText h _ hdelimited, hend,
    List.append_nil]

end ExpertRouting.Json
