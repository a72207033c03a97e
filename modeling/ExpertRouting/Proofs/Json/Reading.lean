/-
  ExpertRouting.Proofs.Json.Reading — the text of a value is read as that value.

  Where a value is due, the tokens that spell it lead to the turn that puts it in place,
  whatever containers are open and whatever follows (`readFrom_spelled`). So a text whose
  tokens spell a value is read as the value, and nothing is left of it (`read_spelled`).
-/

import ExpertRouting.Json.Field
import ExpertRouting.Proofs.Json.Lexing

namespace ExpertRouting.Json

mutual

def reading : Json → Reading
  | .null => .null
  | .bool b => .bool b
  | .number n => .number n
  | .string s => .string (some s)
  | .array items => .array (itemReadings items) none
  | .object members => .object (memberReadings members) none

def itemReadings : List Json → List Reading
  | [] => []
  | v :: rest => v.reading :: itemReadings rest

def memberReadings : List (String × Json) → List (Key × Reading)
  | [] => []
  | (key, v) :: rest => (some key, v.reading) :: memberReadings rest

end

theorem itemReadings_eq_map (items : List Json) : itemReadings items = items.map reading := by
  induction items with
  | nil => rfl
  | cons v items ih => rw [itemReadings, ih, List.map_cons]

def resume : Turn → List Token → Document
  | .next stack due, rest => readFrom stack due rest
  | .done r, rest => ⟨r, !rest.isEmpty⟩
  | .stop d, _ => d

theorem readFrom_cons (stack : List Frame) (due : Due) (t : Token) (rest : List Token) :
    readFrom stack due (t :: rest) = resume (turn stack due t) rest := by
  rw [readFrom]
  cases turn stack due t <;> rfl

/-- No value begins with a closing bracket. -/
theorem spelled_cons (v : Json) : ∃ t rest, v.spelled = t :: rest ∧ t ≠ .endArray := by
  cases v <;> exact ⟨_, _, rfl, Token.noConfusion⟩

theorem readFrom_itemOrEnd {t : Token} (ht : t ≠ .endArray) (stack : List Frame) (rest : List Token) :
    readFrom stack .itemOrEnd (t :: rest) = readFrom stack .value (t :: rest) := by
  rw [readFrom_cons, readFrom_cons, turn, turn]
  simp only [if_neg ht]

mutual

theorem readFrom_spelled : ∀ (v : Json) (stack : List Frame) (rest : List Token),
    readFrom stack .value (v.spelled ++ rest) = resume (put v.reading stack) rest
  | .null, _, _ => readFrom_cons _ _ _ _
  | .bool _, _, _ => readFrom_cons _ _ _ _
  | .number _, _, _ => readFrom_cons _ _ _ _
  | .string _, _, _ => readFrom_cons _ _ _ _
  | .array items, stack, rest => (readFrom_cons _ _ _ _).trans (readFrom_items items stack rest)
  | .object members, stack, rest => (readFrom_cons _ _ _ _).trans (readFrom_members members stack rest)

theorem readFrom_items : ∀ (items : List Json) (outer : List Frame) (rest : List Token),
    readFrom (.array [] :: outer) .itemOrEnd (spelledItems items ++ rest) =
      resume (put (.array (itemReadings items) none) outer) rest
  | [], _, _ => readFrom_cons _ _ _ _
  | v :: items, outer, rest => by
    obtain ⟨t, ts, hv, ht⟩ := spelled_cons v
    have hfirst := readFrom_spelled v (.array [] :: outer) (spelledMoreItems items ++ rest)
    rw [spelledItems, List.append_assoc]
    rw [hv, List.cons_append] at hfirst ⊢
    rw [readFrom_itemOrEnd ht, hfirst]
    exact readFrom_moreItems items [v.reading] outer rest

theorem readFrom_moreItems : ∀ (items : List Json) (before : List Reading) (outer : List Frame) (rest : List Token),
    readFrom (.array before :: outer) .commaOrEnd (spelledMoreItems items ++ rest) =
      resume (put (.array (before.reverse ++ itemReadings items) none) outer) rest
  | [], before, _, _ => by
    rw [spelledMoreItems, itemReadings, List.append_nil]
    exact readFrom_cons _ _ _ _
  | v :: items, before, outer, rest => by
    rw [spelledMoreItems, List.cons_append, List.append_assoc, readFrom_cons]
    refine (readFrom_spelled v (.array before :: outer) _).trans ?_
    refine (readFrom_moreItems items (v.reading :: before) outer rest).trans ?_
    simp [itemReadings]

theorem readFrom_members : ∀ (members : List (String × Json)) (outer : List Frame) (rest : List Token),
    readFrom (.object [] :: outer) .keyOrEnd (spelledMembers members ++ rest) =
      resume (put (.object (memberReadings members) none) outer) rest
  | [], _, _ => readFrom_cons _ _ _ _
  | (key, v) :: members, outer, rest => by
    rw [spelledMembers, List.cons_append, List.cons_append, List.append_assoc, readFrom_cons]
    refine (readFrom_cons (.member [] (some key) :: outer) .colon .colon _).trans ?_
    refine (readFrom_spelled v (.member [] (some key) :: outer) _).trans ?_
    exact readFrom_moreMembers members [(some key, v.reading)] outer rest

theorem readFrom_moreMembers : ∀ (members : List (String × Json)) (before : List (Key × Reading))
    (outer : List Frame) (rest : List Token),
    readFrom (.object before :: outer) .commaOrEnd (spelledMoreMembers members ++ rest) =
      resume (put (.object (before.reverse ++ memberReadings members) none) outer) rest
  | [], before, _, _ => by
    rw [spelledMoreMembers, memberReadings, List.append_nil]
    exact readFrom_cons _ _ _ _
  | (key, v) :: members, before, outer, rest => by
    rw [spelledMoreMembers, List.cons_append, List.cons_append, List.cons_append, List.append_assoc, readFrom_cons]
    refine (readFrom_cons (.object before :: outer) .key (.string (some key)) _).trans ?_
    refine (readFrom_cons (.member before (some key) :: outer) .colon .colon _).trans ?_
    refine (readFrom_spelled v (.member before (some key) :: outer) _).trans ?_
    refine (readFrom_moreMembers members ((some key, v.reading) :: before) outer rest).trans ?_
    simp [memberReadings]

end

theorem read_spelled {v : Json} {text : List Symbol} (h : tokens text = v.spelled) : read text = ⟨v.reading, false⟩ := by
  rw [read, h, ← List.append_nil v.spelled, readFrom_spelled]
  rfl

/-- A value is decoded from a text that spells it as it is decoded itself. -/
theorem decodeText_spelled {α : Type} (decode : Decoder α) {v : Json} {text : List Symbol}
    (h : tokens text = v.spelled) : decodeText decode text = decode v.reading := by
  simp only [decodeText, read_spelled h]
  cases decode v.reading <;> rfl

theorem decodeText_compact {α : Type} (decode : Decoder α) {v : Json} (hv : v.Sound) :
    decodeText decode (v.compact.map .char) = decode v.reading := decodeText_spelled decode (tokens_compact hv)

end ExpertRouting.Json
