/-
  ExpertRouting.Proofs.Report.Page — the metrics file, line by line.

  A value that is written with a line for each part is a block: its brackets, and between them
  the parts, each on lines of its own two blanks deeper and with a comma after all but the
  last; without parts it is two brackets (`prettyAt_array`, `prettyAt_object`). So a metrics
  file is the page that `Report.page` spells out, name by name (`Report.text_eq_page`): the
  listed experts, the entropies, the totals, the reading of the load, and all counts, with a
  line end after it.
-/

import ExpertRouting.Report.File

namespace ExpertRouting

open Json

/-! ## Blocks -/

def indent (depth : Nat) : List Char := List.replicate (2 * depth) ' '

/-- Parts on lines of their own between brackets. -/
def block (opening closing : Char) (depth : Nat) : List (List Char) → List Char
  | [] => [opening, closing]
  | parts => opening :: '\n' :: ([',', '\n'].intercalate parts ++ '\n' :: (indent depth ++ [closing]))

def entry (depth : Nat) (name : String) (value : List Char) : List Char :=
  indent depth ++ '"' :: (name.toList ++ '"' :: ':' :: ' ' :: value)

def Share.page (s : Share) : List Char :=
  block '{' '}' 2
    [entry 3 "expert_id" (decimalChars s.expert), entry 3 "count" (decimalChars s.count),
     entry 3 "probability" (ofReal s.probability).compact]

/-- The page of a report. -/
def Report.page (r : Report) : List Char :=
  block '{' '}' 0
    [entry 1 "top_3_experts" (block '[' ']' 1 (r.metrics.top.map fun s => indent 2 ++ s.page)),
     entry 1 "shannon_entropy_bits" (ofReal r.metrics.entropy).compact,
     entry 1 "max_entropy_bits" (ofReal r.metrics.maxEntropy).compact,
     entry 1 "normalized_entropy" (ofReal r.metrics.normalized).compact,
     entry 1 "total_selections" (decimalChars r.metrics.total),
     entry 1 "num_experts" (decimalChars r.metrics.numExperts),
     entry 1 "load_balance" ('"' :: (r.loadBalance.name.toList ++ ['"'])),
     entry 1 "tokens_processed" (decimalChars r.tokens),
     entry 1 "requests" (decimalChars r.requests),
     entry 1 "expert_counts" (block '[' ']' 1 (r.counts.map fun n => indent 2 ++ decimalChars n))] ++ ['\n']

theorem intercalate_cons {α : Type} (sep part : List α) (parts : List (List α)) :
    sep.intercalate (part :: parts) = part ++ parts.flatMap (sep ++ ·) := by
  induction parts generalizing part with
  | nil => simp [List.intercalate]
  | cons next parts ih =>
    have hnext := ih next
    simp only [List.intercalate, List.intersperse_cons_cons, List.flatten_cons, List.flatMap_cons] at hnext ⊢
    rw [hnext, List.append_assoc]

theorem block_cons (opening closing : Char) (depth : Nat) (part : List Char) (parts : List (List Char)) :
    block opening closing depth (part :: parts) =
      opening :: '\n' :: (part ++ (parts.flatMap ([',', '\n'] ++ ·) ++ '\n' :: (indent depth ++ [closing]))) := by
  rw [block, intercalate_cons, List.append_assoc]
  exact List.cons_ne_nil _ _

theorem prettyAt_array (depth : Nat) (items : List Json) :
    (Json.array items).prettyAt depth =
      block '[' ']' depth (items.map fun v => indent (depth + 1) ++ v.prettyAt (depth + 1)) := by
  have hmore : ∀ items : List Json, prettyMoreItems depth items =
      (items.map fun v => indent (depth + 1) ++ v.prettyAt (depth + 1)).flatMap ([',', '\n'] ++ ·) ++
        '\n' :: (indent depth ++ [']']) := by
    intro items
    induction items with
    | nil => rfl
    | cons v items ih =>
      rw [prettyMoreItems, ih]
      simp [newLine, indent]
  cases items with
  | nil => rfl
  | cons v items =>
    rw [List.map_cons, block_cons, prettyAt, prettyItems, hmore]
    simp [newLine, indent]

theorem prettyAt_object (depth : Nat) (members : List (String × Json)) :
    (Json.object members).prettyAt depth =
      block '{' '}' depth (members.map fun m =>
        indent (depth + 1) ++ (quote m.1 ++ ':' :: ' ' :: m.2.prettyAt (depth + 1))) := by
  have hmore : ∀ members : List (String × Json), prettyMoreMembers depth members =
      (members.map fun m => indent (depth + 1) ++ (quote m.1 ++ ':' :: ' ' :: m.2.prettyAt (depth + 1))).flatMap
          ([',', '\n'] ++ ·) ++ '\n' :: (indent depth ++ ['}']) := by
    intro members
    induction members with
    | nil => rfl
    | cons m members ih =>
      rw [prettyMoreMembers, ih]
      simp [newLine, indent]
  cases members with
  | nil => rfl
  | cons m members =>
    rw [List.map_cons, block_cons, prettyAt, prettyMembers, hmore]
    simp [newLine, indent]

/-! ## Parts -/

theorem prettyAt_ofNat (depth n : Nat) : (Json.ofNat n).prettyAt depth = decimalChars n := by
  simp [Json.ofNat, prettyAt, Numeral.chars, Numeral.ofNat, Numeral.fractionChars, Numeral.powerChars, decimalChars]

theorem prettyAt_ofReal (depth : Nat) (x : Real64) : (ofReal x).prettyAt depth = (ofReal x).compact := by
  unfold ofReal
  split <;> rfl

/-- A name in which nothing is escaped is written as it is. -/
theorem quote_plain {name : String} (h : name.toList.flatMap escapeChar = name.toList) :
    quote name = '"' :: (name.toList ++ ['"']) := by
  rw [quote, h]

theorem quote_loadBalance (b : LoadBalance) : quote b.name = '"' :: (b.name.toList ++ ['"']) := by
  cases b <;> exact quote_plain (by decide)

theorem entry_plain {depth : Nat} {name : String} (h : name.toList.flatMap escapeChar = name.toList)
    (value : List Char) :
    indent depth ++ (quote name ++ ':' :: ' ' :: value) = entry depth name value := by
  rw [quote_plain h, entry]
  simp

theorem prettyAt_share (s : Share) : s.toJson.prettyAt 2 = s.page := by
  rw [Share.toJson, prettyAt_object]
  simp only [List.map_cons, List.map_nil, prettyAt_ofNat, prettyAt_ofReal]
  rw [entry_plain (by decide), entry_plain (by decide), entry_plain (by decide)]
  rfl

theorem Report.text_eq_page (r : Report) : r.text = r.page := by
  have hshares : ((r.metrics.top.map Share.toJson).map fun v => indent 2 ++ v.prettyAt 2) =
      r.metrics.top.map fun s => indent 2 ++ s.page := by
    rw [List.map_map]
    exact List.map_congr_left fun s _ => congrArg (indent 2 ++ ·) (prettyAt_share s)
  have hcounts : ((r.counts.map Json.ofNat).map fun v => indent 2 ++ v.prettyAt 2) =
      r.counts.map fun n => indent 2 ++ decimalChars n := by
    rw [List.map_map]
    exact List.map_congr_left fun n _ => congrArg (indent 2 ++ ·) (prettyAt_ofNat 2 n)
  have hname : (Json.string r.loadBalance.name).prettyAt 1 = '"' :: (r.loadBalance.name.toList ++ ['"']) :=
    quote_loadBalance r.loadBalance
  rw [text, pretty, toJson, Metrics.fields, prettyAt_object]
  simp only [List.cons_append, List.nil_append, List.map_cons, List.map_nil, Nat.zero_add, prettyAt_array,
    prettyAt_ofNat, prettyAt_ofReal, hshares, hcounts, hname]
  rw [page]
  repeat rw [entry_plain (by decide)]

end ExpertRouting
