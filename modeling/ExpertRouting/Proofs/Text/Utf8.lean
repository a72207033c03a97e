/-
  ExpertRouting.Proofs.Text.Utf8 — characters written as bytes are read back.

  The first byte of a character fixes how many bytes follow and what the next one may be
  (`lead_two`, `lead_three`, `lead_four`); each of them then carries six bits of the code
  point (`read_next`). So a character's bytes are read as that character whatever follows
  (`read_encodeChar`), and a text as itself (`decode_encode`). ASCII bytes only
  stand for ASCII characters, so a byte that ends a line is a line feed of the text
  (`newline_not_mem_encode`).
-/

import ExpertRouting.Text.Utf8

namespace ExpertRouting.Utf8

theorem read_ascii {b : UInt8} (h : b.toNat < 0x80) (rest : List UInt8) :
    read none (b :: rest) = .char (Char.ofNat b.toNat) :: read none rest := by
  simp only [read, lead, h, if_true]

theorem lead_two {b : UInt8} (hl : 0xC2 ≤ b.toNat) (hh : b.toNat ≤ 0xDF) :
    lead b = .inr ⟨[b], b.toNat % 0x20, 0, 0x80, 0xBF⟩ := by
  unfold lead
  rw [if_neg (by omega), if_pos ⟨hl, hh⟩]

theorem lead_three {b : UInt8} (hl : 0xE0 ≤ b.toNat) (hh : b.toNat ≤ 0xEF) :
    lead b = .inr ⟨[b], b.toNat % 0x10, 1, if b.toNat = 0xE0 then 0xA0 else 0x80,
      if b.toNat = 0xED then 0x9F else 0xBF⟩ := by
  unfold lead
  rw [if_neg (by omega), if_neg (by omega)]
  by_cases h0 : b.toNat = 0xE0
  · simp [h0]
  by_cases hd : b.toNat = 0xED
  · simp [hd]
  · rw [if_neg h0, if_neg hd, if_pos (by omega), if_neg h0, if_neg hd]

theorem lead_four {b : UInt8} (hl : 0xF0 ≤ b.toNat) (hh : b.toNat ≤ 0xF4) :
    lead b = .inr ⟨[b], b.toNat % 8, 2, if b.toNat = 0xF0 then 0x90 else 0x80,
      if b.toNat = 0xF4 then 0x8F else 0xBF⟩ := by
  unfold lead
  rw [if_neg (by omega), if_neg (by omega), if_neg (by omega), if_neg (by omega), if_neg (by omega)]
  by_cases h0 : b.toNat = 0xF0
  · simp [h0]
  by_cases h4 : b.toNat = 0xF4
  · simp [h4]
  · rw [if_neg h0, if_neg h4, if_pos (by omega), if_neg h0, if_neg h4]

theorem read_lead {b : UInt8} {q : Begun} (h : lead b = .inr q) (rest : List UInt8) :
    read none (b :: rest) = read (some q) rest := by
  simp only [read, h]

/-- A byte that may stand inside a character adds six bits, and ends it if no more are due. -/
theorem read_next {q : Begun} {b : UInt8} (hl : q.low ≤ b.toNat) (hh : b.toNat ≤ q.high) (rest : List UInt8) :
    read (some q) (b :: rest) = match q.more with
      | 0 => .char (Char.ofNat (q.code * 0x40 + b.toNat % 0x40)) :: read none rest
      | more + 1 => read (some ⟨b :: q.seen, q.code * 0x40 + b.toNat % 0x40, more, 0x80, 0xBF⟩) rest := by
  simp only [read, Begun.next?, hl, hh, and_self, if_true]
  cases q.more <;> rfl

theorem continuation_toNat (v : Nat) : (UInt8.ofNat (v % 0x40 + 0x80)).toNat = v % 0x40 + 0x80 := by
  simp
  omega

theorem read_encodeChar (c : Char) (rest : List UInt8) :
    read none (String.utf8EncodeChar c ++ rest) = .char c :: read none rest := by
  have hc : ∀ n, n = c.val.toNat → Char.ofNat n = c := by
    rintro n rfl
    exact Char.ofNat_toNat c
  have hvalid := c.valid
  simp only [UInt32.isValidChar, Nat.isValidChar] at hvalid
  unfold String.utf8EncodeChar
  generalize c.val.toNat = v at hc hvalid
  by_cases h1 : v ≤ 0x7f
  · simp only [h1, if_true, List.cons_append, List.nil_append]
    have hb : (UInt8.ofNat v).toNat = v := by simp; omega
    rw [read_ascii (by omega), hc _ hb]
  by_cases h2 : v ≤ 0x7ff
  · simp only [h1, h2, if_true, if_false, List.cons_append, List.nil_append]
    have hb : (UInt8.ofNat (v / 64 % 0x20 + 0xc0)).toNat = v / 64 + 0xc0 := by simp; omega
    have hb' := continuation_toNat v
    rw [read_lead (lead_two (by omega) (by omega)), read_next (by simp only; omega) (by simp only; omega)]
    simp only [hb, hb']
    rw [hc _ (by omega)]
  by_cases h3 : v ≤ 0xffff
  · simp only [h1, h2, h3, if_true, if_false, List.cons_append, List.nil_append]
    have hb : (UInt8.ofNat (v / 4096 % 0x10 + 0xe0)).toNat = v / 4096 + 0xe0 := by simp; omega
    have hb' := continuation_toNat (v / 64)
    have hb'' := continuation_toNat v
    rw [read_lead (lead_three (by omega) (by omega)),
      read_next (by simp only; split <;> omega) (by simp only; split <;> omega)]
    simp only
    rw [read_next (by simp only; omega) (by simp only; omega)]
    simp only [hb, hb', hb'']
    rw [hc _ (by omega)]
  · simp only [h1, h2, h3, if_false, List.cons_append, List.nil_append]
    have hb : (UInt8.ofNat (v / 262144 % 0x08 + 0xf0)).toNat = v / 262144 + 0xf0 := by simp; omega
    have hb' := continuation_toNat (v / 4096)
    have hb'' := continuation_toNat (v / 64)
    have hb''' := continuation_toNat v
    rw [read_lead (lead_four (by omega) (by omega)),
      read_next (by simp only; split <;> omega) (by simp only; split <;> omega)]
    simp only
    rw [read_next (by simp only; omega) (by simp only; omega)]
    simp only
    rw [read_next (by simp only; omega) (by simp only; omega)]
    simp only [hb, hb', hb'', hb''']
    rw [hc _ (by omega)]

theorem decode_encode (cs : List Char) : decode (encode cs) = cs.map .char := by
  unfold decode encode
  induction cs with
  | nil => rfl
  | cons c cs ih => rw [List.flatMap_cons, read_encodeChar, ih, List.map_cons]

/-- An ASCII byte is only written for the character of its own code. -/
theorem ascii_mem_encodeChar {c : Char} {b : UInt8} (hb : b.toNat < 0x80) (h : b ∈ String.utf8EncodeChar c) :
    c.toNat = b.toNat := by
  have hc : c.toNat = c.val.toNat := rfl
  rw [hc]
  unfold String.utf8EncodeChar at h
  generalize c.val.toNat = v at h
  by_cases h1 : v ≤ 0x7f
  · simp only [h1, if_true, List.mem_singleton] at h
    simp [h]
    omega
  -- every byte of a longer character is 0x80 or more
  by_cases h2 : v ≤ 0x7ff
  · simp only [h1, h2, if_true, if_false, List.mem_cons, List.not_mem_nil, or_false] at h
    rcases h with rfl | rfl <;> simp at hb <;> omega
  by_cases h3 : v ≤ 0xffff
  · simp only [h1, h2, h3, if_true, if_false, List.mem_cons, List.not_mem_nil, or_false] at h
    rcases h with rfl | rfl | rfl <;> simp at hb <;> omega
  · simp only [h1, h2, h3, if_false, List.mem_cons, List.not_mem_nil, or_false] at h
    rcases h with rfl | rfl | rfl | rfl <;> simp at hb <;> omega

/-- Text without line feeds has no byte that ends a line. -/
theorem newline_not_mem_encode {cs : List Char} (h : '\n' ∉ cs) : 0x0A ∉ encode cs := by
  intro hmem
  obtain ⟨c, hc, hb⟩ := List.mem_flatMap.mp hmem
  have hcode : c.toNat = '\n'.toNat := ascii_mem_encodeChar (by decide) hb
  exact h (Char.toNat_inj.mp hcode ▸ hc)

theorem chars_map (cs : List Char) : chars? (cs.map .char) = some cs := by
  unfold chars?
  rw [List.mapM_map]
  induction cs with
  | nil => rfl
  | cons c cs ih => rw [List.mapM_cons, ih]; rfl

end ExpertRouting.Utf8
