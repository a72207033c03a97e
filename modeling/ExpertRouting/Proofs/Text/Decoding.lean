/-
  ExpertRouting.Proofs.Text.Decoding — reading bytes as text loses none of them.

  A character that has begun knows what its last bytes may be, and whichever of those come,
  the bytes read and those make the encoding of a character (`Begun.Sound`). So every byte
  that is read goes into a symbol or into the character begun (`step_spec`), and the symbols
  of a text hold its bytes in order (`flatMap_read`): a text is free of stray bytes exactly
  when it encodes some characters (`chars_decode_iff`). A line feed completes no character,
  so bytes are cut into lines before they are read just as they are after it (`lines_decode`).
-/

import Mathlib.Algebra.Group.Nat.Defs
import ExpertRouting.Proofs.Text.Lines
import ExpertRouting.Proofs.Text.Utf8

namespace ExpertRouting

def Symbol.bytes : Symbol → List UInt8
  | .char c => String.utf8EncodeChar c
  | .stray bytes => bytes

namespace Utf8

/-! ## The bytes of a character -/

def lastBytes (v : Nat) : Nat → List UInt8
  | 0 => []
  | n + 1 => UInt8.ofNat (v / 64 ^ n % 64 + 0x80) :: lastBytes v n

theorem val_ofNat {v : Nat} (h : v.isValidChar) : (Char.ofNat v).val.toNat = v := by
  rw [Char.ofNat, dif_pos h]
  rfl

theorem encodeChar_two {v : Nat} (hl : 0x80 ≤ v) (hh : v ≤ 0x7FF) :
    String.utf8EncodeChar (Char.ofNat v) = UInt8.ofNat (v / 64 + 0xC0) :: lastBytes v 1 := by
  have hval := val_ofNat (v := v) (Or.inl (by omega))
  have hfirst : v / 64 % 0x20 = v / 64 := by omega
  simp [String.utf8EncodeChar, hval, lastBytes, hfirst, show ¬ v ≤ 0x7F by omega, hh]

theorem encodeChar_three {v : Nat} (hl : 0x800 ≤ v) (hh : v ≤ 0xFFFF) (hv : v.isValidChar) :
    String.utf8EncodeChar (Char.ofNat v) = UInt8.ofNat (v / 4096 + 0xE0) :: lastBytes v 2 := by
  have hval := val_ofNat hv
  have hfirst : v / 4096 % 0x10 = v / 4096 := by omega
  simp [String.utf8EncodeChar, hval, lastBytes, hfirst, show ¬ v ≤ 0x7F by omega, show ¬ v ≤ 0x7FF by omega, hh]

theorem encodeChar_four {v : Nat} (hl : 0x10000 ≤ v) (hh : v < 0x110000) :
    String.utf8EncodeChar (Char.ofNat v) = UInt8.ofNat (v / 262144 + 0xF0) :: lastBytes v 3 := by
  have hval := val_ofNat (v := v) (Or.inr ⟨by omega, hh⟩)
  have hfirst : v / 262144 % 0x08 = v / 262144 := by omega
  simp [String.utf8EncodeChar, hval, lastBytes, hfirst, show ¬ v ≤ 0x7F by omega, show ¬ v ≤ 0x7FF by omega,
    show ¬ v ≤ 0xFFFF by omega]

theorem eq_ofNat {b : UInt8} {n : Nat} (h : b.toNat = n) : UInt8.ofNat n = b := by
  rw [← h, UInt8.ofNat_toNat]

/-! ## Characters that have begun -/

/-- Whatever code goes on as it may from the bytes read, they are the first bytes of its character. -/
structure Begun.Sound (q : Begun) : Prop where
  low : 0x80 ≤ q.low
  high : q.high ≤ 0xBF
  spells : ∀ v, v / 64 ^ (q.more + 1) = q.code → q.low ≤ v / 64 ^ q.more % 64 + 0x80 →
    v / 64 ^ q.more % 64 + 0x80 ≤ q.high →
    String.utf8EncodeChar (Char.ofNat v) = q.seen.reverse ++ lastBytes v (q.more + 1)

theorem lead_char {b : UInt8} {s : Symbol} (h : lead b = .inl s) : s.bytes = [b] := by
  unfold lead at h
  by_cases hascii : b.toNat < 0x80
  · rw [if_pos hascii] at h
    cases h
    have hval := val_ofNat (v := b.toNat) (Or.inl (by omega))
    simp [Symbol.bytes, String.utf8EncodeChar, hval, show b.toNat ≤ 0x7F by omega]
  · rw [if_neg hascii] at h
    repeat' split at h
    all_goals cases h
    rfl

theorem sound_two {b : UInt8} (hl : 0xC2 ≤ b.toNat) (hh : b.toNat ≤ 0xDF) :
    (Begun.mk [b] (b.toNat % 0x20) 0 0x80 0xBF).Sound := by
  refine ⟨Nat.le_refl _, Nat.le_refl _, fun v hcode _ _ => ?_⟩
  simp only [Nat.zero_add, Nat.pow_one] at hcode
  rw [encodeChar_two (by omega) (by omega), eq_ofNat (b := b) (by omega)]
  rfl

/-- Of three bytes, two leads narrow the second: one spells short codes again, the other surrogates. -/
theorem sound_three {b : UInt8} (hl : 0xE0 ≤ b.toNat) (hh : b.toNat ≤ 0xEF) :
    (Begun.mk [b] (b.toNat % 0x10) 1 (if b.toNat = 0xE0 then 0xA0 else 0x80)
      (if b.toNat = 0xED then 0x9F else 0xBF)).Sound := by
  refine ⟨by dsimp only; split <;> decide, by dsimp only; split <;> decide, fun v hcode hlow hhigh => ?_⟩
  dsimp only at hcode hlow hhigh
  have hlead : b.toNat = v / 4096 + 0xE0 := by omega
  have hlong : 0x800 ≤ v := by
    split at hlow <;> omega
  have hvalid : v < 0xD800 ∨ 0xE000 ≤ v := by
    split at hhigh <;> omega
  rw [encodeChar_three hlong (by omega) (by unfold Nat.isValidChar; omega), eq_ofNat hlead]
  rfl

/-- Of four bytes, one lead spells short codes again, the other codes beyond the last. -/
theorem sound_four {b : UInt8} (hl : 0xF0 ≤ b.toNat) (hh : b.toNat ≤ 0xF4) :
    (Begun.mk [b] (b.toNat % 8) 2 (if b.toNat = 0xF0 then 0x90 else 0x80)
      (if b.toNat = 0xF4 then 0x8F else 0xBF)).Sound := by
  refine ⟨by dsimp only; split <;> decide, by dsimp only; split <;> decide, fun v hcode hlow hhigh => ?_⟩
  dsimp only at hcode hlow hhigh
  have hlead : b.toNat = v / 262144 + 0xF0 := by omega
  have hlong : 0x10000 ≤ v := by
    split at hlow <;> omega
  have hrange : v < 0x110000 := by
    split at hhigh <;> omega
  rw [encodeChar_four hlong hrange, eq_ofNat hlead]
  rfl

theorem lead_begun {b : UInt8} {q : Begun} (h : lead b = .inr q) : q.Sound ∧ q.seen = [b] := by
  by_cases h2 : 0xC2 ≤ b.toNat ∧ b.toNat ≤ 0xDF
  · rw [lead_two h2.1 h2.2] at h
    cases h
    exact ⟨sound_two h2.1 h2.2, rfl⟩
  by_cases h3 : 0xE0 ≤ b.toNat ∧ b.toNat ≤ 0xEF
  · rw [lead_three h3.1 h3.2] at h
    cases h
    exact ⟨sound_three h3.1 h3.2, rfl⟩
  by_cases h4 : 0xF0 ≤ b.toNat ∧ b.toNat ≤ 0xF4
  · rw [lead_four h4.1 h4.2] at h
    cases h
    exact ⟨sound_four h4.1 h4.2, rfl⟩
  · -- no other byte leads a character of several
    unfold lead at h
    by_cases h1 : b.toNat < 0x80
    · rw [if_pos h1] at h
      cases h
    · rw [if_neg h1, if_neg h2, if_neg (by omega), if_neg (by omega), if_neg (by omega), if_neg (by omega),
        if_neg (by omega), if_neg (by omega)] at h
      cases h

theorem div_pow_succ (v n : Nat) : v / 64 ^ (n + 1) = v / 64 ^ n / 64 := by
  rw [Nat.pow_succ, Nat.div_div_eq_div_mul]

theorem next_begun {q q' : Begun} {b : UInt8} (hq : q.Sound) (h : q.next? b = some (.inr q')) :
    q'.Sound ∧ q'.seen = b :: q.seen := by
  have hlow := hq.low
  have hhigh := hq.high
  have hspells := hq.spells
  unfold Begun.next? at h
  by_cases hrange : q.low ≤ b.toNat ∧ b.toNat ≤ q.high
  case neg => rw [if_neg hrange] at h; cases h
  rw [if_pos hrange] at h
  generalize q.more = left at h hspells
  cases left with
  | zero => cases h
  | succ more =>
    cases h
    refine ⟨⟨Nat.le_refl _, Nat.le_refl _, fun v hcode _ _ => ?_⟩, rfl⟩
    dsimp only at hcode
    have hb : v / 64 ^ (more + 1) % 64 + 0x80 = b.toNat := by omega
    rw [hspells v (by rw [div_pow_succ]; omega) (by omega) (by omega), lastBytes, eq_ofNat hb.symm]
    simp

theorem next_char {q : Begun} {b : UInt8} {s : Symbol} (hq : q.Sound) (h : q.next? b = some (.inl s)) :
    s.bytes = q.seen.reverse ++ [b] := by
  have hlow := hq.low
  have hhigh := hq.high
  have hspells := hq.spells
  unfold Begun.next? at h
  by_cases hrange : q.low ≤ b.toNat ∧ b.toNat ≤ q.high
  case neg => rw [if_neg hrange] at h; cases h
  rw [if_pos hrange] at h
  generalize q.more = left at h hspells
  cases left with
  | succ more => cases h
  | zero =>
    cases h
    simp only [Nat.zero_add, Nat.pow_one, Nat.pow_zero, Nat.div_one] at hspells
    have hb : (q.code * 0x40 + b.toNat % 0x40) % 64 + 0x80 = b.toNat := by omega
    rw [Symbol.bytes, hspells _ (by omega) (by omega) (by omega), lastBytes, lastBytes, Nat.pow_zero, Nat.div_one,
      eq_ofNat hb.symm]

/-! ## One byte -/

def afresh (b : UInt8) : List Symbol × Option Begun :=
  match lead b with
  | .inl s => ([s], none)
  | .inr q => ([], some q)

/-- A byte between characters or inside one: the symbols it completes, and the character then begun. -/
def step : Option Begun → UInt8 → List Symbol × Option Begun
  | none, b => afresh b
  | some q, b =>
    match q.next? b with
    | some (.inl s) => ([s], none)
    | some (.inr q) => ([], some q)
    | none => (q.stray :: (afresh b).1, (afresh b).2)

theorem read_cons (q : Option Begun) (b : UInt8) (bytes : List UInt8) :
    read q (b :: bytes) = (step q b).1 ++ read (step q b).2 bytes := by
  cases q with
  | none =>
    simp only [read, step, afresh]
    cases lead b <;> rfl
  | some q =>
    simp only [read, step, afresh]
    cases q.next? b with
    | none => cases lead b <;> rfl
    | some next => cases next <;> rfl

def pending (q : Option Begun) : List UInt8 := q.elim [] fun q => q.seen.reverse

theorem afresh_spec (b : UInt8) :
    (∀ q ∈ (afresh b).2, q.Sound) ∧ (afresh b).1.flatMap Symbol.bytes ++ pending (afresh b).2 = [b] := by
  unfold afresh
  cases h : lead b with
  | inl s => exact ⟨nofun, by simp [pending, lead_char h]⟩
  | inr q =>
    obtain ⟨hsound, hseen⟩ := lead_begun h
    refine ⟨?_, by simp [pending, hseen]⟩
    rintro q' ⟨⟩
    exact hsound

/-- A byte goes into the symbols it completes or into the character then begun. -/
theorem step_spec {q : Option Begun} (hq : ∀ q' ∈ q, q'.Sound) (b : UInt8) :
    (∀ q' ∈ (step q b).2, q'.Sound) ∧
      (step q b).1.flatMap Symbol.bytes ++ pending (step q b).2 = pending q ++ [b] := by
  cases q with
  | none => exact afresh_spec b
  | some q =>
    have hsound := hq q rfl
    simp only [step]
    cases h : q.next? b with
    | none =>
      obtain ⟨hnext, hbytes⟩ := afresh_spec b
      refine ⟨hnext, ?_⟩
      show (q.stray :: (afresh b).1).flatMap Symbol.bytes ++ pending (afresh b).2 = q.seen.reverse ++ [b]
      rw [List.flatMap_cons, List.append_assoc, hbytes]
      rfl
    | some next =>
      cases next with
      | inl s => exact ⟨nofun, by simp [pending, next_char hsound h]⟩
      | inr q' =>
        obtain ⟨hsound', hseen⟩ := next_begun hsound h
        refine ⟨?_, by simp [pending, hseen]⟩
        rintro q₂ ⟨⟩
        exact hsound'

/-! ## Texts -/

/-- The symbols read hold the bytes read, in order; the induction is on the bytes to come. -/
theorem flatMap_read {q : Option Begun} (hq : ∀ q' ∈ q, q'.Sound) (bytes : List UInt8) :
    (read q bytes).flatMap Symbol.bytes = pending q ++ bytes := by
  induction bytes generalizing q with
  | nil =>
    cases q with
    | none => rfl
    | some q => simp [read, Begun.stray, Symbol.bytes, pending]
  | cons b bytes ih =>
    obtain ⟨hnext, hbytes⟩ := step_spec hq b
    rw [read_cons, List.flatMap_append, ih hnext, ← List.append_assoc, hbytes, List.append_assoc, List.singleton_append]

theorem flatMap_decode (bytes : List UInt8) : (decode bytes).flatMap Symbol.bytes = bytes :=
  flatMap_read (q := none) nofun bytes

theorem eq_map_of_chars {text : List Symbol} {cs : List Char} (h : chars? text = some cs) : text = cs.map .char := by
  unfold chars? at h
  induction text generalizing cs with
  | nil =>
    cases h
    rfl
  | cons s text ih =>
    cases s with
    | stray bytes => cases h
    | char c =>
      rw [List.mapM_cons] at h
      cases hrest : text.mapM Symbol.char? with
      | none =>
        rw [hrest] at h
        cases h
      | some rest =>
        rw [hrest] at h
        cases h
        rw [ih hrest, List.map_cons]

/-- Bytes are read without stray ones exactly when they encode some characters. -/
theorem chars_decode_iff {bytes : List UInt8} {cs : List Char} :
    chars? (decode bytes) = some cs ↔ bytes = encode cs := by
  constructor
  · intro h
    rw [← flatMap_decode bytes, eq_map_of_chars h, List.flatMap_map]
    rfl
  · rintro rfl
    rw [decode_encode, chars_map]

/-! ## Lines -/

theorem newline_not_mem_decode {bytes : List UInt8} (h : 0x0A ∉ bytes) : .char '\n' ∉ decode bytes := by
  intro hmem
  have hbyte : 0x0A ∈ (decode bytes).flatMap Symbol.bytes := List.mem_flatMap.mpr ⟨_, hmem, by decide⟩
  rw [flatMap_decode] at hbyte
  exact h hbyte

/-- A line feed completes no character, so it ends the one that has begun. -/
theorem read_newline {q : Option Begun} (hq : ∀ q' ∈ q, q'.Sound) (rest : List UInt8) :
    read q (0x0A :: rest) = read q [] ++ .char '\n' :: decode rest := by
  have hlead : lead 0x0A = .inl (.char '\n') := rfl
  cases q with
  | none => simp only [read, hlead, decode, List.nil_append]
  | some q =>
    have hnext : q.next? 0x0A = none := if_neg fun h => absurd (Nat.le_trans (hq q rfl).low h.1) (by decide)
    simp only [read, hnext, hlead, decode, List.singleton_append]

theorem read_line {q : Option Begun} (hq : ∀ q' ∈ q, q'.Sound) (line rest : List UInt8) :
    read q (line ++ 0x0A :: rest) = read q line ++ .char '\n' :: decode rest := by
  induction line generalizing q with
  | nil => exact read_newline hq rest
  | cons b line ih =>
    rw [List.cons_append, read_cons, read_cons, ih (step_spec hq b).1, List.append_assoc]

/-- A line is read by itself, whatever follows it. -/
theorem decode_line (line rest : List UInt8) :
    decode (line ++ 0x0A :: rest) = decode line ++ .char '\n' :: decode rest :=
  read_line (q := none) nofun line rest

end Utf8

namespace Text

theorem linesFrom_open {line : List Symbol} (h : .char '\n' ∉ line) (before : List Symbol) :
    linesFrom before line = linesFrom (line.reverse ++ before) [] := by
  induction line generalizing before with
  | nil => rfl
  | cons s line ih =>
    have hs : s ≠ .char '\n' := fun he => h (he ▸ List.mem_cons_self)
    rw [List.reverse_cons, List.append_assoc, List.singleton_append,
      ← ih fun hm => h (List.mem_cons_of_mem _ hm)]
    exact if_neg hs

/-- Bytes cut at line feeds are the lines of their text, and after them a blank one if the last was ended. -/
theorem lines_decode (bytes : List UInt8) :
    ∃ blank, (∀ line ∈ blank, line = []) ∧
      (bytes.splitOn 0x0A).map Utf8.decode = lines (Utf8.decode bytes) ++ blank := by
  have hfree : ∀ {line : List UInt8}, 0x0A ∉ line → ∀ b ∈ line, (b == 0x0A) = false := fun hline b hb =>
    beq_eq_false_iff_ne.mpr fun he => hline (he ▸ hb)
  induction hn : bytes.length using Nat.strongRecOn generalizing bytes with
  | _ n ih =>
    by_cases h : 0x0A ∈ bytes
    · obtain ⟨line, rest, rfl, hline⟩ := List.eq_append_cons_of_mem h
      have hlt : rest.length < n := by
        rw [← hn, List.length_append, List.length_cons]
        omega
      obtain ⟨blank, hblank, hrest⟩ := ih rest.length hlt rest rfl
      refine ⟨blank, hblank, ?_⟩
      have hsplit : (line ++ 0x0A :: rest).splitOn 0x0A = line :: rest.splitOn 0x0A :=
        List.splitOnP_append_cons_of_forall_mem (hfree hline) 0x0A rfl rest
      have hlines : lines (Utf8.decode line ++ .char '\n' :: Utf8.decode rest) =
          Utf8.decode line :: lines (Utf8.decode rest) :=
        linesFrom_ended (Utf8.newline_not_mem_decode hline) [] _
      rw [hsplit, List.map_cons, hrest, Utf8.decode_line, hlines, List.cons_append]
    · have hsplit : bytes.splitOn 0x0A = [bytes] := List.splitOnP_eq_singleton (hfree h)
      rw [hsplit, lines, linesFrom_open (Utf8.newline_not_mem_decode h), List.append_nil, linesFrom]
      by_cases hempty : Utf8.decode bytes = []
      · exact ⟨[[]], by simp, by simp [hempty]⟩
      · exact ⟨[], by simp, by simp [hempty]⟩

end Text

end ExpertRouting
