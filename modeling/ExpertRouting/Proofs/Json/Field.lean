/-
  ExpertRouting.Proofs.Json.Field — decoders undo what was written.

  A word, a text and a list of what a decoder undoes are decoded to themselves. A real is
  decoded as the real its text is read as (`reread?`), and as itself when its text reads back
  (`ReadsBack`); one that is not finite is written as null, which is sound JSON and no number.
-/

import ExpertRouting.Proofs.Json.Reading

namespace ExpertRouting.Json

/-! ## Words and lists -/

theorem value_ofNat {n : Nat} (h : n < UInt64.size) : value? (Numeral.ofNat n) = some (.natural n) := by
  simp [value?, isInteger, Numeral.ofNat, value_digits, h]

theorem naturalBelow_ofNat {bound n : Nat} (h : n < bound) (hb : bound ≤ UInt64.size) :
    naturalBelow bound (ofNat n).reading = .ok n := by
  have hv := value_ofNat (Nat.lt_of_lt_of_le h hb)
  simp [naturalBelow, anyNumber, ofNat, reading, hv, h, bind, Except.bind]

theorem word64_ofNat (n : UInt64) : word64 (ofNat n.toNat).reading = .ok n := by
  rw [word64, naturalBelow_ofNat n.toNat_lt (Nat.le_refl _)]
  simp [Except.map]

theorem word32_ofNat (n : UInt32) : word32 (ofNat n.toNat).reading = .ok n := by
  rw [word32, naturalBelow_ofNat n.toNat_lt (by decide)]
  simp [Except.map]

theorem mapM_reading {α β : Type} (decode : Decoder β) (write : α → Json) (as : List α) :
    (itemReadings (as.map write)).mapM decode = as.mapM fun a => decode (write a).reading := by
  rw [itemReadings_eq_map, List.mapM_map, List.mapM_map]
  rfl

theorem listOf_array {α β : Type} (decode : Decoder β) (write : α → Json) (as : List α) :
    listOf decode (Json.array (as.map write)).reading = as.mapM fun a => decode (write a).reading := by
  show (do
    let values ← (itemReadings (as.map write)).mapM decode
    atEnd none values) = _
  rw [mapM_reading]
  cases as.mapM fun a => decode (write a).reading <;> rfl

theorem mapM_ok {α β : Type} {f : α → Except Fault β} {g : α → β} {as : List α} (h : ∀ a ∈ as, f a = .ok (g a)) :
    as.mapM f = .ok (as.map g) := by
  induction as with
  | nil => rfl
  | cons a as ih =>
    rw [List.mapM_cons, h a List.mem_cons_self, ih fun b hb => h b (List.mem_cons_of_mem _ hb)]
    rfl

theorem mapM_isOk {α β : Type} {f : α → Except Fault β} {as : List α} :
    (∃ bs, as.mapM f = .ok bs) ↔ ∀ a ∈ as, ∃ b, f a = .ok b := by
  induction as with
  | nil => exact ⟨fun _ a ha => absurd ha List.not_mem_nil, fun _ => ⟨[], rfl⟩⟩
  | cons a as ih =>
    rw [List.mapM_cons, List.forall_mem_cons, ← ih]
    cases f a with
    | error e => simp [bind, Except.bind]
    | ok b => cases as.mapM f <;> simp [bind, Except.bind, pure, Except.pure]

theorem mapM_toOption {α β : Type} (f : α → Except Fault β) (as : List α) :
    (as.mapM f).toOption = as.mapM fun a => (f a).toOption := by
  induction as with
  | nil => rfl
  | cons a as ih =>
    rw [List.mapM_cons, List.mapM_cons, ← ih]
    cases f a with
    | error fault => rfl
    | ok b => cases as.mapM f <;> rfl

theorem mapM_congr {α β : Type} {f g : α → Option β} {as : List α} (h : ∀ a ∈ as, f a = g a) :
    as.mapM f = as.mapM g := by
  induction as with
  | nil => rfl
  | cons a as ih =>
    rw [List.mapM_cons, List.mapM_cons, h a List.mem_cons_self, ih fun b hb => h b (List.mem_cons_of_mem _ hb)]

/-- Each of a list is what it was when the whole list is. -/
theorem mapM_eq_self_iff {α : Type} {f : α → Option α} {as : List α} :
    as.mapM f = some as ↔ ∀ a ∈ as, f a = some a := by
  induction as with
  | nil => exact ⟨fun _ a ha => absurd ha List.not_mem_nil, fun _ => rfl⟩
  | cons a as ih =>
    rw [List.mapM_cons, List.forall_mem_cons, ← ih]
    cases f a with
    | none => simp
    | some b => cases as.mapM f <;> simp [eq_comm]

theorem mapM_isSome_iff {α β : Type} {f : α → Option β} {as : List α} :
    (as.mapM f).isSome = true ↔ ∀ a ∈ as, (f a).isSome = true := by
  induction as with
  | nil => exact ⟨fun _ a ha => absurd ha List.not_mem_nil, fun _ => rfl⟩
  | cons a as ih =>
    rw [List.mapM_cons, List.forall_mem_cons, ← ih]
    cases f a with
    | none => simp
    | some b => cases as.mapM f <;> simp

theorem mapM_length {α β : Type} {f : α → Option β} {as : List α} {bs : List β} (h : as.mapM f = some bs) :
    bs.length = as.length := by
  induction as generalizing bs with
  | nil =>
    cases h
    rfl
  | cons a as ih =>
    simp only [List.mapM_cons, Option.bind_eq_bind, Option.bind_eq_some_iff] at h
    obtain ⟨b, -, rest, hrest, hbs⟩ := h
    cases hbs
    exact congrArg Nat.succ (ih hrest)

theorem listOf_words {α : Type} {decode : Decoder α} {write : α → Json} (h : ∀ a, decode (write a).reading = .ok a)
    (as : List α) : listOf decode (Json.array (as.map write)).reading = .ok as := by
  rw [listOf_array, mapM_ok (g := id) fun a _ => h a, List.map_id]

/-! ## Faults -/

theorem fault_ofNat {n : Nat} (h : n < UInt64.size) (depth : Nat) : (ofNat n).reading.fault? depth = none := by
  simp [ofNat, reading, Reading.fault?, value_ofNat h]

theorem fault_array {items : List Json} {depth : Nat} (h : ∀ v ∈ items, v.reading.fault? depth = none) :
    (Json.array items).reading.fault? (depth + 1) = none := by
  have hitems : itemsFault? depth (itemReadings items) = none := by
    induction items with
    | nil => rfl
    | cons v items ih =>
      rw [itemReadings, itemsFault?, h v List.mem_cons_self, Option.none_or]
      exact ih fun w hw => h w (List.mem_cons_of_mem _ hw)
  simp [reading, Reading.fault?, hitems, wantedFault?]

/-! ## Reals -/

theorem ofReal_sound (x : Real64) : (ofReal x).Sound := by
  unfold ofReal
  cases h : layout.ofBinary? x with
  | some n => exact Layout.ofBinary_sound (by decide) h
  | none => trivial

/-- A finite real whose text is read back as the same real. -/
def ReadsBack (x : Real64) : Prop :=
  x.isFinite = true ∧ decodeText real ((ofReal x).compact.map .char) = .ok x

instance (x : Real64) : Decidable (ReadsBack x) := inferInstanceAs (Decidable (_ ∧ _))

theorem ReadsBack.real {x : Real64} (h : ReadsBack x) : Json.real (ofReal x).reading = .ok x := by
  rw [← decodeText_compact Json.real (ofReal_sound x)]
  exact h.2

def reread? (x : Real64) : Option Real64 := (decodeText real ((ofReal x).compact.map .char)).toOption

/-- A real as it comes back from its text; one that is not read stays. -/
def reread (x : Real64) : Real64 := (reread? x).getD x

theorem reread?_eq (x : Real64) : reread? x = (Json.real (ofReal x).reading).toOption := by
  rw [reread?, decodeText_compact Json.real (ofReal_sound x)]

/-- What is read again is finite, since a real that is not is written as null. -/
theorem isFinite_of_reread {x y : Real64} (h : reread? x = some y) : x.isFinite = true := by
  rw [← Layout.ofBinary_isSome layout x]
  rw [reread?_eq] at h
  unfold ofReal at h
  cases hn : layout.ofBinary? x with
  | some n => rfl
  | none =>
    rw [hn] at h
    cases h

theorem readsBack_iff {x : Real64} : ReadsBack x ↔ reread? x = some x := by
  constructor
  · intro h
    rw [reread?, h.2]
    rfl
  · intro h
    refine ⟨isFinite_of_reread h, ?_⟩
    unfold reread? at h
    cases hd : decodeText Json.real ((ofReal x).compact.map .char) with
    | error fault =>
      rw [hd] at h
      cases h
    | ok y =>
      rw [hd] at h
      cases h
      rfl

end ExpertRouting.Json
