/-
  ExpertRouting.Proofs.Json.Members — the members of an object, in whatever order.

  A walk over members that fill fields is described by the fields that have been met: a
  member fills the field it names, once, and one that names none is passed over (`Fills`).
  So members fill the same fields in any order, under whichever of its names each field
  stands, and whatever stands between them (`Fills.run`). A walk that refuses a field that
  has been met (`Refuses`) only ends well where no field is named twice (`Refuses.nodup`).

  What a value may be to be read and forgotten is a matter of its depth and of its numbers
  (`fault_none`).
-/

import ExpertRouting.Proofs.Except
import ExpertRouting.Proofs.Json.Field

namespace ExpertRouting.Json

/-! ## Values of every kind -/

mutual

def depth : Json → Nat
  | .array items => itemsDepth items + 1
  | .object members => membersDepth members + 1
  | _ => 0

def itemsDepth : List Json → Nat
  | [] => 0
  | v :: rest => max v.depth (itemsDepth rest)

def membersDepth : List (String × Json) → Nat
  | [] => 0
  | (_, v) :: rest => max v.depth (membersDepth rest)

end

mutual

def InRange : Json → Prop
  | .number n => (value? n).isSome = true
  | .array items => ItemsInRange items
  | .object members => MembersInRange members
  | _ => True

def ItemsInRange : List Json → Prop
  | [] => True
  | v :: rest => v.InRange ∧ ItemsInRange rest

def MembersInRange : List (String × Json) → Prop
  | [] => True
  | (_, v) :: rest => v.InRange ∧ MembersInRange rest

end

mutual

/-- A value of no more containers than are allowed and with numbers in range is sound. -/
theorem fault_none : ∀ {v : Json} {allowed : Nat}, v.depth ≤ allowed → v.InRange → v.reading.fault? allowed = none
  | .null, _, _, _ => rfl
  | .bool _, _, _, _ => rfl
  | .number _, _, _, hv => if_pos hv
  | .string _, _, _, _ => rfl
  | .array items, allowed, hdepth, hv => by
    rw [depth] at hdepth
    have hitems : itemsFault? (allowed - 1) (itemReadings items) = none := itemsFault_none (by omega) hv
    rw [reading, Reading.fault?, if_neg (by omega), hitems]
    rfl
  | .object members, allowed, hdepth, hv => by
    rw [depth] at hdepth
    have hmembers : membersFault? (allowed - 1) (memberReadings members) = none := membersFault_none (by omega) hv
    rw [reading, Reading.fault?, if_neg (by omega), hmembers]
    rfl

theorem itemsFault_none : ∀ {items : List Json} {allowed : Nat}, itemsDepth items ≤ allowed → ItemsInRange items →
    itemsFault? allowed (itemReadings items) = none
  | [], _, _, _ => rfl
  | v :: items, allowed, hdepth, hv => by
    rw [itemsDepth] at hdepth
    rw [itemReadings, itemsFault?, fault_none (by omega) hv.1, itemsFault_none (by omega) hv.2]
    rfl

theorem membersFault_none : ∀ {members : List (String × Json)} {allowed : Nat}, membersDepth members ≤ allowed →
    MembersInRange members → membersFault? allowed (memberReadings members) = none
  | [], _, _, _ => rfl
  | (key, v) :: members, allowed, hdepth, hv => by
    rw [membersDepth] at hdepth
    rw [memberReadings, membersFault?, fault_none (by omega) hv.1, membersFault_none (by omega) hv.2]
    rfl

end

mutual

theorem skipFault_reading : ∀ v : Json, v.reading.skipFault? = none
  | .null => rfl
  | .bool _ => rfl
  | .number _ => rfl
  | .string _ => rfl
  | .array items => by
    rw [reading, Reading.skipFault?, skipItems_readings items]
    rfl
  | .object members => by
    rw [reading, Reading.skipFault?, skipMembers_readings members]
    rfl

theorem skipItems_readings : ∀ items : List Json, skipItems? (itemReadings items) = none
  | [] => rfl
  | v :: items => by
    rw [itemReadings, skipItems?, skipFault_reading v, skipItems_readings items]
    rfl

theorem skipMembers_readings : ∀ members : List (String × Json), skipMembers? (memberReadings members) = none
  | [] => rfl
  | (_, v) :: members => by
    rw [memberReadings, skipMembers?, skipFault_reading v, skipMembers_readings members]
    rfl

end

/-! ## Slots -/

theorem refuse_ok {α : Type} {fault : Option Fault} {a b : α} (h : refuse fault (.ok a) = .ok b) : b = a := by
  cases fault with
  | none =>
    cases h
    rfl
  | some fault => cases h

/-- A member that is taken into a slot finds it empty. -/
theorem fill_step {α σ : Type} {before : Slot α} {decode : Decoder α} {r : Reading} {put : Slot α → σ} {s : σ}
    (h : (do return put (← fill before decode r)) = .ok s) :
    before = none ∧ ∃ a, decode r = .ok a ∧ s = put (some a) := by
  obtain ⟨after, hfill, hs⟩ := bind_ok h
  cases hs
  cases before with
  | some a => cases hfill
  | none =>
    cases hdecode : decode r with
    | error fault =>
      rw [fill, hdecode] at hfill
      cases hfill
    | ok a =>
      rw [fill, hdecode] at hfill
      cases hfill
      exact ⟨rfl, a, rfl, rfl⟩

def slot {α : Type} (met : List String) (field : String) (a : α) : Slot α := if field ∈ met then some a else none

theorem slot_met {α : Type} {met : List String} {field : String} (h : field ∈ met) (a : α) :
    slot met field a = some a := if_pos h

theorem slot_other {α : Type} {field other : String} (h : field ≠ other) (met : List String) (a : α) :
    slot (other :: met) field a = slot met field a := by
  simp [slot, h]

theorem fill_slot {α : Type} {met : List String} {field : String} (h : field ∉ met) {a : α} {decode : Decoder α}
    {r : Reading} (hr : decode r = .ok a) : fill (slot met field a) decode r = .ok (some a) := by
  rw [slot, if_neg h, fill, hr]
  rfl

/-! ## Walks -/

theorem memberReadings_eq_map (members : List (String × Json)) :
    memberReadings members = members.map fun m => (some m.1, m.2.reading) := by
  induction members with
  | nil => rfl
  | cons m members ih => rw [memberReadings, ih, List.map_cons]

section Walks

variable {σ : Type} {step : σ → String → Reading → Except Fault σ} {field? : String → Option String}

theorem foldMembers_append {s s' : σ} {before after : List (Key × Reading)} {stop : Option Break}
    (h : foldMembers step s none before = .ok s') :
    foldMembers step s stop (before ++ after) = foldMembers step s' stop after := by
  induction before generalizing s with
  | nil =>
    cases h
    rfl
  | cons m before ih =>
    obtain ⟨key, r⟩ := m
    cases key with
    | none => cases h
    | some key =>
      rw [foldMembers] at h
      rw [List.cons_append, foldMembers]
      cases hstep : step s key r with
      | error fault =>
        rw [hstep] at h
        cases h
      | ok next =>
        rw [hstep] at h
        exact ih h

def named (field? : String → Option String) (members : List (Key × Reading)) : List String :=
  members.filterMap fun m => m.1.bind field?

/-- A step fills the field that a member names, and leaves all others as they are; `seen` is the
    state in which just some fields have been met. -/
structure Fills (step : σ → String → Reading → Except Fault σ) (field? : String → Option String)
    (fields : List (String × Json)) (seen : List String → σ) : Prop where
  known : ∀ {met : List String} {key field : String} {v : Json}, field? key = some field → (field, v) ∈ fields →
    field ∉ met → step (seen met) key v.reading = .ok (seen (field :: met))
  unknown : ∀ {s : σ} {key : String} {r : Reading}, field? key = none → step s key r = skip s r

/-- Members of these fields, each named once, and any others fill just these fields. -/
theorem Fills.run {fields : List (String × Json)} {seen : List String → σ} (h : Fills step field? fields seen)
    {members : List (String × Json)} (met : List String)
    (hknown : ∀ m ∈ members, ∀ field, field? m.1 = some field → (field, m.2) ∈ fields)
    (hdistinct : (members.filterMap fun m => field? m.1).Nodup)
    (hfresh : ∀ field ∈ members.filterMap fun m => field? m.1, field ∉ met) :
    foldMembers step (seen met) none (memberReadings members) =
      .ok (seen ((members.filterMap fun m => field? m.1).reverse ++ met)) := by
  induction members generalizing met with
  | nil => rfl
  | cons m members ih =>
    obtain ⟨key, v⟩ := m
    obtain ⟨hm, hmembers⟩ := List.forall_mem_cons.mp hknown
    rw [memberReadings, foldMembers]
    cases hfield : field? key with
    | none =>
      have hstep : step (seen met) key v.reading = .ok (seen met) := by
        rw [h.unknown hfield, skip, skipFault_reading]
        rfl
      simp only [List.filterMap_cons, hfield] at hdistinct hfresh ⊢
      rw [hstep]
      exact ih _ hmembers hdistinct hfresh
    | some field =>
      simp only [List.filterMap_cons, hfield] at hdistinct hfresh ⊢
      obtain ⟨hnew, hrest⟩ := List.nodup_cons.mp hdistinct
      have hmet := hfresh field List.mem_cons_self
      rw [h.known hfield (hm field hfield) hmet, List.reverse_cons, List.append_assoc, List.singleton_append]
      refine ih _ hmembers hrest fun field' hmem hin => ?_
      rcases List.mem_cons.mp hin with rfl | hin
      · exact hnew hmem
      · exact hfresh field' (List.mem_cons_of_mem _ hmem) hin

/-- A step refuses a member that names a field it has met. -/
structure Refuses (step : σ → String → Reading → Except Fault σ) (field? : String → Option String)
    (met : σ → String → Bool) : Prop where
  fresh : ∀ {s s' : σ} {key field : String} {r : Reading}, step s key r = .ok s' → field? key = some field →
    met s field = false ∧ met s' field = true
  keeps : ∀ {s s' : σ} {key field : String} {r : Reading}, step s key r = .ok s' → met s field = true →
    met s' field = true

/-- A step that succeeds passes over its member, or fills the one field that it names. -/
theorem Refuses.of_steps {met : σ → String → Bool}
    (h : ∀ {s s' : σ} {key : String} {r : Reading}, step s key r = .ok s' →
      (field? key = none ∧ met s' = met s) ∨
        ∃ field, field? key = some field ∧ met s field = false ∧ ∀ f, met s' f = (f == field || met s f)) :
    Refuses step field? met where
  fresh := by
    intro s s' key field r hstep hfield
    rcases h hstep with ⟨hnone, -⟩ | ⟨named, hnamed, hunmet, hmet⟩
    · rw [hnone] at hfield
      cases hfield
    · obtain rfl : named = field := Option.some.inj (hnamed.symm.trans hfield)
      exact ⟨hunmet, by rw [hmet, beq_self_eq_true, Bool.true_or]⟩
  keeps := by
    intro s s' key field r hstep hfield
    rcases h hstep with ⟨-, hsame⟩ | ⟨named, -, -, hmet⟩
    · rw [hsame, hfield]
    · rw [hmet, hfield, Bool.or_true]

/-- Where a walk ends well, no field is named twice, and none that had been met. -/
theorem Refuses.nodup {met : σ → String → Bool} (h : Refuses step field? met) {members : List (Key × Reading)}
    {s s' : σ} {stop : Option Break} (hwalk : foldMembers step s stop members = .ok s') :
    (named field? members).Nodup ∧ ∀ field ∈ named field? members, met s field = false := by
  induction members generalizing s with
  | nil => exact ⟨List.nodup_nil, fun field hmem => absurd hmem List.not_mem_nil⟩
  | cons m members ih =>
    obtain ⟨key, r⟩ := m
    cases key with
    | none => cases hwalk
    | some key =>
      rw [foldMembers] at hwalk
      cases hstep : step s key r with
      | error fault =>
        rw [hstep] at hwalk
        cases hwalk
      | ok next =>
        rw [hstep] at hwalk
        obtain ⟨hdistinct, hunmet⟩ := ih hwalk
        have hbefore : ∀ field ∈ named field? members, met s field = false := by
          intro field hmem
          by_contra hmet
          have hkept := h.keeps hstep (Bool.eq_true_of_not_eq_false hmet)
          rw [hunmet field hmem] at hkept
          cases hkept
        unfold named
        rw [List.filterMap_cons]
        cases hfield : field? key with
        | none =>
          rw [show (some key).bind field? = none from hfield]
          exact ⟨hdistinct, hbefore⟩
        | some field =>
          rw [show (some key).bind field? = some field from hfield]
          obtain ⟨hnew, hnow⟩ := h.fresh hstep hfield
          refine ⟨List.nodup_cons.mpr ⟨fun hmem => ?_, hdistinct⟩, List.forall_mem_cons.mpr ⟨hnew, hbefore⟩⟩
          rw [hunmet field hmem] at hnow
          cases hnow

end Walks

end ExpertRouting.Json
