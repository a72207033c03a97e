/-
  ExpertRouting.Proofs.Sink.Script — scripts that deliver the same.

  The replies of a stream are a script. A write that is interrupted is made again with the
  same buffer, so interruptions may stand anywhere in a script or nowhere
  (`offer_uninterrupted`). A reply that takes a buffer whole may be split into short ones
  that take it between them: `presented` tells which buffer each reply is given, and where
  the reply that is split is reached, the same bytes are accepted and the same replies are
  left (`offer_split`); where it is not, neither are those that stand in its place
  (`offer_front`).
-/

import Mathlib
import ExpertRouting.Proofs.Sink.Delivery

namespace ExpertRouting

@[simp] theorem Offer.after_calls (bytes : List UInt8) (o : Offer) : (o.after bytes).calls = o.calls + 1 := rfl
@[simp] theorem Offer.after_writes (bytes : List UInt8) (o : Offer) : (o.after bytes).writes = o.writes := rfl

/-! ## Interruptions -/

def uninterrupted (replies : List WriteReply) : List WriteReply := replies.filter (· ≠ .interrupted)

/-- Interruptions change nothing but the number of calls. -/
theorem offer_uninterrupted (replies : List WriteReply) (buffer : List UInt8) :
    (offer (uninterrupted replies) buffer).accepted = (offer replies buffer).accepted ∧
      (offer (uninterrupted replies) buffer).error = (offer replies buffer).error ∧
      (offer (uninterrupted replies) buffer).writes = uninterrupted (offer replies buffer).writes := by
  fun_induction offer replies buffer with
  | case1 replies => simp [offer]
  | case2 b buffer => simp [uninterrupted, offer]
  | case3 b buffer replies => simp [uninterrupted, offer]
  | case4 replies b buffer => simp [uninterrupted, offer]
  | case5 replies b buffer ih => simpa [uninterrupted] using ih
  | case6 replies b buffer => simp [uninterrupted, offer]
  | case7 n replies b buffer ih => simpa [uninterrupted, offer] using ih

/-! ## Replies that take a buffer between them -/

def WriteReply.Takes (buffer : List UInt8) : WriteReply → Prop
  | .all => True
  | .short n => buffer.length ≤ n
  | _ => False

/-- Short writes that take `n` bytes between them: none is empty, and the last one is needed. -/
structure Shares (n : Nat) (sizes : List Nat) : Prop where
  positive : 0 ∉ sizes
  needed : sizes.dropLast.sum < n
  enough : n ≤ sizes.sum

theorem offer_takes {e : WriteReply} {buffer : List UInt8} (hb : buffer ≠ []) (he : e.Takes buffer)
    (back : List WriteReply) :
    (offer (e :: back) buffer).accepted = buffer ∧ (offer (e :: back) buffer).error = none ∧
      (offer (e :: back) buffer).writes = back := by
  obtain ⟨b, buffer, rfl⟩ := List.exists_cons_of_ne_nil hb
  cases e with
  | all => exact ⟨rfl, rfl, rfl⟩
  | interrupted => cases he
  | full => cases he
  | short n =>
    cases n with
    | zero => exact absurd he (Nat.not_succ_le_zero _)
    | succ n =>
      have hn : buffer.length ≤ n := Nat.le_of_succ_le_succ he
      rw [offer, List.drop_eq_nil_of_le hn, List.take_of_length_le hn]
      simp [offer]

theorem offer_shares {sizes : List Nat} {buffer : List UInt8} (h : Shares buffer.length sizes) (back : List WriteReply) :
    (offer (sizes.map .short ++ back) buffer).accepted = buffer ∧
      (offer (sizes.map .short ++ back) buffer).error = none ∧
      (offer (sizes.map .short ++ back) buffer).writes = back := by
  induction sizes generalizing buffer with
  | nil => exact absurd h.needed (Nat.not_lt.mpr h.enough)
  | cons n sizes ih =>
    have hbuffer : buffer ≠ [] := by
      rintro rfl
      exact absurd h.needed (Nat.not_lt_zero _)
    cases sizes with
    | nil =>
      have hn : WriteReply.Takes buffer (.short n) := by simpa [WriteReply.Takes] using h.enough
      exact offer_takes hbuffer hn back
    | cons m sizes =>
      obtain ⟨b, buffer, rfl⟩ := List.exists_cons_of_ne_nil hbuffer
      obtain ⟨n, rfl⟩ : ∃ k, n = k + 1 :=
        Nat.exists_eq_succ_of_ne_zero fun hn => h.positive (hn ▸ List.mem_cons_self)
      have hneeded := h.needed
      have henough := h.enough
      rw [List.dropLast_cons_cons, List.sum_cons, List.length_cons] at hneeded
      rw [List.sum_cons, List.length_cons] at henough
      have hrest : Shares (buffer.drop n).length (m :: sizes) := by
        refine ⟨fun h0 => h.positive (List.mem_cons_of_mem _ h0), ?_, ?_⟩ <;> rw [List.length_drop] <;> omega
      obtain ⟨haccepted, herror, hwrites⟩ := ih hrest
      rw [List.map_cons, List.cons_append, offer, Offer.after_accepted, Offer.after_error, Offer.after_writes, haccepted]
      exact ⟨(cons_take_append_drop b buffer n).symm, herror, hwrites⟩

/-! ## Which buffer a reply is given -/

/-- The buffers that a script is given one after the other, each for one reply. -/
def presented : List WriteReply → List UInt8 → List (List UInt8)
  | _, [] => []
  | .interrupted :: replies, b :: buffer => (b :: buffer) :: presented replies (b :: buffer)
  | .short (n + 1) :: replies, b :: buffer => (b :: buffer) :: presented replies (buffer.drop n)
  | _, b :: buffer => [b :: buffer]

theorem presented_length (replies : List WriteReply) (buffer : List UInt8) :
    (presented replies buffer).length = (offer replies buffer).calls := by
  fun_induction offer replies buffer with
  | case1 replies => simp [presented]
  | case2 b buffer => rfl
  | case3 b buffer replies => rfl
  | case4 replies b buffer => rfl
  | case5 replies b buffer ih => simpa [presented] using ih
  | case6 replies b buffer => rfl
  | case7 n replies b buffer ih => simpa [presented] using ih

/-- A reply that takes the buffer it is given may be split. -/
theorem offer_split {front back : List WriteReply} {e : WriteReply} {sizes : List Nat} {buffer given : List UInt8}
    (hgiven : (presented (front ++ e :: back) buffer)[front.length]? = some given) (he : e.Takes given)
    (hsizes : Shares given.length sizes) :
    (offer (front ++ sizes.map .short ++ back) buffer).accepted = (offer (front ++ e :: back) buffer).accepted ∧
      (offer (front ++ sizes.map .short ++ back) buffer).error = (offer (front ++ e :: back) buffer).error ∧
      (offer (front ++ sizes.map .short ++ back) buffer).writes = back ∧
      (offer (front ++ e :: back) buffer).writes = back := by
  induction front generalizing buffer with
  | nil =>
    have hself : given = buffer ∧ buffer ≠ [] := by
      cases buffer with
      | nil => simp [presented] at hgiven
      | cons b buffer =>
        refine ⟨?_, List.cons_ne_nil _ _⟩
        unfold presented at hgiven
        split at hgiven <;> simp_all
    obtain ⟨rfl, hne⟩ := hself
    obtain ⟨ha, herr, hw⟩ := offer_takes hne he back
    obtain ⟨ha', herr', hw'⟩ := offer_shares hsizes back
    rw [List.nil_append, List.nil_append]
    exact ⟨ha'.trans ha.symm, herr'.trans herr.symm, hw', hw⟩
  | cons r front ih =>
    cases buffer with
    | nil => simp [presented] at hgiven
    | cons b buffer =>
      simp only [List.cons_append]
      -- only replies that leave something of the buffer to the next one lead to the split reply
      cases r with
      | all => simp [presented] at hgiven
      | full => simp [presented] at hgiven
      | interrupted =>
        have hrest : (presented (front ++ e :: back) (b :: buffer))[front.length]? = some given := by
          simpa [presented] using hgiven
        obtain ⟨ha, herr, hw, hw'⟩ := ih hrest
        simp only [offer, Offer.after_accepted, Offer.after_error, Offer.after_writes, ha, herr]
        exact ⟨trivial, trivial, hw, hw'⟩
      | short n =>
        cases n with
        | zero => simp [presented] at hgiven
        | succ n =>
          have hrest : (presented (front ++ e :: back) (buffer.drop n))[front.length]? = some given := by
            simpa [presented] using hgiven
          obtain ⟨ha, herr, hw, hw'⟩ := ih hrest
          simp only [offer, Offer.after_accepted, Offer.after_error, Offer.after_writes, ha, herr]
          exact ⟨trivial, trivial, hw, hw'⟩

/-- Replies that are not reached may be others. -/
theorem offer_front {front xs : List WriteReply} {buffer : List UInt8}
    (h : (presented (front ++ xs) buffer).length ≤ front.length) (ys : List WriteReply) :
    offer (front ++ ys) buffer =
      { offer (front ++ xs) buffer with writes := front.drop (presented (front ++ xs) buffer).length ++ ys } := by
  induction front generalizing buffer with
  | nil =>
    cases buffer with
    | nil => simp [offer, presented]
    | cons b buffer =>
      have hcalls := Nat.le_zero.mp h
      unfold presented at hcalls
      split at hcalls <;> simp_all
  | cons r front ih =>
    cases buffer with
    | nil => simp [offer, presented]
    | cons b buffer =>
      cases r with
      | all => simp [offer, presented]
      | full => simp [offer, presented]
      | interrupted =>
        have hlength : (presented (front ++ xs) (b :: buffer)).length ≤ front.length := by simpa [presented] using h
        simp [offer, presented, ih hlength, Offer.after]
      | short n =>
        cases n with
        | zero => simp [offer, presented]
        | succ n =>
          have hlength : (presented (front ++ xs) (buffer.drop n)).length ≤ front.length := by
            simpa [presented] using h
          simp [offer, presented, ih hlength, Offer.after]

end ExpertRouting
