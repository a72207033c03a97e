/-
  ExpertRouting.Proofs.Capture.Minting — who takes a request id, and which.

  A call takes a request id when it brings a batch without one and nothing turns it away
  (`mints`): the sink is open, the layer is its own, tensors hold a batch, and the batch has
  no fault. It takes the id whether it then has rows or not, and keeps it when the stream
  fails; no other call touches the count (`call_minted`). So the count is that of the calls
  that took an id, and the n-th of them took the n-th id (`minted_before`), which is spelled
  in decimal and therefore never taken twice (`minted_counts_unattributed_calls`).
-/

import ExpertRouting.Proofs.Capture.TokenCount

namespace ExpertRouting

namespace Capture

/-- The call brings a batch without a request id, and the sink takes it. -/
def mints (c : Capture) (k : Call) : Bool :=
  match k.submission? with
  | some sub =>
    sub.requestId.isNone && c.enabled && c.attached && sub.layer == c.layer && (sub.batch.fault? c.shape).isNone
  | none => false

def Entry.mints (e : Entry) : Bool := e.before.mints e.call

/-- The routes that a call builds, whether or not the stream then takes them. -/
def Entry.built (e : Entry) : List Route := (e.before.recordsOf e.call).filterMap Record.route?

theorem Takes.mints {c : Capture} {k : Call} {sub : Submission} (h : c.Takes k sub) :
    c.mints k = sub.requestId.isNone := by
  simp [Capture.mints, h.submits, h.enabled, h.attached, h.layer, h.sound]

theorem mints_iff (c : Capture) (k : Call) : c.mints k = true ↔ ∃ sub, c.Takes k sub ∧ sub.requestId = none := by
  constructor
  · intro h
    unfold mints at h
    cases hs : k.submission? with
    | none => rw [hs] at h; cases h
    | some sub =>
      rw [hs] at h
      simp only [Bool.and_eq_true, beq_iff_eq, Option.isNone_iff_eq_none] at h
      obtain ⟨⟨⟨⟨hid, henabled⟩, hattached⟩, hlayer⟩, hsound⟩ := h
      exact ⟨sub, ⟨hs, henabled, hattached, hlayer, hsound⟩, hid⟩
  · rintro ⟨sub, ht, hid⟩
    rw [ht.mints, hid]
    rfl

/-! ## One call -/

/-- A submission that is taken claims its id before anything else can go wrong. -/
theorem Takes.minted {c : Capture} {k : Call} {sub : Submission} (h : c.Takes k sub) :
    (c.call k).2.minted = (c.claimed sub.requestId).minted := by
  rw [h.call_eq, writeRoutes_eq]
  dsimp only
  split
  · rfl
  · split <;> rfl

/-- A call adds one to the count if it takes an id, and nothing otherwise. -/
theorem call_minted (c : Capture) (k : Call) : (c.call k).2.minted = c.minted + if c.mints k then 1 else 0 := by
  by_cases ht : ∃ sub, c.Takes k sub
  · obtain ⟨sub, ht⟩ := ht
    rw [ht.minted, ht.mints]
    cases sub.requestId <;> rfl
  · have hm : c.mints k = false := by
      refine Bool.eq_false_iff.mpr fun hm => ?_
      obtain ⟨sub, h, -⟩ := (mints_iff c k).mp hm
      exact ht ⟨sub, h⟩
    rw [hm]
    have he := call_effect c k
    generalize (c.call k).1 = reply at he
    generalize (c.call k).2 = after at he ⊢
    cases he with
    | empty _ sub h hb => exact absurd ⟨sub, h⟩ ht
    | batch _ sub w h hb hw => exact absurd ⟨sub, h⟩ ht
    | batchLost _ sub w e h hb hw => exact absurd ⟨sub, h⟩ ht
    | _ => rfl

theorem Takes.built {c : Capture} {k : Call} {sub : Submission} (h : c.Takes k sub) :
    (Entry.mk c k).built = c.routesOf sub := by
  rw [Entry.built, h.recordsOf, Trace.filterMap_route]

theorem built_requestId {e : Entry} (h : e.mints = true) : ∀ r ∈ e.built, r.requestId = mintedId e.before.minted := by
  obtain ⟨sub, ht, hid⟩ := (mints_iff e.before e.call).mp h
  intro r hr
  rw [show e.built = e.before.routesOf sub from ht.built] at hr
  have hreq : r.requestId = (e.before.origin sub.requestId).1 := Batch.routes_requestId r hr
  rw [hreq, hid, origin_none]

/-- A call that took an id builds a route for each of its rows, and if it is written these are
    what it adds to the stream. -/
theorem built_written {e : Entry} (h : e.mints = true) :
    e.built.length = e.call.rows.length ∧
      (e.reply.accepted = true → e.after.bytes = e.before.bytes ++ Writer.lines (e.built.map .route)) := by
  obtain ⟨sub, ht, -⟩ := (mints_iff e.before e.call).mp h
  have hbuilt : e.built = e.before.routesOf sub := ht.built
  rw [hbuilt]
  refine ⟨ht.keeps.length_eq.symm, fun haccepted => ?_⟩
  rw [Entry.bytes_of_accepted haccepted, Entry.written, if_pos haccepted, ht.recordsOf]

/-! ## A run -/

theorem run_minted (c : Capture) (calls : List Call) :
    (c.run calls).2.minted = c.minted + (c.journal calls).countP Entry.mints := by
  induction calls generalizing c with
  | nil => rfl
  | cons k rest ih =>
    show ((c.call k).2.run rest).2.minted = _
    rw [ih, call_minted, journal, List.countP_cons, Nat.add_assoc]
    exact congrArg (c.minted + ·) (Nat.add_comm _ _)

/-- Before any entry of a run the count is that of the entries before it that took an id. -/
theorem minted_before {c : Capture} {calls : List Call} {i : Nat} {e : Entry} (h : (c.journal calls)[i]? = some e) :
    e.before.minted = c.minted + ((c.journal calls).take i).countP Entry.mints := by
  induction calls generalizing c i with
  | nil => cases h
  | cons k rest ih =>
    cases i with
    | zero => cases h; rfl
    | succ i =>
      rw [ih h, call_minted, journal, List.take_succ_cons, List.countP_cons, Nat.add_assoc]
      exact congrArg (c.minted + ·) (Nat.add_comm _ _)

theorem minted_lt {c : Capture} {calls : List Call} {i j : Nat} {e e' : Entry} (hij : i < j)
    (he : (c.journal calls)[i]? = some e) (he' : (c.journal calls)[j]? = some e') (hm : e.mints = true) :
    e.before.minted < e'.before.minted := by
  have hsucc : ((c.journal calls).take (i + 1)).countP Entry.mints =
      ((c.journal calls).take i).countP Entry.mints + 1 := by
    rw [List.take_add_one, he, List.countP_append]
    simp [hm]
  have hmono : ((c.journal calls).take (i + 1)).countP Entry.mints ≤ ((c.journal calls).take j).countP Entry.mints :=
    (List.take_sublist_take_left hij).countP_le
  rw [minted_before he, minted_before he']
  omega

/-- Two entries of a run never take the same id. -/
theorem minted_ne {c : Capture} {calls : List Call} {i j : Nat} {e e' : Entry} (hij : i ≠ j)
    (he : (c.journal calls)[i]? = some e) (he' : (c.journal calls)[j]? = some e') (hm : e.mints = true)
    (hm' : e'.mints = true) : mintedId e.before.minted ≠ mintedId e'.before.minted := by
  have hne : e.before.minted ≠ e'.before.minted := by
    rcases Nat.lt_or_gt_of_ne hij with h | h
    · exact Nat.ne_of_lt (minted_lt h he he' hm)
    · exact Nat.ne_of_gt (minted_lt h he' he hm')
  exact fun h => hne (mintedId_injective h)

/-- A run from a fresh sink, whatever its stream does. The number of ids minted is at any time
    the number of calls so far that brought a batch without an id, of the sink's layer, while
    it was open and with nothing to be faulted; batches without rows and batches lost in the
    stream are among them. Such a call builds a route for each of its rows, and adds their lines
    to the stream if it is written. Every route carries `r` and the number of such calls before
    it, so no two of them share an id, and the number never falls. -/
theorem minted_counts_unattributed_calls (stream : Stream) (layer : UInt64) (calls : List Call) :
    let entries := (onto stream layer).journal calls
    ((onto stream layer).run calls).2.minted = entries.countP Entry.mints ∧
    (∀ (i : Nat) (e : Entry), entries[i]? = some e → e.mints = true →
      (∀ r ∈ e.built, r.requestId = "r" ++ decimal ((entries.take i).countP Entry.mints)) ∧
        e.built.length = e.call.rows.length ∧
        (e.reply.accepted = true → e.after.bytes = e.before.bytes ++ Writer.lines (e.built.map .route))) ∧
    (∀ (i j : Nat) (e e' : Entry), i ≠ j → entries[i]? = some e → entries[j]? = some e' →
      e.mints = true → e'.mints = true →
      mintedId e.before.minted ≠ mintedId e'.before.minted ∧
        ∀ r ∈ e.built, ∀ r' ∈ e'.built, r.requestId ≠ r'.requestId) ∧
    ∀ before after, calls = before ++ after →
      ((onto stream layer).run before).2.minted ≤ ((onto stream layer).run calls).2.minted := by
  intro entries
  have hid : ∀ i e, entries[i]? = some e → e.before.minted = (entries.take i).countP Entry.mints := by
    intro i e he
    rw [minted_before he]
    exact Nat.zero_add _
  refine ⟨(run_minted _ _).trans (Nat.zero_add _), ?_, ?_, ?_⟩
  · intro i e he hm
    refine ⟨fun r hr => ?_, built_written hm⟩
    rw [built_requestId hm r hr, hid i e he]
    rfl
  · intro i j e e' hij he he' hm hm'
    have hids := minted_ne hij he he' hm hm'
    refine ⟨hids, fun r hr r' hr' => ?_⟩
    rw [built_requestId hm r hr, built_requestId hm' r' hr']
    exact hids
  · rintro before after rfl
    rw [run_append, run_minted ((onto stream layer).run before).2]
    exact Nat.le_add_right _ _

/-- A batch without rows, one that is lost, one of another layer, one with an id and one that is
    written: the last is the third to take an id, and adds the line of its one row. -/
theorem a_lost_batch_keeps_its_request_id :
    let row : Batch := ⟨[[2, 0]], [[Binary.zero false, Binary.zero false]]⟩
    let calls : List Call := [.batch 0 ⟨[], []⟩ none, .batch 0 row none, .batch 1 row none, .batch 0 row (some "a"),
      .batch 0 row none]
    let stream : Stream := { writes := [.short 3, .full] }
    let entries := (onto stream 0).journal calls
    ((onto stream 0).run calls).1 = [.status (.written 0), .status (.degraded (.stream .full)), .status .filtered,
        .status (.written 1), .status (.written 1)] ∧
      ((onto stream 0).run calls).2.minted = 3 ∧
      ∃ e, entries[4]? = some e ∧ e.mints = true ∧ (∀ r ∈ e.built, r.requestId = "r2") ∧ e.built.length = 1 ∧
        e.after.bytes = e.before.bytes ++ Writer.lines (e.built.map .route) := by
  intro row calls stream entries
  obtain ⟨hcount, hids, -⟩ := minted_counts_unattributed_calls stream 0 calls
  have hthree : entries.countP Entry.mints = 3 := by decide +kernel
  have htwo : (entries.take 4).countP Entry.mints = 2 := by decide +kernel
  have hlast : entries[4]?.map (fun e => (e.mints, e.reply.accepted, e.call.rows.length)) = some (true, true, 1) := by
    decide +kernel
  obtain ⟨e, he, hfacts⟩ := Option.map_eq_some_iff.mp hlast
  simp only [Prod.mk.injEq] at hfacts
  obtain ⟨hm, haccepted, hrows⟩ := hfacts
  obtain ⟨hid, hlength, hwritten⟩ := hids 4 e he hm
  refine ⟨by decide +kernel, hcount.trans hthree, e, he, hm, fun r hr => ?_, hlength.trans hrows, hwritten haccepted⟩
  rw [hid r hr, htwo]
  decide +kernel

end Capture

end ExpertRouting
