/-
  ExpertRouting.Proofs.Capture.Refusal — a call that is turned away leaves no trace.

  A sink that is closed, another layer, a header without a sound shape, a faulty batch and
  tensors that hold none are all noticed before a request id is taken and before the writer
  is reached: such a call leaves the sink as it was (`call_turnedAway`). So any of them may
  be taken out of a run, and the calls that remain see the same sink, and are seen to do the
  same to it and to the stream (`rejected_calls_are_invisible`). Calls lost in the stream
  are no such calls: they have taken an id, and part of their lines may be in the stream.
-/

import ExpertRouting.Proofs.Capture.Journal

namespace ExpertRouting

/-- The call was turned away before it took an id or reached the stream. -/
def Reply.turnedAway : Reply → Bool
  | .status s => s.refusal
  | _ => false

def without {α : Type} (deleted : Nat → Bool) : List α → List α
  | [] => []
  | x :: rest =>
    let later := without (fun i => deleted (i + 1)) rest
    if deleted 0 then later else x :: later

theorem map_without {α β : Type} (f : α → β) (deleted : Nat → Bool) (xs : List α) :
    (without deleted xs).map f = without deleted (xs.map f) := by
  induction xs generalizing deleted with
  | nil => rfl
  | cons x xs ih =>
    simp only [List.map_cons, without, ← ih]
    cases deleted 0 <;> rfl

namespace Capture

/-- What is seen of a call: the reply, what it does to the stream, and the sink's answers after it. -/
structure Seen where
  reply : Reply
  /-- The bytes that the stream gains. -/
  gained : List UInt8
  /-- The writes and flushes that are made. -/
  writes : Nat
  flushes : Nat
  minted : Nat
  enabled : Bool
  deriving DecidableEq

def Entry.seen (e : Entry) : Seen where
  reply := e.reply
  gained := e.after.bytes.drop e.before.bytes.length
  writes := e.after.writer.stream.writeCalls - e.before.writer.stream.writeCalls
  flushes := e.after.writer.stream.flushCalls - e.before.writer.stream.flushCalls
  minted := e.after.minted
  enabled := e.after.enabled

theorem call_turnedAway {c : Capture} {k : Call} (h : (c.call k).1.turnedAway = true) : (c.call k).2 = c := by
  have he := call_effect c k
  generalize (c.call k).1 = reply at he h
  generalize (c.call k).2 = after at he
  cases he with
  | refused _ s hs => rfl
  -- every other effect is written, lost in the stream, or no status at all
  | _ => cases h

/-- Without some calls that are turned away the sink is led through the same entries. -/
theorem journal_without {c : Capture} {calls : List Call} {deleted : Nat → Bool}
    (h : ∀ i, deleted i = true → ∀ e, (c.journal calls)[i]? = some e → e.reply.turnedAway = true) :
    c.journal (without deleted calls) = without deleted (c.journal calls) ∧
      (c.run (without deleted calls)).2 = (c.run calls).2 := by
  induction calls generalizing c deleted with
  | nil => exact ⟨rfl, rfl⟩
  | cons k rest ih =>
    have hrest : ∀ i, deleted (i + 1) = true → ∀ e, ((c.call k).2.journal rest)[i]? = some e →
        e.reply.turnedAway = true := fun i hi e he => h (i + 1) hi e he
    obtain ⟨hjournal, hrun⟩ := ih hrest
    by_cases hk : deleted 0 = true
    · have hsame : (c.call k).2 = c := call_turnedAway (h 0 hk ⟨c, k⟩ rfl)
      rw [hsame] at hjournal hrun
      simp only [without, journal, run, hk, if_true, hsame]
      exact ⟨hjournal, hrun⟩
    · simp only [without, journal, run, hk, Bool.false_eq_true, if_false, hjournal, hrun, and_self]

/-- Calls that were turned away, as many and as far apart as one likes, can be taken out of a
    run from any sink on any stream. Each call that remains is seen to do the same: its reply,
    the bytes and the calls that the stream gets from it, the number of ids minted and whether
    the sink is enabled. The sink in the end is the same, with its shape, its token counts and
    the lines it has written. -/
theorem rejected_calls_are_invisible {c : Capture} {calls : List Call} {deleted : Nat → Bool}
    (h : ∀ i, deleted i = true → ∀ reply, (c.run calls).1[i]? = some reply → reply.turnedAway = true) :
    (c.journal (without deleted calls)).map Entry.seen = without deleted ((c.journal calls).map Entry.seen) ∧
      (c.run (without deleted calls)).1 = without deleted (c.run calls).1 ∧
      (c.run (without deleted calls)).2 = (c.run calls).2 := by
  have hentries : ∀ i, deleted i = true → ∀ e, (c.journal calls)[i]? = some e → e.reply.turnedAway = true := by
    intro i hi e he
    refine h i hi e.reply ?_
    rw [run_replies, List.getElem?_map, he]
    rfl
  obtain ⟨hjournal, hrun⟩ := journal_without hentries
  refine ⟨?_, ?_, hrun⟩
  · rw [hjournal, map_without]
  · rw [run_replies, run_replies, hjournal, map_without]

/-- A batch of another layer, one without weights, tensors of rank one, a header of no shape and
    a batch after the close are taken out; a batch that fails in the stream is not. -/
theorem a_run_without_its_rejected_calls :
    let c := onto { writes := [.short 3, .all, .full] } 0
    let row : Batch := ⟨[[2, 0]], [[Binary.zero false, Binary.zero false]]⟩
    let calls : List Call := [.header { modelId := "m", shape := ⟨2, 4⟩, device := "cpu" }, .batch 1 row none,
      .batch 0 ⟨[[2, 0]], []⟩ (some "a"), .batch 0 row (some "a"), .tensors 0 ⟨[1], .u32 [2], rfl⟩ ⟨[1], .u32 [0], rfl⟩ none,
      .header { modelId := "m", shape := ⟨5, 4⟩, device := "cpu" }, .batch 0 row none, .close, .batch 0 row none]
    let deleted := fun i => [1, 2, 4, 5, 8].contains i
    (∀ i, deleted i = true → ∀ reply, (c.run calls).1[i]? = some reply → reply.turnedAway = true) ∧
      (c.journal (without deleted calls)).map Entry.seen = without deleted ((c.journal calls).map Entry.seen) ∧
      (c.run (without deleted calls)).1 = without deleted (c.run calls).1 ∧
      (c.run (without deleted calls)).2 = (c.run calls).2 := by
  intro c row calls deleted
  have hreplies : ∀ i ∈ [1, 2, 4, 5, 8], (c.run calls).1[i]?.all Reply.turnedAway = true := by decide +kernel
  have h : ∀ i, deleted i = true → ∀ reply, (c.run calls).1[i]? = some reply → reply.turnedAway = true := by
    intro i hi reply hr
    have hall := hreplies i (List.contains_iff_mem.mp hi)
    rw [hr] at hall
    exact hall
  exact ⟨h, rejected_calls_are_invisible h⟩

end Capture

end ExpertRouting
