/-
  ExpertRouting.Proofs.Capture.Interleaving — clients of one sink do not disturb each other.

  Several clients record on one sink, whole call by whole call, in any order. On a stream
  that never fails a recording call is written exactly when its submission is taken
  (`recording_cases`), and that depends on the layer, the shape and whether the sink is open,
  which no such call changes. What a client shares with the others is the count of minted
  ids, which it never sees, and the token counts, of which it only touches those of the
  requests it names. So two sinks that agree on the requests of one client (`Alike`) answer
  it alike and go on agreeing, whoever else calls one of them, and the client records what
  it records alone (`interleaving_keeps_each_client`).
-/

import ExpertRouting.Proofs.Capture.Recording

namespace ExpertRouting

def Call.request? : Call → Option String
  | .finish requestId => some requestId
  | k => k.supplied?

def Call.Names (S : Set String) (k : Call) : Prop := ∃ id ∈ S, k.request? = some id

instance (S : Set String) [DecidablePred (· ∈ S)] (k : Call) : Decidable (k.Names S) :=
  decidable_of_iff (k.request?.any (· ∈ S) = true) (by simp [Call.Names, Option.any_eq_true, and_comm])

theorem Call.request_of_submission {k : Call} {sub : Submission} (h : k.submission? = some sub) :
    k.request? = sub.requestId := by
  cases k with
  | finish requestId => cases h
  | _ => exact Call.supplied_of_submission h

namespace Capture

/-! ## Sinks that agree on some requests -/

/-- Two sinks that cannot be told apart by calls on the requests of a set. -/
structure Alike (S : Set String) (c d : Capture) : Prop where
  layer : c.layer = d.layer
  enabled : c.enabled = d.enabled
  attached : c.attached = d.attached
  shape : c.shape = d.shape
  offsets : ∀ id ∈ S, c.offsets id = d.offsets id
  stream : c.writer.stream.NeverFails
  stream' : d.writer.stream.NeverFails

namespace Alike

variable {S : Set String} {c d : Capture}

theorem takes (h : Alike S c d) {k : Call} {sub : Submission} (ht : c.Takes k sub) : d.Takes k sub :=
  ⟨ht.submits, h.enabled ▸ ht.enabled, h.attached ▸ ht.attached, h.layer ▸ ht.layer, h.shape ▸ ht.sound⟩

theorem symm (h : Alike S c d) : Alike S d c :=
  ⟨h.layer.symm, h.enabled.symm, h.attached.symm, h.shape.symm, fun id hid => (h.offsets id hid).symm, h.stream',
    h.stream⟩

theorem recordBatch_reply (h : Alike S c d) (layer : UInt64) (b : Batch) (requestId : Option String) :
    (c.recordBatch layer b requestId).1 = (d.recordBatch layer b requestId).1 := by
  by_cases ht : c.Takes (.batch layer b requestId) ⟨layer, b, requestId⟩
  · obtain ⟨w, -, hc⟩ := ht.written h.stream
    obtain ⟨w', -, hd⟩ := (h.takes ht).written h.stream'
    have hstatus := (congrArg Prod.fst hc).trans (congrArg Prod.fst hd).symm
    simpa only [call, Reply.status.injEq] using hstatus
  · -- what turns a submission away is read off what the sinks agree on
    unfold recordBatch
    rw [h.enabled, h.layer, h.attached, h.shape]
    by_cases he : d.enabled = true
    case neg => simp [he]
    by_cases hl : layer = d.layer
    case neg => simp [he, hl]
    by_cases ha : d.attached = true
    case neg => simp [he, hl, ha]
    cases hf : b.fault? d.shape with
    | some e => simp [he, hl, ha]
    | none =>
      refine absurd ⟨rfl, ?_, ?_, ?_, ?_⟩ ht
      · rw [h.enabled]; exact he
      · rw [h.attached]; exact ha
      · rw [h.layer]; exact hl
      · rw [h.shape]; exact hf

theorem reply (h : Alike S c d) {k : Call} (hk : k.records = true) : (c.call k).1 = (d.call k).1 := by
  cases k with
  | header s => cases hk
  | close => cases hk
  | finish id => rfl
  | batch layer b requestId => exact congrArg Reply.status (h.recordBatch_reply layer b requestId)
  | tensors layer ids weights requestId =>
    show Reply.status (c.recordTensors layer ids weights requestId).1 =
      .status (d.recordTensors layer ids weights requestId).1
    unfold recordTensors
    rw [h.enabled, h.layer]
    cases Tensor.batch ids weights with
    | error e => split <;> [rfl; (split <;> rfl)]
    | ok b => simp only [apply_ite Prod.fst, h.recordBatch_reply]

/-- A call on a request of the set: both sinks answer it alike, write the same and stay alike. -/
theorem own_call (h : Alike S c d) {k : Call} (hk : k.records = true) (hS : k.Names S) :
    (Entry.mk c k).routes = (Entry.mk d k).routes ∧ (∀ r ∈ (Entry.mk c k).routes, r.requestId ∈ S) ∧
      Alike S (c.call k).2 (d.call k).2 := by
  obtain ⟨id, hid, hrequest⟩ := hS
  rcases recording_cases h.stream hk with ⟨sub, w, ht, hw, hcall⟩ | ⟨hnot, hno, hafter⟩
  · have ht' := h.takes ht
    obtain ⟨w', hw', hcall'⟩ := ht'.written h.stream'
    have hsub : sub.requestId = some id := (Call.request_of_submission ht.submits).symm.trans hrequest
    have hroutes : c.routesOf sub = d.routesOf sub := by
      simp only [routesOf, hsub, origin_some, h.layer, h.offsets id hid]
    rw [ht.routes h.stream, ht'.routes h.stream', hcall, hcall']
    refine ⟨hroutes, fun r hr => ?_, h.layer, h.enabled, h.attached, h.shape, fun other hother => ?_, hw, hw'⟩
    · have hreq : r.requestId = (c.origin sub.requestId).1 := Batch.routes_requestId r hr
      rw [hreq, hsub]
      exact hid
    · simp only [counted, hsub, Option.isSome_some, if_true, origin_some, setOffset, h.offsets id hid,
        h.offsets other hother]
  · rcases recording_cases h.stream' hk with ⟨sub, w, ht, -⟩ | ⟨-, hno', hafter'⟩
    · exact absurd (h.symm.takes ht) (hnot sub)
    rw [routes_of_not_accepted hno, routes_of_not_accepted hno']
    refine ⟨rfl, fun r hr => absurd hr List.not_mem_nil, ?_⟩
    by_cases hfinish : ∃ other, k = .finish other
    · obtain ⟨other, rfl⟩ := hfinish
      refine ⟨h.layer, h.enabled, h.attached, h.shape, fun id hid => ?_, h.stream, h.stream'⟩
      simp only [call, finishRequest, setOffset, h.offsets id hid]
    · have hc : (c.call k).2 = c := by
        refine hafter.resolve_right ?_
        rintro ⟨other, ho, -⟩
        exact hfinish ⟨other, ho⟩
      have hd : (d.call k).2 = d := by
        refine hafter'.resolve_right ?_
        rintro ⟨other, ho, -⟩
        exact hfinish ⟨other, ho⟩
      rw [hc, hd]
      exact h

/-- A call on no request of the set: it writes nothing of the set, and the sinks stay alike. -/
theorem other_call (h : Alike S c d) (hminted : ∀ n, mintedId n ∉ S) {k : Call} (hk : k.records = true)
    (hS : ¬ k.Names S) :
    (∀ r ∈ (Entry.mk c k).routes, r.requestId ∉ S) ∧ Alike S (c.call k).2 d := by
  have hforeign : ∀ id, k.request? = some id → id ∉ S := fun id hr hid => hS ⟨id, hid, hr⟩
  rcases recording_cases h.stream hk with ⟨sub, w, ht, hw, hcall⟩ | ⟨-, hno, hafter⟩
  · have horigin : (c.origin sub.requestId).1 ∉ S := by
      cases hsub : sub.requestId with
      | none => exact hminted _
      | some id => exact hforeign id ((Call.request_of_submission ht.submits).trans hsub)
    rw [ht.routes h.stream, hcall]
    refine ⟨fun r hr => ?_, h.layer, h.enabled, h.attached, h.shape, fun id hid => ?_, hw, h.stream'⟩
    · have hreq : r.requestId = (c.origin sub.requestId).1 := Batch.routes_requestId r hr
      rw [hreq]
      exact horigin
    · have hne : id ≠ (c.origin sub.requestId).1 := fun he => horigin (he ▸ hid)
      rw [← h.offsets id hid]
      simp only [counted]
      split
      · exact if_neg hne
      · rfl
  · rw [routes_of_not_accepted hno]
    refine ⟨fun r hr => absurd hr List.not_mem_nil, ?_⟩
    rcases hafter with hc | ⟨other, rfl, hc⟩
    · rw [hc]
      exact h
    · rw [hc]
      refine ⟨h.layer, h.enabled, h.attached, h.shape, fun id hid => ?_, h.stream, h.stream'⟩
      have hne : id ≠ other := fun he => hforeign other rfl (he ▸ hid)
      simp only [finishRequest, setOffset, if_neg hne, h.offsets id hid]

end Alike

/-! ## Schedules -/

structure Turn where
  client : Nat
  call : Call

def callsOf (a : Nat) (turns : List Turn) : List Call := (turns.filter (·.client = a)).map (·.call)

def repliesTo (a : Nat) (turns : List Turn) (replies : List Reply) : List Reply :=
  ((turns.zip replies).filter (·.1.client = a)).map (·.2)

/-- A schedule whose turns of one client are those on the requests of a set. -/
structure Divided (S : Set String) (a : Nat) (turns : List Turn) : Prop where
  records : ∀ t ∈ turns, t.call.records = true
  names : ∀ t ∈ turns, t.client = a ↔ t.call.Names S

theorem Divided.tail {S : Set String} {a : Nat} {t : Turn} {turns : List Turn} (h : Divided S a (t :: turns)) :
    Divided S a turns :=
  ⟨fun t' h' => h.records t' (List.mem_cons_of_mem _ h'), fun t' h' => h.names t' (List.mem_cons_of_mem _ h')⟩

/-- In any schedule a client gets the replies, and has the routes recorded, that it has alone. -/
theorem schedule_alike {S : Set String} [DecidablePred (· ∈ S)] (hminted : ∀ n, mintedId n ∉ S) {a : Nat}
    {turns : List Turn} (hturns : Divided S a turns) {c d : Capture} (h : Alike S c d) :
    repliesTo a turns (c.run (turns.map (·.call))).1 = (d.run (callsOf a turns)).1 ∧
      (c.runRoutes (turns.map (·.call))).filter (·.requestId ∈ S) = d.runRoutes (callsOf a turns) := by
  induction turns generalizing c d with
  | nil => exact ⟨rfl, rfl⟩
  | cons t turns ih =>
    have hk := hturns.records t List.mem_cons_self
    by_cases ha : t.client = a
    · obtain ⟨hroutes, hS, hafter⟩ := h.own_call hk ((hturns.names t List.mem_cons_self).mp ha)
      obtain ⟨hreplies, hrest⟩ := ih hturns.tail hafter
      have hcalls : callsOf a (t :: turns) = t.call :: callsOf a turns := by simp [callsOf, ha]
      rw [hcalls]
      constructor
      · rw [List.map_cons, run_cons, run_cons, ← hreplies, ← h.reply hk]
        simp [repliesTo, ha]
      · have hall : (Entry.mk c t.call).routes.filter (·.requestId ∈ S) = (Entry.mk c t.call).routes :=
          List.filter_eq_self.mpr fun r hr => by simpa using hS r hr
        rw [List.map_cons, runRoutes_cons, runRoutes_cons, List.filter_append, hall, hrest, hroutes]
    · obtain ⟨hS, hafter⟩ := h.other_call hminted hk fun hn => ha ((hturns.names t List.mem_cons_self).mpr hn)
      obtain ⟨hreplies, hrest⟩ := ih hturns.tail hafter
      have hcalls : callsOf a (t :: turns) = callsOf a turns := by simp [callsOf, ha]
      rw [hcalls]
      constructor
      · rw [List.map_cons, run_cons, ← hreplies]
        simp [repliesTo, ha]
      · have hnone : (Entry.mk c t.call).routes.filter (·.requestId ∈ S) = [] :=
          List.filter_eq_nil_iff.mpr fun r hr => by simpa using hS r hr
        rw [List.map_cons, runRoutes_cons, List.filter_append, hnone, hrest, List.nil_append]

/-- A written call of a schedule adds the routes of its batch to the stream, in one block. -/
theorem written_block {c : Capture} (hs : c.writer.stream.NeverFails) {before after : List Call} {k : Call}
    (hcalls : ∀ k' ∈ before ++ k :: after, k'.records = true) {n : Nat}
    (hn : ((c.run before).2.call k).1 = .status (.written n)) :
    ∃ sub id first later, k.submission? = some sub ∧ (sub.batch.routes id c.layer first).length = n ∧
      c.runRoutes (before ++ k :: after) = c.runRoutes before ++ sub.batch.routes id c.layer first ++ later := by
  have hk : k.records = true := hcalls k (List.mem_append_right _ List.mem_cons_self)
  have hstream := run_neverFails hs before
  have hlayer : (c.run before).2.layer = c.layer := run_keeps (P := fun d => d.layer = c.layer)
    (fun d k h => (call_layer d k).trans h) c before rfl
  rcases recording_cases hstream hk with ⟨sub, w, ht, -, hcall⟩ | ⟨-, hno, -⟩
  · refine ⟨sub, ((c.run before).2.origin sub.requestId).1, ((c.run before).2.origin sub.requestId).2,
      ((c.run before).2.call k).2.runRoutes after, ht.submits, ?_, ?_⟩
    · rw [hcall] at hn
      cases hn
      rw [← hlayer]
      exact routesOf_length ht
    · rw [runRoutes_append, runRoutes_cons, ht.routes hstream, routesOf, hlayer, List.append_assoc]
  · rw [hn] at hno
    cases hno

/-- Several clients record on one sink, on a stream that never fails: whatever the order of their
    calls, a client whose calls are those on the requests of a set, none of which has the form
    of a minted id, is answered as when it is alone. The stream gains the lines of the routes
    of all calls; those of the set are the routes that the client records alone. The lines of
    a written batch stand together, behind those of the calls before it. -/
theorem interleaving_keeps_each_client {S : Set String} [DecidablePred (· ∈ S)] (hminted : ∀ n, mintedId n ∉ S)
    {a : Nat} {turns : List Turn} (hturns : Divided S a turns) {c : Capture} (hs : c.writer.stream.NeverFails) :
    let together := turns.map (·.call)
    let alone := callsOf a turns
    repliesTo a turns (c.run together).1 = (c.run alone).1 ∧
      (c.run together).2.bytes = c.bytes ++ Writer.lines ((c.runRoutes together).map .route) ∧
      (c.run alone).2.bytes = c.bytes ++ Writer.lines ((c.runRoutes alone).map .route) ∧
      (c.runRoutes together).filter (·.requestId ∈ S) = c.runRoutes alone ∧
      ∀ before t after n, turns = before ++ t :: after →
        ((c.run (before.map (·.call))).2.call t.call).1 = .status (.written n) →
        ∃ (sub : Submission) (id : String) (first : Nat) (later : List Route),
          t.call.submission? = some sub ∧ (sub.batch.routes id c.layer first).length = n ∧
          (c.run together).2.bytes = c.bytes ++ Writer.lines ((c.runRoutes (before.map (·.call))).map .route) ++
            Writer.lines ((sub.batch.routes id c.layer first).map .route) ++ Writer.lines (later.map .route) := by
  intro together alone
  have hcalls : ∀ k ∈ together, k.records = true := by
    intro k hk
    obtain ⟨t, ht, rfl⟩ := List.mem_map.mp hk
    exact hturns.records t ht
  have halone : ∀ k ∈ alone, k.records = true := by
    intro k hk
    obtain ⟨t, ht, rfl⟩ := List.mem_map.mp hk
    exact hturns.records t (List.mem_of_mem_filter ht)
  have hself : Alike S c c := ⟨rfl, rfl, rfl, rfl, fun _ _ => rfl, hs, hs⟩
  obtain ⟨hreplies, hroutes⟩ := schedule_alike hminted hturns hself
  refine ⟨hreplies, recording_bytes hs hcalls, recording_bytes hs halone, hroutes, ?_⟩
  intro before t after n hsplit hn
  have htogether : together = before.map (·.call) ++ t.call :: after.map (·.call) := by
    simp only [together, hsplit, List.map_append, List.map_cons]
  rw [htogether] at hcalls
  obtain ⟨sub, id, first, later, hsub, hlength, hblock⟩ := written_block hs hcalls hn
  refine ⟨sub, id, first, later, hsub, hlength, ?_⟩
  rw [htogether, recording_bytes hs hcalls, hblock]
  simp only [List.map_append, Writer.lines_append, List.append_assoc]

/-- Two clients on a stream that takes few bytes at a time: one has two requests and ends one of
    them, the other records without an id, under one of its own, and with a faulty batch. -/
theorem two_clients_keep_their_requests :
    let S : Set String := {id | id = "a" ∨ id = "b"}
    let row : Batch := ⟨[[2, 0]], [[Binary.zero false, Binary.zero false]]⟩
    let turns : List Turn := [⟨0, .batch 0 row (some "a")⟩, ⟨1, .batch 0 row none⟩, ⟨1, .batch 0 row (some "z")⟩,
      ⟨0, .batch 0 row (some "a")⟩, ⟨0, .finish "a"⟩, ⟨1, .batch 0 ⟨[[2, 0]], []⟩ none⟩, ⟨1, .finish "z"⟩,
      ⟨0, .batch 0 row (some "b")⟩, ⟨0, .tensors 0 ⟨[1, 2], .u32 [1, 3], rfl⟩ ⟨[1, 2], .u32 [0, 0], rfl⟩ (some "a")⟩]
    let c := onto { writes := [.short 3, .interrupted, .short 40] } 0
    (∀ n, mintedId n ∉ S) ∧ Divided S 0 turns ∧ c.writer.stream.NeverFails ∧
      repliesTo 0 turns (c.run (turns.map (·.call))).1 = (c.run (callsOf 0 turns)).1 ∧
      (c.runRoutes (turns.map (·.call))).filter (·.requestId ∈ S) = c.runRoutes (callsOf 0 turns) ∧
      ((c.runRoutes (callsOf 0 turns)).map fun r => (r.requestId, r.token)) =
        [("a", 0), ("a", 1), ("b", 0), ("a", 0)] := by
  intro S row turns c
  have hminted : ∀ n, mintedId n ∉ S := by
    rintro n (h | h) <;> have hfirst := congrArg (·.toList.head?) h <;> simp [mintedId] at hfirst
  have hturns : Divided S 0 turns := by
    constructor
    · decide
    · decide
  have hs : c.writer.stream.NeverFails := ⟨by simp [c, onto, WriteReply.Accepting], by simp [c, onto]⟩
  obtain ⟨hreplies, -, -, hroutes, -⟩ := interleaving_keeps_each_client hminted hturns hs
  exact ⟨hminted, hturns, hs, hreplies, hroutes, by decide +kernel⟩

end Capture

end ExpertRouting
