/-
  ExpertRouting.Proofs.Capture.TokenCount — the numbers of a request's tokens.

  The sink keeps for every request the number of tokens it has written since the request
  was last finished (`tokensFor_step`). So between two ends of a request its written tokens
  are numbered 0, 1, 2, … without a gap, whatever was filtered, rejected, empty or lost in
  between (`tokensFor_stretch`), and the tokens of a batch without an id are numbered from
  zero. There are as many numbers as rows in the calls that were written
  (`length_tokensFor`). Where nobody supplies an id of the minted form and no request is
  finished, every request, minted or not, is numbered once, so a number can only come back
  after 2^64 records (`token_numbers_are_contiguous`).
-/

import ExpertRouting.Proofs.Capture.Rows
import ExpertRouting.Proofs.Decimal.Digits

namespace ExpertRouting

def Call.supplied? : Call → Option String
  | .batch _ _ requestId => requestId
  | .tensors _ _ _ requestId => requestId
  | _ => none

theorem Call.supplied_of_submission {k : Call} {sub : Submission} (h : k.submission? = some sub) :
    k.supplied? = sub.requestId := by
  cases k with
  | header s => cases h
  | batch layer b requestId => cases h; rfl
  | tensors layer ids weights requestId =>
    simp only [submission?] at h
    split at h
    · cases h; rfl
    · cases h
  | finish requestId => cases h
  | close => cases h

/-- Token numbers are naturals kept in 64 bits. -/
def tokenNumbers (first n : Nat) : List UInt64 := (List.range' first n).map UInt64.ofNat

theorem tokenNumbers_append (first m n : Nat) :
    tokenNumbers first m ++ tokenNumbers (first + m) n = tokenNumbers first (m + n) := by
  rw [tokenNumbers, tokenNumbers, tokenNumbers, ← List.map_append, List.range'_append_1]

theorem tokenNumbers_middle {a b c : List UInt64} {first n : Nat} (h : a ++ b ++ c = tokenNumbers first n) :
    b = tokenNumbers (first + a.length) b.length := by
  have hlen := congrArg List.length h
  simp only [tokenNumbers, List.length_append, List.length_map, List.length_range'] at hlen
  obtain rfl : n = a.length + (b.length + c.length) := by omega
  rw [← tokenNumbers_append, ← tokenNumbers_append, List.append_assoc] at h
  have ha := (List.append_inj h (by simp [tokenNumbers])).2
  exact (List.append_inj ha (by simp [tokenNumbers])).1

/-- Up to 2^64 numbers in a row are different. -/
theorem tokenNumbers_nodup (first : Nat) {n : Nat} (h : n ≤ UInt64.size) : (tokenNumbers first n).Nodup := by
  refine List.Nodup.map_on ?_ List.nodup_range'
  intro a ha b hb hab
  obtain ⟨i, hi, rfl⟩ := List.mem_range'.mp ha
  obtain ⟨j, hj, rfl⟩ := List.mem_range'.mp hb
  have hmod := congrArg UInt64.toNat hab
  simp only [UInt64.toNat_ofNat'] at hmod
  have hsize : UInt64.size = 2 ^ 64 := rfl
  omega

theorem Batch.routes_tokens (b : Batch) (requestId : String) (layer : UInt64) (first : Nat) :
    (b.routes requestId layer first).map (·.token) = tokenNumbers first (b.routes requestId layer first).length := by
  have h : ∀ (rows : List (List UInt32 × List Real64)) (k : Nat),
      (rows.zipIdx k).map (fun r => UInt64.ofNat (first + r.2)) = tokenNumbers (first + k) rows.length := by
    intro rows
    induction rows with
    | nil => intro k; rfl
    | cons r rows ih =>
      intro k
      rw [List.zipIdx_cons, List.map_cons, ih, List.length_cons, tokenNumbers, tokenNumbers, List.range'_succ,
        List.map_cons, Nat.add_assoc]
  unfold routes
  rw [List.length_map, List.length_zipIdx, List.map_map]
  exact h b.rows 0

theorem Batch.routes_requestId {b : Batch} {requestId : String} {layer : UInt64} {first : Nat} :
    ∀ r ∈ b.routes requestId layer first, r.requestId = requestId := by
  intro r hr
  obtain ⟨x, -, rfl⟩ := List.mem_map.mp hr
  rfl

namespace Capture

theorem mintedId_injective : Function.Injective mintedId := by
  intro a b h
  have := congrArg String.toList h
  simp only [mintedId, String.toList_append] at this
  exact decimal_injective (String.toList_injective (List.append_cancel_left this))

/-- The token numbers that an entry writes for a request whose id came with the call. -/
def Entry.tokensFor (id : String) (e : Entry) : List UInt64 :=
  if e.call.supplied? = some id then e.routes.map (·.token) else []

/-- Routes come from a submission that was taken, and are numbered from its origin on. -/
theorem routes_cases (c : Capture) (k : Call) :
    ((Entry.mk c k).routes = [] ∧ c.minted ≤ (c.call k).2.minted) ∨
    ∃ sub w, c.Takes k sub ∧ (Entry.mk c k).routes = c.routesOf sub ∧
      (c.call k).2 = c.counted sub (c.routesOf sub).length w := by
  have he := call_effect c k
  unfold Entry.routes Entry.written Entry.reply
  generalize (c.call k).1 = reply at he ⊢
  generalize (c.call k).2 = after at he ⊢
  have hclaimed : ∀ requestId, c.minted ≤ (c.claimed requestId).minted := by
    intro requestId
    cases requestId with
    | none => exact Nat.le_succ _
    | some id => exact Nat.le_refl _
  cases he with
  | refused _ s hs =>
    rw [Status.accepted_of_refusal hs]
    exact Or.inl ⟨rfl, Nat.le_refl _⟩
  | empty _ sub ht hb =>
    refine Or.inl ⟨?_, hclaimed _⟩
    simp [Reply.accepted, ht.recordsOf, routesOf_nil ht hb]
  | batch _ sub w ht hb hw =>
    refine Or.inr ⟨sub, w, ht, ?_, rfl⟩
    simp only [Reply.accepted, if_true, ht.recordsOf, Trace.filterMap_route]
  | batchLost _ sub w e ht hb hw => exact Or.inl ⟨rfl, hclaimed _⟩
  | _ => exact Or.inl ⟨rfl, Nat.le_refl _⟩

theorem routesOf_tokens (c : Capture) (sub : Submission) :
    (c.routesOf sub).map (·.token) = tokenNumbers (c.origin sub.requestId).2 (c.routesOf sub).length :=
  Batch.routes_tokens _ _ _ _

/-! ## Requests whose id is supplied -/

/-- A call that is not written keeps the count of a request, unless it ends the request or the sink. -/
theorem call_offsets (c : Capture) (k : Call) (id : String) (hk : k ≠ .finish id) (hr : (Entry.mk c k).routes = []) :
    (c.call k).2.offsets id = c.offsets id ∨ (c.call k).2.enabled = false := by
  have he := call_effect c k
  unfold Entry.routes Entry.written Entry.reply at hr
  generalize (c.call k).1 = reply at he hr
  generalize (c.call k).2 = after at he
  cases he with
  | closed => exact Or.inr rfl
  | finished requestId =>
    have hne : id ≠ requestId := fun h => hk (h ▸ rfl)
    exact Or.inl (if_neg hne)
  | batch _ sub w ht hb hw =>
    simp only [Reply.accepted, if_true, ht.recordsOf, Trace.filterMap_route] at hr
    have hlen := routesOf_length ht
    rw [hr] at hlen
    exact absurd (List.eq_nil_of_length_eq_zero hlen.symm) hb
  | _ => exact Or.inl rfl

/-- One call numbers the tokens of a request from its count on, and counts them. -/
theorem tokensFor_step (c : Capture) (k : Call) (id : String) (hk : k ≠ .finish id) :
    (Entry.mk c k).tokensFor id = tokenNumbers (c.offsets id) ((Entry.mk c k).tokensFor id).length ∧
      ((c.call k).2.offsets id = c.offsets id + ((Entry.mk c k).tokensFor id).length ∨
        (c.call k).2.enabled = false) := by
  rcases routes_cases c k with ⟨hr, -⟩ | ⟨sub, w, ht, hr, hafter⟩
  · have hnil : (Entry.mk c k).tokensFor id = [] := by
      unfold Entry.tokensFor
      rw [hr]
      split <;> rfl
    rw [hnil]
    exact ⟨rfl, call_offsets c k id hk hr⟩
  · have hsup := Call.supplied_of_submission ht.submits
    unfold Entry.tokensFor
    rw [hsup, hr, hafter]
    by_cases hid : sub.requestId = some id
    · rw [if_pos hid, routesOf_tokens]
      simp only [counted, hid, Option.isSome_some, if_true, origin_some]
      refine ⟨by simp [tokenNumbers], Or.inl ?_⟩
      simp [setOffset, tokenNumbers]
    · rw [if_neg hid]
      refine ⟨rfl, Or.inl ?_⟩
      cases hsub : sub.requestId with
      | none => simp [counted, hsub, claimed]
      | some id' =>
        have hne : id ≠ id' := fun h => hid (by rw [hsub, h])
        simp [counted, hsub, setOffset, hne]

theorem journal_disabled {c : Capture} (h : c.enabled = false) (calls : List Call) :
    ∀ e ∈ c.journal calls, e.routes = [] := by
  have step : ∀ (c : Capture) (k : Call), c.enabled = false → (c.call k).2.enabled = false := by
    intro c k h
    have he := call_effect c k
    generalize (c.call k).1 = reply at he
    generalize (c.call k).2 = after at he
    cases he with
    | refused _ s hs => exact h
    | finished requestId => exact h
    | closed => rfl
    | empty _ sub ht hb => rw [ht.enabled] at h; cases h
    | batch _ sub w ht hb hw => rw [ht.enabled] at h; cases h
    | batchLost _ sub w e ht hb hw => rw [ht.enabled] at h; cases h
    | header s w he ha hs hw => rw [he] at h; cases h
    | headerLost s w e he ha hs hw => rw [he] at h; cases h
  intro e he
  have hd := journal_keeps (P := fun c => c.enabled = false) step c calls h e he
  rcases routes_cases e.before e.call with ⟨hr, -⟩ | ⟨sub, w, ht, -⟩
  · exact hr
  · rw [ht.enabled] at hd; cases hd

/-- Between two ends of a request its tokens are numbered without a gap. -/
theorem tokensFor_stretch (id : String) (calls : List Call) (hno : .finish id ∉ calls) (c : Capture) :
    (c.journal calls).flatMap (Entry.tokensFor id) =
      tokenNumbers (c.offsets id) ((c.journal calls).flatMap (Entry.tokensFor id)).length := by
  induction calls generalizing c with
  | nil => rfl
  | cons k rest ih =>
    have hk : k ≠ .finish id := fun h => hno (h ▸ List.mem_cons_self)
    obtain ⟨htok, hoff⟩ := tokensFor_step c k id hk
    have hrest := ih (fun h => hno (List.mem_cons_of_mem _ h)) (c.call k).2
    simp only [journal, List.flatMap_cons, List.length_append]
    rcases hoff with hoff | hclosed
    · rw [hoff] at hrest
      rw [← tokenNumbers_append, ← htok, ← hrest]
    · have hnil : ((c.call k).2.journal rest).flatMap (Entry.tokensFor id) = [] := by
        refine List.flatMap_eq_nil_iff.mpr fun e he => ?_
        unfold Entry.tokensFor
        rw [journal_disabled hclosed rest e he]
        split <;> rfl
      rw [hnil, List.append_nil, List.length_nil, Nat.add_zero]
      exact htok

/-- A request has as many numbers as its written calls have rows. -/
theorem length_tokensFor (id : String) (entries : List Entry) :
    (entries.flatMap (Entry.tokensFor id)).length =
      ((entries.filter fun e => e.call.supplied? = some id).map Entry.rowCount).sum := by
  induction entries with
  | nil => rfl
  | cons e entries ih =>
    rw [List.flatMap_cons, List.length_append, ih, Entry.tokensFor]
    by_cases hid : e.call.supplied? = some id
    · rw [if_pos hid, List.filter_cons_of_pos (by simpa using hid), List.map_cons, List.sum_cons, List.length_map,
        e.length_routes]
    · rw [if_neg hid, List.filter_cons_of_neg (by simpa using hid), List.length_nil, Nat.zero_add]

/-! ## Every request of a run -/

def runRoutes (c : Capture) (calls : List Call) : List Route := (c.journal calls).flatMap Entry.routes

theorem runRoutes_cons (c : Capture) (k : Call) (rest : List Call) :
    c.runRoutes (k :: rest) = (Entry.mk c k).routes ++ (c.call k).2.runRoutes rest := rfl

theorem runRoutes_append (c : Capture) (a b : List Call) :
    c.runRoutes (a ++ b) = c.runRoutes a ++ (c.run a).2.runRoutes b := by
  induction a generalizing c with
  | nil => rfl
  | cons k a ih => rw [List.cons_append, runRoutes_cons, runRoutes_cons, ih, run_cons, List.append_assoc]

def tokensOf (id : String) (routes : List Route) : List UInt64 :=
  (routes.filter (·.requestId = id)).map (·.token)

theorem tokensOf_append (id : String) (a b : List Route) : tokensOf id (a ++ b) = tokensOf id a ++ tokensOf id b := by
  simp [tokensOf]

theorem tokensOf_eq_all {id : String} {routes : List Route} (h : ∀ r ∈ routes, r.requestId = id) :
    tokensOf id routes = routes.map (·.token) := by
  unfold tokensOf
  rw [List.filter_eq_self.mpr fun r hr => by simpa using h r hr]

theorem tokensOf_eq_nil {id : String} {routes : List Route} (h : ∀ r ∈ routes, r.requestId ≠ id) :
    tokensOf id routes = [] := by
  unfold tokensOf
  rw [List.filter_eq_nil_iff.mpr fun r hr => by simpa using h r hr, List.map_nil]

/-- Nobody supplies an id of the minted form. -/
def NoneMinted (calls : List Call) : Prop := ∀ k ∈ calls, ∀ id, k.supplied? = some id → ∀ n, id ≠ mintedId n

/-- A minted id begins with an r. -/
theorem noneMinted_of_head {calls : List Call}
    (h : ∀ k ∈ calls, (k.supplied?.bind fun id => id.toList.head?) ≠ some 'r') : NoneMinted calls := by
  rintro k hk id hid n rfl
  refine h k hk ?_
  simp [hid, mintedId]

theorem tokensOf_supplied {c : Capture} {k : Call} {id : String} (hid : ∀ n, id ≠ mintedId n) :
    tokensOf id (Entry.mk c k).routes = (Entry.mk c k).tokensFor id := by
  rcases routes_cases c k with ⟨hr, -⟩ | ⟨sub, w, ht, hr, -⟩
  · unfold Entry.tokensFor
    rw [hr]
    split <;> rfl
  · unfold Entry.tokensFor
    rw [hr, Call.supplied_of_submission ht.submits]
    have hreq : ∀ r ∈ c.routesOf sub, r.requestId = (c.origin sub.requestId).1 := Batch.routes_requestId
    cases hsub : sub.requestId with
    | none =>
      rw [if_neg (by simp)]
      refine tokensOf_eq_nil fun r hr h => hid c.minted ?_
      rw [← h, hreq r hr, hsub, origin_none]
    | some id' =>
      rw [hsub, origin_some] at hreq
      by_cases h : id' = id
      · rw [if_pos (by rw [h])]
        exact tokensOf_eq_all fun r hr => (hreq r hr).trans h
      · rw [if_neg (by simpa using h)]
        exact tokensOf_eq_nil fun r hr he => h ((hreq r hr).symm.trans he)

/-- A minted id is numbered in the one batch that it was minted for. -/
theorem tokensOf_minted (n : Nat) (calls : List Call) (hs : NoneMinted calls) (c : Capture) :
    (n < c.minted → tokensOf (mintedId n) (c.runRoutes calls) = []) ∧
      ∃ m, tokensOf (mintedId n) (c.runRoutes calls) = tokenNumbers 0 m := by
  induction calls generalizing c with
  | nil => exact ⟨fun _ => rfl, 0, rfl⟩
  | cons k rest ih =>
    obtain ⟨hpast, m, hm⟩ := ih (fun k' hk' => hs k' (List.mem_cons_of_mem _ hk')) (c.call k).2
    have hsplit : tokensOf (mintedId n) (c.runRoutes (k :: rest)) =
        tokensOf (mintedId n) (Entry.mk c k).routes ++ tokensOf (mintedId n) ((c.call k).2.runRoutes rest) :=
      tokensOf_append _ _ _
    rw [hsplit]
    rcases routes_cases c k with ⟨hr, hle⟩ | ⟨sub, w, ht, hr, hafter⟩
    · rw [hr]
      exact ⟨fun h => hpast (Nat.lt_of_lt_of_le h hle), m, hm⟩
    have hreq : ∀ r ∈ c.routesOf sub, r.requestId = (c.origin sub.requestId).1 := Batch.routes_requestId
    rw [hr]
    rw [hafter] at hpast
    cases hsub : sub.requestId with
    | some id =>
      have hid : ∀ n, id ≠ mintedId n :=
        hs k List.mem_cons_self id (by rw [Call.supplied_of_submission ht.submits, hsub])
      have hnil : tokensOf (mintedId n) (c.routesOf sub) = [] := by
        refine tokensOf_eq_nil fun r hr he => hid n ?_
        rw [← he, hreq r hr, hsub, origin_some]
      rw [hnil, List.nil_append]
      refine ⟨fun h => ?_, m, hm⟩
      rw [hafter]
      exact hpast (by simpa [counted, claimed, hsub] using h)
    | none =>
      rw [hsub, origin_none] at hreq
      by_cases hn : c.minted = n
      · subst hn
        have hlast := hpast (by simp [counted, claimed, hsub])
        rw [tokensOf_eq_all hreq, routesOf_tokens, hsub, hafter, hlast, List.append_nil]
        exact ⟨fun h => absurd h (Nat.lt_irrefl _), _, rfl⟩
      · have hnil : tokensOf (mintedId n) (c.routesOf sub) = [] :=
          tokensOf_eq_nil fun r hr he => hn (mintedId_injective ((hreq r hr).symm.trans he))
        rw [hnil, List.nil_append]
        refine ⟨fun h => ?_, m, hm⟩
        rw [hafter]
        exact hpast (by simp only [counted, claimed, hsub, Option.isNone_none, if_true]; omega)

/-- Without minted forms among the supplied ids and without ends, a request has consecutive numbers. -/
theorem tokensOf_run {c : Capture} {calls : List Call} (hs : NoneMinted calls) (hf : ∀ id, .finish id ∉ calls)
    (id : String) : ∃ first n, tokensOf id (c.runRoutes calls) = tokenNumbers first n := by
  by_cases hid : ∀ n, id ≠ mintedId n
  · have hall : ∀ es : List Entry, tokensOf id (es.flatMap Entry.routes) = es.flatMap (Entry.tokensFor id) := by
      intro es
      induction es with
      | nil => rfl
      | cons e es ih => rw [List.flatMap_cons, tokensOf_append, tokensOf_supplied hid, ih, List.flatMap_cons]
    exact ⟨_, _, (hall _).trans (tokensFor_stretch id calls (hf id) c)⟩
  · obtain ⟨n, hn⟩ := not_forall.mp hid
    obtain ⟨m, hm⟩ := (tokensOf_minted n calls hs c).2
    exact ⟨0, m, by rw [not_not.mp hn, hm]⟩

theorem nodup_of_tokensOf {routes : List Route} (h : ∀ id, (tokensOf id routes).Nodup) :
    (routes.map fun r => (r.requestId, r.token)).Nodup := by
  induction routes with
  | nil => exact List.nodup_nil
  | cons r rest ih =>
    rw [List.map_cons, List.nodup_cons]
    constructor
    · intro hmem
      obtain ⟨r', hr', heq⟩ := List.mem_map.mp hmem
      have hself := h r.requestId
      unfold tokensOf at hself
      rw [List.filter_cons_of_pos (by simp), List.map_cons, List.nodup_cons] at hself
      refine hself.1 (List.mem_map.mpr ⟨r', List.mem_filter.mpr ⟨hr', ?_⟩, (Prod.mk.inj heq).2⟩)
      simpa using (Prod.mk.inj heq).1
    · refine ih fun id => (h id).sublist ?_
      exact ((List.sublist_cons_self r rest).filter _).map _

/-- Among 2^64 routes in a row every request has different numbers. -/
theorem window_nodup {c : Capture} {calls : List Call} (hs : NoneMinted calls) (hf : ∀ id, .finish id ∉ calls)
    (m : Nat) : ((((c.runRoutes calls).drop m).take UInt64.size).map fun r => (r.requestId, r.token)).Nodup := by
  refine nodup_of_tokensOf fun id => ?_
  obtain ⟨first, n, hrun⟩ := tokensOf_run (c := c) hs hf id
  have hsplit : (c.runRoutes calls).take m ++ ((c.runRoutes calls).drop m).take UInt64.size ++
      ((c.runRoutes calls).drop m).drop UInt64.size = c.runRoutes calls := by
    rw [List.append_assoc, List.take_append_drop, List.take_append_drop]
  rw [← hsplit, tokensOf_append, tokensOf_append] at hrun
  rw [tokenNumbers_middle hrun]
  refine tokenNumbers_nodup _ ?_
  unfold tokensOf
  rw [List.length_map]
  exact (List.length_filter_le _ _).trans (List.length_take_le _ _)

/-- The written tokens of a run from a fresh sink. A written call adds exactly the lines of its
    records, a route for each of its rows, and any other call adds none. From its first call, or
    its last end, on, a request whose id is supplied has the numbers 0, 1, 2, … until its next
    end, one for each row that was written under the id; a batch without an id has those of its
    rows. Where no id has the minted form and no request ends, no request has a number twice
    among 2^64 records in a row, which is the range of a token number. -/
theorem token_numbers_are_contiguous (stream : Stream) (layer : UInt64) (calls : List Call) :
    (∀ e ∈ (onto stream layer).journal calls,
      (e.reply.accepted = true →
        e.after.bytes = e.before.bytes ++ Writer.lines e.written ∧ e.reply.count = e.written.length) ∧
      e.routes.length = if e.reply.accepted then e.call.rows.length else 0) ∧
    (∀ id before stretch rest, calls = before ++ stretch ++ rest →
      (before = [] ∨ before.getLast? = some (.finish id)) → .finish id ∉ stretch →
      let entries := ((onto stream layer).run before).2.journal stretch
      entries.flatMap (Entry.tokensFor id) =
        tokenNumbers 0 ((entries.filter fun e => e.call.supplied? = some id).map Entry.rowCount).sum) ∧
    (∀ e ∈ (onto stream layer).journal calls, e.call.supplied? = none →
      e.routes.map (·.token) = tokenNumbers 0 e.rowCount) ∧
    (NoneMinted calls → (∀ id, .finish id ∉ calls) → ∀ m,
      (((((onto stream layer).runRoutes calls).drop m).take UInt64.size).map
        fun r => (r.requestId, r.token)).Nodup) := by
  refine ⟨?_, ?_, ?_, fun hs hf => window_nodup hs hf⟩
  · intro e _
    exact ⟨fun ha => ⟨Entry.bytes_of_accepted ha, count_eq_length e.before e.call⟩, e.length_routes⟩
  · intro id before stretch rest _ hbefore hno entries
    have hnumbers := tokensFor_stretch id stretch hno ((onto stream layer).run before).2
    have hfirst : ((onto stream layer).run before).2.offsets id = 0 := by
      rcases hbefore with rfl | hlast
      · rfl
      · obtain ⟨front, rfl⟩ := List.getLast?_eq_some_iff.mp hlast
        rw [run_append]
        simp [run, call, finishRequest, setOffset]
    rwa [hfirst, length_tokensFor] at hnumbers
  · intro e _ hnone
    rw [← e.length_routes]
    rcases routes_cases e.before e.call with ⟨hr, -⟩ | ⟨sub, w, ht, hr, -⟩
    · rw [show e.routes = [] from hr]; rfl
    · have hsub : sub.requestId = none := by rw [← Call.supplied_of_submission ht.submits, hnone]
      rw [show e.routes = _ from hr, routesOf_tokens, hsub]
      rfl

/-- Two rows of a request, its batch of another layer, one more row and its end; then a row under
    the same id and two rows without one. The same calls without the end give no number twice. -/
theorem a_finished_request_counts_from_zero :
    let zeros := [Binary.zero false, Binary.zero false]
    let row : Batch := ⟨[[2, 0]], [zeros]⟩
    let two : Batch := ⟨[[2, 0], [1, 3]], [zeros, zeros]⟩
    let first : List Call := [.batch 0 two (some "a"), .batch 1 row (some "a"), .batch 0 row (some "a")]
    let ended : List Call := first ++ [.finish "a"]
    let second : List Call := [.batch 0 row (some "a"), .batch 0 two none]
    let c := onto {} 0
    let pairs := (c.runRoutes (first ++ second)).map fun r => (r.requestId, r.token)
    (c.journal first).flatMap (Entry.tokensFor "a") = [0, 1, 2] ∧
      ((c.run ended).2.journal second).flatMap (Entry.tokensFor "a") = [0] ∧
      (∃ e, (c.journal (ended ++ second))[5]? = some e ∧ e.routes.map (·.token) = [0, 1]) ∧
      pairs = [("a", 0), ("a", 1), ("a", 2), ("a", 3), ("r0", 0), ("r0", 1)] ∧ pairs.Nodup := by
  intro zeros row two first ended second c pairs
  obtain ⟨-, hstretch, hunnamed, -⟩ := token_numbers_are_contiguous {} 0 (ended ++ second)
  obtain ⟨-, -, -, hwindow⟩ := token_numbers_are_contiguous {} 0 (first ++ second)
  have hend : ended.getLast? = some (.finish "a") := rfl
  have hopened := hstretch "a" [] first (.finish "a" :: second) rfl (.inl rfl) (by simp [first])
  have hreopened := hstretch "a" ended second [] (List.append_nil _).symm (.inr hend) (by simp [second])
  have hlast : ((c.journal (ended ++ second))[5]?.map fun e => (e.call.supplied?, e.rowCount)) =
      some (none, 2) := by
    decide +kernel
  obtain ⟨e, he, hcount⟩ := Option.map_eq_some_iff.mp hlast
  obtain ⟨hnone, htwo⟩ := Prod.mk.inj hcount
  have hminted : NoneMinted (first ++ second) := noneMinted_of_head (by decide)
  have hpairs : pairs = [("a", 0), ("a", 1), ("a", 2), ("a", 3), ("r0", 0), ("r0", 1)] := by decide +kernel
  have hshort : (c.runRoutes (first ++ second)).length ≤ UInt64.size := by
    have hlength : (c.runRoutes (first ++ second)).length = 6 := by decide +kernel
    rw [hlength]
    decide
  have hdistinct := hwindow hminted (by simp [first, second]) 0
  rw [List.drop_zero, List.take_of_length_le hshort] at hdistinct
  refine ⟨hopened.trans (by decide +kernel), hreopened.trans (by decide +kernel), ⟨e, he, ?_⟩, hpairs, hdistinct⟩
  rw [hunnamed e (List.mem_of_getElem? he) hnone, htwo]
  rfl

end Capture

end ExpertRouting
