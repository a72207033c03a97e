/-
  ExpertRouting.Proofs.Report.Codec — what a metrics file is read as.

  The metrics are written first and read last: the members that are not the report's own are
  put aside, each checked for faults (`gather_members`), and only the complete object is
  searched for them. Every number in its range is read as itself (`InRange`), the load balance
  by its name, and every real as its text is read, so a report is read as the report with each
  real read again (`Report.decode_text`). It is read when every real is finite
  (`Report.reread?_isSome_iff`), and as itself when every real is read as itself
  (`Report.reread?_eq_self_iff`).
-/

import ExpertRouting.Proofs.Json.Number
import ExpertRouting.Proofs.Json.Pretty
import ExpertRouting.Proofs.Trace.Codec
import ExpertRouting.Report.File

namespace ExpertRouting

open Json

/-! ## Reports and their reals -/

def Metrics.reals (m : Metrics) : List Real64 := m.top.map (·.probability) ++ [m.entropy, m.maxEntropy, m.normalized]

/-- Every number is one that a field of 64 bits can hold. -/
structure Report.InRange (r : Report) : Prop where
  top : ∀ s ∈ r.metrics.top, s.expert < UInt64.size ∧ s.count < UInt64.size
  total : r.metrics.total < UInt64.size
  numExperts : r.metrics.numExperts < UInt64.size
  tokens : r.tokens < UInt64.size
  requests : r.requests < UInt64.size
  counts : ∀ n ∈ r.counts, n < UInt64.size

def Share.reread? (s : Share) : Option Share :=
  (Json.reread? s.probability).map fun probability => { s with probability }

def Metrics.reread? (m : Metrics) : Option Metrics := do
  let top ← m.top.mapM Share.reread?
  let entropy ← Json.reread? m.entropy
  let maxEntropy ← Json.reread? m.maxEntropy
  let normalized ← Json.reread? m.normalized
  return { m with top, entropy, maxEntropy, normalized }

/-- A report whose reals are read again from their texts. -/
def Report.reread? (r : Report) : Option Report := r.metrics.reread?.map fun metrics => { r with metrics }

theorem Share.reread?_eq_self_iff (s : Share) : s.reread? = some s ↔ Json.ReadsBack s.probability := by
  rw [readsBack_iff, reread?]
  obtain ⟨expert, count, probability⟩ := s
  cases Json.reread? probability <;> simp

theorem Metrics.reread?_isSome_iff (m : Metrics) : m.reread?.isSome = true ↔ ∀ x ∈ m.reals, x.isFinite = true := by
  have htop : (m.top.mapM Share.reread?).isSome = true ↔ ∀ x ∈ m.top.map (·.probability), x.isFinite = true := by
    rw [mapM_isSome_iff, List.forall_mem_map]
    refine forall₂_congr fun s _ => ?_
    rw [Share.reread?, Option.isSome_map, Json.reread?_isSome_iff]
  rw [reals, List.forall_mem_append, ← htop]
  simp only [List.forall_mem_cons, List.not_mem_nil, false_imp_iff, implies_true, and_true,
    ← Json.reread?_isSome_iff]
  rw [reread?]
  cases m.top.mapM Share.reread? <;> cases Json.reread? m.entropy <;> cases Json.reread? m.maxEntropy <;>
    cases Json.reread? m.normalized <;> simp

theorem Metrics.reread?_eq_self_iff (m : Metrics) : m.reread? = some m ↔ ∀ x ∈ m.reals, Json.ReadsBack x := by
  have htop : m.top.mapM Share.reread? = some m.top ↔ ∀ x ∈ m.top.map (·.probability), Json.ReadsBack x := by
    rw [mapM_eq_self_iff, List.forall_mem_map]
    exact forall₂_congr fun s _ => s.reread?_eq_self_iff
  rw [reals, List.forall_mem_append, ← htop]
  simp only [List.forall_mem_cons, List.not_mem_nil, false_imp_iff, implies_true, and_true, readsBack_iff]
  obtain ⟨top, entropy, maxEntropy, normalized, total, numExperts⟩ := m
  simp only [reread?, Option.bind_eq_bind, Option.bind_eq_some_iff, Option.pure_def, Option.some.injEq, mk.injEq,
    and_true]
  constructor
  · rintro ⟨_, hshares, _, hentropy, _, hmax, _, hnormalized, rfl, rfl, rfl, rfl⟩
    exact ⟨hshares, hentropy, hmax, hnormalized⟩
  · rintro ⟨hshares, hentropy, hmax, hnormalized⟩
    exact ⟨_, hshares, _, hentropy, _, hmax, _, hnormalized, rfl, rfl, rfl, rfl⟩

theorem Report.reread?_isSome_iff (r : Report) :
    r.reread?.isSome = true ↔ ∀ x ∈ r.metrics.reals, x.isFinite = true := by
  rw [← r.metrics.reread?_isSome_iff, reread?, Option.isSome_map]

theorem Report.reread?_eq_self_iff (r : Report) : r.reread? = some r ↔ ∀ x ∈ r.metrics.reals, Json.ReadsBack x := by
  rw [← r.metrics.reread?_eq_self_iff, reread?]
  obtain ⟨metrics, loadBalance, tokens, requests, counts⟩ := r
  cases metrics.reread? <;> simp

/-! ## Decoding -/

theorem decode_share {s : Share} (hexpert : s.expert < UInt64.size) (hcount : s.count < UInt64.size) :
    (Share.ofReading s.toJson.reading).toOption = s.reread? := by
  have hnatural : ∀ n, n < UInt64.size → count64 (Json.ofNat n).reading = .ok n :=
    fun n hn => naturalBelow_ofNat hn (Nat.le_refl _)
  rw [Share.reread?, reread?_eq]
  simp only [Share.toJson, Json.reading, memberReadings, Share.ofReading, foldMembers, ShareSlots.take, fill,
    hnatural _ hexpert, hnatural _ hcount, bind, Except.bind, pure, Except.pure, Except.map]
  cases real (ofReal s.probability).reading <;> rfl

def decodeMetrics (members : List (Key × Reading)) : Except Fault Metrics := do
  (← foldMembers MetricsSlots.take {} none members).metrics

theorem decode_metrics {r : Report} (hr : r.InRange) :
    (decodeMetrics (memberReadings r.metrics.fields)).toOption = r.metrics.reread? := by
  have hnatural : ∀ n, n < UInt64.size → count64 (Json.ofNat n).reading = .ok n :=
    fun n hn => naturalBelow_ofNat hn (Nat.le_refl _)
  have htop : (listOf Share.ofReading (Json.array (r.metrics.top.map Share.toJson)).reading).toOption =
      r.metrics.top.mapM Share.reread? := by
    rw [listOf_array, mapM_toOption]
    exact mapM_congr fun s hs => decode_share (hr.top s hs).1 (hr.top s hs).2
  rw [Metrics.reread?, reread?_eq, reread?_eq, reread?_eq, ← htop]
  simp only [decodeMetrics, Metrics.fields, memberReadings, foldMembers, MetricsSlots.take, fill, hnatural _ hr.total,
    hnatural _ hr.numExperts, bind, Except.bind, pure, Except.pure, Except.map]
  cases listOf Share.ofReading (Json.array (r.metrics.top.map Share.toJson)).reading with
  | error fault => rfl
  | ok top =>
    cases real (ofReal r.metrics.entropy).reading with
    | error fault => rfl
    | ok entropy =>
      cases real (ofReal r.metrics.maxEntropy).reading with
      | error fault => rfl
      | ok maxEntropy => cases real (ofReal r.metrics.normalized).reading <;> rfl

/-- The members of a report that are not metrics. -/
def Report.ownKeys : List String := ["load_balance", "tokens_processed", "requests", "expert_counts"]

theorem memberReadings_append (fields fields' : List (String × Json)) :
    memberReadings (fields ++ fields') = memberReadings fields ++ memberReadings fields' := by
  induction fields with
  | nil => rfl
  | cons f fields ih =>
    obtain ⟨key, v⟩ := f
    rw [List.cons_append, memberReadings, memberReadings, ih, List.cons_append]

theorem ReportSlots.take_other {key : String} (h : key ∉ Report.ownKeys) (s : ReportSlots) (r : Reading) :
    s.take key r = refuse (r.fault? (maxDepth - 1)) (.ok { s with others := (some key, r) :: s.others }) := by
  unfold take
  split
  all_goals first | rfl | exact absurd (by decide) h

/-- Members that are not the report's own and have no fault are put aside. -/
theorem gather_members {fields : List (String × Json)} (hkeys : ∀ f ∈ fields, f.1 ∉ Report.ownKeys)
    (hfaults : ∀ f ∈ fields, f.2.reading.fault? (maxDepth - 1) = none) (s : ReportSlots) (rest : List (Key × Reading)) :
    foldMembers ReportSlots.take s none (memberReadings fields ++ rest) =
      foldMembers ReportSlots.take { s with others := (memberReadings fields).reverse ++ s.others } none rest := by
  induction fields generalizing s with
  | nil => rfl
  | cons f fields ih =>
    obtain ⟨key, v⟩ := f
    obtain ⟨hkey, hkeys⟩ := List.forall_mem_cons.mp hkeys
    obtain ⟨hfault, hfaults⟩ := List.forall_mem_cons.mp hfaults
    have hrest := ih hkeys hfaults { s with others := (some key, v.reading) :: s.others }
    rw [memberReadings, List.cons_append, foldMembers, ReportSlots.take_other hkey, hfault]
    refine hrest.trans ?_
    rw [List.reverse_cons, List.append_assoc]
    rfl

theorem fields_faultless {r : Report} (hr : r.InRange) :
    ∀ f ∈ r.metrics.fields, f.2.reading.fault? (maxDepth - 1) = none := by
  have hshare : ∀ s ∈ r.metrics.top, ∀ depth, s.toJson.reading.fault? (depth + 1) = none := by
    intro s hs depth
    obtain ⟨hexpert, hcount⟩ := hr.top s hs
    simp [Share.toJson, Json.reading, memberReadings, Reading.fault?, membersFault?, fault_ofNat hexpert,
      fault_ofNat hcount, fault_ofReal, wantedFault?]
  have htop : (Json.array (r.metrics.top.map Share.toJson)).reading.fault? (maxDepth - 1) = none := by
    refine fault_array fun v hv => ?_
    obtain ⟨s, hs, rfl⟩ := List.mem_map.mp hv
    exact hshare s hs _
  intro f hf
  simp only [Metrics.fields, List.mem_cons, List.not_mem_nil, or_false] at hf
  rcases hf with rfl | rfl | rfl | rfl | rfl | rfl
  · exact htop
  · exact fault_ofReal _ _
  · exact fault_ofReal _ _
  · exact fault_ofReal _ _
  · exact fault_ofNat hr.total _
  · exact fault_ofNat hr.numExperts _

namespace Report

theorem toJson_sound (r : Report) : r.toJson.Sound := by
  have hshares : ∀ shares : List Share, ItemsSound (shares.map Share.toJson) := by
    intro shares
    induction shares with
    | nil => trivial
    | cons s shares ih => exact ⟨⟨Numeral.ofNat_sound _, Numeral.ofNat_sound _, ofReal_sound _, trivial⟩, ih⟩
  exact ⟨hshares _, ofReal_sound _, ofReal_sound _, ofReal_sound _, Numeral.ofNat_sound _, Numeral.ofNat_sound _,
    trivial, Numeral.ofNat_sound _, Numeral.ofNat_sound _, Record.words_sound _, trivial⟩

theorem loadBalance_ofName (b : LoadBalance) : LoadBalance.ofReading (Json.string b.name).reading = .ok b := by
  cases b <;> decide

/-- The text of a report is decoded as its metrics are. -/
theorem decode_text_eq {r : Report} (hr : r.InRange) :
    decode (r.text.map .char) =
      (decodeMetrics (memberReadings r.metrics.fields)).map fun metrics => { r with metrics } := by
  have hnatural : ∀ n, n < UInt64.size → count64 (Json.ofNat n).reading = .ok n :=
    fun n hn => naturalBelow_ofNat hn (Nat.le_refl _)
  have hcounts : listOf count64 (Json.array (r.counts.map Json.ofNat)).reading = .ok r.counts := by
    rw [listOf_array, mapM_ok (g := id) fun n hn => hnatural n (hr.counts n hn), List.map_id]
  have hkeys : ∀ f ∈ r.metrics.fields, f.1 ∉ ownKeys := by
    simp [Metrics.fields, ownKeys]
  rw [decode, text, decodeText_pretty _ r.toJson_sound (by simp [isSpace])]
  show (do (← foldMembers ReportSlots.take {} none (memberReadings (r.metrics.fields ++ _))).report) = _
  rw [memberReadings_append, gather_members hkeys (fields_faultless hr)]
  simp only [refuse, memberReadings, foldMembers, ReportSlots.take, fill, loadBalance_ofName, hnatural _ hr.tokens,
    hnatural _ hr.requests, hcounts, bind, Except.bind, pure, Except.pure, Except.map, atEnd, wantedFault?,
    Option.map_none, ReportSlots.report, List.append_nil, List.reverse_reverse, required]
  rw [decodeMetrics]
  cases foldMembers MetricsSlots.take {} none (memberReadings r.metrics.fields) with
  | error fault => rfl
  | ok slots => cases slots.metrics <;> rfl

/-- A report is decoded from its text as the report with its reals read again. -/
theorem decode_text {r : Report} (hr : r.InRange) : (decode (r.text.map .char)).toOption = r.reread? := by
  rw [decode_text_eq hr, reread?, ← decode_metrics hr]
  cases decodeMetrics (memberReadings r.metrics.fields) <;> rfl

end Report

end ExpertRouting
