/-
  ExpertRouting.Proofs.Trace.Codec — a record is read back from its line.

  The object of a record is first gathered: its kind is taken and every other member is
  checked (`ofReading_object`), and then the members fill the fields of that kind. So a
  header is read back as itself (`decode_header`), and a route as itself when its weights
  read back (`decode_route`). Written records are as many lines (`Writer.lines_text`), so a
  written trace is parsed as itself (`parse_lines`).
-/

import ExpertRouting.Proofs.Json.Members
import ExpertRouting.Proofs.Json.Number
import ExpertRouting.Proofs.Text.Lines
import ExpertRouting.Proofs.Text.Utf8
import ExpertRouting.Sink.Writer
import ExpertRouting.Trace.Basic

namespace ExpertRouting

open Json

namespace Record

/-! ## Objects -/

/-- A member that is gathered: no kind, and free of faults. -/
def Gatherable (m : Key × Reading) : Prop :=
  ∃ key, m.1 = some key ∧ key ≠ "type" ∧ m.2.fault? (maxDepth - 1) = none

theorem gather_members {members : List (Key × Reading)} (h : ∀ m ∈ members, Gatherable m) (g : Gathered) :
    foldMembers Gathered.take g none members = .ok { g with members := members.reverse ++ g.members } := by
  induction members generalizing g with
  | nil => rfl
  | cons m members ih =>
    obtain ⟨key, r⟩ := m
    obtain ⟨key', rfl, hkey, hfault⟩ := h _ List.mem_cons_self
    have htake : g.take key' r = .ok { g with members := (some key', r) :: g.members } := by
      rw [Gathered.take, if_neg hkey, hfault]
      rfl
    have hrest := ih (fun m hm => h m (List.mem_cons_of_mem _ hm)) { g with members := (some key', r) :: g.members }
    simp only [foldMembers, htake, bind, Except.bind, hrest]
    simp

/-- The kind may stand anywhere among the members. -/
theorem ofReading_object (name : String) {kind : Kind} (hkind : Kind.decode (.string (some name)) = .ok kind)
    {before after : List (Key × Reading)} (hbefore : ∀ m ∈ before, Gatherable m) (hafter : ∀ m ∈ after, Gatherable m) :
    ofReading (.object (before ++ (some "type", .string (some name)) :: after) none) =
      ofMembers kind (before ++ after) := by
  have htag : ∀ members, Gathered.take { members } "type" (.string (some name)) =
      .ok { kind := some kind, members } := by
    intro members
    rw [Gathered.take, if_pos rfl, fill, hkind]
    rfl
  have hrest := gather_members hafter { kind := some kind, members := before.reverse ++ [] }
  simp only [ofReading, foldMembers_append (gather_members hbefore {}), foldMembers, htag, bind, Except.bind, hrest,
    required]
  simp

theorem gatherable_fields {fields : List (String × Json)}
    (hkeys : "type" ∉ fields.map Prod.fst) (hfaults : ∀ f ∈ fields, f.2.reading.fault? (maxDepth - 1) = none) :
    ∀ m ∈ memberReadings fields, Gatherable m := by
  induction fields with
  | nil => intro m hm; cases hm
  | cons f fields ih =>
    obtain ⟨key, v⟩ := f
    have hkey : key ≠ "type" := fun he => hkeys (he ▸ List.mem_cons_self)
    intro m hm
    rcases List.mem_cons.mp hm with rfl | hm
    · exact ⟨key, rfl, hkey, hfaults (key, v) List.mem_cons_self⟩
    · exact ih (fun h => hkeys (List.mem_cons_of_mem _ h)) (fun f hf => hfaults f (List.mem_cons_of_mem _ hf)) m hm

theorem fault_word (n : UInt64) (depth : Nat) : (word n).reading.fault? depth = none := fault_ofNat n.toNat_lt depth

theorem words_sound (ns : List Nat) : ItemsSound (ns.map Json.ofNat) := by
  induction ns with
  | nil => trivial
  | cons n ns ih => exact ⟨Numeral.ofNat_sound n, ih⟩

/-! ## Headers -/

theorem header_sound (h : Header) : (toJson (.header h)).Sound := by
  have hlayers : ItemsSound (h.layersLogged.map word) := by
    rw [show h.layersLogged.map word = (h.layersLogged.map UInt64.toNat).map Json.ofNat by simp [word]]
    exact words_sound _
  have hword : ∀ n, (word n).Sound := fun n => Numeral.ofNat_sound n.toNat
  refine ⟨trivial, trivial, trivial, trivial, trivial, ?_, hlayers, hword _, hword _, trivial⟩
  cases h.seed with
  | none => trivial
  | some s => exact hword s

theorem fault_headerFields {h : Header} {f : String × Json} (hf : f ∈ headerFields h) :
    f.2.reading.fault? (maxDepth - 1) = none := by
  simp only [headerFields, List.mem_cons, List.not_mem_nil, or_false] at hf
  rcases hf with rfl | rfl | rfl | rfl | rfl | rfl | rfl | rfl
  · rfl
  · rfl
  · rfl
  · rfl
  · cases h.seed with
    | none => rfl
    | some s => exact fault_word s _
  · refine fault_array fun v hv => ?_
    obtain ⟨n, -, rfl⟩ := List.mem_map.mp hv
    exact fault_word n _
  · exact fault_word _ _
  · exact fault_word _ _

theorem decode_header (h : Header) : decode ((Record.header h).text.map .char) = .ok (.header h) := by
  rw [decode, text, decodeText_compact _ (header_sound h)]
  have hgather : ∀ m ∈ memberReadings (headerFields h), Gatherable m :=
    gatherable_fields (by simp [headerFields]) fun f hf => fault_headerFields hf
  have hnone : ∀ m ∈ ([] : List (Key × Reading)), Gatherable m := fun m hm => nomatch hm
  refine (ofReading_object "meta" rfl hnone hgather).trans ?_
  have hword : ∀ n, word64 (word n).reading = .ok n := word64_ofNat
  have hlayers : listOf word64 (.array (itemReadings (h.layersLogged.map word)) none) = .ok h.layersLogged :=
    listOf_words hword _
  have hnone : nullable word64 .null = .ok none := rfl
  have hsome : ∀ s, nullable word64 (word s).reading = .ok (some s) := by
    intro s
    show (word64 (word s).reading).map some = _
    rw [hword]
    rfl
  obtain ⟨modelId, engineVersion, runtimeVersion, device, seed, layersLogged, topK, numExperts⟩ := h
  cases seed <;>
    simp [ofMembers, headerFields, memberReadings, foldMembers, HeaderSlots.take, fill, bind, Except.bind, pure,
      Except.pure, Except.map, Json.reading, Json.text, hword, hlayers, hnone, hsome, atEnd, refuse, wantedFault?,
      HeaderSlots.header, required]

/-! ## Routes -/

theorem route_sound (r : Route) : (toJson (.route r)).Sound := by
  have hexperts : ItemsSound (r.experts.map fun e => Json.ofNat e.toNat) := by
    rw [show (r.experts.map fun e => Json.ofNat e.toNat) = (r.experts.map UInt32.toNat).map Json.ofNat by simp]
    exact words_sound _
  have hweights : ∀ ws : List Real64, ItemsSound (ws.map Json.ofReal) := by
    intro ws
    induction ws with
    | nil => trivial
    | cons w ws ih => exact ⟨ofReal_sound w, ih⟩
  exact ⟨trivial, trivial, Numeral.ofNat_sound _, Numeral.ofNat_sound _, hexperts, hweights _, trivial⟩

theorem fault_routeFields {r : Route} {f : String × Json} (hf : f ∈ routeFields r) :
    f.2.reading.fault? (maxDepth - 1) = none := by
  simp only [routeFields, List.mem_cons, List.not_mem_nil, or_false] at hf
  rcases hf with rfl | rfl | rfl | rfl | rfl
  · rfl
  · exact fault_word _ _
  · exact fault_word _ _
  · refine fault_array fun v hv => ?_
    obtain ⟨e, -, rfl⟩ := List.mem_map.mp hv
    exact fault_ofNat (Nat.lt_trans e.toNat_lt (by decide)) _
  · refine fault_array fun v hv => ?_
    obtain ⟨w, hw, rfl⟩ := List.mem_map.mp hv
    exact fault_ofReal w _

/-- A route is decoded but for its weights, and those one by one. -/
theorem decode_route_eq (r : Route) :
    decode ((Record.route r).text.map .char) =
      (r.weights.mapM fun w => real (ofReal w).reading).map fun weights => .route { r with weights } := by
  rw [decode, text, decodeText_compact _ (route_sound r)]
  have hgather : ∀ m ∈ memberReadings (routeFields r), Gatherable m :=
    gatherable_fields (by simp [routeFields]) fun f hf => fault_routeFields hf
  have hnone : ∀ m ∈ ([] : List (Key × Reading)), Gatherable m := fun m hm => nomatch hm
  refine (ofReading_object "route" rfl hnone hgather).trans ?_
  have hword : ∀ n, word64 (word n).reading = .ok n := word64_ofNat
  have hexperts : listOf word32 (.array (itemReadings (r.experts.map fun e => Json.ofNat e.toNat)) none) =
      .ok r.experts := listOf_words word32_ofNat _
  have hweights : listOf real (.array (itemReadings (r.weights.map Json.ofReal)) none) =
      r.weights.mapM fun w => real (ofReal w).reading := listOf_array real Json.ofReal _
  simp only [List.nil_append, ofMembers, routeFields, memberReadings, foldMembers, RouteSlots.take, fill, bind,
    Except.bind, pure, Except.pure, Except.map, Json.reading, Json.text, hword, hexperts, hweights]
  cases r.weights.mapM fun w => real (ofReal w).reading <;> rfl

theorem decode_route {r : Route} (h : ∀ w ∈ r.weights, ReadsBack w) :
    decode ((Record.route r).text.map .char) = .ok (.route r) := by
  rw [decode_route_eq, mapM_ok (g := id) fun w hw => (h w hw).real, List.map_id]
  rfl

theorem decode_route_iff (r : Route) :
    (∃ r', decode ((Record.route r).text.map .char) = .ok (.route r')) ↔ ∀ w ∈ r.weights, w.isFinite = true := by
  rw [decode_route_eq]
  have hfinite : (∀ w ∈ r.weights, w.isFinite = true) ↔
      ∃ ws, (r.weights.mapM fun w => real (ofReal w).reading) = .ok ws := by
    rw [mapM_isOk]
    exact forall₂_congr fun w _ => (real_ofReal_iff w).symm
  rw [hfinite]
  cases r.weights.mapM fun w => real (ofReal w).reading <;> simp [Except.map]

/-! ## Lines -/

theorem moreMembers_getLast (members : List (String × Json)) : (compactMoreMembers members).getLast? = some '\x7d' := by
  induction members with
  | nil => rfl
  | cons m members ih =>
    obtain ⟨key, v⟩ := m
    simp [compactMoreMembers, List.getLast?_cons, List.getLast?_append, ih]

theorem object_ends (members : List (String × Json)) :
    (Json.object members).compact.head? = some '\x7b' ∧ (Json.object members).compact.getLast? = some '\x7d' := by
  cases members with
  | nil => exact ⟨rfl, rfl⟩
  | cons m members =>
    obtain ⟨key, v⟩ := m
    refine ⟨rfl, ?_⟩
    simp [compact, compactMembers, List.getLast?_cons, List.getLast?_append, moreMembers_getLast]

/-- The text of a record is an object from its first character to its last. -/
theorem text_ends (r : Record) : r.text.head? = some '\x7b' ∧ r.text.getLast? = some '\x7d' := by
  cases r with
  | header h => exact object_ends _
  | route r => exact object_ends _

theorem trim_text (r : Record) : Text.trim r.text = r.text := by
  obtain ⟨hhead, hlast⟩ := text_ends r
  refine Text.trim_eq_self ?_ ?_
  · rw [hhead]
    rintro c ⟨⟩
    decide
  · rw [hlast]
    rintro c ⟨⟩
    decide

end Record

theorem Trace.readLine_text (number : Nat) (r : Record) :
    readLine number (r.text.map .char) = match Record.decode (r.text.map .char) with
      | .ok r => .ok (some r)
      | .error fault => .error (.malformed number fault) := by
  have hne : ∃ c cs, r.text = c :: cs := by
    cases h : r.text with
    | nil => have := (Record.text_ends r).1; rw [h] at this; cases this
    | cons c cs => exact ⟨c, cs, rfl⟩
  simp only [readLine, Utf8.chars_map, Record.trim_text]
  generalize r.text = cs at hne
  obtain ⟨c, rest, rfl⟩ := hne
  rfl

/-- The line of a route holds a route exactly when its weights are finite. -/
theorem Trace.readLine_route_iff (r : Route) (number : Nat) :
    (∃ r', readLine number ((Record.route r).text.map .char) = .ok (some (.route r'))) ↔
      ∀ w ∈ r.weights, w.isFinite = true := by
  rw [← Record.decode_route_iff r, readLine_text]
  cases Record.decode ((Record.route r).text.map .char) <;> simp

theorem Writer.decode_lines (records : List Record) :
    Utf8.decode (Writer.lines records) = (records.flatMap fun r => r.text ++ ['\n']).map .char := by
  have hbytes : Writer.lines records = Utf8.encode (records.flatMap fun r => r.text ++ ['\n']) := by
    unfold Writer.lines Utf8.encode
    rw [List.flatMap_assoc]
    rfl
  rw [hbytes, Utf8.decode_encode]

theorem Writer.lines_text (records : List Record) :
    Text.lines (Utf8.decode (Writer.lines records)) = records.map fun r => r.text.map .char := by
  have hended : (records.flatMap fun r => r.text ++ ['\n']).map Symbol.char =
      (records.map fun r => r.text.map .char).flatMap (· ++ [.char '\n']) := by
    simp [List.map_flatMap, List.flatMap_map]
  rw [Writer.decode_lines, hended]
  refine Text.lines_ended fun l hl => ?_
  obtain ⟨r, -, rfl⟩ := List.mem_map.mp hl
  intro hmem
  obtain ⟨c, hc, heq⟩ := List.mem_map.mp hmem
  cases heq
  exact newline_not_mem_compact _ hc

/-- Two records or more are not one value, so nothing is decoded from their lines at once. -/
theorem Writer.lines_not_decoded {α : Type} (decode : Decoder α) (r r' : Record) (records : List Record) (a : α) :
    decodeText decode (Utf8.decode (Writer.lines (r :: r' :: records))) ≠ .ok a := by
  have hsound : r.toJson.Sound := by
    cases r with
    | header h => exact Record.header_sound h
    | route r => exact Record.route_sound r
  obtain ⟨hhead, -⟩ := r'.text_ends
  obtain ⟨rest, hrest⟩ : ∃ rest, r'.text = '\x7b' :: rest := by
    cases htext : r'.text with
    | nil =>
      rw [htext] at hhead
      cases hhead
    | cons c rest =>
      rw [htext] at hhead
      cases hhead
      exact ⟨rest, rfl⟩
  have htext : ∃ more, Utf8.decode (Writer.lines (r :: r' :: records)) =
      r.toJson.compact.map .char ++ .char '\n' :: .char '\x7b' :: more := by
    refine ⟨(rest ++ '\n' :: records.flatMap fun r => r.text ++ ['\n']).map .char, ?_⟩
    rw [Writer.decode_lines, List.flatMap_cons, List.flatMap_cons, hrest]
    simp [Record.text]
  obtain ⟨more, hmore⟩ := htext
  have hdelimited : Delimited (.char '\n' :: .char '\x7b' :: more) := ⟨rfl, by decide, by decide, by decide⟩
  have hbetween : step .between (.char '\n') = .on [] .between := rfl
  -- the first record is read to its end, and the bracket of the second one follows it
  have hread : read (Utf8.decode (Writer.lines (r :: r' :: records))) = ⟨r.toJson.reading, true⟩ := by
    rw [hmore, Json.read, tokens, scan_compact _ hsound _ hdelimited,
      scan_on hbetween, List.nil_append, scan_mark (t := .beginObject) rfl, readFrom_spelled]
    rfl
  rw [decodeText, hread]
  cases decode r.toJson.reading with
  | error fault =>
    intro h
    cases h
  | ok b =>
    intro h
    cases h

namespace Trace

end Trace

end ExpertRouting
