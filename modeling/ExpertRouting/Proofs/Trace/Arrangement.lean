/-
  ExpertRouting.Proofs.Trace.Arrangement — a record is what its members say, in any order.

  The object of a record may be arranged in many ways (`Record.Arranged`): its members in any
  order, the kind among them, the two version fields under their second names, a seed that is
  none left out, and members of other names in between, of any depth and size that the reader
  takes. It is decoded as the record from any of its texts: the kind is found wherever it
  stands (`ofReading_object`), and the members fill the fields that they name
  (`HeaderSlots.fills`, `RouteSlots.fills`).

  The kind and the fields of the kind may stand once, under whichever name
  (`Gathered.refuses`, `HeaderSlots.refuses`, `RouteSlots.refuses`). Both halves together are
  `decoding_ignores_arrangement_and_refuses_repeats`.
-/

import ExpertRouting.Proofs.Json.Spelling
import ExpertRouting.Proofs.Trace.Codec

namespace ExpertRouting

open Json

/-! ## Fields by their names -/

/-- The field of a header that a member of this name fills. -/
def Header.field? : String → Option String
  | "model_id" => some "model_id"
  | "engine_version" | "vllm_version" => some "engine_version"
  | "runtime_version" | "torch_version" => some "runtime_version"
  | "device" => some "device"
  | "seed" => some "seed"
  | "layers_logged" => some "layers_logged"
  | "top_k" => some "top_k"
  | "num_experts" => some "num_experts"
  | _ => none

def Route.field? : String → Option String
  | "req_id" => some "req_id"
  | "token_idx" => some "token_idx"
  | "layer" => some "layer"
  | "topk_ids" => some "topk_ids"
  | "topk_weights" => some "topk_weights"
  | _ => none

namespace Record

def Kind.name : Kind → String
  | .header => "meta"
  | .route => "route"

theorem Kind.decode_name (kind : Kind) : Kind.decode (.string (some kind.name)) = .ok kind := by
  cases kind <;> rfl

def Kind.field? : Kind → String → Option String
  | .header => Header.field?
  | .route => Route.field?

theorem Kind.field_type (kind : Kind) : kind.field? "type" = none := by
  cases kind <;> rfl

def kind : Record → Kind
  | .header _ => .header
  | .route _ => .route

def fields : Record → List (String × Json)
  | .header h => headerFields h
  | .route r => routeFields r

theorem fields_named {r : Record} {f : String × Json} (hf : f ∈ r.fields) : r.kind.field? f.1 = some f.1 := by
  cases r with
  | header h =>
    simp only [fields, headerFields, List.mem_cons, List.not_mem_nil, or_false] at hf
    rcases hf with rfl | rfl | rfl | rfl | rfl | rfl | rfl | rfl <;> rfl
  | route r =>
    simp only [fields, routeFields, List.mem_cons, List.not_mem_nil, or_false] at hf
    rcases hf with rfl | rfl | rfl | rfl | rfl <;> rfl

theorem fields_distinct (r : Record) : (r.fields.map Prod.fst).Nodup := by
  cases r with
  | header h => simp [fields, headerFields]
  | route r => simp [fields, routeFields]

theorem fields_ne_type {r : Record} {f : String × Json} (hf : f ∈ r.fields) : f.1 ≠ "type" := by
  intro he
  have hnamed := fields_named hf
  rw [he, Kind.field_type] at hnamed
  cases hnamed

theorem fault_fields {r : Record} {f : String × Json} (hf : f ∈ r.fields) :
    f.2.reading.fault? (maxDepth - 1) = none := by
  cases r with
  | header h => exact fault_headerFields hf
  | route r => exact fault_routeFields hf

theorem decode_seed {h : Header} {v : Json} (hv : ("seed", v) ∈ headerFields h) :
    nullable word64 v.reading = .ok h.seed := by
  simp only [headerFields, List.mem_cons, Prod.mk.injEq, String.reduceEq, false_and, true_and, false_or,
    List.not_mem_nil, or_false] at hv
  subst hv
  cases h.seed with
  | none => rfl
  | some s =>
    show (word64 (word s).reading).map some = _
    rw [word, word64_ofNat]
    rfl

end Record

/-! ## Headers -/

namespace HeaderSlots

def seen (h : Header) (met : List String) : HeaderSlots where
  modelId := slot met "model_id" h.modelId
  engineVersion := slot met "engine_version" h.engineVersion
  runtimeVersion := slot met "runtime_version" h.runtimeVersion
  device := slot met "device" h.device
  seed := slot met "seed" h.seed
  layersLogged := slot met "layers_logged" h.layersLogged
  topK := slot met "top_k" h.topK
  numExperts := slot met "num_experts" h.numExperts

theorem fills (h : Header) : Fills take Header.field? (Record.headerFields h) (seen h) where
  known := by
    intro met key field v hfield hv hnew
    have htext : ∀ s : String, Json.text (Json.string s).reading = .ok s := fun _ => rfl
    have hword : ∀ n, word64 (Record.word n).reading = .ok n := word64_ofNat
    have hlayers : listOf word64 (Json.array (h.layersLogged.map Record.word)).reading = .ok h.layersLogged :=
      listOf_words hword _
    have hseed : field = "seed" → nullable word64 v.reading = .ok h.seed := fun he => Record.decode_seed (he ▸ hv)
    unfold Header.field? at hfield
    -- one case for each name: it decides the value and the slot that is filled
    split at hfield <;> cases hfield <;> simp [Record.headerFields] at hv <;> subst hv <;>
      simp [take, seen, fill_slot hnew, slot_met, slot_other, htext, hword, hlayers, hseed, bind, Except.bind, pure,
        Except.pure]
  unknown := by
    intro s key r hfield
    unfold Header.field? at hfield
    split at hfield <;> try cases hfield
    unfold take
    split <;> simp_all

/-- The header is complete when all its fields have been met, but for a seed that is none. -/
theorem header_seen {h : Header} {met : List String}
    (hall : ∀ field ∈ (Record.headerFields h).map Prod.fst, field ∈ met ∨ field = "seed" ∧ h.seed = none) :
    (seen h met).header = .ok h := by
  have hseed : (slot met "seed" h.seed).getD none = h.seed := by
    by_cases hin : "seed" ∈ met
    · rw [slot_met hin, Option.getD_some]
    · have hnone := ((hall "seed" (by simp [Record.headerFields])).resolve_left hin).2
      rw [slot, if_neg hin, hnone]
      rfl
  simp [Record.headerFields] at hall
  obtain ⟨hmodel, hengine, hruntime, hdevice, -, hlayers, htopK, hexperts⟩ := hall
  simp [header, seen, hseed, slot_met, hmodel, hengine, hruntime, hdevice, hlayers, htopK, hexperts, required, bind,
    Except.bind, pure, Except.pure]

def met (s : HeaderSlots) : String → Bool
  | "model_id" => s.modelId.isSome
  | "engine_version" => s.engineVersion.isSome
  | "runtime_version" => s.runtimeVersion.isSome
  | "device" => s.device.isSome
  | "seed" => s.seed.isSome
  | "layers_logged" => s.layersLogged.isSome
  | "top_k" => s.topK.isSome
  | "num_experts" => s.numExperts.isSome
  | _ => false

theorem refuses : Refuses take Header.field? met := by
  refine .of_steps fun hstep => ?_
  unfold take at hstep
  split at hstep
  case h_11 =>
    refine .inl ⟨?_, by rw [refuse_ok hstep]⟩
    simp_all [Header.field?]
  all_goals
    obtain ⟨hnone, a, -, rfl⟩ := fill_step hstep
    refine .inr ⟨_, rfl, by simp [met, hnone], fun f => ?_⟩
    unfold met
    split <;> simp_all

end HeaderSlots

/-! ## Routes -/

namespace RouteSlots

def seen (r : Route) (met : List String) : RouteSlots where
  requestId := slot met "req_id" r.requestId
  token := slot met "token_idx" r.token
  layer := slot met "layer" r.layer
  experts := slot met "topk_ids" r.experts
  weights := slot met "topk_weights" r.weights

theorem fills {r : Route} (hweights : ∀ w ∈ r.weights, ReadsBack w) :
    Fills take Route.field? (Record.routeFields r) (seen r) where
  known := by
    intro met key field v hfield hv hnew
    have htext : ∀ s : String, Json.text (Json.string s).reading = .ok s := fun _ => rfl
    have hword : ∀ n, word64 (Record.word n).reading = .ok n := word64_ofNat
    have hexperts : listOf word32 (Json.array (r.experts.map fun e => Json.ofNat e.toNat)).reading = .ok r.experts :=
      listOf_words word32_ofNat _
    have hreals : listOf real (Json.array (r.weights.map Json.ofReal)).reading = .ok r.weights := by
      rw [listOf_array, mapM_ok (g := id) fun w hw => (hweights w hw).real, List.map_id]
    unfold Route.field? at hfield
    split at hfield <;> cases hfield <;> simp [Record.routeFields] at hv <;> subst hv <;>
      simp [take, seen, fill_slot hnew, slot_met, slot_other, htext, hword, hexperts, hreals, bind, Except.bind, pure,
        Except.pure]
  unknown := by
    intro s key r hfield
    unfold Route.field? at hfield
    split at hfield <;> try cases hfield
    unfold take
    split <;> simp_all

theorem route_seen {r : Route} {met : List String}
    (hall : ∀ field ∈ (Record.routeFields r).map Prod.fst, field ∈ met) : (seen r met).route = .ok r := by
  simp [Record.routeFields] at hall
  obtain ⟨hrequest, htoken, hlayer, hexperts, hweights⟩ := hall
  simp [route, seen, slot_met, hrequest, htoken, hlayer, hexperts, hweights, required, bind, Except.bind, pure,
    Except.pure]

def met (s : RouteSlots) : String → Bool
  | "req_id" => s.requestId.isSome
  | "token_idx" => s.token.isSome
  | "layer" => s.layer.isSome
  | "topk_ids" => s.experts.isSome
  | "topk_weights" => s.weights.isSome
  | _ => false

theorem refuses : Refuses take Route.field? met := by
  refine .of_steps fun hstep => ?_
  unfold take at hstep
  split at hstep
  case h_6 =>
    refine .inl ⟨?_, by rw [refuse_ok hstep]⟩
    simp_all [Route.field?]
  all_goals
    obtain ⟨hnone, a, -, rfl⟩ := fill_step hstep
    refine .inr ⟨_, rfl, by simp [met, hnone], fun f => ?_⟩
    unfold met
    split <;> simp_all

end RouteSlots

/-! ## Records -/

namespace Record

/-- Members that name each field of a record once make the record, whatever else is among them. -/
theorem ofMembers_arranged {r : Record} (hweights : ∀ route, r = .route route → ∀ w ∈ route.weights, ReadsBack w)
    {members : List (String × Json)}
    (hknown : ∀ m ∈ members, ∀ field, r.kind.field? m.1 = some field → (field, m.2) ∈ r.fields)
    (hdistinct : (members.filterMap fun m => r.kind.field? m.1).Nodup)
    (hall : ∀ field ∈ r.fields.map Prod.fst, field ∈ (members.filterMap fun m => r.kind.field? m.1) ∨
      field = "seed" ∧ ∃ h, r = .header h ∧ h.seed = none) :
    ofMembers r.kind (memberReadings members) = .ok r := by
  cases r with
  | header h =>
    have hwalk := (HeaderSlots.fills h).run [] hknown hdistinct fun field _ => List.not_mem_nil
    have hheader :
        (HeaderSlots.seen h ((members.filterMap fun m => Header.field? m.1).reverse ++ [])).header = .ok h := by
      refine HeaderSlots.header_seen fun field hfield => ?_
      rw [List.append_nil, List.mem_reverse]
      refine (hall field hfield).imp_right ?_
      rintro ⟨hseed, h', hh, hnone⟩
      cases hh
      exact ⟨hseed, hnone⟩
    simp only [kind, ofMembers, bind, Except.bind, pure, Except.pure]
    rw [show ({} : HeaderSlots) = HeaderSlots.seen h [] from rfl, hwalk]
    simp only [hheader]
  | route r =>
    have hwalk := (RouteSlots.fills (hweights r rfl)).run [] hknown hdistinct fun field _ => List.not_mem_nil
    have hroute : (RouteSlots.seen r ((members.filterMap fun m => Route.field? m.1).reverse ++ [])).route = .ok r := by
      refine RouteSlots.route_seen fun field hfield => ?_
      rw [List.append_nil, List.mem_reverse]
      refine (hall field hfield).resolve_right ?_
      rintro ⟨-, h, hh, -⟩
      cases hh
    simp only [kind, ofMembers, bind, Except.bind, pure, Except.pure]
    rw [show ({} : RouteSlots) = RouteSlots.seen r [] from rfl, hwalk]
    simp only [hroute]

/-! ## Arrangements -/

/-- A member, perhaps under the second name of its field. -/
inductive Renamed : String × Json → String × Json → Prop
  | same (m : String × Json) : Renamed m m
  | engineVersion (v : Json) : Renamed ("engine_version", v) ("vllm_version", v)
  | runtimeVersion (v : Json) : Renamed ("runtime_version", v) ("torch_version", v)

/-- The fields that are kept: all of them, or all but a seed that is none. -/
inductive Kept : Record → List (String × Json) → Prop
  | all (r : Record) : Kept r r.fields
  | withoutSeed {h : Header} : h.seed = none → Kept (.header h) ((headerFields h).filter fun f => f.1 ≠ "seed")

/-- A member of a name that this kind does not know, whose value can be read in an object. -/
structure Extra (kind : Kind) (m : String × Json) : Prop where
  unknown : m.1 ≠ "type" ∧ kind.field? m.1 = none
  depth : m.2.depth ≤ maxDepth - 1
  range : m.2.InRange

def Arranged (r : Record) (members : List (String × Json)) : Prop :=
  ∃ kept own extra, r.Kept kept ∧ List.Forall₂ Renamed kept own ∧ (∀ m ∈ extra, Extra r.kind m) ∧
    members.Perm (("type", .string r.kind.name) :: (own ++ extra))

theorem Renamed.field {a b : String × Json} (h : Renamed a b) (kind : Kind) : kind.field? b.1 = kind.field? a.1 := by
  cases h <;> cases kind <;> rfl

theorem Renamed.value {a b : String × Json} (h : Renamed a b) : b.2 = a.2 := by
  cases h <;> rfl

theorem Renamed.ne_type {a b : String × Json} (h : Renamed a b) (ha : a.1 ≠ "type") : b.1 ≠ "type" := by
  cases h with
  | same => exact ha
  | engineVersion v => exact (by decide : "vllm_version" ≠ "type")
  | runtimeVersion v => exact (by decide : "torch_version" ≠ "type")

theorem Kept.sublist {r : Record} {kept : List (String × Json)} (h : r.Kept kept) : kept.Sublist r.fields := by
  cases h with
  | all => exact List.Sublist.refl _
  | withoutSeed hseed => exact List.filter_sublist

theorem Kept.covers {r : Record} {kept : List (String × Json)} (h : r.Kept kept) :
    ∀ field ∈ r.fields.map Prod.fst,
      field ∈ kept.map Prod.fst ∨ field = "seed" ∧ ∃ h, r = .header h ∧ h.seed = none := by
  intro field hfield
  cases h with
  | all => exact .inl hfield
  | withoutSeed hseed =>
    rename_i h
    by_cases he : field = "seed"
    · exact .inr ⟨he, h, rfl, hseed⟩
    · obtain ⟨f, hf, rfl⟩ := List.mem_map.mp hfield
      exact .inl (List.mem_map.mpr ⟨f, List.mem_filter.mpr ⟨hf, decide_eq_true he⟩, rfl⟩)

theorem own_mem {kept own : List (String × Json)} (h : List.Forall₂ Renamed kept own) {m : String × Json}
    (hm : m ∈ own) : ∃ f ∈ kept, Renamed f m := by
  induction h with
  | nil => cases hm
  | cons hrenamed _ ih =>
    rcases List.mem_cons.mp hm with rfl | hm
    · exact ⟨_, List.mem_cons_self, hrenamed⟩
    · obtain ⟨f, hf, hfm⟩ := ih hm
      exact ⟨f, List.mem_cons_of_mem _ hf, hfm⟩

theorem own_named {r : Record} {kept own : List (String × Json)} (h : List.Forall₂ Renamed kept own)
    (hkept : ∀ f ∈ kept, f ∈ r.fields) : (own.filterMap fun m => r.kind.field? m.1) = kept.map Prod.fst := by
  induction h with
  | nil => rfl
  | cons hrenamed _ ih =>
    obtain ⟨hf, hrest⟩ := List.forall_mem_cons.mp hkept
    have hfield := (hrenamed.field r.kind).trans (fields_named hf)
    rw [List.filterMap_cons, hfield, ih hrest, List.map_cons]

theorem ofReading_arranged {r : Record} (hweights : ∀ route, r = .route route → ∀ w ∈ route.weights, ReadsBack w)
    {members : List (String × Json)} (h : r.Arranged members) : ofReading (Json.object members).reading = .ok r := by
  obtain ⟨kept, own, extra, hkept, hrenamed, hextra, hperm⟩ := h
  have hfields : ∀ f ∈ kept, f ∈ r.fields := fun f hf => hkept.sublist.subset hf
  obtain ⟨before, after, rfl⟩ := List.append_of_mem (hperm.mem_iff.mpr List.mem_cons_self)
  have hrest : (before ++ after).Perm (own ++ extra) := (List.perm_middle.symm.trans hperm).cons_inv
  -- what any member but the kind is: a field under one of its names, or one more
  have hmember : ∀ m ∈ before ++ after, (∃ f ∈ r.fields, Renamed f m) ∨ Extra r.kind m := by
    intro m hm
    rcases List.mem_append.mp (hrest.mem_iff.mp hm) with hown | hm
    · obtain ⟨f, hf, hfm⟩ := own_mem hrenamed hown
      exact .inl ⟨f, hfields f hf, hfm⟩
    · exact .inr (hextra m hm)
  have hsound : ∀ m ∈ before ++ after, m.1 ≠ "type" ∧ m.2.reading.fault? (maxDepth - 1) = none := by
    intro m hm
    rcases hmember m hm with ⟨f, hf, hfm⟩ | hm
    · exact ⟨hfm.ne_type (fields_ne_type hf), hfm.value ▸ fault_fields hf⟩
    · exact ⟨hm.unknown.1, fault_none hm.depth hm.range⟩
  have hgather : ∀ part, part ⊆ before ++ after → ∀ m ∈ memberReadings part, Gatherable m := by
    intro part hpart
    refine gatherable_fields ?_ fun f hf => (hsound f (hpart hf)).2
    intro hin
    obtain ⟨f, hf, he⟩ := List.mem_map.mp hin
    exact (hsound f (hpart hf)).1 he
  have hnames : ((before ++ after).filterMap fun m => r.kind.field? m.1).Perm (kept.map Prod.fst) := by
    have hnone : (extra.filterMap fun m => r.kind.field? m.1) = [] :=
      List.filterMap_eq_nil_iff.mpr fun m hm => (hextra m hm).unknown.2
    have hown : ((own ++ extra).filterMap fun m => r.kind.field? m.1) = kept.map Prod.fst := by
      rw [List.filterMap_append, hnone, List.append_nil, own_named hrenamed hfields]
    rw [← hown]
    exact hrest.filterMap _
  have hsplit : (Json.object (before ++ ("type", .string r.kind.name) :: after)).reading =
      .object (memberReadings before ++ (some "type", .string (some r.kind.name)) :: memberReadings after) none := by
    simp [reading, memberReadings_eq_map]
  have hjoin : memberReadings before ++ memberReadings after = memberReadings (before ++ after) := by
    simp [memberReadings_eq_map]
  rw [hsplit, ofReading_object _ r.kind.decode_name (hgather before (List.subset_append_left _ _))
    (hgather after (List.subset_append_right _ _)), hjoin]
  refine ofMembers_arranged hweights ?_ ?_ ?_
  · intro m hm field hfield
    rcases hmember m hm with ⟨f, hf, hfm⟩ | hm
    · rw [hfm.field, fields_named hf] at hfield
      obtain rfl := Option.some.inj hfield
      rw [hfm.value]
      exact hf
    · rw [hm.unknown.2] at hfield
      cases hfield
  · exact hnames.nodup_iff.mpr ((hkept.sublist.map _).nodup r.fields_distinct)
  · intro field hfield
    exact (hkept.covers field hfield).imp_left fun hin => hnames.mem_iff.mpr hin

/-! ## Repeated members -/

def tag? (key : String) : Option String := if key = "type" then some key else none

theorem Gathered.refuses : Refuses take tag? fun g field => field == "type" && g.kind.isSome := by
  refine .of_steps fun {g g' key r} hstep => ?_
  by_cases hkey : key = "type"
  · rw [take, if_pos hkey] at hstep
    obtain ⟨hnone, kind, -, rfl⟩ := fill_step hstep
    refine .inr ⟨key, if_pos hkey, by rw [hnone, Option.isSome_none, Bool.and_false], fun f => ?_⟩
    simp [hkey, hnone]
  · rw [take, if_neg hkey] at hstep
    exact .inl ⟨if_neg hkey, by rw [refuse_ok hstep]⟩

theorem gathered {g g' : Gathered} {members : List (Key × Reading)} {stop : Option Break}
    (h : foldMembers Gathered.take g stop members = .ok g') :
    g'.members = (members.filter fun m => m.1 ≠ some "type").reverse ++ g.members ∧
      (∀ kind, g.kind = some kind → g'.kind = some kind) ∧
      ∀ r kind, (some "type", r) ∈ members → Kind.decode r = .ok kind → g'.kind = some kind := by
  induction members generalizing g with
  | nil =>
    have hend := refuse_ok h
    subst hend
    exact ⟨rfl, fun kind hkind => hkind, fun r kind hr => nomatch hr⟩
  | cons m members ih =>
    obtain ⟨key, r⟩ := m
    cases key with
    | none => cases h
    | some key =>
      rw [foldMembers] at h
      obtain ⟨next, hstep, hrest⟩ := bind_ok h
      obtain ⟨hmembers, hkept, hfound⟩ := ih hrest
      by_cases hkey : key = "type"
      · subst hkey
        rw [Gathered.take, if_pos rfl] at hstep
        obtain ⟨hnone, first, hdecode, rfl⟩ := fill_step hstep
        refine ⟨by simpa using hmembers, fun kind hkind => ?_, fun r' kind hr' hkind => ?_⟩
        · rw [hnone] at hkind
          cases hkind
        · rcases List.mem_cons.mp hr' with heq | hr'
          · cases heq
            rw [hdecode] at hkind
            cases hkind
            exact hkept _ rfl
          · exact hfound r' kind hr' hkind
      · rw [Gathered.take, if_neg hkey] at hstep
        obtain rfl := refuse_ok hstep
        refine ⟨?_, hkept, fun r' kind hr' hkind => ?_⟩
        · rw [hmembers]
          simp [hkey]
        · rcases List.mem_cons.mp hr' with heq | hr'
          · cases heq
            exact absurd rfl hkey
          · exact hfound r' kind hr' hkind

theorem named_filter {field? : String → Option String} (h : field? "type" = none) (members : List (Key × Reading)) :
    named field? (members.filter fun m => m.1 ≠ some "type") = named field? members := by
  unfold named
  rw [List.filterMap_filter]
  refine List.filterMap_congr fun m _ => ?_
  by_cases hm : m.1 = some "type"
  · simp [hm, h]
  · simp [hm]

/-- The fields of a record's kind stand once each. -/
theorem ofMembers_distinct {kind : Kind} {members : List (Key × Reading)} {r : Record}
    (h : ofMembers kind members = .ok r) : (named kind.field? members).Nodup := by
  cases kind with
  | header =>
    obtain ⟨slots, hwalk, -⟩ := bind_ok h
    exact (HeaderSlots.refuses.nodup hwalk).1
  | route =>
    obtain ⟨slots, hwalk, -⟩ := bind_ok h
    exact (RouteSlots.refuses.nodup hwalk).1

/-- Among the members of an object the kind stands twice, or a field of its kind, under the same
    name or both. -/
def Repeats (members : List (Key × Reading)) : Prop :=
  ¬(named tag? members).Nodup ∨
    ∃ kind : Kind, (some "type", .string (some kind.name)) ∈ members ∧ ¬(named kind.field? members).Nodup

theorem ofReading_repeats {members : List (Key × Reading)} (h : Repeats members) (stop : Option Break) :
    ∃ fault, ofReading (.object members stop) = .error fault := by
  cases hread : ofReading (.object members stop) with
  | error fault => exact ⟨fault, rfl⟩
  | ok r =>
    rw [ofReading] at hread
    obtain ⟨g, hwalk, hrecord⟩ := bind_ok hread
    obtain ⟨kind, hkind, hfields⟩ := bind_ok hrecord
    obtain ⟨hmembers, -, hfound⟩ := gathered hwalk
    rcases h with htwice | ⟨kind', hin, htwice⟩
    · exact absurd (Gathered.refuses.nodup hwalk).1 htwice
    · rw [hfound _ kind' hin kind'.decode_name] at hkind
      cases hkind
      have hdistinct := ofMembers_distinct hfields
      rw [hmembers, List.append_nil, List.reverse_reverse, named_filter (Kind.field_type _)] at hdistinct
      exact absurd hdistinct htwice

/-- A record whose weights read back is decoded from every text of its object that rearranges the
    members: in any order with the kind anywhere, the version fields under their second names or
    not, a seed that is none left out or null, members of names that the kind does not know in
    between, with any value that is no deeper than the reader goes and has no number out of
    range, and white space around every token. An object in which the kind or a field of its
    kind stands twice, the second time perhaps under its other name, is refused, whatever else
    it holds. A value is what the grammar spells; half a surrogate pair is no character of it. -/
theorem decoding_ignores_arrangement_and_refuses_repeats :
    (∀ {r : Record} {members : List (String × Json)} {cs before after : List Char},
        (∀ route, r = .route route → ∀ w ∈ route.weights, ReadsBack w) → r.Arranged members →
        ValueText (.object members) cs → Space before → Space after →
        decode ((before ++ (cs ++ after)).map .char) = .ok r) ∧
      ∀ {text : List Symbol} {members : List (Key × Reading)} {stop : Option Break},
        (Json.read text).value = .object members stop → Repeats members → ∃ fault, decode text = .error fault := by
  constructor
  · intro r members cs before after hweights harranged htext hbefore hafter
    rw [decode, decodeText_valueText ofReading htext hbefore hafter, ofReading_arranged hweights harranged]
  · intro text members stop hread hrepeats
    obtain ⟨fault, hfault⟩ := ofReading_repeats hrepeats stop
    refine ⟨fault, ?_⟩
    simp only [decode, decodeText, hread, hfault]
    rfl

/-- A header backwards, without a seed and with a note, and one with two engine versions. -/
theorem a_header_backwards_is_decoded :
    let text := " \x7b \"note\":[1,\x7b\x7d],\"num_experts\":4,\"top_k\":2,\"layers_logged\":[0],".toList ++
      "\"device\":\"cpu\",\"torch_version\":\"r\",\"vllm_version\":\"e\",\"model_id\":\"m\",\"type\":\"meta\"\x7d\n".toList
    let twice := "\x7b\"engine_version\":\"e\",\"type\":\"meta\",\"vllm_version\":\"e\"\x7d".toList
    decode (text.map .char) = .ok (.header ⟨"m", "e", "r", "cpu", none, [0], 2, 4⟩) ∧
      ∃ fault, decode (twice.map .char) = .error fault := by
  intro text twice
  obtain ⟨harranged, hrepeated⟩ := decoding_ignores_arrangement_and_refuses_repeats
  constructor
  · let note : String × Json := ("note", .array [.number (Numeral.ofNat 1), .object []])
    let own : List (String × Json) :=
      [("model_id", .string "m"), ("vllm_version", .string "e"), ("torch_version", .string "r"),
        ("device", .string "cpu"), ("layers_logged", .array [word 0]), ("top_k", word 2), ("num_experts", word 4)]
    let tag : String × Json := ("type", .string "meta")
    have hperm : (note :: (own.reverse ++ [tag])).Perm (tag :: (own ++ [note])) :=
      (List.perm_append_singleton tag (note :: own.reverse)).trans
        ((((List.reverse_perm own).cons note).trans (List.perm_append_singleton note own).symm).cons tag)
    have hrenamed : List.Forall₂ Renamed
        ((headerFields ⟨"m", "e", "r", "cpu", none, [0], 2, 4⟩).filter fun f => f.1 ≠ "seed") own :=
      .cons (.same _) (.cons (.engineVersion _) (.cons (.runtimeVersion _) (.cons (.same _) (.cons (.same _)
        (.cons (.same _) (.cons (.same _) .nil))))))
    have hnote : Extra .header note := ⟨by decide, by decide, rfl, trivial, trivial⟩
    have hword : ∀ n, (word n).Sound := fun n => Numeral.ofNat_sound n.toNat
    have hsound : MembersSound (note :: (own.reverse ++ [tag])) :=
      ⟨⟨Numeral.ofNat_sound 1, trivial, trivial⟩, hword 4, hword 2, ⟨hword 0, trivial⟩, trivial, trivial, trivial, trivial,
        trivial, trivial⟩
    have hblank : Space [' '] := space_singleton rfl
    obtain ⟨cs, hcs, htext⟩ : ∃ cs, text = [' '] ++ (cs ++ ['\n']) ∧
        ValueText (.object (note :: (own.reverse ++ [tag]))) cs := by
      refine ⟨_, ?_, ValueText.members hblank (memberText_compact "note" (valueText_compact hsound.1))
        (membersText_compact hsound.2)⟩
      decide +kernel
    have hdecoded := harranged (r := .header ⟨"m", "e", "r", "cpu", none, [0], 2, 4⟩) (fun route hr => nomatch hr)
      ⟨_, own, [note], .withoutSeed rfl, hrenamed, List.forall_mem_singleton.mpr hnote, hperm⟩ htext hblank
      (space_singleton (c := '\n') rfl)
    rw [← hcs] at hdecoded
    exact hdecoded
  · have hread : (Json.read (twice.map .char)).value = .object [(some "engine_version", .string (some "e")),
        (some "type", .string (some "meta")), (some "vllm_version", .string (some "e"))] none := by
      simp only [twice]
      rfl
    exact hrepeated hread (.inr ⟨.header, List.mem_cons_of_mem _ List.mem_cons_self, by decide⟩)

end Record

end ExpertRouting
