/-
  ExpertRouting.Proofs.Trace.RoundTrip — a record is its line, and lines are their records.

  Whatever characters a record's texts hold, its line ends at its last byte and nowhere
  before, and neither end of it is white space, so what cuts a trace into lines and trims
  them hands the decoder the text that was written. That text is decoded as the record,
  when the weights read back; so a stream of written records is read line by line as those
  records (`written_records_read_back`).
-/

import ExpertRouting.Proofs.Trace.Codec

namespace ExpertRouting

/-- The weights of a record are finite and read back from their decimals. -/
def Record.ReadsBack : Record → Prop
  | .header _ => True
  | .route r => ∀ w ∈ r.weights, Json.ReadsBack w

namespace Record

theorem newline_not_mem_text (r : Record) : '\n' ∉ r.text := Json.newline_not_mem_compact _

theorem line_eq (r : Record) : r.line = Utf8.encode r.text ++ [0x0A] := by
  simp [line, Utf8.encode, String.utf8EncodeChar]

theorem decode_text {r : Record} (h : r.ReadsBack) : decode (r.text.map .char) = .ok r := by
  cases r with
  | header header => exact decode_header header
  | route route => exact decode_route h

end Record

theorem Trace.readLine_readsBack {r : Record} (h : r.ReadsBack) (number : Nat) :
    readLine number (r.text.map .char) = .ok (some r) := by
  rw [readLine_text, Record.decode_text h]

/-- Records of either kind, with any texts, any numbers in their ranges, with or without a seed,
    and with lists of any lengths, whose weights read back. The bytes of each are one line, whose
    end is the only byte of its kind, and trimming takes nothing off its text; the bytes before
    the end are decoded as the record. The lines of the records one behind the other are the
    texts of the records again, and are read as those records. -/
theorem written_records_read_back {records : List Record} (h : ∀ r ∈ records, r.ReadsBack) :
    (∀ r ∈ records, r.line = Utf8.encode r.text ++ [0x0A] ∧ 0x0A ∉ Utf8.encode r.text ∧
      Text.trim r.text = r.text ∧ Record.decode (Utf8.decode (Utf8.encode r.text)) = .ok r) ∧
    Text.lines (Utf8.decode (Writer.lines records)) = records.map (fun r => Utf8.decode (Utf8.encode r.text)) ∧
    ∀ number, (Text.lines (Utf8.decode (Writer.lines records))).map (Trace.readLine number) =
      records.map fun r => .ok (some r) := by
  refine ⟨fun r hr => ⟨r.line_eq, Utf8.newline_not_mem_encode r.newline_not_mem_text, r.trim_text, ?_⟩, ?_, ?_⟩
  · rw [Utf8.decode_encode]
    exact Record.decode_text (h r hr)
  · simp only [Utf8.decode_encode]
    exact Writer.lines_text records
  · intro number
    rw [Writer.lines_text, List.map_map]
    exact List.map_congr_left fun r hr => Trace.readLine_readsBack (h r hr) number

/-- A header whose texts need every kind of escape, with the largest numbers, and a route with an
    id of line breaks, more weights than experts and a weight of each layout. -/
theorem records_with_escapes_read_back :
    let header : Header := { modelId := "a \"model\" \\ of\nmany\tlines", engineVersion := "\x01\x7f", device := "",
                             runtimeVersion := "ΩΩ 😀", seed := some 18446744073709551615,
                             layersLogged := [0, 18446744073709551615], topK := 0, numExperts := 18446744073709551615 }
    let route : Route := { requestId := "\r\n\"", token := 18446744073709551615, layer := 7, experts := [4294967295],
                           weights := [Binary.zero true, Binary.ofDecimal binary64 false 5 (-1),
                             Binary.ofDecimal binary64 false 1 (-6), Binary.ofDecimal binary64 true 125 28] }
    let records : List Record := [.header header, .route route, .header { header with seed := none }]
    (∀ r ∈ records, r.ReadsBack) ∧
      (∀ r ∈ records, r.line = Utf8.encode r.text ++ [0x0A] ∧ 0x0A ∉ Utf8.encode r.text ∧
        Text.trim r.text = r.text ∧ Record.decode (Utf8.decode (Utf8.encode r.text)) = .ok r) ∧
      ∀ number, (Text.lines (Utf8.decode (Writer.lines records))).map (Trace.readLine number) =
        records.map fun r => .ok (some r) := by
  intro header route records
  have hroute : ∀ w ∈ route.weights, Json.ReadsBack w := by decide +kernel
  have h : ∀ r ∈ records, r.ReadsBack := by
    intro r hr
    simp only [records, List.mem_cons, List.not_mem_nil, or_false] at hr
    rcases hr with rfl | rfl | rfl
    · trivial
    · exact hroute
    · trivial
  obtain ⟨hrecords, -, hread⟩ := written_records_read_back h
  exact ⟨h, hrecords, hread⟩

end ExpertRouting
