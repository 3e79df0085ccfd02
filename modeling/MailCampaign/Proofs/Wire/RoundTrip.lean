import MailCampaign.Proofs.Journal.Lines

/-!
# The persisted format

What is written to the journal, to a snapshot or in an answer is read back as the value it was written
for, and an entry of the journal is a text of one line. Nothing is asked of the values: every text, every
number and every instant of the types has a form of its own.

The types are taken one by one in the modules on their JSON forms. What is left is to go from the value
that is written to its text, which is the same for all of them.
-/

namespace MailCampaign

open Json (Decoder)

/-- Decoding undoes encoding: the written text of a value is read as that value, be it given as
characters or as bytes. -/
structure Json.Decoder.Undoes {α : Type} (d : Decoder α) (encode : α → Json) : Prop where
  text : ∀ a, Json.readText d (encode a).text = .value a
  bytes : ∀ a, Json.readBytes d (Utf8.bytes (encode a).text) = .value a

/-- A decoder that reads each value with no more containers inside one another than a text may open. -/
theorem Json.Decoder.Undoes.of_reads {α : Type} {d : Decoder α} {encode : α → Json} {n : Nat}
    (hn : n ≤ 127) (h : ∀ a, d.Reads n (encode a) a) : d.Undoes encode where
  text a := Json.readText_text (h a) hn
  bytes a := Json.readBytes_text (h a) hn

/-- The text of an entry stands on one line. -/
theorem Entry.newline_notMem (e : Entry) : 10 ∉ Utf8.bytes e.json.text := fun h =>
  absurd (e.json.printed_bytes h) (by decide)

/-- Every type of the persisted format is read back from its text, and the text of an entry of the
journal has no line break in it. -/
theorem persisted_round_trip :
    Document.decoder.Undoes Document.json ∧
    Definition.decoder.Undoes Definition.json ∧
    Node.decoder.Undoes Node.json ∧
    Edge.decoder.Undoes Edge.json ∧
    Lead.decoder.Undoes Lead.json ∧
    Engagement.decoder.Undoes Engagement.json ∧
    Signal.decoder.Undoes Signal.json ∧
    Cursor.decoder.Undoes Cursor.json ∧
    Totals.decoder.Undoes Totals.json ∧
    StatisticsImage.decoder.Undoes StatisticsImage.json ∧
    Snapshot.decoder.Undoes Snapshot.json ∧
    Entry.decoder.Undoes Entry.json ∧
    ∀ e : Entry, 10 ∉ Utf8.bytes e.json.text :=
  ⟨.of_reads (n := 5) (by decide) Document.reads, .of_reads (n := 5) (by decide) Definition.reads,
    .of_reads (n := 3) (by decide) Node.reads, .of_reads (n := 1) (by decide) Edge.reads,
    .of_reads (n := 2) (by decide) Lead.reads, .of_reads (n := 2) (by decide) Engagement.reads,
    .of_reads (n := 1) (by decide) Signal.reads, .of_reads (n := 4) (by decide) Cursor.reads,
    .of_reads (n := 1) (by decide) Totals.reads,
    .of_reads (n := 4) (by decide) StatisticsImage.reads,
    .of_reads (n := 7) (by decide) Snapshot.reads, .of_reads (n := 6) (by decide) Entry.reads,
    Entry.newline_notMem⟩

end MailCampaign
