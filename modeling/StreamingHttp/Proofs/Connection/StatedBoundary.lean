import StreamingHttp.Proofs.Boundary.SavedBytes
import StreamingHttp.Proofs.Connection.StoredFields
import StreamingHttp.Proofs.Entity.BoundaryParameter
import StreamingHttp.Proofs.Entity.CleanFields
import StreamingHttp.Proofs.Header.Layout

/-!
# A boundary which was stated is found

A scanner overlooks nothing if its boundary holds no line feed.  Nothing checks this, and
nothing has to: a boundary which a response or a part states is cut out of a media type, and
a media type holds no line feed, whichever way it is read.

* A connection stores the fields of a header block which was read line by line, so whatever
  is done with it, they are empty or come from such a block.
* The parser hands out values of one line, and folded values without their line ends.

`Scanner.Finds` is what a scanner has to do for a boundary.
-/

namespace StreamingHttp

open Transport

/-! ### Scanners -/

namespace Boundary

variable {boundary : Bytes}

/-- Every scanner which is made for the boundary, or reset to it, leaves the search for it
with the first bytes that hold its pattern.  It is done with the first bytes that hold its
first boundary line, and hands back what is behind this line. -/
def Scanner.Finds (boundary : Bytes) : Prop :=
  ∀ (save : Bool) (scanner : Scanner) (chunks : List Bytes), scanner.AtStart boundary save →
    let fed := feedAll Scanner.feed scanner chunks
    (pattern boundary <:+: chunks.flatten ↔ ∀ matched, fed.2.phase ≠ .boundary matched) ∧
      (fed.2.isDone = true ↔ ∃ start stop, FirstBoundaryLine boundary chunks.flatten start stop) ∧
      ∀ start stop, FirstBoundaryLine boundary chunks.flatten start stop →
        fed.1.flatten = chunks.flatten.drop (stop + 1)

theorem LeadsTo.pattern_isInfix {text before padding : Bytes}
    (h : LeadsTo boundary text before padding) : pattern boundary <:+: text :=
  ⟨before, padding, h.eq.symm⟩

/-- The pattern is in the text if and only if the phase is behind it. -/
theorem Phase.pattern_isInfix_iff {phase : Phase} {text : Bytes}
    (h : phase.Describes boundary text) (hboundary : Byte.lf ∉ boundary) :
    pattern boundary <:+: text ↔ ∀ matched, phase ≠ .boundary matched := by
  cases phase with
  | boundary matched =>
      exact ⟨fun hinfix => absurd hinfix (h.2.2 hboundary).2, fun hphase => absurd rfl (hphase _)⟩
  | padding =>
      obtain ⟨before, padding, hleads⟩ := h
      exact ⟨fun _ => nofun, fun _ => hleads.pattern_isInfix⟩
  | done =>
      obtain ⟨body, before, padding, rfl, hleads⟩ := h
      exact ⟨fun _ => nofun,
        fun _ => hleads.pattern_isInfix.trans (List.prefix_append _ _).isInfix⟩

/-- A boundary without a line feed is not overlooked. -/
theorem Scanner.finds_of_notMem (hboundary : Byte.lf ∉ boundary) : Scanner.Finds boundary := by
  intro save scanner chunks hstart
  -- All chunks may be fed at once.
  obtain ⟨hreturned, hcontrol⟩ := feedAll_eq_feed_flatten scanner chunks
  have hphase := congrArg Control.phase hcontrol
  dsimp only [control] at hphase ⊢
  rw [hreturned, isDone_eq_of_control_eq hcontrol, hphase, hstart.eq_new]
  generalize chunks.flatten = text
  obtain ⟨taken, htext, hread, hnothing⟩ := (hasRead_new boundary save).feed text
  rw [List.nil_append] at hread
  have hfirst := fun start stop =>
    @feed_of_firstBoundaryLine boundary text hboundary save start stop
  generalize (new boundary save).feed text = fed at htext hread hnothing hfirst ⊢
  refine ⟨⟨fun hinfix matched hphase => ?_, fun hbehind => ?_⟩, ⟨fun hdone => ?_, ?_⟩,
    fun start stop hline => (hfirst start stop hline).2⟩
  · -- A scanner which still searches has taken in all of the text.
    have hopen : fed.2.isDone = false := by
      rw [isDone, hphase]
      rfl
    rw [htext, hnothing hopen, List.append_nil] at hinfix
    exact (Phase.pattern_isInfix_iff hread.phase hboundary).mp hinfix matched hphase
  · have hinfix := (Phase.pattern_isInfix_iff hread.phase hboundary).mpr hbehind
    rw [htext]
    exact hinfix.trans (List.prefix_append _ _).isInfix
  · have hphase : fed.2.phase = .done := by simpa [isDone] using hdone
    have hdescribes := hread.phase
    rw [hphase] at hdescribes
    obtain ⟨start, stop, hline, -⟩ := (Phase.describes_done hdescribes).2 hboundary fed.1
    exact ⟨start, stop, htext ▸ hline⟩
  · rintro ⟨start, stop, hline⟩
    exact (hfirst start stop hline).1

end Boundary

/-! ### Media types -/

/-- What a media type without a line feed states. -/
theorem MediaType.finds_of_boundary?_eq_some {value boundary : Bytes} (hvalue : Byte.lf ∉ value)
    (h : boundary? value = some boundary) :
    Byte.lf ∉ boundary ∧ Byte.semicolon ∉ boundary ∧ Boundary.Scanner.Finds boundary := by
  obtain ⟨hstands, hsemicolon⟩ := of_boundary?_eq_some h
  have hboundary : Byte.lf ∉ boundary := fun hmem => hvalue (hstands.mem hmem)
  exact ⟨hboundary, hsemicolon, Boundary.Scanner.finds_of_notMem hboundary⟩

namespace Connection

/-- The fields of a header block hold no line feed. -/
theorem Parses.isClean {connection : Connection} {operation : Operation} {fields : EntityFields}
    (h : connection.Parses operation fields) : fields.IsClean := by
  cases h with
  | handshake _ _ hblock => exact EntityFields.isClean_of_read_eq_ok hblock
  | nextPart _ _ _ hblock => exact EntityFields.isClean_of_read_eq_ok hblock

theorem isClean_run (source : Source) (sink : Sink) (settings : Settings)
    (operations : List Operation) :
    ((new source sink settings).run operations).fields.IsClean := by
  rcases fields_run (new source sink settings) operations with
    ⟨earlier, operation, later, rfl, hparses, -⟩ | ⟨-, hfields⟩
  · exact hparses.isClean
  · rw [hfields]
    exact EntityFields.isClean_empty

end Connection

/-- After every run of a connection its fields hold no line feed, and after every history of
the parser its media type holds none.  A boundary which one of these states holds neither a
line feed nor a semicolon, and every scanner finds it. -/
theorem stated_boundary_is_found :
    (∀ (source : Source) (sink : Sink) (settings : Settings)
        (operations : List Connection.Operation),
      let fields := ((Connection.new source sink settings).run operations).fields
      Byte.lf ∉ fields.contentType ∧ Byte.lf ∉ fields.contentLength ∧
        ∀ boundary, fields.boundary? = some boundary →
          Byte.lf ∉ boundary ∧ Byte.semicolon ∉ boundary ∧ Boundary.Scanner.Finds boundary) ∧
      ∀ (hasStartLine : Bool) (history : List Header.Parser.Call) (value : Bytes),
        ((Header.Parser.new hasStartLine).run history).contentType? = some value →
          Byte.lf ∉ value ∧
            ∀ boundary, MediaType.boundary? value = some boundary →
              Byte.lf ∉ boundary ∧ Byte.semicolon ∉ boundary ∧
                Boundary.Scanner.Finds boundary := by
  constructor
  · intro source sink settings operations fields
    have hclean := Connection.isClean_run source sink settings operations
    exact ⟨hclean.contentType, hclean.contentLength,
      fun boundary => MediaType.finds_of_boundary?_eq_some hclean.contentType⟩
  · intro hasStartLine history value hvalue
    have hlaid := (Header.Parser.laidOut_new hasStartLine).run history
    have hclean := hlaid.notMem_of_valueOf?_eq_some hvalue
    exact ⟨hclean, fun boundary => MediaType.finds_of_boundary?_eq_some hclean⟩

/-- A media type of which a connection reads the type and the boundary in two pieces of a
line.  The parser is fed it in two chunks. -/
theorem stated_boundary_in_second_piece_is_found :
    let block := Utf8.ofString
      "Content-Type: multipart/mixed; boundary=\"f o\"; a=b\r\n\r\n"
    let source : Source := [.data (Utf8.ofString "HTTP 200\r\n"), .data block]
    let connection := (Connection.new source {} { maxLineLength := 30 }).run
      [.handshake ⟨"h", 80, none, ""⟩]
    let parser := (Header.Parser.new false).run [.feed (block.take 40), .feed (block.drop 40)]
    (connection.fields.boundary? = some (Utf8.ofString "f o") ∧
        Boundary.Scanner.Finds (Utf8.ofString "f o")) ∧
      ∃ value, parser.contentType? = some value ∧
        MediaType.boundary? value = some (Utf8.ofString "f o") ∧ Byte.lf ∉ value := by
  intro block source connection parser
  have hfields : connection.fields.boundary? = some (Utf8.ofString "f o") := by decide +kernel
  have hparser : parser.contentType? = some
      (Utf8.ofString "multipart/mixed; boundary=\"f o\"; a=b") := by decide +kernel
  obtain ⟨hconnection, hhistory⟩ := stated_boundary_is_found
  obtain ⟨-, -, hfound⟩ := hconnection source {} { maxLineLength := 30 }
    [.handshake ⟨"h", 80, none, ""⟩]
  obtain ⟨hclean, -⟩ := hhistory false [.feed (block.take 40), .feed (block.drop 40)] _ hparser
  exact ⟨⟨hfields, (hfound _ hfields).2.2⟩, _, hparser, by decide +kernel, hclean⟩

end StreamingHttp
