import StreamingHttp.Proofs.Connection.Runs

/-!
# The fields which a connection stores

A connection stores the fields of one header block.  Two operations read a header block,
and only if they succeed are its fields stored:

* a handshake which ends without a fault has read the block behind the status line;
* a next part which is found has the block behind its delimiter line.

Any other end of the two leaves the fields alone, at whichever stage they failed, and so
does everything else that is done with the connection.  By induction over a run, the
fields are those of its last success, or empty.
-/

namespace StreamingHttp

open Transport

namespace Connection

/-- The operation is one of the two which read a header block, and ends well. -/
def Succeeds (connection : Connection) : Operation → Prop
  | .handshake request => answerOf (connection.handshake request) = .ok ()
  | .nextPart boundary =>
      ∃ fields, answerOf (connection.nextPart boundary) = .ok (some fields)
  | _ => False

/-- No operation of a run succeeds. -/
def Quiet (connection : Connection) : List Operation → Prop
  | [] => True
  | operation :: later =>
      ¬ connection.Succeeds operation ∧ (connection.perform operation).Quiet later

/-- The operation succeeds, and these are the fields of the header block which it has
read.  A next part also gives them to the caller. -/
inductive Parses (connection : Connection) : Operation → EntityFields → Prop
  /-- The block starts behind the status line. -/
  | handshake {request : Request} {line : Bytes} {behindStatus : Reader}
      {fields : EntityFields} {after : Connection}
      (hanswer : connection.handshake request = .ok () after)
      (hstatus : connection.reader.line connection.settings.maxLineLength =
        .ok line behindStatus)
      (hblock : EntityFields.read connection.settings.maxLineLength behindStatus =
        .ok fields after.reader) :
      Parses connection (.handshake request) fields
  /-- The block starts behind the delimiter and the rest of its line. -/
  | nextPart {boundary : Bytes} {behindDelimiter behindLine : Reader}
      {fields : EntityFields} {after : Connection}
      (hanswer : connection.nextPart boundary = .ok (some fields) after)
      (hdelimiter : Part.skipDelimiter boundary connection.reader = .ok () behindDelimiter)
      (hline : Part.finishDelimiter connection.settings.maxLineLength behindDelimiter =
        .ok false behindLine)
      (hblock : EntityFields.read connection.settings.maxLineLength behindLine =
        .ok fields after.reader) :
      Parses connection (.nextPart boundary) fields

variable {connection : Connection}

/-! ### One operation -/

/-- The stages of a handshake which ends well. -/
theorem receive_eq_ok {maxLine : Nat} {reader last : Reader} {fields : EntityFields}
    (h : Handshake.receive maxLine reader = .ok fields last) :
    ∃ line middle, reader.line maxLine = .ok line middle ∧
      EntityFields.read maxLine middle = .ok fields last := by
  rw [Handshake.receive] at h
  split at h
  · cases h
  · next line middle hline =>
      split at h
      · cases h
      · split at h
        · cases h
        · next hblock =>
            cases h
            exact ⟨line, middle, hline, hblock⟩

/-- The stages of a next part which is found. -/
theorem next_eq_ok_some {maxLine : Nat} {boundary : Bytes} {reader last : Reader}
    {fields : EntityFields} (h : Part.next maxLine boundary reader = .ok (some fields) last) :
    ∃ behindDelimiter behindLine,
      Part.skipDelimiter boundary reader = .ok () behindDelimiter ∧
      Part.finishDelimiter maxLine behindDelimiter = .ok false behindLine ∧
      EntityFields.read maxLine behindLine = .ok fields last := by
  simp only [Part.next, bind, EStateM.bind] at h
  split at h
  · next behindDelimiter hdelimiter =>
      split at h
      · next closing behindLine hline =>
          cases closing with
          | true => cases h
          | false =>
              simp only [Bool.false_eq_true, if_false, EStateM.bind] at h
              split at h
              · next hblock =>
                  cases h
                  exact ⟨behindDelimiter, behindLine, hdelimiter, hline, hblock⟩
              · cases h
      · cases h
  · cases h

/-- A handshake which ends well stores the fields of the block behind the status line. -/
theorem handshake_eq_ok {request : Request} {after : Connection}
    (h : connection.handshake request = .ok () after) :
    ∃ line behindStatus,
      connection.reader.line connection.settings.maxLineLength = .ok line behindStatus ∧
      EntityFields.read connection.settings.maxLineLength behindStatus =
        .ok after.fields after.reader := by
  rw [Connection.handshake] at h
  split at h
  · cases h
  · split at h
    · cases h
    · next hreceive =>
        cases h
        exact receive_eq_ok hreceive

/-- A next part which is found stores the fields which it gives to the caller. -/
theorem nextPart_eq_ok_some {boundary : Bytes} {fields : EntityFields} {after : Connection}
    (h : connection.nextPart boundary = .ok (some fields) after) :
    after.fields = fields ∧
      Part.next connection.settings.maxLineLength boundary connection.reader =
        .ok (some fields) after.reader := by
  rw [Connection.nextPart] at h
  split at h
  · cases h
  · cases h
  · next hnext =>
      cases h
      exact ⟨rfl, hnext⟩

/-- What succeeds stores what it has parsed. -/
theorem Succeeds.parses {operation : Operation} (h : connection.Succeeds operation) :
    connection.Parses operation (connection.perform operation).fields := by
  cases operation with
  | handshake request =>
      rw [Succeeds] at h
      cases hresult : connection.handshake request with
      | error fault after =>
          rw [hresult] at h
          cases h
      | ok _ after =>
          obtain ⟨line, behindStatus, hline, hblock⟩ := handshake_eq_ok hresult
          rw [perform, hresult]
          exact .handshake hresult hline hblock
  | nextPart boundary =>
      obtain ⟨fields, h⟩ := h
      cases hresult : connection.nextPart boundary with
      | error failure after =>
          rw [hresult] at h
          cases h
      | ok found after =>
          rw [hresult] at h
          cases h
          obtain ⟨hfields, hnext⟩ := nextPart_eq_ok_some hresult
          obtain ⟨_, _, hdelimiter, hline, hblock⟩ := next_eq_ok_some hnext
          rw [perform, hresult, leftBy, hfields]
          exact .nextPart hresult hdelimiter hline hblock
  | findBoundary boundary saved => cases h
  | readExact count => cases h
  | readToEnd => cases h
  | reachThrough effect => cases h

/-- What does not succeed keeps the fields. -/
theorem fields_perform {operation : Operation} (h : ¬ connection.Succeeds operation) :
    (connection.perform operation).fields = connection.fields := by
  cases operation with
  | handshake request =>
      rw [Succeeds, Connection.handshake] at h
      rw [perform, Connection.handshake]
      cases hsend : Handshake.send request connection.sink with
      | error fault sink => rfl
      | ok _ sink =>
          rw [hsend] at h
          dsimp only at h ⊢
          cases hreceive : Handshake.receive connection.settings.maxLineLength
              connection.reader with
          | error fault reader => rfl
          | ok fields reader =>
              rw [hreceive] at h
              exact absurd rfl h
  | nextPart boundary =>
      rw [Succeeds, Connection.nextPart] at h
      rw [perform, Connection.nextPart]
      split
      · rfl
      · rfl
      · next fields _ hnext =>
          rw [hnext] at h
          exact absurd ⟨fields, rfl⟩ h
  | findBoundary boundary saved =>
      rw [perform, Connection.findBoundary]
      split
      · rfl
      · rfl
  | readExact count =>
      rw [perform, Connection.readExact]
      split
      · rfl
      · rfl
  | readToEnd =>
      rw [perform, Connection.readToEnd]
      split
      · rfl
      · rfl
  | reachThrough effect => rfl

/-! ### All operations -/

/-- The fields after a run are those of its last success.  Without one they are the fields
before it. -/
theorem fields_run (connection : Connection) (operations : List Operation) :
    (∃ earlier operation later, operations = earlier ++ operation :: later ∧
      (connection.run earlier).Parses operation (connection.run operations).fields ∧
      ((connection.run earlier).perform operation).Quiet later) ∨
    connection.Quiet operations ∧ (connection.run operations).fields = connection.fields := by
  induction operations generalizing connection with
  | nil => exact .inr ⟨trivial, rfl⟩
  | cons operation later ih =>
      rcases ih (connection.perform operation) with
        ⟨earlier, last, behind, rfl, hparses, hquiet⟩ | ⟨hquiet, hfields⟩
      · exact .inl ⟨operation :: earlier, last, behind, rfl, hparses, hquiet⟩
      · have hrun : (connection.run (operation :: later)).fields =
            (connection.perform operation).fields := hfields
        by_cases hsucceeds : connection.Succeeds operation
        · refine .inl ⟨[], operation, later, rfl, ?_, hquiet⟩
          rw [hrun]
          exact hsucceeds.parses
        · exact .inr ⟨⟨hsucceeds, hquiet⟩, hrun.trans (fields_perform hsucceeds)⟩

/-- A new connection stores the fields which the last success of its run has parsed, or
empty ones if nothing has succeeded.  Whatever does not succeed keeps the fields which it
finds. -/
theorem fields_of_last_success (source : Source) (sink : Sink) (settings : Settings)
    (operations : List Operation) :
    let start := Connection.new source sink settings
    ((∃ earlier operation later, operations = earlier ++ operation :: later ∧
        (start.run earlier).Parses operation (start.run operations).fields ∧
        ((start.run earlier).perform operation).Quiet later) ∨
      start.Quiet operations ∧ (start.run operations).fields = {}) ∧
    ∀ (connection : Connection) (operation : Operation),
      ¬ connection.Succeeds operation →
        (connection.perform operation).fields = connection.fields := by
  intro start
  exact ⟨fields_run start operations, fun _ _ h => fields_perform h⟩

/-- A response, a part, and another part of which the stream breaks off behind its media
type.  The fields are those of the part before. -/
theorem fields_of_last_success_before_broken_part :
    let source : Source :=
      [.data (Utf8.ofString "HTTP 200\r\nContent-Type: a/b\r\n\r\n"),
        .data (Utf8.ofString "--f\r\nContent-Length: 4\r\n\r\nbody\r\n"),
        .data (Utf8.ofString "--f\r\nContent-Type: c/d\r\n"),
        .failure ⟨.connectionReset, "reset"⟩]
    let start := Connection.new source {} {}
    let operations : List Operation :=
      [.handshake ⟨"h", 80, none, ""⟩, .nextPart [0x66], .readExact 4, .nextPart [0x66]]
    (start.run operations).fields = { contentLength := Utf8.ofString "4" } ∧
      ∃ earlier operation later, operations = earlier ++ operation :: later ∧
        (start.run earlier).Parses operation (start.run operations).fields ∧
        ((start.run earlier).perform operation).Quiet later := by
  intro source start operations
  have hfields : (start.run operations).fields = { contentLength := Utf8.ofString "4" } := by
    decide +kernel
  refine ⟨hfields, ?_⟩
  rcases (fields_of_last_success source {} {} operations).1 with hlast | ⟨-, hnone⟩
  · exact hlast
  · -- Empty fields would mean that nothing has succeeded.
    have hsome : (start.run operations).fields ≠ {} := by
      rw [hfields]
      decide
    exact absurd hnone hsome

end Connection

end StreamingHttp
