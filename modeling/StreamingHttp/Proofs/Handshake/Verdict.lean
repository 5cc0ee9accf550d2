import StreamingHttp.Connection
import StreamingHttp.Proofs.Delimited
import StreamingHttp.Proofs.Entity.BlockReading

/-!
# The verdict on a response

Once a request is sent, the response alone tells how the handshake ends.  `verdict` reads
this off the text of the response, with all of it at hand, and names the first stage which
fails:

* there is no status line, because the stream stops before its first line feed;
* the status line does not start with `HTTP`;
* its code, which stands between its first two spaces, is not `200`;
* the header block does not end, because the stream stops before its blank line.

A fault of the status line leaves the stream behind that line, and a response without
fault leaves it behind the header block.  A stream which stops is left behind the stop.
-/

namespace StreamingHttp

open Transport

namespace Handshake

/-- The code of a status line: what stands between its first two spaces. -/
def statusCode (text : Bytes) : Bytes :=
  (text.splitOn Byte.space)[1]?.getD []

/-- The reason of a status line: all that follows its second space. -/
def statusReason (text : Bytes) : Bytes :=
  [Byte.space].intercalate ((text.splitOn Byte.space).drop 2)

/-- What is wrong with a status line, if anything is. -/
def statusFault? (line : Bytes) : Option Fault :=
  let text := Bytes.trimEnd Byte.isSpace line
  if ¬ versionMark <+: text then some .notHttp
  else if statusCode text ≠ successCode then
    some (.badStatus (Utf8.lossy (statusCode text)) (Utf8.lossy (statusReason text)))
  else none

/-- How reading the head of a response ends. -/
structure Verdict where
  result : Except Fault EntityFields
  /-- The bytes which are left.  None if the stream was read up to its stop. -/
  rest : Option Bytes

/-- The verdict on a response which stops with this failure behind the text. -/
def verdict (failure : Failure) (text : Bytes) : Verdict :=
  match Bytes.lines text with
  | [] => ⟨.error (.resetBeforeResponse failure), none⟩
  | statusLine :: later =>
      match statusFault? statusLine with
      | some fault => ⟨.error fault, some (later.flatten ++ Bytes.unterminated text)⟩
      | none =>
          match EntityBlock.ofLines? later (Bytes.unterminated text) with
          | none => ⟨.error (.resetOnHeaders failure), none⟩
          | some (fields, rest) => ⟨.ok fields, some rest⟩

/-- What is left of a stream which goes on with `before` where the text ends, and with
`after` behind its stop. -/
def Verdict.left (verdict : Verdict) (before after : Events) : Events :=
  match verdict.rest with
  | none => after
  | some rest => .ofBytes rest ++ before

/-- No line of the head is longer than the limit.  A line which is cut short is shorter.
The header block counts only if it is read. -/
def HeadFits (limit : Nat) (text : Bytes) : Prop :=
  match Bytes.lines text with
  | [] => text.length < limit
  | statusLine :: later =>
      statusLine.length ≤ limit ∧
        (statusFault? statusLine = none →
          EntityBlock.Fits limit later (Bytes.unterminated text))

/-! ### The status line -/

/-- A text without spaces starts a text iff it starts its first word. -/
theorem prefix_cut_iff {mark : Bytes} (hmark : Byte.space ∉ mark) (text : Bytes) :
    mark <+: (Delimited.cut Byte.space text).1 ↔ mark <+: text := by
  have hword : (Delimited.cut Byte.space text).1 <+: text := List.takeWhile_prefix _
  constructor
  · intro h
    exact h.trans hword
  · rintro ⟨rest, rfl⟩
    have hall : ∀ b ∈ mark, (b != Byte.space) = true := by
      intro b hb
      simpa using fun heq : b = Byte.space => hmark (heq ▸ hb)
    rw [Delimited.cut, List.takeWhile_append_of_pos hall]
    exact List.prefix_append _ _

theorem statusCode_eq_cut (text : Bytes) :
    statusCode text =
      (Delimited.cut Byte.space ((Delimited.cut Byte.space text).2.getD [])).1 := by
  rw [statusCode, Delimited.splitOn_eq_cut]
  cases (Delimited.cut Byte.space text).2 with
  | none => rfl
  | some rest =>
      simp only [Option.map_some, Option.getD_some]
      rw [Delimited.splitOn_eq_cut]
      rfl

theorem statusReason_eq_cut (text : Bytes) :
    statusReason text =
      (Delimited.cut Byte.space ((Delimited.cut Byte.space text).2.getD [])).2.getD [] := by
  rw [statusReason, Delimited.splitOn_eq_cut]
  cases (Delimited.cut Byte.space text).2 with
  | none => rfl
  | some rest =>
      simp only [Option.map_some, Option.getD_some]
      rw [Delimited.splitOn_eq_cut]
      cases (Delimited.cut Byte.space rest).2 with
      | none => rfl
      | some reason => exact List.intercalate_splitOn _

/-- The words of a status line are judged one by one. -/
theorem checkStatus_eq (line : Bytes) :
    checkStatus line =
      match statusFault? line with
      | none => .ok ()
      | some fault => .error fault := by
  have hmark : Byte.space ∉ versionMark := by decide
  rw [checkStatus, statusFault?]
  simp only [List.isPrefixOf_iff_prefix, prefix_cut_iff hmark, ← statusCode_eq_cut,
    ← statusReason_eq_cut]
  by_cases hversion : versionMark <+: Bytes.trimEnd Byte.isSpace line
  · by_cases hcode : statusCode (Bytes.trimEnd Byte.isSpace line) = successCode
    · simp only [hversion, hcode, not_true_eq_false, ne_eq, if_false]
    · simp only [hversion, hcode, not_true_eq_false, not_false_eq_true, ne_eq, if_false,
        if_true]
  · simp only [hversion, not_false_eq_true, if_true]

/-- Between two spaces in a row there is a code: an empty one. -/
example : statusFault? (Utf8.ofString "HTTP/1.1  200 OK\r\n") =
    some (.badStatus "" "200 OK") := by decide +kernel

/-! ### The response -/

variable {reader : Reader} {maxLine : Nat} {before after : Events} {failure : Failure}
  {text : Bytes}

/-- The head of a response is read to the verdict on it. -/
theorem receive_eq_verdict (hstop : Events.StopsWith failure before after)
    (hfits : HeadFits (lineLimit maxLine) text)
    (h : reader.Shows (.ofBytes text ++ before)) :
    ∃ last : Reader, last.Shows ((verdict failure text).left before after) ∧
      receive maxLine reader =
        match (verdict failure text).result with
        | .error fault => .error fault last
        | .ok fields => .ok fields last := by
  obtain ⟨hlines, htail, htext⟩ := Bytes.exists_lines text
  rw [receive, verdict]
  rw [HeadFits] at hfits
  cases hcut : Bytes.lines text with
  | nil =>
      rw [hcut] at htext hfits
      have hnone : Byte.lf ∉ text := by
        rw [htext]
        exact htail
      obtain ⟨last, hline, hlast⟩ := h.line_of_stopsWith hnone hfits hstop
      exact ⟨last, hlast, by rw [hline]⟩
  | cons statusLine later =>
      rw [hcut] at htext hlines hfits
      obtain ⟨hfirst, hlater⟩ := List.forall_mem_cons.mp hlines
      obtain ⟨hlength, hblock⟩ := hfits
      rw [htext, List.flatten_cons, List.append_assoc, Events.ofBytes_append,
        List.append_assoc] at h
      obtain ⟨middle, hline, hmiddle⟩ := h.line_of_isLine hfirst hlength
      rw [hline]
      simp only [checkStatus_eq]
      cases hfault : statusFault? statusLine with
      | some fault => exact ⟨middle, hmiddle, rfl⟩
      | none =>
          have hread := hmiddle.agrees_read hlater htail (hblock hfault) hstop
          rw [EntityBlock.outcome] at hread
          dsimp only
          generalize EntityFields.read maxLine middle = result at hread ⊢
          cases hfields : EntityBlock.ofLines? later (Bytes.unterminated text) with
          | none =>
              rw [hfields] at hread
              cases hread with
              | error hlast => exact ⟨_, hlast, rfl⟩
          | some found =>
              rw [hfields] at hread
              obtain ⟨last, rfl, hlast⟩ := hread.exists_ok
              exact ⟨last, hlast, rfl⟩

end Handshake

namespace Connection

variable {connection : Connection} {request : Request} {head text : Bytes}
  {sent flushed : Sink} {before after : Events} {failure : Failure}

/-- A handshake whose request is sent ends with the verdict on the response, and leaves
the stream where the verdict says.  Only success stores fields. -/
theorem handshake_eq_verdict (hhead : request.head = .ok head)
    (hwrite : connection.sink.writeAll head = .ok () sent)
    (hflush : sent.flush = .ok () flushed) (hcapacity : 0 < connection.reader.capacity)
    (hresponse : connection.reader.events = .ofBytes text ++ before)
    (hstop : Events.StopsWith failure before after)
    (hfits : Handshake.HeadFits (lineLimit connection.settings.maxLineLength) text) :
    ∃ reader : Reader,
      reader.events = (Handshake.verdict failure text).left before after ∧
      connection.handshake request =
        match (Handshake.verdict failure text).result with
        | .error fault => .error fault { connection with sink := flushed, reader }
        | .ok fields => .ok () { connection with sink := flushed, reader, fields } := by
  have hsend : Handshake.send request connection.sink = .ok () flushed := by
    simp only [Handshake.send, hhead, hwrite, hflush]
  obtain ⟨reader, hreader, hreceive⟩ :=
    Handshake.receive_eq_verdict hstop hfits ⟨hcapacity, hresponse⟩
  refine ⟨reader, hreader.events_eq, ?_⟩
  rw [handshake, hsend]
  simp only [hreceive]
  cases (Handshake.verdict failure text).result with
  | error fault => rfl
  | ok fields => rfl

/-- A status line without a reason and a length which is folded, in lines which are as
long as the limit.  A line of one blank ends the block, and the failure behind the body
is not met. -/
theorem handshake_of_folded_length :
    let dropped : Failure := ⟨.connectionReset, "reset"⟩
    let again : Failure := ⟨.interrupted, ""⟩
    let request : Request := ⟨"h", 80, none, ""⟩
    let head := Utf8.ofString "GET / HTTP/1.1\r\nHost: h\r\n\r\n"
    let text := Utf8.ofString "HTTP 200\t\r\nContent-Length: 1\r\n 2\r\n \nab"
    let connection : Connection :=
      { reader :=
          { source := [.failure again, .data (text.drop 6), .failure dropped]
            capacity := 4
            buffer := text.take 6 }
        sink := { acceptances := [.upTo 5, .failure again] }
        settings := { maxLineLength := 19 } }
    0 < connection.reader.capacity ∧
      connection.reader.events = Events.ofBytes text ++ [.failure dropped] ∧
      Handshake.HeadFits 19 text ∧
      ∃ reader : Reader,
        reader.events = Events.ofBytes (Utf8.ofString "ab") ++ [.failure dropped] ∧
        connection.handshake request =
          .ok () { connection with
            sink := { written := head }
            reader
            fields := { contentLength := Utf8.ofString "12" } } := by
  intro dropped again request head text connection
  have hevents : connection.reader.events = Events.ofBytes text ++ [.failure dropped] := by
    decide
  have hfits : Handshake.HeadFits 19 text := by
    refine ⟨by decide, fun _ => ⟨by decide, by decide, by decide⟩⟩
  have hfault : request.fault? = none := by decide
  have hhead : request.head = .ok head := by
    rw [Request.head, hfault]
    exact congrArg Except.ok (by decide)
  have hwrite : connection.sink.writeAll head = .ok () { written := head } := by rfl
  have hhandshake := handshake_eq_verdict hhead hwrite rfl (by decide) hevents
    (.failed dropped []) hfits
  exact ⟨by decide, hevents, hfits, hhandshake⟩

end Connection

end StreamingHttp
