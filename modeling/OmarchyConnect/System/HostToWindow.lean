/-
# From the stream of the host to the window

The host writes its messages into one stream. However the bytes come, the system lets the
reader take them, the window paints and the loop is held up by commands and by the writer,
the session takes the messages in the order in which they were written, shows of each monitor
what its own packets decode to, and answers each ping in its turn.
-/

import OmarchyConnect.Client.SessionRuns

namespace OmarchyConnect.System

open OmarchyConnect.Library.Wire OmarchyConnect.Library.Files OmarchyConnect.Library.Runs
  OmarchyConnect.Library.Slots OmarchyConnect.Protocol OmarchyConnect.Client

section Run

variable {h264 : OpenH264} (sha256 : Bytes → Digest) (config : SessionConfig) (attempt : Attempt)
  (io : Io) (disk : Disk UInt8) (nextId : UInt32) (events : List ClientEvent)

/-! ## Messages -/

/-- No byte that the reader took is lost, whatever else the session does: the messages that
its loop takes are the first ones that the host wrote, and where nothing is on its way any
more, or the end of the stream was taken, they are just those whose frames have come whole. -/
theorem session_takes_whole_frames {msgs : List Message}
    (hlimits : ∀ msg ∈ msgs, msg.WithinLimits) {stream : Bytes}
    (hwritten : Written msgs [] stream) :
    let session : ClientSession h264 :=
      ClientSession.live sha256 config attempt io disk nextId events
    session.reader.arrived <+: stream →
      session.reader.taken <+: msgs ∧
        (session.reader.Idle → ∃ cut part, msgs = session.reader.taken ++ cut ∧
          ReaderTask.CutBehind session.reader.taken cut session.reader.arrived part) ∧
        ∀ err, session.reader.broke = some err →
          ∃ cut part, msgs = session.reader.taken ++ cut ∧
            ReaderTask.CutBehind session.reader.taken cut session.reader.arrived part ∧
              err = cutError part := by
  intro session harrived
  have hkept : session.Kept := ClientSession.kept_live sha256 config attempt io disk nextId events
  obtain ⟨htaken, hidle, hbroke⟩ := hkept.reads.fromStream hlimits hwritten harrived
  exact ⟨htaken, hidle, hbroke⟩

/-! ## Pictures -/

/-- However slow the writer is and however messages and commands come between one another, the
host gets the pongs to its pings and the inputs of the window in their order, each once at
most, and while the writer can write none of them is lost. -/
theorem answers_keep_order :
    let session : ClientSession h264 :=
      ClientSession.live sha256 config attempt io disk nextId events
    session.pipe.wire.filterMap pongOf <+: session.reader.taken.filterMap pingOf ∧
      session.pipe.wire.filterMap inputOf <+:
        session.commanded.filterMap ClientCommand.inputOf ∧
      (session.writerUp = true →
        session.pipe.content.filterMap pongOf = session.reader.taken.filterMap pingOf ∧
          session.pipe.content.filterMap inputOf ++
              session.commands.filterMap ClientCommand.inputOf =
            session.commanded.filterMap ClientCommand.inputOf) := by
  intro session
  have hkept : session.Kept := ClientSession.kept_live sha256 config attempt io disk nextId events
  have hcommanded : session.commanded.filterMap ClientCommand.inputOf =
      session.replied.filterMap inputOf ++
        session.commands.filterMap ClientCommand.inputOf := by
    rw [hkept.order, List.filterMap_append, hkept.inputs]
  refine ⟨hkept.pongs ▸ hkept.piped.wire.filterMap _, ?_, fun hup => ⟨?_, ?_⟩⟩
  · rw [hcommanded]
    exact (hkept.piped.wire.filterMap _).trans (List.prefix_append _ _)
  · rw [hkept.piped.up hup, hkept.pongs]
  · rw [hkept.piped.up hup, hcommanded]

end Run

/-! ## A session with one packet -/

/-- A decoder that makes one pixel of each packet. -/
def onePixel : OpenH264 where
  Decoder := Unit
  new := .ok ()
  nalUnits := fun data => [data]
  decode := fun decoder nal => (.ok (some ⟨1, 1, nal⟩), decoder)

/-- An attempt that gets through. -/
def welcome : Attempt where
  createDir := .ok ()
  connect := .ok ()
  handshake := .ok ()
  writeHello := .ok ()
  readHelloAck := .ok (.helloAck protocolVersion)
  exporter := .ok ()
  authenticate := .ok ()

/-- The configuration of a client. -/
def plainConfig : SessionConfig := { addr := "127.0.0.1:47921", downloadDir := ["Downloads"] }

/-- A ping and the only packet of a monitor. -/
def pingPacket : List Message := [.ping 7, .video 1 0 true [9]]

/-- A ping and a packet, as they are written. -/
def pingPacketStream : Bytes := pingPacket.flatMap Message.frame

/-- The host has written the two messages to their end. -/
theorem written_pingPacket : Written pingPacket [] pingPacketStream := by
  have hping : writeMessage {} (.ping 7) [] = (.ok (), (Message.ping 7).frame) := by decide
  have hpacket : writeMessage {} (.video 1 0 true [9]) (Message.ping 7).frame =
      (.ok (), pingPacketStream) := by decide
  exact Written.next hping (Written.next hpacket (Written.done pingPacketStream))

/-- The ping comes in three pieces, and the window paints in between and once at the end. -/
def pieces : List ClientEvent :=
  [.reader (.arrive pingPacketStream), .reader (.read 2), .paint, .reader (.read 1),
    .reader (.read 99), .reader .handOver, .take quietIo, .send, .reader (.read 99),
    .reader (.read 99), .reader .handOver, .take quietIo, .paint]

/-- The reader takes the two messages in pieces. -/
theorem session_takes_whole_frames_pieces :
    let session : ClientSession onePixel :=
      ClientSession.live sampleSha256 plainConfig welcome quietIo ⟨fun _ => none, []⟩ 1 pieces
    session.reader.taken <+: pingPacket ∧
      (session.reader.Idle → ∃ cut part, pingPacket = session.reader.taken ++ cut ∧
        ReaderTask.CutBehind session.reader.taken cut session.reader.arrived part) ∧
      ∀ err, session.reader.broke = some err →
        ∃ cut part, pingPacket = session.reader.taken ++ cut ∧
          ReaderTask.CutBehind session.reader.taken cut session.reader.arrived part ∧
            err = cutError part :=
  session_takes_whole_frames sampleSha256 plainConfig welcome quietIo ⟨fun _ => none, []⟩ 1 pieces
    (by decide) written_pingPacket (by decide)

/-- All of the stream has been read, and the window has the pixel. -/
example :
    let session : ClientSession onePixel :=
      ClientSession.live sampleSha256 plainConfig welcome quietIo ⟨fun _ => none, []⟩ 1 pieces
    session.reader.taken = pingPacket ∧ session.pipe.queue = [.pong 7] ∧
      session.pictures.taken = [⟨1, 1, 1, [9]⟩] := by decide

end OmarchyConnect.System
