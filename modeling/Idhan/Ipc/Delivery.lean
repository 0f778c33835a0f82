import Mathlib.Data.List.Induction
import Idhan.Ipc.Frame

/-!
# The channel delivers what was enqueued

Every frame is a word of cells: the bytes of its header and of its body, the first of them with the
descriptors.  At any time the cells that the reader has taken of the frame it is at, those in the
socket and those that the writer has left are together the words of the frames that are still to
come; and the state of the reader is a function of the cells that it has taken.

Neither end knows where the other one has stopped, and a call may take any number of bytes; the
cells do not depend on it.  `drainRound_cells` says that the writer puts the cells into the socket
that it has left, in their order, and `advance_receive` what the reader makes of the next cells of a
frame, however few.  `Delivering.step` is the invariant, `Delivering.readAll` says that a `read`
ends, and `channel_delivers` what has been returned in any run.
-/

namespace Idhan.Ipc

open List

variable {J φ : Type} {json : JsonLibrary J} {w w' : FrameWriter φ} {pending : Pending φ}
variable {c : Channel J φ} {consumed : List (Cell φ)} {coming : List (Frame J φ)}

/-! ## Words of cells -/

theorem map_byte_attach (fds : List φ) (bytes : List UInt8) :
    (attach fds bytes).map Cell.byte = bytes := by
  cases bytes with
  | nil => rfl
  | cons byte bytes => simp [attach, Function.comp_def]

theorem length_attach (fds : List φ) (bytes : List UInt8) :
    (attach fds bytes).length = bytes.length := by
  rw [← length_map Cell.byte, map_byte_attach]

theorem flatMap_fds_attach (fds : List φ) {bytes : List UInt8} (h : bytes ≠ []) :
    (attach fds bytes).flatMap Cell.fds = fds := by
  obtain ⟨byte, bytes, rfl⟩ := exists_cons_of_ne_nil h
  simp [attach, flatMap_map]

/-- The descriptors go with the first part. -/
theorem attach_append (fds : List φ) {bytes : List UInt8} (h : bytes ≠ []) (bytes' : List UInt8) :
    attach fds (bytes ++ bytes') = attach fds bytes ++ attach [] bytes' := by
  obtain ⟨byte, bytes, rfl⟩ := exists_cons_of_ne_nil h
  cases bytes' with
  | nil => simp [attach]
  | cons byte' bytes' => simp [attach]

/-- The bytes of a frame. -/
def Frame.bytes (json : JsonLibrary J) (frame : Frame J φ) : List UInt8 :=
  Header.toBytes ⟨(json.writeString frame.body).length, frame.fds.length⟩ ++ json.writeString
    frame.body

/-- The word of a frame. -/
def Frame.cells (json : JsonLibrary J) (frame : Frame J φ) : List (Cell φ) :=
  attach frame.fds (frame.bytes json)

/-- The body is parsed back from its text. -/
def JsonLibrary.Restores (json : JsonLibrary J) (body : J) : Prop :=
  json.parse (json.writeString body) = .ok body

/-- The frame is within the limits, and its body is restored. -/
structure Frame.Fits (json : JsonLibrary J) (frame : Frame J φ) : Prop where
  body : (json.writeString frame.body).length ≤ maxFrameBody
  fds : frame.fds.length ≤ maxFrameFds
  restored : json.Restores frame.body

theorem length_toBytes (header : Header) : header.toBytes.length = headerSize := by
  simp [Header.toBytes, headerSize]

section

variable (json) (frame : Frame J φ)

theorem Frame.length_bytes :
    (frame.bytes json).length = headerSize + (json.writeString frame.body).length := by
  rw [Frame.bytes, length_append, length_toBytes]

theorem Frame.length_cells :
    (frame.cells json).length = headerSize + (json.writeString frame.body).length := by
  rw [Frame.cells, length_attach, frame.length_bytes]

theorem Frame.bytes_ne_nil : frame.bytes json ≠ [] := by
  intro hnil
  have hlen := frame.length_bytes json
  rw [hnil, length_nil, headerSize] at hlen
  omega

theorem Frame.flatMap_fds_cells : (frame.cells json).flatMap Cell.fds = frame.fds :=
  flatMap_fds_attach frame.fds (frame.bytes_ne_nil json)

end

/-- The header of a frame within the limits is read back. -/
theorem Frame.Fits.header {frame : Frame J φ} (h : frame.Fits json) :
    Header.ofBytes ((frame.bytes json).take headerSize) =
      ⟨(json.writeString frame.body).length, frame.fds.length⟩ := by
  have htake : (frame.bytes json).take headerSize =
      leBytes 4 (json.writeString frame.body).length ++ leBytes 4 frame.fds.length := by
    rw [Frame.bytes, ← length_toBytes ⟨(json.writeString frame.body).length, frame.fds.length⟩,
      take_left]
    rfl
  have hbody : (json.writeString frame.body).length < 256 ^ 4 := h.body.trans_lt (by decide)
  have hfds : frame.fds.length < 256 ^ 4 := h.fds.trans_lt (by decide)
  rw [htake, Header.ofBytes, take_left' (length_leBytes ..), drop_left' (length_leBytes ..),
    leValue_leBytes, leValue_leBytes, Nat.mod_eq_of_lt hbody, Nat.mod_eq_of_lt hfds]

/-! ## The writer -/

/-- Something is left to send, and the descriptors only if everything is. -/
def Pending.Sane (pending : Pending φ) : Prop :=
  pending.sent < pending.buffer.length ∧ (pending.sent ≠ 0 → pending.fds = [])

/-- The cells that are left to send. -/
def Pending.cells (pending : Pending φ) : List (Cell φ) :=
  attach pending.fds (pending.buffer.drop pending.sent)

/-- The cells that a writer has left. -/
def FrameWriter.unsent (w : FrameWriter φ) : List (Cell φ) :=
  w.queue.flatMap Pending.cells

/-- What a round writes: a part of what is left, from its start, that is not empty. -/
theorem Pending.Sane.written (h : pending.Sane) (limit : ℕ) :
    ((if pending.sent == 0 && !pending.fds.isEmpty then pending.buffer.take headerSize
      else pending.buffer.drop pending.sent).take (max limit 1)) <+:
      pending.buffer.drop pending.sent ∧
    ((if pending.sent == 0 && !pending.fds.isEmpty then pending.buffer.take headerSize
      else pending.buffer.drop pending.sent).take (max limit 1)) ≠ [] := by
  have hlen := h.1
  split_ifs with hfds
  · have hzero : pending.sent = 0 := by simpa using (Bool.and_eq_true_iff.1 hfds).1
    rw [hzero, drop_zero]
    have hheader : pending.buffer.take headerSize <+: pending.buffer := ⟨_, take_append_drop ..⟩
    refine ⟨.trans ⟨_, take_append_drop ..⟩ hheader, ne_nil_of_length_pos ?_⟩
    rw [length_take, length_take, headerSize]
    omega
  · refine ⟨⟨_, take_append_drop ..⟩, ne_nil_of_length_pos ?_⟩
    rw [length_take, length_drop]
    omega

/-- The descriptors go with what is written, if there are any left. -/
theorem Pending.Sane.attached (h : pending.Sane) :
    (if pending.sent == 0 && !pending.fds.isEmpty then pending.fds else []) = pending.fds := by
  split_ifs with hfds
  · rfl
  · by_cases hzero : pending.sent = 0
    · cases hnil : pending.fds with
      | nil => rfl
      | cons fd fds => simp [hzero, hnil] at hfds
    · exact (h.2 hzero).symm

/-- **A round of the writer** moves some of the cells that it has left, and one at least if it has
any. -/
theorem drainRound_cells (w : FrameWriter φ) (limit : ℕ)
    (hsane : ∀ pending ∈ w.queue, pending.Sane) :
    (w.drainRound limit).1 ++ (w.drainRound limit).2.unsent = w.unsent ∧
      (∀ pending ∈ (w.drainRound limit).2.queue, pending.Sane) ∧
      (w.queue ≠ [] → 0 < (w.drainRound limit).1.length) := by
  obtain ⟨queue⟩ := w
  cases queue with
  | nil => exact ⟨rfl, hsane, fun h => absurd rfl h⟩
  | cons pending queue =>
    obtain ⟨hpending, hqueue⟩ := forall_mem_cons.1 hsane
    simp only [FrameWriter.drainRound, FrameWriter.unsent, flatMap_cons, hpending.attached]
    obtain ⟨hstart, hne⟩ := hpending.written limit
    generalize (if pending.sent == 0 && !pending.fds.isEmpty then pending.buffer.take headerSize
      else pending.buffer.drop pending.sent).take (max limit 1) = written at hstart hne
    have hpos := length_pos_iff.2 hne
    have hsplit : written ++ pending.buffer.drop (pending.sent + written.length) =
        pending.buffer.drop pending.sent := by
      obtain ⟨tail, htail⟩ := hstart
      rw [← drop_drop, ← htail, drop_left]
    have hcells : pending.cells =
        attach pending.fds written ++
        attach [] (pending.buffer.drop (pending.sent + written.length)) := by
      rw [Pending.cells, ← hsplit, attach_append _ hne]
    rw [if_pos hpos]
    split_ifs with hdone
    · rw [drop_eq_nil_of_le hdone] at hcells
      exact ⟨by rw [hcells, attach, append_nil], hqueue, fun _ => by rwa [length_attach]⟩
    · refine ⟨by rw [hcells, flatMap_cons, append_assoc]; rfl, ?_, fun _ => by rwa [length_attach]⟩
      exact forall_mem_cons.2 ⟨⟨Nat.lt_of_not_le hdone, fun _ => rfl⟩, hqueue⟩

/-- The writer after some rounds. -/
def FrameWriter.drainRounds (w : FrameWriter φ) (limits : List ℕ) : FrameWriter φ :=
  limits.foldl (fun w limit => (w.drainRound limit).2) w

/-- **Rounds of the writer empty its queue**, as many as it has cells left. -/
theorem drainRounds_empty {limits : List ℕ} (hsane : ∀ pending ∈ w.queue, pending.Sane)
    (hlimits : w.unsent.length ≤ limits.length) : (w.drainRounds limits).queue = [] := by
  induction limits generalizing w with
  | nil =>
    by_contra hne
    obtain ⟨pending, queue, hqueue⟩ := exists_cons_of_ne_nil hne
    have hpending := (hsane pending (hqueue ▸ mem_cons_self ..)).1
    change w.queue = _ at hqueue
    rw [FrameWriter.unsent, hqueue, flatMap_cons, length_append, Pending.cells, length_attach,
      length_drop, length_nil] at hlimits
    omega
  | cons limit limits ih =>
    obtain ⟨hcells, hsane', hprogress⟩ := drainRound_cells w limit hsane
    have hlength := congrArg List.length hcells
    rw [length_append] at hlength
    rw [length_cons] at hlimits
    refine ih hsane' (show (w.drainRound limit).2.unsent.length ≤ limits.length from ?_)
    by_cases hqueue : w.queue = []
    · have hnone : w.unsent.length = 0 := by rw [FrameWriter.unsent, hqueue]; rfl
      omega
    · have := hprogress hqueue
      omega

/-- What `enqueue` accepts is within the limits, and is left to send after what was left before. -/
theorem enqueue_eq_ok {writeString : J → List UInt8} {body : J} {fds : List φ}
    {dupError : Option String} (hsane : ∀ pending ∈ w.queue, pending.Sane)
    (h : w.enqueue writeString dupError body fds = .ok w') :
    ((writeString body).length ≤ maxFrameBody ∧ fds.length ≤ maxFrameFds) ∧
    (∀ pending ∈ w'.queue, pending.Sane) ∧
      w'.unsent = w.unsent ++ attach fds (Header.toBytes ⟨(writeString body).length, fds.length⟩ ++
        writeString body) := by
  simp only [FrameWriter.enqueue] at h
  split_ifs at h with hfds hbody
  split at h
  · cases h
  cases h
  refine ⟨⟨Nat.le_of_not_lt hbody, Nat.le_of_not_lt hfds⟩, ?_, ?_⟩
  · refine forall_mem_append.2 ⟨hsane, forall_mem_singleton.2 ⟨?_, fun hne => absurd rfl hne⟩⟩
    simp [length_toBytes, headerSize]
  · rw [FrameWriter.unsent, flatMap_append, flatMap_singleton]
    rfl

/-! ## The reader -/

/-- The reader that has taken some cells of a frame, and not all. -/
def readerAfter (eof : Bool) (consumed : List (Cell φ)) : FrameReader φ :=
  if consumed.length < headerSize then
    ⟨consumed.map Cell.byte, [], false, consumed.flatMap Cell.fds, eof⟩
  else
    ⟨(consumed.map Cell.byte).take headerSize, (consumed.map Cell.byte).drop headerSize, true,
      consumed.flatMap Cell.fds, eof⟩

section Frames

variable {frame : Frame J φ} {received rest : List (Cell φ)} {eof : Bool}

section

variable (hcells : consumed ++ rest = frame.cells json)
include hcells

/-- The bytes of a frame of which some cells are known. -/
theorem bytes_of_cells : consumed.map Cell.byte ++ rest.map Cell.byte = frame.bytes json := by
  rw [← map_append, hcells, Frame.cells, map_byte_attach]

theorem length_of_cells :
    consumed.length + rest.length = headerSize + (json.writeString frame.body).length := by
  rw [← length_append, hcells, frame.length_cells]

/-- The cells of a header tell its bytes. -/
theorem take_of_cells (hheader : ¬ consumed.length < headerSize) :
    (consumed.map Cell.byte).take headerSize = (frame.bytes json).take headerSize := by
  rw [← bytes_of_cells hcells, take_append_of_le_length (by rw [length_map]; omega)]

end

/-- A reader inside a frame asks for something, and for nothing behind the frame. -/
theorem want_readerAfter (hfits : frame.Fits json) (hcells : consumed ++ rest = frame.cells json)
    (hrest : rest ≠ []) :
    0 < (readerAfter eof consumed).want ∧ (readerAfter eof consumed).want ≤ rest.length := by
  have hlen := length_of_cells hcells
  have hpos := length_pos_iff.2 hrest
  unfold readerAfter
  split_ifs with hheader
  · simp only [FrameReader.want, Bool.not_false, if_true, length_map]
    omega
  · simp only [FrameReader.want, FrameReader.header, Bool.not_true, Bool.false_eq_true, if_false,
      take_of_cells hcells hheader, hfits.header, length_drop, length_map]
    omega

/-- When the last cell of a frame has come, the frame is there. -/
theorem finish_frame (hfits : frame.Fits json) :
    (FrameReader.mk ((frame.bytes json).take headerSize) ((frame.bytes json).drop headerSize) true
      frame.fds eof).finish json = .ok ({ FrameReader.start with eof := eof }, some frame) := by
  have hbody : (frame.bytes json).drop headerSize = json.writeString frame.body := by
    rw [Frame.bytes, ← length_toBytes ⟨(json.writeString frame.body).length, frame.fds.length⟩,
      drop_left]
  simp only [FrameReader.finish, FrameReader.header, hfits.header, hbody, lt_irrefl, if_false,
    show json.parse (json.writeString frame.body) = _ from hfits.restored, ne_eq, not_true_eq_false]

/-- While cells of the body are missing, the reader keeps what it has. -/
theorem finish_none (hfits : frame.Fits json) {body : List UInt8} {fds : List φ}
    (hlen : body.length < (json.writeString frame.body).length) :
    (FrameReader.mk ((frame.bytes json).take headerSize) body true fds eof).finish json =
      .ok (⟨(frame.bytes json).take headerSize, body, true, fds, eof⟩, none) := by
  simp only [FrameReader.finish, FrameReader.header, hfits.header, if_pos hlen]

/-- Cells of the header are added to the header. -/
theorem receive_header (hheader : consumed.length < headerSize) :
    (readerAfter eof consumed).receive received = ⟨(consumed ++ received).map Cell.byte, [], false,
      (consumed ++ received).flatMap Cell.fds, eof⟩ := by
  simp [readerAfter, if_pos hheader, FrameReader.receive]

/-- Cells of the body are added to the body. -/
theorem receive_body (hheader : ¬ consumed.length < headerSize) :
    (readerAfter eof consumed).receive received = readerAfter eof (consumed ++ received) := by
  have hle : headerSize ≤ (consumed.map Cell.byte).length := by
    rw [length_map]
    omega
  have hnot : ¬ (consumed ++ received).length < headerSize := by
    rw [length_append]
    omega
  simp only [readerAfter, if_neg hheader, if_neg hnot, FrameReader.receive, Bool.not_true,
    Bool.false_eq_true, if_false, map_append, flatMap_append, take_append_of_le_length hle,
    drop_append_of_le_length hle]

/-- The end of a round, when the header is complete and so is the frame, or not. -/
theorem finish_readerAfter (hfits : frame.Fits json) (hcells : consumed ++ rest = frame.cells json)
    (hheader : ¬ consumed.length < headerSize) :
    (readerAfter eof consumed).finish json =
      if rest = [] then .ok ({ FrameReader.start with eof := eof }, some frame)
      else .ok (readerAfter eof consumed, none) := by
  rw [readerAfter, if_neg hheader, take_of_cells hcells hheader]
  split_ifs with hrest
  · have hbytes := bytes_of_cells hcells
    have hfds := frame.flatMap_fds_cells json
    rw [← hcells, hrest, append_nil] at hfds
    rw [hrest, map_nil, append_nil] at hbytes
    rw [hbytes, hfds]
    exact finish_frame hfits
  · refine finish_none hfits ?_
    have hpos := length_pos_iff.2 hrest
    have hlen := length_of_cells hcells
    rw [length_drop, length_map]
    omega

/-- **What the reader makes of the next cells of a frame**: it has taken them as well, or the frame
is complete. -/
theorem advance_receive (hfits : frame.Fits json)
    (hcells : consumed ++ received ++ rest = frame.cells json)
    (hwant : received.length ≤ (readerAfter eof consumed).want) :
    ((readerAfter eof consumed).receive received).advance json =
      if rest = [] then .ok ({ FrameReader.start with eof := eof }, some frame)
      else .ok (readerAfter eof (consumed ++ received), none) := by
  have hlen := length_of_cells hcells
  rw [length_append] at hlen
  by_cases hheader : consumed.length < headerSize
  case neg =>
    rw [receive_body hheader, FrameReader.advance]
    have hnot : ¬ (consumed ++ received).length < headerSize := by
      rw [length_append]
      omega
    rw [← finish_readerAfter hfits hcells hnot]
    simp only [readerAfter, if_neg hnot, Bool.not_true, Bool.false_eq_true, if_false]
  case pos =>
    simp only [readerAfter, if_pos hheader, FrameReader.want, Bool.not_false, if_true,
      length_map] at hwant
    rw [receive_header hheader]
    by_cases hshort : (consumed ++ received).length < headerSize
    · -- the header is still not complete
      have hrest : rest ≠ [] := by
        rintro rfl
        rw [length_append] at hshort
        rw [length_nil] at hlen
        omega
      rw [if_neg hrest, readerAfter, if_pos hshort]
      simp only [FrameReader.advance, Bool.not_false, if_true, length_map, if_pos hshort]
    · -- the header has just become complete
      have hfull : ((consumed ++ received).map Cell.byte).length = headerSize := by
        rw [length_append] at hshort
        rw [length_map, length_append]
        omega
      have hbytes : (consumed ++ received).map Cell.byte = (frame.bytes json).take headerSize := by
        rw [← bytes_of_cells hcells, ← hfull, take_left]
      rw [← finish_readerAfter hfits hcells hshort, readerAfter, if_neg hshort,
        take_of_length_le hfull.le, drop_of_length_le hfull.le]
      rw [hbytes] at hfull ⊢
      simp only [FrameReader.advance, Bool.not_false, if_true, hfull, lt_irrefl, if_false,
        FrameReader.header, hfits.header, if_neg (Nat.not_lt.2 hfits.body),
        if_neg (Nat.not_lt.2 hfits.fds)]
      split_ifs with hbody
      · exact (finish_none hfits (show ([] : List UInt8).length < _ from hbody)).symm
      · rfl

end Frames

/-! ## The invariant -/

/-- Nothing has failed, and what the reader has taken of the next frame, the socket and the writer
hold the frames that are still to come. -/
structure Delivering (json : JsonLibrary J) (c : Channel J φ) (consumed : List (Cell φ))
    (coming : List (Frame J φ)) : Prop where
  failure : c.failure = none
  accepted : c.accepted = c.returned ++ c.completed ++ coming
  fits : ∀ frame ∈ coming, frame.Fits json
  sane : ∀ pending ∈ c.writer.queue, pending.Sane
  cells : consumed ++ c.socket ++ c.writer.unsent = coming.flatMap (Frame.cells json)
  reader : c.reader = readerAfter c.reader.eof consumed
  inside : ∀ frame ∈ coming.head?, consumed.length < (frame.cells json).length
  between : coming = [] → consumed = []

/-- A body that is given to the writer is parsed back from its text. -/
def ChannelAction.Restored (json : JsonLibrary J) : ChannelAction J φ → Prop
  | .enqueue _ body _ => json.Restores body
  | _ => True

namespace Delivering

theorem start (json : JsonLibrary J) : Delivering json (Channel.start : Channel J φ) [] [] :=
  ⟨rfl, rfl, fun _ h => (nomatch h), fun _ h => (nomatch h), rfl, rfl, fun _ h => (nomatch h),
    fun _ => rfl⟩

/-- A frame is enqueued behind those that are to come. -/
theorem enqueue (h : Delivering json c consumed coming) {dupError : Option String} {body : J}
    {fds : List φ} {writer : FrameWriter φ} (hbody : json.Restores body)
    (henqueue : c.writer.enqueue json.writeString dupError body fds = .ok writer) :
    Delivering json { c with writer := writer, accepted := c.accepted ++ [⟨body, fds⟩] } consumed
      (coming ++ [⟨body, fds⟩]) := by
  obtain ⟨hfits, hsane, hunsent⟩ := enqueue_eq_ok h.sane henqueue
  refine ⟨h.failure, ?_, ?_, hsane, ?_, h.reader, ?_, fun hnil => ?_⟩
  · simp only [h.accepted, append_assoc]
  · exact forall_mem_append.2 ⟨h.fits, forall_mem_singleton.2 ⟨hfits.1, hfits.2, hbody⟩⟩
  · rw [hunsent, ← append_assoc, h.cells, flatMap_append, flatMap_singleton]
    rfl
  · cases coming with
    | nil =>
      rintro frame ⟨⟩
      rw [h.between rfl, Frame.length_cells, headerSize, length_nil]
      omega
    | cons first coming => exact h.inside
  · simp at hnil

/-- The writer puts cells into the socket. -/
theorem drain (h : Delivering json c consumed coming) (limit : ℕ) :
    Delivering json { c with
      writer := (c.writer.drainRound limit).2
      socket := c.socket ++ (c.writer.drainRound limit).1 } consumed coming := by
  obtain ⟨hcells, hsane, -⟩ := drainRound_cells c.writer limit h.sane
  refine { h with sane := hsane, cells := ?_ }
  rw [← h.cells, ← hcells]
  simp only [append_assoc]

/-- What is missing of the next frame is in front of the socket and of what is left to send. -/
theorem next {frame : Frame J φ} (h : Delivering json c consumed (frame :: coming)) :
    ∃ rest, rest ≠ [] ∧ consumed ++ rest = frame.cells json ∧
      c.socket ++ c.writer.unsent = rest ++ coming.flatMap (Frame.cells json) := by
  have hinside := h.inside frame rfl
  have hcells := h.cells
  rw [flatMap_cons, append_assoc] at hcells
  obtain ⟨rest, hrest⟩ : consumed <+: frame.cells json :=
    prefix_of_prefix_length_le ⟨_, hcells⟩ ⟨_, rfl⟩ hinside.le
  refine ⟨rest, ?_, hrest, ?_⟩
  · rintro rfl
    rw [← hrest, append_nil] at hinside
    exact lt_irrefl _ hinside
  · rw [← hrest, append_assoc] at hcells
    exact append_cancel_left hcells

section

variable (h : Delivering json c consumed coming)
include h

/-- The reader always asks for something. -/
theorem want : 0 < c.reader.want := by
  rw [h.reader]
  cases coming with
  | nil =>
    rw [h.between rfl]
    simp [readerAfter, FrameReader.want, headerSize]
  | cons frame coming =>
    obtain ⟨rest, hne, hrest, _⟩ := h.next
    exact (want_readerAfter (h.fits frame (mem_cons_self ..)) hrest hne).1

/-- The `read` that is going on returns. -/
theorem returnCompleted : Delivering json c.returnCompleted consumed coming := by
  refine { h with accepted := ?_ }
  simp only [Channel.returnCompleted, h.accepted, append_nil]

theorem atEof :
    Delivering json { c with reader := { c.reader with eof := true } } consumed coming := by
  refine { h with reader := ?_ }
  rw [h.reader]
  unfold readerAfter
  split_ifs <;> rfl

/-- On an empty socket a round returns. -/
theorem readRound_empty (hsocket : c.socket = []) (limit : ℕ) :
    Delivering json (c.readRound json limit) consumed coming ∧
      (c.readRound json limit).socket = [] ∧ (c.readRound json limit).completed = [] := by
  simp only [Channel.readRound, if_neg h.want.ne', if_pos hsocket]
  split_ifs
  · exact ⟨h.atEof.returnCompleted, hsocket, rfl⟩
  · exact ⟨h.returnCompleted, hsocket, rfl⟩

/-- The reader receives cells of the next frame. -/
theorem receive (hsocket : c.socket ≠ []) (limit : ℕ) :
    ∃ consumed' coming', Delivering json (c.readRound json limit) consumed' coming' ∧
      (c.readRound json limit).socket.length < c.socket.length := by
  have hwant := h.want
  cases coming with
  | nil =>
    have hcells := h.cells
    simp only [flatMap_nil, append_eq_nil_iff] at hcells
    exact absurd hcells.1.2 hsocket
  | cons frame coming =>
    obtain ⟨rest, hne, hrest, hcoming⟩ := h.next
    have hfits := h.fits frame (mem_cons_self ..)
    have hle : c.reader.want ≤ rest.length := by
      rw [h.reader]
      exact (want_readerAfter hfits hrest hne).2
    -- what is received is not empty, and belongs to the frame
    obtain ⟨n, hn⟩ : ∃ n, min (max limit 1) c.reader.want = n := ⟨_, rfl⟩
    have hpos : 0 < n := by omega
    have hreceived : (c.socket.take n).length ≤ c.reader.want := by
      rw [length_take]
      omega
    obtain ⟨rest', rfl⟩ : c.socket.take n <+: rest :=
      prefix_of_prefix_length_le
        (.trans ⟨_, take_append_drop n c.socket⟩ ⟨c.writer.unsent, hcoming⟩) ⟨_, rfl⟩
        (hreceived.trans hle)
    rw [← append_assoc] at hrest
    have hfds : ¬ maxFrameFds < ((c.socket.take n).flatMap Cell.fds).length := by
      have hsub := congrArg (fun cells => (List.flatMap Cell.fds cells).length) hrest
      simp only [flatMap_append, length_append, frame.flatMap_fds_cells] at hsub
      have hmax := hfits.fds
      omega
    have hsplit : c.socket.drop n ++ c.writer.unsent =
        rest' ++ coming.flatMap (Frame.cells json) := by
      refine (append_right_inj (c.socket.take n)).1 ?_
      rw [← append_assoc, take_append_drop, hcoming, append_assoc]
    have hadvance := advance_receive hfits hrest (h.reader ▸ hreceived)
    rw [← h.reader] at hadvance
    have hdrop : (c.socket.drop n).length < c.socket.length := by
      have := length_pos_iff.2 hsocket
      rw [length_drop]
      omega
    simp only [Channel.readRound, if_neg hwant.ne', if_neg hsocket, hn, if_neg hfds,
      Channel.advanceReader, hadvance]
    split_ifs with hdone
    · subst hdone
      refine ⟨[], coming, ⟨h.failure, ?_,
        fun frame hframe => h.fits frame (mem_cons_of_mem _ hframe), h.sane, hsplit, ?_, ?_,
        fun _ => rfl⟩, hdrop⟩
      · simp only [h.accepted, append_assoc, singleton_append]
      · rfl
      · intro next _
        rw [next.length_cells, headerSize, length_nil]
        omega
    · refine ⟨consumed ++ c.socket.take n, frame :: coming,
        ⟨h.failure, h.accepted, h.fits, h.sane, ?_, ?_, ?_, fun hnil => (nomatch hnil)⟩, hdrop⟩
      · rw [append_assoc _ (c.socket.drop n), hsplit, flatMap_cons, ← hrest, append_assoc _ rest']
      · simp only
        unfold readerAfter
        split_ifs <;> rfl
      · rintro next ⟨⟩
        have := length_pos_iff.2 hdone
        simp only [← hrest, length_append]
        omega

/-- **Every action keeps the invariant.** -/
theorem step {action : ChannelAction J φ} (hbody : action.Restored json) :
    ∃ consumed' coming', Delivering json (c.step json action) consumed' coming' := by
  cases action with
  | enqueue dupError body fds =>
    simp only [Channel.step]
    split
    · exact ⟨consumed, coming, h⟩
    case h_2 writer henqueue => exact ⟨consumed, _, h.enqueue hbody henqueue⟩
  | drain limit =>
    simp only [Channel.step]
    split_ifs
    · exact ⟨consumed, coming, h⟩
    · exact ⟨consumed, coming, h.drain limit⟩
  | close => exact ⟨consumed, coming, { h with }⟩
  | read limit =>
    simp only [Channel.step, h.failure, Option.isSome_none, Bool.false_eq_true, if_false]
    by_cases hsocket : c.socket = []
    · exact ⟨consumed, coming, (h.readRound_empty hsocket limit).1⟩
    · obtain ⟨consumed', coming', h', _⟩ := h.receive hsocket limit
      exact ⟨consumed', coming', h'⟩

end

theorem run {actions : List (ChannelAction J φ)}
    (hbodies : ∀ action ∈ actions, action.Restored json) :
    ∃ consumed coming, Delivering json (Channel.run json actions) consumed coming := by
  unfold Channel.run
  induction actions using List.reverseRecOn with
  | nil => exact ⟨[], [], start json⟩
  | append_singleton actions action ih =>
    obtain ⟨hbefore, hbody⟩ := forall_mem_append.1 hbodies
    obtain ⟨consumed, coming, h⟩ := ih hbefore
    rw [foldl_append]
    exact h.step (forall_mem_singleton.1 hbody)

end Delivering

/-! ## Delivery -/

section

variable (json) (c)

/-- A round of the reader leaves the writer and the frames that were accepted alone. -/
theorem advanceReader_writer :
    (c.advanceReader json).writer = c.writer ∧ (c.advanceReader json).accepted = c.accepted := by
  unfold Channel.advanceReader
  split <;> exact ⟨rfl, rfl⟩

theorem readRound_writer (limit : ℕ) : (c.readRound json limit).writer = c.writer ∧
    (c.readRound json limit).accepted = c.accepted := by
  simp only [Channel.readRound]
  split_ifs
  · exact advanceReader_writer json c
  · exact ⟨rfl, rfl⟩
  · exact ⟨rfl, rfl⟩
  · exact ⟨rfl, rfl⟩
  · exact advanceReader_writer json _

end

/-- **A `read` ends.**  Without more from the writer it takes what is in the socket, in whatever
portions, and returns. -/
theorem Delivering.readAll (h : Delivering json c consumed coming) {limits : List ℕ}
    (hlimits : c.socket.length < limits.length) :
    ∃ consumed' coming', Delivering json (limits.foldl (Channel.readRound json) c) consumed'
      coming' ∧ (limits.foldl (Channel.readRound json) c).socket = [] ∧
      (limits.foldl (Channel.readRound json) c).completed = [] ∧
      (limits.foldl (Channel.readRound json) c).writer = c.writer ∧
      (limits.foldl (Channel.readRound json) c).accepted = c.accepted := by
  induction limits generalizing c consumed coming with
  | nil => exact absurd hlimits (Nat.not_lt_zero _)
  | cons limit limits ih =>
    obtain ⟨hwriter, haccepted⟩ := readRound_writer json c limit
    rw [foldl_cons, ← hwriter, ← haccepted]
    by_cases hsocket : c.socket = []
    · obtain ⟨h', hsocket', hcompleted'⟩ := h.readRound_empty hsocket limit
      cases limits with
      | nil => exact ⟨consumed, coming, h', hsocket', hcompleted', rfl, rfl⟩
      | cons _ _ => exact ih h' (by rw [hsocket']; exact Nat.succ_pos _)
    · obtain ⟨consumed', coming', h', hless⟩ := h.receive hsocket limit
      exact ih h' (by rw [length_cons] at hlimits; omega)

/-- The reader is between two frames. -/
def FrameReader.Between (r : FrameReader φ) : Prop :=
  r = { FrameReader.start with eof := r.eof }

/-- When nothing is left to send or to receive, everything has been delivered. -/
theorem Delivering.complete (h : Delivering json c consumed coming) (hqueue : c.writer.queue = [])
    (hsocket : c.socket = []) : c.returned ++ c.completed = c.accepted ∧ c.reader.Between := by
  have hcells := h.cells
  rw [hsocket, FrameWriter.unsent, hqueue, flatMap_nil, append_nil, append_nil] at hcells
  cases coming with
  | nil =>
    refine ⟨by rw [h.accepted, append_nil], ?_⟩
    have hreader := h.reader
    rwa [h.between rfl] at hreader
  | cons frame coming =>
    have hinside := h.inside frame rfl
    rw [hcells, flatMap_cons, length_append] at hinside
    omega

/-- What holds of a channel whatever portions the socket has taken and given. -/
structure Channel.Delivers (json : JsonLibrary J) (c : Channel J φ) : Prop where
  /-- no `read` reports an error -/
  failure : c.failure = none
  /-- the frames that the calls of `read` have returned, with those of the call that is going on,
  are the first of the accepted frames, with their bodies and descriptors -/
  inOrder : c.returned ++ c.completed <+: c.accepted
  /-- they are all of them, and the reader is between two frames, when everything is sent and
  received -/
  complete : c.writer.queue = [] → c.socket = [] → c.returned ++ c.completed = c.accepted ∧
    c.reader.Between
  /-- a `read` that the writer does not feed any more comes to an empty socket and returns -/
  reads : ∀ limits : List ℕ, c.socket.length < limits.length →
    ∃ c', c' = limits.foldl (Channel.readRound json) c ∧ c'.failure = none ∧ c'.socket = [] ∧
      c'.completed = [] ∧ c'.returned <+: c'.accepted ∧
      (c.writer.queue = [] → c'.returned = c.accepted ∧ c'.reader.Between)
  /-- rounds of `drain` for which the socket has space empty the queue -/
  drains : ∀ limits : List ℕ, c.writer.unsent.length ≤ limits.length →
    (c.writer.drainRounds limits).queue = []

/-- **The channel delivers exactly what was enqueued**, in every run in which the bodies that are
given to the writer are parsed back from their texts. -/
theorem channel_delivers (json : JsonLibrary J) {actions : List (ChannelAction J φ)}
    (hbodies : ∀ action ∈ actions, action.Restored json) :
    (Channel.run json actions).Delivers json := by
  obtain ⟨consumed, coming, h⟩ := Delivering.run hbodies
  refine ⟨h.failure, ⟨coming, h.accepted.symm⟩, h.complete, fun limits hlimits => ?_,
    fun _ => drainRounds_empty h.sane⟩
  obtain ⟨consumed', coming', h', hsocket, hcompleted, hwriter, haccepted⟩ := h.readAll hlimits
  refine ⟨_, rfl, h'.failure, hsocket, hcompleted, ?_, fun hqueue => ?_⟩
  · have haccepted' := h'.accepted
    rw [hcompleted, append_nil] at haccepted'
    exact ⟨coming', haccepted'.symm⟩
  · have hcomplete := h'.complete (hwriter ▸ hqueue) hsocket
    rwa [hcompleted, append_nil, haccepted] at hcomplete

/-- A frame with a descriptor and a body of two bytes, sent and received in portions. -/
def portions : List (ChannelAction (List UInt8) ℕ) :=
  [.enqueue none [1, 2] [7], .drain 3, .drain 9, .drain 9, .read 5, .read 9, .read 1, .read 1,
    .read 1]

theorem channel_delivers_portions : (Channel.run ⟨id, .ok⟩ portions).Delivers ⟨id, .ok⟩ ∧
    (Channel.run ⟨id, .ok⟩ portions).returned = [⟨[1, 2], [7]⟩] := by
  refine ⟨channel_delivers _ ?_, rfl⟩
  simp [portions, ChannelAction.Restored, JsonLibrary.Restores]

end Idhan.Ipc
