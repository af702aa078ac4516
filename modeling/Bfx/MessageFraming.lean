import Bfx.CallOutcome
import Bfx.ScriptText

/-!
Messages on the wire: `CNode::ReceiveMsgBytes` cuts a stream into the same
messages, whatever the pieces are in which it comes.
-/

namespace Bfx.MessageFraming

open CallOutcome HexText ScriptText List

/-- What receiving bytes can do instead of returning. -/
inductive FrameFault where
  | outOfBounds
  | stillRunning
  deriving DecidableEq, Repr

abbrev FrameCall (α : Type) := Except FrameFault α

def MAX_SIZE : Nat := 0x02000000

structure CMessageHeader where
  pchMessageStart : Bytes
  pchCommand : Bytes
  nMessageSize : Nat
  nChecksum : Nat
  deriving DecidableEq, Repr

/-- `hdrbuf >> hdr`, which throws at the end of the data. -/
def readMessageHeader (hdrbuf : Bytes) : Option CMessageHeader :=
  if hdrbuf.length < 24 then none
  else some ⟨hdrbuf.take 4, (hdrbuf.drop 4).take 12, littleEndianValue ((hdrbuf.drop 16).take 4),
    littleEndianValue ((hdrbuf.drop 20).take 4)⟩

structure CNetMessage where
  inData : Bool
  hdrbuf : Bytes
  hdr : CMessageHeader
  nHdrPos : Nat
  vRecv : Bytes
  nDataPos : Nat
  deriving DecidableEq, Repr

def newHeader : CMessageHeader :=
  ⟨[0x32, 0x5e, 0x6f, 0x86], [0, 1, 0, 0, 0, 0, 0, 0, 0, 0, 0, 0], 2 ^ 32 - 1, 0⟩

def newMessage : CNetMessage := ⟨false, replicate 24 0, newHeader, 0, [], 0⟩

def resize (n : Nat) (bytes : Bytes) : Bytes := bytes.take n ++ replicate (n - bytes.length) 0

/-- `memcpy` into a buffer. -/
def copyTo (buffer : Bytes) (pos : Nat) (bytes : Bytes) : FrameCall Bytes :=
  if pos + bytes.length ≤ buffer.length then
    .ok (buffer.take pos ++ bytes ++ buffer.drop (pos + bytes.length))
  else .error .outOfBounds

namespace CNetMessage

def complete (msg : CNetMessage) : Bool := msg.inData && msg.hdr.nMessageSize == msg.nDataPos

/-- No number of bytes stands for `-1`. -/
def readHeader (msg : CNetMessage) (pch : Bytes) : FrameCall (Option Nat × CNetMessage) := do
  let nCopy := min (24 - msg.nHdrPos) pch.length
  let hdrbuf ← copyTo msg.hdrbuf msg.nHdrPos (pch.take nCopy)
  let msg := { msg with hdrbuf, nHdrPos := msg.nHdrPos + nCopy }
  if msg.nHdrPos < 24 then .ok (some nCopy, msg)
  else
    match readMessageHeader hdrbuf with
    | none => .ok (none, msg)
    | some hdr =>
      let msg := { msg with hdrbuf := hdrbuf.drop 24, hdr }
      if hdr.nMessageSize > MAX_SIZE then .ok (none, msg)
      else .ok (some nCopy, { msg with inData := true })

def readData (msg : CNetMessage) (pch : Bytes) : FrameCall (Option Nat × CNetMessage) := do
  let nCopy := min (msg.hdr.nMessageSize - msg.nDataPos) pch.length
  let vRecv :=
    if msg.vRecv.length < msg.nDataPos + nCopy then
      resize (min msg.hdr.nMessageSize (msg.nDataPos + nCopy + 256 * 1024)) msg.vRecv
    else msg.vRecv
  let vRecv ← copyTo vRecv msg.nDataPos (pch.take nCopy)
  .ok (some nCopy, { msg with vRecv, nDataPos := msg.nDataPos + nCopy })

def absorb (msg : CNetMessage) (pch : Bytes) : FrameCall (Option Nat × CNetMessage) :=
  if !msg.inData then msg.readHeader pch else msg.readData pch

end CNetMessage

/-- The current incomplete message, or a new one, and the others; the newest is first. -/
def current : List CNetMessage → CNetMessage × List CNetMessage
  | [] => (newMessage, [])
  | msg :: older => if msg.complete then (newMessage, msg :: older) else (msg, older)

def receiveFrom : Nat → Bytes → List CNetMessage → FrameCall (Bool × List CNetMessage)
  | 0, pch, vRecvMsg => if pch = [] then .ok (true, vRecvMsg) else .error .stillRunning
  | fuel + 1, pch, vRecvMsg =>
    if pch = [] then .ok (true, vRecvMsg)
    else do
      let (msg, older) := current vRecvMsg
      let (handled, msg) ← msg.absorb pch
      match handled with
      | none => .ok (false, msg :: older)
      | some handled => receiveFrom fuel (pch.drop handled) (msg :: older)

/-- The loop takes a byte in each step. -/
def receiveMsgBytes (pch : Bytes) (vRecvMsg : List CNetMessage) :
    FrameCall (Bool × List CNetMessage) :=
  receiveFrom pch.length pch vRecvMsg

/-- The pieces of a stream; the node disconnects at the first `false`. -/
def receivePieces : List Bytes → List CNetMessage → FrameCall (Bool × List CNetMessage)
  | [], vRecvMsg => .ok (true, vRecvMsg)
  | piece :: pieces, vRecvMsg => do
    let (received, vRecvMsg) ← receiveMsgBytes piece vRecvMsg
    if received then receivePieces pieces vRecvMsg else .ok (false, vRecvMsg)

/-- The complete messages, in the order of the stream. -/
def completed (vRecvMsg : List CNetMessage) : List (CMessageHeader × Bytes) :=
  ((vRecvMsg.filter (·.complete)).map fun msg => (msg.hdr, msg.vRecv)).reverse

/-- The messages of a whole stream, and whether all their headers are accepted. -/
def frames (stream : Bytes) : Bool × List (CMessageHeader × Bytes) :=
  match readMessageHeader stream with
  | none => (true, [])
  | some hdr =>
    if hdr.nMessageSize > MAX_SIZE then (false, [])
    else if stream.length < 24 + hdr.nMessageSize then (true, [])
    else
      let (verdict, later) := frames (stream.drop (24 + hdr.nMessageSize))
      (verdict, (hdr, (stream.drop 24).take hdr.nMessageSize) :: later)
termination_by stream.length
decreasing_by
  rw [length_drop]
  omega

section Messages

/-- The bytes of the stream that a message has taken. -/
inductive Holds : CNetMessage → Bytes → Prop
  | header (hlt : held.length < 24) (hlength : (held ++ rest).length = 24) :
    Holds ⟨false, held ++ rest, hdr, held.length, [], 0⟩ held
  | data (hstart : start.length = 24) (hhdr : readMessageHeader start = some hdr)
    (hmax : hdr.nMessageSize ≤ MAX_SIZE) (hlength : (data ++ ahead).length ≤ hdr.nMessageSize) :
    Holds ⟨true, hdrbuf, hdr, 24, data ++ ahead, data.length⟩ (start ++ data)

variable {msg : CNetMessage} {held pch : Bytes}

theorem copyTo_append (h : bytes.length ≤ rest.length) :
    copyTo (held ++ rest) held.length bytes = .ok (held ++ (bytes ++ rest.drop bytes.length)) := by
  rw [copyTo, length_append, if_pos (Nat.add_le_add_left h _), take_left, drop_append,
    drop_eq_nil_of_le (Nat.le_add_right _ _), Nat.add_sub_cancel_left, append_assoc, nil_append]

theorem readMessageHeader_append (hstart : start.length = 24) (rest : Bytes) :
    readMessageHeader (start ++ rest) = readMessageHeader start := by
  simp [readMessageHeader, hstart, take_append, drop_append]
  rw [take_of_length_le (by simp [hstart])]

theorem Holds.frames_open (h : Holds msg held) (hopen : msg.complete = false) :
    frames held = (true, []) := by
  rw [frames]
  cases h with
  | header hlt => rw [readMessageHeader, if_pos hlt]
  | @data start hdr data ahead hdrbuf hstart hhdr hmax hlength =>
    have hne : hdr.nMessageSize ≠ data.length := beq_eq_false_iff_ne.mp hopen
    rw [length_append] at hlength
    rw [readMessageHeader_append hstart, hhdr]
    dsimp only
    rw [if_neg (Nat.not_lt.mpr hmax), length_append, if_pos (by omega)]

theorem Holds.frames_complete (h : Holds msg held) (hcomplete : msg.complete = true) :
    msg.vRecv.length = msg.hdr.nMessageSize ∧ ∀ more, frames (held ++ more) =
      ((frames more).1, (msg.hdr, msg.vRecv) :: (frames more).2) := by
  cases h with
  | header => cases hcomplete
  | @data start hdr data ahead hdrbuf hstart hhdr hmax hlength =>
    have hsize : hdr.nMessageSize = data.length := beq_iff_eq.mp hcomplete
    obtain rfl : ahead = [] := by
      rw [length_append] at hlength
      exact length_eq_zero_iff.mp (by omega)
    simp only [append_nil]
    refine ⟨hsize.symm, fun more => ?_⟩
    rw [frames, append_assoc, readMessageHeader_append hstart, hhdr]
    dsimp only
    rw [if_neg (Nat.not_lt.mpr hmax), hsize, if_neg, ← hstart, drop_left, take_left,
      ← length_append, ← append_assoc, drop_left]
    simp only [length_append]
    omega

/-- What a message has taken of a piece, unless its header is refused. -/
def Took (held pch : Bytes) : Option Nat × CNetMessage → Prop
  | (some handled, msg) => 0 < handled ∧ Holds msg (held ++ pch.take handled)
  | (none, msg) => msg.complete = false ∧ ∀ more, frames (held ++ pch ++ more) = (false, [])

theorem Holds.absorb (h : Holds msg held) (hopen : msg.complete = false) (hpch : 0 < pch.length) :
    Returns (msg.absorb pch) (Took held pch) := by
  cases h with
  | @header held rest hdr hlt hlength =>
    change Returns (CNetMessage.readHeader _ pch) _
    rw [length_append] at hlength
    rw [CNetMessage.readHeader]
    dsimp only
    generalize hcopy : min (24 - held.length) pch.length = nCopy
    have htaken : (pch.take nCopy).length = nCopy := length_take_of_le (by omega)
    have hheld : (held ++ pch.take nCopy).length = held.length + nCopy := by
      rw [length_append, htaken]
    rw [copyTo_append (by omega), ok_bind, ← append_assoc, ← hheld]
    split
    · rename_i hshort
      refine returns_ok ⟨by omega, .header hshort ?_⟩
      rw [length_append, length_drop]
      omega
    have hstart : (held ++ pch.take nCopy).length = 24 := by omega
    rw [readMessageHeader_append hstart]
    cases hhdr : readMessageHeader (held ++ pch.take nCopy) with
    | none => simp [readMessageHeader, hstart] at hhdr
    | some hdr' =>
      dsimp only
      split
      · rename_i hlarge
        refine returns_ok ⟨rfl, fun more => ?_⟩
        rw [← take_append_drop nCopy pch, ← append_assoc, append_assoc _ _ more, frames,
          readMessageHeader_append hstart, hhdr]
        exact if_pos hlarge
      rename_i hmax
      rw [hstart]
      have hdata := fun hdrbuf =>
        @Holds.data _ hdr' [] [] hdrbuf hstart hhdr (Nat.not_lt.mp hmax) (Nat.zero_le _)
      simp only [append_nil] at hdata
      exact returns_ok ⟨by omega, hdata _⟩
  | @data start hdr data ahead hdrbuf hstart hhdr hmax hlength =>
    change Returns (CNetMessage.readData _ pch) _
    have hne : hdr.nMessageSize ≠ data.length := beq_eq_false_iff_ne.mp hopen
    rw [length_append] at hlength
    rw [CNetMessage.readData]
    dsimp only
    generalize hcopy : min (hdr.nMessageSize - data.length) pch.length = nCopy
    have htaken : (pch.take nCopy).length = nCopy := length_take_of_le (by omega)
    have hheld : (data ++ pch.take nCopy).length = data.length + nCopy := by
      rw [length_append, htaken]
    have hcopied : ∀ ahead' : Bytes, nCopy ≤ ahead'.length →
        data.length + ahead'.length ≤ hdr.nMessageSize →
        Returns (do
          let vRecv ← copyTo (data ++ ahead') data.length (pch.take nCopy)
          .ok (some nCopy, ⟨true, hdrbuf, hdr, 24, vRecv, data.length + nCopy⟩))
          (Took (start ++ data) pch) := by
      intro ahead' hroom hle
      rw [copyTo_append (by omega), ok_bind, ← append_assoc, ← hheld]
      refine returns_ok ⟨by omega, ?_⟩
      rw [append_assoc start]
      refine .data hstart hhdr hmax ?_
      rw [length_append, length_drop]
      omega
    rw [length_append]
    split
    · rw [resize, take_of_length_le (by rw [length_append]; omega), append_assoc]
      refine hcopied _ ?_ ?_
      · rw [length_append, length_append, length_replicate]
        omega
      · rw [length_append, length_append, length_replicate]
        omega
    · exact hcopied ahead (by omega) hlength

end Messages

section Runs

variable {vRecvMsg : List CNetMessage} {stream : Bytes}

/-- Complete messages that are the stream. -/
inductive Full : List CNetMessage → Bytes → Prop
  | nil : Full [] []
  | cons (h : Full older before) (hmsg : Holds msg held) (hcomplete : msg.complete = true) :
    Full (msg :: older) (before ++ held)

theorem Full.frames_append (h : Full vRecvMsg stream) (more : Bytes) :
    (∀ msg ∈ vRecvMsg, msg.vRecv.length = msg.hdr.nMessageSize) ∧ frames (stream ++ more) =
      ((frames more).1, completed vRecvMsg ++ (frames more).2) := by
  induction h generalizing more with
  | nil => exact ⟨nofun, rfl⟩
  | @cons _ before msg held _ hmsg hcomplete ih =>
    obtain ⟨hsize, hframes⟩ := hmsg.frames_complete hcomplete
    refine ⟨forall_mem_cons.mpr ⟨hsize, (ih more).1⟩, ?_⟩
    rw [append_assoc, (ih _).2, hframes, completed, completed, filter_cons_of_pos hcomplete,
      map_cons, reverse_cons, append_assoc]
    rfl

/-- The complete messages hold the stream up to the current one, which holds the rest, or whose
header has been refused. -/
def Received (stream : Bytes) (result : Bool × List CNetMessage) : Prop :=
  ∃ before rest, stream = before ++ rest ∧ Full (current result.2).2 before ∧
    (current result.2).1.complete = false ∧
    if result.1 then Holds (current result.2).1 rest
    else ∀ more, frames (rest ++ more) = (false, [])

theorem Full.received (h : Full vRecvMsg stream) : Received stream (true, vRecvMsg) := by
  have hcurrent : current vRecvMsg = (newMessage, vRecvMsg) := by
    cases h with
    | nil => rfl
    | cons _ _ hcomplete => exact if_pos hcomplete
  refine ⟨stream, [], (append_nil _).symm, ?_⟩
  rw [hcurrent]
  exact ⟨h, rfl, @Holds.header [] (replicate 24 0) newHeader (by decide) rfl⟩

theorem Full.received_cons (h : Full older before) (hopen : msg.complete = false)
    (hrest : if verdict then Holds msg rest else ∀ more, frames (rest ++ more) = (false, [])) :
    Received (before ++ rest) (verdict, msg :: older) := by
  have hcurrent : current (msg :: older) = (msg, older) := if_neg (Bool.eq_false_iff.mp hopen)
  refine ⟨before, rest, rfl, ?_⟩
  rw [hcurrent]
  exact ⟨h, hopen, hrest⟩

theorem Received.receiveFrom (h : Received stream (true, vRecvMsg)) (hfuel : pch.length ≤ fuel) :
    Returns (receiveFrom fuel pch vRecvMsg) (Received (stream ++ pch)) := by
  induction fuel generalizing pch vRecvMsg stream with
  | zero =>
    obtain rfl := length_eq_zero_iff.mp (Nat.le_zero.mp hfuel)
    rw [append_nil]
    exact returns_ok h
  | succ fuel ih =>
    rw [MessageFraming.receiveFrom]
    split
    · rename_i hnil
      rw [hnil, append_nil]
      exact returns_ok h
    rename_i hpch
    obtain ⟨before, held, rfl, hfull, hopen, hheld⟩ := h
    refine (Holds.absorb hheld hopen (length_pos_of_ne_nil hpch)).bind ?_
    rintro ⟨_ | handled, msg⟩ htook
    · rw [append_assoc]
      exact returns_ok (hfull.received_cons htook.1 htook.2)
    obtain ⟨hpos, htook⟩ := htook
    have hreceived : Received (before ++ (held ++ pch.take handled))
        (true, msg :: (current vRecvMsg).2) := by
      cases hcomplete : msg.complete with
      | true => exact (hfull.cons htook hcomplete).received
      | false => exact hfull.received_cons hcomplete htook
    have hrest := @ih _ _ (pch.drop handled) hreceived (by rw [length_drop]; omega)
    rwa [append_assoc, append_assoc, take_append_drop, ← append_assoc] at hrest

theorem Received.receivePieces (h : Received stream (true, vRecvMsg)) (pieces : List Bytes) :
    Returns (receivePieces pieces vRecvMsg) (Received (stream ++ pieces.flatten)) := by
  induction pieces generalizing vRecvMsg stream with
  | nil =>
    rw [flatten_nil, append_nil]
    exact returns_ok h
  | cons piece pieces ih =>
    rw [flatten_cons, ← append_assoc]
    refine (h.receiveFrom (Nat.le_refl _)).bind ?_
    rintro ⟨_ | _, vRecvMsg⟩ hreceived
    · obtain ⟨before, rest, hstream, hfull, hopen, hrefused⟩ := hreceived
      refine returns_ok ⟨before, rest ++ pieces.flatten, ?_, hfull, hopen, ?_⟩
      · rw [hstream, append_assoc]
      · exact fun more => append_assoc rest _ more ▸ hrefused _
    · exact ih hreceived

theorem Received.frames_eq (h : Received stream (verdict, vRecvMsg)) :
    frames stream = (verdict, completed vRecvMsg) ∧
      ∀ msg ∈ vRecvMsg, msg.complete = true → msg.vRecv.length = msg.hdr.nMessageSize := by
  obtain ⟨before, rest, rfl, hfull, hopen, hrest⟩ := h
  have hlast : frames rest = (verdict, []) := by
    cases verdict with
    | true => exact Holds.frames_open hrest hopen
    | false => exact append_nil rest ▸ hrest []
  obtain ⟨hsizes, hframes⟩ := hfull.frames_append rest
  rw [hframes, hlast, append_nil]
  cases vRecvMsg with
  | nil => exact ⟨rfl, nofun⟩
  | cons msg older =>
    cases hcomplete : msg.complete with
    | true =>
      rw [current, if_pos hcomplete] at hsizes ⊢
      exact ⟨rfl, fun msg hmsg _ => hsizes msg hmsg⟩
    | false =>
      rw [current, if_neg (Bool.eq_false_iff.mp hcomplete)] at hsizes ⊢
      rw [completed, completed, filter_cons_of_neg (Bool.eq_false_iff.mp hcomplete)]
      refine ⟨rfl, forall_mem_cons.mpr ⟨fun h => ?_, fun msg hmsg _ => hsizes msg hmsg⟩⟩
      exact absurd h (Bool.eq_false_iff.mp hcomplete)

/-- The messages and the verdict are those of the whole stream, in whatever pieces it comes. -/
theorem framing_of_pieces (pieces : List Bytes) :
    ∃ verdict vRecvMsg vUncut, receivePieces pieces [] = .ok (verdict, vRecvMsg) ∧
      receiveMsgBytes pieces.flatten [] = .ok (verdict, vUncut) ∧
      completed vRecvMsg = completed vUncut ∧
      frames pieces.flatten = (verdict, completed vRecvMsg) ∧
      ∀ msg ∈ vRecvMsg, msg.complete = true → msg.vRecv.length = msg.hdr.nMessageSize := by
  have hstart : Received [] (true, []) := Full.nil.received
  obtain ⟨⟨verdict, vRecvMsg⟩, hpieces, hreceived⟩ := hstart.receivePieces pieces
  obtain ⟨⟨verdict', vUncut⟩, huncut, hreceived'⟩ :=
    hstart.receiveFrom (Nat.le_refl pieces.flatten.length)
  obtain ⟨hframes, hfull⟩ := hreceived.frames_eq
  obtain ⟨rfl, hsame⟩ := Prod.mk.inj (hframes.symm.trans hreceived'.frames_eq.1)
  exact ⟨verdict, vRecvMsg, vUncut, hpieces, huncut, hsame, hframes, hfull⟩

end Runs

end Bfx.MessageFraming
