import LibShv.Crc32
import LibShv.FrameReader

/-!
# LibShv.SerialFrameReader

`SerialFrameReader` (`serialportsocket.cpp`): frames between STX and ETX on a serial
line, with the bytes that delimit them escaped, and a CRC of the escaped bytes behind
the ETX if it is wanted. STX begins a frame in every state, ATX ends it in every state.
-/

namespace LibShv

open ByteReader

/-! ## escapes -/

def STX : UInt8 := 0xA2
def ETX : UInt8 := 0xA3
def ATX : UInt8 := 0xA4
def ESC : UInt8 := 0xAA
def ESTX : UInt8 := 0x02
def EETX : UInt8 := 0x03
def EATX : UInt8 := 0x04
def EESC : UInt8 := 0x0A

/-- `add_byte`: what a byte adds to the buffer, nothing for an invalid escape sequence. -/
def addByte (recentByte b : UInt8) : Option Bytes :=
  if recentByte = ESC then
    if b = ESTX then some [STX]
    else if b = EETX then some [ETX]
    else if b = EATX then some [ATX]
    else if b = EESC then some [ESC]
    else none
  else if b ≠ ESC then some [b]
  else some []

/-- `SerialFrameReader::ReadState`. -/
inductive ReadState where
  | WaitingForStx
  | WaitingForEtx
  | WaitingForCrc
deriving DecidableEq

/-- `SerialFrameReader`. -/
structure SerialFrameReader extends FrameReader where
  readState : ReadState
  recentByte : UInt8
  readBuffer : Bytes
  crcBuffer : Bytes
  crcDigest : Crc32
  withCrcCheck : Bool
  responseErrors : List (Int64 × String)

namespace SerialFrameReader

/-- A reader as it is made. -/
def init (withCrcCheck : Bool) : SerialFrameReader where
  toFrameReader := .init
  readState := .WaitingForStx
  recentByte := 0
  readBuffer := []
  crcBuffer := []
  crcDigest := .init
  withCrcCheck := withCrcCheck
  responseErrors := []

/-- `setState`. -/
def setState (s : SerialFrameReader) : ReadState → SerialFrameReader
  | .WaitingForStx => { s with readState := .WaitingForStx }
  | .WaitingForEtx =>
    { s with
      readState := .WaitingForEtx
      readBuffer := []
      metaData := .empty
      dataStart := none
      crcDigest := .init }
  | .WaitingForCrc => { s with readState := .WaitingForCrc, crcBuffer := [] }

/-- `check_response_id`: the request ids found. -/
def checkResponseId (s : SerialFrameReader) : SerialFrameReader × Except Fault (List Int64) :=
  let (reader, rqid) := s.tryToReadMeta 0 s.readBuffer
  ({ s with toFrameReader := reader },
    match rqid with
    | .ok rqid => .ok (if 0 < rqid then [rqid] else [])
    | .error e => .error e)

/-- A number in hexadecimal, with four digits at least. -/
def hexArg (n : UInt32) : String :=
  let digits := String.ofList (Nat.toDigits 16 n.toNat)
  "".pushn '0' (4 - digits.length) ++ digits

/-- The text for a wrong CRC. -/
def crcError (expected got : UInt32) : String :=
  "CRC error, expected: " ++ hexArg expected ++ ", got: " ++ hexArg got

/-- The part of `finishFrame` that reports a response with a wrong CRC. -/
def reportCrcError (s : SerialFrameReader) (msgCrc : UInt32) : SerialFrameReader × Except Fault Unit :=
  if s.dataStart.isSome ∧ s.metaData.isResponse then
    match s.metaData.peekCallerId with
    | .error e => (s, .error (.runtime e))
    | .ok callerId =>
      if callerId = 0 ∧ s.metaData.requestId.isIntOrUInt then
        match s.metaData.requestId.toInt64 with
        | .error e => (s, .error (.runtime e))
        | .ok rqid =>
          if 0 < rqid then
            ({ s with
                responseErrors := s.responseErrors ++ [(rqid, crcError s.crcDigest.result msgCrc)] },
              .ok ())
          else (s, .ok ())
      else (s, .ok ())
  else (s, .ok ())

/-- The rest of `finishFrame`: the frame is added, if its head was read. -/
def addFrame (s : SerialFrameReader) : SerialFrameReader :=
  match s.dataStart with
  | none => s.setState .WaitingForStx
  | some dataStart =>
    setState
      { s with
        frames := s.frames ++ [⟨s.protocol, s.metaData, s.readBuffer.drop dataStart⟩]
        metaData := .empty }
      .WaitingForStx

/-- `finishFrame`. -/
def finishFrame (s : SerialFrameReader) : SerialFrameReader × Except Fault Unit :=
  if s.withCrcCheck ∧ s.crcDigest.result ≠ crcOfBytes s.crcBuffer then
    match s.reportCrcError (crcOfBytes s.crcBuffer) with
    | (s, .error e) => (s, .error e)
    | (s, .ok ()) => (s.setState .WaitingForStx, .ok ())
  else (s.addFrame, .ok ())

/-- `check_response_id` and `finishFrame`. -/
def finish (s : SerialFrameReader) : SerialFrameReader × Except Fault (List Int64) :=
  match s.checkResponseId with
  | (s, .error e) => (s, .error e)
  | (s, .ok ids) =>
    match s.finishFrame with
    | (s, .error e) => (s, .error e)
    | (s, .ok ()) => (s, .ok ids)

/-- The byte of a frame or a CRC put into `readBuffer` or `crcBuffer`. -/
def addReadByte (s : SerialFrameReader) (b : UInt8) : SerialFrameReader :=
  match addByte s.recentByte b with
  | some bytes => { s with readBuffer := s.readBuffer ++ bytes, recentByte := b }
  | none => { s.setState .WaitingForStx with recentByte := b }

def addCrcByte (s : SerialFrameReader) (b : UInt8) : SerialFrameReader :=
  match addByte s.recentByte b with
  | some bytes => { s with crcBuffer := s.crcBuffer ++ bytes, recentByte := b }
  | none => { s.setState .WaitingForStx with recentByte := b }

/-- The body of the loop of `addData`, with the request ids found. -/
def step (s : SerialFrameReader) (b : UInt8) : SerialFrameReader × Except Fault (List Int64) :=
  if b = STX then ({ s.setState .WaitingForEtx with recentByte := b }, .ok [])
  else if b = ATX then ({ s.setState .WaitingForStx with recentByte := b }, .ok [])
  else
    match s.readState with
    | .WaitingForStx => ({ s with recentByte := b }, .ok [])
    | .WaitingForEtx =>
      if b = ETX then
        if s.withCrcCheck then (s.setState .WaitingForCrc, .ok [])
        else s.finish
      else (addReadByte { s with crcDigest := s.crcDigest.add b } b, .ok [])
    | .WaitingForCrc =>
      let s := s.addCrcByte b
      if s.crcBuffer.length = 4 then s.finish else (s, .ok [])

/-- The loop of `addData` and the check behind it. An exception ends them. -/
def addData (s : SerialFrameReader) : Bytes → SerialFrameReader × Except Fault (List Int64)
  | [] => s.checkResponseId
  | b :: data =>
    match s.step b with
    | (s, .error e) => (s, .error e)
    | (s, .ok ids) =>
      match s.addData data with
      | (s, .error e) => (s, .error e)
      | (s, .ok ids') => (s, .ok (ids ++ ids'))

/-- `takeFrames`. -/
def takeFrames (s : SerialFrameReader) : SerialFrameReader := { s with frames := [] }

/-- `resetCommunication`. -/
def resetCommunication (s : SerialFrameReader) : SerialFrameReader := init s.withCrcCheck

end SerialFrameReader

end LibShv
