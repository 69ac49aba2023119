import Runnerd.Library.BigEndian
import Runnerd.Job

/-!
# The wire protocol

`protocol.h` and `protocol.cpp`: frames of a 4-byte big-endian length and a payload, the incremental
decoder, and the payloads of the SUBMIT, STATUS and CANCEL requests.
-/

namespace Runnerd

def kFrameHeaderSize : ℕ := 4

def kMaxFrameSize : ℕ := 64 * 1024

/-- `sizeof(std::uint32_t)`. -/
def sizeofUint32 : ℕ := 4

/-- `sizeof(JobId)`. -/
def sizeofJobId : ℕ := 8

def kSubmitCommand : Bytes := text "SUBMIT"

def kStatusCommand : Bytes := text "STATUS"

def kCancelCommand : Bytes := text "CANCEL"

/-- A subtraction of `size_t` values, which the source relies on not to wrap around. -/
def subSize (a b : ℕ) : Except Exception ℕ := if b ≤ a then .ok (a - b) else .error .sizeUnderflow

/-- `payload.size() >= size && payload.compare(0, size, command) == 0`. -/
def startsWith (command payload : Bytes) : Bool :=
  decide (payload.length ≥ command.length) && payload.take command.length == command

/-! ## SUBMIT -/

/-- `htonl`, as bytes. -/
def appendUint32 (output : Bytes) (value : ℕ) : Bytes := output ++ bigEndian sizeofUint32 value

/-- The number at `offset`, and the offset behind it. -/
def readUint32 (input : Bytes) (offset : ℕ) : Except Exception (ℕ × ℕ) :=
  if offset > input.length then
    .error (.invalidArgument (text "submit request is truncated"))
  else do
    let rest ← subSize input.length offset
    if rest < sizeofUint32 then
      throw (.invalidArgument (text "submit request is truncated"))
    else
      return (fromBigEndian ((input.drop offset).take sizeofUint32), offset + sizeofUint32)

def isSubmitRequest (payload : Bytes) : Bool := startsWith kSubmitCommand payload

/-- The loop of `encodeSubmitRequest` that adds up the size of the payload. -/
def addArgumentSizes : ℕ → List Bytes → Except Exception ℕ
  | payloadSize, [] => .ok payloadSize
  | payloadSize, argument :: rest =>
    if argument.length > uint32Max then
      .error (.lengthError (text "submit argument exceeds protocol limit"))
    else do
      let limit ← subSize kMaxFrameSize sizeofUint32
      if payloadSize > limit then
        throw (.lengthError (text "submit request exceeds maximum frame size"))
      else
        let room ← subSize kMaxFrameSize (payloadSize + sizeofUint32)
        if argument.length > room then
          throw (.lengthError (text "submit request exceeds maximum frame size"))
        else addArgumentSizes (payloadSize + sizeofUint32 + argument.length) rest

/-- The loop of `encodeSubmitRequest` that appends the arguments. -/
def appendArguments : Bytes → List Bytes → Bytes
  | payload, [] => payload
  | payload, argument :: rest =>
    appendArguments (appendUint32 payload argument.length ++ argument) rest

/-- The timeout as it stands in the payload: 0 for none. -/
def encodeTimeout : Option JobTimeout → Except Exception ℕ
  | none => .ok 0
  | some timeout =>
    if timeout > uint32Max then
      .error (.lengthError (text "execution timeout exceeds protocol limit"))
    else .ok timeout.toNat

def encodeSubmitRequest (spec : JobSpec) : Except Exception Bytes := do
  validateJobSpec spec
  if spec.argv.length > uint32Max then
    throw (.lengthError (text "submit request has too many arguments"))
  else
    let timeoutMs ← encodeTimeout spec.executionTimeout
    let _ ← addArgumentSizes (kSubmitCommand.length + sizeofUint32 * 2) spec.argv
    return appendArguments
      (appendUint32 (appendUint32 kSubmitCommand timeoutMs) spec.argv.length) spec.argv

/-- The loop of `decodeSubmitRequest`: the arguments still to come, the offset and the arguments so
far. -/
def decodeArguments (payload : Bytes) :
    ℕ → ℕ → List Bytes → Except Exception (ℕ × List Bytes)
  | 0, offset, argv => .ok (offset, argv)
  | count + 1, offset, argv => do
    let (argumentSize, offset) ← readUint32 payload offset
    let rest ← subSize payload.length offset
    if argumentSize > rest then
      throw (.invalidArgument (text "submit argument is truncated"))
    else
      decodeArguments payload count (offset + argumentSize)
        (argv ++ [(payload.drop offset).take argumentSize])

def decodeSubmitRequest (payload : Bytes) : Except Exception JobSpec :=
  if payload.length > kMaxFrameSize then
    .error (.lengthError (text "submit request exceeds maximum frame size"))
  else if isSubmitRequest payload = false then
    .error (.invalidArgument (text "payload is not a SUBMIT request"))
  else do
    let (timeoutMs, offset) ← readUint32 payload kSubmitCommand.length
    let (argumentCount, offset) ← readUint32 payload offset
    let rest ← subSize payload.length offset
    if argumentCount > rest / sizeofUint32 then
      throw (.invalidArgument (text "submit argument count exceeds remaining payload"))
    else
      let (offset, argv) ← decodeArguments payload argumentCount offset []
      if offset ≠ payload.length then
        throw (.invalidArgument (text "submit request has trailing bytes"))
      else
        return {
          argv
          executionTimeout := if timeoutMs ≠ 0 then some (timeoutMs : ℤ) else none }

/-! ## STATUS and CANCEL -/

def appendJobId (output : Bytes) (jobId : JobId) : Bytes :=
  output ++ (List.range sizeofJobId).map fun index =>
    ((jobId >>> ((sizeofJobId - index - 1) * 8)) &&& 0xff).toUInt8

/-- The loop that reads a job id from the bytes behind a command. -/
def readJobId : JobId → Bytes → JobId
  | jobId, [] => jobId
  | jobId, byte :: rest => readJobId ((jobId <<< 8 % 2 ^ 64) ||| byte.toNat) rest

def encodeJobIdRequest (command : Bytes) (jobId : JobId) : Except Exception Bytes :=
  if jobId = 0 then .error (.invalidArgument (text "job id must be greater than zero"))
  else .ok (appendJobId command jobId)

def decodeJobIdRequest (command name payload : Bytes) : Except Exception JobId :=
  if startsWith command payload = false then
    .error (.invalidArgument (text "payload is not a " ++ name ++ text " request"))
  else if payload.length ≠ command.length + sizeofJobId then
    .error (.invalidArgument (name ++ text " request has invalid size"))
  else if readJobId 0 (payload.drop command.length) = 0 then
    .error (.invalidArgument (text "job id must be greater than zero"))
  else .ok (readJobId 0 (payload.drop command.length))

def isStatusRequest (payload : Bytes) : Bool := startsWith kStatusCommand payload

def encodeStatusRequest (jobId : JobId) : Except Exception Bytes :=
  encodeJobIdRequest kStatusCommand jobId

def decodeStatusRequest (payload : Bytes) : Except Exception JobId :=
  decodeJobIdRequest kStatusCommand (text "STATUS") payload

def isCancelRequest (payload : Bytes) : Bool := startsWith kCancelCommand payload

def encodeCancelRequest (jobId : JobId) : Except Exception Bytes :=
  encodeJobIdRequest kCancelCommand jobId

def decodeCancelRequest (payload : Bytes) : Except Exception JobId :=
  decodeJobIdRequest kCancelCommand (text "CANCEL") payload

/-! ## Frames -/

def encodeFrame (payload : Bytes) : Except Exception Bytes :=
  if payload.length > kMaxFrameSize then
    .error (.lengthError (text "frame payload exceeds 64 KiB"))
  else .ok (bigEndian kFrameHeaderSize payload.length ++ payload)

/-- `std::vector<char>::max_size()`. -/
def vectorMaxSize : ℕ := 2 ^ 63 - 1

structure FrameDecoder where
  buffer : Bytes := []
  deriving DecidableEq, Repr

namespace FrameDecoder

def payloadSize (d : FrameDecoder) : Except Exception ℕ :=
  if d.buffer.length < kFrameHeaderSize then
    .error (.logicError (text "frame header is incomplete"))
  else if fromBigEndian (d.buffer.take kFrameHeaderSize) > kMaxFrameSize then
    .error (.runtimeError (text "declared frame payload exceeds 64 KiB"))
  else .ok (fromBigEndian (d.buffer.take kFrameHeaderSize))

/-- The second half of `feed`: what is left of the data once the header is complete. -/
def feedRemaining (d : FrameDecoder) (remaining : Bytes) : Except Exception Unit × FrameDecoder :=
  if remaining.length = 0 then (.ok (), d)
  else if remaining.length > vectorMaxSize - d.buffer.length then
    (.error (.lengthError (text "frame decoder buffer is too large")), d)
  else (.ok (), { d with buffer := d.buffer ++ remaining })

/-- An exception leaves the decoder with the header bytes already inserted. A list is never the
null pointer that the source guards against. -/
def feed (d : FrameDecoder) (data : Bytes) : Except Exception Unit × FrameDecoder :=
  if data.length = 0 then (.ok (), d)
  else if d.buffer.length < kFrameHeaderSize then
    let headerBytes := min data.length (kFrameHeaderSize - d.buffer.length)
    let d := { d with buffer := d.buffer ++ data.take headerBytes }
    if d.buffer.length < kFrameHeaderSize then (.ok (), d)
    else
      match d.payloadSize with
      | .error e => (.error e, d)
      | .ok _ => d.feedRemaining (data.drop headerBytes)
  else d.feedRemaining data

def hasFrame (d : FrameDecoder) : Except Exception Bool :=
  if d.buffer.length < kFrameHeaderSize then .ok false
  else
    match d.payloadSize with
    | .error e => .error e
    | .ok payloadSize => .ok (decide (d.buffer.length - kFrameHeaderSize ≥ payloadSize))

def popFrame (d : FrameDecoder) : Except Exception (Bytes × FrameDecoder) := do
  if (← d.hasFrame) = false then throw (.runtimeError (text "no complete frame"))
  else
    let payloadSize ← d.payloadSize
    return ((d.buffer.drop kFrameHeaderSize).take payloadSize,
      { d with buffer := d.buffer.drop (kFrameHeaderSize + payloadSize) })

end FrameDecoder

end Runnerd
