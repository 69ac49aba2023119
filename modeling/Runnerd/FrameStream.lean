import Runnerd.Library.StreamParser
import Runnerd.Protocol

/-!
# Streams of frames

A stream is parsed frame by frame: a 4-byte big-endian length of at most 64 KiB, then that many
bytes. The decoder checks a length on two paths, in `feed` while it completes a header and in
`hasFrame` for every later header of its buffer. `decodeChunks` drives it as a reader of a socket
does, and agrees with the parse of the whole stream however the stream is cut.
-/

namespace Runnerd

/-! ## The reference parse -/

/-- The exception for a length above 64 KiB. -/
def oversized : Exception := .runtimeError (text "declared frame payload exceeds 64 KiB")

/-- The length that a header declares. -/
def declaredSize (s : Bytes) : ℕ := fromBigEndian (s.take kFrameHeaderSize)

/-- The frame at the head of a stream. -/
def nextFrame (s : Bytes) : Next UInt8 Bytes Exception :=
  if s.length < kFrameHeaderSize then .incomplete
  else if declaredSize s > kMaxFrameSize then .bad oversized
  else if s.length < kFrameHeaderSize + declaredSize s then .incomplete
  else .item ((s.drop kFrameHeaderSize).take (declaredSize s))
    (s.drop (kFrameHeaderSize + declaredSize s))

theorem declaredSize_append {s : Bytes} (h : kFrameHeaderSize ≤ s.length) (t : Bytes) :
    declaredSize (s ++ t) = declaredSize s := by
  unfold declaredSize
  rw [List.take_append_of_le_length h]

theorem nextFrame_item {s payload rest : Bytes} (h : nextFrame s = .item payload rest) :
    kFrameHeaderSize + declaredSize s ≤ s.length ∧ declaredSize s ≤ kMaxFrameSize ∧
      payload = (s.drop kFrameHeaderSize).take (declaredSize s) ∧
      rest = s.drop (kFrameHeaderSize + declaredSize s) := by
  unfold nextFrame at h
  split_ifs at h with h1 h2 h3
  obtain ⟨rfl, rfl⟩ := Next.item.inj h
  exact ⟨by omega, by omega, rfl, rfl⟩

theorem nextFrame_bad {s : Bytes} {e : Exception} (h : nextFrame s = .bad e) :
    kFrameHeaderSize ≤ s.length ∧ kMaxFrameSize < declaredSize s ∧ e = oversized := by
  unfold nextFrame at h
  split_ifs at h with h1 h2
  exact ⟨by omega, by omega, (Next.bad.inj h).symm⟩

theorem nextFrame_incomplete {s : Bytes} (h : nextFrame s = .incomplete) :
    s.length < kFrameHeaderSize ∨
      declaredSize s ≤ kMaxFrameSize ∧ s.length < kFrameHeaderSize + declaredSize s := by
  unfold nextFrame at h
  split_ifs at h with h1 h2 h3
  · exact Or.inl h1
  · exact Or.inr ⟨by omega, h3⟩

/-- The parser of a stream of frames. -/
def frameLexer : Lexer UInt8 Bytes Exception where
  next := nextFrame
  shrinks {s payload rest} h := by
    obtain ⟨hlen, -, -, rfl⟩ := nextFrame_item h
    rw [List.length_drop]
    unfold kFrameHeaderSize at *
    omega
  item_append {s payload rest} t h := by
    obtain ⟨hlen, hmax, rfl, rfl⟩ := nextFrame_item h
    have hhead : kFrameHeaderSize ≤ s.length := by omega
    unfold nextFrame
    rw [declaredSize_append hhead, List.length_append, if_neg (by omega), if_neg (by omega),
      if_neg (by omega), List.drop_append_of_le_length hhead,
      List.take_append_of_le_length (by rw [List.length_drop]; omega),
      List.drop_append_of_le_length hlen]
  bad_append {s e} t h := by
    obtain ⟨hhead, hsize, rfl⟩ := nextFrame_bad h
    unfold nextFrame
    rw [declaredSize_append hhead, List.length_append, if_neg (by omega), if_pos hsize]

/-- The payloads of a stream, and what is left of it or the reason to reject it. -/
def parseFrames (stream : Bytes) : List Bytes × Except Exception Bytes := frameLexer.parse stream

/-! ## The decoder's driver -/

namespace FrameDecoder

/-- `while (hasFrame()) popFrame()`, with fuel for every byte. -/
def drainLoop : ℕ → FrameDecoder → List Bytes × Except Exception FrameDecoder
  | 0, d => ([], .ok d)
  | fuel + 1, d =>
    match d.hasFrame with
    | .error e => ([], .error e)
    | .ok false => ([], .ok d)
    | .ok true =>
      match d.popFrame with
      | .error e => ([], .error e)
      | .ok (payload, d) => (payload :: (drainLoop fuel d).1, (drainLoop fuel d).2)

def drain (d : FrameDecoder) : List Bytes × Except Exception FrameDecoder :=
  drainLoop (d.buffer.length + 1) d

/-- Feed each chunk and drain the decoder after it, up to the first exception. -/
def decodeChunks : FrameDecoder → List Bytes → List Bytes × Except Exception FrameDecoder
  | d, [] => ([], .ok d)
  | d, chunk :: chunks =>
    match d.feed chunk with
    | (.error e, _) => ([], .error e)
    | (.ok _, d) =>
      match d.drain with
      | (payloads, .error e) => (payloads, .error e)
      | (payloads, .ok d) =>
        (payloads ++ (decodeChunks d chunks).1, (decodeChunks d chunks).2)

theorem payloadSize_eq {d : FrameDecoder} (h : kFrameHeaderSize ≤ d.buffer.length) :
    d.payloadSize =
      if declaredSize d.buffer > kMaxFrameSize then .error oversized
      else .ok (declaredSize d.buffer) := by
  unfold payloadSize
  rw [if_neg (by omega)]
  rfl

theorem hasFrame_of_incomplete {d : FrameDecoder} (h : nextFrame d.buffer = .incomplete) :
    d.hasFrame = .ok false := by
  unfold hasFrame
  split_ifs with hhead
  · rfl
  · obtain hlt | ⟨hmax, hlen⟩ := nextFrame_incomplete h
    · exact absurd hlt hhead
    · rw [payloadSize_eq (by omega), if_neg (by omega)]
      simp only [ge_iff_le, Except.ok.injEq, decide_eq_false_iff_not, not_le]
      omega

theorem hasFrame_of_bad {d : FrameDecoder} {e : Exception} (h : nextFrame d.buffer = .bad e) :
    d.hasFrame = .error e := by
  obtain ⟨hhead, hsize, rfl⟩ := nextFrame_bad h
  unfold hasFrame
  rw [if_neg (by omega), payloadSize_eq hhead, if_pos hsize]

theorem hasFrame_of_item {d : FrameDecoder} {payload rest : Bytes}
    (h : nextFrame d.buffer = .item payload rest) : d.hasFrame = .ok true := by
  obtain ⟨hlen, hmax, -, -⟩ := nextFrame_item h
  unfold hasFrame
  rw [if_neg (by omega), payloadSize_eq (by omega), if_neg (by omega)]
  simp only [ge_iff_le, Except.ok.injEq, decide_eq_true_eq]
  omega

theorem popFrame_of_item {d : FrameDecoder} {payload rest : Bytes}
    (h : nextFrame d.buffer = .item payload rest) : d.popFrame = .ok (payload, ⟨rest⟩) := by
  obtain ⟨hlen, hmax, rfl, rfl⟩ := nextFrame_item h
  unfold popFrame
  rw [hasFrame_of_item h, payloadSize_eq (by omega), if_neg (by omega)]
  rfl

theorem nextFrame_of_popFrame {d d' : FrameDecoder} {payload : Bytes}
    (h : d.popFrame = .ok (payload, d')) : nextFrame d.buffer = .item payload d'.buffer := by
  cases hnext : nextFrame d.buffer with
  | incomplete =>
    unfold popFrame at h
    rw [hasFrame_of_incomplete hnext] at h
    cases h
  | bad e =>
    unfold popFrame at h
    rw [hasFrame_of_bad hnext] at h
    cases h
  | item payload' rest =>
    rw [popFrame_of_item hnext] at h
    cases h
    rfl

theorem length_of_popFrame {d d' : FrameDecoder} {payload : Bytes}
    (h : d.popFrame = .ok (payload, d')) : d'.buffer.length < d.buffer.length :=
  frameLexer.shrinks (nextFrame_of_popFrame h)

theorem incomplete_of_hasFrame {d : FrameDecoder} (h : d.hasFrame = .ok false) :
    nextFrame d.buffer = .incomplete := by
  cases hnext : nextFrame d.buffer with
  | incomplete => rfl
  | bad e =>
    rw [hasFrame_of_bad hnext] at h
    cases h
  | item payload rest =>
    rw [hasFrame_of_item hnext] at h
    cases h

/-- Draining the decoder parses its buffer. -/
theorem drainLoop_eq (fuel : ℕ) (d : FrameDecoder) :
    drainLoop fuel d = ((frameLexer.parseLoop fuel d.buffer).1,
      (frameLexer.parseLoop fuel d.buffer).2.map FrameDecoder.mk) := by
  induction fuel generalizing d with
  | zero => rfl
  | succ fuel ih =>
    have hnext : frameLexer.next d.buffer = nextFrame d.buffer := rfl
    unfold drainLoop Lexer.parseLoop
    rw [hnext]
    cases h : nextFrame d.buffer with
    | incomplete =>
      rw [hasFrame_of_incomplete h]
      rfl
    | bad e =>
      rw [hasFrame_of_bad h]
      rfl
    | item payload rest =>
      rw [hasFrame_of_item h, popFrame_of_item h]
      simp only [ih]

theorem drain_eq (d : FrameDecoder) :
    d.drain = ((parseFrames d.buffer).1, (parseFrames d.buffer).2.map FrameDecoder.mk) :=
  drainLoop_eq _ d

/-! ## Feeding -/

/-- The chunks that fit in a vector behind an unfinished frame. -/
def Fits (chunk : Bytes) : Prop :=
  chunk.length + (kFrameHeaderSize + kMaxFrameSize) ≤ vectorMaxSize

instance (chunk : Bytes) : Decidable (Fits chunk) := inferInstanceAs (Decidable (_ ≤ _))

theorem length_of_incomplete {s : Bytes} (h : nextFrame s = .incomplete) :
    s.length < kFrameHeaderSize + kMaxFrameSize := by
  obtain h | ⟨hmax, hlen⟩ := nextFrame_incomplete h
  · unfold kFrameHeaderSize at *
    omega
  · omega

theorem feedRemaining_eq {d : FrameDecoder} {remaining : Bytes}
    (hd : d.buffer.length < kFrameHeaderSize + kMaxFrameSize) (hfits : Fits remaining) :
    d.feedRemaining remaining = (.ok (), ⟨d.buffer ++ remaining⟩) := by
  unfold Fits at hfits
  unfold feedRemaining
  split_ifs with hnil hbig
  · rw [List.length_eq_zero_iff.mp hnil, List.append_nil]
  · omega
  · rfl

theorem feedRemaining_ok {d d' : FrameDecoder} {remaining : Bytes}
    (h : d.feedRemaining remaining = (.ok (), d')) : d' = ⟨d.buffer ++ remaining⟩ := by
  unfold feedRemaining at h
  split_ifs at h with hnil hbig
  · obtain rfl := (Prod.mk.inj h).2
    rw [List.length_eq_zero_iff.mp hnil, List.append_nil]
  · cases (Prod.mk.inj h).1
  · exact (Prod.mk.inj h).2.symm

/-- Where the decoder takes a chunk, it stands behind what the decoder held. -/
theorem feed_ok {d d' : FrameDecoder} {chunk : Bytes} (h : d.feed chunk = (.ok (), d')) :
    d' = ⟨d.buffer ++ chunk⟩ := by
  unfold feed at h
  by_cases hnil : chunk.length = 0
  · rw [if_pos hnil] at h
    obtain rfl := (Prod.mk.inj h).2
    rw [List.length_eq_zero_iff.mp hnil, List.append_nil]
  rw [if_neg hnil] at h
  by_cases hhead : d.buffer.length < kFrameHeaderSize
  swap
  · rw [if_neg hhead] at h
    exact feedRemaining_ok h
  rw [if_pos hhead] at h
  simp only at h
  set headerBytes := min chunk.length (kFrameHeaderSize - d.buffer.length)
  by_cases hstill : (d.buffer ++ chunk.take headerBytes).length < kFrameHeaderSize
  · rw [if_pos hstill] at h
    obtain rfl := (Prod.mk.inj h).2
    have hall : chunk.length ≤ headerBytes := by
      rw [List.length_append, List.length_take] at hstill
      omega
    rw [List.take_of_length_le hall]
  · rw [if_neg hstill] at h
    cases hsize : (FrameDecoder.mk (d.buffer ++ chunk.take headerBytes)).payloadSize with
    | error e =>
      rw [hsize] at h
      cases (Prod.mk.inj h).1
    | ok size =>
      rw [hsize] at h
      rw [feedRemaining_ok h, List.append_assoc, List.take_append_drop]

/-- Feeding a decoder without a complete frame appends the chunk, or finds in it the rest of a
header that declares too much. -/
theorem feed_cases {d : FrameDecoder} {chunk : Bytes} (hd : nextFrame d.buffer = .incomplete)
    (hfits : Fits chunk) :
    d.feed chunk = (.ok (), ⟨d.buffer ++ chunk⟩) ∨
      (∃ d', d.feed chunk = (.error oversized, d')) ∧
        nextFrame (d.buffer ++ chunk) = .bad oversized := by
  have hlen := length_of_incomplete hd
  unfold feed
  by_cases hnil : chunk.length = 0
  · rw [if_pos hnil]
    rw [List.length_eq_zero_iff.mp hnil, List.append_nil]
    exact Or.inl rfl
  rw [if_neg hnil]
  by_cases hshort : d.buffer.length < kFrameHeaderSize
  swap
  · rw [if_neg hshort]
    exact Or.inl (feedRemaining_eq hlen hfits)
  rw [if_pos hshort]
  simp only
  set headerBytes := min chunk.length (kFrameHeaderSize - d.buffer.length) with hbytes
  have hjoin : d.buffer ++ chunk.take headerBytes ++ chunk.drop headerBytes = d.buffer ++ chunk := by
    rw [List.append_assoc, List.take_append_drop]
  have hheader : (d.buffer ++ chunk.take headerBytes).length = d.buffer.length + headerBytes := by
    rw [List.length_append, List.length_take, Nat.min_eq_left (Nat.min_le_left _ _)]
  by_cases hstill : (d.buffer ++ chunk.take headerBytes).length < kFrameHeaderSize
  · -- the chunk ends within the header
    rw [if_pos hstill, List.take_of_length_le (by omega)]
    exact Or.inl rfl
  rw [if_neg hstill, payloadSize_eq (not_lt.mp hstill)]
  have hsize : declaredSize (d.buffer ++ chunk) =
      declaredSize (d.buffer ++ chunk.take headerBytes) := by
    rw [← hjoin, declaredSize_append (not_lt.mp hstill)]
  by_cases hover : declaredSize (d.buffer ++ chunk.take headerBytes) > kMaxFrameSize
  · rw [if_pos hover]
    refine Or.inr ⟨⟨_, rfl⟩, ?_⟩
    unfold nextFrame
    rw [hsize, if_pos hover, if_neg]
    rw [← hjoin, List.length_append]
    omega
  · rw [if_neg hover]
    refine Or.inl ?_
    have hrest : Fits (chunk.drop headerBytes) := by
      unfold Fits at *
      rw [List.length_drop]
      omega
    simp only
    rw [feedRemaining_eq (d := ⟨d.buffer ++ chunk.take headerBytes⟩) _ hrest, hjoin]
    simp only [hheader]
    unfold kMaxFrameSize
    omega

/-- The driver parses the pieces it is fed. -/
theorem decodeChunks_eq {d : FrameDecoder} (hd : nextFrame d.buffer = .incomplete)
    {chunks : List Bytes} (hfits : ∀ chunk ∈ chunks, Fits chunk) :
    decodeChunks d chunks = ((parseFrames (d.buffer ++ chunks.flatten)).1,
      (parseFrames (d.buffer ++ chunks.flatten)).2.map FrameDecoder.mk) := by
  unfold parseFrames
  rw [← Lexer.parsePieces_eq (L := frameLexer) hd chunks]
  induction chunks generalizing d with
  | nil => rfl
  | cons chunk chunks ih =>
    rw [decodeChunks, Lexer.parsePieces]
    unfold Lexer.andThen
    obtain hok | ⟨⟨d', herr⟩, hbad⟩ := feed_cases hd (hfits chunk List.mem_cons_self)
    · have hdrain := drain_eq ⟨d.buffer ++ chunk⟩
      rw [hok]
      unfold parseFrames at hdrain
      cases hp : (frameLexer.parse (d.buffer ++ chunk)).2 with
      | error e =>
        rw [hp] at hdrain
        simp only [hdrain]
        rfl
      | ok rest =>
        rw [hp] at hdrain
        have hrest := ih (d := ⟨rest⟩) (Lexer.next_leftover hp)
          fun c hc => hfits c (List.mem_cons_of_mem chunk hc)
        simp only [hdrain, Except.map, hrest]
    · rw [herr, Lexer.parse_of_bad (L := frameLexer) hbad]
      rfl

end FrameDecoder

/-! ## Writing and reading back -/

theorem encodeFrame_ok {payload frame : Bytes} (h : encodeFrame payload = .ok frame) :
    payload.length ≤ kMaxFrameSize ∧
      frame = bigEndian kFrameHeaderSize payload.length ++ payload := by
  unfold encodeFrame at h
  split_ifs at h with hlen
  exact ⟨not_lt.mp hlen, (Except.ok.inj h).symm⟩

theorem declaredSize_bigEndian {n : ℕ} (h : n ≤ kMaxFrameSize) (s : Bytes) :
    declaredSize (bigEndian kFrameHeaderSize n ++ s) = n := by
  unfold declaredSize
  rw [List.take_left' (length_bigEndian _ _)]
  exact fromBigEndian_bigEndian (lt_of_le_of_lt h (by decide))

/-- A stream that begins with an encoded frame. -/
theorem nextFrame_encodeFrame {payload frame : Bytes} (h : encodeFrame payload = .ok frame)
    (rest : Bytes) : nextFrame (frame ++ rest) = .item payload rest := by
  obtain ⟨hlen, rfl⟩ := encodeFrame_ok h
  unfold nextFrame
  rw [List.append_assoc, declaredSize_bigEndian hlen, List.length_append, length_bigEndian,
    List.length_append, if_neg (by omega), if_neg (by omega), if_neg (by omega),
    List.drop_left' (length_bigEndian _ _), List.take_left' rfl, ← List.append_assoc,
    List.drop_left' (by rw [List.length_append, length_bigEndian])]

/-- The frames of these payloads, one after another. -/
def encodeFrames : List Bytes → Except Exception Bytes
  | [] => .ok []
  | payload :: payloads => do
    let frame ← encodeFrame payload
    let frames ← encodeFrames payloads
    return frame ++ frames

theorem encodeFrames_cons_ok {payload stream : Bytes} {payloads : List Bytes} :
    encodeFrames (payload :: payloads) = .ok stream ↔ ∃ frame frames,
      encodeFrame payload = .ok frame ∧ encodeFrames payloads = .ok frames ∧
        stream = frame ++ frames := by
  rw [encodeFrames]
  cases hframe : encodeFrame payload with
  | error e =>
    constructor
    · intro h
      cases h
    · rintro ⟨_, _, h, -⟩
      cases h
  | ok frame =>
  cases hframes : encodeFrames payloads with
  | error e =>
    constructor
    · intro h
      cases h
    · rintro ⟨_, _, -, h, -⟩
      cases h
  | ok frames =>
    constructor
    · intro h
      exact ⟨frame, frames, rfl, rfl, (Except.ok.inj h).symm⟩
    · rintro ⟨_, _, h, h', rfl⟩
      cases h
      cases h'
      rfl

theorem encodeFrames_concat {payloads : List Bytes} {stream payload frame : Bytes}
    (h : encodeFrames payloads = .ok stream) (hframe : encodeFrame payload = .ok frame) :
    encodeFrames (payloads ++ [payload]) = .ok (stream ++ frame) := by
  induction payloads generalizing stream with
  | nil =>
    cases h
    exact encodeFrames_cons_ok.mpr ⟨frame, [], hframe, rfl, by simp⟩
  | cons first payloads ih =>
    obtain ⟨head, tail, hfirst, hrest, rfl⟩ := encodeFrames_cons_ok.mp h
    rw [List.cons_append]
    exact encodeFrames_cons_ok.mpr ⟨head, tail ++ frame, hfirst, ih hrest, List.append_assoc _ _ _⟩

/-- The frame at the head of a stream is the one of its payload. -/
theorem encodeFrame_of_nextFrame {s payload rest : Bytes} (h : nextFrame s = .item payload rest) :
    ∃ frame, encodeFrame payload = .ok frame ∧ s = frame ++ rest := by
  obtain ⟨hlen, hmax, hpayload, rfl⟩ := nextFrame_item h
  have hsize : payload.length = declaredSize s := by
    rw [hpayload, List.length_take, List.length_drop]
    omega
  have hheader : bigEndian kFrameHeaderSize payload.length = s.take kFrameHeaderSize := by
    have hback := bigEndian_fromBigEndian (s.take kFrameHeaderSize)
    rw [List.length_take, Nat.min_eq_left (by omega)] at hback
    rw [hsize]
    exact hback
  refine ⟨bigEndian kFrameHeaderSize payload.length ++ payload, ?_, ?_⟩
  · unfold encodeFrame
    rw [if_neg (by omega)]
  · rw [hheader, hpayload, List.append_assoc, ← List.drop_drop, List.take_append_drop,
      List.take_append_drop]

/-- Frames at the head of a stream are read one by one. -/
theorem parseFrames_append {payloads : List Bytes} {stream : Bytes}
    (h : encodeFrames payloads = .ok stream) (rest : Bytes) :
    parseFrames (stream ++ rest) =
      (payloads ++ (parseFrames rest).1, (parseFrames rest).2) := by
  induction payloads generalizing stream with
  | nil =>
    cases h
    rfl
  | cons payload payloads ih =>
    obtain ⟨frame, frames, hframe, hframes, rfl⟩ := encodeFrames_cons_ok.mp h
    have hnext : frameLexer.next (frame ++ (frames ++ rest)) = .item payload (frames ++ rest) :=
      nextFrame_encodeFrame hframe _
    have hrest := ih hframes
    unfold parseFrames at hrest ⊢
    rw [List.append_assoc, Lexer.parse_of_item hnext, hrest]
    rfl

/-- Reading back what `encodeFrames` wrote. -/
theorem parseFrames_encodeFrames {payloads : List Bytes}
    (h : ∀ payload ∈ payloads, payload.length ≤ kMaxFrameSize) :
    ∃ stream, encodeFrames payloads = .ok stream ∧ parseFrames stream = (payloads, .ok []) := by
  induction payloads with
  | nil => exact ⟨[], rfl, Lexer.parse_of_incomplete (L := frameLexer) rfl⟩
  | cons payload payloads ih =>
    obtain ⟨stream, hstream, hparse⟩ := ih fun p hp => h p (List.mem_cons_of_mem payload hp)
    have hencode : encodeFrame payload =
        .ok (bigEndian kFrameHeaderSize payload.length ++ payload) := by
      unfold encodeFrame
      rw [if_neg (not_lt.mpr (h payload List.mem_cons_self))]
    refine ⟨bigEndian kFrameHeaderSize payload.length ++ payload ++ stream, ?_, ?_⟩
    · rw [encodeFrames, hencode, hstream]
      rfl
    · have hnext : frameLexer.next (bigEndian kFrameHeaderSize payload.length ++ payload ++ stream) =
          .item payload stream := nextFrame_encodeFrame hencode stream
      unfold parseFrames at hparse ⊢
      rw [Lexer.parse_of_item hnext, hparse]

/-! ## Independence of chunking -/

/-- A header and as many bytes as it declares. -/
def IsFrame (s : Bytes) : Prop :=
  kFrameHeaderSize ≤ s.length ∧ s.length = kFrameHeaderSize + declaredSize s

/-- The beginning of a frame that misses at least a byte. -/
def UnfinishedFrame (s : Bytes) : Prop := ∃ frame, IsFrame frame ∧ s <+: frame ∧ s ≠ frame

/-- Padding completes a frame whose header is there. -/
theorem isFrame_append_replicate {s : Bytes} (hhead : kFrameHeaderSize ≤ s.length)
    (hlen : s.length ≤ kFrameHeaderSize + declaredSize s) :
    IsFrame (s ++ List.replicate (kFrameHeaderSize + declaredSize s - s.length) 0) := by
  unfold IsFrame
  rw [declaredSize_append hhead, List.length_append, List.length_replicate]
  omega

theorem unfinishedFrame_of_incomplete {s : Bytes} (h : nextFrame s = .incomplete) :
    UnfinishedFrame s := by
  by_cases hhead : s.length < kFrameHeaderSize
  · -- any header that extends `s`, and a body for it
    set header := s ++ List.replicate (kFrameHeaderSize - s.length) 0 with hheader
    have hfour : header.length = kFrameHeaderSize := by
      rw [hheader, List.length_append, List.length_replicate]
      omega
    have hframe := isFrame_append_replicate (s := header) hfour.ge (by omega)
    refine ⟨_, hframe, ⟨_, (List.append_assoc _ _ _).symm⟩, fun heq => ?_⟩
    have := hframe.1
    rw [← heq] at this
    omega
  · obtain hshort | ⟨-, hlen⟩ := nextFrame_incomplete h
    · exact absurd hshort hhead
    · have hframe := isFrame_append_replicate (s := s) (not_lt.mp hhead) hlen.le
      refine ⟨_, hframe, List.prefix_append _ _, fun heq => ?_⟩
      have hlength := congrArg List.length heq
      rw [List.length_append, List.length_replicate] at hlength
      omega

theorem parseFrames_error {stream : Bytes} {e : Exception}
    (h : (parseFrames stream).2 = .error e) : e = oversized := by
  unfold parseFrames at h
  induction stream using Lexer.parse_induction (L := frameLexer) with
  | incomplete s hs =>
    rw [Lexer.parse_of_incomplete hs] at h
    cases h
  | bad s e' hs =>
    rw [Lexer.parse_of_bad hs] at h
    obtain rfl := Except.error.inj h
    exact (nextFrame_bad hs).2.2
  | item s b rest hs ih =>
    rw [Lexer.parse_of_item hs] at h
    exact ih h

/-- However a stream is cut into chunks, the decoder yields the payloads and the verdict of the
parse of the whole stream. Between chunks it holds an unfinished frame, and a stream of encoded
frames decodes to their payloads. -/
theorem decodeChunks_independent (chunks : List Bytes)
    (hfits : ∀ chunk ∈ chunks, FrameDecoder.Fits chunk) :
    FrameDecoder.decodeChunks {} chunks = ((parseFrames chunks.flatten).1,
        (parseFrames chunks.flatten).2.map FrameDecoder.mk) ∧
      (∀ e, (FrameDecoder.decodeChunks {} chunks).2 = .error e → e = oversized) ∧
      (∀ n payloads d, FrameDecoder.decodeChunks {} (chunks.take n) = (payloads, .ok d) →
        UnfinishedFrame d.buffer ∧ d.buffer.length < kFrameHeaderSize + kMaxFrameSize ∧
          (kFrameHeaderSize ≤ d.buffer.length → declaredSize d.buffer ≤ kMaxFrameSize)) ∧
      ∀ payloads : List Bytes, (∀ payload ∈ payloads, payload.length ≤ kMaxFrameSize) →
        ∃ stream, encodeFrames payloads = .ok stream ∧
          (chunks.flatten = stream →
            FrameDecoder.decodeChunks {} chunks = (payloads, .ok {})) := by
  have hempty : nextFrame ({} : FrameDecoder).buffer = .incomplete := rfl
  have hparse := FrameDecoder.decodeChunks_eq hempty hfits
  refine ⟨hparse, fun e he => ?_, fun n payloads d hd => ?_, fun payloads hsize => ?_⟩
  · rw [hparse] at he
    cases h : (parseFrames chunks.flatten).2 with
    | error e' =>
      obtain rfl := parseFrames_error h
      rw [List.nil_append, h] at he
      exact (Except.error.inj he).symm
    | ok rest =>
      rw [List.nil_append, h] at he
      cases he
  · rw [FrameDecoder.decodeChunks_eq hempty
      fun chunk hc => hfits chunk (List.mem_of_mem_take hc)] at hd
    cases h : (parseFrames (chunks.take n).flatten).2 with
    | error e =>
      rw [List.nil_append, h] at hd
      cases hd
    | ok rest =>
      rw [List.nil_append, h] at hd
      obtain rfl := Except.ok.inj (Prod.mk.inj hd).2
      have hrest : nextFrame rest = .incomplete := Lexer.next_leftover (L := frameLexer) h
      refine ⟨unfinishedFrame_of_incomplete hrest, FrameDecoder.length_of_incomplete hrest,
        fun hhead => ?_⟩
      obtain hshort | ⟨hmax, -⟩ := nextFrame_incomplete hrest
      · exact absurd hshort (not_lt.mpr hhead)
      · exact hmax
  · obtain ⟨stream, hstream, hread⟩ := parseFrames_encodeFrames hsize
    refine ⟨stream, hstream, fun hcut => ?_⟩
    rw [hparse, List.nil_append, hcut, hread]
    rfl

/-- Two frames cut inside the first header, inside the first payload and behind it. -/
theorem decodeChunks_independent_run :
    FrameDecoder.decodeChunks {} [[0, 0], [0, 2, 7], [], [8, 0, 0, 0], [1, 9, 0]] =
      ([[7, 8], [9]], .ok ⟨[0]⟩) := by
  have h := (decodeChunks_independent [[0, 0], [0, 2, 7], [], [8, 0, 0, 0], [1, 9, 0]]
    (by decide)).1
  rw [h]
  decide

end Runnerd
