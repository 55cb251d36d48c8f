import HyperRuby.Framing.Session
import HyperRuby.Proxy.Grammar

/-! # Reading the PROXY header of a connection

`read_proxy_header` parses its buffer from scratch after every read until the header is
whole. Where the reads cut the stream makes no difference: the outcome is the one that
`proxy::parse` gives on the whole stream, and the framer gets every byte behind the header.
-/
namespace HyperRuby.Proxy
open Framing

def maxProxyHeaderBytes : ℕ := 1024

inductive ReadFailure where
  | eof
  | io
  | timeout
  deriving DecidableEq, Repr

inductive ProxyFailure where
  | header (error : ProxyError)
  | read (reason : ReadFailure)
  deriving DecidableEq, Repr

/-- The peer, what is left of the buffer, and the reads not made. -/
abbrev Admission := Option IpAddr × Bytes × List Bytes

/-- The loop of `read_proxy_header` on the reads to come, the last of which fails as told.
A read of no bytes is the end of the stream. -/
def readProxyHeader (last : ReadFailure) (buffer : Bytes) (reads : List Bytes) :
    Except Trap (Except ProxyFailure Admission) :=
  match parse buffer maxProxyHeaderBytes with
  | .error trap => .error trap
  | .ok (.ok (.complete source length)) =>
    (advance length buffer).map (fun rest => .ok (source, rest, reads))
  | .ok (.ok .incomplete) =>
    match reads with
    | [] => .ok (.error (.read last))
    | [] :: _ => .ok (.error (.read .eof))
    | (b :: bs) :: reads => readProxyHeader last (buffer ++ b :: bs) reads
  | .ok (.error error) => .ok (.error (.header error))

/-- What a connection is told apart by: the peer with the bytes the framer is to see, or
the class of the failure. -/
inductive Fate where
  | admitted (source : Option IpAddr) (stream : Bytes)
  | malformed
  | cutOff (reason : ReadFailure)
  deriving DecidableEq, Repr

def fate : Except ProxyFailure Admission → Fate
  | .ok (source, rest, unread) => .admitted source (rest ++ unread.flatten)
  | .error (.header _) => .malformed
  | .error (.read reason) => .cutOff reason

/-- The fate that the parser alone gives to a whole stream. -/
def fateOf (last : ReadFailure) (stream : Bytes) : Except ProxyError ProxyHeader → Fate
  | .ok (.complete source length) => .admitted source (stream.drop length)
  | .ok .incomplete => .cutOff last
  | .error _ => .malformed

theorem complete_length_le {buf : Bytes} {maxLength : ℕ} {source : Option IpAddr} {length : ℕ}
    (h : parse buf maxLength = .ok (.ok (.complete source length))) : length ≤ buf.length := by
  obtain ⟨command, family, address, rest, rfl, -, rfl, -⟩ := parse_complete_iff.mp h
  simp

section Loop
variable (last : ReadFailure) {buffer : Bytes} (reads : List Bytes)

theorem readProxyHeader_complete {source : Option IpAddr} {length : ℕ}
    (h : parse buffer maxProxyHeaderBytes = .ok (.ok (.complete source length))) :
    readProxyHeader last buffer reads = .ok (.ok (source, buffer.drop length, reads)) := by
  rw [readProxyHeader.eq_def, h]
  simp only [advance_of_le (complete_length_le h), Except.map]

theorem readProxyHeader_error {error : ProxyError}
    (h : parse buffer maxProxyHeaderBytes = .ok (.error error)) :
    readProxyHeader last buffer reads = .ok (.error (.header error)) := by
  rw [readProxyHeader.eq_def, h]

theorem readProxyHeader_last (h : parse buffer maxProxyHeaderBytes = .ok (.ok .incomplete)) :
    readProxyHeader last buffer [] = .ok (.error (.read last)) := by
  rw [readProxyHeader.eq_def, h]

theorem readProxyHeader_more {bytes : Bytes} (hbytes : bytes ≠ [])
    (h : parse buffer maxProxyHeaderBytes = .ok (.ok .incomplete)) :
    readProxyHeader last buffer (bytes :: reads) =
      readProxyHeader last (buffer ++ bytes) reads := by
  cases bytes with
  | nil => exact absurd rfl hbytes
  | cons b bs => rw [readProxyHeader.eq_def, h]

theorem readProxyHeader_decided {r : Except ProxyError ProxyHeader}
    (h : parse buffer maxProxyHeaderBytes = .ok r) (hr : r ≠ .ok .incomplete) :
    ∃ whole r', parse (buffer ++ reads.flatten) maxProxyHeaderBytes = .ok whole ∧
      readProxyHeader last buffer reads = .ok r' ∧
      fate r' = fateOf last (buffer ++ reads.flatten) whole := by
  match r, h, hr with
  | .ok (.complete source length), h, _ =>
    refine ⟨_, _, parse_append_complete h _, readProxyHeader_complete last reads h, ?_⟩
    rw [fate, fateOf, List.drop_append_of_le_length (complete_length_le h)]
  | .ok .incomplete, _, hr => exact absurd rfl hr
  | .error error, h, _ =>
    obtain ⟨error', herror⟩ := parse_append_error h reads.flatten
    exact ⟨_, _, herror, readProxyHeader_error last reads h, rfl⟩

/-- The loop ends without a panic, in the fate of the whole stream. -/
theorem readProxyHeader_fate (hreads : ∀ bytes ∈ reads, bytes ≠ []) (buffer : Bytes) :
    ∃ whole r, parse (buffer ++ reads.flatten) maxProxyHeaderBytes = .ok whole ∧
      readProxyHeader last buffer reads = .ok r ∧
      fate r = fateOf last (buffer ++ reads.flatten) whole := by
  -- by induction on the reads, as long as the buffer is undecided
  induction reads generalizing buffer with
  | nil =>
    obtain ⟨r, hr, -⟩ := parse_parsed buffer maxProxyHeaderBytes
    by_cases hinc : r = .ok .incomplete
    · subst hinc
      exact ⟨_, _, by simpa using hr, readProxyHeader_last last hr, rfl⟩
    · exact readProxyHeader_decided last [] hr hinc
  | cons bytes reads ih =>
    obtain ⟨r, hr, -⟩ := parse_parsed buffer maxProxyHeaderBytes
    by_cases hinc : r = .ok .incomplete
    · subst hinc
      rw [readProxyHeader_more last reads (hreads _ List.mem_cons_self) hr, List.flatten_cons,
        ← List.append_assoc]
      exact ih (fun read hread => hreads read (List.mem_cons_of_mem _ hread)) (buffer ++ bytes)
    · exact readProxyHeader_decided last (bytes :: reads) hr hinc

end Loop

theorem fateOf_admitted_iff {last : ReadFailure} {stream rest : Bytes} {source : Option IpAddr}
    {whole : Except ProxyError ProxyHeader} (h : parse stream maxProxyHeaderBytes = .ok whole) :
    fateOf last stream whole = .admitted source rest ↔
      ∃ command family address, stream = header command family address ++ rest ∧
        address.length < 2 ^ 16 ∧ prefixLen + address.length ≤ maxProxyHeaderBytes ∧
        Carries command family address source := by
  constructor
  · intro hfate
    match whole, h, hfate with
    | .ok (.complete _ length), h, hfate =>
      obtain ⟨rfl, rfl⟩ := Fate.admitted.inj hfate
      obtain ⟨command, family, address, rest, rfl, h16, rfl, hlength, hmax, hcarries⟩ :=
        parse_complete_iff.mp h
      exact ⟨command, family, address, by rw [List.drop_left], h16, hlength ▸ hmax, hcarries⟩
  · rintro ⟨command, family, address, rfl, h16, hmax, hcarries⟩
    rw [parse_header h16 hmax hcarries] at h
    cases h
    rw [fateOf, ← header_length, List.drop_left]

theorem fateOf_malformed_iff {last : ReadFailure} {stream : Bytes}
    {whole : Except ProxyError ProxyHeader} :
    fateOf last stream whole = .malformed ↔ ∃ error, whole = .error error := by
  rcases whole with error | _ | _ <;> simp [fateOf]

theorem fateOf_cutOff_iff {last reason : ReadFailure} {stream : Bytes}
    {whole : Except ProxyError ProxyHeader} :
    fateOf last stream whole = .cutOff reason ↔ whole = .ok .incomplete ∧ last = reason := by
  rcases whole with error | _ | _ <;> simp [fateOf]

/-- Two ways of reading one stream give its connection the same fate. It is admitted, as the
peer that a header names and with the bytes behind it, exactly when the stream is that header in
front of those bytes; otherwise the header is malformed, or cut off by the last read, as the
parser finds the whole stream. What the parser accepts or refuses, it accepts or refuses with any
bytes behind it. -/
theorem readProxyHeader_chunking (last : ReadFailure) {reads reads' : List Bytes}
    (hstream : reads.flatten = reads'.flatten) (hreads : ∀ bytes ∈ reads, bytes ≠ [])
    (hreads' : ∀ bytes ∈ reads', bytes ≠ []) :
    (∃ r r', readProxyHeader last [] reads = .ok r ∧ readProxyHeader last [] reads' = .ok r' ∧
      fate r = fate r' ∧
      (∀ source rest, fate r = .admitted source rest ↔
        ∃ command family address, reads.flatten = header command family address ++ rest ∧
          address.length < 2 ^ 16 ∧ prefixLen + address.length ≤ maxProxyHeaderBytes ∧
          Carries command family address source) ∧
      (fate r = .malformed ↔
        ∃ error, parse reads.flatten maxProxyHeaderBytes = .ok (.error error)) ∧
      ∀ reason, fate r = .cutOff reason ↔
        parse reads.flatten maxProxyHeaderBytes = .ok (.ok .incomplete) ∧ last = reason) ∧
    (∀ buf maxLength source length e,
      parse buf maxLength = .ok (.ok (.complete source length)) →
        parse (buf ++ e) maxLength = .ok (.ok (.complete source length))) ∧
    (∀ buf maxLength error e, parse buf maxLength = .ok (.error error) →
      ∃ error', parse (buf ++ e) maxLength = .ok (.error error')) := by
  refine ⟨?_, fun _ _ _ _ e h => parse_append_complete h e, fun _ _ _ e h => parse_append_error h e⟩
  obtain ⟨whole, r, hwhole, hr, hfate⟩ := readProxyHeader_fate last reads hreads []
  obtain ⟨whole', r', hwhole', hr', hfate'⟩ := readProxyHeader_fate last reads' hreads' []
  rw [List.nil_append] at hwhole hfate hwhole' hfate'
  rw [← hstream, hwhole] at hwhole'
  obtain rfl := Except.ok.inj hwhole'
  rw [← hstream] at hfate'
  refine ⟨r, r', hr, hr', hfate.trans hfate'.symm, fun source rest => ?_, ?_, fun reason => ?_⟩
  · rw [hfate, fateOf_admitted_iff hwhole]
  · rw [hfate, fateOf_malformed_iff, hwhole]
    simp
  · rw [hfate, fateOf_cutOff_iff, hwhole]
    simp

/-- A header for a connection from 203.0.113.7, read in one piece with what follows it, or cut in
its signature and in its address. -/
theorem readProxyHeader_chunking_inet :
    let address : Bytes := [203, 0, 113, 7, 10, 0, 0, 1, 0x15, 0xb3, 2, 2]
    let stream : Bytes := header 0x1 0x11 address ++ [0x3c, 0x31]
    ∃ r r', readProxyHeader .eof [] [stream] = .ok r ∧
      readProxyHeader .eof [] [stream.take 7, (stream.drop 7).take 10, stream.drop 17] = .ok r' ∧
      fate r = .admitted (some (.v4 #v[203, 0, 113, 7])) [0x3c, 0x31] ∧
      fate r' = .admitted (some (.v4 #v[203, 0, 113, 7])) [0x3c, 0x31] := by
  intro address stream
  obtain ⟨⟨r, r', hr, hr', hsame, hadmitted, -⟩, -⟩ :=
    @readProxyHeader_chunking .eof [stream]
      [stream.take 7, (stream.drop 7).take 10, stream.drop 17] (by decide) (by decide) (by decide)
  have hfate : fate r = .admitted (some (.v4 #v[203, 0, 113, 7])) [0x3c, 0x31] :=
    (hadmitted _ _).mpr ⟨0x1, 0x11, address, by decide, by decide, by decide,
      .inet (.inl rfl) (by decide)⟩
  exact ⟨r, r', hr, hr', hfate, hsame ▸ hfate⟩

end HyperRuby.Proxy
