import HyperRuby.Library.BigEndian
import HyperRuby.Http.Message

/-! # The frame around a gRPC message

A flag byte, the length of the message in four big-endian bytes, and the message. Encoding keeps
only the low word of the length, so a message that is too long for it is not read back.
-/
namespace HyperRuby.Http
open Framing Library

/-- The bytes of a `u32`, most significant first. -/
def be32 (n : ℕ) : Bytes := BigEndian.toBytes 4 n

def encodeGrpcFrame (message : Bytes) : Bytes :=
  0 :: (be32 (message.length % 2 ^ 32) ++ message)

@[simp] theorem length_be32 (n : ℕ) : (be32 n).length = 4 := BigEndian.length_toBytes 4 n

/-- The length is read back as far as four bytes hold it. -/
theorem decodeGrpcFrame_be32 (flag : UInt8) (n : ℕ) (rest : Bytes) :
    decodeGrpcFrame (flag :: (be32 n ++ rest)) =
      if rest.length < n % 2 ^ 32 then none
      else some (decide (flag ≠ 0), rest.take (n % 2 ^ 32)) := by
  have hvalue : BigEndian.value (be32 n) = n % 2 ^ 32 := BigEndian.value_toBytes 4 n
  have hlength := length_be32 n
  match be32 n, hlength, hvalue with
  | [b1, b2, b3, b4], _, hvalue =>
    have hread : ((b1.toNat * 256 + b2.toNat) * 256 + b3.toNat) * 256 + b4.toNat = n % 2 ^ 32 := by
      rw [← hvalue]
      simp [BigEndian.value]
    rw [List.cons_append, List.cons_append, List.cons_append, List.cons_append, List.nil_append,
      decodeGrpcFrame]
    simp only [hread]

theorem decodeGrpcFrame_frame (flag : UInt8) {message : Bytes} (hfits : message.length < 2 ^ 32)
    (rest : Bytes) :
    decodeGrpcFrame (flag :: (be32 message.length ++ (message ++ rest))) =
      some (decide (flag ≠ 0), message) := by
  rw [decodeGrpcFrame_be32, Nat.mod_eq_of_lt hfits, if_neg (by rw [List.length_append]; omega),
    List.take_left]

/-- Whatever gives a message is a complete frame in front of some bytes. -/
theorem frame_of_decodeGrpcFrame {body message : Bytes} {compressed : Bool}
    (h : decodeGrpcFrame body = some (compressed, message)) :
    ∃ flag rest, body = flag :: (be32 message.length ++ (message ++ rest)) ∧
      message.length < 2 ^ 32 ∧ compressed = decide (flag ≠ 0) := by
  match body, h with
  | flag :: b1 :: b2 :: b3 :: b4 :: rest, h =>
    have hbytes := BigEndian.toBytes_value [b1, b2, b3, b4]
    have hlt : BigEndian.value [b1, b2, b3, b4] < 2 ^ 32 := by
      simpa using BigEndian.value_lt [b1, b2, b3, b4]
    have hframe : (flag :: b1 :: b2 :: b3 :: b4 :: rest : Bytes) =
        flag :: (be32 (BigEndian.value [b1, b2, b3, b4]) ++ rest) := by
      rw [be32]
      exact congrArg (fun word => flag :: (word ++ rest)) hbytes.symm
    generalize BigEndian.value [b1, b2, b3, b4] = n at hlt hframe
    rw [hframe, decodeGrpcFrame_be32, Nat.mod_eq_of_lt hlt] at h
    split_ifs at h with hshort
    obtain ⟨rfl, rfl⟩ := Prod.mk.inj (Option.some.inj h)
    have hlength : (rest.take n).length = n := by
      rw [List.length_take]
      omega
    refine ⟨flag, rest.drop n, ?_, by rw [hlength]; exact hlt, rfl⟩
    rw [hframe, hlength, List.take_append_drop]

theorem decodeGrpcFrame_eq_some {body message : Bytes} {compressed : Bool} :
    decodeGrpcFrame body = some (compressed, message) ↔
      ∃ flag rest, body = flag :: (be32 message.length ++ (message ++ rest)) ∧
        message.length < 2 ^ 32 ∧ compressed = decide (flag ≠ 0) := by
  constructor
  · exact frame_of_decodeGrpcFrame
  · rintro ⟨flag, rest, rfl, hfits, rfl⟩
    exact decodeGrpcFrame_frame flag hfits rest

theorem decodeGrpcFrame_cut {flag : UInt8} {message body : Bytes}
    (hfits : message.length < 2 ^ 32) (hcut : body <+: flag :: (be32 message.length ++ message))
    (hproper : body ≠ flag :: (be32 message.length ++ message)) : decodeGrpcFrame body = none := by
  by_contra hsome
  obtain ⟨⟨compressed, found⟩, hdecode⟩ := Option.ne_none_iff_exists'.mp hsome
  obtain ⟨more, hmore⟩ := hcut
  obtain ⟨flag', rest, rfl, hfits', -⟩ := frame_of_decodeGrpcFrame hdecode
  -- the same frame in front of more bytes gives the same message, which is then the whole one
  have hwhole := decodeGrpcFrame_frame flag' hfits' (rest ++ more)
  have hframe := decodeGrpcFrame_frame flag hfits []
  rw [List.append_nil, ← hmore] at hframe
  simp only [List.cons_append, List.append_assoc] at hframe hmore
  rw [hwhole] at hframe
  obtain ⟨-, rfl⟩ := Prod.mk.inj (Option.some.inj hframe)
  apply hproper
  obtain ⟨rfl, htail⟩ := List.cons.inj hmore
  have hrest := List.append_cancel_left (List.append_cancel_left (htail.trans
    (congrArg (be32 found.length ++ ·) (List.append_nil found).symm)))
  rw [(List.append_eq_nil_iff.mp hrest).1, List.append_nil]

/-- The encoding is read back from its own length on. -/
theorem decodeGrpcFrame_encode (message rest : Bytes) :
    decodeGrpcFrame (encodeGrpcFrame message ++ rest) =
      some (false, (message ++ rest).take (message.length % 2 ^ 32)) := by
  have hle := Nat.mod_le message.length (2 ^ 32)
  rw [encodeGrpcFrame, List.cons_append, List.append_assoc, decodeGrpcFrame_be32, Nat.mod_mod,
    if_neg (by rw [List.length_append]; omega)]
  rfl

theorem decodeGrpcFrame_encode_iff (message : Bytes) :
    decodeGrpcFrame (encodeGrpcFrame message) = some (false, message) ↔
      message.length < 2 ^ 32 := by
  have hread := decodeGrpcFrame_encode message []
  rw [List.append_nil, List.append_nil] at hread
  rw [hread, Option.some.injEq, Prod.mk.injEq]
  constructor
  · rintro ⟨-, htake⟩
    have hlength := congrArg List.length htake
    rw [List.length_take] at hlength
    have hlt := Nat.mod_lt message.length (Nat.two_pow_pos 32)
    have hle := Nat.mod_le message.length (2 ^ 32)
    omega
  · intro hfits
    rw [Nat.mod_eq_of_lt hfits, List.take_length]
    exact ⟨rfl, rfl⟩

/-- A body gives a message exactly when a complete frame of it stands in front, so never when
the frame is cut off, and encoding is undone exactly on the messages whose length fits. -/
theorem grpc_frame_codec :
    (∀ (body message : Bytes) (compressed : Bool),
      decodeGrpcFrame body = some (compressed, message) ↔
        ∃ flag rest, body = flag :: (be32 message.length ++ (message ++ rest)) ∧
          message.length < 2 ^ 32 ∧ compressed = decide (flag ≠ 0)) ∧
    (∀ body, decodeGrpcFrame body = none ↔ ¬ ∃ flag message rest,
      body = flag :: (be32 message.length ++ (message ++ rest)) ∧ message.length < 2 ^ 32) ∧
    (∀ (flag : UInt8) (message body : Bytes), message.length < 2 ^ 32 →
      body <+: flag :: (be32 message.length ++ message) →
      body ≠ flag :: (be32 message.length ++ message) → decodeGrpcFrame body = none) ∧
    (∀ message rest : Bytes, message.length < 2 ^ 32 →
      decodeGrpcFrame (encodeGrpcFrame message ++ rest) = some (false, message)) ∧
    ∀ message : Bytes, decodeGrpcFrame (encodeGrpcFrame message) = some (false, message) ↔
      message.length < 2 ^ 32 := by
  refine ⟨fun _ _ _ => decodeGrpcFrame_eq_some, fun body => ?_,
    fun _ _ _ hfits hcut hproper => decodeGrpcFrame_cut hfits hcut hproper,
    fun message rest hfits => ?_, decodeGrpcFrame_encode_iff⟩
  · constructor
    · rintro hnone ⟨flag, message, rest, rfl, hfits⟩
      rw [decodeGrpcFrame_frame flag hfits rest] at hnone
      cases hnone
    · intro hno
      by_contra hsome
      obtain ⟨⟨compressed, message⟩, hdecode⟩ := Option.ne_none_iff_exists'.mp hsome
      obtain ⟨flag, rest, hbody, hfits, -⟩ := frame_of_decodeGrpcFrame hdecode
      exact hno ⟨flag, message, rest, hbody, hfits⟩
  · rw [decodeGrpcFrame_encode, Nat.mod_eq_of_lt hfits, List.take_left]

theorem grpc_frame_codec_short :
    decodeGrpcFrame [1, 0, 0, 0, 2, 104] = none ∧
      decodeGrpcFrame (encodeGrpcFrame [104, 105] ++ [0]) = some (false, [104, 105]) :=
  ⟨grpc_frame_codec.2.2.1 1 [104, 105] [1, 0, 0, 0, 2, 104] (by decide) (by decide) (by decide),
    grpc_frame_codec.2.2.2.1 [104, 105] [0] (by decide)⟩

end HyperRuby.Http
