import HyperRuby.Proxy.Header

/-! # The headers that are accepted

`proxy::parse` accepts a header of the grammar below with anything behind it, and
nothing else; while it asks for more, the buffer is within the bound it was given.
-/
namespace HyperRuby.Proxy
open Framing

section Grammar

/-- The length of an address block, as a header writes it. -/
def toBeBytes (n : ℕ) : Bytes := [UInt8.ofNat (n / 256), UInt8.ofNat n]

def header (command family : UInt8) (address : Bytes) : Bytes :=
  signature ++ [0x20 + command, family] ++ toBeBytes address.length ++ address

/-- The supported commands and families, with the peer each of them names. -/
inductive Carries : UInt8 → UInt8 → Bytes → Option IpAddr → Prop
  | local {family : UInt8} {address : Bytes} : Carries 0x0 family address none
  | inet {family : UInt8} {address : Bytes} (hfamily : family = 0x11 ∨ family = 0x12)
      (h : 12 ≤ address.length) :
      Carries 0x1 family address (some (.v4 (octets 4 address (by omega))))
  | inet6 {family : UInt8} {address : Bytes} (hfamily : family = 0x21 ∨ family = 0x22)
      (h : 36 ≤ address.length) :
      Carries 0x1 family address (some (.v6 (octets 16 address (by omega))))
  | unnamed {family : UInt8} {address : Bytes}
      (hfamily : family = 0x00 ∨ family = 0x31 ∨ family = 0x32) : Carries 0x1 family address none

theorem header_eq (command family : UInt8) (address rest : Bytes) :
    header command family address ++ rest = signature ++ (0x20 + command) :: family ::
      UInt8.ofNat (address.length / 256) :: UInt8.ofNat address.length :: (address ++ rest) := by
  simp [header, toBeBytes]

theorem header_length (command family : UInt8) (address : Bytes) :
    (header command family address).length = prefixLen + address.length := by
  simp only [header, toBeBytes, signature, prefixLen, List.length_append, List.length_cons,
    List.length_nil]

theorem fromBeBytes_ofNat {n : ℕ} (h : n < 2 ^ 16) :
    fromBeBytes (UInt8.ofNat (n / 256)) (UInt8.ofNat n) = n := by
  simp only [fromBeBytes, UInt8.toNat_ofNat']
  omega

theorem fromBeBytes_lt (high low : UInt8) : fromBeBytes high low < 2 ^ 16 := by
  have hhigh := high.toNat_lt
  have hlow := low.toNat_lt
  unfold fromBeBytes
  omega

theorem toBeBytes_fromBeBytes (high low : UInt8) :
    UInt8.ofNat (fromBeBytes high low / 256) = high ∧ UInt8.ofNat (fromBeBytes high low) = low := by
  have hhigh := high.toNat_lt
  have hlow := low.toNat_lt
  constructor <;> apply UInt8.toNat_inj.mp <;>
    simp only [fromBeBytes, UInt8.toNat_ofNat'] <;> omega

theorem toNat_shiftRight_four (b : UInt8) : (b >>> 4).toNat = b.toNat / 16 := by
  rw [UInt8.toNat_shiftRight]
  exact Nat.shiftRight_eq_div_pow _ 4

theorem toNat_and_fifteen (b : UInt8) : (b &&& 0x0f).toNat = b.toNat % 16 := by
  rw [UInt8.toNat_and]
  exact Nat.and_two_pow_sub_one_eq_mod _ 4

theorem versionCommand_iff (versionCommand command : UInt8) :
    (versionCommand >>> 4 = 0x2 ∧ ¬ 0x1 < versionCommand &&& 0x0f ∧
      versionCommand &&& 0x0f = command) ↔
    versionCommand = 0x20 + command ∧ ¬ 0x1 < command := by
  have hlt := versionCommand.toNat_lt
  simp only [UInt8.lt_iff_toNat_lt, ← UInt8.toNat_inj, toNat_shiftRight_four, toNat_and_fifteen,
    UInt8.toNat_add, UInt8.reduceToNat]
  omega

theorem Carries.command_le {command family : UInt8} {address : Bytes} {source : Option IpAddr}
    (h : Carries command family address source) : ¬ 0x1 < command := by
  cases h <;> decide

theorem command_cases {command : UInt8} (h : ¬ 0x1 < command) : command = 0x0 ∨ command = 0x1 := by
  simp only [UInt8.lt_iff_toNat_lt, ← UInt8.toNat_inj, UInt8.reduceToNat] at h ⊢
  omega

theorem sourceOf_eq_ok {command family : UInt8} {address : Bytes} {source : Option IpAddr}
    (hcommand : ¬ 0x1 < command) :
    sourceOf command family address = .ok source ↔ Carries command family address source := by
  constructor
  · intro h
    rcases command_cases hcommand with rfl | rfl
    · cases h
      exact .local
    · unfold sourceOf at h
      rw [if_neg (by decide)] at h
      split_ifs at h with hinet hshort hinet6 hshort6 hunnamed
      · cases h
        exact .inet hinet (Nat.le_of_not_lt hshort)
      · cases h
        exact .inet6 hinet6 (Nat.le_of_not_lt hshort6)
      · cases h
        exact .unnamed hunnamed
  · intro h
    cases h with
    | «local» => rfl
    | inet hfamily h =>
      rw [sourceOf, if_neg (by decide), if_pos hfamily, dif_neg (Nat.not_lt.mpr h)]
    | inet6 hfamily h =>
      rcases hfamily with rfl | rfl <;>
        rw [sourceOf, if_neg (by decide), if_neg (by decide), if_pos (by decide),
          dif_neg (Nat.not_lt.mpr h)]
    | unnamed hfamily =>
      rcases hfamily with rfl | rfl | rfl <;> rfl

theorem map_complete_eq {x : Except ProxyError (Option IpAddr)} {length : ℕ} {r : ProxyHeader}
    (h : x.map (fun source => .complete source length) = .ok r) :
    ∃ source, x = .ok source ∧ r = .complete source length := by
  cases x with
  | error e => cases h
  | ok source => exact ⟨source, rfl, (Except.ok.inj h).symm⟩

theorem block_complete_iff {maxLength : ℕ} {versionCommand family high low : UInt8} {rest : Bytes}
    {source : Option IpAddr} {length : ℕ} :
    block maxLength versionCommand family high low rest = .ok (.complete source length) ↔
      versionCommand >>> 4 = 0x2 ∧ ¬ 0x1 < versionCommand &&& 0x0f ∧
        length = prefixLen + fromBeBytes high low ∧ length ≤ maxLength ∧
        fromBeBytes high low ≤ rest.length ∧
        sourceOf (versionCommand &&& 0x0f) family (rest.take (fromBeBytes high low)) =
          .ok source := by
  unfold block
  constructor
  · intro h
    split_ifs at h with hversion hcommand hlong hshort
    · cases h
    · obtain ⟨named, hsource, hheader⟩ := map_complete_eq h
      cases hheader
      exact ⟨not_not.mp hversion, hcommand, rfl, Nat.le_of_not_lt hlong,
        Nat.le_of_not_lt hshort, hsource⟩
  · rintro ⟨hversion, hcommand, rfl, hlong, hshort, hsource⟩
    rw [if_neg (not_not_intro hversion), if_neg hcommand, if_neg (Nat.not_lt.mpr hlong),
      if_neg (Nat.not_lt.mpr hshort), hsource]
    rfl

/-- The buffer is never asked to grow beyond the longest header allowed. -/
theorem parse_incomplete_length {buf : Bytes} {maxLength : ℕ}
    (h : parse buf maxLength = .ok (.ok .incomplete)) : buf.length < max prefixLen maxLength := by
  generalize hr : (.ok .incomplete : Except ProxyError ProxyHeader) = r at h
  cases parsed_of_parse h with
  | unmatched hunmatched => cases hr
  | short hmatch hshort => exact lt_max_of_lt_left hshort
  | @block versionCommand family high low rest hbuf =>
    unfold block at hr
    split_ifs at hr with hversion hcommand hlong hshort
    · subst hbuf
      apply lt_max_of_lt_right
      have hlength : (signature ++ versionCommand :: family :: high :: low :: rest).length =
          prefixLen + rest.length := by
        simp only [signature, prefixLen, List.length_append, List.length_cons, List.length_nil]
        omega
      omega
    · obtain ⟨named, hsource, hheader⟩ := map_complete_eq hr.symm
      cases hheader

theorem parse_header {maxLength : ℕ} {command family : UInt8} {address : Bytes}
    {source : Option IpAddr} (h16 : address.length < 2 ^ 16)
    (hlong : prefixLen + address.length ≤ maxLength) (h : Carries command family address source)
    (rest : Bytes) :
    parse (header command family address ++ rest) maxLength =
      .ok (.ok (.complete source (prefixLen + address.length))) := by
  obtain ⟨hversion, hcommand, hlow⟩ :=
    (versionCommand_iff (0x20 + command) command).mpr ⟨rfl, h.command_le⟩
  rw [header_eq, parse_signature, block_complete_iff.mpr]
  rw [fromBeBytes_ofNat h16, List.take_left, hlow, sourceOf_eq_ok h.command_le]
  exact ⟨hversion, hlow ▸ hcommand, rfl, hlong, by simp, h⟩

/-- A header is accepted exactly when it is one of the grammar and fits. -/
theorem parse_complete_iff {buf : Bytes} {maxLength : ℕ} {source : Option IpAddr} {length : ℕ} :
    parse buf maxLength = .ok (.ok (.complete source length)) ↔
      ∃ command family address rest, buf = header command family address ++ rest ∧
        address.length < 2 ^ 16 ∧ length = (header command family address).length ∧
        length = prefixLen + address.length ∧ length ≤ maxLength ∧
        Carries command family address source := by
  constructor
  · intro h
    generalize hr : (.ok (.complete source length) : Except ProxyError ProxyHeader) = r at h
    cases parsed_of_parse h with
    | unmatched hunmatched => cases hr
    | short hmatch hshort => cases hr
    | @block versionCommand family high low rest hbuf =>
      obtain ⟨hversion, hcommand, rfl, hlong, hshort, hsource⟩ := block_complete_iff.mp hr.symm
      obtain ⟨hvc, hle⟩ := (versionCommand_iff versionCommand _).mp ⟨hversion, hcommand, rfl⟩
      obtain ⟨hhigh, hlow⟩ := toBeBytes_fromBeBytes high low
      have haddress : (rest.take (fromBeBytes high low)).length = fromBeBytes high low := by
        rw [List.length_take, Nat.min_eq_left hshort]
      refine ⟨versionCommand &&& 0x0f, family, rest.take (fromBeBytes high low),
        rest.drop (fromBeBytes high low), ?_, ?_, ?_, ?_, hlong, (sourceOf_eq_ok hle).mp hsource⟩
      · rw [header_eq, haddress, ← hvc, hhigh, hlow, List.take_append_drop, hbuf]
      · rw [haddress]
        exact fromBeBytes_lt high low
      · rw [header_length, haddress]
      · rw [haddress]
  · rintro ⟨command, family, address, rest, rfl, h16, -, rfl, hlong, hcarries⟩
    exact parse_header h16 hlong hcarries rest

example : parse (header 0x1 0x11 [203, 0, 113, 7, 10, 0, 0, 1, 0x15, 0xb3, 2, 2] ++ [0x3c]) 1024 =
    .ok (.ok (.complete (some (.v4 #v[203, 0, 113, 7])) 28)) := by decide

/-- `parse` returns on every buffer. It accepts the supported headers and no others, and
asks for more only below the bound. -/
theorem parse_accepts_supported (buf : Bytes) (maxLength : ℕ) :
    (∃ r, parse buf maxLength = .ok r) ∧
      (∀ source length, parse buf maxLength = .ok (.ok (.complete source length)) ↔
        ∃ command family address rest, buf = header command family address ++ rest ∧
          address.length < 2 ^ 16 ∧ length = (header command family address).length ∧
          length = prefixLen + address.length ∧ length ≤ maxLength ∧
          Carries command family address source) ∧
      (parse buf maxLength = .ok (.ok .incomplete) → buf.length < max prefixLen maxLength) := by
  refine ⟨?_, fun source length => parse_complete_iff, parse_incomplete_length⟩
  obtain ⟨r, hr, -⟩ := parse_parsed buf maxLength
  exact ⟨r, hr⟩

end Grammar

end HyperRuby.Proxy
