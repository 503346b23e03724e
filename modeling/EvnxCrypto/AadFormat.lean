import EvnxCrypto.Reader
import EvnxCrypto.VaultBinding

/-!
# Reading the associated data back

The documented format is the tag, a two-byte length, the vault id and a four-byte
version. It is self-delimiting, and `vaultAad` writes it for every id of fewer
than 65536 bytes. The length is cast to 16 bits, so from there on the prefix
states another length: the format reads a shorter id out of the encoding and
finds bytes left over.
-/
namespace EvnxCrypto
open Effect ByteString

/-- The documented format, field by field. -/
def readVaultAad : Reader UInt8 (String × UInt32) := do
  Reader.literal (utf8 "evnx")
  let length ← Reader.uint 2
  let id ← Reader.exactly length
  let version ← Reader.uint 4
  let vaultId ← Reader.check (ofUtf8 id)
  pure (vaultId, UInt32.ofNat version)

theorem vaultAad_octets (vaultId : String) (version : UInt32) :
    vaultAad vaultId version =
      utf8 "evnx" ++ bigEndian 2 ((utf8 vaultId).length % 65536) ++ utf8 vaultId ++
        bigEndian 4 version.toNat := by
  have hcast : (UInt16.ofNat (utf8 vaultId).length).toNat = (utf8 vaultId).length % 65536 :=
    UInt16.toNat_ofNat'
  simp only [vaultAad, asBytes, lits_octets, hcast]

/-- The encodings the format reads are those of the ids whose length fits. -/
theorem reads_readVaultAad :
    readVaultAad.Reads fun p enc =>
      (utf8 p.1).length < 65536 ∧ enc = vaultAad p.1 p.2 := by
  refine ((Reader.Reads.literal (utf8 "evnx")).bind fun _ =>
    (Reader.Reads.uint 2).bind fun length => (Reader.Reads.exactly length).bind fun id =>
    (Reader.Reads.uint 4).bind fun version => (Reader.Reads.check (ofUtf8 id)).bind fun vaultId =>
    Reader.Reads.pure (vaultId, UInt32.ofNat version)).congr ?_
  rintro ⟨vaultId, version⟩ enc
  rw [vaultAad_octets]
  constructor
  · rintro ⟨_, _, _, rfl, ⟨length, _, _, ⟨hlength, rfl⟩, ⟨id, _, _, ⟨hid, rfl⟩,
      ⟨v, _, _, ⟨hv, rfl⟩, ⟨vid, _, _, ⟨htext, rfl⟩, ⟨hpair, rfl⟩, rfl⟩, rfl⟩, rfl⟩, rfl⟩, rfl⟩
    cases hpair
    rw [ofUtf8_eq_some] at htext
    subst htext hid
    have hfits : (utf8 vaultId).length < 65536 := hlength
    have hversion : (UInt32.ofNat v).toNat = v := UInt32.toNat_ofNat_of_lt' hv
    refine ⟨hfits, ?_⟩
    simp [hversion, Nat.mod_eq_of_lt hfits]
  · rintro ⟨hfits, rfl⟩
    have hfits' : (utf8 vaultId).length < 65536 := hfits
    rw [Nat.mod_eq_of_lt hfits']
    refine ⟨(), _, _, rfl, ⟨_, _, _, ⟨hfits, rfl⟩, ⟨_, _, _, ⟨rfl, rfl⟩,
      ⟨_, _, _, ⟨version.toNat_lt, rfl⟩, ⟨vaultId, [], [], ⟨ofUtf8_eq_some.mpr rfl, rfl⟩,
      ⟨?_, rfl⟩, rfl⟩, rfl⟩, rfl⟩, rfl⟩, ?_⟩
    · rw [UInt32.ofNat_toNat]
    · simp

/-- What the documented format promises of one encoding. -/
structure SelfDelimiting (vaultId : String) (version : UInt32) : Prop where
  read_back : readVaultAad.whole (vaultAad vaultId version) = some (vaultId, version)
  length_field :
    ofBigEndian (((vaultAad vaultId version).drop 4).take 2) = (utf8 vaultId).length
  prefix_free : ∀ vaultId' version',
    (vaultAad vaultId' version' : List UInt8) <+: vaultAad vaultId version →
    (vaultId', version') = (vaultId, version)

/-- The format reads an encoding back exactly where the length fits 16 bits. -/
theorem readVaultAad_vaultAad (vaultId : String) (version : UInt32) :
    readVaultAad.whole (vaultAad vaultId version) = some (vaultId, version) ↔
      (utf8 vaultId).length < 65536 := by
  rw [reads_readVaultAad.whole_eq_some, and_iff_left rfl]

theorem length_field_vaultAad (vaultId : String) (version : UInt32) :
    ofBigEndian (((vaultAad vaultId version).drop 4).take 2) =
      (utf8 vaultId).length % 65536 := by
  have htag : (utf8 "evnx").length = 4 := by decide
  rw [vaultAad_octets, List.append_assoc, List.append_assoc, drop_append_of_length htag,
    take_append_of_length (bigEndian_length _ _), ofBigEndian_bigEndian]
  omega

/-- The encodings of two ids that fit are prefixes of each other only if they are one. -/
theorem vaultAad_prefix_eq {vaultId vaultId' : String} {version version' : UInt32}
    (hfits : (utf8 vaultId).length < 65536) (hfits' : (utf8 vaultId').length < 65536)
    (hstart : (vaultAad vaultId' version' : List UInt8) <+: vaultAad vaultId version) :
    (vaultId', version') = (vaultId, version) :=
  reads_readVaultAad.prefix_eq ⟨hfits', rfl⟩ ⟨hfits, rfl⟩ hstart

/-- The promises are kept for exactly the ids of fewer than 65536 bytes, and of two such
encodings neither is a proper prefix of the other. -/
theorem selfDelimiting_iff (vaultId : String) (version : UInt32) :
    (SelfDelimiting vaultId version ↔ (utf8 vaultId).length < 65536) ∧
    ((utf8 vaultId).length < 65536 → ∀ vaultId' version', (utf8 vaultId').length < 65536 →
      ((vaultAad vaultId' version' : List UInt8) <+: vaultAad vaultId version ∨
        (vaultAad vaultId version : List UInt8) <+: vaultAad vaultId' version' ↔
          (vaultId', version') = (vaultId, version))) := by
  refine ⟨⟨?_, ?_⟩, ?_⟩
  · intro h
    exact (readVaultAad_vaultAad vaultId version).mp h.read_back
  · intro hfits
    refine ⟨(readVaultAad_vaultAad vaultId version).mpr hfits, ?_, ?_⟩
    · rw [length_field_vaultAad, Nat.mod_eq_of_lt hfits]
    · intro vaultId' version' hstart
      -- a prefix is no longer, so its id fits as well
      have hle := hstart.length_le
      rw [vaultAad_length, vaultAad_length] at hle
      exact vaultAad_prefix_eq hfits (by omega) hstart
  · intro hfits vaultId' version' hfits'
    constructor
    · rintro (hstart | hstart)
      · exact vaultAad_prefix_eq hfits hfits' hstart
      · exact (vaultAad_prefix_eq hfits' hfits hstart).symm
    · rintro ⟨⟩
      exact .inl (List.prefix_refl _)

/-! ## An id of 65536 bytes -/

/-- As many NUL characters as bring the length field round to zero. -/
def nulId : String := String.ofList (List.replicate 65536 (Char.ofNat 0))

theorem utf8_nuls (n : ℕ) :
    utf8 (String.ofList (List.replicate n (Char.ofNat 0))) = List.replicate n 0 := by
  induction n with
  | zero => rfl
  | succ n ih =>
      have hnul : [Char.ofNat 0].utf8Encode.data.toList = [0] := by decide
      simp only [utf8, String.toUTF8_eq_toByteArray, String.toByteArray_ofList] at ih ⊢
      rw [List.replicate_succ, List.utf8Encode_cons, ByteArray.data_append, Array.toList_append,
        hnul, ih, List.replicate_succ]
      rfl

/-- The format cannot read `nulId` back, and the encoding of the empty id is a
proper prefix of its encoding. -/
theorem nulId_not_selfDelimiting :
    ¬ SelfDelimiting nulId 0 ∧
    (vaultAad "" 0 : List UInt8) <+: vaultAad nulId 0 ∧
    (vaultAad "" 0 : List UInt8) ≠ vaultAad nulId 0 := by
  have hid : utf8 nulId = List.replicate 65536 0 := utf8_nuls 65536
  have hlen : (utf8 nulId).length = 65536 := by rw [hid, List.length_replicate]
  refine ⟨?_, ?_, ?_⟩
  · intro h
    have hfits := (readVaultAad_vaultAad nulId 0).mp h.read_back
    omega
  · have hempty : (vaultAad "" 0 : List UInt8) =
        utf8 "evnx" ++ bigEndian 2 (65536 % 65536) ++ List.replicate 4 0 := by decide
    have hzeros : List.replicate 65536 (0 : UInt8) =
        List.replicate 4 0 ++ List.replicate 65532 0 := by
      rw [List.replicate_append_replicate]
    rw [hempty, vaultAad_octets, hlen, hid, hzeros]
    refine ⟨List.replicate 65532 0 ++ bigEndian 4 (0 : UInt32).toNat, ?_⟩
    simp only [List.append_assoc]
  · intro h
    have hsame := congrArg List.length h
    rw [vaultAad_length, vaultAad_length, hlen] at hsame
    have hzero : (utf8 "").length = 0 := by decide
    omega

end EvnxCrypto
