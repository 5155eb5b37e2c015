import HaclStar.Correctness.SecretBox
import HaclStar.SecureApi.Quic

/-! The labels of the QUIC provider keep the secrets and keys derived under them apart. -/

namespace HaclStar.Correctness.QuicLabel

open Endianness Memory SecureApi.Quic Correctness.SecretBox

variable {h h' : Mem} {info info' label label' : Buffer} {keyLen keyLen' : UInt16}

/--
For each hash function, any two labels that are short enough are written with at most 323 bytes, and when one
of them starts the other, then their strings and key lengths are the same.

A longer label is refused, and nothing is written.
-/
theorem tls_label_prefix_free {a : QuicHash} (strong : a ≠ .weak) (views : LabelViews h info label)
    (views' : LabelViews h' info' label') :
    (249 < (stringAt h label).length → quicCryptoTlsLabel a info label keyLen h = some (none, h)) ∧
    ((stringAt h label).length ≤ 249 → (stringAt h' label').length ≤ 249 → ∃ first second : Bytes,
      quicCryptoTlsLabel a info label keyLen h = some (some first.length, h.write info first) ∧
      quicCryptoTlsLabel a info' label' keyLen' h' = some (some second.length, h'.write info' second) ∧
      first.length ≤ 323 ∧
      (first <+: second ∨ second <+: first → stringAt h label = stringAt h' label' ∧ keyLen = keyLen')) := by
  refine ⟨quicCryptoTlsLabel_refuses views, ?_⟩
  intro short short'
  refine ⟨_, _, quicCryptoTlsLabel_run strong views short, quicCryptoTlsLabel_run strong views' short',
    labelBytes_length_le short, ?_⟩
  rintro (start | start)
  · exact labelBytes_prefix short short' start
  · obtain ⟨labels, lengths⟩ := labelBytes_prefix short' short start
    exact ⟨labels.symm, lengths.symm⟩

/-- The empty label with the context, and with a key length equal to that of the hash. -/
theorem tls_label_prefix_free_empty :
    (249 < (stringAt (zeroMem [323, 1]) (whole 1 1)).length →
      quicCryptoTlsLabel .sha256 (whole 0 323) (whole 1 1) 0 (zeroMem [323, 1]) = some (none, zeroMem [323, 1])) ∧
    ((stringAt (zeroMem [323, 1]) (whole 1 1)).length ≤ 249 →
      (stringAt (zeroMem [323, 1]) (whole 1 1)).length ≤ 249 → ∃ first second : Bytes,
      quicCryptoTlsLabel .sha256 (whole 0 323) (whole 1 1) 0 (zeroMem [323, 1]) =
        some (some first.length, (zeroMem [323, 1]).write (whole 0 323) first) ∧
      quicCryptoTlsLabel .sha256 (whole 0 323) (whole 1 1) 32 (zeroMem [323, 1]) =
        some (some second.length, (zeroMem [323, 1]).write (whole 0 323) second) ∧
      first.length ≤ 323 ∧
      (first <+: second ∨ second <+: first →
        stringAt (zeroMem [323, 1]) (whole 1 1) = stringAt (zeroMem [323, 1]) (whole 1 1) ∧ (0 : UInt16) = 32)) :=
  tls_label_prefix_free (by decide) (by constructor <;> decide +kernel) (by constructor <;> decide +kernel)

end HaclStar.Correctness.QuicLabel
