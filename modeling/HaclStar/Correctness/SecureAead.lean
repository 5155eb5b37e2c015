import HaclStar.SecureApi.AEADReal

/-! The secure API with a concrete cipher. -/

namespace HaclStar.Correctness.SecureAead

open Endianness Memory SecureApi SecureApi.PRF SecureApi.AEAD

variable {i : Id} {fl : Flags} {key : Bytes}

/--
Without idealization, decryption restores what was encrypted under the same nonce and additional data.

It accepts exactly the tags under the one-time keys, and leaves the plaintext buffer as it was otherwise.
-/
theorem aead_real_correct (clear : fl.prf i = false) (coins : Coins) (size : key.length = PRF.keylen i) :
    ∃ st w0, AEAD.coerce fl i key = some (st, w0) ∧
      (∀ n aad plain out buffer w w', out.length = plain.length + 16 → buffer.length = plain.length →
        ∃ cipherTagged w1 w2, encrypt fl coins st n aad plain out w = some (cipherTagged, w1) ∧
          cipherTagged.length = plain.length + 16 ∧
          decrypt fl coins st n aad buffer cipherTagged w' = some (true, plain, w2)) ∧
      (∀ n aad cipher tag buffer w, tag.length = 16 → buffer.length = cipher.length →
        ∃ w', decrypt fl coins st n aad buffer (cipher ++ tag) w = some (decide (tag = authTag fl i key n aad cipher),
          if tag = authTag fl i key n aad cipher then padded fl i key n cipher else buffer, w')) := by
  refine ⟨_, _, coerce_run clear size, ?_, ?_⟩
  · intro n aad plain out buffer w w' room same
    obtain ⟨logs, ran⟩ := encrypt_real coins clear size room n aad w
    obtain ⟨w2, ran'⟩ := decrypt_real coins clear size
      (same.trans (padded_length fl i key n plain).symm)
      (authTag_length fl i key n aad (padded fl i key n plain)) n aad w'
    rw [if_pos rfl, padded_padded, decide_eq_true rfl] at ran'
    exact ⟨_, _, w2, ran, by rw [List.length_append, padded_length, authTag_length], ran'⟩
  · intro n aad cipher tag buffer w full same
    obtain ⟨w', ran⟩ := decrypt_real coins clear size same full n aad w
    simp only [eq_comm (a := tag)]
    exact ⟨w', ran⟩

/-- A text of one byte under a key of zeros. -/
theorem aead_real_correct_byte :
    ∃ (st : AEAD.State .chacha20Poly1305) (w0 : AEAD.World .chacha20Poly1305),
      AEAD.coerce Flags.real .chacha20Poly1305 (List.replicate 32 0) = some (st, w0) ∧
      ∃ cipherTagged w1 w2,
        encrypt Flags.real (fun _ _ => 0) st 0 [] [1] (List.replicate 17 0) w0 = some (cipherTagged, w1) ∧
        cipherTagged.length = 17 ∧
        decrypt Flags.real (fun _ _ => 0) st 0 [] [0] cipherTagged w0 = some (true, [1], w2) := by
  obtain ⟨st, w0, made, opened, -⟩ := @aead_real_correct .chacha20Poly1305 Flags.real
    (List.replicate 32 0) rfl (fun _ _ => 0) rfl
  exact ⟨st, w0, made, opened 0 [] [1] (List.replicate 17 0) [0] w0 w0 rfl rfl⟩

end HaclStar.Correctness.SecureAead
