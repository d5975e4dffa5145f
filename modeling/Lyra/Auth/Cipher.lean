import Lyra.Store.Schema

/-!
# Encrypted secrets

`encrypt` and `decrypt` of `crypto.rs`, which call AES-256-GCM with a fresh nonce: a parameter
of the model, with what the code relies on.
-/

namespace Lyra

/-- `κ` are the keys, `ν` the nonces and `β` the stored texts of `EncryptedCredential`s. -/
structure Cipher (κ ν β : Type) where
  encrypt : κ → ν → Text → β
  decrypt : κ → β → Option Text
  decrypt_encrypt : ∀ k n p, decrypt k (encrypt k n p) = some p
  /-- The tag of another key does not verify. -/
  decrypt_other : ∀ k k' n p, k ≠ k' → decrypt k' (encrypt k n p) = none

/-- A blob that carries its key and its text in the clear. -/
structure ClearBlob (κ : Type) where
  key : κ
  text : Text
  deriving DecidableEq, Repr

/-- A cipher to run the model with. -/
def clearCipher {κ : Type} [DecidableEq κ] : Cipher κ Unit (ClearBlob κ) where
  encrypt k _ p := ⟨k, p⟩
  decrypt k b := if b.key = k then some b.text else none
  decrypt_encrypt _ _ _ := if_pos rfl
  decrypt_other _ _ _ _ h := if_neg h

end Lyra
