import Fips.Noise.Primitives

set_option autoImplicit false

/-! Primitives over the units of `ZMod 5`, on which all the assumptions made of the
cryptographic libraries hold together. -/

namespace Fips.Noise.SmallGroup

abbrev Key := (ZMod 5)ˣ

def coordinate (u : Key) : UInt8 := if u.val.val = 1 ∨ u.val.val = 4 then 1 else 2

def serialize (u : Key) : Bytes :=
  (if u.val.val ≤ 2 then 2 else 3) :: (List.replicate 31 0 ++ [coordinate u])

def two : Key := ⟨2,3,by decide,by decide⟩

def fromSlice (bytes : Bytes) : Option Key :=
  [1,-1,two,-two].find? fun u => serialize u = bytes

def pair : Bytes → Bytes → Bytes
  | [], ikm => 0 :: ikm
  | b :: salt, ikm => 1 :: b :: pair salt ikm

def aeadOpen (_ : Bytes) (_ : Nat) (_ ciphertext : Bytes) : Option Bytes :=
  let size := ciphertext.length - tagSize
  if ciphertext.drop size = List.replicate tagSize 0 then some (ciphertext.take size) else none

def primitives : Primitives Key Key where
  publicKey := id
  serialize := serialize
  fromSlice := fromSlice
  sharedSecretPoint theirs ours :=
    List.replicate 31 0 ++ [coordinate (theirs * ours)] ++ List.replicate 32 0
  sha256 bytes := 0 :: bytes
  hkdf salt ikm := (1 :: pair salt ikm,2 :: pair salt ikm)
  aeadSeal _ _ _ plaintext := plaintext ++ List.replicate tagSize 0
  aeadOpen := aeadOpen

theorem key_cases (u : Key) : u = 1 ∨ u = -1 ∨ u = two ∨ u = -two := by
  revert u
  decide

theorem coordinate_eq_iff (u v : Key) : coordinate u = coordinate v ↔ u = v ∨ u = -v := by
  revert u v
  decide

theorem pair_injective (salt ikm salt' ikm' : Bytes) (h : pair salt ikm = pair salt' ikm') :
    salt = salt' ∧ ikm = ikm' := by
  induction salt generalizing salt' with
  | nil =>
    cases salt' with
    | nil => simpa [pair] using h
    | cons b salt' => simp [pair] at h
  | cons b salt ih =>
    cases salt' with
    | nil => simp [pair] at h
    | cons b' salt' =>
      simp only [pair,List.cons.injEq,true_and] at h
      obtain ⟨rfl,rest⟩ := h
      obtain ⟨rfl,rfl⟩ := ih salt' rest
      exact ⟨rfl,rfl⟩

theorem encodingLaws : primitives.EncodingLaws where
  serialize_length u := by
    obtain rfl | rfl | rfl | rfl := key_cases u <;> decide
  fromSlice_serialize u := by
    obtain rfl | rfl | rfl | rfl := key_cases u <;> decide
  serialize_neg_tail u := by
    obtain rfl | rfl | rfl | rfl := key_cases u <;> decide

theorem sharedX_eq (a b : Key) :
    primitives.sharedX (primitives.publicKey a) b = List.replicate 31 0 ++ [coordinate (a * b)] := by
  simp [Primitives.sharedX,primitives]

theorem curveLaws : primitives.CurveLaws where
  publicKey_surjective := Function.surjective_id
  sharedX_eq_iff a b c d := by
    rw [sharedX_eq,sharedX_eq,List.append_cancel_left_eq,List.singleton_inj,coordinate_eq_iff]

theorem canonicalLaws : primitives.CanonicalLaws where
  serialize_of_fromSlice bytes key _ h := by
    change serialize key = bytes
    simpa using List.find?_some h
  parity u := by
    obtain rfl | rfl | rfl | rfl := key_cases u <;> decide

theorem aeadLaws : primitives.AeadLaws where
  open_seal key counter aad plaintext := by
    simp [primitives,aeadOpen]
  seal_length key counter aad plaintext := by
    simp [primitives]

theorem sha256_injective : Function.Injective primitives.sha256 := by
  intro a b same
  simpa [primitives] using same

theorem hkdfLaws (names : List Bytes) : primitives.HkdfLaws names where
  fst_injective ck ck' ikm ikm' _ _ h := pair_injective ck ikm ck' ikm' (by simpa [primitives] using h)
  snd_injective ck ck' ikm ikm' _ _ h := pair_injective ck ikm ck' ikm' (by simpa [primitives] using h)
  fst_ne_start name _ ck ikm _ := by simp [primitives]

end Fips.Noise.SmallGroup
