import Proctor.Proofs.CanonicalText
import Proctor.Proofs.StrictBase64

/-!
A signature has one spelling. It is read strictly and compared as bytes, so of all texts without blanks
around them only the one that signing gives is accepted.

Main statement: `signature_has_one_spelling`, for all fields, secrets and texts.
-/

namespace Proctor.Signature.Fields

theorem length_digest (f : Fields) (secret : Bytes) : (f.digest secret).length = 32 := by
  simp [digest, Sha256.hmac, Sha256.hash, Sha256.wordBytes]

variable {f : Fields} {secret : Bytes} {signature record : String}

theorem verify_eq_ok_iff_trim :
    f.verify secret signature record = .ok () ↔ Text.trim signature = f.sign secret := by
  rw [verify_eq_ok_iff, Base64.decode?_eq_some_iff]
  rfl

theorem verify_eq_malformed_iff :
    f.verify secret signature record = .error .malformed ↔
      ¬Base64.Canonical (Text.trim signature).toList := by
  rw [← Base64.decode?_eq_none_iff, verify]
  cases Base64.decode? (Text.trim signature) with
  | none => simp
  | some bytes => by_cases h : bytes = f.digest secret <;> simp [h]

theorem verify_eq_mismatch_iff :
    f.verify secret signature record = .error (.mismatch record) ↔
      Base64.Canonical (Text.trim signature).toList ∧ Text.trim signature ≠ f.sign secret := by
  have hread : Base64.Canonical (Text.trim signature).toList ↔
      Base64.decode? (Text.trim signature) ≠ none := by
    rw [ne_eq, Base64.decode?_eq_none_iff, not_not]
  have hsigned : Text.trim signature ≠ f.sign secret ↔
      Base64.decode? (Text.trim signature) ≠ some (f.digest secret) :=
    Base64.decode?_eq_some_iff.symm.not
  rw [hread, hsigned, verify]
  cases Base64.decode? (Text.trim signature) with
  | none => simp
  | some bytes => by_cases h : bytes = f.digest secret <;> simp [h]

/-- Bytes of another number than a digest has are read, and refused as any other bytes are. -/
theorem verify_eq_mismatch_of_length {bytes : Bytes} (hread : Text.trim signature = Base64.encode bytes)
    (hlength : bytes.length ≠ 32) : f.verify secret signature record = .error (.mismatch record) := by
  rw [verify, hread, Base64.decode?_encode]
  apply if_neg
  rintro rfl
  exact hlength (f.length_digest secret)

/-- A signature is accepted exactly when, without the blanks around it, it is the text that signing gives.
It is malformed exactly when that is not canonical base64; any other text is a mismatch, also one of more or
fewer bytes than a digest has. -/
theorem signature_has_one_spelling (f : Fields) (secret : Bytes) (signature record : String) :
    Text.Surrounds signature (Text.trim signature) ∧
    (f.verify secret signature record = .ok () ↔ Text.trim signature = f.sign secret) ∧
    (f.verify secret signature record = .error .malformed ↔
      ¬Base64.Canonical (Text.trim signature).toList) ∧
    (f.verify secret signature record = .error (.mismatch record) ↔
      Base64.Canonical (Text.trim signature).toList ∧ Text.trim signature ≠ f.sign secret) ∧
    ∀ bytes, Text.trim signature = Base64.encode bytes → bytes.length ≠ 32 →
      f.verify secret signature record = .error (.mismatch record) := by
  refine ⟨Text.surrounds_trim signature, verify_eq_ok_iff_trim, verify_eq_malformed_iff,
    verify_eq_mismatch_iff, ?_⟩
  intro bytes hread hlength
  exact verify_eq_mismatch_of_length hread hlength

/-- Blanks around a signature do not matter, but an unused bit does, and three bytes are no digest. -/
theorem other_spellings_of_signature :
    let f := empty.addText "name" "python3"
    f.verify [1] (" " ++ f.sign [1] ++ "\n") "test" = .ok () ∧
      f.verify [1] "AAB=" "test" = .error .malformed ∧
      f.verify [1] "AAAA" "test" = .error (.mismatch "test") := by
  intro f
  obtain ⟨-, haccepted, -⟩ := signature_has_one_spelling f [1] (" " ++ f.sign [1] ++ "\n") "test"
  obtain ⟨-, -, hmalformed, -⟩ := signature_has_one_spelling f [1] "AAB=" "test"
  obtain ⟨-, -, -, -, hmismatch⟩ := signature_has_one_spelling f [1] "AAAA" "test"
  refine ⟨haccepted.2 (Text.trim_eq_iff.2 ?_), hmalformed.2 ?_, hmismatch [0, 0, 0] (by decide) (by decide)⟩
  · have hshown : ∀ c ∈ (f.sign [1]).toList, Text.isBlank c = false := by
      rw [sign, Base64.encode, String.toList_ofList]
      exact Base64.chars_not_blank _
    refine ⟨⟨[' '], ['\n'], by simp, List.forall_mem_singleton.2 (by decide),
      List.forall_mem_singleton.2 (by decide)⟩, ?_, ?_⟩
    · exact fun c hc => hshown c (List.mem_of_mem_head? hc)
    · exact fun c hc => hshown c (List.mem_of_mem_getLast? hc)
  · rw [← Base64.decode?_eq_none_iff]
    decide

end Proctor.Signature.Fields
