import Proctor.Proofs.CanonicalText
import Proctor.Proofs.Rereading
import Proctor.Proofs.SignedCommit
import Proctor.Proofs.WireForm

/-!
The score of a signed commit in its document. The signature covers the plain text of the score, and the
document form is read in two roundings, so the score that is read back may be another one. Main statement:
the signed text stays what it was exactly when two roundings bring the score back.
-/

namespace Proctor

/-- A share of counts is at most one. -/
theorem Binary64.divNat_le_one {n d : Nat} (h : n ≤ d) (hd : 0 < d) :
    (divNat n d).magnitude ≤ one.magnitude := by
  have hle := ofNat_mono h
  have hone := one_le_size_ofNat hd
  apply (divNat_spec n hd).2.mono (nearest_sizeAt one.magnitude)
  rw [show sizeAt one.magnitude = 1 from size_one, div_le_one (by linarith)]
  exact hle

theorem ReportCard.score_le_one (card : ReportCard) : card.score.magnitude ≤ Binary64.one.magnitude := by
  unfold score
  split
  · exact le_rfl
  · split
    · decide
    · rename_i hresults
      have hpos : 0 < card.results.length := by
        rwa [List.length_pos_iff, ne_eq, ← List.isEmpty_iff]
      exact Binary64.divNat_le_one (List.length_filter_le ..) hpos

namespace Commit

/-- Another score changes the signed text. -/
theorem encode_withScore_iff {c : Commit} (context : CommitContext) (y : Binary64) :
    ({ c with score := y }.signedFields context).encode = (c.signedFields context).encode ↔
      y = c.score := by
  constructor
  · intro h
    exact Binary64.plainText_injective (sameSigned_of_encode_eq h).2.score
  · rintro rfl
    rfl

/-- As far as digests do not collide, a signature holds for the score that it was made for alone. -/
theorem verify_withScore_iff {c : Commit} {context : CommitContext} {secret : Bytes} {y : Binary64}
    (huncollided :
      ({ c with score := y }.signedFields context).digest secret =
          (c.signedFields context).digest secret →
        ({ c with score := y }.signedFields context).encode = (c.signedFields context).encode) :
    { c with score := y }.verify context secret (c.sign context secret) = .ok () ↔ y = c.score := by
  have hown := Signature.Fields.verify_sign (c.signedFields context) secret "commit"
  constructor
  · intro haccepted
    have hdigest := Signature.Fields.digest_eq_of_verify haccepted hown
    exact (encode_withScore_iff context y).1 (huncollided hdigest)
  · rintro rfl
    exact hown

/-- A commit with the score of a report card is read back as it was but for the score, which may be
another number; the signed text stays the same, and the signature holds, exactly when the score does. With
at most 308 places it does exactly when the shortest digits and the power of ten, each rounded, have a
quotient that is rounded to the score, and always when the digits make at most `2 ^ 53` and the places are
at most 22. -/
theorem score_is_read_back_iff {c : Commit} {card : ReportCard} (hscore : c.score = card.score)
    (hfits : c.FitsButScore) (context : CommitContext) :
    ∃ back, Wire.decode? (ofJson? 0) c.toJson.print = some back ∧ back = { c with score := back.score } ∧
      ((back.signedFields context).encode = (c.signedFields context).encode ↔ back.score = card.score) ∧
      (∀ secret,
        ((back.signedFields context).digest secret = (c.signedFields context).digest secret →
          (back.signedFields context).encode = (c.signedFields context).encode) →
        (back.verify context secret (c.sign context secret) = .ok () ↔ back.score = card.score)) ∧
      (-308 ≤ card.score.shortest.exponent →
        (back.score = card.score ↔
          Binary64.Nearest
            ((Binary64.ofNat card.score.digitsValue).size /
              (Binary64.powerOfTen card.score.shortest.exponent.natAbs).size)
            card.score.magnitude)) ∧
      (card.score.digitsValue ≤ 2 ^ 53 → -22 ≤ card.score.shortest.exponent →
        back.score = card.score) := by
  have hone := card.score_le_one
  obtain ⟨y, hy⟩ := Binary64.exists_reread? hone
  have hread : Json.asBinary64? (Json.ofBinary64 c.score) = some y := by
    rw [hscore, ← hy]
    exact Binary64.binary64?_ofBinary64 hone
  have hkept : card.score.reread? = some card.score ↔ y = card.score := by
    rw [hy, Option.some.injEq]
  refine ⟨{ c with score := y }, ?_, rfl, ?_, ?_, ?_, ?_⟩
  · exact Wire.decode?_print c.writable_toJson (ofJson?_toJson_of_score (by decide) hfits hread)
  · rw [encode_withScore_iff, hscore]
  · intro secret huncollided
    rw [verify_withScore_iff huncollided, hscore]
  · intro hplaces
    rw [← hkept]
    exact Binary64.reread?_eq_some_iff hone hplaces
  · intro hdigits hplaces
    exact hkept.1 (Binary64.reread?_of_short hone hdigits hplaces)

/-- A failed card whose tests had these outcomes. -/
def failedCard (outcomes : List Outcome) : ReportCard where
  passed := false
  results := outcomes.map fun outcome => { name := "test", outcome }

def gradedBy (outcomes : List Outcome) : Commit where
  step := 1
  action := "grade"
  reportCard := some (failedCard outcomes)
  score := (failedCard outcomes).score
  createdAt := .ofSeconds 0
  updatedAt := .ofSeconds 0

theorem gradedBy_fits (outcomes : List Outcome) : (gradedBy outcomes).FitsButScore := by
  have hstart : (Instant.ofSeconds 0).Fits := by decide
  have hzero : Json.IsInt64 0 := by decide
  have hstep : Json.IsInt64 1 := by decide
  exact ⟨hzero, hzero, hzero, hstep, (fun _ h => nomatch h), hstart, hstart⟩

/-- With half of the tests the commit is read back as it was. -/
theorem half_score_is_read_back :
    let c := gradedBy [.passed, .failed]
    c.score = (failedCard [.passed, .failed]).score ∧ c.FitsButScore ∧
      Wire.decode? (ofJson? 0) c.toJson.print = some c := by
  intro c
  have hscore : c.score = (failedCard [.passed, .failed]).score := rfl
  have hfits : c.FitsButScore := gradedBy_fits _
  obtain ⟨back, hdecode, hback, -, -, -, hshort⟩ :=
    score_is_read_back_iff hscore hfits ⟨"", "", "localhost", 42⟩
  have hkept : back.score = c.score := hshort (by decide +kernel) (by decide +kernel)
  rw [hback, hkept] at hdecode
  exact ⟨hscore, hfits, hdecode⟩

/-- One test of eleven: the score `0.09090909090909091` is read back as `0.09090909090909093`, and the
signature does not hold any more. -/
theorem eleventh_score_is_not_read_back :
    let c := gradedBy (.passed :: List.replicate 10 .failed)
    let y : Binary64 := ⟨false, 0x3FB745D1745D1747, by decide⟩
    Wire.decode? (ofJson? 0) c.toJson.print = some { c with score := y } ∧
      c.score.plainText = "0.09090909090909091" ∧ y.plainText = "0.09090909090909093" ∧
      ∀ context secret,
        (({ c with score := y }.signedFields context).digest secret =
            (c.signedFields context).digest secret →
          ({ c with score := y }.signedFields context).encode = (c.signedFields context).encode) →
        { c with score := y }.verify context secret (c.sign context secret) ≠ .ok () := by
  intro c y
  have hread : Json.asBinary64? (Json.ofBinary64 c.score) = some y := by decide +kernel
  have hother : y ≠ c.score := by decide +kernel
  refine ⟨?_, by decide +kernel, by decide +kernel, ?_⟩
  · exact Wire.decode?_print c.writable_toJson
      (ofJson?_toJson_of_score (by decide) (gradedBy_fits _) hread)
  · intro context secret huncollided haccepted
    exact hother ((verify_withScore_iff huncollided).1 haccepted)

end Commit

end Proctor
