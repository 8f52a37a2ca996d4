import Proctor.Proofs.RecordKinds
import Proctor.Proofs.RegistryLog

/-!
What a registration signature binds. The problem types are signed in order, each under a key with its place
in that order, so the text gives back the ordered list, and with it the types and how often each occurs.

Main statement: `signed_text_eq_iff_sameSigned`, for registrations with any number of problem types.
-/

namespace Proctor.Registration

open Signature

/-- Some problem types are put in the same order exactly when they are the same types, each as often. -/
theorem sorted_eq_sorted_iff {types types' : List String} :
    sorted types = sorted types' ↔ types.Perm types' := by
  rw [eq_sorted_iff]
  constructor
  · rintro ⟨hperm, -⟩
    exact (sorted_perm types).symm.trans hperm
  · intro hperm
    exact ⟨(sorted_perm types).trans hperm, sorted_pairwise types⟩

/-! ### Keys with places -/

def typeStem (n : Nat) : String :=
  s!"problemType-{Decimal.text n}"

theorem toList_typeStem (n : Nat) : (typeStem n).toList = "problemType-".toList ++ Decimal.chars n := by
  simp [typeStem, Decimal.text, toString]

/-- Types at different places are under different keys. -/
theorem typeStem_injective {m n : Nat} (h : typeStem m = typeStem n) : m = n := by
  have hlist := congrArg String.toList h
  rw [toList_typeStem, toList_typeStem] at hlist
  exact Decimal.chars_injective (List.append_cancel_left hlist)

/-- What some problem types add, each under its place. -/
def typePairs (types : List String) : List (String × Bytes) :=
  types.zipIdx.flatMap fun p => prefixed (typeStem p.2) (textPairs [("", p.1)])

/-- What all other fields add. -/
def headTexts (r : Registration) : List (String × String) :=
  [("hostname", r.hostname), ("capacity", Decimal.text r.capacity), ("time", r.time.canonical),
    ("version", r.version)]

def headNames : List String :=
  ["hostname", "capacity", "time", "version"]

theorem valuesAt_signedPairs (r : Registration) (key : String) :
    valuesAt key r.signedPairs = valuesAt key (textPairs (r.headTexts.take 1)) ++
      valuesAt key (typePairs (sorted r.problemTypes)) ++
      valuesAt key (textPairs (r.headTexts.drop 1)) := by
  have htypes : textPairs ((sorted r.problemTypes).zipIdx.map fun p => (typeStem p.2, p.1)) =
      typePairs (sorted r.problemTypes) := by
    simp [typePairs, typeStem, textPairs, prefixed, List.map_eq_flatMap, List.flatMap_assoc]
  rw [← htypes, ← valuesAt_append, ← valuesAt_append]
  simp [signedPairs, headTexts, textPairs, typeStem]

theorem typeStem_not_mem_headNames (n : Nat) (rest : String) : typeStem n ++ rest ∉ headNames := by
  have hstarts : ∀ name ∈ headNames, ¬"problemType-".toList <+: name.toList := by decide
  intro h
  apply hstarts _ h
  rw [String.toList_append, toList_typeStem, List.append_assoc]
  exact List.prefix_append ..

theorem valuesAt_head (r : Registration) {key : String} (h : key ∈ headNames) :
    valuesAt key r.signedPairs = valuesAt key (textPairs r.headTexts) := by
  have htypes : valuesAt key (typePairs (sorted r.problemTypes)) = [] := by
    rw [typePairs, valuesAt_flatMap, List.flatMap_eq_nil_iff]
    intro p _
    exact valuesAt_prefixed_of_ne fun q _ he => typeStem_not_mem_headNames p.2 q.1 (he ▸ h)
  rw [valuesAt_signedPairs, htypes, List.append_nil, ← valuesAt_append]
  rfl

theorem valuesAt_typeStem (r : Registration) (n : Nat) :
    valuesAt (typeStem n) r.signedPairs = ((sorted r.problemTypes)[n]?.map Utf8.encode).toList := by
  have hhead {l : List (String × String)} (hl : ∀ p ∈ l, p.1 ∈ headNames) :
      valuesAt (typeStem n) (textPairs l) = [] := by
    apply valuesAt_textPairs_of_not_mem
    intro p hp he
    apply typeStem_not_mem_headNames n ""
    rw [String.append_empty, ← he]
    exact hl p hp
  have hblocks := valuesAt_numbered typeStem (fun name => textPairs [("", name)]) n "" ?_
    (sorted r.problemTypes)
  · rw [String.append_empty, ← typePairs] at hblocks
    rw [valuesAt_signedPairs, hblocks, hhead (by simp [headTexts, headNames]),
      hhead (by simp [headTexts, headNames]), List.nil_append, List.append_nil]
    cases (sorted r.problemTypes)[n]? <;> rfl
  · intro i name p hp he
    obtain rfl : p = ("", Utf8.encode name) := by simpa [textPairs] using hp
    rw [String.append_empty, String.append_empty] at he
    exact typeStem_injective he

/-! ### What the text tells -/

/-- What is signed of a registration: the time as it is written, and the problem types in any order. -/
structure SameSigned (r r' : Registration) : Prop where
  hostname : r.hostname = r'.hostname
  problemTypes : r.problemTypes.Perm r'.problemTypes
  capacity : r.capacity = r'.capacity
  time : r.time.canonical = r'.time.canonical
  version : r.version = r'.version

variable {r r' : Registration}

theorem headTexts_of_values (h : ∀ key, valuesAt key r.signedPairs = valuesAt key r'.signedPairs) :
    r.headTexts = r'.headTexts := by
  apply texts_ext headNames rfl rfl (by decide)
  intro key hkey
  rw [← valuesAt_head r hkey, ← valuesAt_head r' hkey, h]

theorem sorted_of_values (h : ∀ key, valuesAt key r.signedPairs = valuesAt key r'.signedPairs) :
    sorted r.problemTypes = sorted r'.problemTypes := by
  apply List.ext_getElem?
  intro n
  have hvalues := h (typeStem n)
  rw [valuesAt_typeStem, valuesAt_typeStem] at hvalues
  exact Option.map_injective (fun _ _ => Utf8.encode_injective) (option_toList_injective hvalues)

theorem sameSigned_of_values (h : ∀ key, valuesAt key r.signedPairs = valuesAt key r'.signedPairs) :
    r.SameSigned r' := by
  have hhead := headTexts_of_values h
  simp only [headTexts, List.cons.injEq, Prod.mk.injEq, true_and, and_true] at hhead
  obtain ⟨hhostname, hcapacity, htime, hversion⟩ := hhead
  exact ⟨hhostname, sorted_eq_sorted_iff.1 (sorted_of_values h), Decimal.text_injective hcapacity, htime,
    hversion⟩

theorem SameSigned.signedFields_eq (h : r.SameSigned r') : r.signedFields = r'.signedFields := by
  simp only [signedFields, Fields.addTime, h.hostname, sorted_eq_sorted_iff.2 h.problemTypes, h.capacity,
    h.time, h.version]

/-- Two registrations have one text exactly when what is signed of them is the same. -/
theorem encode_eq_iff : r.signedFields.encode = r'.signedFields.encode ↔ r.SameSigned r' := by
  constructor
  · intro htext
    apply sameSigned_of_values
    intro key
    rw [← valuesOf_signedFields, ← valuesOf_signedFields, Fields.encode_eq_iff.1 htext]
  · intro h
    rw [h.signedFields_eq]

theorem SameSigned.verify_eq (h : r.SameSigned r') (secret : Bytes) (signature : String) :
    { r with signature }.verify secret = { r' with signature }.verify secret := by
  show r.signedFields.verify secret signature "registration" = _
  rw [h.signedFields_eq]
  rfl

/-- A signature of one registration is refused for another, unless their digests collide. -/
theorem verify_eq_mismatch {secret : Bytes} {signature : String}
    (haccepted : { r with signature }.verify secret = .ok ())
    (hdigest : r.signedFields.digest secret ≠ r'.signedFields.digest secret) :
    { r' with signature }.verify secret = .error (.mismatch "registration") := by
  have hread := Fields.verify_eq_ok_iff.1 haccepted
  show r'.signedFields.verify secret signature "registration" = _
  rw [Fields.verify, hread]
  exact if_neg hdigest

/-- Registrations have one text exactly when they have the same host, capacity, version and written time and
the same problem types, each as often. So a signed registration is accepted in any order of its types, and
any other change of what is signed is refused, as far as the two texts do not collide. -/
theorem signed_text_eq_iff_sameSigned (r r' : Registration) :
    (r.signedFields.encode = r'.signedFields.encode ↔ r.SameSigned r') ∧
    (∀ secret types, types.Perm r.problemTypes →
      { r.sign secret with problemTypes := types }.verify secret = .ok ()) ∧
    ∀ secret signature, { r with signature }.verify secret = .ok () → ¬r.SameSigned r' →
      (r.signedFields.digest secret = r'.signedFields.digest secret →
        r.signedFields.encode = r'.signedFields.encode) →
      { r' with signature }.verify secret = .error (.mismatch "registration") := by
  refine ⟨encode_eq_iff, ?_, ?_⟩
  · intro secret types hperm
    have hsame : SameSigned { r with problemTypes := types } r := ⟨rfl, hperm, rfl, rfl, rfl⟩
    calc { r.sign secret with problemTypes := types }.verify secret
        = (r.sign secret).verify secret := hsame.verify_eq secret (r.sign secret).signature
      _ = .ok () := r.verify_sign secret
  · intro secret signature haccepted hchanged huncollided
    apply verify_eq_mismatch haccepted
    intro hdigest
    exact hchanged (encode_eq_iff.1 (huncollided hdigest))

/-- A type that is offered twice may stand anywhere, but it may not be left out once. -/
theorem offered_twice_not_once :
    let r : Registration :=
      { hostname := "daycare-1", problemTypes := ["python3", "nand", "python3"], capacity := 4,
        time := .ofSeconds 0, version := "1" }
    let once : Registration := { r with problemTypes := ["nand", "python3"] }
    { r.sign [1] with problemTypes := ["nand", "python3", "python3"] }.verify [1] = .ok () ∧
      r.signedFields.encode ≠ once.signedFields.encode ∧
      ((r.signedFields.digest [1] = once.signedFields.digest [1] →
          r.signedFields.encode = once.signedFields.encode) →
        { once with signature := (r.sign [1]).signature }.verify [1] =
          .error (.mismatch "registration")) := by
  intro r once
  obtain ⟨htext, hreordered, hrefused⟩ := signed_text_eq_iff_sameSigned r once
  have hchanged : ¬r.SameSigned once := fun h => absurd h.problemTypes.length_eq (by decide)
  refine ⟨hreordered [1] _ (by decide), fun he => hchanged (htext.1 he), ?_⟩
  exact hrefused [1] (r.sign [1]).signature (r.verify_sign [1]) hchanged

end Proctor.Registration
