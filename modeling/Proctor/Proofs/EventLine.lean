import Proctor.Event
import Proctor.Proofs.CanonicalText
import Proctor.Proofs.Decimal

/-!
What the line of an event tells. The name of the event ends at a blank and what follows it is spelled
without loss, so two lines are equal only for events that carry the same; a command is told as the one
line that its words make, and files by their names alone.
-/

namespace Proctor

namespace Text

/-- How many characters a spelled byte has, as its first two tell. -/
def spelledLength : List Char → Nat
  | c :: d :: _ => if c = '\\' then if d = 'x' then 4 else 2 else 1
  | _ => 1

/-- The number of the byte that is spelled so. -/
def spelledNumber : List Char → Nat
  | ['\\', 'x', high, low] => 16 * (Hex.value? high).getD 0 + (Hex.value? low).getD 0
  | ['\\', 't'] => 9
  | ['\\', 'r'] => 13
  | ['\\', 'n'] => 10
  | ['\\', c] => c.toNat
  | [c] => c.toNat
  | _ => 0

/-- No two bytes are spelled in one way. -/
theorem spelledNumber_spelledByte (b : UInt8) : spelledNumber (spelledByte b) = b.toNat := by
  have all : ∀ n < 256, spelledNumber (spelledByte (UInt8.ofNat n)) = n := by decide +kernel
  have hb := all b.toNat b.toNat_lt
  rwa [UInt8.ofNat_toNat] at hb

theorem spelledLength_append (b : UInt8) (s : List Char) :
    spelledLength (spelledByte b ++ s) = (spelledByte b).length := by
  fun_cases spelledByte b
  case case7 _ _ _ _ _ hbackslash _ =>
    have hne : Char.ofNat b.toNat ≠ '\\' := fun he =>
      hbackslash (Signature.char_toNat_injective he)
    cases s <;> simp [spelledLength, hne]
  all_goals rfl

/-- Spelled bytes are read off one after another. -/
theorem spelledByte_append_inj {b c : UInt8} {s t : List Char}
    (h : spelledByte b ++ s = spelledByte c ++ t) : b = c ∧ s = t := by
  have hlength : (spelledByte b).length = (spelledByte c).length := by
    rw [← spelledLength_append b s, h, spelledLength_append]
  obtain ⟨hspelled, hrest⟩ := List.append_inj h hlength
  have hnumber := congrArg spelledNumber hspelled
  rw [spelledNumber_spelledByte, spelledNumber_spelledByte] at hnumber
  exact ⟨UInt8.toNat_inj.1 hnumber, hrest⟩

theorem spelledByte_ne_nil (b : UInt8) : spelledByte b ≠ [] := by
  fun_cases spelledByte b <;> simp

theorem spelled_injective {bs cs : Bytes} (h : spelled bs = spelled cs) : bs = cs :=
  flatMap_injective spelledByte_ne_nil spelledByte_append_inj (String.ofList_injective h)

end Text

theorem Stream.name_injective {s s' : Stream} (h : s.name = s'.name) : s = s' := by
  cases s <;> cases s' <;> simp_all [Stream.name]

/-- No stream has the name of another kind of event. -/
theorem Stream.name_ne (s : Stream) :
    s.name ≠ "exec" ∧ s.name ≠ "exit" ∧ s.name ≠ "error" ∧ s.name ≠ "files" := by
  cases s <;> simp [Stream.name]

namespace Event

/-- What stands after the name of an event in its line. -/
def afterName : Event → List Char
  | .exec command => (" ".intercalate command).toList
  | .stream _ data => '"' :: ((Text.spelled data).toList ++ ['"'])
  | .exit status => (Decimal.signedText status).toList
  | .error message => message.toList
  | .files contents => (", ".intercalate contents.keys).toList

theorem toList_describe (e : Event) :
    e.describe.toList = "event: ".toList ++ (e.name.toList ++ ' ' :: e.afterName) := by
  cases e <;> simp [describe, afterName, name, toString]

theorem blank_not_mem_name (e : Event) : ' ' ∉ e.name.toList := by
  cases e with
  | stream s data => cases s <;> simp [name, Stream.name]
  | _ => simp [name]

/-- The name of an event ends at the first blank of its line. -/
theorem name_afterName_eq_of_describe_eq {e e' : Event} (h : e.describe = e'.describe) :
    e.name = e'.name ∧ e.afterName = e'.afterName := by
  have hlist := congrArg String.toList h
  rw [toList_describe, toList_describe] at hlist
  obtain ⟨hname, hafter⟩ := append_separator_inj (blank_not_mem_name e) (blank_not_mem_name e')
    (List.append_cancel_left hlist)
  exact ⟨String.toList_injective hname, hafter⟩

/-- The contents of the files that an event carries. -/
def contents : Event → KeyMap Bytes
  | .files contents => contents
  | _ => .empty

/-- Events that signatures do not tell apart: the same, or commands that make one line. -/
def SameSigned : Event → Event → Prop
  | .exec command, .exec command' => " ".intercalate command = " ".intercalate command'
  | e, e' => e = e'

theorem SameSigned.describe_eq {e e' : Event} (h : e.SameSigned e') : e.describe = e'.describe := by
  cases e <;> cases e' <;> simp_all [SameSigned, describe]

theorem SameSigned.contents_eq {e e' : Event} (h : e.SameSigned e') : e.contents = e'.contents := by
  cases e <;> cases e' <;> simp_all [SameSigned, contents]

/-- A line and the files with it tell an event, up to how a command is split into words. -/
theorem sameSigned_of_describe_eq {e e' : Event} (h : e.describe = e'.describe)
    (hcontents : e.contents = e'.contents) : e.SameSigned e' := by
  obtain ⟨hname, hafter⟩ := name_afterName_eq_of_describe_eq h
  cases e <;> cases e'
  case exec.exec command command' => exact String.toList_injective hafter
  case stream.stream s data s' data' =>
    have hspelled := List.append_cancel_right (List.cons.inj hafter).2
    rw [Stream.name_injective hname, Text.spelled_injective (String.toList_injective hspelled)]
    rfl
  case exit.exit status status' =>
    exact congrArg exit (Decimal.signedText_injective (String.toList_injective hafter))
  case error.error message message' => exact congrArg error (String.toList_injective hafter)
  case files.files files files' => exact congrArg Event.files hcontents
  -- events of different kinds have different names
  all_goals grind [name, Stream.name_ne]

end Event

end Proctor
